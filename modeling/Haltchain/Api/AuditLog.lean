import Haltchain.Lib.HashChain
import Haltchain.Merkle.Inclusion
import Haltchain.Lib.Base64

/-! # The hash chain over the audit log

`AuditChain` of the api crate: each entry is hashed with the hash before it, the first one with 32
zero bytes. Entries of any length stand before the head without a separator; the two are recoverable
since the head has 32 bytes. SHA-256 is a parameter. -/

namespace Haltchain.Api

open Lib Merkle List Function

/-- The head of a new chain, `[0u8; 32]`. -/
def zeroHead : Digest := ⟨List.replicate 32 0, List.length_replicate⟩

/-- What is hashed for an entry. -/
def preimage (canonicalJson : List UInt8) (head : Digest) : List UInt8 :=
  canonicalJson ++ head.bytes

theorem preimage_injective {p q : List UInt8 × Digest} (h : preimage p.1 p.2 = preimage q.1 q.2) :
    p = q := by
  obtain ⟨entry, ⟨head, hhead⟩⟩ := p
  obtain ⟨entry', ⟨head', hhead'⟩⟩ := q
  -- the heads are suffixes of one length
  obtain ⟨rfl, rfl⟩ := List.append_inj' h (hhead.trans hhead'.symm)
  rfl

/-- `ChainInner`. The counter wraps as `u64` does. -/
structure AuditChain where
  head : Digest
  count : UInt64

structure AuditChainStatus where
  headHex : String
  entries : UInt64

variable (sha256 : List UInt8 → Digest)

namespace AuditChain

/-- The empty chain. -/
def new : AuditChain := ⟨zeroHead, 0⟩

def push (c : AuditChain) (canonicalJson : List UInt8) : AuditChain :=
  ⟨sha256 (preimage canonicalJson c.head), c.count + 1⟩

def status (c : AuditChain) : AuditChainStatus := ⟨hexEncode c.head.bytes, c.count⟩

/-- The head after an entry. -/
def link (entry : List UInt8) (head : Digest) : Digest := sha256 (preimage entry head)

def verifySequence (entries : List (List UInt8)) (initialHead : Digest) : String :=
  hexEncode (chain (link sha256) initialHead entries).bytes

/-- The strings that are hashed for the head. -/
def hashed (entries : List (List UInt8)) (initialHead : Digest) : List (List UInt8) :=
  (links (link sha256) initialHead entries).map fun p => preimage p.1 p.2

/-- Pushing entries and replaying them lead to the same head. -/
theorem head_run_push (c : AuditChain) (entries : List (List UInt8)) :
    (run (push sha256) c entries).head = chain (link sha256) c.head entries := by
  induction entries generalizing c with
  | nil => rfl
  | cons e entries ih => exact ih _

variable {sha256} in
/-- **Tamper evidence.** Among the strings hashed for two different sequences with the same head,
two have the same hash, or one hashes to the head the chain starts from. -/
theorem collision_or_zero_of_verifySequence_eq {entries entries' : List (List UInt8)}
    (hne : entries ≠ entries')
    (heq : verifySequence sha256 entries zeroHead = verifySequence sha256 entries' zeroHead) :
    let inputs := hashed sha256 entries zeroHead ++ hashed sha256 entries' zeroHead
    Collision sha256 inputs ∨ ∃ s ∈ inputs, sha256 s = zeroHead := by
  intro inputs
  by_contra hnone
  obtain ⟨hcollision, hzero⟩ := not_or.1 hnone
  refine hne (eq_of_chain_eq {p | preimage p.1 p.2 ∈ inputs} ?_ ?_ ?_ ?_ (hexEncode_injective heq))
  · exact fun p hp q hq h => preimage_injective (eq_of_sha256_eq hcollision hp hq h)
  · exact fun p hp h => hzero ⟨_, hp, h⟩
  · exact fun p hp => List.mem_append_left _ (List.mem_map_of_mem hp)
  · exact fun p hp => List.mem_append_right _ (List.mem_map_of_mem hp)

/-- Two entries in the other order, under a hash with collisions. -/
theorem collision_or_zero_of_reordered :
    let sha256 : List UInt8 → Digest := fun _ => digestOf 1
    let inputs := hashed sha256 [[1], [2]] zeroHead ++ hashed sha256 [[2], [1]] zeroHead
    Collision sha256 inputs ∨ ∃ s ∈ inputs, sha256 s = zeroHead :=
  collision_or_zero_of_verifySequence_eq (by decide) rfl

end AuditChain

/-! ## The audit log and its hash chain

`append_audit_event` pushes an event onto the chain, under a lock, and appends a line with the
encrypted event to a file, without one. The push is not taken back when the rest fails, and parallel
calls may overtake each other before the file.

A call is taken apart into the push, the encryption, the opening of the file and the single writes.
The cipher is a parameter. -/

/-! ## Lines -/

/-- XChaCha20-Poly1305 under the current key, with the nonce first. -/
structure Cipher where
  encrypt : List UInt8 → List UInt8 → Option (List UInt8)
  decrypt : List UInt8 → List UInt8 → Option (List UInt8)
  decrypt_encrypt : ∀ {nonce line ciphertext}, encrypt nonce line = some ciphertext →
    decrypt nonce ciphertext = some line

/-- 24 random bytes. -/
structure XNonce where
  bytes : List UInt8
  length_bytes : bytes.length = 24

variable (cipher : Cipher)

/-- An encrypted line of the log. -/
def encryptLine (nonce : XNonce) (line : List UInt8) : Option String :=
  (cipher.encrypt nonce.bytes line).map fun ciphertext => Base64.encode (nonce.bytes ++ ciphertext)

/-- What `decrypt_line` reads the event from. -/
def plaintextOf (line : String) : Option (List UInt8) :=
  (Base64.decode line).bind fun packed =>
    if packed.length < 24 then none else cipher.decrypt (packed.take 24) (packed.drop 24)

/-- `BufRead::lines`, with the line read so far. A last line may lack its end. -/
def linesFrom (line : List Char) : List Char → List String
  | [] => if line = [] then [] else [.ofList line]
  | c :: file =>
    if c = '\n' then
      .ofList (if line.getLast? = some '\r' then line.dropLast else line) :: linesFrom [] file
    else linesFrom (line ++ [c]) file

/-- The plaintexts of the lines of a file, in their order. -/
def plaintexts (file : List Char) : List (List UInt8) :=
  (linesFrom [] file).filterMap (plaintextOf cipher)

variable {cipher}

theorem plaintextOf_encryptLine {nonce : XNonce} {line : List UInt8} {b64 : String}
    (h : encryptLine cipher nonce line = some b64) : plaintextOf cipher b64 = some line := by
  obtain ⟨ciphertext, hencrypt, rfl⟩ := Option.map_eq_some_iff.1 h
  have hlong : ¬ (nonce.bytes ++ ciphertext).length < 24 := by
    rw [length_append, nonce.length_bytes]
    omega
  rw [plaintextOf, Base64.decode_encode, Option.bind_some, if_neg hlong,
    take_left' nonce.length_bytes, drop_left' nonce.length_bytes, cipher.decrypt_encrypt hencrypt]

/-- The text is a line with this plaintext. -/
structure IsLine (cipher : Cipher) (plaintext : List UInt8) (text : List Char) : Prop where
  noNewline : '\n' ∉ text
  noReturn : '\r' ∉ text
  decrypts : plaintextOf cipher (.ofList text) = some plaintext

theorem isLine_of_encryptLine {nonce : XNonce} {line : List UInt8} {b64 : String}
    (h : encryptLine cipher nonce line = some b64) : IsLine cipher line b64.toList := by
  obtain ⟨ciphertext, -, hb64⟩ := Option.map_eq_some_iff.1 h
  refine ⟨?_, ?_, ?_⟩
  · rw [← hb64]
    exact Base64.notMem_encode (by decide) (by decide) _
  · rw [← hb64]
    exact Base64.notMem_encode (by decide) (by decide) _
  · rw [String.ofList_toList, plaintextOf_encryptLine h]

theorem linesFrom_append {line text : List Char} (hnewline : '\n' ∉ text) (file : List Char) :
    linesFrom line (text ++ file) = linesFrom (line ++ text) file := by
  induction text generalizing line with
  | nil => rw [nil_append, append_nil]
  | cons c text ih =>
    rw [mem_cons, not_or] at hnewline
    rw [cons_append, linesFrom, if_neg (Ne.symm hnewline.1), ih hnewline.2,
      append_assoc, singleton_append]

/-- A file of lines: each of them comes out again. -/
theorem plaintexts_of_lines {lines : List (List UInt8 × List Char)}
    (h : ∀ l ∈ lines, ∃ text, IsLine cipher l.1 text ∧ l.2 = text ++ ['\n']) :
    plaintexts cipher (lines.flatMap Prod.snd) = lines.map Prod.fst := by
  induction lines with
  | nil => rfl
  | cons l lines ih =>
    rw [forall_mem_cons] at h
    obtain ⟨⟨text, hline, htext⟩, hlines⟩ := h
    have hreturn : text.getLast? ≠ some '\r' := fun h => hline.noReturn (mem_of_getLast? h)
    rw [plaintexts, flatMap_cons, htext, append_assoc, linesFrom_append hline.noNewline, nil_append,
      singleton_append, linesFrom, if_pos rfl, if_neg hreturn, filterMap_cons, hline.decrypts]
    exact congrArg _ (ih hlines)

/-! ## Calls in parallel -/

/-- How far a call of `append_audit_event` has come. -/
inductive AppendPhase where
  | idle
  | pushed
  | encrypted (b64 : String)
  /-- The file is open, and a part of the line is in it. -/
  | writing (written rest : List Char)
  | returned (ok : Bool)
deriving DecidableEq

namespace AppendPhase

/-- Not called, or returned. -/
def finished : AppendPhase → Bool
  | .idle | .returned _ => true
  | _ => false

end AppendPhase

/-- The chain, the file, and the calls with the order in which they pushed. -/
structure AuditLog (ι : Type) where
  chain : AuditChain
  file : List Char
  phase : ι → AppendPhase
  pushed : List ι

/-- A step of one call. -/
inductive AppendStep (ι : Type) where
  | push (c : ι)
  | encrypt (c : ι) (nonce : XNonce)
  | openFile (c : ι)
  /-- A `write` that takes the next bytes of the line. -/
  | write (c : ι) (n : Nat)
  | writeEnd (c : ι)
  /-- The call gives up with an error. -/
  | fail (c : ι)

namespace AuditLog

variable {ι : Type} [DecidableEq ι] (sha256 : List UInt8 → Digest) (cipher : Cipher)
  (canonical : ι → List UInt8)

/-- Before all calls. -/
def start : AuditLog ι := ⟨.new, [], fun _ => .idle, []⟩

def goTo (s : AuditLog ι) (c : ι) (p : AppendPhase) : AuditLog ι :=
  { s with phase := update s.phase c p }

/-- One step. A call makes its steps in order; otherwise nothing happens. -/
def exec (s : AuditLog ι) : AppendStep ι → AuditLog ι
  | .push c =>
    match s.phase c with
    | .idle =>
      { s with chain := s.chain.push sha256 (canonical c), pushed := s.pushed ++ [c] }.goTo c
        .pushed
    | _ => s
  | .encrypt c nonce =>
    match s.phase c with
    | .pushed =>
      match encryptLine cipher nonce (canonical c) with
      | some b64 => s.goTo c (.encrypted b64)
      | none => s.goTo c (.returned false)
    | _ => s
  | .openFile c =>
    match s.phase c with
    | .encrypted b64 => s.goTo c (.writing [] b64.toList)
    | _ => s
  | .write c n =>
    match s.phase c with
    | .writing written rest =>
      { s with file := s.file ++ rest.take n }.goTo c
        (.writing (written ++ rest.take n) (rest.drop n))
    | _ => s
  | .writeEnd c =>
    match s.phase c with
    | .writing _ [] => { s with file := s.file ++ ['\n'] }.goTo c (.returned true)
    | _ => s
  | .fail c =>
    match s.phase c with
    | .returned _ => s
    | _ => s.goTo c (.returned false)

/-- The chain is that of the pushed entries, whatever became of them. -/
theorem chain_run (steps : List (AppendStep ι)) :
    let s := run (exec sha256 cipher canonical) start steps
    s.chain = run (AuditChain.push sha256) .new (s.pushed.map canonical) := by
  refine run_invariant (I := fun s : AuditLog ι =>
    s.chain = run (AuditChain.push sha256) .new (s.pushed.map canonical)) rfl ?_ steps
  intro s step hs
  cases step with
  | push c =>
    unfold exec
    dsimp only
    split
    · simp only [goTo, map_append, map_cons, map_nil, run_concat, ← hs]
    · exact hs
  | encrypt c nonce =>
    unfold exec
    dsimp only
    split
    · split
      · exact hs
      · exact hs
    · exact hs
  | openFile c | write c n | writeEnd c | fail c =>
    unfold exec
    dsimp only
    split
    · exact hs
    · exact hs

/-! ## Lines in the order of the pushes -/

/-- Nothing fails, and a call writes only after all that pushed before it have written their
lines. -/
def Orderly (s : AuditLog ι) : AppendStep ι → Prop
  | .push _ | .openFile _ => True
  | .encrypt c nonce => encryptLine cipher nonce (canonical c) ≠ none
  | .write c _ | .writeEnd c =>
    ∀ c' ∈ s.pushed.takeWhile (· ≠ c), s.phase c' = .returned true
  | .fail _ => False

instance (s : AuditLog ι) (step : AppendStep ι) : Decidable (s.Orderly cipher canonical step) := by
  unfold Orderly
  split <;> infer_instance

/-- What a call that has pushed has in the file, while nothing has failed. -/
inductive Part (entry : List UInt8) : AppendPhase → List Char → Prop
  | pushed : Part entry .pushed []
  | encrypted {b64 : String} : IsLine cipher entry b64.toList → Part entry (.encrypted b64) []
  | writing {written rest : List Char} :
      IsLine cipher entry (written ++ rest) → Part entry (.writing written rest) written
  | returned {text : List Char} : IsLine cipher entry text →
      Part entry (.returned true) (text ++ ['\n'])

variable {p : AppendPhase}

variable {cipher} in
theorem Part.of_finished {entry : List UInt8} {part : List Char} (h : Part cipher entry p part)
    (hp : p.finished = true) : ∃ text, IsLine cipher entry text ∧ part = text ++ ['\n'] := by
  cases h with
  | pushed | encrypted | writing => simp [AppendPhase.finished] at hp
  | returned hline => exact ⟨_, hline, rfl⟩

/-- The file is what the calls have written, in the order of pushes, each only after those before it
are done. -/
structure Ordered (s : AuditLog ι) (parts : List (ι × List Char)) : Prop where
  calls : parts.map Prod.fst = s.pushed
  nodup : (parts.map Prod.fst).Nodup
  called : ∀ c, s.phase c ≠ .idle → c ∈ s.pushed
  part : ∀ x ∈ parts, Part cipher (canonical x.1) (s.phase x.1) x.2
  turns : parts.Pairwise fun x y => s.phase x.1 = .returned true ∨ y.2 = []
  file : s.file = parts.flatMap Prod.snd

variable {sha256 cipher canonical} {s : AuditLog ι} {c : ι}

theorem phase_goTo_self (s : AuditLog ι) (c : ι) (p : AppendPhase) : (s.goTo c p).phase c = p :=
  update_self ..

theorem phase_goTo_of_ne (s : AuditLog ι) {c c' : ι} (p : AppendPhase) (h : c' ≠ c) :
    (s.goTo c p).phase c' = s.phase c' :=
  update_of_ne h ..

omit [DecidableEq ι] in
theorem ordered_start : Ordered cipher canonical (start : AuditLog ι) [] where
  calls := rfl
  nodup := nodup_nil
  called := fun _ h => absurd rfl h
  part := fun _ h => absurd h not_mem_nil
  turns := List.Pairwise.nil
  file := rfl

variable {parts : List (ι × List Char)}

namespace Ordered

theorem push (h : Ordered cipher canonical s parts) (hidle : s.phase c = .idle)
    (chain : AuditChain) : Ordered cipher canonical
      ({ s with chain := chain, pushed := s.pushed ++ [c] }.goTo c .pushed)
      (parts ++ [(c, [])]) := by
  have hnew : ∀ x ∈ parts, x.1 ≠ c := by
    rintro x hx rfl
    have := h.part x hx
    rw [hidle] at this
    cases this
  refine ⟨?_, ?_, fun c' hc' => ?_, fun x hx => ?_, ?_, ?_⟩
  · rw [map_append, h.calls]
    rfl
  · rw [map_append, nodup_append]
    refine ⟨h.nodup, pairwise_singleton _ c, fun a ha b hb heq => ?_⟩
    obtain ⟨x, hx, rfl⟩ := mem_map.1 ha
    exact hnew x hx (heq.trans (mem_singleton.1 hb))
  · rcases eq_or_ne c' c with rfl | hne
    · exact mem_append_right _ (mem_singleton_self _)
    · rw [phase_goTo_of_ne _ _ hne] at hc'
      exact mem_append_left _ (h.called c' hc')
  · rcases mem_append.1 hx with hx | hx
    · rw [phase_goTo_of_ne _ _ (hnew x hx)]
      exact h.part x hx
    · rw [mem_singleton.1 hx, phase_goTo_self]
      exact .pushed
  · refine pairwise_append.2 ⟨h.turns.imp_of_mem fun hx _ hxy => ?_,
      pairwise_singleton _ _, fun x _ y hy => .inr (by rw [mem_singleton.1 hy])⟩
    rwa [phase_goTo_of_ne _ _ (hnew _ hx)]
  · rw [flatMap_append, ← h.file]
    exact (append_nil _).symm

/-- A call that has pushed goes on, perhaps writing something. -/
theorem advance {before after : List (ι × List Char)} {written : List Char}
    (h : Ordered cipher canonical s (before ++ (c, written) :: after))
    (hopen : s.phase c ≠ .returned true) (chunk : List Char)
    (hpart : Part cipher (canonical c) p (written ++ chunk))
    (hturn : chunk = [] ∨ ∀ x ∈ before, s.phase x.1 = .returned true) :
    Ordered cipher canonical ({ s with file := s.file ++ chunk }.goTo c p)
      (before ++ (c, written ++ chunk) :: after) := by
  have hnodup := h.nodup
  rw [map_append, map_cons, nodup_append, nodup_cons] at hnodup
  obtain ⟨-, ⟨hafter, -⟩, hbefore⟩ := hnodup
  replace hbefore : ∀ x ∈ before, x.1 ≠ c :=
    fun x hx => hbefore x.1 (mem_map_of_mem hx) c mem_cons_self
  replace hafter : ∀ x ∈ after, x.1 ≠ c := by
    intro x hx heq
    have hmem : x.1 ∈ after.map Prod.fst := mem_map_of_mem hx
    rw [heq] at hmem
    exact hafter hmem
  obtain ⟨hturns, hturns', hacross⟩ := pairwise_append.1 h.turns
  obtain ⟨hfirst, hlater⟩ := pairwise_cons.1 hturns'
  have hempty : ∀ y ∈ after, y.2 = [] := fun y hy => (hfirst y hy).resolve_left hopen
  refine ⟨?_, ?_, fun c' hc' => ?_, fun x hx => ?_, ?_, ?_⟩
  · rw [← show _ = s.pushed from h.calls, map_append, map_append]
    rfl
  · have hsame := h.nodup
    rwa [map_append] at hsame ⊢
  · rcases eq_or_ne c' c with rfl | hne
    · have hmem : c' ∈ s.pushed := by
        rw [← h.calls]
        exact mem_map_of_mem (mem_append_right _ mem_cons_self)
      exact hmem
    · rw [phase_goTo_of_ne _ _ hne] at hc'
      exact h.called c' hc'
  · rcases mem_append.1 hx with hx | hx
    · rw [phase_goTo_of_ne _ _ (hbefore x hx)]
      exact h.part x (mem_append_left _ hx)
    · rcases mem_cons.1 hx with rfl | hx
      · rw [phase_goTo_self]
        exact hpart
      · rw [phase_goTo_of_ne _ _ (hafter x hx)]
        exact h.part x (mem_append_right _ (mem_cons_of_mem _ hx))
  · refine pairwise_append.2 ⟨hturns.imp_of_mem fun hx _ hxy => ?_,
      pairwise_cons.2 ⟨fun y hy => .inr (hempty y hy), hlater.imp_of_mem fun hx _ hxy => ?_⟩,
      fun x hx y hy => ?_⟩
    · rwa [phase_goTo_of_ne _ _ (hbefore _ hx)]
    · rwa [phase_goTo_of_ne _ _ (hafter _ hx)]
    · rw [phase_goTo_of_ne _ _ (hbefore x hx)]
      rcases mem_cons.1 hy with rfl | hy
      · -- the call itself: it has written before, or it is its turn
        rcases hturn with rfl | hturn
        · have hself := hacross x hx (c, written) mem_cons_self
          exact hself.imp_right (append_nil written).trans
        · exact .inl (hturn x hx)
      · exact .inr (hempty y hy)
  · have hnothing : after.flatMap Prod.snd = [] := flatMap_eq_nil_iff.2 hempty
    change s.file ++ chunk = _
    rw [h.file, flatMap_append, flatMap_append, flatMap_cons, flatMap_cons,
      hnothing, append_nil, append_nil, append_assoc]

omit [DecidableEq ι] in
theorem split (h : Ordered cipher canonical s parts) (hphase : s.phase c ≠ .idle) :
    ∃ before written after, parts = before ++ (c, written) :: after ∧
      Part cipher (canonical c) (s.phase c) written := by
  have hmem := h.called c hphase
  rw [← h.calls] at hmem
  obtain ⟨⟨c, written⟩, hx, rfl⟩ := mem_map.1 hmem
  obtain ⟨before, after, rfl⟩ := append_of_mem hx
  exact ⟨before, written, after, rfl, h.part _ hx⟩

end Ordered

/-- When it is a call's turn, those that pushed before it are done. -/
theorem returned_of_turn {before after : List (ι × List Char)} {written : List Char}
    (h : Ordered cipher canonical s (before ++ (c, written) :: after))
    (hturn : ∀ c' ∈ s.pushed.takeWhile (· ≠ c), s.phase c' = .returned true) :
    ∀ x ∈ before, s.phase x.1 = .returned true := by
  intro x hx
  have hne : ∀ a ∈ before.map Prod.fst, decide (a ≠ c) = true := by
    intro a ha
    have hnodup := h.nodup
    rw [map_append, nodup_append] at hnodup
    exact decide_eq_true (hnodup.2.2 a ha c mem_cons_self)
  refine hturn x.1 ?_
  rw [← h.calls, map_append, takeWhile_append_of_pos hne]
  exact mem_append_left _ (mem_map_of_mem hx)

section

variable (h : Ordered cipher canonical s parts) (hidle : s.phase c ≠ .idle)
  (hopen : s.phase c ≠ .returned true)

include h hidle hopen

/-- A call that has pushed and not returned goes on, writing in its turn. -/
theorem Ordered.write (chunk : List Char)
    (hpart : ∀ {written}, Part cipher (canonical c) (s.phase c) written → Part cipher (canonical c)
      p (written ++ chunk))
    (hturn : ∀ c' ∈ s.pushed.takeWhile (· ≠ c), s.phase c' = .returned true) :
    ∃ parts', Ordered cipher canonical ({ s with file := s.file ++ chunk }.goTo c p) parts' := by
  obtain ⟨before, written, after, rfl, hwritten⟩ := h.split hidle
  exact ⟨_, h.advance hopen chunk (hpart hwritten) (.inr (returned_of_turn h hturn))⟩

theorem Ordered.proceed
    (hpart : ∀ {written}, Part cipher (canonical c) (s.phase c) written → Part cipher (canonical c)
      p written) : ∃ parts', Ordered cipher canonical (s.goTo c p) parts' := by
  obtain ⟨before, written, after, rfl, hwritten⟩ := h.split hidle
  have hnext := h.advance hopen [] (p := p) (by simpa using hpart hwritten) (.inl rfl)
  rw [append_nil] at hnext
  exact ⟨_, hnext⟩

end

theorem exec_ordered (h : Ordered cipher canonical s parts) {step : AppendStep ι}
    (hstep : s.Orderly cipher canonical step) :
    ∃ parts', Ordered cipher canonical (exec sha256 cipher canonical s step) parts' := by
  cases step with
  | push c =>
    unfold exec
    dsimp only
    split
    · rename_i hphase
      exact ⟨_, h.push hphase _⟩
    · exact ⟨parts, h⟩
  | encrypt c nonce =>
    unfold exec
    dsimp only
    split
    · rename_i hphase
      cases hline : encryptLine cipher nonce (canonical c) with
      | none => exact absurd hline hstep
      | some b64 =>
        refine h.proceed (by simp [hphase]) (by simp [hphase]) fun hpart => ?_
        rw [hphase] at hpart
        cases hpart
        exact .encrypted (isLine_of_encryptLine hline)
    · exact ⟨parts, h⟩
  | openFile c =>
    unfold exec
    dsimp only
    split
    · rename_i b64 hphase
      refine h.proceed (by simp [hphase]) (by simp [hphase]) fun hpart => ?_
      rw [hphase] at hpart
      cases hpart with
      | encrypted hline => exact .writing hline
    · exact ⟨parts, h⟩
  | write c n =>
    unfold exec
    dsimp only
    split
    · rename_i written rest hphase
      refine h.write (by simp [hphase]) (by simp [hphase]) (rest.take n) (fun hpart => ?_) hstep
      rw [hphase] at hpart
      cases hpart with
      | writing hline =>
        refine .writing ?_
        rwa [append_assoc, take_append_drop]
    · exact ⟨parts, h⟩
  | writeEnd c =>
    unfold exec
    dsimp only
    split
    · rename_i written hphase
      refine h.write (by simp [hphase]) (by simp [hphase]) ['\n'] (fun hpart => ?_) hstep
      rw [hphase] at hpart
      cases hpart with
      | writing hline => exact .returned (by rwa [append_nil] at hline)
    · exact ⟨parts, h⟩
  | fail c => exact absurd hstep id

/-- **The chain is the one of the file** after every run in which nothing fails and the calls write
in the order of their pushes, when all have returned. -/
theorem head_eq_verifySequence_of_orderly {steps : List (AppendStep ι)}
    (h : Throughout (exec sha256 cipher canonical) (Orderly cipher canonical) start steps)
    (hfinished : ∀ c, ((run (exec sha256 cipher canonical) start steps).phase c).finished = true) :
    let s := run (exec sha256 cipher canonical) start steps
    s.chain.status.headHex =
      AuditChain.verifySequence sha256 (plaintexts cipher s.file) zeroHead := by
  intro s
  obtain ⟨parts, hparts⟩ : ∃ parts, Ordered cipher canonical s parts :=
    h.invariant (I := fun s => ∃ parts, Ordered cipher canonical s parts) ⟨[], ordered_start⟩
      fun s step ⟨_, hs⟩ hstep => exec_ordered hs hstep
  have hlines : ∀ l ∈ parts.map (Prod.map canonical id),
      ∃ text, IsLine cipher l.1 text ∧ l.2 = text ++ ['\n'] := by
    intro l hl
    obtain ⟨x, hx, rfl⟩ := mem_map.1 hl
    exact (hparts.part x hx).of_finished (hfinished x.1)
  have hplain := plaintexts_of_lines hlines
  rw [flatMap_map, map_map] at hplain
  have hfile : plaintexts cipher s.file = s.pushed.map canonical := by
    rw [hparts.file, ← hparts.calls, map_map]
    exact hplain
  rw [hfile, AuditChain.status, chain_run, AuditChain.head_run_push]
  rfl

/-- A cipher for examples. -/
def plainCipher : Cipher := ⟨fun _ line => some line, fun _ line => some line, Eq.symm⟩

/-- A nonce of zeros. -/
def zeroNonce : XNonce := ⟨replicate 24 0, length_replicate⟩

/-- The whole of a call, from the push on. -/
def afterPush (c : Fin 2) : List (AppendStep (Fin 2)) :=
  [.encrypt c zeroNonce, .openFile c, .write c 40, .writeEnd c]

def entryOf (c : Fin 2) : List UInt8 := [c.val.toUInt8 + 1]

/-- Two calls, of which the second pushes while the first is writing. -/
theorem overlapping_calls_agree :
    let s := run (exec toyHash plainCipher entryOf) start
      (.push 0 :: .encrypt 0 zeroNonce :: .openFile 0 :: .write 0 7 :: .push 1 ::
        .write 0 40 :: .writeEnd 0 :: afterPush 1)
    s.chain.status.headHex =
      AuditChain.verifySequence toyHash (plaintexts plainCipher s.file) zeroHead :=
  head_eq_verifySequence_of_orderly (by decide +kernel) (by decide +kernel)

/-- A call that fails after its push; two calls of which the second writes first. -/
theorem chain_without_line :
    let failed := run (exec toyHash plainCipher entryOf) start [.push 0, .fail 0]
    let overtaken := run (exec toyHash plainCipher entryOf) start
      (.push 0 :: .push 1 :: (afterPush 1 ++ afterPush 0))
    (∀ c, (failed.phase c).finished = true) ∧ (∀ c, (overtaken.phase c).finished = true) ∧
    failed.chain.status.headHex ≠
      AuditChain.verifySequence toyHash (plaintexts plainCipher failed.file) zeroHead ∧
    overtaken.chain.status.headHex ≠
      AuditChain.verifySequence toyHash (plaintexts plainCipher overtaken.file) zeroHead := by
  decide +kernel

end AuditLog

end Haltchain.Api
