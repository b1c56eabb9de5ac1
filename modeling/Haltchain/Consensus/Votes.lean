import Haltchain.Consensus.Persistence

/-! # The votes of one node

A ballot is a vote a node is seen to cast: a granted VoteResp, or the election it starts for itself.
`VoteStep` lists what a call can do to the term, the recorded vote and the ballots.
`become_follower` clears `voted_for` on equal terms too. -/

namespace Haltchain.Consensus

open Lib History List

/-! ## Ballots -/

/-- The vote an observation of node `id` shows: candidate and term. -/
def ballot (id : Nat) : Observation → Option (Nat × Nat)
  | .action (.send c (.voteResp r)) => if r.voteGranted then some (c, r.term) else none
  | .electionStarted t => some (id, t)
  | _ => none

def ballots (id : Nat) (obs : List Observation) : List (Nat × Nat) := obs.filterMap (ballot id)

@[simp] theorem ballots_nil (id : Nat) : ballots id [] = [] := rfl

@[simp] theorem ballots_append (id : Nat) (obs obs' : List Observation) :
    ballots id (obs ++ obs') = ballots id obs ++ ballots id obs' := filterMap_append

variable {ov : Overflow} {n : RaftNode} {call : Call}

namespace RaftNode

@[simp] theorem ballots_heartbeats (id : Nat) (n : RaftNode) :
    ballots id (n.heartbeats.map .action) = [] :=
  filterMap_eq_nil_iff.2 (forall_heartbeats fun _ _ => rfl)

@[simp] theorem ballots_appendActions (id : Nat) (n : RaftNode) (dest : Nat) :
    ballots id ((n.appendActions dest).map .action) = [] :=
  filterMap_eq_nil_iff.2 (forall_appendActions fun _ => rfl)

@[simp] theorem ballots_stepDown (id : Nat) (n : RaftNode) (term : Nat) :
    ballots id ((n.stepDown term).map .action) = [] :=
  filterMap_eq_nil_iff.2 (forall_stepDown rfl)

@[simp] theorem ballots_applyActions (id : Nat) (batch : List LogEntry) :
    ballots id ((applyActions batch).map .action) = [] :=
  filterMap_eq_nil_iff.2 (forall_applyActions rfl)

/-! ## What a call does to the vote -/

/-- The term, the recorded vote and the ballots after a call. -/
inductive VoteStep (ov : Overflow) (n : RaftNode) (call : Call) :
    Nat → Option Nat → List (Nat × Nat) → Prop
  | keep : VoteStep ov n call n.currentTerm n.votedFor []
  | adopt (t : Nat) (ht : n.currentTerm < t) : VoteStep ov n call t none []
  | erase (s : Nat) (req : AppendEntriesReq) (hcall : call = .step s (.appendReq req))
      (ht : req.term = n.currentTerm) : VoteStep ov n call n.currentTerm none []
  | grant (s : Nat) (req : RequestVoteReq) (hcall : call = .step s (.voteReq req))
      (ht : req.term = n.currentTerm) (hl : n.logOk req) (hv : n.canVote req) :
      VoteStep ov n call n.currentTerm (some req.candidateId) [(req.candidateId, n.currentTerm)]
  | grantNewer (s : Nat) (req : RequestVoteReq) (hcall : call = .step s (.voteReq req))
      (ht : n.currentTerm < req.term) (hl : n.logOk req) :
      VoteStep ov n call req.term (some req.candidateId) [(req.candidateId, req.term)]
  | campaign (t : Nat) (hcall : call = .tick) (hd : n.electionDue)
      (ht : ov.add n.currentTerm 1 = some t) : VoteStep ov n call t (some n.id) [(n.id, t)]

/-- A request that is not stale clears the vote, by a new term or within its own. -/
theorem VoteStep.of_append (s : Nat) (req : AppendEntriesReq) (ht : n.currentTerm ≤ req.term) :
    VoteStep ov n (.step s (.appendReq req)) req.term none [] := by
  rcases Nat.lt_or_eq_of_le ht with hlt | heq
  · exact .adopt req.term hlt
  · exact heq ▸ .erase s req rfl heq.symm

theorem Transition.voteStep {n' : RaftNode} {obs : List Observation}
    (htr : Transition ov n call n' obs) :
    VoteStep ov n call n'.currentTerm n'.votedFor (ballots n.id obs) := by
  cases htr with
  | heartbeat => rw [ballots_heartbeats]; exact .keep
  | campaign hd ht =>
    rw [campaign_currentTerm, campaign_votedFor]
    exact .campaign _ rfl hd ht
  | @campaignWon t hd ht =>
    have hb : ballots n.id (.electionStarted t :: .action (.becameLeader t) ::
        (n.campaign t).lead.heartbeats.map .action) = [(n.id, t)] :=
      congrArg ((n.id, t) :: ·) (ballots_heartbeats n.id _)
    rw [hb, lead_currentTerm, lead_votedFor, campaign_currentTerm, campaign_votedFor]
    exact .campaign _ rfl hd ht
  | proposed c =>
    rw [ballots_heartbeats, proposed_currentTerm, proposed_votedFor]
    exact .keep
  | voteDeniedNewer s req ht =>
    rw [map_append, ballots_append, ballots_stepDown, follow_currentTerm, follow_votedFor]
    exact .adopt _ ht
  | voteGranted s req ht hl hv =>
    rw [grant_currentTerm, grant_votedFor]
    exact .grant s req rfl ht hl hv
  | voteGrantedNewer s req ht hl =>
    have hb : ballots n.id [.action ((n.follow req.term).voteReply req true)]
        = [(req.candidateId, req.term)] := by
      simp [ballots, ballot, voteReply]
    rw [map_append, ballots_append, ballots_stepDown, grant_currentTerm, grant_votedFor,
      follow_currentTerm]
    exact hb ▸ .grantNewer s req rfl ht hl
  | voteRespNewer s resp ht | ackNewer s resp ht =>
    rw [ballots_stepDown, follow_currentTerm, follow_votedFor]
    exact .adopt _ ht
  | voteWon s resp =>
    have hb : ballots n.id (.action (.becameLeader n.currentTerm) ::
        (n.countVote resp.fromId).lead.heartbeats.map .action) = [] :=
      ballots_heartbeats n.id _
    rw [hb, lead_currentTerm, lead_votedFor]
    exact .keep
  | appendMismatch s req ht =>
    rw [follow_currentTerm, follow_votedFor]
    exact .of_append s req ht
  | appendAccepted s req ht =>
    rw [map_append, map_append, ballots_append, ballots_append, ballots_stepDown,
      ballots_applyActions]
    show VoteStep ov n _ (n.accept req).currentTerm (n.accept req).votedFor _
    rw [accept_currentTerm, accept_votedFor]
    exact .of_append s req ht
  | @ackCommitted s resp _ _ _ _ _ next _ k =>
    rw [ballots_applyActions]
    show VoteStep ov n _ ((n.acked s ⟨next, resp.matchIndex⟩).commitTo k).currentTerm
      ((n.acked s ⟨next, resp.matchIndex⟩).commitTo k).votedFor _
    rw [commitTo_currentTerm, commitTo_votedFor]
    exact .keep
  | nacked => rw [ballots_appendActions]; exact .keep
  | _ => exact .keep

theorem Crash.voteStep (ov : Overflow) {n' : RaftNode} (h : n.Sound) (hc : Crash n call n') :
    VoteStep ov n call n'.currentTerm n'.votedFor [] := by
  cases hc with
  | restarted _ timeout =>
    rw [h.restart_currentTerm, h.restart_votedFor]
    exact .keep
  | appendCrashed s req timeout ht =>
    rw [(h.accept req).restart_currentTerm, (h.accept req).restart_votedFor,
      accept_currentTerm, accept_votedFor]
    exact .of_append s req ht

/-- **What any call does to the vote**, whether it returns or the process dies in it. -/
theorem exec_voteStep (ov : Overflow) (h : n.Sound) (call : Call) :
    VoteStep ov n call (n.exec ov call).1.currentTerm (n.exec ov call).1.votedFor
      (ballots n.id (n.exec ov call).2) := by
  rcases exec_cases ov h.indexed call with ⟨-, htr⟩ | ⟨-, hc, hobs⟩
  · exact htr.voteStep
  · rw [hobs]
    exact hc.voteStep ov h

end RaftNode

/-! ## Ballots against the recorded vote -/

/-- The term can be incremented in 64 bits. Only without overflow checks a call gets past one that
cannot. -/
def RaftNode.TermFits (ov : Overflow) (n : RaftNode) (call : Call) : Prop :=
  ov = .wrapping → call = .tick → n.electionDue → n.currentTerm + 1 < 2 ^ 64
deriving Decidable

theorem RaftNode.TermFits.campaign_eq {t : Nat} (h : n.TermFits ov .tick) (hd : n.electionDue)
    (ht : ov.add n.currentTerm 1 = some t) : t = n.currentTerm + 1 := by
  cases ov with
  | checked => exact (Overflow.add_checked ht).1
  | wrapping =>
    rw [Overflow.add_of_lt (h rfl rfl hd)] at ht
    exact (Option.some.inj ht).symm

/-- No ballot is newer than the term, and one of the current term is the recorded vote, or is `lost`
and no vote is recorded. -/
def Backed (lost : Nat → Nat → Prop) (term : Nat) (vote : Option Nat)
    (cast : List (Nat × Nat)) : Prop :=
  ∀ x t, (x, t) ∈ cast → t ≤ term ∧ (t = term → vote = some x ∨ (vote = none ∧ lost t x))

/-- No two candidates in one term. -/
def OnePerTerm (cast : List (Nat × Nat)) : Prop :=
  ∀ t x y, (x, t) ∈ cast → (y, t) ∈ cast → x = y

/-- A ballot of a term above all earlier ones. -/
theorem Backed.newer {lost lost' : Nat → Nat → Prop} {term term' c : Nat} {vote : Option Nat}
    {cast : List (Nat × Nat)} (hb : Backed lost term vote cast) (ho : OnePerTerm cast)
    (hlt : term < term') :
    Backed lost' term' (some c) (cast ++ [(c, term')]) ∧ OnePerTerm (cast ++ [(c, term')]) := by
  have hold : ∀ x t, (x, t) ∈ cast → t < term' := fun x t hx => by
    have := (hb x t hx).1
    omega
  have hmem : ∀ x t, (x, t) ∈ cast ++ [(c, term')] → (x, t) ∈ cast ∨ (x = c ∧ t = term') := by
    intro x t hx
    simpa using hx
  refine ⟨?_, ?_⟩
  · intro x t hx
    rcases hmem x t hx with hx | ⟨rfl, rfl⟩
    · have := hold x t hx
      exact ⟨by omega, fun heq => by omega⟩
    · exact ⟨le_rfl, fun _ => .inl rfl⟩
  · intro t x y hx hy
    rcases hmem x t hx with hx' | ⟨hxc, hxt⟩
    · have hlt' := hold x t hx'
      rcases hmem y t hy with hy' | ⟨-, hyt⟩
      · exact ho t x y hx' hy'
      · omega
    · rcases hmem y t hy with hy' | ⟨hyc, -⟩
      · have hlt' := hold y t hy'
        omega
      · rw [hxc, hyc]

/-- **One call keeps the ballots backed and single**, if a lost ballot is not contradicted: what
becomes lost is an erased vote, and a candidate that asks in the current term while no vote is
recorded is the one the lost ballot was for. -/
theorem RaftNode.VoteStep.backed {term : Nat} {vote : Option Nat} {bs cast : List (Nat × Nat)}
    (hvs : VoteStep ov n call term vote bs) (lost lost' : Nat → Nat → Prop)
    (hfit : n.TermFits ov call) (hmono : ∀ t x, lost t x → lost' t x)
    (herase : ∀ s req x, call = .step s (.appendReq req) → req.term = n.currentTerm → n.votedFor =
      some x → lost' n.currentTerm x)
    (hask : ∀ s req x, call = .step s (.voteReq req) → req.term = n.currentTerm → n.logOk req →
      n.votedFor = none → (x, n.currentTerm) ∈ cast → lost n.currentTerm x → x = req.candidateId)
    (hb : Backed lost n.currentTerm n.votedFor cast) (ho : OnePerTerm cast) :
    Backed lost' term vote (cast ++ bs) ∧ OnePerTerm (cast ++ bs) := by
  cases hvs with
  | keep =>
    rw [append_nil]
    refine ⟨fun x t hx => ⟨(hb x t hx).1, fun heq => ?_⟩, ho⟩
    rcases (hb x t hx).2 heq with hv | ⟨hv, hl⟩
    · exact .inl hv
    · exact .inr ⟨hv, hmono t x hl⟩
  | adopt _ ht =>
    rw [append_nil]
    refine ⟨fun x t hx => ?_, ho⟩
    have := (hb x t hx).1
    exact ⟨by omega, fun heq => by omega⟩
  | erase s req hcall ht =>
    rw [append_nil]
    refine ⟨fun x t hx => ⟨(hb x t hx).1, fun heq => .inr ⟨rfl, ?_⟩⟩, ho⟩
    rcases (hb x t hx).2 heq with hv | ⟨-, hl⟩
    · exact heq ▸ herase s req x hcall ht hv
    · exact hmono t x hl
  | grant s req hcall ht hl hv =>
    -- every ballot already cast in this term is for the candidate that asks
    have hsame : ∀ x, (x, n.currentTerm) ∈ cast → x = req.candidateId := by
      intro x hx
      rcases (hb x _ hx).2 rfl with hvote | ⟨hvote, hlost⟩
      · rcases hv with hnone | hsome
        · exact absurd (hnone.symm.trans hvote) (by simp)
        · exact Option.some.inj (hvote.symm.trans hsome)
      · exact hask s req x hcall ht hl hvote hx hlost
    have hmem : ∀ x t, (x, t) ∈ cast ++ [(req.candidateId, n.currentTerm)] →
        (x, t) ∈ cast ∨ (x = req.candidateId ∧ t = n.currentTerm) := by
      intro x t hx
      simpa using hx
    have hnow : ∀ x, (x, n.currentTerm) ∈ cast ++ [(req.candidateId, n.currentTerm)] →
        x = req.candidateId := by
      intro x hx
      rcases hmem x _ hx with hx | ⟨hx, -⟩
      · exact hsame x hx
      · exact hx
    refine ⟨fun x t hx => ⟨?_, fun heq => ?_⟩, fun t x y hx hy => ?_⟩
    · rcases hmem x t hx with hx | ⟨-, rfl⟩
      · exact (hb x t hx).1
      · exact le_rfl
    · subst heq
      exact .inl (by rw [hnow x hx])
    · by_cases heq : t = n.currentTerm
      · subst heq
        rw [hnow x hx, hnow y hy]
      · rcases hmem x t hx with hx | ⟨-, ht'⟩
        · rcases hmem y t hy with hy | ⟨-, ht'⟩
          · exact ho t x y hx hy
          · exact absurd ht' heq
        · exact absurd ht' heq
  | grantNewer s req hcall ht hl => exact hb.newer ho ht
  | campaign _ hcall hd ht =>
    subst hcall
    have heq := hfit.campaign_eq hd ht
    exact hb.newer ho (by omega)

theorem RaftNode.VoteStep.recorded {term : Nat} {vote : Option Nat} {bs cast : List (Nat × Nat)}
    (hvs : VoteStep ov n call term vote bs)
    (hold : ∀ x, n.votedFor = some x → (x, n.currentTerm) ∈ cast) :
    ∀ x, vote = some x → (x, term) ∈ cast ++ bs := by
  intro x hx
  cases hvs with
  | keep => exact mem_append_left _ (hold x hx)
  | adopt | erase => simp at hx
  | grant s req | grantNewer s req | campaign t =>
    cases hx
    simp

/-! ## At most one vote per term -/

namespace History

/-- An AppendEntries request of the own term `t` that finds a vote for `x`. -/
def Erases (h : History) (call : Call) (t x : Nat) : Prop :=
  ∃ s req, call = .step s (.appendReq req) ∧ req.term = t ∧
    h.node.currentTerm = t ∧ h.node.votedFor = some x

/-- A vote request of the own term from `y`, with an acceptable log, that finds no vote. -/
def AsksUnvoted (h : History) (call : Call) (t y : Nat) : Prop :=
  ∃ s req, call = .step s (.voteReq req) ∧ req.term = t ∧ req.candidateId = y ∧
    h.node.currentTerm = t ∧ h.node.votedFor = none ∧ h.node.logOk req

/-- During `calls` a vote for `x` in term `t` was erased. -/
def ErasedIn (ov : Overflow) (h : History) (calls : List Call) (t x : Nat) : Prop :=
  ∃ pre call, pre ++ [call] <+: calls ∧ (run (exec ov) h pre).Erases call t x

/-- During `calls` a vote for `x` was erased, and another `y` asked in the same term. -/
def ForgetsVote (ov : Overflow) (h : History) (calls : List Call) : Prop :=
  ∃ pre call t x y, x ≠ y ∧ pre ++ [call] <+: calls ∧ ErasedIn ov h pre t x ∧
    (run (exec ov) h pre).AsksUnvoted call t y

variable {h : History} {calls : List Call}

theorem ErasedIn.mono {calls' : List Call} {t x : Nat} (he : ErasedIn ov h calls t x)
    (hp : calls <+: calls') : ErasedIn ov h calls' t x := by
  obtain ⟨pre, call, hpre, hx⟩ := he
  exact ⟨pre, call, hpre.trans hp, hx⟩

theorem ForgetsVote.mono {calls' : List Call} (hf : ForgetsVote ov h calls)
    (hp : calls <+: calls') : ForgetsVote ov h calls' := by
  obtain ⟨pre, call, t, x, y, hne, hpre, hrest⟩ := hf
  exact ⟨pre, call, t, x, y, hne, hpre.trans hp, hrest⟩

section

variable {ov : Overflow} {h₀ : History}

/-- The votes a node has cast. -/
def cast (h : History) : List (Nat × Nat) := ballots h.node.id h.trace

theorem exec_cast (hs : h.node.Sound) (call : Call) :
    (h.exec ov call).cast = h.cast ++ ballots h.node.id (h.node.exec ov call).2 := by
  show ballots (h.node.exec ov call).1.id (h.trace ++ _) = _
  rw [(RaftNode.exec_identity ov hs call).1, ballots_append]
  rfl

section

variable (hs : ∀ calls, (run (exec ov) h₀ calls).node.Sound)

include hs

/-- A life without a forgotten vote casts one vote per term. -/
theorem onePerTerm_of_not_forgets (hnew : h₀.trace = [])
    (hfit : Throughout (exec ov) (fun h call => h.node.TermFits ov call) h₀ calls)
    (hf : ¬ ForgetsVote ov h₀ calls) :
    Backed (ErasedIn ov h₀ calls) (run (exec ov) h₀ calls).node.currentTerm
        (run (exec ov) h₀ calls).node.votedFor (run (exec ov) h₀ calls).cast ∧
      OnePerTerm (run (exec ov) h₀ calls).cast := by
  induction calls using reverseRecOn with
  | nil =>
    have hnil : h₀.cast = [] := by
      unfold cast
      rw [hnew]
      rfl
    rw [run_nil, hnil]
    exact ⟨fun x t hx => absurd hx (by simp), fun t x y hx => absurd hx (by simp)⟩
  | append_singleton calls call ih =>
    have hext : calls <+: calls ++ [call] := prefix_append _ _
    obtain ⟨hfit', hfitCall⟩ := throughout_concat.1 hfit
    obtain ⟨hb, ho⟩ := ih hfit' (fun hc => hf (hc.mono hext))
    rw [run_concat, exec_cast (hs calls)]
    refine (RaftNode.exec_voteStep ov (hs calls) call).backed _ _ hfitCall
      (fun t x he => he.mono hext) ?_ ?_ hb ho
    · intro s req x hcall ht hv
      exact ⟨calls, call, prefix_refl _, s, req, hcall, ht, rfl, hv⟩
    · intro s req x hcall ht hl hv _ he
      -- otherwise this request is the one that finds the vote forgotten
      by_contra hne
      exact hf ⟨calls, call, _, x, req.candidateId, hne, prefix_refl _, he,
        s, req, hcall, ht, rfl, rfl, hv, hl⟩

theorem recorded_cast (hnew : h₀.node.votedFor = none) (calls : List Call) :
    ∀ x, (run (exec ov) h₀ calls).node.votedFor = some x →
      (x, (run (exec ov) h₀ calls).node.currentTerm) ∈ (run (exec ov) h₀ calls).cast := by
  induction calls using reverseRecOn with
  | nil =>
    intro x hv
    exact absurd (hnew.symm.trans hv) (by simp)
  | append_singleton calls call ih =>
    rw [run_concat, exec_cast (hs calls)]
    exact (RaftNode.exec_voteStep ov (hs calls) call).recorded ih

theorem cast_mono {calls' : List Call} (hp : calls <+: calls') :
    (run (exec ov) h₀ calls).cast ⊆ (run (exec ov) h₀ calls').cast := by
  obtain ⟨rest, rfl⟩ := hp
  induction rest using reverseRecOn with
  | nil =>
    rw [append_nil]
    exact .refl _
  | append_singleton rest call ih =>
    rw [← append_assoc, run_concat, exec_cast (hs _)]
    exact List.Subset.trans ih (subset_append_left _ _)

end

/-- An unvoted node of the candidate's own term, with no better log, grants. -/
theorem AsksUnvoted.cast (ov : Overflow) {t y : Nat} (hs : h.node.Sound)
    (ha : h.AsksUnvoted call t y) : (y, t) ∈ (h.exec ov call).cast := by
  obtain ⟨s, req, rfl, ht, rfl, hterm, hvote, hl⟩ := ha
  have hcan : h.node.canVote req := .inl hvote
  have hexec : h.node.exec ov (.step s (.voteReq req))
      = ((h.node.handleVoteReq req).1, (h.node.handleVoteReq req).2.map .action) := rfl
  have hreq : (h.node.handleVoteReq req).2 = [(h.node.grant req).voteReply req true] := by
    unfold RaftNode.handleVoteReq
    rw [if_neg (by omega), if_neg (by omega)]
    dsimp only
    rw [if_pos ⟨hl, hcan⟩]
    rfl
  rw [exec_cast hs, hexec, hreq]
  simp [ballots, ballot, RaftNode.voteReply, hterm]

end

/-- **A node votes for two candidates in one term exactly when it forgets a vote.** Over every life
of the node: its votes are one per term if and only if no AppendEntries request of its own term
erased a vote for one candidate before another with an acceptable log asked in that term. -/
theorem onePerTerm_iff_not_forgets (ov : Overflow) (id : Nat) (peers : List Nat) (timeout : Nat)
    (path : String) (calls : List Call)
    (hfit : Throughout (exec ov) (fun h call => h.node.TermFits ov call)
      (boot id peers timeout path) calls) :
    OnePerTerm (run (exec ov) (boot id peers timeout path) calls).cast ↔
      ¬ ForgetsVote ov (boot id peers timeout path) calls := by
  have hs := run_sound ov id peers timeout path
  constructor
  · rintro hone ⟨pre, call, t, x, y, hne, hpre, ⟨pre', call', hpre', hx⟩, hy⟩
    obtain ⟨s, req, hcall, hreq, hterm, hvote⟩ := hx
    have hcastx := recorded_cast hs rfl pre' x hvote
    have hcasty := hy.cast ov (hs pre)
    rw [hterm] at hcastx
    rw [← run_concat (exec ov)] at hcasty
    have hpre'' : pre' <+: calls :=
      (prefix_append _ _).trans (hpre'.trans ((prefix_append _ _).trans hpre))
    exact hne (hone t x y (cast_mono hs hpre'' hcastx) (cast_mono hs hpre hcasty))
  · intro hf
    exact (onePerTerm_of_not_forgets hs rfl hfit hf).2

/-- Node 2 votes for 1 in term 1, hears from it as leader, and is asked by `candidate`. -/
def votedThenAsked (candidate : Nat) : List Call :=
  [.step 1 (.voteReq ⟨1, 1, 0, 0⟩),
   .step 1 (.appendReq ⟨1, 1, 1, 1, [], 0⟩),
   .step candidate (.voteReq ⟨1, candidate, 0, 0⟩)]

/-- Asked by the same candidate again, the node repeats its vote. -/
theorem repeated_vote_not_forgotten :
    (run (exec .checked) (boot 2 [1, 3] 5 "node-2.json") (votedThenAsked 1)).cast
        = [(1, 1), (1, 1)] ∧
      ¬ ForgetsVote .checked (boot 2 [1, 3] 5 "node-2.json") (votedThenAsked 1) := by
  have hcast : (run (exec .checked) (boot 2 [1, 3] 5 "node-2.json")
      (votedThenAsked 1)).cast = [(1, 1), (1, 1)] := by
    decide +kernel
  refine ⟨hcast, ?_⟩
  refine (onePerTerm_iff_not_forgets .checked 2 [1, 3] 5 "node-2.json" _ (by decide +kernel)).1 ?_
  rw [hcast]
  intro t x y hx hy
  simp only [mem_cons, Prod.mk.injEq, not_mem_nil, or_false, or_self] at hx hy
  rw [hx.1, hy.1]

/-- Asked by another candidate, the node votes a second time in term 1. -/
theorem two_votes_in_one_term :
    (run (exec .checked) (boot 2 [1, 3] 5 "node-2.json") (votedThenAsked 3)).cast
      = [(1, 1), (3, 1)] := by
  decide +kernel

end History

end Haltchain.Consensus
