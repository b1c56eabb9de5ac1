import Mathlib.Algebra.Ring.Nat
import Mathlib.Data.Nat.Log

/-! # Hash trees over lists of any length

A tree is built layer by layer: neighbours are hashed together by `node`, and an odd last node with
itself. Where a node is follows from the turns that lead to it from the root (`locate`). As long as
`node` is injective on the pairs that have been hashed, two ways down from the same hash, through
two trees (`nodeAt_of_treeRoot`) or along a supplied path (`nodeAt_of_climb`), meet the same nodes
as long as they take the same turns. -/

namespace Haltchain.Lib

open List Function

variable {α : Type*}

/-! ## Layers -/

/-- The neighbours in a layer; an odd last element goes with itself. -/
def pairUp : List α → List (α × α)
  | [] => []
  | [a] => [(a, a)]
  | a :: b :: rest => (a, b) :: pairUp rest

/-- Where the child of the node at `i` is, in a layer of `n` nodes. -/
def place (n : Nat) (right : Bool) (i : Nat) : Nat :=
  if right then min (2 * i + 1) (n - 1) else 2 * i

theorem length_pairUp (l : List α) : (pairUp l).length = (l.length + 1) / 2 := by
  induction l using pairUp.induct with
  | case1 | case2 a => simp [pairUp]
  | case3 a b rest ih =>
    simp only [pairUp, length_cons]
    omega

theorem getElem?_pairUp (l : List α) (i : Nat) :
    (pairUp l)[i]? = l[2 * i]?.map fun a => (a, l[2 * i + 1]?.getD a) := by
  induction l using pairUp.induct generalizing i with
  | case1 => simp [pairUp]
  | case2 a => cases i <;> simp [pairUp]
  | case3 a b rest ih =>
    cases i with
    | zero => simp [pairUp]
    | succ i => simp [pairUp, Nat.mul_add, ih i]

variable {l : List α} {i : Nat}

theorem children_of_pairUp {p : α × α} (h : (pairUp l)[i]? = some p) :
    l[place l.length false i]? = some p.1 ∧ l[place l.length true i]? = some p.2 := by
  rw [getElem?_pairUp] at h
  obtain ⟨a, ha, rfl⟩ := Option.map_eq_some_iff.1 h
  refine ⟨ha, ?_⟩
  have hlt : 2 * i < l.length := (List.getElem?_eq_some_iff.1 ha).1
  unfold place
  by_cases hright : 2 * i + 1 < l.length
  · rw [if_pos rfl, min_eq_left (by omega), getElem?_eq_getElem hright]
    rfl
  · -- the last node of an odd layer is its own neighbour
    rw [min_eq_right (by omega), getElem?_eq_none (not_lt.1 hright)]
    rwa [show l.length - 1 = 2 * i by omega]

variable {n : Nat}

theorem place_lt (right : Bool) (h : i < (n + 1) / 2) : place n right i < n := by
  unfold place
  split <;> omega

section

variable (node : α → α → α)

/-- The next layer. -/
def parents (l : List α) : List α := (pairUp l).map fun p => node p.1 p.2

theorem length_parents (l : List α) : (parents node l).length = (l.length + 1) / 2 := by
  rw [parents, length_map, length_pairUp]

/-- The layer `k` steps above the leaves. -/
def layer (k : Nat) (l : List α) : List α := (parents node)^[k] l

theorem layer_succ (k : Nat) (l : List α) : layer node (k + 1) l = parents node (layer node k l) :=
  iterate_succ_apply' ..

theorem layer_parents (k : Nat) (l : List α) :
    layer node k (parents node l) = layer node (k + 1) l :=
  (iterate_succ_apply ..).symm

theorem length_layer_pos (k : Nat) (h : 0 < l.length) : 0 < (layer node k l).length := by
  induction k with
  | zero => exact h
  | succ k ih =>
    rw [layer_succ, length_parents]
    omega

/-- The number of layers above `n` leaves. -/
def height (n : Nat) : Nat := Nat.clog 2 n

theorem height_step (h : 2 ≤ n) : height n = height ((n + 1) / 2) + 1 :=
  Nat.clog_of_two_le (by decide) h

theorem height_of_le_one (h : n ≤ 1) : height n = 0 :=
  Nat.clog_of_right_le_one h 2

theorem le_two_pow_height (n : Nat) : n ≤ 2 ^ height n := Nat.le_pow_clog (by decide) n

/-- The root of the tree over the leaves. -/
def treeRoot (l : List α) : Option α := (layer node (height l.length) l)[0]?

/-- The pairs that are hashed for the tree. -/
def treePairs (l : List α) : List (α × α) :=
  (range (height l.length)).flatMap fun k => pairUp (layer node k l)

theorem mem_treePairs {k : Nat} (hk : k < height l.length) {p : α × α}
    (hp : p ∈ pairUp (layer node k l)) : p ∈ treePairs node l :=
  mem_flatMap.2 ⟨k, mem_range.2 hk, hp⟩

/-- The layers as a loop computes them: up to one of at most one node. -/
def collapse : Nat → List α → List α
  | 0, l => l
  | fuel + 1, l => if 1 < l.length then collapse fuel (parents node l) else l

/-- **The loop ends with the root.** -/
theorem collapse_eq {fuel : Nat} (h : l.length ≤ fuel + 1) :
    collapse node fuel l = layer node (height l.length) l := by
  induction fuel generalizing l with
  | zero =>
    rw [height_of_le_one h]
    rfl
  | succ fuel ih =>
    rw [collapse]
    split
    · next hlong =>
      have hlen := length_parents node l
      rw [ih (by omega), hlen, layer_parents, ← height_step hlong]
    · next hshort =>
      rw [height_of_le_one (not_lt.1 hshort)]
      rfl

/-! ## Places -/

/-- Where the turns lead in a layer of `n` nodes. The last turn comes first. -/
def locate : Nat → List Bool → Nat
  | _, [] => 0
  | n, right :: rest => place n right (locate ((n + 1) / 2) rest)

theorem locate_lt (hn : 0 < n) (turns : List Bool) : locate n turns < n := by
  induction turns generalizing n with
  | nil => exact hn
  | cons right rest ih => exact place_lt right (ih (by omega))

/-- The turns to the place `i`. -/
def turnsTo : Nat → Nat → List Bool
  | 0, _ => []
  | k + 1, i => (i % 2 == 1) :: turnsTo k (i / 2)

theorem length_turnsTo (k i : Nat) : (turnsTo k i).length = k := by
  induction k generalizing i with
  | zero => rfl
  | succ k ih => rw [turnsTo, length_cons, ih]

theorem locate_turnsTo {k : Nat} (hi : i < n) (hn : n ≤ 2 ^ k) : locate n (turnsTo k i) = i := by
  induction k generalizing n i with
  | zero =>
    rw [turnsTo, locate]
    omega
  | succ k ih =>
    rw [turnsTo, locate, ih (by omega) (by omega)]
    unfold place
    rcases Nat.mod_two_eq_zero_or_one i with heven | hodd
    · rw [heven, if_neg (by decide)]
      omega
    · rw [hodd, if_pos (by decide)]
      omega

/-! ## Paths -/

/-- A step up: the hash it is paired with, and whether that comes first. -/
structure PathStep (α : Type*) where
  sibling : α
  onLeft : Bool

def PathStep.pair (s : PathStep α) (a : α) : α × α :=
  if s.onLeft then (s.sibling, a) else (a, s.sibling)

/-- The hash at the end of the path. -/
def climb (a : α) : List (PathStep α) → α
  | [] => a
  | s :: rest => climb (node (s.pair a).1 (s.pair a).2) rest

/-- The pairs that are hashed on the way. -/
def climbPairs (a : α) : List (PathStep α) → List (α × α)
  | [] => []
  | s :: rest => s.pair a :: climbPairs (node (s.pair a).1 (s.pair a).2) rest

theorem climb_append (a : α) (low high : List (PathStep α)) :
    climb node a (low ++ high) = climb node (climb node a low) high := by
  induction low generalizing a with
  | nil => rfl
  | cons s rest ih => exact ih _

theorem climbPairs_append (a : α) (low high : List (PathStep α)) : climbPairs node a (low ++ high) =
      climbPairs node a low ++ climbPairs node (climb node a low) high := by
  induction low generalizing a with
  | nil => rfl
  | cons s rest ih => exact congrArg (s.pair a :: ·) (ih _)

/-- After a step, the hash is that of a pair on the way. -/
theorem exists_pair_of_climb (a : α) {steps : List (PathStep α)} (h : steps ≠ []) :
    ∃ p ∈ climbPairs node a steps, climb node a steps = node p.1 p.2 := by
  induction steps generalizing a with
  | nil => exact absurd rfl h
  | cons s rest ih =>
    cases rest with
    | nil => exact ⟨s.pair a, mem_cons_self, rfl⟩
    | cons s' rest =>
      obtain ⟨p, hp, heq⟩ := ih (node (s.pair a).1 (s.pair a).2) (by simp)
      exact ⟨p, mem_cons_of_mem _ hp, heq⟩

/-- The turns down the path. -/
def turns (steps : List (PathStep α)) : List Bool := steps.map (·.onLeft)

/-- A step from a node with its neighbour leads to its parent. -/
theorem getElem?_parents_of_step {a sibling : α} (ha : l[i]? = some a)
    (hs : l[if i % 2 = 0 then i + 1 else i - 1]?.or l[i]? = some sibling) :
    (parents node l)[i / 2]? =
      some (node (PathStep.pair ⟨sibling, i % 2 == 1⟩ a).1
        (PathStep.pair ⟨sibling, i % 2 == 1⟩ a).2) := by
  rw [parents, getElem?_map, getElem?_pairUp]
  rcases Nat.mod_two_eq_zero_or_one i with heven | hodd
  · have hi : 2 * (i / 2) = i := by omega
    rw [heven, if_pos rfl] at hs
    rw [hi, ha, heven]
    cases hnext : l[i + 1]? with
    | none =>
      rw [hnext, ha] at hs
      cases hs
      rfl
    | some b =>
      rw [hnext] at hs
      cases hs
      rfl
  · have hi : 2 * (i / 2) = i - 1 := by omega
    have hi' : i - 1 + 1 = i := by omega
    have hlt := (List.getElem?_eq_some_iff.1 ha).1
    rw [hodd, if_neg (by decide), getElem?_eq_getElem (show i - 1 < l.length by omega)] at hs
    cases hs
    rw [hi, hi', ha, hodd, getElem?_eq_getElem (show i - 1 < l.length by omega)]
    rfl

/-! ## Ways down -/

/-- The node to which the turns lead down from the root. -/
def nodeAt (l : List α) (turns : List Bool) : Option α :=
  let m := layer node (height l.length - turns.length) l
  m[locate m.length turns]?

theorem nodeAt_of_length {turns : List Bool} (h : turns.length = height l.length) :
    nodeAt node l turns = l[locate l.length turns]? := by
  rw [nodeAt, h, Nat.sub_self]
  rfl

/-- **A node above the leaves is the hash of its children.** -/
theorem exists_children {turns : List Bool} (h : turns.length < height l.length) :
    ∃ p ∈ treePairs node l, nodeAt node l turns = some (node p.1 p.2) ∧
      ∀ right, nodeAt node l (right :: turns) = some (if right then p.2 else p.1) := by
  obtain ⟨m, hm⟩ : ∃ m, m = layer node (height l.length - (turns.length + 1)) l := ⟨_, rfl⟩
  have hparents : parents node m = layer node (height l.length - turns.length) l := by
    rw [hm, ← layer_succ, show height l.length - (turns.length + 1) + 1 =
      height l.length - turns.length by omega]
  have hleaves : 0 < l.length := by
    by_contra hzero
    rw [height_of_le_one (by omega)] at h
    exact absurd h (by omega)
  have hlt : locate (parents node m).length turns < (parents node m).length := by
    rw [hparents]
    exact locate_lt (length_layer_pos node _ hleaves) turns
  obtain ⟨p, hp⟩ : ∃ p, (pairUp m)[locate (parents node m).length turns]? = some p :=
    ⟨_, getElem?_eq_getElem (by rwa [length_pairUp, ← length_parents node])⟩
  obtain ⟨hleft, hright⟩ := children_of_pairUp hp
  rw [length_parents] at hleft hright
  have hmem : p ∈ treePairs node l := by
    refine mem_treePairs node (k := height l.length - (turns.length + 1)) (by omega) ?_
    rw [← hm]
    exact mem_of_getElem? hp
  refine ⟨p, hmem, ?_, ?_⟩
  · rw [nodeAt, ← hparents]
    rw [parents, getElem?_map, ← parents, hp, Option.map_some]
  · intro right
    rw [nodeAt, length_cons, ← hm]
    cases right with
    | false => exact hleft
    | true => exact hright

/-! ## What a hash determines

`S` has the pairs that have been hashed. -/

variable {node} {S : Set (α × α)}

section

variable (hS : Set.InjOn (uncurry node) S) (hl : ∀ p ∈ treePairs node l, p ∈ S) {a : α}
  {steps : List (PathStep α)} (hsteps : ∀ p ∈ climbPairs node a steps, p ∈ S)

include hS hl hsteps

/-- **A path to the root starts from a node of the tree**, where its turns lead, if it is no longer
than the tree is high. -/
theorem nodeAt_of_climb (hlen : steps.length ≤ height l.length)
    (hroot : treeRoot node l = some (climb node a steps)) :
    nodeAt node l (turns steps) = some a := by
  induction steps generalizing a with
  | nil => exact hroot
  | cons s rest ih =>
    have hlt : (turns rest).length < height l.length := by
      rw [turns, length_map]
      exact hlen
    have hparent :=
      ih (fun p hp => hsteps p (mem_cons_of_mem _ hp)) (le_of_lt hlen) hroot
    obtain ⟨p, hp, hnode, hchild⟩ := exists_children node hlt
    -- the step has hashed the children of the node above it
    have hpair : p = s.pair a :=
      hS (hl p hp) (hsteps _ mem_cons_self) (Option.some.inj (hnode.symm.trans hparent))
    rw [turns, map_cons, ← turns, hchild, hpair, PathStep.pair]
    cases s.onLeft <;> rfl

/-- A path longer than the tree is high comes by a leaf, which is a hash. -/
theorem exists_leaf_of_climb (hlen : height l.length < steps.length)
    (hroot : treeRoot node l = some (climb node a steps)) :
    ∃ p ∈ climbPairs node a steps, node p.1 p.2 ∈ l := by
  -- the steps beyond the height of the tree, and those within it
  obtain ⟨low, high, rfl, hhigh⟩ :
      ∃ low high, steps = low ++ high ∧ high.length = height l.length :=
    ⟨steps.take (steps.length - height l.length), steps.drop (steps.length - height l.length),
      (take_append_drop ..).symm, by rw [length_drop]; omega⟩
  rw [climb_append] at hroot
  rw [climbPairs_append] at hsteps ⊢
  have hlow : low ≠ [] := by
    rintro rfl
    exact absurd hlen (by rw [nil_append, hhigh]; exact lt_irrefl _)
  obtain ⟨p, hp, heq⟩ := exists_pair_of_climb node a hlow
  have hleaf := nodeAt_of_climb hS hl (fun q hq => hsteps q (mem_append_right _ hq))
    (Nat.le_of_eq hhigh) hroot
  rw [nodeAt_of_length node (by rwa [turns, length_map]), heq] at hleaf
  exact ⟨p, mem_append_left _ hp, mem_of_getElem? hleaf⟩

end

/-- **Trees with the same root agree** as far down as both go. -/
theorem nodeAt_of_treeRoot (hS : Set.InjOn (uncurry node) S) {l₁ l₂ : List α}
    (h₁ : ∀ p ∈ treePairs node l₁, p ∈ S) (h₂ : ∀ p ∈ treePairs node l₂, p ∈ S)
    (hroot : treeRoot node l₁ = treeRoot node l₂) {turns : List Bool}
    (hlen₁ : turns.length ≤ height l₁.length) (hlen₂ : turns.length ≤ height l₂.length) :
    nodeAt node l₁ turns = nodeAt node l₂ turns := by
  induction turns with
  | nil => exact hroot
  | cons right rest ih =>
    have hparent := ih (le_of_lt hlen₁) (le_of_lt hlen₂)
    obtain ⟨p, hp, hnode, hchild⟩ := exists_children node hlen₁
    obtain ⟨q, hq, hnode', hchild'⟩ := exists_children node hlen₂
    rw [hnode, hnode'] at hparent
    obtain rfl : p = q := hS (h₁ p hp) (h₂ q hq) (Option.some.inj hparent)
    rw [hchild, hchild']

end

end Haltchain.Lib
