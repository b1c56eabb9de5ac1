import Haltchain.Rules.Evaluator
import Mathlib.Algebra.Ring.Nat

/-! # The policy handle and the file watcher

`watcher.rs`: the handle has the current policy and counts how often it was stored. The watcher
stores a file that has changed if its signature is good and it parses. Whether an evaluator can be
built from it is not looked at here. -/

namespace Haltchain.Rules

structure PolicyHandle where
  policy : PolicyFile
  /-- A 64-bit counter, which wraps around. -/
  generation : Nat
deriving DecidableEq

namespace PolicyHandle

/-- The first generation. -/
def new (pf : PolicyFile) : PolicyHandle := ⟨pf, 0⟩

def store (h : PolicyHandle) (pf : PolicyFile) : PolicyHandle :=
  ⟨pf, (h.generation + 1) % 2 ^ 64⟩

/-- The first of the two steps of `store`. -/
def write (h : PolicyHandle) (pf : PolicyFile) : PolicyHandle := { h with policy := pf }

/-- The second one. -/
def raise (h : PolicyHandle) : PolicyHandle :=
  { h with generation := (h.generation + 1) % 2 ^ 64 }

theorem raise_write (h : PolicyHandle) (pf : PolicyFile) : (h.write pf).raise = h.store pf := rfl

end PolicyHandle

/-- How often the watcher tries to read a file that has changed. -/
def reloadAttempts : Nat := 6

/-- One try: whether the signature is good, and what the file parses to. -/
structure Attempt where
  signatureOk : Bool
  parsed : Option PolicyFile

/-- The policy to be stored. A bad signature ends the tries. -/
def reload : List Attempt → Option PolicyFile
  | [] => none
  | t :: rest => if t.signatureOk then t.parsed.or (reload rest) else none

/-- What the watcher does about a change of the file. -/
def PolicyHandle.onChange (h : PolicyHandle) (attempts : List Attempt) : PolicyHandle :=
  ((reload (attempts.take reloadAttempts)).map h.store).getD h

end Haltchain.Rules
