import Conveyor.Dict

/-!
# Conveyor.Locks

The lock table of concurrency groups: at most one stage holds a group.

* `Locks.acquire?` — takes a group for a stage, unless another stage holds it.
* `Locks.release`  — gives back whatever a stage holds.
-/

namespace Conveyor

/-- The holder of each group that is taken. -/
structure Locks where
  holders : Dict Nat := ∅
  deriving DecidableEq, Repr, Inhabited

namespace Locks

def holder (l : Locks) (group : String) : Option Nat := l.holders.get? group

def isFree (l : Locks) (group : String) : Bool := (l.holder group).isNone

def held (l : Locks) : Nat := l.holders.size

/-- The table after `stage` took `group`; nothing, if another stage holds it. A stage that
holds the group already keeps it. -/
def acquire? (l : Locks) (group : String) (stage : Nat) : Option Locks :=
  match l.holder group with
  | none => some { l with holders := l.holders.insert group stage }
  | some other => if other = stage then some l else none

/-- The table after a stage gave back what it held. -/
def release (l : Locks) (stage : Nat) : Locks :=
  { l with holders := l.holders.filter fun _ other => other ≠ stage }

theorem holder_of_acquire? {l l' : Locks} {group : String} {stage : Nat}
    (h : l.acquire? group stage = some l') (g : String) :
    l'.holder g = if g = group then some stage else l.holder g := by
  rw [acquire?] at h
  split at h
  · cases h
    exact Dict.get?_insert _ _ _ _
  · rename_i other hother
    split at h
    · rename_i heq
      cases h
      split
      · rename_i hg
        rw [hg, hother, heq]
      · rfl
    · cases h

theorem acquire?_eq_none_iff {l : Locks} {group : String} {stage : Nat} :
    l.acquire? group stage = none ↔ ∃ other, l.holder group = some other ∧ other ≠ stage := by
  rw [acquire?]
  split
  · rename_i h
    simp [h]
  · rename_i other h
    by_cases heq : other = stage <;> simp [h, heq]

theorem holder_release (l : Locks) (stage : Nat) (g : String) :
    (l.release stage).holder g = if l.holder g = some stage then none else l.holder g := by
  have h : (l.release stage).holder g = (l.holder g).filter fun other => other ≠ stage :=
    Dict.get?_filter _ _ _
  rw [h]
  cases l.holder g with
  | none => rfl
  | some other => by_cases heq : other = stage <;> simp [Option.filter, heq]

theorem held_eq_zero {l : Locks} (h : ∀ g, l.holder g = none) : l.held = 0 :=
  Dict.size_eq_zero_of_get? h

end Locks
end Conveyor
