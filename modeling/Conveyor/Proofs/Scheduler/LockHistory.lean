import Conveyor.Locks
import Mathlib.Data.List.Induction

/-!
# Conveyor.Proofs.Scheduler.LockHistory

The lock table as a record of what was asked of it.

The table keeps nothing but the holders of groups. That tells the history as far as it matters: a
group changes its holder only by an acquisition that is granted or a release by its holder, and
an acquisition against the holder is refused. So the induction is on the last request.

* `Locks.Request`          — what can be asked of a table.
* `Locks.answered`         — requests with the answers of the table.
* `Locks.Keeps`            — what a history says of the holder of a group.
* `Locks.holder_after_iff` — the table says the same.
* `Locks.table_follows_history` — all that a table does after any requests.
-/

namespace Conveyor
namespace Locks

inductive Request where
  | acquire (group : String) (stage : Nat)
  | release (stage : Nat)
  deriving DecidableEq, Repr

/-- The table after a request, and whether the request was granted. A release always is. -/
def serve (l : Locks) : Request → Locks × Bool
  | .acquire group stage =>
    match l.acquire? group stage with
    | some l' => (l', true)
    | none => (l, false)
  | .release stage => (l.release stage, true)

def after (l : Locks) (requests : List Request) : Locks :=
  requests.foldl (fun l r => (l.serve r).1) l

/-- The requests in order, each with its answer. -/
def answered (l : Locks) : List Request → List (Request × Bool)
  | [] => []
  | r :: rest => (r, (l.serve r).2) :: (l.serve r).1.answered rest

/-- The stage was granted the group, and no release by it came after the last time. -/
def Keeps (history : List (Request × Bool)) (group : String) (stage : Nat) : Prop :=
  ∃ earlier later, history = earlier ++ (.acquire group stage, true) :: later ∧
    (.acquire group stage, true) ∉ later ∧ (.release stage, true) ∉ later

variable {l : Locks} {group : String} {stage : Nat}

/-! ## One request -/

theorem granted_iff :
    (l.serve (.acquire group stage)).2 = true ↔
      ¬ ∃ other, l.holder group = some other ∧ other ≠ stage := by
  rw [← acquire?_eq_none_iff, serve]
  cases l.acquire? group stage <;> simp

theorem holder_serve_acquire (l : Locks) (group : String) (stage : Nat) (g : String) :
    (l.serve (.acquire group stage)).1.holder g =
      if g = group ∧ (l.serve (.acquire group stage)).2 = true then some stage
      else l.holder g := by
  rw [serve]
  cases h : l.acquire? group stage with
  | none => simp
  | some l' => simp [holder_of_acquire? h]

theorem keeps_concat {history : List (Request × Bool)} {e : Request × Bool} :
    Keeps (history ++ [e]) group stage ↔
      e = (.acquire group stage, true) ∨
        e ≠ (.release stage, true) ∧ Keeps history group stage := by
  constructor
  · rintro ⟨earlier, later, heq, hlast, hkept⟩
    rcases List.eq_nil_or_concat later with rfl | ⟨later, e', rfl⟩
    · exact .inl (List.singleton_inj.1 (List.append_inj_right' heq rfl))
    · rw [List.concat_eq_append] at *
      have hsplit : history ++ [e] =
          (earlier ++ (Request.acquire group stage, true) :: later) ++ [e'] := by
        simpa using heq
      obtain ⟨rfl, he⟩ := List.append_inj' hsplit rfl
      cases he
      refine .inr ⟨?_, earlier, later, rfl, ?_, ?_⟩
      · rintro rfl
        exact hkept (List.mem_append_right _ List.mem_cons_self)
      · exact fun h => hlast (List.mem_append_left _ h)
      · exact fun h => hkept (List.mem_append_left _ h)
  · rintro (rfl | ⟨hkept, earlier, later, rfl, hlast, hnone⟩)
    · exact ⟨history, [], rfl, List.not_mem_nil, List.not_mem_nil⟩
    · by_cases he : e = (.acquire group stage, true)
      · exact ⟨earlier ++ (.acquire group stage, true) :: later, [], by rw [he],
          List.not_mem_nil, List.not_mem_nil⟩
      · refine ⟨earlier, later ++ [e], by simp, ?_, ?_⟩
        · simp [hlast, Ne.symm he]
        · simp [hnone, Ne.symm hkept]

/-! ## Histories -/

theorem after_concat (requests : List Request) (r : Request) :
    l.after (requests ++ [r]) = ((l.after requests).serve r).1 :=
  List.foldl_append

theorem answered_concat (requests : List Request) (r : Request) :
    l.answered (requests ++ [r]) =
      l.answered requests ++ [(r, ((l.after requests).serve r).2)] := by
  induction requests generalizing l with
  | nil => rfl
  | cons first rest ih =>
    rw [List.cons_append, answered, ih]
    rfl

theorem holder_after_iff (requests : List Request) :
    (({} : Locks).after requests).holder group = some stage ↔
      Keeps (({} : Locks).answered requests) group stage := by
  induction requests using List.reverseRecOn generalizing group stage with
  | nil =>
    constructor
    · intro h
      cases h
    · rintro ⟨earlier, later, heq, -⟩
      simp [answered] at heq
  | append_singleton requests r ih =>
    rw [after_concat, answered_concat, keeps_concat, ← ih]
    generalize ({} : Locks).after requests = l
    cases r with
    | acquire group' stage' =>
      rw [holder_serve_acquire]
      by_cases hgranted : (l.serve (.acquire group' stage')).2 = true
      · by_cases hg : group = group'
        · subst hg
          -- a grant against another holder is none, so the holder is the same stage if there is one
          have hsame : l.holder group = some stage → stage' = stage := by
            intro hholder
            refine Decidable.byContradiction fun hother => ?_
            exact granted_iff.1 hgranted ⟨stage, hholder, Ne.symm hother⟩
          simp only [hgranted, and_self, if_true, Option.some.injEq, Prod.mk.injEq,
            Request.acquire.injEq, true_and, and_true]
          constructor
          · exact .inl
          · rintro (h | ⟨-, h⟩)
            · exact h
            · exact hsame h
        · simp [hg, Ne.symm hg]
      · simp [hgranted]
    | release stage' =>
      have hserve : (l.serve (.release stage')).1 = l.release stage' := rfl
      rw [hserve, holder_release]
      by_cases hheld : l.holder group = some stage'
      · simp [hheld, serve]
      · simp only [if_neg hheld]
        constructor
        · intro hholder
          refine .inr ⟨?_, hholder⟩
          rintro heq
          cases heq
          exact hheld hholder
        · rintro (h | ⟨-, h⟩)
          · cases h
          · exact h

/-! ## Groups -/

theorem nodup_keys (d : Dict Nat) : d.keys.Nodup := by
  refine List.pairwise_map.2 (d.sorted.imp ?_)
  intro a b hlt heq
  exact String.lt_irrefl _ (heq ▸ hlt)

theorem mem_keys_holders_iff (l : Locks) (g : String) :
    g ∈ l.holders.keys ↔ ∃ stage, l.holder g = some stage := by
  simp [Dict.keys, holder, Dict.mem_entries]

/-- After any requests to a new table, a group is held by a stage exactly if the history says so. An
acquisition is granted exactly if no other stage holds the group, and then the stage holds it;
apart from that it changes nothing. A release frees what its stage holds and nothing else. A group
is free exactly if it has no holder, and as many groups are held as there are with a holder. -/
theorem table_follows_history (requests : List Request) :
    let history := ({} : Locks).answered requests
    let l := ({} : Locks).after requests
    (∀ group stage, l.holder group = some stage ↔ Keeps history group stage) ∧
    (∀ group stage,
      ((l.serve (.acquire group stage)).2 = true ↔
        ¬ ∃ other, l.holder group = some other ∧ other ≠ stage) ∧
      ∀ g, (l.serve (.acquire group stage)).1.holder g =
        if g = group ∧ (l.serve (.acquire group stage)).2 = true then some stage
        else l.holder g) ∧
    (∀ stage g, (l.serve (.release stage)).1.holder g =
      if l.holder g = some stage then none else l.holder g) ∧
    (∀ group, l.isFree group = true ↔ ¬ ∃ stage, l.holder group = some stage) ∧
    ∃ groups : List String, groups.Nodup ∧ groups.length = l.held ∧
      ∀ g, g ∈ groups ↔ ∃ stage, l.holder g = some stage := by
  intro history l
  refine ⟨fun group stage => holder_after_iff requests,
    fun group stage => ⟨granted_iff, holder_serve_acquire l group stage⟩,
    fun stage g => holder_release l stage g, fun group => ?_,
    l.holders.keys, nodup_keys _, List.length_map _, l.mem_keys_holders_iff⟩
  rw [isFree, Option.isNone_iff_eq_none, Option.eq_none_iff_forall_not_mem]
  simp

end Locks
end Conveyor
