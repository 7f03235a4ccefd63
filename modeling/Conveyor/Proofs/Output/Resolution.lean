import Conveyor.Output.Marker
import Conveyor.Output.Store
import Conveyor.Secret

/-!
# Conveyor.Proofs.Output.Resolution

What reading the inputs of a stage comes to.

* `Marker.get?_declared`               — of what a command printed, the declared keys remain.
* `OutputStore.outputsOf_publish`      — publishing adds what one stage publishes.
* `OutputStore.value?`                 — what was published for a reference.
* `OutputStore.resolveInput_ok`        — it is read of a producer that has succeeded.
* `OutputStore.get?_of_resolveInputs`  — all inputs are read, each under its own variable.
* `OutputStore.resolveInputs_error`, `Lease.acquire_error` — what may be missing.
-/

namespace Conveyor

theorem Marker.get?_declared {stage : Stage} {printed : Dict String} {key value : String} :
    (declared stage printed).get? key = some value ↔
      printed.get? key = some value ∧ key ∈ stage.outputs := by
  rw [declared, Dict.get?_filter, Option.filter_eq_some_iff, List.contains_iff_mem]

namespace OutputStore

theorem publish_ok {store : OutputStore} {name : String} (h : store.outputsOf name = none)
    (values : Dict String) : ∃ store', store.publish name values = .ok store' := by
  simp only [publish, h]
  exact ⟨_, rfl⟩

theorem outputsOf_publish {store store' : OutputStore} {name : String} {values : Dict String}
    (h : store.publish name values = .ok store') (n : String) :
    store'.outputsOf n = if n = name then some values else store.outputsOf n := by
  rw [publish] at h
  split at h
  · cases h
  · cases h
    exact Dict.get?_insert _ _ _ _

/-- The store with the values of a stage, if it has any to publish. -/
def receive (store : OutputStore) (name : String) :
    Option (Dict String) → Except Error OutputStore
  | none => .ok store
  | some values => store.publish name values

def value? (store : OutputStore) (r : OutputRef) : Option String :=
  (store.outputsOf r.stage).bind (·.get? r.key)

variable {store : OutputStore} {consumer : String} {statusOf : String → Option Status}
  {r : OutputRef} {value : String} {status : Status} {e : Error}

theorem resolveInput_ok (h : store.resolveInput consumer statusOf r = .ok value) :
    statusOf r.stage = some .succeeded ∧ store.value? r = some value := by
  rw [resolveInput] at h
  split at h
  · cases h
  · rename_i hstatus
    rw [resolve.eq_def] at h
    split at h
    · split at h
      · rename_i hvalue
        cases h
        exact ⟨hstatus, hvalue⟩
      · cases h
    all_goals cases h

/-- Of a producer that has ended, a value is either there or not, and not still to come. -/
theorem resolveInput_error (h : store.resolveInput consumer statusOf r = .error e)
    (hstatus : statusOf r.stage = some status) (hended : status.isTerminal = true) :
    (∃ why, e = .outputUnavailable consumer r.text why) ∧
      (status = .succeeded → store.value? r = none) := by
  simp only [resolveInput, hstatus] at h
  rw [resolve.eq_def] at h
  split at h
  · split at h
    · cases h
    · rename_i hvalue
      cases h
      exact ⟨⟨_, rfl⟩, fun _ => hvalue⟩
  · cases h
    exact ⟨⟨_, rfl⟩, nofun⟩
  · cases h
    exact ⟨⟨_, rfl⟩, nofun⟩
  all_goals cases hended

theorem lookup_of_resolveEntries {var : String} :
    ∀ {l : List (String × OutputRef)} {values : List (String × String)},
      store.resolveEntries consumer statusOf l = .ok values → l.lookup var = some r →
        ∃ value, store.resolveInput consumer statusOf r = .ok value ∧
          values.lookup var = some value := by
  intro l
  induction l with
  | nil =>
    intro values _ hr
    cases hr
  | cons entry rest ih =>
    obtain ⟨name, r'⟩ := entry
    intro values h hr
    rw [resolveEntries] at h
    split at h
    · cases h
    · rename_i value hvalue
      cases hrest : store.resolveEntries consumer statusOf rest with
      | error flaw =>
        rw [hrest] at h
        cases h
      | ok more =>
        rw [hrest] at h
        cases h
        rw [List.lookup_cons] at hr ⊢
        split
        · rename_i hname
          rw [hname] at hr
          cases hr
          exact ⟨value, hvalue, rfl⟩
        · rename_i hname
          rw [hname] at hr
          exact ih hrest hr

theorem keys_of_resolveEntries : ∀ {l : List (String × OutputRef)}
    {values : List (String × String)}, store.resolveEntries consumer statusOf l = .ok values →
      values.map (·.1) = l.map (·.1) := by
  intro l
  induction l with
  | nil =>
    intro values h
    cases h
    rfl
  | cons entry rest ih =>
    intro values h
    rw [resolveEntries] at h
    split at h
    · cases h
    · cases hrest : store.resolveEntries consumer statusOf rest with
      | error flaw =>
        rw [hrest] at h
        cases h
      | ok more =>
        rw [hrest] at h
        cases h
        rw [List.map_cons, List.map_cons, ih hrest]

theorem resolveEntries_error : ∀ {l : List (String × OutputRef)},
    store.resolveEntries consumer statusOf l = .error e →
      ∃ var r, (var, r) ∈ l ∧ store.resolveInput consumer statusOf r = .error e := by
  intro l
  induction l with
  | nil =>
    intro h
    cases h
  | cons entry rest ih =>
    obtain ⟨name, r⟩ := entry
    intro h
    rw [resolveEntries] at h
    split at h
    · rename_i hone
      cases h
      exact ⟨name, r, List.mem_cons_self, hone⟩
    · cases hrest : store.resolveEntries consumer statusOf rest with
      | error flaw =>
        rw [hrest] at h
        cases h
        obtain ⟨var, r', hr', hone⟩ := ih hrest
        exact ⟨var, r', List.mem_cons_of_mem _ hr', hone⟩
      | ok more =>
        rw [hrest] at h
        cases h

theorem get?_of_resolveInputs {stage : Stage} {inputs : Dict String} {var : String}
    (h : store.resolveInputs stage statusOf = .ok inputs) (hr : stage.inputs.get? var = some r) :
    ∃ value, store.resolveInput stage.name statusOf r = .ok value ∧
      inputs.get? var = some value := by
  cases hall : store.resolveEntries stage.name statusOf stage.inputs.entries with
  | error flaw =>
    rw [resolveInputs, hall] at h
    cases h
  | ok values =>
    rw [resolveInputs, hall] at h
    cases h
    obtain ⟨value, hvalue, hlookup⟩ := lookup_of_resolveEntries hall hr
    have hsorted : SortedKeys values :=
      Dict.sortedKeys_of_keys (keys_of_resolveEntries hall) stage.inputs.sorted
    exact ⟨value, hvalue, by rw [Dict.get?_ofList hsorted, hlookup]⟩

theorem resolveInputs_error {stage : Stage} (h : store.resolveInputs stage statusOf = .error e) :
    ∃ var r, stage.inputs.get? var = some r ∧
      store.resolveInput stage.name statusOf r = .error e := by
  cases hall : store.resolveEntries stage.name statusOf stage.inputs.entries with
  | error flaw =>
    rw [resolveInputs, hall] at h
    cases h
    obtain ⟨var, r, hr, hone⟩ := resolveEntries_error hall
    exact ⟨var, r, Dict.mem_entries.1 hr, hone⟩
  | ok values =>
    rw [resolveInputs, hall] at h
    cases h

end OutputStore

theorem Lease.acquire_error {provider : SecretProvider} {stage : String} {names : List String}
    {e : Error} (h : acquire provider stage names = .error e) :
    ∃ name ∈ names, provider name = none ∧ e = .secretUnavailable stage name := by
  have hl : ∀ l, acquireFrom provider stage l = .error e →
      ∃ name ∈ l, provider name = none ∧ e = .secretUnavailable stage name := by
    intro l
    induction l with
    | nil =>
      intro h
      cases h
    | cons name rest ih =>
      intro h
      rw [acquireFrom] at h
      split at h
      · rename_i hnone
        cases h
        exact ⟨name, List.mem_cons_self, hnone, rfl⟩
      · cases hrest : acquireFrom provider stage rest with
        | error flaw =>
          rw [hrest] at h
          cases h
          obtain ⟨name', hname', hnone, hwhy⟩ := ih hrest
          exact ⟨name', List.mem_cons_of_mem name hname', hnone, hwhy⟩
        | ok more =>
          rw [hrest] at h
          cases h
  rw [acquire] at h
  split at h
  · rename_i hall
    cases h
    exact hl _ hall
  · cases h

end Conveyor
