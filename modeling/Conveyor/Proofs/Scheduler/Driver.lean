import Conveyor.Scheduler
import Mathlib.Logic.Relation

/-!
# Conveyor.Proofs.Scheduler.Driver

Every way a run can go.

The driver gates the stages one after the other, starts them one after the other, and repeats
that until a whole round changes nothing. Then it waits. What wakes it is not its own choice: any
command in flight may be the next that is done, with any result its environment lets it have,
and a request to cancel may come before any round or while it waits.

* `Place`, `Point` — where the driver is between two of its steps, and with what state.
* `Environment`    — what commands may answer and whether the run may be cancelled.
* `Step`           — one step, made of one call of an operation of the scheduler.
* `Reachable`      — every point that some order of steps leads to.
* `Returns`        — what the driver ends with at a point.
* `replay?`        — the one way that is left when the order of the results is given.
* `Setup.Accepted` — the definition was validated and there is a worker.

`settle` is a path of these steps (`steps_of_settle`), so what is shown for every reachable
point holds before and after it, and at every point on the way.
-/

namespace Conveyor
namespace Scheduler

/-! ## Points -/

inductive Place where
  /-- Before a round; a request to cancel is looked at. -/
  | head
  /-- The stages that are still to be gated, and whether the round has changed anything. -/
  | gating (rest : List Nat) (progressed : Bool)
  /-- The stages that are still to be started, and whether the round has changed anything. -/
  | dispatching (rest : List Nat) (progressed : Bool)
  | waiting
  deriving DecidableEq, Repr

structure Point where
  place : Place
  state : State
  deriving DecidableEq, Repr

/-- What the world around a run may do. -/
structure Environment where
  /-- The results that a command in flight can have. -/
  answers : InFlight → Except Error CommandOutput → Prop
  cancels : Prop

/-- No command answers with an error that makes the run unusable. -/
def Environment.Harmless (env : Environment) : Prop :=
  ∀ c e, env.answers c (.error e) → e.isFatal = false

/-- The definition is valid, and the graph is its graph. -/
structure Setup.Accepted (u : Setup) : Prop where
  valid : u.pipeline.ensureValid = .ok u.graph

namespace State

def start (u : Setup) : State := { run := Run.start u.pipeline u.graph u.trigger false }

def wakeAt (s : State) (now : Nat) : State := { s with run := { s.run with clock := now } }

/-- The stages whose command was started, the latest first. -/
def starts (s : State) : List Nat :=
  s.notices.filterMap fun
    | .stageStarted i _ => some i
    | _ => none

/-- The stages whose command was started and whose result was not applied yet. -/
def flights (s : State) : List Nat := s.inFlight.map (·.stage)

end State

/-! ## Steps -/

variable {u : Setup} {env : Environment}

inductive Step (u : Setup) (env : Environment) : Point → Point → Prop where
  | begin {s : State} : Step u env ⟨.head, s⟩ ⟨.gating u.order false, s⟩
  | gate {i : Nat} {rest : List Nat} {p b : Bool} {s s' : State} :
      gateOne u s i = .ok (s', b) →
      Step u env ⟨.gating (i :: rest) p, s⟩ ⟨.gating rest (p || b), s'⟩
  | gated {p : Bool} {s : State} : Step u env ⟨.gating [] p, s⟩ ⟨.dispatching u.order p, s⟩
  | dispatch {i : Nat} {rest : List Nat} {p b : Bool} {s s' : State} :
      s.inFlight.length < u.workers → dispatchOne u s i = .ok (s', b) →
      Step u env ⟨.dispatching (i :: rest) p, s⟩ ⟨.dispatching rest (p || b), s'⟩
  | full {i : Nat} {rest : List Nat} {p : Bool} {s : State} :
      u.workers ≤ s.inFlight.length →
      Step u env ⟨.dispatching (i :: rest) p, s⟩ ⟨.dispatching [] p, s⟩
  | again {s : State} : Step u env ⟨.dispatching [] true, s⟩ ⟨.gating u.order false, s⟩
  | settled {s : State} : Step u env ⟨.dispatching [] false, s⟩ ⟨.waiting, s⟩
  | join {c : InFlight} {result : Except Error CommandOutput} {now : Nat} {s s' : State} :
      c ∈ s.inFlight → env.answers c result → s.run.clock ≤ now →
      complete u (s.wakeAt now) c.stage result = .ok s' → Step u env ⟨.waiting, s⟩ ⟨.head, s'⟩
  | cancelEarly {now : Nat} {s s' : State} :
      env.cancels → s.run.cancelled = false → s.run.clock ≤ now →
      cancel u (s.wakeAt now) = .ok s' → Step u env ⟨.head, s⟩ ⟨.head, s'⟩
  | cancel {now : Nat} {s s' : State} :
      env.cancels → s.run.cancelled = false → s.inFlight ≠ [] → s.run.clock ≤ now →
      cancel u (s.wakeAt now) = .ok s' → Step u env ⟨.waiting, s⟩ ⟨.head, s'⟩

abbrev Steps (u : Setup) (env : Environment) : Point → Point → Prop :=
  Relation.ReflTransGen (Step u env)

/-- Some order of steps leads here. -/
def Reachable (u : Setup) (env : Environment) (x : Point) : Prop :=
  Steps u env ⟨.head, State.start u⟩ x

/-- The driver ends here, with this result: an operation has failed, or nothing is left to wait
for. -/
inductive Returns (u : Setup) (env : Environment) : Point → Except Error Run → Prop where
  | gate {i : Nat} {rest : List Nat} {p : Bool} {s : State} {e : Error} :
      gateOne u s i = .error e → Returns u env ⟨.gating (i :: rest) p, s⟩ (.error e)
  | dispatch {i : Nat} {rest : List Nat} {p : Bool} {s : State} {e : Error} :
      s.inFlight.length < u.workers → dispatchOne u s i = .error e →
      Returns u env ⟨.dispatching (i :: rest) p, s⟩ (.error e)
  | join {c : InFlight} {result : Except Error CommandOutput} {now : Nat} {s : State}
      {e : Error} :
      c ∈ s.inFlight → env.answers c result → s.run.clock ≤ now →
      complete u (s.wakeAt now) c.stage result = .error e → Returns u env ⟨.waiting, s⟩ (.error e)
  | cancelEarly {now : Nat} {s : State} {e : Error} :
      env.cancels → s.run.cancelled = false → s.run.clock ≤ now →
      cancel u (s.wakeAt now) = .error e → Returns u env ⟨.head, s⟩ (.error e)
  | cancel {now : Nat} {s : State} {e : Error} :
      env.cancels → s.run.cancelled = false → s.inFlight ≠ [] → s.run.clock ≤ now →
      cancel u (s.wakeAt now) = .error e → Returns u env ⟨.waiting, s⟩ (.error e)
  | verdict {s : State} {result : Except Error Run} :
      verdict? s = some result → Returns u env ⟨.waiting, s⟩ result

/-! ## Settling is a path of steps -/

theorem steps_of_gateAll : ∀ {l : List Nat} {p b : Bool} {s s' : State},
    gateAll u l s = .ok (s', b) → Steps u env ⟨.gating l p, s⟩ ⟨.gating [] (p || b), s'⟩ := by
  intro l
  induction l with
  | nil =>
    intro p b s s' h
    cases h
    rw [Bool.or_false]
  | cons i rest ih =>
    intro p b s s' h
    rw [gateAll] at h
    split at h
    · cases h
    · rename_i mid b₁ hone
      cases hall : gateAll u rest mid with
      | error e => rw [hall] at h; cases h
      | ok pair =>
        obtain ⟨last, b₂⟩ := pair
        rw [hall] at h
        cases h
        rw [← Bool.or_assoc]
        exact .head (.gate hone) (ih hall)

theorem steps_of_dispatchAll : ∀ {l : List Nat} {p b : Bool} {s s' : State},
    dispatchAll u l s = .ok (s', b) →
      Steps u env ⟨.dispatching l p, s⟩ ⟨.dispatching [] (p || b), s'⟩ := by
  intro l
  induction l with
  | nil =>
    intro p b s s' h
    cases h
    rw [Bool.or_false]
  | cons i rest ih =>
    intro p b s s' h
    rw [dispatchAll] at h
    split at h
    · rename_i hfull
      cases h
      rw [Bool.or_false]
      exact .single (.full hfull)
    · rename_i hroom
      split at h
      · cases h
      · rename_i mid b₁ hone
        cases hall : dispatchAll u rest mid with
        | error e => rw [hall] at h; cases h
        | ok pair =>
          obtain ⟨last, b₂⟩ := pair
          rw [hall] at h
          cases h
          rw [← Bool.or_assoc]
          exact .head (.dispatch (Nat.lt_of_not_le hroom) hone) (ih hall)

theorem steps_of_settleOnce {s s' : State} {b : Bool} (h : settleOnce u s = .ok (s', b)) :
    Steps u env ⟨.gating u.order false, s⟩ ⟨.dispatching [] b, s'⟩ := by
  rw [settleOnce] at h
  split at h
  · cases h
  · rename_i mid b₁ hgate
    cases hall : dispatchAll u u.order mid with
    | error e => rw [hall] at h; cases h
    | ok pair =>
      obtain ⟨last, b₂⟩ := pair
      rw [hall] at h
      cases h
      exact (steps_of_gateAll (p := false) hgate).trans
        (.head .gated (steps_of_dispatchAll hall))

theorem steps_of_settleFrom : ∀ {fuel : Nat} {s s' : State}, settleFrom u fuel s = .ok s' →
    Steps u env ⟨.gating u.order false, s⟩ ⟨.waiting, s'⟩ := by
  intro fuel
  induction fuel with
  | zero => intro s s' h; cases h
  | succ fuel ih =>
    intro s s' h
    rw [settleFrom] at h
    split at h
    · cases h
    · rename_i mid hround
      exact (steps_of_settleOnce hround).trans (.head .again (ih h))
    · rename_i mid hround
      cases h
      exact (steps_of_settleOnce hround).tail .settled

/-- What an operation leaves, if it is one that succeeds. -/
def left {α : Type} [Inhabited α] (result : Except Error α) : α := result.toOption.getD default

theorem eq_ok_left {α : Type} [Inhabited α] {result : Except Error α}
    (h : result.toBool = true) : result = .ok (left result) := by
  cases result with
  | error e => cases h
  | ok s => rfl

theorem eq_ok_left_pair {α : Type} [Inhabited α] {result : Except Error (α × Bool)} {b : Bool}
    (h : result.toBool = true) (hb : (left result).2 = b) : result = .ok ((left result).1, b) := by
  rw [← hb]
  exact eq_ok_left h

theorem eq_some_getD {α : Type} [Inhabited α] {o : Option α} (h : o.isSome = true) :
    o = some (o.getD default) := by
  cases o with
  | none => cases h
  | some a => rfl

theorem steps_of_settle {s s' : State} (h : settle u s = .ok s') :
    Steps u env ⟨.head, s⟩ ⟨.waiting, s'⟩ :=
  .head .begin (steps_of_settleFrom h)

theorem Reachable.settled {s s' : State} (hr : Reachable u env ⟨.head, s⟩)
    (h : settle u s = .ok s') : Reachable u env ⟨.waiting, s'⟩ :=
  Relation.ReflTransGen.trans hr (steps_of_settle h)

theorem Reachable.joined {s s' : State} {i now : Nat} {result : Except Error CommandOutput}
    (hr : Reachable u env ⟨.waiting, s⟩)
    (hc : ∃ c ∈ s.inFlight, c.stage = i ∧ env.answers c result) (hnow : s.run.clock ≤ now)
    (h : complete u (s.wakeAt now) i result = .ok s') : Reachable u env ⟨.head, s'⟩ := by
  obtain ⟨c, hc, rfl, hans⟩ := hc
  exact hr.tail (.join hc hans hnow h)

/-! ## Replays -/

/-- The settled state after the commands of some stages were done in this order, with these
results, a millisecond after each other; nothing if one of them is not in flight by then. -/
def replay? (u : Setup) : List (Nat × Except Error CommandOutput) → State → Option State
  | [], s => (settle u s).toOption
  | (i, result) :: rest, s =>
    match settle u s with
    | .error _ => none
    | .ok s =>
      if i ∈ s.flights then
        match complete u (s.wakeAt (s.run.clock + 1)) i result with
        | .error _ => none
        | .ok s => replay? u rest s
      else none

theorem Reachable.replayed {s' : State} :
    ∀ {events : List (Nat × Except Error CommandOutput)} {s : State},
      (∀ e ∈ events, ∀ c, c.stage = e.1 → env.answers c e.2) → Reachable u env ⟨.head, s⟩ →
      replay? u events s = some s' → Reachable u env ⟨.waiting, s'⟩ := by
  intro events
  induction events with
  | nil =>
    intro s _ hr h
    cases hsettle : settle u s with
    | error e =>
      rw [replay?, hsettle] at h
      cases h
    | ok settled =>
      rw [replay?, hsettle] at h
      cases h
      exact hr.settled hsettle
  | cons e rest ih =>
    obtain ⟨i, result⟩ := e
    intro s hans hr h
    obtain ⟨hanswer, hrest⟩ := List.forall_mem_cons.1 hans
    rw [replay?] at h
    split at h
    · cases h
    · rename_i settled hsettle
      split at h
      · rename_i hflying
        obtain ⟨c, hc, hi⟩ := List.mem_map.1 hflying
        split at h
        · cases h
        · rename_i done hdone
          have hjoined := (hr.settled hsettle).joined ⟨c, hc, hi, hanswer c hi⟩
            (Nat.le_succ settled.run.clock) hdone
          exact ih hrest hjoined h
      · cases h

end Scheduler
end Conveyor
