import Conveyor.Proofs.Output.Resolution
import Conveyor.Proofs.Scheduler.Confluence
import Conveyor.Proofs.Scheduler.Starts

/-!
# Conveyor.Proofs.Scheduler.Propagation

The way of a value from the command that prints it to the command that reads it.

A stage is queued only when its dependencies have ended, and the producer of an input is one of
them, so reading the input never comes too early. It is read only of a producer that has
succeeded. Then the store has what the outcome of the producer has, which is what its command
printed under the declared keys; and neither ever changes.

* `Printed`   — a stage succeeded when this output of its command was applied.
* `Recorded`  — nothing is recorded of outputs but those of stages that succeeded.
* `Fed`, `Supplied` — what the commands that were started found in their environment.
* `Delivered` — a value in the environment of a request is one that the producer's command printed.
* `Prepares`  — what preparing a stage comes to.
* `outputs_propagate` — the values that commands are given are those that were printed for them.
-/

namespace Conveyor
namespace Scheduler

variable {u : Setup} {env : Environment} {s s' : State} {i : Nat} {stage : Stage}
  {o o' : Outcome} {x y z : Point} {request : CommandRequest} {var : String} {r : OutputRef}

/-! ## What a stage has printed -/

theorem output_of_published? {result : Except Error CommandOutput} {values : Dict String}
    (h : stage.published? result = some values) :
    ∃ out, result = .ok out ∧ values = Marker.declared stage out.outputs := by
  cases result with
  | error e => cases h
  | ok out =>
    simp only [Stage.published?] at h
    split at h
    · cases h
      exact ⟨out, rfl, rfl⟩
    · cases h

/-- A stage succeeds by the output of its command, and has the declared part of it. -/
theorem Move.succeeded (h : Move u env s s') (ho : s'.run.outcome? i = some o)
    (hs : o.status = .succeeded) : s.run.outcome? i = some o ∨
      ∃ c out stage, c.stage = i ∧ env.answers c (.ok out) ∧ u.stage? i = some stage ∧
        o.outputs = Marker.declared stage out.outputs := by
  rcases h.outcome? ho with hsame | ⟨stage, a, _, hstage, hlife⟩
  · exact .inl hsame
  · cases hlife with
    | enqueue | launch | unready => cases hs
    | @finish c result _ _ hi hans =>
      cases hp : stage.published? result with
      | none => exact absurd hs (Outcome.close_of_published?_none hp a s.run.clock)
      | some values =>
        obtain ⟨out, rfl, rfl⟩ := output_of_published? hp
        exact .inr ⟨c, out, stage, hi, hans, hstage, (Outcome.close_of_published? hp a _).2⟩
    | ends hend => exact absurd hs hend.ne_succeeded

theorem Moves.succeeded (h : Moves u env s s') (ho : s'.run.outcome? i = some o)
    (hs : o.status = .succeeded) : s.run.outcome? i = some o ∨
      ∃ c out stage, c.stage = i ∧ env.answers c (.ok out) ∧ u.stage? i = some stage ∧
        o.outputs = Marker.declared stage out.outputs := by
  induction h with
  | refl => exact .inl ho
  | tail _ hm ih =>
    rcases hm.succeeded ho hs with hsame | hnew
    · exact ih hsame
    · exact .inr hnew

/-- The step in which the output of a command in flight is applied. -/
inductive Applies (u : Setup) (env : Environment) : Point → Point → Nat → CommandOutput → Prop
  where
  | join {c : InFlight} {out : CommandOutput} {now : Nat} {s s' : State} :
      c ∈ s.inFlight → env.answers c (.ok out) → s.run.clock ≤ now →
      complete u (s.wakeAt now) c.stage (.ok out) = .ok s' →
      Applies u env ⟨.waiting, s⟩ ⟨.head, s'⟩ c.stage out

/-- The stage succeeded when this output of its command was applied. -/
def Printed (u : Setup) (env : Environment) (z : Point) (i : Nat) (out : CommandOutput) : Prop :=
  ∃ x y, Reachable u env x ∧ Applies u env x y i out ∧ x.state.run.status? i = some .running ∧
    y.state.run.status? i = some .succeeded ∧ Steps u env y z

theorem Printed.step {out : CommandOutput} (h : Printed u env x i out) (hxy : Step u env x y) :
    Printed u env y i out := by
  obtain ⟨a, b, ha, hab, hrun, hdone, hbx⟩ := h
  exact ⟨a, b, ha, hab, hrun, hdone, hbx.tail hxy⟩

theorem Step.succeeded (h : Step u env x y) (ho : y.state.run.outcome? i = some o)
    (hs : o.status = .succeeded) : x.state.run.outcome? i = some o ∨
      ∃ out stage, Applies u env x y i out ∧ u.stage? i = some stage ∧
        o.outputs = Marker.declared stage out.outputs := by
  -- only a join asks what a command answers, so the moves of other steps are possible in silence,
  -- and those of a join where nothing is answered but the result that is applied
  let silent : Environment := ⟨fun _ _ => False, True⟩
  have hsilent : Moves u silent x.state y.state → x.state.run.outcome? i = some o := by
    intro hmoves
    rcases hmoves.succeeded ho hs with hsame | ⟨_, _, _, _, hans, _⟩
    · exact hsame
    · cases hans
  cases h with
  | begin | gated | full | again | settled => exact .inl ho
  | gate h => exact .inl (hsilent (Gated.of_gateOne silent h).moves)
  | dispatch hroom h => exact .inl (hsilent (Dispatched.of_dispatchOne silent hroom h).moves)
  | @cancelEarly now s s' _ hc hnow h | @cancel now s s' _ hc _ hnow h =>
    have hc' : (s.wakeAt now).run.cancelled = false := hc
    have hwithdrawn := Withdrawn.of_cancel silent hc' h
    exact .inl (hsilent ((hwithdrawn.moves trivial).head (.wake hnow)))
  | @join c result now s s' hc hans hnow h =>
    let answered : Environment := ⟨fun c' result' => c' = c ∧ result' = result, True⟩
    have hc' : c ∈ (s.wakeAt now).inFlight := hc
    have hans' : answered.answers c result := ⟨rfl, rfl⟩
    have hcompleted := Completed.of_complete hc' hans' h
    rcases hcompleted.moves.succeeded ho hs with
      hsame | ⟨_, out, stage, rfl, ⟨rfl, rfl⟩, hstage, houtputs⟩
    · exact .inl hsame
    · exact .inr ⟨out, stage, .join hc hans hnow h, hstage, houtputs⟩

theorem Reachable.printed (hx : Reachable u env x) (ho : x.state.run.outcome? i = some o)
    (hs : o.status = .succeeded) : ∃ out stage, Printed u env x i out ∧
      u.stage? i = some stage ∧ o.outputs = Marker.declared stage out.outputs := by
  induction hx generalizing o with
  | refl =>
    obtain ⟨stage, _, rfl⟩ := outcome_of_start ho
    cases hs
  | @tail x y hx hxy ih =>
    have hx : Reachable u env x := hx
    by_cases hkept : x.state.run.outcome? i = some o
    · obtain ⟨out, stage, hprinted, hstage, houtputs⟩ := ih hkept hs
      exact ⟨out, stage, hprinted.step hxy, hstage, houtputs⟩
    · rcases hxy.succeeded ho hs with hsame | ⟨out, stage, happlies, hstage, houtputs⟩
      · exact absurd hsame hkept
      · have hrun : x.state.run.status? i = some .running := by
          cases happlies with
          | @join c _ now s s' hc =>
            obtain ⟨a, ha, hdeparted⟩ := hx.traffic.flying c.stage (List.mem_map_of_mem hc)
            -- a stage that had ended would have kept its outcome
            have hopen : a.status.isTerminal = false := by
              refine Bool.eq_false_iff.2 fun hterm => hkept ?_
              have hlater := (moves_of_step hxy).kept ha hterm
              rw [ho] at hlater
              cases hlater
              exact ha
            rw [Run.status?, ha, Option.map_some, Status.running_of_open hopen hdeparted]
        have hdone : y.state.run.status? i = some .succeeded := by
          rw [Run.status?, ho, Option.map_some, hs]
        exact ⟨out, stage, ⟨x, y, hx, happlies, hrun, hdone, .refl⟩, hstage, houtputs⟩

/-! ## What is recorded of outputs -/

/-- Nothing is recorded of outputs but those of stages that succeeded. -/
structure Recorded (u : Setup) (s : State) : Prop where
  empty : ∀ i o, s.run.outcome? i = some o → o.status ≠ .succeeded → o.outputs = ∅
  owned : ∀ name values, s.run.outputs.outputsOf name = some values →
    ∃ i stage, u.stage? i = some stage ∧ stage.name = name

theorem recorded_start (u : Setup) : Recorded u (State.start u) := by
  refine ⟨?_, nofun⟩
  intro i o ho _
  obtain ⟨stage, _, rfl⟩ := outcome_of_start ho
  rfl

theorem Outcome.outputs_close (o : Outcome) (stage : Stage)
    (result : Except Error CommandOutput) (now : Nat)
    (h : (o.close stage result now).status ≠ .succeeded) :
    (o.close stage result now).outputs = o.outputs := by
  cases result with
  | error e => rfl
  | ok out =>
    simp only [Outcome.close] at h ⊢
    split at h
    · exact absurd rfl h
    · rename_i hsuccess
      rw [if_neg hsuccess]
      split <;> rfl

theorem Life.outputs_eq (h : Life u env s i stage o o') (hs : o'.status ≠ .succeeded) :
    o'.outputs = o.outputs := by
  cases h with
  | enqueue | launch | unready => rfl
  | finish => exact Outcome.outputs_close o stage _ _ hs
  | ends h => cases h <;> rfl

theorem Recorded.move (h : Recorded u s) (ht : Titled u s)
    (hg : u.graph.Describes u.pipeline.stages) (hm : Move u env s s') : Recorded u s' := by
  constructor
  · intro i o' ho' hs'
    rcases hm.outcome? ho' with ho | ⟨stage, o, ho, _, hlife⟩
    · exact h.empty i o' ho hs'
    · rw [hlife.outputs_eq hs']
      refine h.empty i o ho fun hs => ?_
      have hopen := hlife.open_
      rw [hs] at hopen
      cases hopen
  · cases hm with
    | @finish i stage o c result store ho hstage _ _ _ _ hstore =>
      intro name values hvalues
      have hvalues : store.outputsOf name = some values := hvalues
      cases hp : stage.published? result with
      | none =>
        rw [hp] at hstore
        cases hstore
        exact h.owned name values hvalues
      | some own =>
        rw [hp, ht.graph_name hg hstage] at hstore
        rw [OutputStore.outputsOf_publish hstore] at hvalues
        split at hvalues
        · rename_i hname
          exact ⟨i, stage, hstage, hname.symm⟩
        · exact h.owned name values hvalues
    | _ => exact h.owned

theorem Reachable.recorded (hg : u.graph.Describes u.pipeline.stages)
    (h : Reachable u env x) : Recorded u x.state :=
  (h.induct (fun s => Titled u s ∧ Recorded u s) ⟨titled_start u, recorded_start u⟩
    fun _ _ ⟨ht, hr⟩ hm => ⟨ht.move hm, hr.move ht hg hm⟩).2

/-- No key is recorded that its stage does not declare. -/
structure Declared (u : Setup) (s : State) : Prop where
  outcomes : ∀ i stage o key value, u.stage? i = some stage → s.run.outcome? i = some o →
    o.outputs.get? key = some value → key ∈ stage.outputs
  /-- The store has the outputs of the stages that succeeded, as their outcomes have them. -/
  store : ∀ name values, s.run.outputs.outputsOf name = some values →
    ∃ i stage o, u.stage? i = some stage ∧ stage.name = name ∧ s.run.outcome? i = some o ∧
      o.status = .succeeded ∧ o.outputs = values

theorem Reachable.declared (hu : u.Accepted) (hx : Reachable u env x) : Declared u x.state := by
  have ht := hx.titled
  have hrecorded := hx.recorded hu.describes
  constructor
  · intro i stage o key value hstage ho hvalue
    by_cases hs : o.status = .succeeded
    · obtain ⟨out, stage', _, hstage', houtputs⟩ := hx.printed ho hs
      rw [hstage] at hstage'
      cases hstage'
      rw [houtputs] at hvalue
      exact (Marker.get?_declared.1 hvalue).2
    · rw [hrecorded.empty i o ho hs] at hvalue
      cases hvalue
  · intro name values hvalues
    obtain ⟨i, stage, hstage, rfl⟩ := hrecorded.owned name values hvalues
    obtain ⟨o, ho⟩ := ht.present i stage hstage
    rw [← ht.name_eq hstage ho, (hx.ledger hu.describes).published i o ho] at hvalues
    split at hvalues
    · rename_i hs
      exact ⟨i, stage, o, hstage, rfl, ho, hs, Option.some.inj hvalues⟩
    · cases hvalues

/-! ## What a stage is given -/

theorem prepare_ok (h : prepare u s stage = .ok request) :
    ∃ inputs, s.run.resolveInputs stage = .ok inputs ∧
      request.env = environment u stage inputs := by
  rw [prepare] at h
  split at h
  · cases h
  · rename_i inputs hinputs
    split at h
    · cases h
    · cases h
      exact ⟨inputs, hinputs, rfl⟩

theorem prepare_error {e : Error} (h : prepare u s stage = .error e) :
    s.run.resolveInputs stage = .error e ∨
      Lease.acquire u.provider stage.name stage.secrets = .error e := by
  rw [prepare] at h
  split at h
  · rename_i hinputs
    cases h
    exact .inl hinputs
  · split at h
    · rename_i hsecrets
      cases h
      exact .inr hsecrets
    · cases h

theorem get?_environment {inputs : Dict String} {value : String}
    (h : inputs.get? var = some value) : (environment u stage inputs).get? var = some value := by
  rw [environment, Dict.get?_union, h]
  rfl

/-- The request has for this variable what the outcome of the producer has for the reference. -/
def Fed (u : Setup) (s : State) (request : CommandRequest) (var : String) (r : OutputRef) :
    Prop :=
  ∃ p producer o value, u.stage? p = some producer ∧ producer.name = r.stage ∧
    s.run.outcome? p = some o ∧ o.status = .succeeded ∧ o.outputs.get? r.key = some value ∧
    request.env.get? var = some value

theorem Fed.move (h : Fed u s request var r) (hm : Move u env s s') :
    Fed u s' request var r := by
  obtain ⟨p, producer, o, value, hp, hname, ho, hs, hvalue, henv⟩ := h
  exact ⟨p, producer, o, value, hp, hname, hm.kept ho (by rw [hs]; rfl), hs, hvalue, henv⟩

theorem Ledger.value?_eq (h : Ledger u s) (ht : Titled u s) {p : Nat} {producer : Stage}
    (hp : u.stage? p = some producer) (hname : producer.name = r.stage)
    (ho : s.run.outcome? p = some o) : s.run.outputs.value? r =
      if o.status = .succeeded then o.outputs.get? r.key else none := by
  rw [OutputStore.value?, ← hname, ← ht.name_eq hp ho, h.published p o ho]
  split <;> rfl

theorem fed_of_prepare (hg : u.graph.Describes u.pipeline.stages) (ht : Titled u s)
    (hl : Ledger u s) (h : prepare u s stage = .ok request)
    (hr : stage.inputs.get? var = some r) : Fed u s request var r := by
  obtain ⟨inputs, hinputs, henv⟩ := prepare_ok h
  obtain ⟨value, hread, hvalue⟩ := OutputStore.get?_of_resolveInputs hinputs hr
  obtain ⟨hstatus, hpublished⟩ := OutputStore.resolveInput_ok hread
  obtain ⟨p, producer, o, hp, hname, ho, hs⟩ := ht.of_statusOf? hg hstatus
  rw [hl.value?_eq ht hp hname ho, if_pos hs] at hpublished
  exact ⟨p, producer, o, value, hp, hname, ho, hs, hpublished, henv ▸ get?_environment hvalue⟩

theorem Fed.of_env {request' : CommandRequest} (h : Fed u s request var r)
    (henv : request'.env = request.env) : Fed u s request' var r := by
  obtain ⟨p, producer, o, value, hp, hname, ho, hs, hvalue, hgiven⟩ := h
  exact ⟨p, producer, o, value, hp, hname, ho, hs, hvalue, henv ▸ hgiven⟩

/-- The command of the stage was started with this request, or is in flight with it. The second
differs from the first in its signal when the command was told to stop. -/
def Handed (s : State) (i : Nat) (request : CommandRequest) : Prop :=
  .stageStarted i request ∈ s.notices ∨ ∃ c ∈ s.inFlight, c.stage = i ∧ c.request = request

theorem InFlight.env_hear (c : InFlight) (channel now : Nat) :
    (c.hear channel now).request.env = c.request.env := by
  rw [hear]
  split <;> rfl

/-- A request is made when a stage is prepared, and its environment is never changed. -/
theorem Move.handed (h : Move u env s s') (hr : Handed s' i request) :
    (∃ request', Handed s i request' ∧ request.env = request'.env) ∨
      ∃ stage, u.stage? i = some stage ∧ prepare u s stage = .ok request := by
  have hold : Handed s i request → (∃ request', Handed s i request' ∧
      request.env = request'.env) ∨
        ∃ stage, u.stage? i = some stage ∧ prepare u s stage = .ok request :=
    fun h => .inl ⟨request, h, rfl⟩
  have hfinished : ∀ {j o}, .stageStarted i request ∈ .stageFinished j o :: s.notices →
      Handed s i request := by
    intro j o hn
    rcases List.mem_cons.1 hn with heq | hn
    · cases heq
    · exact .inl hn
  have hland : ∀ {j}, (∃ c ∈ (s.land j).inFlight, c.stage = i ∧ c.request = request) →
      Handed s i request := by
    rintro j ⟨c, hc, hi, hrequest⟩
    exact .inr ⟨c, (List.mem_filter.1 hc).1, hi, hrequest⟩
  cases h with
  | @launch j stage _ _ own _ hstage _ _ _ hprep =>
    rcases hr with hn | ⟨c, hc, hi, hrequest⟩
    · rcases List.mem_cons.1 hn with heq | hn
      · cases heq
        exact .inr ⟨stage, hstage, hprep⟩
      · exact hold (.inl hn)
    · rcases List.mem_append.1 hc with hc | hc
      · exact hold (.inr ⟨c, hc, hi, hrequest⟩)
      · cases List.mem_singleton.1 hc
        cases hi
        cases hrequest
        exact .inr ⟨stage, hstage, hprep⟩
  | unready | conclude => exact hold (hr.elim hfinished .inr)
  | finish => exact hold (hr.elim hfinished hland)
  | drop => exact hold (hr.elim .inl hland)
  | signal =>
    rcases hr with hn | ⟨c, hc, hi, hrequest⟩
    · exact hold (.inl hn)
    · obtain ⟨a, ha, rfl⟩ := List.mem_map.1 hc
      rw [InFlight.stage_hear] at hi
      exact .inl ⟨a.request, .inr ⟨a, ha, hi, rfl⟩, hrequest ▸ a.env_hear _ _⟩
  | enqueue | ask | wake => exact hold hr

/-- Every command was given all its inputs. -/
def Supplied (u : Setup) (s : State) : Prop :=
  ∀ i request, Handed s i request → ∃ stage, u.stage? i = some stage ∧
    ∀ var r, stage.inputs.get? var = some r → Fed u s request var r

theorem supplied_start (u : Setup) : Supplied u (State.start u) := by
  rintro i request (hn | ⟨c, hc, _⟩)
  · cases hn
  · cases hc

theorem Supplied.move (h : Supplied u s) (hg : u.graph.Describes u.pipeline.stages)
    (ht : Titled u s) (hl : Ledger u s) (hm : Move u env s s') : Supplied u s' := by
  intro i request hr
  rcases hm.handed hr with ⟨request', hr', henv⟩ | ⟨stage, hstage, hprep⟩
  · obtain ⟨stage, hstage, hfed⟩ := h i request' hr'
    exact ⟨stage, hstage, fun var r hin => ((hfed var r hin).of_env henv).move hm⟩
  · exact ⟨stage, hstage, fun var r hin => (fed_of_prepare hg ht hl hprep hin).move hm⟩

theorem Reachable.supplied (hg : u.graph.Describes u.pipeline.stages) (h : Reachable u env x) :
    Supplied u x.state := by
  have h := h.induct (fun s => Titled u s ∧ Ledger u s ∧ Supplied u s)
    ⟨titled_start u, ledger_start u, supplied_start u⟩
    fun _ _ ⟨ht, hl, hs⟩ hm => ⟨ht.move hm, hl.move ht hg hm, hs.move hg ht hl hm⟩
  exact h.2.2

/-! ## Deliveries -/

/-- The producer has succeeded, and both its outcome and the store have this value. -/
structure Holds (run : Run) (p : Nat) (r : OutputRef) (value : String) : Prop where
  outcome : ∃ o, run.outcome? p = some o ∧ o.status = .succeeded ∧
    o.outputs.get? r.key = some value
  store : run.outputs.value? r = some value

/-- The value of an input in a request is what the producer's command printed, and what the run
has recorded from now to its end. -/
structure Delivery (u : Setup) (env : Environment) (x : Point) (request : CommandRequest)
    (var : String) (r : OutputRef) (p : Nat) (producer : Stage) (out : CommandOutput)
    (value : String) : Prop where
  stage : u.stage? p = some producer
  name : producer.name = r.stage
  declared : r.key ∈ producer.outputs
  printed : Printed u env x p out
  output : out.outputs.get? r.key = some value
  given : request.env.get? var = some value
  held : ∀ z, Steps u env x z → Holds z.state.run p r value

def Delivered (u : Setup) (env : Environment) (x : Point) (request : CommandRequest)
    (var : String) (r : OutputRef) : Prop :=
  ∃ p producer out value, Delivery u env x request var r p producer out value

theorem Fed.delivered (h : Fed u x.state request var r) (hu : u.Accepted)
    (hx : Reachable u env x) : Delivered u env x request var r := by
  obtain ⟨p, producer, o, value, hp, hname, ho, hs, hvalue, hgiven⟩ := h
  obtain ⟨out, producer', hprinted, hp', houtputs⟩ := hx.printed ho hs
  rw [hp] at hp'
  cases hp'
  have hdeclared := hvalue
  rw [houtputs] at hdeclared
  obtain ⟨hout, hkey⟩ := Marker.get?_declared.1 hdeclared
  refine ⟨p, producer, out, value, hp, hname, hkey, hprinted, hout, hgiven, ?_⟩
  intro z hz
  have hreach : Reachable u env z := Relation.ReflTransGen.trans hx hz
  have ho' := (moves_of_steps hz).kept ho (by rw [hs]; rfl)
  have hstore := (hreach.ledger hu.describes).value?_eq hreach.titled hp hname ho'
  rw [if_pos hs, hvalue] at hstore
  exact ⟨⟨o, ho', hs, hvalue⟩, hstore⟩

/-- What preparing a stage comes to. It fails only if an input was not published, or a secret is
not there. -/
inductive Prepares (u : Setup) (env : Environment) (x : Point) (stage : Stage) : Prop where
  | ready {request : CommandRequest} :
      prepare u x.state stage = .ok request →
      (∀ var r, stage.inputs.get? var = some r → Delivered u env x request var r) →
      Prepares u env x stage
  | noInput {var why : String} {r : OutputRef} :
      stage.inputs.get? var = some r → x.state.run.outputs.value? r = none →
      prepare u x.state stage = .error (.outputUnavailable stage.name r.text why) →
      Prepares u env x stage
  | noSecret {name : String} :
      name ∈ stage.secrets → u.provider name = none →
      prepare u x.state stage = .error (.secretUnavailable stage.name name) →
      Prepares u env x stage

theorem Reachable.producer_ended (hu : u.Accepted) (hx : Reachable u env x)
    (hstage : u.stage? i = some stage) (hs : x.state.run.status? i = some .queued)
    (hr : stage.inputs.get? var = some r) :
    ∃ p producer o, u.stage? p = some producer ∧ producer.name = r.stage ∧
      x.state.run.outcome? p = some o ∧ o.status.isTerminal = true := by
  obtain ⟨o, ho, hs⟩ := outcome?_of_status? hs
  have hlet := (hx.admitted i o ho (.inl hs)).unrefused
  obtain ⟨p, hp, hneed⟩ := hu.describes.needs_of_input hstage (Dict.mem_entries.2 hr)
  obtain ⟨a, ha, hterm⟩ := hlet.dependency_ended hx.titled hneed
  obtain ⟨producer, hproducer, hname⟩ := hu.describes.index?_eq_some_iff.1 hp
  exact ⟨p, producer, a, hproducer, hname, ha, hterm⟩

theorem Reachable.prepares (hu : u.Accepted) (hx : Reachable u env x)
    (hstage : u.stage? i = some stage) (hs : x.state.run.status? i = some .queued) :
    Prepares u env x stage := by
  have ht := hx.titled
  have hl := hx.ledger hu.describes
  cases hprep : prepare u x.state stage with
  | ok request =>
    refine .ready hprep fun var r hr => ?_
    exact (fed_of_prepare hu.describes ht hl hprep hr).delivered hu hx
  | error e =>
    rcases prepare_error hprep with hinputs | hsecrets
    · obtain ⟨var, r, hr, hone⟩ := OutputStore.resolveInputs_error hinputs
      obtain ⟨p, producer, o, hp, hname, ho, hterm⟩ := hx.producer_ended hu hstage hs hr
      have hstatus : x.state.run.statusOf? r.stage = some o.status := by
        rw [← hname, ht.statusOf? hu.describes hp, Run.status?, ho]
        rfl
      obtain ⟨⟨why, rfl⟩, hmissing⟩ := OutputStore.resolveInput_error hone hstatus hterm
      refine .noInput hr ?_ hprep
      by_cases hsucceeded : o.status = .succeeded
      · exact hmissing hsucceeded
      · rw [hl.value?_eq ht hp hname ho, if_neg hsucceeded]
    · obtain ⟨name, hname, hnone, rfl⟩ := Lease.acquire_error hsecrets
      exact .noSecret hname hnone hprep

/-- Nothing is recorded of the outputs of a stage, and no command that reads them was started. -/
structure Unseen (u : Setup) (s : State) (p : Nat) (producer : Stage) : Prop where
  outcome : ∀ o, s.run.outcome? p = some o → o.outputs = ∅
  store : s.run.outputs.outputsOf producer.name = none
  readers : ∀ i stage var r, u.stage? i = some stage → stage.inputs.get? var = some r →
    r.stage = producer.name → i ∉ s.starts

theorem Reachable.unseen (hu : u.Accepted) (hx : Reachable u env x) (hz : Steps u env x z)
    {p : Nat} {producer : Stage} (hp : u.stage? p = some producer)
    (ho : z.state.run.outcome? p = some o) (hs : o.status ≠ .succeeded) :
    Unseen u x.state p producer := by
  have hnot : ∀ a, x.state.run.outcome? p = some a → a.status ≠ .succeeded := by
    intro a ha has
    have hkept := (moves_of_steps hz).kept ha (by rw [has]; rfl)
    rw [ho] at hkept
    cases hkept
    exact hs has
  have ht := hx.titled
  refine ⟨fun a ha => (hx.recorded hu.describes).empty p a ha (hnot a ha), ?_, ?_⟩
  · obtain ⟨a, ha⟩ := ht.present p producer hp
    rw [← ht.name_eq hp ha, (hx.ledger hu.describes).published p a ha, if_neg (hnot a ha)]
  · intro i stage var r hstage hr hname hi
    obtain ⟨request, hn⟩ := mem_starts_iff.1 hi
    obtain ⟨stage', hstage', hfed⟩ := hx.supplied hu.describes i request (.inl hn)
    rw [hstage] at hstage'
    cases hstage'
    obtain ⟨p', producer', a, _, hp', hname', ha, has, _⟩ := hfed var r hr
    have hsame : p' = p := hu.describes.name_inj hp' hp (hname'.trans hname)
    exact hnot a (hsame ▸ ha) has

/-- When a queued stage is prepared, nothing can be missing but an input whose producer did not
publish it or a secret. If nothing is, every input has the value that the command of its producer
printed under the declared key, as the store and the outcome have it to the end of the run; and
this is so for every command that was started. No other key is ever recorded, and of a stage that
does not succeed nothing is recorded or read at any time. -/
theorem outputs_propagate (hu : u.Accepted) (hx : Reachable u env x) :
    (∀ i stage, u.stage? i = some stage → x.state.run.status? i = some .queued →
      Prepares u env x stage) ∧
    (∀ i request, Handed x.state i request → ∃ stage, u.stage? i = some stage ∧
      ∀ var r, stage.inputs.get? var = some r → Delivered u env x request var r) ∧
    Declared u x.state ∧
    ∀ z, Steps u env x z → ∀ p producer o, u.stage? p = some producer →
      z.state.run.outcome? p = some o → o.status ≠ .succeeded →
        Unseen u x.state p producer := by
  refine ⟨fun i stage => hx.prepares hu, ?_, hx.declared hu, fun z hz p producer o => ?_⟩
  · intro i request hr
    obtain ⟨stage, hstage, hfed⟩ := hx.supplied hu.describes i request hr
    exact ⟨stage, hstage, fun var r hin => (hfed var r hin).delivered hu hx⟩
  · exact hx.unseen hu hz

/-- The last stage reads what the first has printed, after the second has failed. What the first
printed under another key is not recorded. -/
theorem outputs_propagate_relay : ∃ x c o, Reachable relaySetup freeEnvironment x ∧
    c ∈ x.state.inFlight ∧ c.stage = 2 ∧ c.request.env.get? "VERSION" = some "1" ∧
      x.state.run.status? 1 = some .failed ∧ x.state.run.outcome? 0 = some o ∧
      o.outputs.get? "version" = some "1" ∧ o.outputs.get? "debug" = none := by
  let out : CommandOutput :=
    { exitCode := some 0, outputs := Dict.ofList [("debug", "7"), ("version", "1")] }
  let s₁ := left (settle relaySetup (State.start relaySetup))
  let s₂ := left (complete relaySetup (s₁.wakeAt 1) 1 (.ok { exitCode := some 2 }))
  let s₃ := left (settle relaySetup s₂)
  let s₄ := left (complete relaySetup (s₃.wakeAt 2) 0 (.ok out))
  let s := left (settle relaySetup s₄)
  have hu : relaySetup.Accepted := ⟨rfl⟩
  have h₁ : Reachable relaySetup freeEnvironment ⟨.waiting, s₁⟩ :=
    Reachable.settled .refl (eq_ok_left (by decide +kernel))
  obtain ⟨c₁, hc₁, hi₁⟩ : ∃ c ∈ s₁.inFlight, c.stage = 1 := by decide +kernel
  have hclock₁ : s₁.run.clock ≤ 1 := by decide +kernel
  have h₃ : Reachable relaySetup freeEnvironment ⟨.waiting, s₃⟩ :=
    (h₁.joined ⟨c₁, hc₁, hi₁, fun _ h => by cases h⟩ hclock₁
      (eq_ok_left (by decide +kernel))).settled (eq_ok_left (by decide +kernel))
  obtain ⟨c₃, hc₃, hi₃⟩ : ∃ c ∈ s₃.inFlight, c.stage = 0 := by decide +kernel
  have hclock₃ : s₃.run.clock ≤ 2 := by decide +kernel
  have h : Reachable relaySetup freeEnvironment ⟨.waiting, s⟩ :=
    (h₃.joined ⟨c₃, hc₃, hi₃, fun _ h => by cases h⟩ hclock₃
      (eq_ok_left (by decide +kernel))).settled (eq_ok_left (by decide +kernel))
  obtain ⟨c, hc, hi⟩ : ∃ c ∈ s.inFlight, c.stage = 2 := by decide +kernel
  have hfailed : s.run.status? 1 = some .failed := by decide +kernel
  have hread : (s.run.outcome? 0).bind (·.outputs.get? "version") = some "1" := by
    decide +kernel
  clear_value s
  obtain ⟨_, hgiven, hdeclared, _⟩ := outputs_propagate hu h
  obtain ⟨o, ho, hvalue⟩ := Option.bind_eq_some_iff.1 hread
  obtain ⟨stage, hstage, hinputs⟩ := hgiven 2 c.request (.inr ⟨c, hc, hi, rfl⟩)
  cases hstage
  obtain ⟨p, producer, _, value, hdelivery⟩ := hinputs "VERSION" ⟨"build", "version"⟩ rfl
  have hp : p = 0 := hu.describes.name_inj hdelivery.stage rfl hdelivery.name
  subst hp
  obtain ⟨o', ho', _, hvalue'⟩ := (hdelivery.held _ .refl).outcome
  rw [ho] at ho'
  cases ho'
  obtain rfl : value = "1" := Option.some.inj (hvalue'.symm.trans hvalue)
  refine ⟨_, c, o, h, hc, hi, hdelivery.given, hfailed, ho, hvalue, ?_⟩
  -- the key is not among those that the stage declares
  refine Option.eq_none_iff_forall_ne_some.2 fun value hdebug => ?_
  have hkey := hdeclared.outcomes 0 _ o "debug" value rfl ho hdebug
  revert hkey
  decide

end Scheduler
end Conveyor
