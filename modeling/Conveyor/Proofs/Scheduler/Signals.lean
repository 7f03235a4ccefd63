import Conveyor.Proofs.Scheduler.Aftermath
import Conveyor.Proofs.Scheduler.Overlap

/-!
# Conveyor.Proofs.Scheduler.Signals

Which commands are told to stop.

A command listens to the channel that was open when it was prepared. An abort fires that channel
and opens the next, so a run has as many channels as it was aborted times, and one more. What
makes this reach the right commands is that all commands that were not told to stop listen to the
open channel, and that an abort ends every stage that runs.

* `Tuned`    — the invariant: the open channel was not fired, and whatever runs listens to it.
* `Unspoilt` — no command was ever handed a signal that was fired before.
* `signals_fired_iff_ended` — the signal of a command in flight has fired exactly if its stage
  does not run any more.
-/

namespace Conveyor
namespace Scheduler

variable {u : Setup} {env : Environment} {s s' b : State} {i : Nat} {stage cause : Stage}
  {o : Outcome} {x y : Point}

/-! ## The open channel -/

structure Tuned (s : State) : Prop where
  unfired : s.signal.firedAt = none
  /-- A command that was not told to stop listens to the open channel. -/
  listening : ∀ c ∈ s.inFlight, c.abortedAt = none →
    c.request.cancel.channel = s.signal.channel
  running : ∀ c ∈ s.inFlight, c.abortedAt = none ↔ s.run.status? c.stage = some .running

theorem cancel_of_prepare {request : CommandRequest} (h : prepare u s stage = .ok request) :
    request.cancel = s.signal := by
  rw [prepare] at h
  split at h
  · cases h
  · split at h
    · cases h
    · cases h
      rfl

theorem tuned_start (u : Setup) : Tuned (State.start u) := ⟨rfl, nofun, nofun⟩

namespace Tuned

/-- Commands may land, and stages without a command may change. -/
theorem of_kept (h : Tuned s) (hsignal : s'.signal = s.signal)
    (hkept : ∀ c ∈ s'.inFlight, c ∈ s.inFlight ∧
      s'.run.outcome? c.stage = s.run.outcome? c.stage) : Tuned s' := by
  refine ⟨hsignal ▸ h.unfired, ?_, ?_⟩
  · intro c hc
    rw [hsignal]
    exact h.listening c (hkept c hc).1
  · intro c hc
    rw [Run.status?, (hkept c hc).2, ← Run.status?]
    exact h.running c (hkept c hc).1

theorem abortedAt_hear (h : Tuned s) {c : InFlight} (hc : c ∈ s.inFlight) (now : Nat) :
    (c.hear s.signal.channel now).abortedAt ≠ none := by
  rw [InFlight.hear]
  split
  · exact Option.some_ne_none now
  · rename_i hother
    exact fun hnone => hother (h.listening c hc hnone)

/-- The open channel is fired when no stage with a command in flight runs any more. -/
theorem fireSignals (h : Tuned s) (hsignal : s'.signal = s.fireSignals.signal)
    (hflights : s'.inFlight = s.fireSignals.inFlight)
    (hended : ∀ c ∈ s.inFlight, s'.run.status? c.stage ≠ some .running) : Tuned s' := by
  have hheard : ∀ c ∈ s'.inFlight, c.abortedAt ≠ none ∧
      s'.run.status? c.stage ≠ some .running := by
    intro c hc
    rw [hflights] at hc
    obtain ⟨a, ha, rfl⟩ := List.mem_map.1 hc
    rw [InFlight.stage_hear]
    exact ⟨h.abortedAt_hear ha _, hended a ha⟩
  refine ⟨by rw [hsignal]; rfl, ?_, ?_⟩
  · exact fun c hc hnone => absurd hnone (hheard c hc).1
  · exact fun c hc => iff_of_false (hheard c hc).1 (hheard c hc).2

theorem launch (h : Tuned s) (ht : Traffic u s) (ho : s.run.outcome? i = some o)
    (hs : o.status = .queued) {locks : Locks} {request : CommandRequest}
    (hrequest : request.cancel = s.signal) : Tuned (s.launch i o locks request) := by
  have hi : i ∉ s.flights := ht.not_mem_flights ho (by rw [hs]; rfl)
  -- so the stages of the other commands are as they were
  have hold : ∀ c ∈ s.inFlight, c.stage ≠ i := by
    rintro c hc rfl
    exact hi (List.mem_map_of_mem hc)
  have hset := Run.outcome?_setOutcome ho (o.begin s.run.clock)
  refine ⟨h.unfired, ?_, ?_⟩
  · intro c hc hnone
    rcases List.mem_append.1 hc with hc | hc
    · exact h.listening c hc hnone
    · cases List.mem_singleton.1 hc
      exact congrArg Signal.channel hrequest
  · intro c hc
    rw [Run.status?, State.run_launch, hset]
    rcases List.mem_append.1 hc with hc | hc
    · rw [if_neg (hold c hc)]
      exact h.running c hc
    · cases List.mem_singleton.1 hc
      have hfresh : request.cancel.firedAt = none := by rw [hrequest]; exact h.unfired
      rw [if_pos rfl]
      exact iff_of_true hfresh rfl

theorem allBut (h : Tuned s) (hbut : AllBut i s s') : Tuned s' := by
  refine h.of_kept hbut.signal fun c hc => ?_
  rw [hbut.inFlight, List.mem_filter, decide_eq_true_eq] at hc
  exact ⟨hc.1, hbut.others c.stage hc.2⟩

/-- A failure that is not one of the whole run takes no stage along that has a command in flight.
One of the whole run stops them all. -/
theorem aftermath (h : Tuned s) (hafter : Aftermath u cause s s')
    (hdeparted : ∀ c ∈ s.inFlight, ∃ stage o, u.stage? c.stage = some stage ∧
      s.run.outcome? c.stage = some o ∧ o.status.waits = false) : Tuned s' := by
  cases hff : u.pipeline.settings.failFast with
  | false =>
    obtain ⟨hflights, hsignal⟩ := hafter.quiet hff
    refine h.of_kept hsignal fun c hc => ?_
    rw [hflights] at hc
    obtain ⟨stage, o, hstage, ho, hs⟩ := hdeparted c hc
    refine ⟨hc, (hafter.spared _ stage o hstage ho fun hfall => ?_).trans ho.symm⟩
    rw [hfall.waits hff] at hs
    cases hs
  | true =>
    obtain ⟨hflights, hsignal⟩ := hafter.alarm hff
    refine h.fireSignals hsignal hflights fun c hc => ?_
    obtain ⟨stage, o, hstage, ho, _⟩ := hdeparted c hc
    exact hafter.not_running hff hstage ho

theorem turn (h : Tuned s) (ht : Traffic u s) (hturn : Turn u s s') : Tuned s' := by
  have hdeparted : ∀ c ∈ s.inFlight, ∃ stage o, u.stage? c.stage = some stage ∧
      s.run.outcome? c.stage = some o ∧ o.status.waits = false := by
    intro c hc
    obtain ⟨stage, hstage⟩ := ht.known c.stage (List.mem_map_of_mem hc)
    obtain ⟨o, ho, hs⟩ := ht.flying c.stage (List.mem_map_of_mem hc)
    exact ⟨stage, o, hstage, ho, hs⟩
  cases hturn with
  | rest heq => exact heq ▸ h
  | alone hbut => exact h.allBut hbut
  | launch ho hs hprep heq => exact heq ▸ h.launch ht ho hs (cancel_of_prepare hprep)
  | fail _ _ _ _ hbut _ _ hafter =>
    refine (h.allBut hbut).aftermath hafter fun c hc => ?_
    rw [hbut.inFlight, List.mem_filter, decide_eq_true_eq] at hc
    rw [hbut.others c.stage hc.2]
    exact hdeparted c hc.1
  | @cancel b mid hb _ hflights hsignal hculled heq =>
    subst heq
    have htuned : Tuned b :=
      h.of_kept hsignal fun c hc => ⟨hflights ▸ hc, hb c.stage⟩
    refine htuned.fireSignals ?_ ?_ fun c hc => ?_
    · simp only [State.fireSignals, hculled.signal]
    · simp only [State.fireSignals, hculled.signal, hculled.inFlight, hculled.clock]
    · obtain ⟨stage, o, hstage, ho, _⟩ := hdeparted c (hflights ▸ hc)
      rw [← hb c.stage] at ho
      exact hculled.not_running hstage ho

end Tuned

theorem Reachable.tuned (hu : u.Accepted) (h : Reachable u env x) : Tuned x.state := by
  induction h with
  | refl => exact tuned_start u
  | tail hx hstep ih => exact ih.turn (Reachable.traffic hx) (hstep.turn hu hx)

/-! ## Signals as they are handed over -/

structure Unspoilt (s : State) : Prop where
  signal : s.signal.firedAt = none
  requests : ∀ i request, .stageStarted i request ∈ s.notices → request.cancel.firedAt = none

theorem Unspoilt.move (h : Unspoilt s) (hm : Move u env s s') : Unspoilt s' := by
  cases hm with
  | launch _ _ _ _ _ hprep =>
    refine ⟨h.signal, ?_⟩
    intro i request hi
    rcases List.mem_cons.1 hi with hi | hi
    · cases hi
      rw [cancel_of_prepare hprep]
      exact h.signal
    · exact h.requests i request hi
  | unready | conclude | finish =>
    refine ⟨h.signal, ?_⟩
    intro i request hi
    rcases List.mem_cons.1 hi with hi | hi
    · cases hi
    · exact h.requests i request hi
  | signal => exact ⟨rfl, h.requests⟩
  | enqueue | drop | ask | wake => exact ⟨h.signal, h.requests⟩

theorem Reachable.unspoilt (h : Reachable u env x) : Unspoilt x.state :=
  h.induct Unspoilt ⟨rfl, nofun⟩ fun _ _ hs hm => hs.move hm

/-! ## Aborted commands -/

/-- However often a run is aborted, and whatever was started and has landed in between, the signal
of a command in flight has fired exactly if its stage does not run any more. So no aborted command
is left without a signal, and no command is started with one that has fired. -/
theorem signals_fired_iff_ended (hu : u.Accepted) (hx : Reachable u env x) :
    (∀ c ∈ x.state.inFlight,
      c.abortedAt.isSome = true ↔ x.state.run.status? c.stage ≠ some .running) ∧
    ∀ i request, .stageStarted i request ∈ x.state.notices →
      request.cancel.firedAt = none := by
  refine ⟨?_, hx.unspoilt.requests⟩
  intro c hc
  rw [Option.isSome_iff_ne_none]
  exact not_congr ((hx.tuned hu).running c hc)

/-- A command that lingers after an abort has heard it, and the one that was started after the
abort has not. -/
theorem signals_fired_iff_ended_linger : ∃ x, Reachable lingerSetup freeEnvironment x ∧
    ∃ old ∈ x.state.inFlight, ∃ new ∈ x.state.inFlight, old.stage = 0 ∧
      old.abortedAt.isSome = true ∧ new.stage = 2 ∧ new.abortedAt = none := by
  let started := left (settle lingerSetup (State.start lingerSetup))
  let failed := left (complete lingerSetup (started.wakeAt 1) 1 (.ok { exitCode := some 1 }))
  let settled := left (settle lingerSetup failed)
  have hu : lingerSetup.Accepted := ⟨rfl⟩
  have h₁ : Reachable lingerSetup freeEnvironment ⟨.waiting, started⟩ :=
    Reachable.settled .refl (eq_ok_left (by decide +kernel))
  obtain ⟨c, hc, hstage⟩ : ∃ c ∈ started.inFlight, c.stage = 1 := by decide +kernel
  have hclock : started.run.clock ≤ 1 := by decide +kernel
  have h₂ : Reachable lingerSetup freeEnvironment ⟨.head, failed⟩ :=
    h₁.joined ⟨c, hc, hstage, fun _ h => by cases h⟩ hclock (eq_ok_left (by decide +kernel))
  have h₃ : Reachable lingerSetup freeEnvironment ⟨.waiting, settled⟩ :=
    h₂.settled (eq_ok_left (by decide +kernel))
  obtain ⟨old, hold, hdeploy⟩ : ∃ c ∈ settled.inFlight, c.stage = 0 := by decide +kernel
  obtain ⟨new, hnew, hrollback⟩ : ∃ c ∈ settled.inFlight, c.stage = 2 := by decide +kernel
  have hskipped : settled.run.status? 0 = some .skipped := by decide +kernel
  have hrunning : settled.run.status? 2 = some .running := by decide +kernel
  clear_value settled
  obtain ⟨hfired, _⟩ := @signals_fired_iff_ended lingerSetup freeEnvironment _ hu h₃
  refine ⟨_, h₃, old, hold, new, hnew, hdeploy, (hfired old hold).2 ?_, hrollback, ?_⟩
  · rw [hdeploy, hskipped]
    nofun
  · rw [← Option.not_isSome_iff_eq_none]
    exact fun h => (hfired new hnew).1 h (by rw [hrollback]; exact hrunning)

end Scheduler
end Conveyor
