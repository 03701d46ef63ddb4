import Mathlib
import Nydus.Lib.Run
/-!
# The daemon's lifecycle

`nydusd` drives its lifecycle through `DaemonStateMachine` (`daemon.rs`), a `rust-fsm` machine
that one thread runs in `kick_state_machine`. A request that `on_event` sends moves the machine
when its state has a transition for it; the output of the transition is an action that calls the
daemon's callbacks, and a successful action sets the state the daemon reports (`get_state`).
The thread replies once to each request and leaves its loop once the reported state is
`STOPPED`; `on_event` then fails on the closed channel. `stop()` and `trigger_exit()` pick the
requests they send from the reported state.

So the daemon has two states: the machine's, moved by every accepted request, and the reported
one, set only by an action that succeeds, and by none for `Mount`. The callbacks (`start`,
`disconnect`, `wait_service`, `restore`) are modelled by whether they succeed, for every
request on its own.

Over every run of requests, whatever the callbacks do, the daemon reports `STOPPED` only once the
machine is in `Die` and exactly when the thread has left its loop (`Sound`, `run_sound`), and
nothing changes once the machine is in `Die` (`run_of_die`). When every callback succeeds, the
reported state keeps in step with the machine (`InStep`), and `stop()` and `trigger_exit()` then
stop the daemon and return `Ok` (`run_stop_of_succeeding`). Without that, `stop()` can return
`Ok` and leave the daemon running: exactly when a `start` failed, so that the machine is
`Running` while the daemon reports `INIT` or `READY` (`stop_ok_not_stopped_iff`).
-/

namespace Nydus.Daemon

/-- The states of `DaemonStateMachine`. -/
inductive DaemonStateMachineState where
  | init
  | ready
  | running
  | die
deriving DecidableEq, Repr

/-- The inputs of `DaemonStateMachine`. -/
inductive DaemonStateMachineInput where
  | mount
  | takeover
  | start
  | stop
  | exit
deriving DecidableEq, Repr

/-- The outputs of `DaemonStateMachine`: the action a transition asks for. -/
inductive DaemonStateMachineOutput where
  | restore
  | stopStateMachine
  | startService
  | umount
  | terminateService
deriving DecidableEq, Repr

/-- `DaemonState`, the state the daemon reports. -/
inductive DaemonState where
  | init
  | running
  | ready
  | stopped
  | unknown
deriving DecidableEq, Repr

/-- The errors of a request. -/
inductive DaemonError where
  /-- `DaemonError::UnexpectedEvent`: the machine has no transition for the request. -/
  | unexpectedEvent (input : DaemonStateMachineInput)
  /-- The error a failing callback returned. -/
  | service
  /-- `DaemonError::Channel`: the request or its reply could not pass the channel. -/
  | channel
deriving DecidableEq, Repr

/-- The transitions of the `state_machine!` table: the next state and the output, or `none` when
`consume` finds no transition. -/
def transition : DaemonStateMachineState → DaemonStateMachineInput →
    Option (DaemonStateMachineState × Option DaemonStateMachineOutput)
  | .init, .mount => some (.ready, none)
  | .init, .takeover => some (.ready, some .restore)
  | .init, .stop => some (.die, some .stopStateMachine)
  | .ready, .start => some (.running, some .startService)
  | .ready, .stop => some (.die, some .umount)
  | .ready, .exit => some (.die, some .stopStateMachine)
  | .running, .stop => some (.ready, some .terminateService)
  | _, _ => none

/-- Whether each callback succeeds while a request is handled. -/
structure Callbacks where
  start : Bool
  disconnect : Bool
  waitService : Bool
  restore : Bool
deriving DecidableEq, Repr

/-- The callbacks all succeed. -/
def Callbacks.succeeding : Callbacks := ⟨true, true, true, true⟩

/-- The action of an output, run by `kick_state_machine`: the reported state after it and the
reply. `Umount` only logs a failure of `wait_service`. -/
def runAction (state : DaemonState) (cb : Callbacks) :
    DaemonStateMachineOutput → DaemonState × Except DaemonError Unit
  | .startService => if cb.start then (.running, .ok ()) else (state, .error .service)
  | .terminateService => if cb.waitService then (.ready, .ok ()) else (state, .error .service)
  | .umount => if cb.disconnect then (.stopped, .ok ()) else (state, .error .service)
  | .restore => if cb.restore then (.ready, .ok ()) else (state, .error .service)
  | .stopStateMachine => (.stopped, .ok ())

/-- The state `kick_state_machine` works on (`DaemonStateMachineContext`): the machine's state,
the state the daemon reports, and whether the thread has left its loop. -/
structure DaemonStateMachineContext where
  sm : DaemonStateMachineState
  state : DaemonState
  exited : Bool
deriving DecidableEq, Repr

namespace DaemonStateMachineContext

/-- A daemon just created: `StateMachine::new()` and `state: AtomicI32::new(INIT)`. -/
def new : DaemonStateMachineContext := ⟨.init, .init, false⟩

end DaemonStateMachineContext

/-- The result of a request: the context after it and the reply. -/
abbrev Handled := DaemonStateMachineContext × Except DaemonError Unit

/-- One turn of the loop of `kick_state_machine` on a request. A request the machine has no
transition for is refused, and the loop goes on without looking at the reported state;
otherwise the loop is left once the daemon reports `STOPPED`. -/
def kick (ctx : DaemonStateMachineContext) (input : DaemonStateMachineInput) (cb : Callbacks) :
    Handled :=
  match transition ctx.sm input with
  | none => (ctx, .error (.unexpectedEvent input))
  | some (sm, action) =>
    let done : DaemonState × Except DaemonError Unit := match action with
      | none => (ctx.state, .ok ())
      | some a => runAction ctx.state cb a
    (⟨sm, done.1, done.1 == .stopped⟩, done.2)

/-- `on_event`: the request goes to the thread and its reply comes back. Once the thread has left
its loop, the channel is closed on its side and the call fails. -/
def onEvent (ctx : DaemonStateMachineContext) (input : DaemonStateMachineInput) (cb : Callbacks) :
    Handled :=
  if ctx.exited then (ctx, .error .channel) else kick ctx input cb

/-- Two requests in a row, the second sent only when the first succeeds (`?`). -/
def andThen (first : Handled) (second : DaemonStateMachineContext → Handled) : Handled :=
  match first.2 with
  | .error e => (first.1, .error e)
  | .ok () => second first.1

/-- `NydusDaemon::stop`. -/
def stop (ctx : DaemonStateMachineContext) (first second : Callbacks) : Handled :=
  if ctx.state = .stopped then (ctx, .ok ())
  else if ctx.state = .running then
    andThen (onEvent ctx .stop first) fun ctx => onEvent ctx .stop second
  else onEvent ctx .stop first

/-- `NydusDaemon::trigger_exit`. -/
def triggerExit (ctx : DaemonStateMachineContext) (first second : Callbacks) : Handled :=
  if ctx.state = .stopped then (ctx, .ok ())
  else if ctx.state = .init then onEvent ctx .stop first
  else if ctx.state = .running then
    andThen (onEvent ctx .stop first) fun ctx => onEvent ctx .exit second
  else onEvent ctx .exit first

/-- A lifecycle request of a client, with the outcomes of the callbacks of the events it sends:
one event (`trigger_start`, `trigger_takeover`, and the `Mount` and `Start` of the daemon's
creation), `stop()` or `trigger_exit()`. -/
inductive Request where
  | event (input : DaemonStateMachineInput) (cb : Callbacks)
  | stopDaemon (first second : Callbacks)
  | exitDaemon (first second : Callbacks)
deriving DecidableEq, Repr

/-- A request handled: the context after it and the reply. -/
def Request.handle (ctx : DaemonStateMachineContext) : Request → Handled
  | .event input cb => onEvent ctx input cb
  | .stopDaemon first second => stop ctx first second
  | .exitDaemon first second => triggerExit ctx first second

/-- The context after a request. -/
def step (ctx : DaemonStateMachineContext) (r : Request) : DaemonStateMachineContext :=
  (r.handle ctx).1

/-! ## Transitions and actions -/

theorem transition_die (input : DaemonStateMachineInput) : transition .die input = none := by
  cases input <;> rfl

/-- Only transitions into `Die` ask for the actions that stop the daemon. -/
theorem die_of_transition {sm sm' : DaemonStateMachineState} {input : DaemonStateMachineInput}
    {a : DaemonStateMachineOutput} (moved : transition sm input = some (sm', some a))
    (stopping : a = .umount ∨ a = .stopStateMachine) : sm' = .die := by
  cases sm <;> cases input <;> simp only [transition] at moved <;> cases moved <;> simp_all

/-- An action reports `STOPPED` only when it stops the daemon or the daemon was stopped. -/
theorem runAction_stopped {state : DaemonState} {cb : Callbacks} {a : DaemonStateMachineOutput}
    (stopped : (runAction state cb a).1 = .stopped) :
    state = .stopped ∨ a = .umount ∨ a = .stopStateMachine := by
  cases a <;> simp only [runAction] at stopped <;> simp only [reduceCtorEq, or_true, or_false] <;>
    split at stopped <;> simp_all

theorem runAction_known {state : DaemonState} {cb : Callbacks} {a : DaemonStateMachineOutput}
    (known : state ≠ .unknown) : (runAction state cb a).1 ≠ .unknown := by
  cases a <;> simp only [runAction] <;> (try split) <;> simp [known]

/-! ## What every run keeps -/

/-- What holds of the daemon after any requests, whatever the callbacks do: it reports `STOPPED`
only once the machine is in `Die`, and exactly when the thread has left its loop; it never
reports `UNKNOWN`. -/
structure Sound (ctx : DaemonStateMachineContext) : Prop where
  die_of_stopped : ctx.state = .stopped → ctx.sm = .die
  exited_iff : ctx.exited = true ↔ ctx.state = .stopped
  known : ctx.state ≠ .unknown

section Sound

variable {ctx : DaemonStateMachineContext}

theorem sound_new : Sound DaemonStateMachineContext.new where
  die_of_stopped := by decide
  exited_iff := by decide
  known := by decide

/-- A machine that moves was not in `Die`, so the daemon did not report `STOPPED`. -/
theorem Sound.not_stopped_of_transition (sound : Sound ctx) {input : DaemonStateMachineInput}
    {next : DaemonStateMachineState × Option DaemonStateMachineOutput}
    (moved : transition ctx.sm input = some next) : ctx.state ≠ .stopped := fun stopped => by
  rw [sound.die_of_stopped stopped, transition_die] at moved
  cases moved

theorem Sound.kick (sound : Sound ctx) (input : DaemonStateMachineInput) (cb : Callbacks) :
    Sound (kick ctx input cb).1 := by
  unfold Nydus.Daemon.kick
  cases moved : transition ctx.sm input with
  | none => exact sound
  | some next =>
    obtain ⟨sm, action⟩ := next
    have before := sound.not_stopped_of_transition moved
    cases action with
    | none => exact ⟨fun stopped => absurd stopped before, by simp [before], sound.known⟩
    | some a =>
      refine ⟨fun stopped => ?_, by simp, runAction_known sound.known⟩
      -- only `Umount` and `StopStateMachine` report `STOPPED`, and they go to `Die`
      rcases runAction_stopped stopped with was | stopping
      · exact absurd was before
      · exact die_of_transition moved stopping

theorem Sound.onEvent (sound : Sound ctx) (input : DaemonStateMachineInput) (cb : Callbacks) :
    Sound (onEvent ctx input cb).1 := by
  unfold Nydus.Daemon.onEvent
  split
  · exact sound
  · exact sound.kick input cb

theorem Sound.andThen {first : Handled} {second : DaemonStateMachineContext → Handled}
    (sound : Sound first.1) (kept : ∀ ctx, Sound ctx → Sound (second ctx).1) :
    Sound (andThen first second).1 := by
  unfold Nydus.Daemon.andThen
  split
  · exact sound
  · exact kept _ sound

theorem Sound.step (sound : Sound ctx) (r : Request) : Sound (step ctx r) := by
  cases r with
  | event input cb => exact sound.onEvent input cb
  | stopDaemon first second =>
    unfold Nydus.Daemon.step Request.handle stop
    split_ifs
    · exact sound
    · exact (sound.onEvent _ first).andThen fun _ kept => kept.onEvent _ second
    · exact sound.onEvent _ first
  | exitDaemon first second =>
    unfold Nydus.Daemon.step Request.handle triggerExit
    split_ifs
    · exact sound
    · exact sound.onEvent _ first
    · exact (sound.onEvent _ first).andThen fun _ kept => kept.onEvent _ second
    · exact sound.onEvent _ first

theorem sound_run (requests : List Request) : Sound (Run.run step .new requests) :=
  Run.invariant_always (fun _ r sound => sound.step r) sound_new

end Sound

/-- Whatever the requests and however the callbacks fare, the daemon reports `STOPPED` only once
its machine is in `Die`, and exactly when the state-machine thread has left its loop; it never
reports `UNKNOWN`. -/
theorem run_reports_stopped_only_in_die (requests : List Request) :
    ((Run.run step .new requests).state = .stopped → (Run.run step .new requests).sm = .die) ∧
      ((Run.run step .new requests).exited = true ↔
        (Run.run step .new requests).state = .stopped) ∧
      (Run.run step .new requests).state ≠ .unknown :=
  have sound := sound_run requests
  ⟨sound.die_of_stopped, sound.exited_iff, sound.known⟩

/-! ## After `Die` -/

section Die

variable {ctx : DaemonStateMachineContext}

/-- In `Die` every event is refused: on the closed channel once the thread has left its loop,
by the machine before. -/
theorem onEvent_of_die (dead : ctx.sm = .die) (input : DaemonStateMachineInput) (cb : Callbacks) :
    onEvent ctx input cb =
      (ctx, .error (if ctx.exited then .channel else .unexpectedEvent input)) := by
  unfold onEvent kick
  by_cases exited : ctx.exited
  · rw [if_pos exited, if_pos exited]
  · rw [if_neg exited, if_neg exited]
    simp only [dead, transition_die]

theorem handle_of_die (dead : ctx.sm = .die) (r : Request) :
    (r.handle ctx).1 = ctx ∧ ((r.handle ctx).2 = .ok () → ctx.state = .stopped) := by
  cases r with
  | event input cb => simp [Request.handle, onEvent_of_die dead]
  | stopDaemon first second =>
    unfold Request.handle stop
    split_ifs with stopped <;> simp [onEvent_of_die dead, andThen, stopped]
  | exitDaemon first second =>
    unfold Request.handle triggerExit
    split_ifs with stopped <;> simp [onEvent_of_die dead, andThen, stopped]

/-- Once the machine is in `Die`, no request changes the daemon, and every request fails but
a `stop()` or a `trigger_exit()` of a daemon that reports `STOPPED`: a daemon whose `disconnect`
failed on `Umount` can be neither stopped nor started again. -/
theorem run_of_die (dead : ctx.sm = .die) (requests : List Request) :
    Run.run step ctx requests = ctx ∧ ∀ r : Request, (r.handle ctx).2 = .ok () → ctx.state = .stopped :=
  ⟨@Run.invariant_always _ _ step (· = ctx)
      (fun _ r same => by subst same; exact (handle_of_die dead r).1) requests ctx rfl,
    fun r => (handle_of_die dead r).2⟩

/-- A daemon whose `disconnect` failed on `Umount`: in `Die`, still reporting `READY`, and
neither `stop()` nor `Start` moves it. -/
theorem run_of_die_failedUmount :
    (⟨.die, .ready, false⟩ : DaemonStateMachineContext).sm = .die ∧
    Run.run step ⟨.die, .ready, false⟩ [.stopDaemon .succeeding .succeeding,
        .event .start .succeeding] = ⟨.die, .ready, false⟩ ∧
      ∀ r : Request, (r.handle ⟨.die, .ready, false⟩).2 = .ok () →
        (⟨.die, .ready, false⟩ : DaemonStateMachineContext).state = .stopped :=
  ⟨rfl, run_of_die rfl _⟩

end Die

/-! ## When every callback succeeds -/

/-- The inputs of `DaemonStateMachine`, listed. -/
def inputs : List DaemonStateMachineInput := [.mount, .takeover, .start, .stop, .exit]

theorem mem_inputs (input : DaemonStateMachineInput) : input ∈ inputs := by
  cases input <;> decide

/-- The contexts of a daemon whose callbacks have all succeeded, with the reported state in step
with the machine: created, mounted (`Ready` with no action yet, so still `INIT`), ready,
running, and stopped with the thread gone. -/
def inStep : List DaemonStateMachineContext :=
  [⟨.init, .init, false⟩, ⟨.ready, .init, false⟩, ⟨.ready, .ready, false⟩,
    ⟨.running, .running, false⟩, ⟨.die, .stopped, true⟩]

/-- The callbacks of the events a request sends. -/
def Request.callbacks : Request → List Callbacks
  | .event _ cb => [cb]
  | .stopDaemon first second => [first, second]
  | .exitDaemon first second => [first, second]

/-- Every callback of the request's events succeeds. -/
def Request.Succeeding (r : Request) : Prop := ∀ cb ∈ r.callbacks, cb = .succeeding

-- the table of the machine from the contexts in step, with callbacks that succeed
theorem onEvent_inStep :
    ∀ ctx ∈ inStep, ∀ input ∈ inputs, (onEvent ctx input .succeeding).1 ∈ inStep := by
  decide

theorem stop_inStep :
    ∀ ctx ∈ inStep, stop ctx .succeeding .succeeding = (⟨.die, .stopped, true⟩, .ok ()) := by
  decide

theorem triggerExit_inStep :
    ∀ ctx ∈ inStep, triggerExit ctx .succeeding .succeeding = (⟨.die, .stopped, true⟩, .ok ()) := by
  decide

theorem step_inStep {ctx : DaemonStateMachineContext} (inside : ctx ∈ inStep) {r : Request}
    (succeeding : r.Succeeding) : step ctx r ∈ inStep := by
  have stopped : (⟨.die, .stopped, true⟩ : DaemonStateMachineContext) ∈ inStep := by decide
  cases r with
  | event input cb =>
    obtain rfl := succeeding cb List.mem_cons_self
    exact onEvent_inStep ctx inside input (mem_inputs input)
  | stopDaemon first second =>
    obtain rfl := succeeding first List.mem_cons_self
    obtain rfl := succeeding second (by simp [Request.callbacks])
    show (stop ctx _ _).1 ∈ inStep
    rw [stop_inStep ctx inside]
    exact stopped
  | exitDaemon first second =>
    obtain rfl := succeeding first List.mem_cons_self
    obtain rfl := succeeding second (by simp [Request.callbacks])
    show (triggerExit ctx _ _).1 ∈ inStep
    rw [triggerExit_inStep ctx inside]
    exact stopped

/-- When every callback succeeds, `stop()` and `trigger_exit()` stop the daemon whatever
requests came before: they return `Ok`, the daemon reports `STOPPED`, the machine is in `Die` and
the thread has left its loop. -/
theorem run_stop_of_succeeding (requests : List Request)
    (succeeding : ∀ r ∈ requests, r.Succeeding) :
    stop (Run.run step .new requests) .succeeding .succeeding = (⟨.die, .stopped, true⟩, .ok ()) ∧
      triggerExit (Run.run step .new requests) .succeeding .succeeding =
        (⟨.die, .stopped, true⟩, .ok ()) := by
  have inside : Run.run step .new requests ∈ inStep :=
    @Run.invariant _ _ step (· ∈ inStep) Request.Succeeding
      (fun _ _ inside succeeding => step_inStep inside succeeding) requests .new (by decide) succeeding
  exact ⟨stop_inStep _ inside, triggerExit_inStep _ inside⟩

/-- A daemon created, mounted and started, each callback succeeding, then stopped. -/
theorem run_stop_of_succeeding_started :
    (∀ r ∈ [Request.event .mount .succeeding, .event .start .succeeding], r.Succeeding) ∧
    stop (Run.run step .new [.event .mount .succeeding, .event .start .succeeding])
        .succeeding .succeeding = (⟨.die, .stopped, true⟩, .ok ()) ∧
      triggerExit (Run.run step .new [.event .mount .succeeding, .event .start .succeeding])
        .succeeding .succeeding = (⟨.die, .stopped, true⟩, .ok ()) :=
  have succeeding : ∀ r ∈ [Request.event .mount .succeeding, .event .start .succeeding],
      r.Succeeding := by
    simp [Request.Succeeding, Request.callbacks]
  ⟨succeeding, run_stop_of_succeeding _ succeeding⟩

/-! ## `stop()` returning `Ok` without stopping -/

section Stop

variable {ctx : DaemonStateMachineContext}

/-- A `Stop` the daemon accepts stops it, or, from `Running`, takes it back to `Ready` once
`wait_service` succeeds. -/
theorem onEvent_stop_ok {cb : Callbacks} (ok : (onEvent ctx .stop cb).2 = .ok ()) :
    (onEvent ctx .stop cb).1.state = .stopped ∨
      ctx.sm = .running ∧ cb.waitService = true ∧
        (onEvent ctx .stop cb).1 = ⟨.ready, .ready, false⟩ := by
  unfold onEvent at ok ⊢
  by_cases exited : ctx.exited
  · rw [if_pos exited] at ok
    cases ok
  · rw [if_neg exited] at ok ⊢
    rcases ctx with ⟨sm, state, exited⟩
    unfold kick at ok ⊢
    cases sm with
    | init => simp [transition, runAction]
    | ready =>
      -- `Umount`: only a `disconnect` that succeeds replies `Ok`, and it reports `STOPPED`
      simp only [transition, runAction] at ok ⊢
      split at ok <;> simp_all
    | running =>
      simp only [transition, runAction] at ok ⊢
      split at ok <;> simp_all
    | die => simp [transition] at ok

/-- A daemon that reports `STOPPED` has its thread gone: every event fails on the channel. -/
theorem onEvent_of_stopped (sound : Sound ctx) (stopped : ctx.state = .stopped)
    (input : DaemonStateMachineInput) (cb : Callbacks) :
    (onEvent ctx input cb).2 = .error .channel := by
  rw [onEvent, if_pos (sound.exited_iff.mpr stopped)]

/-- `stop()` returns `Ok` and leaves the daemon not `STOPPED` exactly when the machine is
`Running` while the daemon does not report `RUNNING`, as after a `start` that failed, and
`wait_service` succeeds: `stop()` then sends one `Stop`, which takes the machine back to
`Ready`. -/
theorem stop_ok_not_stopped_iff (sound : Sound ctx) (first second : Callbacks) :
    ((stop ctx first second).2 = .ok () ∧ (stop ctx first second).1.state ≠ .stopped) ↔
      ctx.sm = .running ∧ ctx.state ≠ .running ∧ first.waitService = true := by
  constructor
  · rintro ⟨ok, notStopped⟩
    unfold stop at ok notStopped
    split_ifs at ok notStopped with stopped running
    · exact absurd stopped notStopped
    · -- two `Stop`s, the second only after the first succeeded: it fails or stops the daemon
      exfalso
      unfold andThen at ok notStopped
      split at ok
      · cases ok
      · next firstOk =>
        rw [firstOk] at notStopped
        rcases onEvent_stop_ok firstOk with gone | ⟨-, -, back⟩
        · rw [onEvent_of_stopped (sound.onEvent _ _) gone] at ok
          cases ok
        · rw [back] at ok notStopped
          simp only [onEvent, kick, transition, runAction] at ok notStopped
          by_cases disconnected : second.disconnect <;> simp_all
    · rcases onEvent_stop_ok ok with gone | ⟨fromRunning, waited, -⟩
      · exact absurd gone notStopped
      · exact ⟨fromRunning, running, waited⟩
  · rintro ⟨fromRunning, notRunning, waited⟩
    have notStopped : ctx.state ≠ .stopped := fun stopped => by
      rw [sound.die_of_stopped stopped] at fromRunning
      cases fromRunning
    have alive : ctx.exited = false :=
      Bool.eq_false_iff.mpr fun exited => notStopped (sound.exited_iff.mp exited)
    simp [stop, notStopped, notRunning, onEvent, alive, kick, fromRunning, transition, runAction,
      waited]

/-- A daemon whose machine was started while its `start` failed, so that it still reports
`INIT`: `stop()` returns `Ok` and leaves it reporting `READY`. -/
theorem stop_ok_not_stopped_iff_failedStart :
    Sound ⟨.running, .init, false⟩ ∧
    (((stop ⟨.running, .init, false⟩ .succeeding .succeeding).2 = .ok () ∧
        (stop ⟨.running, .init, false⟩ .succeeding .succeeding).1.state ≠ .stopped) ↔
      DaemonStateMachineState.running = .running ∧ DaemonState.init ≠ .running ∧
        Callbacks.succeeding.waitService = true) :=
  have sound : Sound ⟨.running, .init, false⟩ := ⟨by decide, by decide, by decide⟩
  ⟨sound, stop_ok_not_stopped_iff sound .succeeding .succeeding⟩

end Stop

end Nydus.Daemon
