import Rdmas.Model.Completion

/-! # The event-driven poller

The thread of `AsyncPoller` in `runtime/poller.rs` against the completion queue and its event channel.
The queue is first-in first-out. Arming the notification raises one event for the next completion that
arrives, and none for completions that are queued already. Every call into the verbs library or the
kernel is a step, so completions may arrive between any two of them; calls that can fail carry their
outcome in the label.
-/

namespace Rdmas.Model

structure AsyncPollerConfig where
  busyPollFallback : Bool
  busyPollIterations : ℕ
deriving DecidableEq, Repr

namespace AsyncPollerConfig

/-- `AsyncPollerConfig::default`. -/
def default : AsyncPollerConfig := ⟨false, 100⟩

end AsyncPollerConfig

/-- Where the thread stands: before the first arm, at the top of its loop, inside `epoll_wait`, after a
wakeup, after the acknowledgement, after the harvest, or in the busy-poll fallback. -/
inductive AsyncPollerPc where
  | starting
  | loopTop
  | waiting
  | ready
  | acked
  | harvested
  | spinning (remaining : ℕ)
  | exited
deriving DecidableEq, Repr

structure AsyncPollerState (ω : Type) where
  queue : List WorkCompletion
  armed : Bool
  events : ℕ
  pending : PendingMap ω
  delivered : List (ω × Except RdmaError WorkCompletion)
  thread : AsyncPollerPc

inductive AsyncPollerLabel (ω : Type) where
  | complete (wc : WorkCompletion)
  | register (wrId : BitVec 64) (sender : ω)
  | requestFirst (accepted : Bool)
  | checkShutdown (shutdown : Bool)
  | wake
  | timeout
  | interrupted
  | getEvent (available : Bool)
  | harvest (polled : Bool)
  | rearm (accepted : Bool)
  | spin (expired polled : Bool)
deriving DecidableEq, Repr

namespace AsyncPollerState

variable {ω : Type}

/-- The thread has been spawned; nothing has completed. -/
def initial (pending : PendingMap ω) : AsyncPollerState ω := ⟨[], false, 0, pending, [], .starting⟩

/-- A completion joins the queue and uses up the notification, if there is one. -/
def arrive (state : AsyncPollerState ω) (wc : WorkCompletion) : AsyncPollerState ω :=
  { state with
    queue := state.queue ++ [wc]
    armed := false
    events := if state.armed then state.events + 1 else state.events }

/-- `harvest_completions`: take up to 16 completions and dispatch them, unless the poll fails. -/
def harvest (state : AsyncPollerState ω) (polled : Bool) : AsyncPollerState ω :=
  if polled then
    let (pending, sent) := state.pending.dispatchAll (state.queue.take pollBatch)
    { state with
      queue := state.queue.drop pollBatch
      pending
      delivered := state.delivered ++ sent }
  else state

def goto (state : AsyncPollerState ω) (pc : AsyncPollerPc) : AsyncPollerState ω :=
  { state with thread := pc }

/-- One step; `none` where the label does not fit the place of the thread. -/
def step (config : AsyncPollerConfig) (state : AsyncPollerState ω) :
    AsyncPollerLabel ω → Option (AsyncPollerState ω)
  | .complete wc => some (state.arrive wc)
  | .register wrId sender => some { state with pending := state.pending.insert wrId sender }
  | .requestFirst accepted =>
      match state.thread with
      | .starting =>
          if accepted then some ({ state with armed := true }.goto .loopTop)
          else some (state.goto .exited)
      | _ => none
  | .checkShutdown shutdown =>
      match state.thread with
      | .loopTop => some (state.goto (if shutdown then .exited else .waiting))
      | _ => none
  | .wake =>
      match state.thread with
      | .waiting => if 0 < state.events then some (state.goto .ready) else none
      | _ => none
  | .timeout =>
      match state.thread with
      | .waiting =>
          if state.events = 0 then
            some (state.goto (if config.busyPollFallback then .spinning config.busyPollIterations
              else .loopTop))
          else none
      | _ => none
  | .interrupted =>
      match state.thread with
      | .waiting => some (state.goto .loopTop)
      | _ => none
  | .getEvent available =>
      match state.thread with
      | .ready =>
          if !available then some (state.goto .loopTop)
          else if 0 < state.events then
            some ({ state with events := state.events - 1 }.goto .acked)
          else none
      | _ => none
  | .harvest polled =>
      match state.thread with
      | .acked => some ((state.harvest polled).goto .harvested)
      | _ => none
  | .rearm accepted =>
      match state.thread with
      | .harvested => some ({ state with armed := state.armed || accepted }.goto .loopTop)
      | _ => none
  | .spin expired polled =>
      match state.thread with
      | .spinning 0 => some (state.goto .loopTop)
      | .spinning (remaining + 1) =>
          if expired then some (state.goto .loopTop)
          else some ((state.harvest polled).goto (.spinning remaining))
      | _ => none

end AsyncPollerState

end Rdmas.Model
