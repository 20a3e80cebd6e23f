import Rdmas.Soundness.AsyncPoller

/-! # What the busy-poll fallback is good for

A completion can be left in the queue with nothing to wake the event-driven poller up for it. With
`busy_poll_fallback` the thread then polls the queue itself: a window of so many polls, of 16 completions
each. Its measure is how far from the front of the queue a completion stands; every poll of the window takes
16 off that, while new completions queue up behind.
-/

namespace Rdmas.Model.PendingMap

variable {ω : Type} {pending : PendingMap ω} {wrId : BitVec 64} {sender : ω} {wcs : List WorkCompletion}

private theorem dispatchAll_cons (wc : WorkCompletion) (rest : List WorkCompletion) :
    pending.dispatchAll (wc :: rest) =
      (((pending.dispatch wc).1.dispatchAll rest).1,
        (pending.dispatch wc).2.toList ++ ((pending.dispatch wc).1.dispatchAll rest).2) := rfl

private theorem dispatch_other {wc : WorkCompletion} (other : wc.wrId ≠ wrId) :
    (pending.dispatch wc).1 wrId = pending wrId := by
  unfold dispatch
  split
  · exact Function.update_of_ne (Ne.symm other) ..
  · rfl

private theorem dispatch_own {wc : WorkCompletion} (waits : pending wc.wrId = some sender) :
    pending.dispatch wc = (pending.remove wc.wrId, some (sender, wc.result)) := by
  rw [dispatch, waits]

/-- Completions of other requests leave a waiter alone. -/
theorem dispatchAll_others (others : ∀ wc ∈ wcs, wc.wrId ≠ wrId) :
    (pending.dispatchAll wcs).1 wrId = pending wrId := by
  induction wcs generalizing pending with
  | nil => rfl
  | cons wc rest ih =>
    obtain ⟨first, later⟩ := List.forall_mem_cons.mp others
    rw [dispatchAll_cons, ih later, dispatch_other first]

theorem dispatchAll_nobody (nobody : pending wrId = none) : (pending.dispatchAll wcs).1 wrId = none := by
  induction wcs generalizing pending with
  | nil => exact nobody
  | cons wc rest ih =>
    rw [dispatchAll_cons]
    refine ih ?_
    by_cases own : wc.wrId = wrId
    · rw [dispatch, own, nobody]
      exact nobody
    · rw [dispatch_other own, nobody]

/-- The first completion of a request goes to its waiter. -/
theorem dispatchAll_first {front : List WorkCompletion} {wc : WorkCompletion}
    (waits : pending wc.wrId = some sender) (others : ∀ earlier ∈ front, earlier.wrId ≠ wc.wrId)
    (back : List WorkCompletion) :
    (pending.dispatchAll (front ++ wc :: back)).1 wc.wrId = none ∧
      (sender, wc.result) ∈ (pending.dispatchAll (front ++ wc :: back)).2 := by
  induction front generalizing pending with
  | nil =>
    rw [List.nil_append, dispatchAll_cons, dispatch_own waits]
    exact ⟨dispatchAll_nobody (Function.update_self ..), List.mem_append_left _ (List.mem_singleton_self _)⟩
  | cons earlier rest ih =>
    obtain ⟨first, later⟩ := List.forall_mem_cons.mp others
    rw [List.cons_append, dispatchAll_cons]
    have after := ih ((dispatch_other first).trans waits) later
    exact ⟨after.1, List.mem_append_right _ after.2⟩

end Rdmas.Model.PendingMap

namespace Rdmas.Soundness

open Rdmas.Model Runs

variable {ω : Type} {config : AsyncPollerConfig} {state next final : AsyncPollerState ω}
variable {label : AsyncPollerLabel ω} {labels : List (AsyncPollerLabel ω)} {sender : ω} {wc : WorkCompletion}

/-- The waiter has the result of the completion, and nobody waits under the id any more. -/
structure Served (sender : ω) (wc : WorkCompletion) (state : AsyncPollerState ω) : Prop where
  delivered : (sender, wc.result) ∈ state.delivered
  gone : state.pending wc.wrId = none

/-- The completion stands in the queue, the first of its id, with at most so many in front of it, and its
waiter is registered. -/
structure Queued (sender : ω) (wc : WorkCompletion) (ahead : ℕ) (state : AsyncPollerState ω) : Prop where
  waits : state.pending wc.wrId = some sender
  place : ∃ front back, state.queue = front ++ wc :: back ∧ front.length < ahead ∧
    ∀ earlier ∈ front, earlier.wrId ≠ wc.wrId

/-- What may happen in a window: completions arrive, others register, and the thread polls, neither cut short
by the deadline nor by a failing poll. -/
def InWindow (wrId : BitVec 64) : AsyncPollerLabel ω → Prop
  | .complete _ => True
  | .register other _ => other ≠ wrId
  | .spin expired polled => expired = false ∧ polled = true
  | _ => False

theorem Served.harvest (served : Served sender wc state) (polled : Bool) :
    Served sender wc (state.harvest polled) := by
  cases polled with
  | false => exact served
  | true =>
    exact ⟨List.mem_append_left _ served.delivered, PendingMap.dispatchAll_nobody served.gone⟩

/-- A poll serves the waiter, or brings its completion 16 places forward. -/
theorem Queued.harvest {ahead : ℕ} (queued : Queued sender wc (ahead + pollBatch) state) :
    Served sender wc (state.harvest true) ∨ Queued sender wc ahead (state.harvest true) := by
  obtain ⟨front, back, queue, near, others⟩ := queued.place
  by_cases reached : front.length < pollBatch
  · left
    have taken : state.queue.take pollBatch =
        front ++ wc :: back.take (pollBatch - front.length - 1) := by
      rw [queue, List.take_append, List.take_of_length_le (Nat.le_of_lt reached)]
      obtain ⟨room, more⟩ := Nat.exists_eq_add_of_lt reached
      have left_ : pollBatch - front.length = room + 1 := by omega
      rw [left_, List.take_succ_cons, Nat.add_sub_cancel]
    obtain ⟨gone, sent⟩ := PendingMap.dispatchAll_first queued.waits others
      (back.take (pollBatch - front.length - 1))
    rw [← taken] at gone sent
    exact ⟨List.mem_append_right _ sent, gone⟩
  · right
    have beyond : pollBatch ≤ front.length := Nat.le_of_not_lt reached
    refine ⟨?_, front.drop pollBatch, back, ?_, ?_, fun earlier member => ?_⟩
    · refine (PendingMap.dispatchAll_others fun earlier member => ?_).trans queued.waits
      rw [queue, List.take_append_of_le_length beyond] at member
      exact others earlier (List.mem_of_mem_take member)
    · change state.queue.drop pollBatch = _
      rw [queue, List.drop_append_of_le_length beyond]
    · rw [List.length_drop]
      omega
    · exact others earlier (List.mem_of_mem_drop member)

theorem Queued.arrive {ahead : ℕ} (queued : Queued sender wc ahead state) (later : WorkCompletion) :
    Queued sender wc ahead (state.arrive later) := by
  obtain ⟨front, back, queue, near, others⟩ := queued.place
  refine ⟨queued.waits, front, back ++ [later], ?_, near, others⟩
  rw [AsyncPollerState.arrive, queue, List.append_assoc, List.cons_append]

/-- In the window, the waiter has been served, or will be by the polls that are left; after it, it has been. -/
def InTime (sender : ω) (wc : WorkCompletion) (state : AsyncPollerState ω) : Prop :=
  match state.thread with
  | .spinning remaining => Served sender wc state ∨ Queued sender wc (remaining * pollBatch) state
  | .loopTop => Served sender wc state
  | _ => False

private theorem inTime_spinning {remaining : ℕ} (found : state.thread = .spinning remaining) :
    InTime sender wc state ↔ Served sender wc state ∨ Queued sender wc (remaining * pollBatch) state := by
  rw [InTime, found]

private theorem inTime_loopTop (found : state.thread = .loopTop) :
    InTime sender wc state ↔ Served sender wc state := by
  rw [InTime, found]

/-- A change that serves neither nor takes away, and leaves the thread where it is. -/
theorem InTime.keep (inTime : InTime sender wc state) (same : next.thread = state.thread)
    (served : Served sender wc state → Served sender wc next)
    (queued : ∀ {ahead}, Queued sender wc ahead state → Queued sender wc ahead next) :
    InTime sender wc next := by
  unfold InTime at inTime ⊢
  rw [same]
  split at inTime
  · exact inTime.imp served queued
  · exact served inTime
  · exact inTime

theorem InTime.spin (inTime : InTime sender wc state)
    (taken : state.step config (.spin false true) = some next) : InTime sender wc next := by
  cases found : state.thread with
  | spinning remaining =>
    rw [inTime_spinning found] at inTime
    simp only [AsyncPollerState.step, found] at taken
    cases remaining with
    | zero =>
      cases taken
      refine (inTime_loopTop rfl).mpr ?_
      rcases inTime with served | queued
      · exact ⟨served.delivered, served.gone⟩
      · -- Nothing can stand in front of place 0.
        obtain ⟨front, _, _, near, _⟩ := queued.place
        omega
    | succ remaining =>
      simp only [Bool.false_eq_true, if_false, Option.some.injEq] at taken
      subst taken
      refine (inTime_spinning rfl).mpr ?_
      rw [Nat.succ_mul] at inTime
      rcases inTime with served | queued
      · have after := served.harvest true
        exact .inl ⟨after.delivered, after.gone⟩
      · exact queued.harvest.imp (fun after => ⟨after.delivered, after.gone⟩) fun after =>
          ⟨after.waits, after.place⟩
  | starting | loopTop | waiting | ready | acked | harvested | exited =>
    simp [AsyncPollerState.step, found] at taken

theorem InTime.step (inTime : InTime sender wc state) (window : InWindow wc.wrId label)
    (taken : state.step config label = some next) : InTime sender wc next := by
  cases label with
  | complete later =>
    cases taken
    exact inTime.keep rfl (fun served => ⟨served.delivered, served.gone⟩) (fun queued => queued.arrive later)
  | register other waiter =>
    cases taken
    have apart : (state.pending.insert other waiter) wc.wrId = state.pending wc.wrId :=
      Function.update_of_ne (Ne.symm window) ..
    exact inTime.keep rfl (fun served => ⟨served.delivered, apart.trans served.gone⟩)
      (fun queued => ⟨apart.trans queued.waits, queued.place⟩)
  | spin expired polled =>
    obtain ⟨rfl, rfl⟩ := window
    exact inTime.spin taken
  | requestFirst | checkShutdown | wake | timeout | interrupted | getEvent | harvest | rearm => cases window

/-- With the fallback, from every state in which the thread waits: a window that runs through to its end,
whatever arrives and registers meanwhile, answers every waiter whose completion was queued, provided that 16
times the iterations cover the queue. -/
theorem fallback_answers_stranded_waiter (fallback : config.busyPollFallback = true)
    (waiting : state.thread = .waiting) (waits : state.pending wc.wrId = some sender)
    (first : state.queue.find? (fun other => other.wrId == wc.wrId) = some wc)
    (enough : state.queue.length ≤ config.busyPollIterations * pollBatch)
    (window : ∀ label ∈ labels, InWindow wc.wrId label)
    (reached : run (AsyncPollerState.step config) state (.timeout :: labels) = some final)
    (closed : final.thread = .loopTop) :
    (sender, wc.result) ∈ final.delivered ∧ final.pending wc.wrId = none := by
  obtain ⟨opened, timedOut, onward⟩ := run_cons_eq_some.mp reached
  have begun : InTime sender wc opened := by
    simp only [AsyncPollerState.step, waiting, fallback, if_true, Option.ite_none_right_eq_some,
      Option.some.injEq] at timedOut
    obtain ⟨_, rfl⟩ := timedOut
    obtain ⟨_, front, back, queue, others⟩ := List.find?_eq_some_iff_append.mp first
    refine (inTime_spinning rfl).mpr (.inr ⟨waits, front, back, queue, ?_, fun earlier member => ?_⟩)
    · rw [queue, List.length_append, List.length_cons] at enough
      omega
    · simpa using others earlier member
  have served : InTime sender wc final :=
    (throughout_of_forall window opened).invariant (fun inTime window taken => inTime.step window taken) begun
      onward
  rw [inTime_loopTop closed] at served
  exact ⟨served.delivered, served.gone⟩

/-- The completion that arrived between a harvest and the arm is left in the queue; a window of one poll hands
it out, while another one arrives. -/
theorem stranded_completion_is_handed_out :
    let config : AsyncPollerConfig := ⟨true, 1⟩
    let wc : BitVec 64 → WorkCompletion := fun wrId => ⟨wrId, .success, 8, 0⟩
    let before : List (AsyncPollerLabel ℕ) := [.requestFirst true, .checkShutdown false, .register 2 7,
      .complete (wc 1), .wake, .getEvent true, .harvest true, .complete (wc 2), .rearm true,
      .checkShutdown false]
    ∃ stranded final, run (AsyncPollerState.step config) (.initial .empty) before = some stranded ∧
      run (AsyncPollerState.step config) stranded [.timeout, .spin false true, .complete (wc 3),
        .spin false true] = some final ∧
      (7, .ok (wc 2)) ∈ final.delivered := by
  intro config wc before
  have seen : (run (AsyncPollerState.step config) (.initial .empty) before).map (fun stranded =>
      (stranded.thread, stranded.queue, stranded.pending 2, (run (AsyncPollerState.step config) stranded
        [.timeout, .spin false true, .complete (wc 3), .spin false true]).map (·.thread))) =
      some (.waiting, [wc 2], some 7, some .loopTop) := by
    decide +kernel
  obtain ⟨stranded, reached, facts⟩ := Option.map_eq_some_iff.mp seen
  simp only [Prod.mk.injEq] at facts
  obtain ⟨waiting, queue, waits, ended⟩ := facts
  obtain ⟨final, onward, closed⟩ := Option.map_eq_some_iff.mp ended
  refine ⟨stranded, final, reached, onward, ?_⟩
  have answered : (7, (wc 2).result) ∈ final.delivered ∧ final.pending (wc 2).wrId = none :=
    fallback_answers_stranded_waiter rfl waiting waits (by rw [queue]; rfl) (by rw [queue]; decide)
      (by simp [InWindow, wc]) onward closed
  exact answered.1

end Rdmas.Soundness
