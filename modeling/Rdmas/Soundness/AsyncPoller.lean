import Mathlib.Algebra.Order.Group.Nat
import Rdmas.Math.Runs
import Rdmas.Model.AsyncPoller

/-! # Stranded completions

The event-driven poller harvests at most 16 completions after an event and then arms the notification
again without looking at the queue. Completions that are still queued, because there were more than 16 or
because they arrived in between, raise no event: the thread goes back to sleep on them. It sleeps on an
empty queue only, exactly if every arm succeeds and finds the queue empty.
-/

namespace Rdmas.Soundness

open Rdmas.Model Runs

variable {ω : Type} {config : AsyncPollerConfig} {state next final : AsyncPollerState ω}
variable {label : AsyncPollerLabel ω} {labels : List (AsyncPollerLabel ω)}

/-- Asleep in `epoll_wait` with nothing to wake up for, the thread has left no completion behind. -/
def NoneStranded (state : AsyncPollerState ω) : Prop :=
  state.thread = .waiting → state.events = 0 → state.queue = []

/-- The notification is armed on an empty queue, and arming it again does not fail. -/
def ArmsOnEmpty (state : AsyncPollerState ω) : AsyncPollerLabel ω → Prop
  | .requestFirst accepted => accepted = true → state.queue = []
  | .rearm accepted => accepted = true ∧ state.queue = []
  | _ => True

instance (state : AsyncPollerState ω) : (label : AsyncPollerLabel ω) →
    Decidable (ArmsOnEmpty state label)
  | .requestFirst accepted => inferInstanceAs (Decidable (accepted = true → state.queue = []))
  | .rearm accepted => inferInstanceAs (Decidable (accepted = true ∧ state.queue = []))
  | .complete _ | .register _ _ | .checkShutdown _ | .wake | .timeout | .interrupted
  | .getEvent _ | .harvest _ | .spin _ _ => isTrue trivial

/-- The thread has not armed the notification yet, or has used it up and not armed it again. -/
def Disarmed : AsyncPollerPc → Bool
  | .starting | .acked | .harvested => true
  | _ => false

/-- The notification is one-shot: it has been used up when an event is pending, and between an event
and the next arm nothing raises another one. -/
structure OneShot (state : AsyncPollerState ω) : Prop where
  single : state.events ≤ 1
  used : state.armed = true → state.events = 0
  between : Disarmed state.thread = true → state.events = 0 ∧ state.armed = false

/-- Outside the handling of an event, the thread is covered: an event is pending, or the notification
is armed and the queue is empty. -/
structure Covered (state : AsyncPollerState ω) : Prop where
  armed : state.armed = true → state.queue = []
  watched : Disarmed state.thread = false → state.thread ≠ .exited → state.events = 0 →
    state.armed = true

private theorem oneShot_initial (pending : PendingMap ω) : OneShot (AsyncPollerState.initial pending) :=
  ⟨Nat.zero_le 1, fun _ => rfl, fun _ => ⟨rfl, rfl⟩⟩

private theorem covered_initial (pending : PendingMap ω) : Covered (AsyncPollerState.initial pending) where
  armed := Bool.noConfusion
  watched := Bool.noConfusion

theorem Covered.noneStranded (covered : Covered state) : NoneStranded state := by
  intro asleep silent
  refine covered.armed (covered.watched ?_ ?_ silent)
  · rw [asleep]
    rfl
  · rw [asleep]
    exact AsyncPollerPc.noConfusion

section Steps

variable (state) in
/-- What a step can do: a completion arrives, a waiter registers, the thread arms the notification, takes
an event, harvests, or moves on. -/
inductive PollerEffect : AsyncPollerLabel ω → AsyncPollerState ω → Prop where
  | arrive (wc : WorkCompletion) : PollerEffect (.complete wc) (state.arrive wc)
  | register (wrId : BitVec 64) (sender : ω) : PollerEffect (.register wrId sender)
      { state with pending := state.pending.insert wrId sender }
  | first (found : state.thread = .starting) :
      PollerEffect (.requestFirst true) ({ state with armed := true }.goto .loopTop)
  | stop (label : AsyncPollerLabel ω) (harmless : ArmsOnEmpty state label) :
      PollerEffect label (state.goto .exited)
  | move (label : AsyncPollerLabel ω) (harmless : ArmsOnEmpty state label) (pc : AsyncPollerPc)
      (before : Disarmed state.thread = false) (alive : state.thread ≠ .exited)
      (after : Disarmed pc = false) : PollerEffect label (state.goto pc)
  | take (found : state.thread = .ready) (raised : 0 < state.events) :
      PollerEffect (.getEvent true) ({ state with events := state.events - 1 }.goto .acked)
  | harvest (label : AsyncPollerLabel ω) (harmless : ArmsOnEmpty state label) (polled : Bool)
      (pc : AsyncPollerPc) (same : Disarmed pc = Disarmed state.thread)
      (alive : state.thread ≠ .exited) : PollerEffect label ((state.harvest polled).goto pc)
  | rearm (accepted : Bool) (found : state.thread = .harvested) : PollerEffect (.rearm accepted)
        ({ state with armed := state.armed || accepted }.goto .loopTop)

private theorem pollerEffect_of_step (taken : state.step config label = some next) :
    PollerEffect state label next := by
  have moves : ∀ pc, ArmsOnEmpty state label → Disarmed state.thread = false →
      state.thread ≠ .exited → Disarmed pc = false → state.goto pc = next →
      PollerEffect state label next := by
    rintro pc harmless before alive after rfl
    exact .move label harmless pc before alive after
  have harvests : ∀ polled pc, ArmsOnEmpty state label → Disarmed pc = Disarmed state.thread →
      state.thread ≠ .exited → (state.harvest polled).goto pc = next →
      PollerEffect state label next := by
    rintro polled pc harmless same alive rfl
    exact .harvest label harmless polled pc same alive
  cases label with
  | complete wc => exact Option.some.inj taken ▸ .arrive wc
  | register wrId sender => exact Option.some.inj taken ▸ .register wrId sender
  | requestFirst accepted =>
    simp only [AsyncPollerState.step] at taken
    split at taken
    · next at_ =>
      split at taken
      · next accepts => exact accepts ▸ Option.some.inj taken ▸ .first at_
      · next refuses => exact Option.some.inj taken ▸ .stop _ fun accepts => absurd accepts refuses
    · cases taken
  | checkShutdown shutdown =>
    simp only [AsyncPollerState.step] at taken
    split at taken
    · next at_ =>
      refine moves _ trivial (by rw [at_]; rfl) (by simp [at_]) ?_ (Option.some.inj taken)
      cases shutdown <;> rfl
    · cases taken
  | wake =>
    simp only [AsyncPollerState.step] at taken
    split at taken
    · next at_ =>
      rw [Option.ite_none_right_eq_some, Option.some.injEq] at taken
      exact moves _ trivial (by rw [at_]; rfl) (by simp [at_]) rfl taken.2
    · cases taken
  | timeout =>
    simp only [AsyncPollerState.step] at taken
    split at taken
    · next at_ =>
      rw [Option.ite_none_right_eq_some, Option.some.injEq] at taken
      refine moves _ trivial (by rw [at_]; rfl) (by simp [at_]) ?_ taken.2
      cases config.busyPollFallback <;> rfl
    · cases taken
  | interrupted =>
    simp only [AsyncPollerState.step] at taken
    split at taken
    · next at_ => exact moves _ trivial (by rw [at_]; rfl) (by simp [at_]) rfl (Option.some.inj taken)
    · cases taken
  | getEvent available =>
    simp only [AsyncPollerState.step] at taken
    split at taken
    · next at_ =>
      cases available with
      | false => exact moves _ trivial (by rw [at_]; rfl) (by simp [at_]) rfl (Option.some.inj taken)
      | true =>
        simp only [Bool.not_true, Bool.false_eq_true, if_false, Option.ite_none_right_eq_some,
          Option.some.injEq] at taken
        exact taken.2 ▸ .take at_ taken.1
    · cases taken
  | harvest polled =>
    simp only [AsyncPollerState.step] at taken
    split at taken
    · next at_ => exact harvests polled _ trivial (by rw [at_]; rfl) (by simp [at_]) (Option.some.inj taken)
    · cases taken
  | rearm accepted =>
    simp only [AsyncPollerState.step] at taken
    split at taken
    · next at_ => exact Option.some.inj taken ▸ .rearm accepted at_
    · cases taken
  | spin expired polled =>
    simp only [AsyncPollerState.step] at taken
    split at taken
    · next at_ => exact moves _ trivial (by rw [at_]; rfl) (by simp [at_]) rfl (Option.some.inj taken)
    · next remaining at_ =>
      split at taken
      · exact moves _ trivial (by rw [at_]; rfl) (by simp [at_]) rfl (Option.some.inj taken)
      · exact harvests polled _ trivial (by rw [at_]; rfl) (by simp [at_]) (Option.some.inj taken)
    · cases taken

/-- A harvest touches the queue and the waiters only. -/
theorem harvest_notification (state : AsyncPollerState ω) (polled : Bool) :
    (state.harvest polled).events = state.events ∧ (state.harvest polled).armed = state.armed := by
  cases polled <;> exact ⟨rfl, rfl⟩

private theorem harvest_queue_nil (empty : state.queue = []) (polled : Bool) :
    (state.harvest polled).queue = [] := by
  cases polled with
  | false => exact empty
  | true => simp [AsyncPollerState.harvest, empty]

theorem OneShot.step (oneShot : OneShot state) (taken : state.step config label = some next) :
    OneShot next := by
  cases pollerEffect_of_step taken with
  | arrive wc =>
    refine ⟨?_, Bool.noConfusion, fun between => ⟨?_, rfl⟩⟩
    · simp only [AsyncPollerState.arrive]
      split
      · next armed => exact Nat.succ_le_succ (oneShot.used armed).le
      · exact oneShot.single
    · obtain ⟨silent, disarmed⟩ := oneShot.between between
      simp only [AsyncPollerState.arrive, disarmed, Bool.false_eq_true, if_false, silent]
  | register wrId sender => exact ⟨oneShot.single, oneShot.used, oneShot.between⟩
  | first found =>
    have silent := (oneShot.between (by rw [found]; rfl)).1
    exact ⟨oneShot.single, fun _ => silent, Bool.noConfusion⟩
  | stop _ _ => exact ⟨oneShot.single, oneShot.used, Bool.noConfusion⟩
  | move _ _ pc before alive after =>
    refine ⟨oneShot.single, oneShot.used, fun between => ?_⟩
    change Disarmed pc = true at between
    rw [after] at between
    contradiction
  | take found raised =>
    have last : state.events - 1 = 0 := by
      have single := oneShot.single
      omega
    refine ⟨?_, fun _ => last, fun _ => ⟨last, ?_⟩⟩
    · exact last.trans_le (Nat.zero_le 1)
    refine Bool.eq_false_iff.mpr fun armed => ?_
    have silent := oneShot.used armed
    omega
  | harvest _ _ polled pc same alive =>
    obtain ⟨events, armed⟩ := harvest_notification state polled
    refine ⟨?_, fun used => ?_, fun between => ?_⟩
    · exact events ▸ oneShot.single
    · exact events.trans (oneShot.used (armed ▸ used))
    · obtain ⟨silent, disarmed⟩ := oneShot.between (same ▸ between)
      exact ⟨events.trans silent, armed.trans disarmed⟩
  | rearm accepted found =>
    have silent := (oneShot.between (by rw [found]; rfl)).1
    exact ⟨oneShot.single, fun _ => silent, Bool.noConfusion⟩

theorem Covered.step (covered : Covered state) (arms : ArmsOnEmpty state label)
    (taken : state.step config label = some next) : Covered next := by
  cases pollerEffect_of_step taken with
  | arrive wc =>
    refine ⟨Bool.noConfusion, fun disarmed alive silent => ?_⟩
    -- Whoever was covered without an event was armed, and has just got one.
    simp only [AsyncPollerState.arrive] at silent disarmed alive
    split at silent
    · omega
    · next unarmed => exact absurd (covered.watched disarmed alive silent) unarmed
  | register wrId sender => exact ⟨covered.armed, covered.watched⟩
  | first found => exact ⟨fun _ => arms rfl, fun _ _ _ => rfl⟩
  | stop _ _ => exact ⟨covered.armed, fun _ alive => absurd rfl alive⟩
  | move _ _ pc before alive after =>
    exact ⟨covered.armed, fun _ _ silent => covered.watched before alive silent⟩
  | take found raised => exact ⟨covered.armed, Bool.noConfusion⟩
  | harvest _ _ polled pc same alive =>
    obtain ⟨events, armed⟩ := harvest_notification state polled
    refine ⟨fun used => harvest_queue_nil (covered.armed (armed ▸ used)) polled,
      fun disarmed _ silent => ?_⟩
    exact armed.trans (covered.watched (same ▸ disarmed) alive (events ▸ silent))
  | rearm accepted found =>
    obtain ⟨rfl, empty⟩ := arms
    exact ⟨fun _ => empty, fun _ _ _ => Bool.or_true _⟩

/-- Every arm that fails, or that finds completions in the queue, can be the one that strands them: the
thread goes to sleep, at worst after one more completion. -/
theorem stranded_after_bad_arm (oneShot : OneShot state) (bad : ¬ ArmsOnEmpty state label)
    (taken : state.step config label = some next) :
    ∃ later stranded, run (AsyncPollerState.step config) next later = some stranded ∧
      ¬ NoneStranded stranded := by
  have asleep : ∀ armed : AsyncPollerState ω, armed.thread = .loopTop → armed.events = 0 →
      armed.queue ≠ [] → ∃ stranded, run (AsyncPollerState.step config) armed
        [.checkShutdown false] = some stranded ∧ ¬ NoneStranded stranded := by
    intro armed top silent queued
    refine ⟨armed.goto .waiting, ?_, fun none => queued (none rfl silent)⟩
    simp [run, AsyncPollerState.step, top]
  cases pollerEffect_of_step taken with
  | first found =>
    have queued : state.queue ≠ [] := fun empty => bad fun _ => empty
    have silent := (oneShot.between (by rw [found]; rfl)).1
    exact ⟨_, asleep _ rfl silent queued⟩
  | rearm accepted found =>
    obtain ⟨silent, disarmed⟩ := oneShot.between (by rw [found]; rfl)
    cases accepted with
    | true =>
      have queued : state.queue ≠ [] := fun empty => bad ⟨rfl, empty⟩
      exact ⟨_, asleep _ rfl silent queued⟩
    | false =>
      -- Nothing is armed any more: the next completion raises no event.
      let wc : WorkCompletion := ⟨0, .success, 0, 0⟩
      let unwatched := ({ state with armed := state.armed || false }.goto .loopTop).arrive wc
      have unraised : unwatched.events = 0 := by
        simp only [unwatched, AsyncPollerState.arrive, AsyncPollerState.goto, disarmed,
          Bool.or_false, Bool.false_eq_true, if_false, silent]
      obtain ⟨stranded, reached, left⟩ := asleep unwatched rfl unraised
        (List.append_ne_nil_of_right_ne_nil _ (List.cons_ne_nil _ _))
      exact ⟨.complete wc :: [.checkShutdown false], stranded,
        run_cons_eq_some.mpr ⟨unwatched, rfl, reached⟩, left⟩
  | arrive | register | take => exact absurd trivial bad
  | stop _ harmless | move _ harmless | harvest _ harmless => exact absurd harmless bad

end Steps

/-- For every configuration, every way the waiters are registered and every interleaving: while every arm
succeeds and finds the queue empty, the thread never sleeps on a queued completion; and a step that
breaks this can be followed by steps after which it does. -/
theorem none_stranded_while_arms_on_empty (pending : PendingMap ω)
    (reached : run (AsyncPollerState.step config) (.initial pending) labels = some final) :
    (Throughout (AsyncPollerState.step config) ArmsOnEmpty (.initial pending) labels →
      NoneStranded final) ∧
    ∀ label next, final.step config label = some next → ¬ ArmsOnEmpty final label →
      ∃ later stranded, run (AsyncPollerState.step config) next later = some stranded ∧
        ¬ NoneStranded stranded := by
  refine ⟨fun arms => ?_, fun label next taken bad => ?_⟩
  · exact (arms.invariant Covered.step (covered_initial pending) reached).noneStranded
  · exact stranded_after_bad_arm (run_invariant OneShot.step (oneShot_initial pending) reached) bad
      taken

/-- One completion, harvested before the notification is armed again. -/
theorem asleep_on_empty_queue :
    let labels : List (AsyncPollerLabel Unit) := [.requestFirst true, .checkShutdown false,
      .complete ⟨1, .success, 8, 0⟩, .wake, .getEvent true, .harvest true, .rearm true,
      .checkShutdown false]
    ∃ final, run (AsyncPollerState.step .default) (.initial .empty) labels = some final ∧
      final.thread = .waiting ∧ final.events = 0 ∧ final.queue = [] := by
  intro labels
  have seen : (run (AsyncPollerState.step .default) (.initial .empty) labels).map
      (fun final => (final.thread, final.events)) = some (.waiting, 0) := by decide +kernel
  obtain ⟨final, reached, facts⟩ := Option.map_eq_some_iff.mp seen
  obtain ⟨asleep, silent⟩ := Prod.mk.inj facts
  have safe := (none_stranded_while_arms_on_empty .empty reached).1 (by decide +kernel)
  exact ⟨final, reached, asleep, silent, safe asleep silent⟩

/-- With the default configuration the thread sleeps on a completion that arrived between the harvest and
the arm, and on the seventeenth of a burst. -/
theorem asleep_on_queued_completion :
    let wc : BitVec 64 → WorkCompletion := fun wrId => ⟨wrId, .success, 8, 0⟩
    let start : AsyncPollerState Unit := .initial .empty
    let handle : List (AsyncPollerLabel Unit) := [.wake, .getEvent true, .harvest true]
    let between := [.requestFirst true, .checkShutdown false, .complete (wc 1)] ++ handle ++
      [.complete (wc 2), .rearm true, .checkShutdown false]
    let burst := [.requestFirst true, .checkShutdown false] ++
      (List.range 17).map (fun index => .complete (wc (BitVec.ofNat 64 index))) ++ handle ++
      [.rearm true, .checkShutdown false]
    (run (AsyncPollerState.step .default) start between).map
        (fun final => (final.thread, final.events, final.queue)) = some (.waiting, 0, [wc 2]) ∧
      (run (AsyncPollerState.step .default) start burst).map
        (fun final => (final.thread, final.events, final.queue)) = some (.waiting, 0, [wc 16]) := by
  decide +kernel

end Rdmas.Soundness
