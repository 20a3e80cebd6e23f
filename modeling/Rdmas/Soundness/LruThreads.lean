import Mathlib.Algebra.BigOperators.Group.Finset.Basic
import Mathlib.Algebra.Order.BigOperators.Group.Finset
import Mathlib.Algebra.Ring.Nat
import Mathlib.Data.Fintype.Basic
import Rdmas.Model.LruThreads
import Rdmas.Soundness.LruHistory

/-! # The LRU tracker between threads

Records go from the queue through the hands of a selection into the map, and a key leaves the map when it is
handed out. On that way no record is lost or doubled, whatever the threads do between one another's steps: a
key accessed since it was handed out last is still on the way or in the map, and no access makes it come out
twice.
-/

namespace Rdmas.Soundness

open Rdmas.Model Runs Function

section Occurrences

variable {records lastAccess order : List (BitVec 64 × ℕ)} {record : BitVec 64 × ℕ} {key : BitVec 64}

/-- How often a key occurs among records. -/
def occurrences (key : BitVec 64) (records : List (BitVec 64 × ℕ)) : ℕ := (records.map Prod.fst).count key

@[simp] theorem occurrences_nil (key : BitVec 64) : occurrences key [] = 0 := rfl

@[simp] theorem occurrences_append (key : BitVec 64) (front back : List (BitVec 64 × ℕ)) :
    occurrences key (front ++ back) = occurrences key front + occurrences key back := by
  rw [occurrences, List.map_append, List.count_append]
  rfl

private theorem occurrences_cons (key : BitVec 64) (record : BitVec 64 × ℕ) (records : List (BitVec 64 × ℕ)) :
    occurrences key (record :: records) = occurrences key [record] + occurrences key records :=
  occurrences_append key [record] records

private theorem occurrences_self (key : BitVec 64) (now : ℕ) : occurrences key [(key, now)] = 1 := by
  simp [occurrences]

private theorem occurrences_pos : 0 < occurrences key records ↔ ∃ entry ∈ records, entry.1 = key := by
  rw [occurrences, List.count_pos_iff, List.mem_map]

private theorem occurrences_filter_le (keeps : BitVec 64 × ℕ → Bool) :
    occurrences key (lastAccess.filter keeps) ≤ occurrences key lastAccess :=
  (List.filter_sublist.map Prod.fst).count_le key

/-- An insertion into the map replaces. -/
theorem occurrences_insertAccess_le (key : BitVec 64) (lastAccess : List (BitVec 64 × ℕ))
    (record : BitVec 64 × ℕ) :
    occurrences key (LruTracker.insertAccess lastAccess record) ≤
      occurrences key lastAccess + occurrences key [record] := by
  rw [LruTracker.insertAccess, occurrences_cons, Nat.add_comm]
  exact Nat.add_le_add_right (occurrences_filter_le _) _

private theorem occurrences_merged_le (key : BitVec 64) (records lastAccess : List (BitVec 64 × ℕ)) :
    occurrences key (records.foldl LruTracker.insertAccess lastAccess) ≤
      occurrences key lastAccess + occurrences key records := by
  induction records generalizing lastAccess with
  | nil => exact Nat.le_refl _
  | cons record records ih =>
    have later := ih (LruTracker.insertAccess lastAccess record)
    have first := occurrences_insertAccess_le key lastAccess record
    rw [List.foldl_cons, occurrences_cons]
    omega

private theorem occurrences_insertAccess_pos
    (present : 0 < occurrences key lastAccess + occurrences key [record]) :
    0 < occurrences key (LruTracker.insertAccess lastAccess record) := by
  rw [occurrences_pos]
  by_cases same : record.1 = key
  · exact ⟨record, mem_insertAccess.mpr (.inl rfl), same⟩
  · have absent : occurrences key [record] = 0 := by simp [occurrences, same]
    rw [absent, Nat.add_zero, occurrences_pos] at present
    obtain ⟨entry, member, keyed⟩ := present
    exact ⟨entry, mem_insertAccess.mpr (.inr ⟨member, fun clash => same (clash ▸ keyed)⟩), keyed⟩

private theorem occurrences_merged_pos (present : 0 < occurrences key lastAccess + occurrences key records) :
    0 < occurrences key (records.foldl LruTracker.insertAccess lastAccess) := by
  induction records generalizing lastAccess with
  | nil => exact present
  | cons record records ih =>
    rw [occurrences_cons] at present
    apply ih
    rcases Nat.eq_zero_or_pos (occurrences key records) with absent | later
    · exact Nat.add_pos_left (occurrences_insertAccess_pos (by omega)) _
    · exact Nat.add_pos_right _ later

private theorem count_candidates_le (perm : order.Perm lastAccess) (n : ℕ) :
    (LruTracker.candidates order n).count key ≤ occurrences key lastAccess := by
  have front : (LruTracker.candidates order n).Sublist
      ((order.insertionSort fun left right => left.2 ≤ right.2).map Prod.fst) :=
    (List.take_sublist _ _).map Prod.fst
  have sorted := ((List.perm_insertionSort (fun left right : BitVec 64 × ℕ => left.2 ≤ right.2) order).trans
    perm).map Prod.fst
  exact (front.count_le key).trans_eq (sorted.count_eq key)

/-- A key that is taken out is gone from the map. -/
theorem occurrences_takeOut_of_mem (lru : LruTracker) {keys : List (BitVec 64)} (member : key ∈ keys) :
    occurrences key (lru.takeOut keys).lastAccess = 0 := by
  refine Nat.eq_zero_of_not_pos fun present => ?_
  obtain ⟨entry, stays, keyed⟩ := occurrences_pos.mp present
  have kept := (List.mem_filter.mp stays).2
  exact absurd member (by simpa [keyed] using kept)

theorem occurrences_takeOut_of_not_mem (lru : LruTracker) {keys : List (BitVec 64)} (absent : key ∉ keys)
    (present : 0 < occurrences key lru.lastAccess) :
    0 < occurrences key (lru.takeOut keys).lastAccess := by
  obtain ⟨entry, member, keyed⟩ := occurrences_pos.mp present
  exact occurrences_pos.mpr ⟨entry, List.mem_filter.mpr ⟨member, by simpa [keyed] using absent⟩, keyed⟩

/-- A key is handed out as often at most as it was in the map. -/
theorem count_add_takeOut_le (key : BitVec 64) (lru : LruTracker) (perm : order.Perm lru.lastAccess) (n : ℕ) :
    (LruTracker.candidates order n).count key +
        occurrences key (lru.takeOut (LruTracker.candidates order n)).lastAccess ≤
      occurrences key lru.lastAccess := by
  by_cases member : key ∈ LruTracker.candidates order n
  · rw [occurrences_takeOut_of_mem lru member]
    exact count_candidates_le perm n
  · rw [List.count_eq_zero_of_not_mem member, Nat.zero_add]
    exact occurrences_filter_le _

end Occurrences

section Steps

variable {ι : Type} {state next : SharedLru ι} {label : LruLabel ι}

/-- The records a selection has popped and not merged. -/
def inHand : LruPc → List (BitVec 64 × ℕ)
  | .draining _ records | .drained _ records => records
  | _ => []

/-- What a step adds to the history. -/
def eventsOf (state : SharedLru ι) : LruLabel ι → List LruEvent
  | .push thread =>
      match state.threads thread with
      | .stamped keyHash now => [.recorded keyHash now]
      | _ => []
  | .choose thread order =>
      match state.threads thread with
      | .merged n => [.selected (LruTracker.candidates order n)]
      | _ => []
  | _ => []

variable [DecidableEq ι]

variable (state next thread after) in
/-- A thread takes a step: what that does to the queue, the map and the hands of the thread, and what it adds
to the history. -/
inductive LruEffect : List LruEvent → Prop
  | still (queue : next.lru.accesses = state.lru.accesses) (map : next.lru.lastAccess = state.lru.lastAccess)
      (hands : inHand after = inHand (state.threads thread)) : LruEffect []
  | push {keyHash : BitVec 64} {now : ℕ} (tracker : next.lru = state.lru.pushAccess (keyHash, now))
      (hands : inHand after = inHand (state.threads thread)) : LruEffect [.recorded keyHash now]
  | pop {record : BitVec 64 × ℕ} (front : state.lru.accesses = record :: next.lru.accesses)
      (map : next.lru.lastAccess = state.lru.lastAccess)
      (hands : inHand after = inHand (state.threads thread) ++ [record]) : LruEffect []
  | merge (tracker : next.lru = state.lru.mergeRecords (inHand (state.threads thread)))
      (hands : inHand after = []) : LruEffect []
  | choose {n : ℕ} {order : List (BitVec 64 × ℕ)} (perm : order.Perm state.lru.lastAccess)
      (tracker : next.lru = state.lru.takeOut (LruTracker.candidates order n))
      (hands : inHand after = inHand (state.threads thread)) :
      LruEffect [.selected (LruTracker.candidates order n)]

private theorem lruEffect_of_step (taken : state.step label = some next) :
    ∃ thread after, next.threads = update state.threads thread after ∧
      LruEffect state next thread after (eventsOf state label) := by
  cases label with
  | stamp thread keyHash now =>
    simp only [SharedLru.step] at taken
    split at taken
    · next found =>
      cases taken
      exact ⟨thread, _, rfl, .still rfl rfl (by rw [found]; rfl)⟩
    · cases taken
  | push thread =>
    simp only [SharedLru.step] at taken
    split at taken
    · next keyHash now found =>
      rw [eventsOf, found]
      cases taken
      exact ⟨thread, _, rfl, .push rfl (by rw [found]; rfl)⟩
    · cases taken
  | count thread =>
    simp only [SharedLru.step] at taken
    split at taken
    · next found =>
      cases taken
      exact ⟨thread, _, rfl, .still rfl rfl (by rw [found]; rfl)⟩
    · cases taken
  | beginSelect thread n =>
    simp only [SharedLru.step] at taken
    split at taken
    · next found =>
      cases taken
      exact ⟨thread, _, rfl, .still rfl rfl (by rw [found]; rfl)⟩
    · cases taken
  | pop thread =>
    simp only [SharedLru.step] at taken
    split at taken
    · next found empty =>
      cases taken
      exact ⟨thread, _, rfl, .still rfl rfl (by rw [found]; rfl)⟩
    · next found front =>
      cases taken
      exact ⟨thread, _, rfl, .pop front rfl (by rw [found]; rfl)⟩
    · cases taken
  | merge thread =>
    simp only [SharedLru.step] at taken
    split at taken
    · next found _ =>
      split at taken
      · cases taken
        exact ⟨thread, _, rfl, .merge (by rw [found]; rfl) rfl⟩
      · cases taken
        exact ⟨thread, _, rfl, .merge (by rw [found]; rfl) rfl⟩
    · cases taken
  | choose thread order =>
    simp only [SharedLru.step] at taken
    split at taken
    · next n found =>
      obtain ⟨perm, moved⟩ := Option.ite_none_right_eq_some.mp taken
      rw [eventsOf, found]
      cases moved
      exact ⟨thread, _, rfl, .choose perm rfl (by rw [found]; rfl)⟩
    · cases taken

end Steps

section Shares

variable {ι α : Type} [DecidableEq ι] [Fintype ι]

/-- When one thread moves, a sum over the threads changes by what that thread gains and loses. -/
theorem sum_update_add (weight : α → ℕ) (places : ι → α) (thread : ι) (place : α) :
    ∑ other, weight (update places thread place other) + weight (places thread) =
      ∑ other, weight (places other) + weight place := by
  have others : ∑ other ∈ Finset.univ.erase thread, weight (update places thread place other) =
      ∑ other ∈ Finset.univ.erase thread, weight (places other) :=
    Finset.sum_congr rfl fun other member => by
      rw [update_of_ne (Finset.ne_of_mem_erase member)]
  rw [← Finset.add_sum_erase _ _ (Finset.mem_univ thread), others, update_self,
    ← Finset.add_sum_erase Finset.univ (fun other => weight (places other)) (Finset.mem_univ thread)]
  omega

end Shares

section Accesses

variable {ι : Type}

/-- The key is in the queue, in the map or in the hands of a selection. -/
def Tracks (state : SharedLru ι) (key : BitVec 64) : Prop :=
  key ∈ heldKeys state.lru ∨ ∃ thread, key ∈ (inHand (state.threads thread)).map Prod.fst

/-- How often a key was recorded. -/
def recordings (key : BitVec 64) (events : List LruEvent) : ℕ :=
  (events.map fun event =>
    match event with
    | .recorded keyHash _ => if keyHash = key then 1 else 0
    | .selected _ => 0).sum

/-- How often a key was handed out. -/
def selections (key : BitVec 64) (events : List LruEvent) : ℕ :=
  (events.map fun event =>
    match event with
    | .recorded _ _ => 0
    | .selected keys => keys.count key).sum

private theorem selections_nil (key : BitVec 64) : selections key [] = 0 := rfl

private theorem recordings_nil (key : BitVec 64) : recordings key [] = 0 := rfl

private theorem selections_recorded (key keyHash : BitVec 64) (now : ℕ) :
    selections key [.recorded keyHash now] = 0 := rfl

private theorem recordings_recorded (key keyHash : BitVec 64) (now : ℕ) :
    recordings key [.recorded keyHash now] = occurrences key [(keyHash, now)] := by
  simp [recordings, occurrences, List.count_singleton]

private theorem selections_selected (key : BitVec 64) (keys : List (BitVec 64)) :
    selections key [.selected keys] = keys.count key := by
  simp [selections]

private theorem recordings_selected (key : BitVec 64) (keys : List (BitVec 64)) :
    recordings key [.selected keys] = 0 := rfl

private theorem recordings_append (key : BitVec 64) (front back : List LruEvent) :
    recordings key (front ++ back) = recordings key front + recordings key back := by
  rw [recordings, List.map_append, List.sum_append]
  rfl

private theorem selections_append (key : BitVec 64) (front back : List LruEvent) :
    selections key (front ++ back) = selections key front + selections key back := by
  rw [selections, List.map_append, List.sum_append]
  rfl

/-- The tracker between threads, with its history. -/
structure ThreadedHistory (ι : Type) where
  shared : SharedLru ι
  events : List LruEvent

namespace ThreadedHistory

def initial (watermark : ℕ) : ThreadedHistory ι := ⟨.initial watermark, []⟩

def step [DecidableEq ι] (state : ThreadedHistory ι) (label : LruLabel ι) : Option (ThreadedHistory ι) :=
  (state.shared.step label).map fun next => ⟨next, state.events ++ eventsOf state.shared label⟩

end ThreadedHistory

variable [Fintype ι]

/-- The places a key has in the queue, in the map and in the hands of selections. -/
def places (key : BitVec 64) (state : SharedLru ι) : ℕ :=
  occurrences key state.lru.accesses + occurrences key state.lru.lastAccess +
    ∑ thread, occurrences key (inHand (state.threads thread))

private theorem occurrences_lastAccess_le_places (key : BitVec 64) (state : SharedLru ι) :
    occurrences key state.lru.lastAccess ≤ places key state := by
  unfold places
  omega

private theorem tracks_of_places_pos {key : BitVec 64} {state : SharedLru ι} (placed : 0 < places key state) :
    Tracks state key := by
  by_cases held : 0 < ∑ thread, occurrences key (inHand (state.threads thread))
  · obtain ⟨thread, _, present⟩ := Finset.sum_pos_iff.mp held
    exact .inr ⟨thread, List.count_pos_iff.mp present⟩
  · have present : 0 < occurrences key (state.lru.accesses ++ state.lru.lastAccess) := by
      rw [occurrences_append]
      unfold places at placed
      omega
    exact .inl (List.mem_toFinset.mpr (List.count_pos_iff.mp present))

/-- Every key accessed since it was handed out last has a place, and no access is handed out twice. -/
structure Conserved (state : ThreadedHistory ι) : Prop where
  placed : ∀ key ∈ trackedKeys state.events, 0 < places key state.shared
  paid : ∀ key, places key state.shared + selections key state.events ≤ recordings key state.events

private theorem conserved_initial (watermark : ℕ) : Conserved (.initial watermark : ThreadedHistory ι) := by
  refine ⟨fun key tracked => ?_, fun key => ?_⟩
  · exact absurd tracked (Finset.notMem_empty key)
  · simp [places, ThreadedHistory.initial, SharedLru.initial, LruTracker.new, inHand, selections_nil]

variable [DecidableEq ι] {state next : SharedLru ι} {label : LruLabel ι} {events : List LruEvent}

/-- A step of one thread changes the places of a key by what it does to the queue, the map and its hands. -/
theorem places_move {thread : ι} {after : LruPc} (key : BitVec 64)
    (moved : next.threads = update state.threads thread after) :
    places key next + (occurrences key state.lru.accesses + occurrences key state.lru.lastAccess +
        occurrences key (inHand (state.threads thread))) =
      places key state + (occurrences key next.lru.accesses + occurrences key next.lru.lastAccess +
        occurrences key (inHand after)) := by
  have hands := sum_update_add (fun place => occurrences key (inHand place)) state.threads thread after
  rw [← moved] at hands
  unfold places
  omega

/-- No step makes a place for a key but the push of a record, and handing a key out takes one away; only
handing it out makes a step forget a key. -/
theorem LruEffect.conserves {thread : ι} {after : LruPc} (effect : LruEffect state next thread after events)
    (moved : next.threads = update state.threads thread after) (key : BitVec 64) :
    places key next + selections key events ≤ places key state + recordings key events ∧
      ∀ {past}, (key ∈ trackedKeys past → 0 < places key state) →
        key ∈ trackedKeys (past ++ events) → 0 < places key next := by
  have move := places_move key moved
  cases effect with
  | still queue map hands =>
    have same : places key next = places key state := by
      rw [queue, map, hands] at move
      omega
    refine ⟨same.le, fun {past} kept tracked => ?_⟩
    rw [List.append_nil] at tracked
    exact same ▸ kept tracked
  | @push keyHash now tracker hands =>
    have more : places key next = places key state + occurrences key [(keyHash, now)] := by
      rw [tracker, hands] at move
      simp only [LruTracker.pushAccess, occurrences_append] at move
      omega
    rw [selections_recorded, recordings_recorded, more]
    refine ⟨le_rfl, fun {past} kept tracked => ?_⟩
    rw [trackedKeys_recorded, Finset.mem_insert] at tracked
    rcases tracked with rfl | earlier
    · rw [occurrences_self]
      exact Nat.succ_pos _
    · exact Nat.add_pos_left (kept earlier) _
  | @pop record front map hands =>
    have same : places key next = places key state := by
      rw [front, map, hands, occurrences_cons, occurrences_append] at move
      omega
    refine ⟨same.le, fun {past} kept tracked => ?_⟩
    rw [List.append_nil] at tracked
    exact same ▸ kept tracked
  | merge tracker hands =>
    rw [tracker, hands] at move
    simp only [LruTracker.mergeRecords, occurrences_nil] at move
    have fewer := occurrences_merged_le key (inHand (state.threads thread)) state.lru.lastAccess
    rw [selections_nil, recordings_nil]
    refine ⟨by omega, fun {past} kept tracked => ?_⟩
    rw [List.append_nil] at tracked
    have placed := kept tracked
    by_cases brought : 0 < occurrences key state.lru.lastAccess +
        occurrences key (inHand (state.threads thread))
    · have present : 0 < occurrences key next.lru.lastAccess := by
        rw [tracker]
        exact occurrences_merged_pos brought
      exact present.trans_le (occurrences_lastAccess_le_places key next)
    · omega
  | @choose n order perm tracker hands =>
    have queue : (state.lru.takeOut (LruTracker.candidates order n)).accesses = state.lru.accesses := rfl
    rw [tracker, hands, queue] at move
    have taken := count_add_takeOut_le key state.lru perm n
    rw [selections_selected, recordings_selected]
    refine ⟨by omega, fun {past} kept tracked => ?_⟩
    rw [trackedKeys_selected, Finset.mem_sdiff, List.mem_toFinset] at tracked
    have placed := kept tracked.1
    by_cases entered : 0 < occurrences key state.lru.lastAccess
    · have stays : 0 < occurrences key next.lru.lastAccess := by
        rw [tracker]
        exact occurrences_takeOut_of_not_mem state.lru tracked.2 entered
      exact stays.trans_le (occurrences_lastAccess_le_places key next)
    · omega

theorem Conserved.step {state next : ThreadedHistory ι} (conserved : Conserved state)
    (taken : state.step label = some next) : Conserved next := by
  obtain ⟨shared, stepped, rfl⟩ := Option.map_eq_some_iff.mp taken
  obtain ⟨thread, after, moved, effect⟩ := lruEffect_of_step stepped
  refine ⟨fun key => (effect.conserves moved key).2 (conserved.placed key), fun key => ?_⟩
  have before := conserved.paid key
  have change := (effect.conserves moved key).1
  simp only [recordings_append, selections_append]
  omega

/-- Between any steps of any threads, a key accessed since it was last handed out is in the queue, in the map
or in the hands of a selection, and no key is handed out more often than it was accessed. -/
theorem threads_lose_and_double_no_access {labels : List (LruLabel ι)} {final : ThreadedHistory ι}
    {watermark : ℕ} (reached : run ThreadedHistory.step (.initial watermark) labels = some final) :
    (∀ key ∈ trackedKeys final.events, Tracks final.shared key) ∧
      ∀ key, selections key final.events ≤ recordings key final.events := by
  have conserved : Conserved final :=
    run_invariant (fun kept taken => Conserved.step kept taken) (conserved_initial watermark) reached
  refine ⟨fun key tracked => tracks_of_places_pos (conserved.placed key tracked), fun key => ?_⟩
  have paid := conserved.paid key
  omega

/-- One thread selects key 7 while another accesses it once more: it comes out once and is tracked on. -/
theorem access_during_selection_is_kept :
    let labels : List (LruLabel (Fin 2)) := [.stamp 0 7 10, .push 0, .beginSelect 1 1, .pop 1, .count 0,
      .stamp 0 7 20, .pop 1, .merge 1, .choose 1 [(7, 10)], .push 0]
    ∃ final, run ThreadedHistory.step (.initial 1) labels = some final ∧
      final.events = [.recorded 7 10, .selected [7], .recorded 7 20] ∧ Tracks final.shared 7 ∧
      selections 7 final.events ≤ recordings 7 final.events := by
  intro labels
  have events : (run ThreadedHistory.step (.initial 1) labels).map ThreadedHistory.events =
      some [.recorded 7 10, .selected [7], .recorded 7 20] := by decide +kernel
  obtain ⟨final, reached, history⟩ := Option.map_eq_some_iff.mp events
  obtain ⟨tracks, paid⟩ := threads_lose_and_double_no_access reached
  exact ⟨final, reached, history, tracks 7 (by rw [history]; decide), paid 7⟩

end Accesses

end Rdmas.Soundness
