import Rdmas.Soundness.ConnectorTrace

/-! # What a batch answers

Every batch draws a future id and, unless it panics, pushes one completion that carries it. The results of
a set are those of the pairs of a key and its memoryview, so a key without a memoryview has none; the retry
loop after an eviction looks for it all the same.
-/

namespace Rdmas.Soundness

open Rdmas.Model LittleEndian RdmaNativeConnector

/-- What a batch needs besides the store and the tracker: the id counter, the completions, the state of the
locks. -/
def deskOf (connector : RdmaNativeConnector) : ℕ × List Completion × Bool :=
  (connector.nextId, connector.completions, connector.poisoned)

section Loops

variable {xxh64 : Xxh64} {connector : RdmaNativeConnector}

private theorem deskOf_insertLarge (connector : RdmaNativeConnector) (hk : HashedKey) (data : Bytes) :
    deskOf (connector.insertLarge hk data).1 = deskOf connector := by
  rw [insertLarge]
  split <;> rfl

/-- The first loop has one result a pair. -/
theorem setAll_frame (pairs : List (Bytes × Bytes)) (clock : ℕ → ℕ) :
    deskOf (connector.setAll xxh64 pairs clock).connector = deskOf connector ∧
      (connector.setAll xxh64 pairs clock).results.length = pairs.length := by
  have loop : ∀ progress : SetProgress,
      deskOf (pairs.foldl (setOne xxh64 clock) progress).connector =
          deskOf progress.connector ∧
        (pairs.foldl (setOne xxh64 clock) progress).results.length =
          progress.results.length + pairs.length := by
    induction pairs with
    | nil => exact fun _ => ⟨rfl, rfl⟩
    | cons pair pairs ih =>
      intro progress
      obtain ⟨desk, count⟩ := @setOne_part _ deskOf xxh64 (fun _ _ _ => rfl) deskOf_insertLarge clock progress pair
      obtain ⟨deskAfter, countAfter⟩ := ih (setOne xxh64 clock progress pair)
      refine ⟨deskAfter.trans desk, ?_⟩
      rw [List.foldl_cons, countAfter, count, List.length_cons]
      omega
  obtain ⟨desk, count⟩ := loop ⟨connector, [], false⟩
  exact ⟨desk, count.trans (Nat.zero_add _)⟩

private theorem deskOf_evictIfNeeded (iterate : AccessOrder) :
    deskOf (connector.evictIfNeeded iterate) = deskOf connector := by
  simp only [evictIfNeeded]
  split
  · rfl
  · split <;> rfl

end Loops

section Batches

variable {xxh64 : Xxh64} {connector : RdmaNativeConnector}

/-- The batch has drawn the next id. It has panicked and answered nothing, or it returns the id and has
pushed one completion with it. -/
structure Answers (connector after : RdmaNativeConnector) (returned : Option ℕ)
    (results : Option (List Bool)) : Prop where
  drawn : after.nextId = connector.nextId + 1
  returned : returned = results.map fun _ => connector.nextId
  pushed : after.completions =
    connector.completions ++ results.toList.map fun list => ⟨connector.nextId, true, "", some list⟩

private theorem answers_panic {after : RdmaNativeConnector} {poisoned : Bool}
    (desk : deskOf after = (connector.nextId + 1, connector.completions, poisoned)) :
    Answers connector after none none := by
  simp only [deskOf, Prod.mk.injEq] at desk
  refine ⟨desk.1, rfl, ?_⟩
  rw [Option.toList_none, List.map_nil, List.append_nil, desk.2.1]

private theorem answers_push {after : RdmaNativeConnector} {poisoned : Bool} (results : List Bool)
    (desk : deskOf after = (connector.nextId + 1, connector.completions, poisoned)) :
    Answers connector (after.pushCompletion connector.nextId results) (some connector.nextId)
      (some results) := by
  simp only [deskOf, Prod.mk.injEq] at desk
  refine ⟨desk.1, rfl, ?_⟩
  rw [pushCompletion, desk.2.1]
  rfl

/-- What a set answers. Only a poisoned lock and a key without a memoryview make it panic. -/
theorem submitBatchSet_answers (keys mvs : List Bytes) (clock : ℕ → ℕ) (iterate : AccessOrder) :
    ∃ results, Answers connector (connector.submitBatchSet xxh64 keys mvs clock iterate).1
        (connector.submitBatchSet xxh64 keys mvs clock iterate).2 results ∧
      (results = none → connector.poisoned = true ∨ mvs.length < keys.length) ∧
      ∀ list, results = some list → connector.poisoned = false ∧
        (connector.submitBatchSet xxh64 keys mvs clock iterate).1.poisoned = false ∧
        list.length = min keys.length mvs.length := by
  simp only [submitBatchSet]
  by_cases locks : connector.poisoned = true
  · rw [if_pos locks]
    exact ⟨none, answers_panic rfl, fun _ => .inl locks, fun list none_ => absurd none_.symm (by simp)⟩
  · rw [if_neg locks]
    obtain ⟨desk, count⟩ := @setAll_frame xxh64 connector.counted (keys.zip mvs) clock
    rw [List.length_zip] at count
    generalize setAll xxh64 _ (keys.zip mvs) clock = first at desk count ⊢
    split
    · obtain ⟨retriedDesk, retriedCount⟩ := @retryFailed_part _ deskOf xxh64 deskOf_insertLarge
        (first.connector.evictIfNeeded iterate) (keys.zip mvs) first.results
      rw [deskOf_evictIfNeeded] at retriedDesk
      have whole := retriedDesk.trans desk
      split
      · next missing =>
        have poisons := congrArg (fun front => (front.1, front.2.1, true)) whole
        exact ⟨none, answers_panic poisons, fun _ => .inr missing,
          fun list none_ => absurd none_.symm (by simp)⟩
      · refine ⟨some _, answers_push _ whole, fun none_ => absurd none_ (by simp), ?_⟩
        rintro list ⟨⟩
        have sound := congrArg (fun front => front.2.2) whole
        exact ⟨Bool.eq_false_iff.mpr locks, sound.trans (Bool.eq_false_iff.mpr locks),
          retriedCount.trans count⟩
    · refine ⟨some _, answers_push _ desk, fun none_ => absurd none_ (by simp), ?_⟩
      rintro list ⟨⟩
      have sound := congrArg (fun front => front.2.2) desk
      exact ⟨Bool.eq_false_iff.mpr locks, sound.trans (Bool.eq_false_iff.mpr locks), count⟩

/-- What a check of existence, or a read, answers. -/
theorem submitBatchExists_answers (keys : List Bytes) :
    ∃ results, Answers connector (connector.submitBatchExists xxh64 keys).1
      (connector.submitBatchExists xxh64 keys).2 results := by
  simp only [submitBatchExists]
  split
  · exact ⟨none, answers_panic rfl⟩
  · exact ⟨some _, answers_push _ rfl⟩

/-- What a deletion answers. -/
theorem submitBatchDelete_answers (keys : List Bytes) :
    ∃ results, Answers connector (connector.submitBatchDelete xxh64 keys).1
      (connector.submitBatchDelete xxh64 keys).2 results := by
  simp only [submitBatchDelete]
  split
  · exact ⟨none, answers_panic rfl⟩
  · exact ⟨some _, answers_push _ rfl⟩

end Batches

/-- A set returns a future id and pushes one completion with it, which has one result a key. -/
def AnswersEveryKey (xxh64 : Xxh64) (connector : RdmaNativeConnector) (keys mvs : List Bytes) (clock : ℕ → ℕ)
    (iterate : AccessOrder) : Prop :=
  ∃ futureId results, (connector.submitBatchSet xxh64 keys mvs clock iterate).2 = some futureId ∧
    (connector.submitBatchSet xxh64 keys mvs clock iterate).1.completions =
      connector.completions ++ [⟨futureId, true, "", some results⟩] ∧
    results.length = keys.length

/-- A set that answers every key found the locks sound and a memoryview for each key. -/
theorem AnswersEveryKey.sound {xxh64 : Xxh64} {connector : RdmaNativeConnector}
    {keys mvs : List Bytes} {clock : ℕ → ℕ} {iterate : AccessOrder}
    (answered : AnswersEveryKey xxh64 connector keys mvs clock iterate) :
    connector.poisoned = false ∧ keys.length ≤ mvs.length := by
  obtain ⟨futureId, list, returned, pushed, count⟩ := answered
  obtain ⟨results, answers, _, holds⟩ :=
    @submitBatchSet_answers xxh64 connector keys mvs clock iterate
  have same := answers.pushed.symm.trans pushed
  cases results with
  | none =>
    rw [answers.returned] at returned
    cases returned
  | some told =>
    obtain ⟨locks, _, length⟩ := holds told rfl
    rw [Option.toList_some, List.map_singleton, List.append_cancel_left_eq, List.singleton_inj,
      Completion.mk.injEq] at same
    obtain rfl := Option.some.inj same.2.2.2
    exact ⟨locks, by omega⟩

/-- Every key is answered exactly if each has a memoryview and no earlier batch has left the locks
poisoned. -/
theorem batch_set_answers_every_key_iff (xxh64 : Xxh64)
    (connector : RdmaNativeConnector) (keys mvs : List Bytes) (clock : ℕ → ℕ) (iterate : AccessOrder) :
    AnswersEveryKey xxh64 connector keys mvs clock iterate ↔
      connector.poisoned = false ∧ keys.length ≤ mvs.length := by
  refine ⟨AnswersEveryKey.sound, ?_⟩
  rintro ⟨locks, enough⟩
  obtain ⟨results, answers, panics, holds⟩ :=
    @submitBatchSet_answers xxh64 connector keys mvs clock iterate
  cases results with
  | none =>
    rcases panics rfl with poisoned | missing
    · rw [locks] at poisoned
      cases poisoned
    · omega
  | some told =>
    obtain ⟨_, _, length⟩ := holds told rfl
    exact ⟨connector.nextId, told, answers.returned, answers.pushed, by omega⟩

/-- Two keys and one memoryview, too large for the table. In a region without room the set panics; with
room it answers the first key alone. -/
theorem batch_set_leaves_key_unanswered :
    (submitBatchSet (fun _ _ => 1) (.new 0) [[0x61], [0x62]] [List.replicate 33 0]
        (fun _ => 0) id).2 = none ∧
      ¬ AnswersEveryKey (fun _ _ => 1) (.new 0) [[0x61], [0x62]] [List.replicate 33 0] (fun _ => 0) id ∧
      ¬ AnswersEveryKey (fun _ _ => 1) (.new 16777216) [[0x61], [0x62]] [List.replicate 33 0] (fun _ => 0)
        id := by
  refine ⟨rfl, ?_, ?_⟩
  · intro answered
    exact absurd answered.sound.2 (by decide)
  · intro answered
    exact absurd answered.sound.2 (by decide)

end Rdmas.Soundness
