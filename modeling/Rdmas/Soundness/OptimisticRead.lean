import Rdmas.Soundness.LockEffects

/-! # Optimistic reads are atomic snapshots

As long as no lease is judged expired, at most one client is between acquire and release, and the
version counts the releases. A reader that sees the same version twice, the second time unlocked, has
therefore read between two releases; and since a client that entered meanwhile could only have left by
releasing, nobody was in its critical section while the reader looked.
-/

namespace Rdmas.Soundness

open Rdmas.Model LittleEndian Runs Function

variable {ι ρ : Type}
variable {state next final : LockState ι ρ} {label : LockLabel ι ρ} {labels : List (LockLabel ι ρ)}

/-- The data a bucket holds besides its lock word. -/
def contents (bucket : HashBucket) : BitVec 64 × Vector Byte 16 × Vector Byte 32 :=
  (bucket.keyHash, bucket.keyOrDigest, bucket.body)

/-- The number of completed releases. -/
def releases (labels : List (LockLabel ι ρ)) : ℕ := labels.countP isRelease

/-- The step does not find a lease expired. -/
def Unexpired (state : LockState ι ρ) (label : LockLabel ι ρ) : Prop :=
  judgesExpired state label = false

instance (state : LockState ι ρ) (label : LockLabel ι ρ) : Decidable (Unexpired state label) :=
  inferInstanceAs (Decidable (_ = false))

/-- The lock is exclusive: a holder keeps the word locked and at the version it acquired, there is at
most one, and whoever is about to swap has seen an unlocked word. -/
structure Exclusive (state : LockState ι ρ) : Prop where
  fresh : ∀ client mode oldLv, state.clients client = .loaded mode oldLv →
    LockWord.isLocked oldLv = false
  locked : ∀ client prev takenOver, state.clients client = .holding prev takenOver →
    state.bucket.isLocked = true ∧ LockWord.version prev = state.bucket.version
  single : ∀ left right, (state.clients left).isHolding = true →
    (state.clients right).isHolding = true → left = right

private theorem isHolding_iff {pc : ClientPc} :
    pc.isHolding = true ↔ ∃ prev takenOver, pc = .holding prev takenOver := by
  cases pc <;> simp [ClientPc.isHolding]

private theorem exclusive_initial (bucket : HashBucket) :
    Exclusive (LockState.initial bucket : LockState ι ρ) where
  fresh _ _ _ found := nomatch found
  locked _ _ _ found := nomatch found
  single _ _ held := nomatch held

/-- Nobody is between acquire and release while the word is unlocked. -/
theorem Exclusive.vacant (exclusive : Exclusive state) (unlocked : state.bucket.isLocked = false)
    (client : ι) : (state.clients client).isHolding = false := by
  rw [Bool.eq_false_iff]
  intro held
  obtain ⟨prev, takenOver, found⟩ := isHolding_iff.mp held
  rw [(exclusive.locked client prev takenOver found).1] at unlocked
  contradiction

section Steps

variable [DecidableEq ι]

/-- A client that moves outside its critical section does not disturb the others. -/
theorem Exclusive.settle (exclusive : Exclusive state) {client : ι} {pc : ClientPc}
    (stays : pc.isHolding = false)
    (fresh : ∀ mode oldLv, pc = .loaded mode oldLv → LockWord.isLocked oldLv = false) :
    Exclusive (state.setClient client pc) where
  fresh other mode oldLv found := by
    simp only [LockState.setClient, update_apply] at found
    split at found
    · exact fresh mode oldLv found
    · exact exclusive.fresh other mode oldLv found
  locked other prev takenOver found := by
    simp only [LockState.setClient, update_apply] at found
    split at found
    · subst found
      contradiction
    · exact exclusive.locked other prev takenOver found
  single left right leftHeld rightHeld := by
    simp only [LockState.setClient, update_apply] at leftHeld rightHeld
    split at leftHeld
    · rw [stays] at leftHeld
      contradiction
    · split at rightHeld
      · rw [stays] at rightHeld
        contradiction
      · exact exclusive.single left right leftHeld rightHeld

/-- A client that swaps in over an unlocked word becomes the only holder. -/
theorem Exclusive.acquire (exclusive : Exclusive state) {client : ι} {mode : BucketMode}
    {oldLv : BitVec 64} (found : state.clients client = .loaded mode oldLv)
    (current : state.bucket.lockVersion = oldLv) (now : BitVec 32) :
    Exclusive (state.acquire client mode oldLv now) := by
  have unlocked := exclusive.fresh client mode oldLv found
  have vacant := exclusive.vacant (by rw [HashBucket.isLocked, current, unlocked])
  have others : ∀ other prev takenOver, (state.acquire client mode oldLv now).clients other =
      .holding prev takenOver → other = client ∧ prev = oldLv := by
    intro other prev takenOver held
    simp only [LockState.acquire, unlocked, Bool.false_eq_true, if_false, LockState.setClient,
      LockState.setLock, update_apply] at held
    split at held
    · next same => exact ⟨same, (ClientPc.holding.inj held).1.symm⟩
    · have nobody := vacant other
      rw [held] at nobody
      contradiction
  refine ⟨?_, ?_, ?_⟩
  · intro other mode' oldLv' loaded
    simp only [LockState.acquire, unlocked, Bool.false_eq_true, if_false, LockState.setClient,
      LockState.setLock, update_apply] at loaded
    split at loaded
    · contradiction
    · exact exclusive.fresh other mode' oldLv' loaded
  · intro other prev takenOver held
    obtain ⟨_, rfl⟩ := others other prev takenOver held
    exact ⟨isLocked_acquireWord prev now mode, (version_acquireWord prev now mode).symm⟩
  · intro left right leftHeld rightHeld
    obtain ⟨_, _, leftAt⟩ := isHolding_iff.mp leftHeld
    obtain ⟨_, _, rightAt⟩ := isHolding_iff.mp rightHeld
    exact (others left _ _ leftAt).1.trans (others right _ _ rightAt).1.symm

/-- A release leaves nobody in the critical section. -/
theorem Exclusive.release (exclusive : Exclusive state) {client : ι} {prev : BitVec 64}
    {takenOver : Bool} (found : state.clients client = .holding prev takenOver)
    (mode : BucketMode) : Exclusive (state.release client mode prev) := by
  have nobody : ∀ other, ((state.release client mode prev).clients other).isHolding = false := by
    intro other
    simp only [LockState.release, LockState.setClient, LockState.setLock, update_apply]
    split
    · rfl
    · next differs =>
        rw [Bool.eq_false_iff]
        intro held
        exact differs (exclusive.single other client held (by rw [found]; rfl))
  refine ⟨?_, ?_, ?_⟩
  · intro other mode' oldLv loaded
    simp only [LockState.release, LockState.setClient, LockState.setLock, update_apply]
      at loaded
    split at loaded
    · contradiction
    · exact exclusive.fresh other mode' oldLv loaded
  · intro other prev' takenOver' held
    have outside := nobody other
    rw [held] at outside
    contradiction
  · intro left right held
    rw [nobody left] at held
    contradiction

variable [DecidableEq ρ]

theorem Exclusive.step (exclusive : Exclusive state) (unexpired : Unexpired state label)
    (taken : state.step label = some next) : Exclusive next := by
  cases effect_of_step taken with
  | settle client pc outside stays fresh other =>
    refine exclusive.settle stays fun mode oldLv loaded => ?_
    rw [Bool.eq_false_iff]
    intro locked
    rw [Unexpired, fresh mode oldLv loaded locked] at unexpired
    contradiction
  | acquire client now mode oldLv found current => exact exclusive.acquire found current now
  | write client prev takenOver bucket found same other =>
    refine ⟨exclusive.fresh, ?_, exclusive.single⟩
    simpa only [HashBucket.isLocked, HashBucket.version, same] using exclusive.locked
  | release client mode prev takenOver found => exact exclusive.release found mode
  | force now timeoutMs judged =>
    rw [Unexpired, judged] at unexpired
    contradiction
  | refuse now timeoutMs => exact exclusive
  | observe reader action pc moved => exact ⟨exclusive.fresh, exclusive.locked, exclusive.single⟩

/-- Only a release changes the version, by one. -/
theorem Exclusive.version_step (exclusive : Exclusive state) (unexpired : Unexpired state label)
    (taken : state.step label = some next) :
    next.bucket.version = state.bucket.version + if isRelease label then 1 else 0 := by
  cases effect_of_step taken with
  | settle client pc outside stays fresh other => simp [other, LockState.setClient]
  | acquire client now mode oldLv found current =>
    subst current
    simp [HashBucket.version, isRelease]
  | write client prev takenOver bucket found same other =>
    simp [other, HashBucket.version, same]
  | release client mode prev takenOver found =>
    rw [← (exclusive.locked client prev takenOver found).2]
    simp [HashBucket.version, isRelease]
  | force now timeoutMs judged =>
    rw [Unexpired, judged] at unexpired
    contradiction
  | refuse now timeoutMs => simp [isRelease]
  | observe reader action pc moved => simp [isRelease, LockState.setReader]

/-- The version counts the releases of a run. -/
theorem Exclusive.version_run (exclusive : Exclusive state)
    (unexpired : Throughout LockState.step Unexpired state labels)
    (reached : run LockState.step state labels = some final) :
    final.bucket.version = state.bucket.version + BitVec.ofNat 32 (releases labels) := by
  induction labels generalizing state with
  | nil => simp [← Option.some.inj reached, releases]
  | cons label rest ih =>
    obtain ⟨next, taken, onward⟩ := run_cons_eq_some.mp reached
    have counted := ih (exclusive.step unexpired.1 taken) (unexpired.2 next taken) onward
    rw [counted, exclusive.version_step unexpired.1 taken, releases, releases, List.countP_cons,
      BitVec.ofNat_add, BitVec.add_assoc, BitVec.add_comm (BitVec.ofNat 32 (rest.countP isRelease))]
    cases isRelease label <;> rfl

/-- A step that is not a release and after which nobody is in the critical section began with nobody
there and kept the contents. -/
theorem quiet_step (unexpired : Unexpired state label) (other : isRelease label = false)
    (taken : state.step label = some next) (vacant : ∀ client, (next.clients client).isHolding = false) :
    (∀ client, (state.clients client).isHolding = false) ∧
      contents next.bucket = contents state.bucket := by
  cases effect_of_step taken with
  | settle client pc outside stays fresh _ =>
    refine ⟨fun query => ?_, rfl⟩
    rcases eq_or_ne query client with rfl | differs
    · exact outside
    · simpa [LockState.setClient, differs] using vacant query
  | acquire client now mode oldLv found current =>
    have entered := vacant client
    simp [LockState.acquire, LockState.setClient, ClientPc.isHolding] at entered
  | write client prev takenOver bucket found same _ =>
    have inside := vacant client
    rw [show ({ state with bucket } : LockState ι ρ).clients client = _ from found] at inside
    contradiction
  | release client mode prev takenOver found => contradiction
  | force now timeoutMs judged =>
    rw [Unexpired, judged] at unexpired
    contradiction
  | refuse now timeoutMs => exact ⟨vacant, rfl⟩
  | observe reader action pc moved => exact ⟨vacant, rfl⟩

/-- The same over a whole run without a release. -/
theorem quiet_run (unexpired : Throughout LockState.step Unexpired state labels)
    (silent : releases labels = 0) (reached : run LockState.step state labels = some final)
    (vacant : ∀ client, (final.clients client).isHolding = false) :
    (∀ client, (state.clients client).isHolding = false) ∧
      contents final.bucket = contents state.bucket := by
  induction labels generalizing state with
  | nil =>
    cases reached
    exact ⟨vacant, rfl⟩
  | cons label rest ih =>
    obtain ⟨next, taken, onward⟩ := run_cons_eq_some.mp reached
    rw [releases, List.countP_cons, Nat.add_eq_zero_iff] at silent
    obtain ⟨laterVacant, laterSame⟩ := ih (unexpired.2 next taken) silent.1 onward
    have other : isRelease label = false := by simpa using silent.2
    obtain ⟨nowVacant, nowSame⟩ := quiet_step unexpired.1 other taken laterVacant
    exact ⟨nowVacant, laterSame.trans nowSame⟩

end Steps

/-- A reader that has read a version still has that version, or has started over. -/
def KeepsVersion (version : BitVec 32) : ReaderPc → Prop
  | .idle | .sawUnlocked => True
  | .haveVersion version' | .haveKeyHash version' _ | .haveDigest version' _ _
  | .haveBody version' _ _ _ => version' = version
  | .guarded guard | .verified guard _ => guard.version = version

/-- The fields a reader has gathered so far agree with the given contents. -/
def Gathered (data : BitVec 64 × Vector Byte 16 × Vector Byte 32) : ReaderPc → Prop
  | .idle | .sawUnlocked | .haveVersion _ => True
  | .haveKeyHash _ keyHash => keyHash = data.1
  | .haveDigest _ keyHash keyOrDigest => keyHash = data.1 ∧ keyOrDigest = data.2.1
  | .haveBody _ keyHash keyOrDigest body => (keyHash, keyOrDigest, body) = data
  | .guarded guard | .verified guard _ => (guard.keyHash, guard.keyOrDigest, guard.body) = data

section Moves

variable {bucket : HashBucket} {pc pc' : ReaderPc} {action : ReadAction}

theorem KeepsVersion.move {version : BitVec 32} (keeps : KeepsVersion version pc)
    (moved : pc.step bucket action = some pc') (other : action ≠ .readVersion) :
    KeepsVersion version pc' := by
  unfold ReaderPc.step at moved
  split at moved
  all_goals first
    | contradiction
    | cases moved
  -- A new read drops the old guard; every other access passes the version on.
  · cases bucket.isLocked <;> trivial
  · cases bucket.isLocked <;> trivial
  · cases bucket.isLocked <;> trivial
  all_goals exact keeps

theorem Gathered.move (gathered : Gathered (contents bucket) pc)
    (moved : pc.step bucket action = some pc') : Gathered (contents bucket) pc' := by
  unfold ReaderPc.step at moved
  split at moved
  all_goals first
    | contradiction
    | cases moved
  · cases bucket.isLocked <;> trivial
  · cases bucket.isLocked <;> trivial
  · cases bucket.isLocked <;> trivial
  · trivial
  · rfl
  · exact ⟨gathered, rfl⟩
  · obtain ⟨rfl, rfl⟩ := gathered
    rfl
  · exact gathered
  · exact gathered
  · exact gathered

end Moves

section Steps

variable [DecidableEq ι] [DecidableEq ρ]

/-- Only its own accesses move a reader. -/
theorem reader_step (reader : ρ) (taken : state.step label = some next) :
    next.readers reader = state.readers reader ∨
      ∃ action, label = .read reader action ∧
        (state.readers reader).step state.bucket action = some (next.readers reader) := by
  cases effect_of_step taken with
  | settle | write | release | force | refuse => exact .inl rfl
  | acquire client now mode oldLv found current =>
    left
    simp only [LockState.acquire]
    split <;> rfl
  | observe mover action pc moved =>
    rcases eq_or_ne reader mover with rfl | differs
    · exact .inr ⟨action, rfl, by simpa [LockState.setReader] using moved⟩
    · exact .inl (by simp [LockState.setReader, differs])

theorem KeepsVersion.run {version : BitVec 32} {reader : ρ}
    (reached : run LockState.step state labels = some final) (once : .read reader .readVersion ∉ labels)
    (keeps : KeepsVersion version (state.readers reader)) :
    KeepsVersion version (final.readers reader) := by
  induction labels generalizing state with
  | nil =>
    cases reached
    exact keeps
  | cons label rest ih =>
    obtain ⟨next, taken, onward⟩ := run_cons_eq_some.mp reached
    rw [List.mem_cons, not_or] at once
    refine ih onward once.2 ?_
    rcases reader_step reader taken with same | ⟨action, rfl, moved⟩
    · exact same ▸ keeps
    · exact keeps.move moved fun again => once.1 (again ▸ rfl)

/-- Over a run without release that ends with nobody in the critical section, a reader gathers the
contents that were there all along. -/
theorem Gathered.run {reader : ρ} (unexpired : Throughout LockState.step Unexpired state labels)
    (silent : releases labels = 0) (reached : run LockState.step state labels = some final)
    (vacant : ∀ client, (final.clients client).isHolding = false)
    (gathered : Gathered (contents state.bucket) (state.readers reader)) :
    Gathered (contents final.bucket) (final.readers reader) := by
  induction labels generalizing state with
  | nil =>
    cases reached
    exact gathered
  | cons label rest ih =>
    obtain ⟨next, taken, onward⟩ := run_cons_eq_some.mp reached
    rw [releases, List.countP_cons, Nat.add_eq_zero_iff] at silent
    have other : isRelease label = false := by simpa using silent.2
    obtain ⟨vacantNext, _⟩ := quiet_run (unexpired.2 next taken) silent.1 onward vacant
    obtain ⟨_, same⟩ := quiet_step unexpired.1 other taken vacantNext
    refine ih (unexpired.2 next taken) silent.1 onward ?_
    rw [same]
    rcases reader_step reader taken with unmoved | ⟨action, rfl, moved⟩
    · exact unmoved ▸ gathered
    · exact gathered.move moved

/-- A verification that succeeds within `2 ^ 32` releases of the version read happened without any
release, while nobody was in the critical section. -/
theorem Exclusive.silent_of_verified (exclusive : Exclusive state)
    (unexpired : Throughout LockState.step Unexpired state labels)
    (reached : run LockState.step state labels = some final) (few : releases labels < 2 ^ 32)
    {guard : ReadGuard} (version : guard.version = state.bucket.version)
    (verified : verifyRead guard final.bucket.lockVersion = true) :
    releases labels = 0 ∧ ∀ client, (final.clients client).isHolding = false := by
  simp only [verifyRead, Bool.and_eq_true, Bool.not_eq_true', beq_iff_eq] at verified
  have counted := exclusive.version_run unexpired reached
  rw [HashBucket.version, verified.2, version] at counted
  have finally_ : Exclusive final := unexpired.invariant Exclusive.step exclusive reached
  refine ⟨?_, finally_.vacant verified.1⟩
  have zero := congrArg BitVec.toNat (BitVec.self_eq_add_right.mp counted)
  rwa [BitVec.toNat_ofNat, Nat.mod_eq_of_lt few] at zero

/-- A version read records the version of that moment and nothing else. -/
theorem version_read {reader : ρ} (taken : state.step (.read reader .readVersion) = some next) :
    next.bucket = state.bucket ∧
      next.readers reader = .haveVersion state.bucket.version := by
  obtain ⟨pc, moved, rfl⟩ := Option.map_eq_some_iff.mp taken
  refine ⟨rfl, ?_⟩
  cases reading : state.readers reader <;> rw [reading] at moved <;> try contradiction
  simpa [LockState.setReader] using (Option.some.inj moved).symm

/-- A verification compares the guard with the word of that moment. -/
theorem verification {reader : ρ} {guard : ReadGuard}
    (taken : state.step (.read reader .verifyRead) = some next)
    (verified : next.readers reader = .verified guard true) :
    verifyRead guard state.bucket.lockVersion = true ∧
      (state.readers reader = .guarded guard ∨
        ∃ result, state.readers reader = .verified guard result) := by
  obtain ⟨pc, moved, rfl⟩ := Option.map_eq_some_iff.mp taken
  simp only [LockState.setReader, update_self] at verified
  subst verified
  cases reading : state.readers reader <;> rw [reading] at moved <;> try contradiction
  all_goals
    obtain ⟨rfl, holds⟩ := ReaderPc.verified.inj (Option.some.inj moved)
    exact ⟨holds, by simp⟩

end Steps

/-- Optimistic reads are atomic. In every run in which no lease is judged expired, at most one client
is between acquire and release, the version counts the releases, and a guard that verifies, fewer than
`2 ^ 32` releases after its version was read, holds the contents the bucket had all the time between
the two. -/
theorem verified_read_is_snapshot [DecidableEq ι] [DecidableEq ρ] (bucket : HashBucket)
    (labels : List (LockLabel ι ρ))
    (unexpired : Throughout LockState.step Unexpired (.initial bucket) labels) (final : LockState ι ρ)
    (reached : run LockState.step (.initial bucket) labels = some final) :
    (∀ left right, (final.clients left).isHolding = true →
      (final.clients right).isHolding = true → left = right) ∧
    final.bucket.version = bucket.version + BitVec.ofNat 32 (releases labels) ∧
    ∀ before between reader guard,
      labels = before ++ .read reader .readVersion :: (between ++ [.read reader .verifyRead]) →
      .read reader .readVersion ∉ between → releases between < 2 ^ 32 →
      final.readers reader = .verified guard true →
      ∀ early late, between = early ++ late → ∀ middle,
        run LockState.step (.initial bucket) (before ++ .read reader .readVersion :: early) =
          some middle →
        contents middle.bucket = (guard.keyHash, guard.keyOrDigest, guard.body) := by
  have start : Exclusive (LockState.initial bucket : LockState ι ρ) := exclusive_initial bucket
  have exclusive : Exclusive final := unexpired.invariant Exclusive.step start reached
  refine ⟨exclusive.single, start.version_run unexpired reached, ?_⟩
  rintro before between reader guard rfl once few verified early late rfl middle observed
  -- Cut the run at the version read and at the verification.
  obtain ⟨seen, reachedSeen, rest⟩ := run_append_eq_some.mp reached
  obtain ⟨started, versionRead, rest⟩ := run_cons_eq_some.mp rest
  obtain ⟨last, reachedLast, rest⟩ := run_append_eq_some.mp rest
  obtain ⟨_, checked, ended⟩ := run_cons_eq_some.mp rest
  cases ended
  have quiet := (unexpired.right reachedSeen).2 started versionRead
  have seenExclusive : Exclusive seen := unexpired.left.invariant Exclusive.step start reachedSeen
  have startedExclusive := seenExclusive.step (unexpired.right reachedSeen).1 versionRead
  obtain ⟨sameBucket, haveVersion⟩ := version_read versionRead
  obtain ⟨matching, guarding⟩ := verification checked verified
  have version : guard.version = started.bucket.version := by
    have keeps : KeepsVersion started.bucket.version (last.readers reader) := by
      refine KeepsVersion.run reachedLast once ?_
      rw [haveVersion, sameBucket]
      rfl
    rcases guarding with guarded | ⟨_, guarded⟩ <;> rwa [guarded] at keeps
  obtain ⟨silent, vacant⟩ :=
    startedExclusive.silent_of_verified quiet.left reachedLast few version matching
  have gathered : contents last.bucket = (guard.keyHash, guard.keyOrDigest, guard.body) := by
    have gathers : Gathered (contents last.bucket) (last.readers reader) := by
      refine Gathered.run quiet.left silent reachedLast vacant ?_
      rw [haveVersion]
      trivial
    rcases guarding with guarded | ⟨_, guarded⟩ <;> rw [guarded] at gathers <;>
      exact gathers.symm
  -- The observed state lies on the same run, so the rest of the run is quiet from there on.
  obtain ⟨seen', reachedSeen', observed⟩ := run_append_eq_some.mp observed
  obtain rfl := Option.some.inj (reachedSeen.symm.trans reachedSeen')
  obtain ⟨started', versionRead', observed⟩ := run_cons_eq_some.mp observed
  obtain rfl := Option.some.inj (versionRead.symm.trans versionRead')
  obtain ⟨middle', reachedMiddle, onward⟩ := run_append_eq_some.mp reachedLast
  obtain rfl := Option.some.inj (observed.symm.trans reachedMiddle)
  have lateSilent : releases late = 0 := by
    rw [releases, List.countP_append, Nat.add_eq_zero_iff] at silent
    exact silent.2
  rw [← gathered, (quiet_run (quiet.left.right reachedMiddle) lateSilent onward vacant).2]

/-- A writer publishes a hash; a reader then reads it while a second client is turned to the lock. -/
theorem published_hash_is_read :
    let start : LockState (Fin 2) Unit := .initial .zeroed
    let before : List (LockLabel (Fin 2) Unit) := [.tryAcquire 0 .inline, .loadLock 0 5,
      .casLock 0 6, .writeKeyHash 0 7, .releaseLock 0 .inline, .read () .readLocked]
    let between : List (LockLabel (Fin 2) Unit) := [.tryAcquire 1 .inline, .read () .readKeyHash,
      .read () .readDigest, .loadLock 1 9, .read () .readBody, .read () .readLockVersion]
    ∃ middle, run LockState.step start (before ++ .read () .readVersion :: between) = some middle ∧
      contents middle.bucket = (7, FixedBytes.zeros 16, FixedBytes.zeros 32) := by
  intro start before between
  let labels := before ++ .read () .readVersion :: (between ++ [.read () .verifyRead])
  let guard : ReadGuard := ⟨1, 7, FixedBytes.zeros 16, FixedBytes.zeros 32, 0x100000000⟩
  obtain ⟨final, reached⟩ := Option.isSome_iff_exists.mp
    (show (run LockState.step start labels).isSome = true by decide +kernel)
  obtain ⟨middle, observed⟩ := Option.isSome_iff_exists.mp (show (run LockState.step start
    (before ++ .read () .readVersion :: between)).isSome = true by decide +kernel)
  have verified : (run LockState.step start labels).map (fun state => state.readers ()) =
      some (.verified guard true) := by decide +kernel
  rw [reached, Option.map_some, Option.some.injEq] at verified
  have snapshot := (verified_read_is_snapshot .zeroed labels (by decide +kernel) final reached).2.2
  exact ⟨middle, observed, snapshot before between () guard rfl (by decide) (by decide) verified
    between [] (List.append_nil _).symm middle observed⟩

end Rdmas.Soundness
