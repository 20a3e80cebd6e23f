import Rdmas.Math.Runs
import Rdmas.Model.RemoteInsert
import Rdmas.Soundness.CuckooEntries

/-! # When two remote inserts can lose one

The swap of an insertion replaces the lock word of a free slot by an unlocked one, and the key is
written later. A tombstone that keeps the hash of its former key stops looking free at that moment; a
slot whose hash is 0 does not, and a second client may claim it too. Two clients are safe exactly if
they do not head for the same slot of hash 0.
-/

namespace Rdmas.Soundness

open Rdmas.Model LittleEndian ByteMemory Runs Function

/-- What the claim of a call and its later write leave in a slot. -/
structure Stamped (call : InsertCall) (before after : HashBucket) : Prop where
  word : after.lockVersion = call.mode.toU64 <<< 2
  hash : after.keyHash = before.keyHash ∨ after.keyHash = call.key.hash

section Stamped

variable {call : InsertCall} {before after : HashBucket}

theorem Stamped.not_tombstone (stamped : Stamped call before after) : after.isTombstone = false := by
  rw [HashBucket.isTombstone, stamped.word, LockWord.isTombstone_modeBits]

theorem Stamped.not_free (stamped : Stamped call before after) (kept : before.keyHash ≠ 0)
    (nonzero : call.key.hash ≠ 0) : after.isFree = false := by
  have hash : after.keyHash ≠ 0 := by
    rcases stamped.hash with same | new
    · rwa [same]
    · rwa [new]
  simpa [HashBucket.isFree, HashBucket.isEmpty, stamped.not_tombstone] using hash

/-- A free slot with a hash is a tombstone, and its word changes when it is claimed. -/
theorem Stamped.word_changed (stamped : Stamped call before after) (kept : before.keyHash ≠ 0)
    (free : before.isFree = true) : after.lockVersion ≠ before.lockVersion := by
  have occupied : (before.keyHash == 0) = false := beq_false_of_ne kept
  have tombstone : before.isTombstone = true := by
    simpa only [HashBucket.isFree, HashBucket.isEmpty, occupied, Bool.false_and,
      Bool.false_or] using free
  intro same
  have cleared := stamped.not_tombstone
  rw [HashBucket.isTombstone, same, ← HashBucket.isTombstone, tombstone] at cleared
  contradiction

end Stamped

/-- The lock word a call has read and the home it is about to claim. -/
def attempt : InsertPc → Option (Home × BitVec 64)
  | .allocating home oldLv _ | .claiming home oldLv _ => some (home, oldLv)
  | _ => none

/-- The slot whose lock word a call has swapped. -/
def claim (table : CuckooTable) (call : InsertCall) : InsertPc → Option ℕ
  | .writing home _ => some (call.bucketIdx table home)
  | .returned (.ok (.inserted bucketIdx)) => some bucketIdx
  | _ => none

theorem claim_of_attempt {table : CuckooTable} {call : InsertCall} {pc : InsertPc} {home : Home}
    {oldLv : BitVec 64} (found : attempt pc = some (home, oldLv)) : claim table call pc = none := by
  cases pc with
  | allocating | claiming => rfl
  | reading | writing | returned => cases found

theorem claim_declined (table : CuckooTable) (call : InsertCall) (home : Home) :
    claim table call (.declined home) = none := by
  cases home <;> rfl

theorem bucketIdx_lt {table : CuckooTable} (two : 2 ≤ table.bucketCount) (call : InsertCall)
    (home : Home) : call.bucketIdx table home < table.bucketCount := by
  cases home with
  | first => exact table.h1_lt call.key.hash
  | second => exact table.h2_lt two call.key.hash

theorem bucketIdx_congr {table other : CuckooTable} (same : table.bucketCount = other.bucketCount)
    (call : InsertCall) (home : Home) : call.bucketIdx table home = call.bucketIdx other home := by
  cases home <;> simp only [InsertCall.bucketIdx, CuckooTable.h1, CuckooTable.h2, same]

section Effects

variable {ι : Type} [DecidableEq ι] {xxh64 : Xxh64}
variable {calls : ι → InsertCall} {state next : InsertState ι} {client : ι}

variable (calls state client) in
/-- What one operation of a client can do. -/
inductive InsertEffect : InsertState ι → Prop where
  | decline (home : Home) (found : state.clients client = .reading home)
      (refused : (state.table.bucket ((calls client).bucketIdx state.table home)).isLocked = true ∨
        (state.table.bucket ((calls client).bucketIdx state.table home)).isFree = false) :
      InsertEffect ⟨state.table, state.region, update state.clients client (.declined home)⟩
  | approach (home : Home) (pc : InsertPc) (found : state.clients client = .reading home)
      (free : (state.table.bucket ((calls client).bucketIdx state.table home)).isFree = true)
      (heads : attempt pc = some (home,
        (state.table.bucket ((calls client).bucketIdx state.table home)).lockVersion)) :
      InsertEffect ⟨state.table, state.region, update state.clients client pc⟩
  | prepare (home : Home) (oldLv : BitVec 64) (region : Memory) (pc : InsertPc)
      (found : attempt (state.clients client) = some (home, oldLv))
      (heads : attempt pc = some (home, oldLv) ∨ pc = .returned (.error .casFailed)) :
      InsertEffect ⟨state.table, region, update state.clients client pc⟩
  | claim (home : Home) (oldLv : BitVec 64) (oldOffset : ℕ)
      (found : state.clients client = .claiming home oldLv oldOffset)
      (current : (state.table.bucket
        ((calls client).bucketIdx state.table home)).lockVersion = oldLv) :
      InsertEffect ⟨state.table.setBucket ((calls client).bucketIdx state.table home)
            { state.table.bucket ((calls client).bucketIdx state.table home) with
              lockVersion := (calls client).mode.toU64 <<< 2 },
          state.region, update state.clients client (.writing home oldOffset)⟩
  | lose (home : Home) (oldLv : BitVec 64) (oldOffset : ℕ)
      (found : state.clients client = .claiming home oldLv oldOffset)
      (stale : (state.table.bucket
        ((calls client).bucketIdx state.table home)).lockVersion ≠ oldLv) :
      InsertEffect ⟨state.table, state.region, update state.clients client (.declined home)⟩
  | write (home : Home) (oldOffset : ℕ)
      (found : state.clients client = .writing home oldOffset) :
      InsertEffect ⟨state.table.setBucket ((calls client).bucketIdx state.table home)
            ((calls client).newBucket oldOffset),
          state.region, update state.clients client
            (.returned (.ok (.inserted ((calls client).bucketIdx state.table home))))⟩

private theorem attempt_allocated (home : Home) (oldLv : BitVec 64) (allocation : AllocPc) :
    attempt (.allocated home oldLv allocation) = some (home, oldLv) ∨
      InsertPc.allocated home oldLv allocation = .returned (.error .casFailed) := by
  cases allocation with
  | casFailed => exact .inr rfl
  | start | haveOld | reserved | headerWritten | payloadWritten | finished => exact .inl rfl

theorem insertEffect_of_step (taken : state.step xxh64 calls client = some next) :
    InsertEffect calls state client next := by
  obtain ⟨⟨table, region, pc⟩, moved, rfl⟩ := Option.map_eq_some_iff.mp taken
  cases at_ : state.clients client with
  | reading home =>
    rw [at_] at moved
    simp only [InsertPc.step] at moved
    split at moved
    · next locked =>
        cases moved
        exact .decline home at_ (.inl locked)
    · split at moved
      · next free =>
          split at moved <;> cases moved <;>
            exact .approach home _ at_ free rfl
      · next full =>
          cases moved
          exact .decline home at_ (.inr (by simpa using full))
  | allocating home oldLv allocation =>
    rw [at_] at moved
    obtain ⟨⟨_, allocation'⟩, _, stored⟩ := Option.map_eq_some_iff.mp moved
    cases stored
    exact .prepare home oldLv _ _ (by rw [at_]; rfl) (attempt_allocated home oldLv allocation')
  | claiming home oldLv oldOffset =>
    rw [at_] at moved
    simp only [InsertPc.step, InsertCall.newBucket_lockVersion] at moved
    split at moved
    · next current =>
        cases moved
        exact .claim home oldLv oldOffset at_ current
    · next stale =>
        cases moved
        exact .lose home oldLv oldOffset at_ stale
  | writing home oldOffset =>
    rw [at_] at moved
    cases moved
    exact .write home oldOffset at_
  | returned result =>
    rw [at_] at moved
    cases moved

end Effects

/-- The clients head for the same slot, and its hash is 0. -/
def Contended (table : CuckooTable) (calls : Bool → InsertCall) : Prop :=
  ∃ idx, firstHome table (calls false).key = some idx ∧ firstHome table (calls true).key = some idx ∧
    (table.bucket idx).keyHash = 0

section Safety

variable {xxh64 : Xxh64} {origin : CuckooTable} {calls : Bool → InsertCall}
variable {state next : InsertState Bool} {client : Bool}

/-- The slots claimed so far. -/
def claims (origin : CuckooTable) (calls : Bool → InsertCall) (state : InsertState Bool)
    (client : Bool) : Option ℕ := claim origin (calls client) (state.clients client)

private theorem claims_eq {pc : InsertPc} (found : state.clients client = pc) :
    claims origin calls state client = claim origin (calls client) pc := by
  rw [claims, found]

/-- A client goes for a free slot: the first one, unless the other client has claimed that. -/
structure Aimed (origin : CuckooTable) (calls : Bool → InsertCall) (claims : Bool → Option ℕ)
    (client : Bool) (idx : ℕ) : Prop where
  free : (origin.bucket idx).isFree = true
  reason : firstHome origin (calls client).key = some idx ∨
    ∃ taken ≠ idx, firstHome origin (calls client).key = some taken ∧ claims (!client) = some taken

theorem Aimed.mono {before after : Bool → Option ℕ} {idx : ℕ} (aimed : Aimed origin calls before client idx)
    (grows : ∀ other taken, before other = some taken → after other = some taken) :
    Aimed origin calls after client idx := by
  refine ⟨aimed.free, aimed.reason.imp_right ?_⟩
  rintro ⟨taken, differs, heads, claimed⟩
  exact ⟨taken, differs, heads, grows _ _ claimed⟩

/-- Nobody has claimed the slot of another client. -/
structure Undisputed (origin : CuckooTable) (calls : Bool → InsertCall) (state : InsertState Bool) :
    Prop where
  count : state.table.bucketCount = origin.bucketCount
  untouched : ∀ idx, (∀ client, claims origin calls state client ≠ some idx) →
    state.table.bucket idx = origin.bucket idx
  single : ∀ client idx, claims origin calls state client = some idx →
    claims origin calls state (!client) ≠ some idx
  claimed : ∀ client idx, claims origin calls state client = some idx →
    Aimed origin calls (claims origin calls state) client idx ∧
      Stamped (calls client) (origin.bucket idx) (state.table.bucket idx)
  attempted : ∀ client home oldLv, attempt (state.clients client) = some (home, oldLv) →
    Aimed origin calls (claims origin calls state) client ((calls client).bucketIdx origin home) ∧
      oldLv = (origin.bucket ((calls client).bucketIdx origin home)).lockVersion
  retried : ∀ client, state.clients client = .reading .second →
    firstHome origin (calls client).key ≠ some ((calls client).bucketIdx origin .first) ∨
      claims origin calls state (!client) = some ((calls client).bucketIdx origin .first)
  stored : ∀ client idx, state.clients client = .returned (.ok (.inserted idx)) →
    ∃ oldOffset, state.table.bucket idx = (calls client).newBucket oldOffset

private theorem undisputed_initial (origin : CuckooTable) (calls : Bool → InsertCall) (region : Memory) :
    Undisputed origin calls (.initial origin region) where
  count := rfl
  untouched _ _ := rfl
  single _ _ found := nomatch found
  claimed _ _ found := nomatch found
  attempted _ _ _ found := nomatch found
  retried _ found := nomatch found
  stored _ _ found := nomatch found

private theorem contended_of_same {idx : ℕ} (mine : firstHome origin (calls client).key = some idx)
    (other : firstHome origin (calls !client).key = some idx)
    (zero : (origin.bucket idx).keyHash = 0) : Contended origin calls := by
  cases client with
  | false => exact ⟨idx, mine, other, zero⟩
  | true => exact ⟨idx, other, mine, zero⟩

/-- A client that has claimed nothing finds the slot it heads for taken and changed. -/
theorem Undisputed.taken (undisputed : Undisputed origin calls state)
    (safe : ¬ Contended origin calls) (nonzero : ∀ client, (calls client).key.hash ≠ 0) {idx : ℕ}
    (unclaimed : claims origin calls state client = none)
    (heads : firstHome origin (calls client).key = some idx)
    (taken : claims origin calls state (!client) = some idx) :
    (state.table.bucket idx).isFree = false ∧
      (state.table.bucket idx).lockVersion ≠ (origin.bucket idx).lockVersion := by
  obtain ⟨aimed, stamped⟩ := undisputed.claimed (!client) idx taken
  have same : firstHome origin (calls !client).key = some idx := by
    rcases aimed.reason with first | ⟨_, _, _, mine⟩
    · exact first
    · rw [Bool.not_not, unclaimed] at mine
      contradiction
  have kept : (origin.bucket idx).keyHash ≠ 0 := fun zero =>
    safe (contended_of_same heads same zero)
  exact ⟨stamped.not_free kept (nonzero !client), stamped.word_changed kept aimed.free⟩

/-- A client that claims nothing before and after a step, on an unchanged table. -/
theorem Undisputed.move (undisputed : Undisputed origin calls state) (region : Memory) {pc : InsertPc}
    (before : claims origin calls state client = none) (after : claim origin (calls client) pc = none)
    (attempted : ∀ home oldLv, attempt pc = some (home, oldLv) →
      Aimed origin calls (claims origin calls state) client ((calls client).bucketIdx origin home) ∧
        oldLv = (origin.bucket ((calls client).bucketIdx origin home)).lockVersion)
    (retried : pc = .reading .second →
      firstHome origin (calls client).key ≠ some ((calls client).bucketIdx origin .first) ∨
        claims origin calls state (!client) = some ((calls client).bucketIdx origin .first)) :
    Undisputed origin calls ⟨state.table, region, update state.clients client pc⟩ := by
  have same : claims origin calls ⟨state.table, region, update state.clients client pc⟩ =
      claims origin calls state := by
    funext other
    simp only [claims, update_apply]
    split
    · next isClient => rw [isClient, after, ← before, claims]
    · rfl
  refine ⟨undisputed.count, ?_, ?_, ?_, ?_, ?_, ?_⟩
  · rw [same]
    exact undisputed.untouched
  · rw [same]
    exact undisputed.single
  · rw [same]
    exact undisputed.claimed
  · intro other home oldLv found
    rw [same]
    simp only [update_apply] at found
    split at found
    · next isClient => exact isClient ▸ attempted home oldLv found
    · exact undisputed.attempted other home oldLv found
  · intro other found
    rw [same]
    simp only [update_apply] at found
    split at found
    · next isClient => exact isClient ▸ retried found
    · exact undisputed.retried other found
  · intro other idx found
    simp only [update_apply] at found
    split at found
    · rw [found] at after
      cases after
    · exact undisputed.stored other idx found

/-- A client has put a bucket into a slot that the other one has not claimed, and claims it. -/
structure PutsBucket (origin : CuckooTable) (calls : Bool → InsertCall) (client : Bool) (idx : ℕ)
    (bucket : HashBucket) (state next : InsertState Bool) : Prop where
  slot : ∀ query, next.table.bucket query = if idx = query then bucket else state.table.bucket query
  others : ∀ other, other ≠ client → next.clients other = state.clients other
  claimed : claims origin calls next client = some idx
  before : ∀ taken, claims origin calls state client = some taken → taken = idx
  vacant : claims origin calls state (!client) ≠ some idx

namespace PutsBucket

variable {idx : ℕ} {bucket : HashBucket} (puts : PutsBucket origin calls client idx bucket state next)
include puts

theorem claims_other {other : Bool} (differs : other ≠ client) :
    claims origin calls next other = claims origin calls state other := by
  rw [claims, claims, puts.others other differs]

/-- No claim is given up. -/
theorem grows (other : Bool) (taken : ℕ) (claimed : claims origin calls state other = some taken) :
    claims origin calls next other = some taken := by
  by_cases isClient : other = client
  · subst isClient
    rw [puts.before taken claimed]
    exact puts.claimed
  · rwa [puts.claims_other isClient]

/-- What another client has claimed keeps its bucket. -/
theorem outside {other : Bool} {taken : ℕ} (differs : other ≠ client)
    (claimed : claims origin calls state other = some taken) :
    next.table.bucket taken = state.table.bucket taken := by
  rw [puts.slot, if_neg]
  rintro rfl
  exact puts.vacant (Bool.eq_not_of_ne differs ▸ claimed)

/-- Afterwards nobody has claimed the slot of another client either. -/
theorem single (other : Bool) (taken : ℕ) (claimed : claims origin calls next other = some taken) :
    claims origin calls next (!other) ≠ some taken := by
  by_cases isClient : other = client
  · subst isClient
    rw [puts.claims_other (Bool.not_ne_self other), ← Option.some.inj (puts.claimed.symm.trans claimed)]
    exact puts.vacant
  · have isOther : client = !other := (Bool.eq_not_of_ne isClient) ▸ (Bool.not_not client).symm
    rw [puts.claims_other isClient] at claimed
    intro clash
    rw [← isOther, puts.claimed] at clash
    cases clash
    exact puts.vacant (by rw [isOther, Bool.not_not, claimed])

end PutsBucket

namespace Undisputed

variable (undisputed : Undisputed origin calls state)
include undisputed

/-- A client that puts a bucket of its own into a slot the other one has not claimed. -/
theorem put {idx : ℕ} {bucket : HashBucket}
    {pc : InsertPc} (inRange : idx < origin.bucketCount)
    (before : ∀ taken, claims origin calls state client = some taken → taken = idx)
    (after : claim origin (calls client) pc = some idx)
    (vacant : claims origin calls state (!client) ≠ some idx)
    (aimed : Aimed origin calls (claims origin calls state) client idx)
    (stamped : Stamped (calls client) (origin.bucket idx) bucket)
    (filled : ∀ bucketIdx, pc = .returned (.ok (.inserted bucketIdx)) →
      ∃ oldOffset, bucket = (calls client).newBucket oldOffset)
    (shape : next = ⟨state.table.setBucket idx bucket, state.region,
      update state.clients client pc⟩) : Undisputed origin calls next := by
  have own : next.clients client = pc := by
    rw [shape]
    exact update_self ..
  have puts : PutsBucket origin calls client idx bucket state next := by
    refine ⟨?_, ?_, (claims_eq own).trans after, before, vacant⟩
    · rw [shape]
      exact fun query => state.table.bucket_setBucket (undisputed.count ▸ inRange) bucket
    · rw [shape]
      exact fun other differs => update_of_ne differs _ _
  refine ⟨?_, ?_, puts.single, ?_, ?_, ?_, ?_⟩
  · rw [shape]
    exact undisputed.count
  · intro query nobody
    have differs : idx ≠ query := fun same => nobody client (same ▸ puts.claimed)
    rw [puts.slot, if_neg differs]
    exact undisputed.untouched query fun other claimed => nobody other (puts.grows other query claimed)
  · intro other taken claimed
    by_cases isClient : other = client
    · subst isClient
      obtain rfl := Option.some.inj (puts.claimed.symm.trans claimed)
      rw [puts.slot, if_pos rfl]
      exact ⟨aimed.mono puts.grows, stamped⟩
    · rw [puts.claims_other isClient] at claimed
      obtain ⟨otherAimed, otherStamped⟩ := undisputed.claimed other taken claimed
      rw [puts.outside isClient claimed]
      exact ⟨otherAimed.mono puts.grows, otherStamped⟩
  · intro other home oldLv found
    by_cases isClient : other = client
    · rw [isClient, own] at found
      rw [claim_of_attempt found] at after
      contradiction
    · rw [puts.others other isClient] at found
      obtain ⟨otherAimed, seen⟩ := undisputed.attempted other home oldLv found
      exact ⟨otherAimed.mono puts.grows, seen⟩
  · intro other found
    by_cases isClient : other = client
    · rw [← own, ← isClient, found] at after
      cases after
    · rw [puts.others other isClient] at found
      exact (undisputed.retried other found).imp_right (puts.grows _ _)
  · intro other taken found
    by_cases isClient : other = client
    · rw [isClient, own] at found
      rw [found] at after
      obtain rfl := Option.some.inj after
      rw [puts.slot, if_pos rfl, isClient]
      exact filled taken found
    · rw [puts.others other isClient] at found
      rw [puts.outside isClient (claims_eq found)]
      exact undisputed.stored other taken found

/-- A client that reads a free slot goes for it as its first one, or has lost the first one. -/
theorem heads_of_reading {home : Home} (found : state.clients client = .reading home)
    (free : (origin.bucket ((calls client).bucketIdx origin home)).isFree = true) :
    firstHome origin (calls client).key = some ((calls client).bucketIdx origin home) ∨
      ∃ taken, firstHome origin (calls client).key = some taken ∧
        claims origin calls state (!client) = some taken := by
  cases home with
  | first => exact .inl (firstHome_first free)
  | second =>
    by_cases first : firstHome origin (calls client).key =
        some ((calls client).bucketIdx origin .first)
    · exact .inr ⟨_, first, (undisputed.retried client found).resolve_left (not_not_intro first)⟩
    · exact .inl (firstHome_second first free)

/-- A slot that neither client has claimed is as it was. -/
theorem original {idx : ℕ} (mine : claims origin calls state client = none)
    (vacant : claims origin calls state (!client) ≠ some idx) :
    state.table.bucket idx = origin.bucket idx := by
  refine undisputed.untouched idx fun someone => ?_
  rcases Bool.eq_or_eq_not someone client with rfl | rfl
  · rw [mine]
    nofun
  · exact vacant

/-- A call that is turned away from its first home has a reason to try the second. -/
theorem decline {home : Home}
    (mine : claims origin calls state client = none)
    (reason : firstHome origin (calls client).key ≠ some ((calls client).bucketIdx origin home) ∨
      claims origin calls state (!client) = some ((calls client).bucketIdx origin home)) :
    Undisputed origin calls
      ⟨state.table, state.region, update state.clients client (.declined home)⟩ := by
  refine undisputed.move _ mine (claim_declined origin _ home) ?_ ?_ <;> cases home
  · nofun
  · nofun
  · exact fun _ => reason
  · nofun

end Undisputed

section Vacant

variable (undisputed : Undisputed origin calls state) (safe : ¬ Contended origin calls)
variable (nonzero : ∀ client, (calls client).key.hash ≠ 0) {home : Home}
include undisputed safe nonzero

/-- A slot that looks free to a client that has claimed nothing is not claimed by the other one. -/
theorem vacant_of_free (found : state.clients client = .reading home)
    (free : (state.table.bucket ((calls client).bucketIdx origin home)).isFree = true) :
    claims origin calls state (!client) ≠ some ((calls client).bucketIdx origin home) := by
  intro other
  have first : firstHome origin (calls client).key = some ((calls client).bucketIdx origin home) := by
    rcases undisputed.heads_of_reading found (undisputed.claimed _ _ other).1.free with
      first | ⟨idx, first, claimed⟩
    · exact first
    · rw [first, ← claimed, other]
  have mine : claims origin calls state client = none := claims_eq found
  rw [(undisputed.taken safe nonzero mine first other).1] at free
  contradiction

/-- A slot whose lock word is still the one a client has read is not claimed by the other one. -/
theorem vacant_of_current {oldLv : BitVec 64} {oldOffset : ℕ}
    (found : state.clients client = .claiming home oldLv oldOffset)
    (current : (state.table.bucket ((calls client).bucketIdx origin home)).lockVersion = oldLv) :
    claims origin calls state (!client) ≠ some ((calls client).bucketIdx origin home) := by
  intro other
  obtain ⟨aimed, seen⟩ := undisputed.attempted client home oldLv (by rw [found]; rfl)
  have mine : claims origin calls state client = none := claims_eq found
  rcases aimed.reason with first | ⟨idx, differs, _, claimed⟩
  · exact (undisputed.taken safe nonzero mine first other).2 (current.trans seen)
  · exact differs (Option.some.inj (claimed.symm.trans other))

end Vacant

theorem Undisputed.step (undisputed : Undisputed origin calls state)
    (two : 2 ≤ origin.bucketCount) (unlocked : ∀ idx, (origin.bucket idx).isLocked = false)
    (nonzero : ∀ client, (calls client).key.hash ≠ 0) (safe : ¬ Contended origin calls)
    (taken : state.step xxh64 calls client = some next) : Undisputed origin calls next := by
  have index := bucketIdx_congr undisputed.count (calls client)
  have inRange := bucketIdx_lt two (calls client)
  cases insertEffect_of_step taken with
  | decline home found refused =>
    rw [index] at refused
    have mine : claims origin calls state client = none := claims_eq found
    refine undisputed.decline mine (or_iff_not_imp_right.mpr fun vacant first => ?_)
    rw [undisputed.original mine vacant, unlocked, isFree_of_firstHome first] at refused
    simp at refused
  | approach home pc found free heads =>
    rw [index] at free heads
    have mine : claims origin calls state client = none := claims_eq found
    have vacant := vacant_of_free undisputed safe nonzero found free
    rw [undisputed.original mine vacant] at free heads
    refine undisputed.move _ mine (claim_of_attempt heads) ?_ ?_
    · intro home' oldLv found'
      rw [heads] at found'
      cases found'
      refine ⟨⟨free, (undisputed.heads_of_reading found free).imp_right ?_⟩, rfl⟩
      rintro ⟨idx, first, claimed⟩
      exact ⟨idx, fun same => vacant (same ▸ claimed), first, claimed⟩
    · rintro rfl
      cases heads
  | prepare home oldLv region pc found heads =>
    have before := undisputed.attempted client home oldLv found
    rcases heads with same | rfl
    · refine undisputed.move _ (claim_of_attempt found) (claim_of_attempt same) ?_ ?_
      · intro home' oldLv' found'
        rw [same] at found'
        cases found'
        exact before
      · rintro rfl
        cases same
    · exact undisputed.move _ (claim_of_attempt found) rfl nofun nofun
  | claim home oldLv oldOffset found current =>
    rw [index] at current
    obtain ⟨aimed, _⟩ := undisputed.attempted client home oldLv (by rw [found]; rfl)
    have mine : claims origin calls state client = none := claims_eq found
    have vacant := vacant_of_current undisputed safe nonzero found current
    refine undisputed.put (inRange home) ?_ rfl vacant aimed ⟨rfl, .inl ?_⟩ ?_ (by rw [index])
    · rw [mine]
      nofun
    · rw [undisputed.original mine vacant]
    · nofun
  | lose home oldLv oldOffset found stale =>
    rw [index] at stale
    have mine : claims origin calls state client = none := claims_eq found
    obtain ⟨_, seen⟩ := undisputed.attempted client home oldLv (by rw [found]; rfl)
    refine undisputed.decline mine (or_iff_not_imp_right.mpr fun vacant => ?_)
    exact absurd (by rw [undisputed.original mine vacant, seen]) stale
  | write home oldOffset found =>
    have mine : claims origin calls state client = some ((calls client).bucketIdx origin home) :=
      claims_eq found
    refine undisputed.put (inRange home) ?_ rfl (undisputed.single _ _ mine)
      (undisputed.claimed _ _ mine).1 ⟨InsertCall.newBucket_lockVersion _ oldOffset,
        .inr (InsertCall.newBucket_keyHash _ oldOffset)⟩ (fun _ _ => ⟨oldOffset, rfl⟩) (by rw [index])
    intro idx claimed
    exact Option.some.inj (claimed.symm.trans mine)

end Safety

section Alone

variable {ι : Type} [DecidableEq ι] {xxh64 : Xxh64} {calls : ι → InsertCall}
variable {client : ι} {table table' : CuckooTable} {region region' : Memory} {pc pc' : InsertPc}
variable (clients : ι → InsertPc)

theorem step_update (moved : pc.step xxh64 (calls client) table region = some (table', region', pc')) :
    InsertState.step xxh64 calls ⟨table, region, update clients client pc⟩ client =
      some ⟨table', region', update clients client pc'⟩ := by
  simp only [InsertState.step, update_self, moved, Option.map_some, update_idem]

private theorem allocating_step {call : InsertCall} {allocation allocation' : AllocPc} (home : Home)
    (oldLv : BitVec 64) (moved : allocation.step xxh64 call.value region = some (region', allocation')) :
    (InsertPc.allocating home oldLv allocation).step xxh64 call table region =
      some (table, region', .allocated home oldLv allocation') := by
  simp only [InsertPc.step, moved, Option.map_some]

/-- The region after a client that runs alone has allocated its extent. -/
def allocatedRegion (xxh64 : Xxh64) (data : Bytes) (region : Memory) : Memory :=
  let oldOffset := bumpOffset region
  let header : ExtentHeaderV2 := ⟨extentMagic, 1, data.length, 0, 0⟩
  let reserved := write region 0 (encode 8 (oldOffset + extentTotal data.length))
  let started := write reserved oldOffset header.toBytes
  let filled := write started (oldOffset + headerSize) data
  write filled (oldOffset + 24) (encode 8 (xxh64 data 0).toNat)

/-- The region and the offset with which a call that runs alone goes on to claim its slot. -/
def prepared (xxh64 : Xxh64) (call : InsertCall) (region : Memory) : Memory × ℕ :=
  match call.mode with
  | .inline => (region, 0)
  | .extent => (allocatedRegion xxh64 call.value region, bumpOffset region)

/-- A client that runs alone gets its extent. -/
theorem reaches_allocated (xxh64 : Xxh64) (calls : ι → InsertCall)
    (table : CuckooTable) (region : Memory) (home : Home) (oldLv : BitVec 64) :
    Reaches (InsertState.step xxh64 calls)
      ⟨table, region, update clients client (.allocating home oldLv .start)⟩
      ⟨table, allocatedRegion xxh64 (calls client).value region,
        update clients client (.claiming home oldLv (bumpOffset region))⟩ := by
  unfold allocatedRegion
  obtain ⟨oldOffset, current⟩ : ∃ oldOffset, bumpOffset region = oldOffset := ⟨_, rfl⟩
  rw [current]
  have read : AllocPc.step xxh64 (calls client).value region .start =
      some (region, .haveOld oldOffset) := by rw [AllocPc.step, current]
  have swap : AllocPc.step xxh64 (calls client).value region (.haveOld oldOffset) =
      some (write region 0 (encode 8 (oldOffset + extentTotal (calls client).value.length)),
        .reserved oldOffset) := by simp only [AllocPc.step, current, if_pos]
  have header : ∀ reserved, AllocPc.step xxh64 (calls client).value reserved (.reserved oldOffset) =
      some (_, .headerWritten oldOffset) := fun _ => rfl
  have payload : ∀ started, AllocPc.step xxh64 (calls client).value started (.headerWritten oldOffset) =
      some (_, .payloadWritten oldOffset) := fun _ => rfl
  have checksum : ∀ filled, AllocPc.step xxh64 (calls client).value filled (.payloadWritten oldOffset) =
      some (_, .finished oldOffset) := fun _ => rfl
  exact .head (step_update clients (allocating_step home oldLv read))
    (.head (step_update clients (allocating_step home oldLv swap))
      (.head (step_update clients (allocating_step home oldLv (header _)))
        (.head (step_update clients (allocating_step home oldLv (payload _)))
          (.head (step_update clients (allocating_step home oldLv (checksum _))) (.refl _)))))

private theorem reaches_claiming (region : Memory) {home : Home}
    (unlocked : (table.bucket ((calls client).bucketIdx table home)).isLocked = false)
    (free : (table.bucket ((calls client).bucketIdx table home)).isFree = true) :
    Reaches (InsertState.step xxh64 calls)
      ⟨table, region, update clients client (.reading home)⟩
      ⟨table, (prepared xxh64 (calls client) region).1, update clients client
        (.claiming home (table.bucket ((calls client).bucketIdx table home)).lockVersion
          (prepared xxh64 (calls client) region).2)⟩ := by
  cases mode : (calls client).mode with
  | inline =>
    simp only [prepared, mode]
    refine .head (step_update clients ?_) (.refl _)
    simp [InsertPc.step, unlocked, free, mode]
  | extent =>
    simp only [prepared, mode]
    refine .head (step_update clients ?_) (reaches_allocated clients xxh64 calls table region home _)
    simp [InsertPc.step, unlocked, free, mode]

/-- The table after a call has claimed a slot. -/
def claimedTable (table : CuckooTable) (call : InsertCall) (idx : ℕ) : CuckooTable :=
  table.setBucket idx { table.bucket idx with lockVersion := call.mode.toU64 <<< 2 }

private theorem reaches_writing (region : Memory) {home : Home}
    (unlocked : (table.bucket ((calls client).bucketIdx table home)).isLocked = false)
    (free : (table.bucket ((calls client).bucketIdx table home)).isFree = true) :
    Reaches (InsertState.step xxh64 calls)
      ⟨table, region, update clients client (.reading home)⟩
      ⟨claimedTable table (calls client) ((calls client).bucketIdx table home),
        (prepared xxh64 (calls client) region).1,
        update clients client (.writing home (prepared xxh64 (calls client) region).2)⟩ := by
  refine (reaches_claiming clients region unlocked free).trans (.head (step_update clients ?_) (.refl _))
  simp only [InsertPc.step, if_pos, InsertCall.newBucket_lockVersion]
  rfl

/-- A client that runs alone claims the first home that is free. -/
theorem reaches_claimed (xxh64 : Xxh64) (state : InsertState ι) {idx : ℕ}
    (found : state.clients client = .reading .first)
    (unlocked : ∀ idx, (state.table.bucket idx).isLocked = false)
    (heads : firstHome state.table (calls client).key = some idx) :
    ∃ next home, Reaches (InsertState.step xxh64 calls) state next ∧
      next.table = claimedTable state.table (calls client) idx ∧
      next.region = (prepared xxh64 (calls client) state.region).1 ∧
      next.clients = update state.clients client
        (.writing home (prepared xxh64 (calls client) state.region).2) ∧
      (calls client).bucketIdx state.table home = idx := by
  have free := isFree_of_firstHome heads
  obtain ⟨table, region, clients⟩ := state
  simp only at found unlocked heads free ⊢
  rw [← update_eq_self client clients, found]
  cases first : (table.bucket ((calls client).bucketIdx table .first)).isFree with
  | true =>
    obtain rfl : (calls client).bucketIdx table .first = idx :=
      Option.some.inj ((firstHome_first first).symm.trans heads)
    exact ⟨_, .first, reaches_writing clients region (unlocked _) free, rfl, rfl,
      (update_idem ..).symm, rfl⟩
  | false =>
    have isSecond : (calls client).bucketIdx table .second = idx := by
      have candidate := List.mem_of_find?_eq_some heads
      simp only [List.mem_cons, List.not_mem_nil, or_false] at candidate
      rcases candidate with isFirst | isSecond
      · rw [isFirst, show (table.bucket (table.h1 _)).isFree = false from first] at free
        contradiction
      · exact isSecond.symm
    subst isSecond
    refine ⟨_, .second, .head (step_update clients ?_) (reaches_writing clients region (unlocked _) free),
      rfl, rfl, (update_idem ..).symm, rfl⟩
    simp [InsertPc.step, unlocked, first, InsertPc.declined]

theorem step_write (xxh64 : Xxh64) {state : InsertState ι} {home : Home}
    {oldOffset idx : ℕ} (found : state.clients client = .writing home oldOffset)
    (at_ : (calls client).bucketIdx state.table home = idx) :
    ∃ next, state.step xxh64 calls client = some next ∧
      next.table = state.table.setBucket idx ((calls client).newBucket oldOffset) ∧
      next.region = state.region ∧
      next.clients = update state.clients client (.returned (.ok (.inserted idx))) := by
  refine ⟨⟨state.table.setBucket idx ((calls client).newBucket oldOffset), state.region,
    update state.clients client (.returned (.ok (.inserted idx)))⟩, ?_, rfl, rfl, rfl⟩
  simp only [InsertState.step, found, InsertPc.step, at_, Option.map_some]

/-- A client that runs alone and has a free home inserts there. -/
theorem reaches_inserted (xxh64 : Xxh64) (state : InsertState ι) {idx : ℕ}
    (found : state.clients client = .reading .first)
    (unlocked : ∀ idx, (state.table.bucket idx).isLocked = false)
    (heads : firstHome state.table (calls client).key = some idx) :
    ∃ next, Reaches (InsertState.step xxh64 calls) state next ∧
      next.table = state.table.setBucket idx
        ((calls client).newBucket (prepared xxh64 (calls client) state.region).2) ∧
      next.region = (prepared xxh64 (calls client) state.region).1 ∧
      next.clients client = .returned (.ok (.inserted idx)) := by
  obtain ⟨claimed, home, reached, tableEq, regionEq, clientsEq, at_⟩ :=
    reaches_claimed xxh64 state found unlocked heads
  have count : claimed.table.bucketCount = state.table.bucketCount := by rw [tableEq]; rfl
  obtain ⟨next, taken, nextTable, nextRegion, nextClients⟩ := step_write xxh64
    (show claimed.clients client = .writing home _ by rw [clientsEq, update_self])
    ((bucketIdx_congr count _ _).trans at_)
  refine ⟨next, reached.trans (.head taken (.refl _)), ?_, nextRegion.trans regionEq, ?_⟩
  · rw [nextTable, tableEq, claimedTable, CuckooTable.setBucket_setBucket]
  · rw [nextClients, update_self]

/-- A client that runs alone and finds both homes taken gives up and has changed nothing. -/
theorem reaches_tableFull (xxh64 : Xxh64) (state : InsertState ι)
    (found : state.clients client = .reading .first)
    (unlocked : ∀ idx, (state.table.bucket idx).isLocked = false)
    (nowhere : firstHome state.table (calls client).key = none) :
    ∃ next, Reaches (InsertState.step xxh64 calls) state next ∧
      next.clients client = .returned (.ok .tableFull) := by
  obtain ⟨table, region, clients⟩ := state
  have taken := List.find?_eq_none.mp nowhere
  have first : (table.bucket ((calls client).bucketIdx table .first)).isFree = false := by
    simpa [InsertCall.bucketIdx] using taken _ List.mem_cons_self
  have second : (table.bucket ((calls client).bucketIdx table .second)).isFree = false := by
    simpa [InsertCall.bucketIdx] using taken _ (List.mem_cons_of_mem _ List.mem_cons_self)
  simp only at found unlocked
  have leavesFirst : (InsertPc.reading .first).step xxh64 (calls client) table region =
      some (table, region, .reading .second) := by
    simp [InsertPc.step, unlocked, first, InsertPc.declined]
  have leavesSecond : (InsertPc.reading .second).step xxh64 (calls client) table region =
      some (table, region, .returned (.ok .tableFull)) := by
    simp [InsertPc.step, unlocked, second, InsertPc.declined]
  rw [← update_eq_self client clients, found]
  exact ⟨_, .head (step_update clients leavesFirst) (.head (step_update clients leavesSecond) (.refl _)),
    update_self ..⟩

end Alone

section Loss

variable {xxh64 : Xxh64} {calls : Bool → InsertCall}
variable {table : CuckooTable} {region : Memory}

section Claimed

variable {call : InsertCall} {idx : ℕ} (inRange : idx < table.bucketCount)
include inRange

private theorem isLocked_claimedTable (unlocked : ∀ idx, (table.bucket idx).isLocked = false) (query : ℕ) :
    ((claimedTable table call idx).bucket query).isLocked = false := by
  rw [claimedTable, table.bucket_setBucket inRange]
  split
  · exact LockWord.isLocked_modeBits call.mode
  · exact unlocked query

/-- A claimed slot of hash 0 still looks free. -/
theorem isFree_claimedTable (free : (table.bucket idx).isFree = true)
    (zero : (table.bucket idx).keyHash = 0) (query : ℕ) :
    ((claimedTable table call idx).bucket query).isFree = (table.bucket query).isFree := by
  rw [claimedTable, table.bucket_setBucket inRange]
  split
  · next same =>
      rw [← same, free]
      simp [HashBucket.isFree, HashBucket.isEmpty, zero, HashBucket.isTombstone,
        LockWord.isTombstone_modeBits]
  · rfl

private theorem firstHome_claimedTable (free : (table.bucket idx).isFree = true)
    (zero : (table.bucket idx).keyHash = 0) (key : HashedKey) :
    firstHome (claimedTable table call idx) key = firstHome table key := by
  simp only [firstHome, isFree_claimedTable inRange free zero]
  rfl

end Claimed

/-- Two clients that head for the same slot of hash 0 can both claim it; the later write wins. -/
theorem reaches_loss (two : 2 ≤ table.bucketCount)
    (unlocked : ∀ idx, (table.bucket idx).isLocked = false) (contended : Contended table calls) :
    ∃ final idx oldOffset, Reaches (InsertState.step xxh64 calls) (.initial table region) final ∧
      final.clients false = .returned (.ok (.inserted idx)) ∧
      final.clients true = .returned (.ok (.inserted idx)) ∧
      final.table.bucket idx = (calls true).newBucket oldOffset := by
  obtain ⟨idx, heads, sameHeads, zero⟩ := contended
  have free := isFree_of_firstHome heads
  obtain ⟨one, home₁, first, table₁, _, clients₁, at₁⟩ :=
    reaches_claimed xxh64 (.initial table region) rfl unlocked heads
  have inRange : idx < table.bucketCount := at₁ ▸ bucketIdx_lt two _ home₁
  have unlocked₁ : ∀ idx, (one.table.bucket idx).isLocked = false :=
    table₁ ▸ isLocked_claimedTable inRange unlocked
  have heads₁ : firstHome one.table (calls true).key = some idx :=
    table₁ ▸ (firstHome_claimedTable inRange free zero _).trans sameHeads
  obtain ⟨both, home₂, second, table₂, _, clients₂, at₂⟩ :=
    reaches_claimed xxh64 one (by rw [clients₁]; rfl) unlocked₁ heads₁
  have count : both.table.bucketCount = table.bucketCount := by rw [table₂, table₁]; rfl
  obtain ⟨written, third, table₃, _, clients₃⟩ := step_write xxh64
    (show both.clients false = .writing home₁ _ by rw [clients₂, clients₁]; rfl)
    ((bucketIdx_congr count _ _).trans at₁)
  have sameCount : written.table.bucketCount = one.table.bucketCount := by rw [table₃, table₂]; rfl
  obtain ⟨final, fourth, table₄, _, clients₄⟩ := step_write xxh64
    (show written.clients true = .writing home₂ _ by rw [clients₃, clients₂]; rfl)
    ((bucketIdx_congr sameCount _ _).trans at₂)
  refine ⟨final, idx, (prepared xxh64 (calls true) one.region).2,
    first.trans (second.trans (.head third (.head fourth (.refl _)))),
    ?_, ?_, ?_⟩
  · rw [clients₄, clients₃]
    rfl
  · rw [clients₄]
    rfl
  · have bound : idx < written.table.bucketCount := by rwa [sameCount, table₁]
    rw [table₄, written.table.bucket_setBucket bound, if_pos rfl]

end Loss

/-- Whatever the interleaving: if both calls return `Inserted`, both keys are live where they say. -/
def NoLostInsert (xxh64 : Xxh64) (calls : Bool → InsertCall) (table : CuckooTable) (region : Memory) : Prop :=
  ∀ labels final, run (InsertState.step xxh64 calls) (.initial table region) labels = some final →
    ∀ left right, final.clients false = .returned (.ok (.inserted left)) →
      final.clients true = .returned (.ok (.inserted right)) →
      final.table.answers (calls false).key left = true ∧
        final.table.answers (calls true).key right = true

private theorem answers_newBucket {table : CuckooTable} {call : InsertCall} {key : HashedKey}
    {idx oldOffset : ℕ} (stored : table.bucket idx = call.newBucket oldOffset) :
    table.answers key idx = true ↔ call.key = key := by
  obtain ⟨⟨hash, digest⟩, value, mode⟩ := call
  obtain ⟨hash', digest'⟩ := key
  simp [CuckooTable.answers, stored, HashBucket.matchesKey, HashBucket.isTombstone,
    LockWord.isTombstone_modeBits]

/-- For every table of unlocked buckets and any two calls on distinct keys with non-zero hashes: no
insert can be lost exactly if the clients do not head for the same slot of hash 0. -/
theorem no_lost_insert_iff (xxh64 : Xxh64) (calls : Bool → InsertCall)
    (table : CuckooTable) (region : Memory) (two : 2 ≤ table.bucketCount)
    (unlocked : ∀ idx, (table.bucket idx).isLocked = false) (nonzero : ∀ client, (calls client).key.hash ≠ 0)
    (distinct : (calls false).key ≠ (calls true).key) :
    NoLostInsert xxh64 calls table region ↔ ¬ Contended table calls := by
  constructor
  · intro safe contended
    obtain ⟨final, idx, oldOffset, ⟨labels, reached⟩, first, second, stored⟩ :=
      reaches_loss two unlocked contended
    have live := (safe labels final reached idx idx first second).1
    exact distinct ((answers_newBucket stored).mp live).symm
  · intro safe labels final reached left right first second
    have undisputed : Undisputed table calls final :=
      run_invariant (fun undisputed taken => undisputed.step two unlocked nonzero safe taken)
        (undisputed_initial table calls region) reached
    obtain ⟨_, storedLeft⟩ := undisputed.stored false left first
    obtain ⟨_, storedRight⟩ := undisputed.stored true right second
    exact ⟨(answers_newBucket storedLeft).mpr rfl, (answers_newBucket storedRight).mpr rfl⟩

/-- Clients with different first homes on an empty table, one of them writing an extent. -/
theorem apart_clients_lose_nothing :
    NoLostInsert (fun _ _ => 0xD24EC4F1A98C6E5B)
      (fun client => ⟨⟨if client then 1 else 2, FixedBytes.zeros 16⟩, [0x61],
        if client then .inline else .extent⟩)
      (.new 8 4 ⟨3, rfl⟩) (write (fun _ => 0) 0 (encode 8 64)) := by
  refine (no_lost_insert_iff _ _ _ _ (by decide) ?_ (by decide) (by decide)).mpr ?_
  · intro idx
    simp only [CuckooTable.bucket, CuckooTable.new, List.getD_eq_getElem?_getD, List.getElem?_replicate]
    split <;> rfl
  · rintro ⟨idx, first, second, _⟩
    exact absurd (first.trans second.symm) (by decide +kernel)

/-- Two clients share an empty bucket. Both claim it by swapping 0 for 0, both return `Inserted`, and
the key of the first is gone. -/
theorem shared_empty_bucket_loses_key :
    let calls : Bool → InsertCall := fun client =>
      ⟨⟨if client then 9 else 1, FixedBytes.zeros 16⟩, [0x61], .inline⟩
    ∃ final, run (InsertState.step (fun _ _ => 0xD24EC4F1A98C6E5B) calls)
        (.initial (.new 8 4 ⟨3, rfl⟩) fun _ => 0) [false, false, true, true, false, true] =
          some final ∧
      final.clients false = .returned (.ok (.inserted 1)) ∧
      final.clients true = .returned (.ok (.inserted 1)) ∧
      final.table.answers (calls false).key 1 = false ∧ final.table.lookup (calls false).key = none := by
  intro calls
  have seen : (run (InsertState.step (fun _ _ => 0xD24EC4F1A98C6E5B) calls)
      (.initial (.new 8 4 ⟨3, rfl⟩) fun _ => 0) [false, false, true, true, false, true]).map
      (fun final => (final.clients false, final.clients true,
        final.table.answers (calls false).key 1, final.table.lookup (calls false).key)) =
      some (.returned (.ok (.inserted 1)), .returned (.ok (.inserted 1)), false, none) := by
    decide +kernel
  obtain ⟨final, reached, facts⟩ := Option.map_eq_some_iff.mp seen
  simp only [Prod.mk.injEq] at facts
  exact ⟨final, reached, facts⟩

end Rdmas.Soundness
