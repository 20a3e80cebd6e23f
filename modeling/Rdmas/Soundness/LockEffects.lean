import Rdmas.Math.Runs
import Rdmas.Model.Concurrency

/-! # What one step of the lock machine can do

A step moves a client that is outside its critical section, swaps the lock in, changes a field of the
bucket on behalf of a holder, releases, forces a takeover, or moves a reader. Every invariant of
the machine is derived from this list.
-/

namespace Rdmas.Soundness

open Rdmas.Model

variable {ι ρ : Type} [DecidableEq ι] [DecidableEq ρ]

/-- A step that finds the lock held and its lease run out. -/
def judgesExpired (state : LockState ι ρ) : LockLabel ι ρ → Bool
  | .loadLock _ now => state.bucket.isLocked &&
      isLeaseExpired state.bucket.leaseTs now leaseTimeoutMs
  | .forceTakeover now timeoutMs => state.bucket.isLocked &&
      isLeaseExpired state.bucket.leaseTs now timeoutMs
  | _ => false

def isRelease : LockLabel ι ρ → Bool
  | .releaseLock _ _ => true
  | _ => false

/-- The step stores a new lock word: a successful swap, a release, or a takeover. -/
def storesWord (state : LockState ι ρ) : LockLabel ι ρ → Bool
  | .casLock client _ =>
      match state.clients client with
      | .loaded _ oldLv => state.bucket.lockVersion == oldLv
      | _ => false
  | .releaseLock client _ => (state.clients client).isHolding
  | .forceTakeover now timeoutMs => judgesExpired state (.forceTakeover now timeoutMs)
  | _ => false

/-- The step changes a part of the key. -/
def writesKey : LockLabel ι ρ → Bool
  | .writeKeyHash _ _ | .writeDigest _ _ => true
  | _ => false

/-- The client whose step it is; takeovers are forced by nobody in particular. -/
def actor : LockLabel ι ρ → Option ι
  | .tryAcquire client _ | .loadLock client _ | .casLock client _ | .writeKeyHash client _
  | .writeDigest client _ | .writeBody client _ | .releaseLock client _ => some client
  | .forceTakeover _ _ | .read _ _ => none

/-- The possible effects of a step. -/
inductive Effect (state : LockState ι ρ) : LockLabel ι ρ → LockState ι ρ → Prop where
  | settle {label : LockLabel ι ρ} (client : ι) (pc : ClientPc)
      (outside : (state.clients client).isHolding = false)
      (stays : pc.isHolding = false)
      (fresh : ∀ mode oldLv, pc = .loaded mode oldLv →
        LockWord.isLocked oldLv = true → judgesExpired state label = true)
      (other : isRelease label = false) (keeps : storesWord state label = false)
      (acts : actor label = some client)
      (current : ∀ mode oldLv, pc = .loaded mode oldLv → oldLv = state.bucket.lockVersion) :
      Effect state label (state.setClient client pc)
  | acquire (client : ι) (now : BitVec 32) (mode : BucketMode) (oldLv : BitVec 64)
      (at_ : state.clients client = .loaded mode oldLv)
      (current : state.bucket.lockVersion = oldLv) :
      Effect state (.casLock client now) (state.acquire client mode oldLv now)
  | write {label : LockLabel ι ρ} (client : ι) (prev : BitVec 64) (takenOver : Bool)
      (bucket : HashBucket) (at_ : state.clients client = .holding prev takenOver)
      (same : bucket.lockVersion = state.bucket.lockVersion) (other : isRelease label = false)
      (keeps : storesWord state label = false)
      (key : writesKey label = false →
        bucket.keyHash = state.bucket.keyHash ∧ bucket.keyOrDigest = state.bucket.keyOrDigest)
      (acts : actor label = some client) : Effect state label { state with bucket }
  | release (client : ι) (mode : BucketMode) (prev : BitVec 64) (takenOver : Bool)
      (at_ : state.clients client = .holding prev takenOver) :
      Effect state (.releaseLock client mode) (state.release client mode prev)
  | force (now timeoutMs : BitVec 32)
      (judged : judgesExpired state (.forceTakeover now timeoutMs) = true) :
      Effect state (.forceTakeover now timeoutMs) { state.evictHolders with
        bucket := { state.bucket with
          lockVersion := releaseWord (LockWord.mode state.bucket.lockVersion) state.bucket.version }
        published := (state.bucket.version + 1) :: state.published }
  | refuse (now timeoutMs : BitVec 32)
      (spared : judgesExpired state (.forceTakeover now timeoutMs) = false) :
      Effect state (.forceTakeover now timeoutMs) state
  | observe (reader : ρ) (action : ReadAction) (pc : ReaderPc)
      (moved : (state.readers reader).step state.bucket action = some pc) :
      Effect state (.read reader action) (state.setReader reader pc)

theorem effect_of_step {state next : LockState ι ρ} {label : LockLabel ι ρ}
    (taken : state.step label = some next) : Effect state label next := by
  cases label with
  | tryAcquire client mode =>
    simp only [LockState.step] at taken
    split at taken
    · next at_ =>
        cases taken
        exact .settle client _ (by rw [at_]; rfl) rfl nofun rfl rfl rfl nofun
    · cases taken
  | loadLock client now =>
    simp only [LockState.step] at taken
    split at taken
    · next mode at_ =>
        split at taken
        · cases taken
          exact .settle client _ (by rw [at_]; rfl) rfl nofun rfl rfl rfl nofun
        · next passes =>
            cases taken
            refine .settle client _ (by rw [at_]; rfl) rfl ?_ rfl rfl rfl (by rintro _ _ ⟨⟩; rfl)
            rintro _ _ ⟨⟩ locked
            simpa [judgesExpired, HashBucket.isLocked, HashBucket.leaseTs, locked] using passes
    · cases taken
  | casLock client now =>
    simp only [LockState.step] at taken
    split at taken
    · next mode oldLv at_ =>
        split at taken
        · next current =>
            cases taken
            exact .acquire client now mode oldLv at_ current
        · next changed =>
            cases taken
            exact .settle client _ (by rw [at_]; rfl) rfl nofun rfl (by simp [storesWord, at_, changed]) rfl nofun
    · cases taken
  | writeKeyHash client _ | writeDigest client _ | writeBody client _ =>
    simp only [LockState.step] at taken
    split at taken
    · next prev takenOver at_ =>
        cases taken
        exact .write client prev takenOver _ at_ rfl rfl rfl (by simp [writesKey]) rfl
    · cases taken
  | releaseLock client mode =>
    simp only [LockState.step] at taken
    split at taken
    · next prev takenOver at_ =>
        cases taken
        exact .release client mode prev takenOver at_
    · cases taken
  | forceTakeover now timeoutMs =>
    cases judged : judgesExpired state (.forceTakeover now timeoutMs) with
    | true =>
      simp only [LockState.step, forceTakeover_expired judged, version_releaseWord,
        Option.some.injEq] at taken
      exact taken ▸ .force now timeoutMs judged
    | false =>
      simp only [LockState.step, forceTakeover_refused judged] at taken
      cases locked : state.bucket.isLocked <;> rw [locked] at taken <;>
        exact Option.some.inj taken ▸ .refuse now timeoutMs judged
  | read reader action =>
    obtain ⟨pc, moved, rfl⟩ := Option.map_eq_some_iff.mp taken
    exact .observe reader action pc moved

end Rdmas.Soundness
