import Rdmas.Math.Runs
import Rdmas.Model.Session

/-! # Restarts of the server

A history of server instances, each a fresh control server, and of sessions that discover metadata, send
heartbeats, check the answers and reconnect. Answers are in flight: an instance may be gone when what it
told a session arrives. Every instance starts at generation one, so a heartbeat never tells the metadata of
an earlier instance from that of the one that answers.
-/

namespace Rdmas.Soundness

open Rdmas.Model Runs

/-- The calls of a session that wait for `discover`. -/
inductive SessionCall where
  | connect (clientId : BitVec 64)
  | refreshMetadata
  | reconnect
deriving DecidableEq, Repr

/-- A session with the instance its cached metadata came from, the call it is in with what has been
discovered for it and by which instance that was answered, and the last answer to a heartbeat. -/
structure SessionSlot where
  session : Option ClientSession
  origin : Option ℕ
  call : Option SessionCall
  found : Option (ServerMetadata × ℕ)
  answer : Option (HeartbeatResponse × ℕ)

namespace SessionSlot

/-- Nobody is connected. -/
def vacant : SessionSlot := ⟨none, none, none, none, none⟩

/-- The cached metadata came from an earlier instance than the one that answered. -/
def stale (slot : SessionSlot) : Bool :=
  match slot.origin, slot.answer with
  | some origin, some (_, answering) => origin < answering
  | _, _ => false

/-- What `check_reconnect_needed` says of the last answer. -/
def reconnectNeeded (slot : SessionSlot) : Bool :=
  match slot.session, slot.answer with
  | some session, some (response, _) => session.checkReconnectNeeded response
  | _, _ => false

/-- The start of a call. A reconnect invalidates the cached metadata before it discovers. -/
def start (slot : SessionSlot) (call : SessionCall) : Option SessionSlot :=
  match slot.call, slot.session, call with
  | none, none, .connect _ => some { slot with call := some call, found := none }
  | none, some _, .refreshMetadata => some { slot with call := some call, found := none }
  | none, some session, .reconnect => some { slot with
      session := some session.invalidateMrMetadata, origin := none, call := some call, found := none }
  | _, _, _ => none

/-- The metadata a call gets from its RPC, unless that fails. -/
def received (slot : SessionSlot) (discovered : Bool) : Option ServerMetadata :=
  if discovered then slot.found.map Prod.fst else none

/-- The end of a call, which got the metadata or an error and could create a transport or not. -/
def finish (slot : SessionSlot) (discovered transport : Bool) : Option SessionSlot :=
  let metadata := slot.received discovered
  let done := { slot with call := none, found := none }
  match slot.call, slot.session with
  | some (.connect clientId), none =>
      match ClientSession.connect clientId (some ControlServer.getVersion) metadata transport with
      | .ok session => some { done with session := some session, origin := slot.found.map Prod.snd }
      | .error _ => some done
  | some .refreshMetadata, some session =>
      match session.refreshMetadata metadata with
      | (session, .ok _) => some { done with session := some session, origin := slot.found.map Prod.snd }
      | (session, .error _) => some { done with session := some session }
  | some .reconnect, some session =>
      match session.reconnect metadata transport with
      | (session, .ok _) => some { done with session := some session, origin := slot.found.map Prod.snd }
      | (session, .error _) => some { done with session := some session, origin := none }
  | _, _ => none

end SessionSlot

/-- The running server with the number of instances before it, and the sessions. -/
structure ControlHistory where
  server : ControlServer
  clients : ClientRegistry
  freeListHeaderAddr : ℕ
  instances : ℕ
  sessions : ℕ → SessionSlot

inductive ControlEvent where
  | restart (engine : BootstrappedEngine) (freeListHeaderAddr : ℕ)
  | call (id : ℕ) (call : SessionCall)
  | discover (id : ℕ)
  | finish (id : ℕ) (discovered transport : Bool)
  | invalidate (id : ℕ)
  | heartbeat (id : ℕ) (activeTs : BitVec 32) (now : ℕ)
  | check (id : ℕ)
  | deregister (id : ℕ)

namespace ControlHistory

/-- The first instance, and no session yet. -/
def launch (engine : BootstrappedEngine) (freeListHeaderAddr : ℕ) : ControlHistory :=
  ⟨.new engine, fun _ => none, freeListHeaderAddr, 0, fun _ => .vacant⟩

def setSlot (state : ControlHistory) (id : ℕ) (slot : SessionSlot) : ControlHistory :=
  { state with sessions := fun other => if other = id then slot else state.sessions other }

/-- While a call is under way it has the session for itself, so neither `check_reconnect_needed` nor
`invalidate_mr_metadata` can be called. -/
def step (state : ControlHistory) : ControlEvent → Option ControlHistory
  | .restart engine freeListHeaderAddr => some { state with
      server := .new engine, clients := fun _ => none, freeListHeaderAddr, instances := state.instances + 1 }
  | .call id call => ((state.sessions id).start call).map (state.setSlot id)
  | .discover id =>
      let slot := state.sessions id
      if slot.call.isSome then
        some (state.setSlot id { slot with
          found := some (state.server.discover state.freeListHeaderAddr, state.instances) })
      else none
  | .finish id discovered transport =>
      ((state.sessions id).finish discovered transport).map (state.setSlot id)
  | .invalidate id =>
      let slot := state.sessions id
      if slot.call.isSome then none
      else slot.session.map fun session =>
        state.setSlot id { slot with session := some session.invalidateMrMetadata, origin := none }
  | .heartbeat id activeTs now =>
      let slot := state.sessions id
      slot.session.map fun session =>
        let (clients, response) := state.server.heartbeat state.clients session.clientId activeTs now
        { state.setSlot id { slot with answer := some (response, state.instances) } with clients }
  | .check id =>
      let slot := state.sessions id
      if slot.call.isNone && slot.session.isSome && slot.answer.isSome then
        some (state.setSlot id { slot with answer := none })
      else none
  | .deregister id => (state.sessions id).session.map fun session =>
      { state with clients := ControlServer.deregister state.clients session.clientId }

end ControlHistory

/-- A check of an answer that came from a later instance than the cached metadata asks for a reconnect. -/
def NoticesRestart (state : ControlHistory) (event : ControlEvent) : Prop :=
  ∀ id, event = .check id → (state.sessions id).stale = true → (state.sessions id).reconnectNeeded = true

/-- No session checks such an answer. -/
def ChecksCurrentMetadata (state : ControlHistory) (event : ControlEvent) : Prop :=
  ∀ id, event = .check id → (state.sessions id).stale = false

/-- Whatever a session holds is of the first generation, or invalidated. -/
structure FirstGeneration (slot : SessionSlot) : Prop where
  session : ∀ session ∈ slot.session, slot.origin.isSome → session.metadata.generation = 1
  found : ∀ found ∈ slot.found, found.1.generation = 1
  answer : ∀ answer ∈ slot.answer, answer.1.generation = 1 ∧ answer.1.reconnect = false

namespace FirstGeneration

variable {slot next : SessionSlot}

theorem vacant : FirstGeneration .vacant := by
  constructor <;> simp [SessionSlot.vacant]

/-- A check that compares with discovered metadata finds nothing new. -/
theorem reconnectNeeded_eq_false (first : FirstGeneration slot) (stale : slot.stale = true) :
    slot.reconnectNeeded = false := by
  obtain ⟨session, origin, call, found, answer⟩ := slot
  cases origin with
  | none => cases stale
  | some origin =>
    cases session with
    | none => rfl
    | some session =>
      cases answer with
      | none => rfl
      | some answer =>
        have same := first.session session rfl rfl
        obtain ⟨generation, quiet⟩ := first.answer answer rfl
        simp [SessionSlot.reconnectNeeded, ClientSession.checkReconnectNeeded, same, generation, quiet]

theorem start {call : SessionCall} (first : FirstGeneration slot) (starts : slot.start call = some next) :
    FirstGeneration next := by
  unfold SessionSlot.start at starts
  split at starts
  · cases starts
    exact ⟨first.session, by simp, first.answer⟩
  · cases starts
    exact ⟨first.session, by simp, first.answer⟩
  · cases starts
    exact ⟨by simp, by simp, first.answer⟩
  · cases starts

section Calls

variable {session after : ClientSession} {discovered : Option ServerMetadata} {transport : Bool}

private theorem connect_eq_ok {clientId : BitVec 64} {version : Option GetVersionResponse}
    (connects : ClientSession.connect clientId version discovered transport = .ok after) :
    discovered = some after.metadata := by
  cases version with
  | none => cases connects
  | some version =>
    simp only [ClientSession.connect] at connects
    by_cases old : version.serviceVersion < ClientSession.minCompatibleVersion
    · rw [if_pos old] at connects
      cases connects
    · rw [if_neg old] at connects
      cases discovered with
      | none => cases connects
      | some metadata =>
        cases transport with
        | false => cases connects
        | true =>
          cases connects
          rfl

private theorem refreshMetadata_eq_ok (refreshes : session.refreshMetadata discovered = (after, .ok ())) :
    discovered = some after.metadata := by
  cases discovered with
  | none => cases refreshes
  | some metadata =>
    cases refreshes
    rfl

private theorem refreshMetadata_eq_error {error : ClientSessionError}
    (refreshes : session.refreshMetadata discovered = (after, .error error)) : after = session := by
  cases discovered with
  | none =>
    cases refreshes
    rfl
  | some metadata => cases refreshes

private theorem reconnect_eq_ok (reconnects : session.reconnect discovered transport = (after, .ok ())) :
    discovered = some after.metadata := by
  cases discovered with
  | none => cases reconnects
  | some metadata =>
    cases transport with
    | false => cases reconnects
    | true =>
      cases reconnects
      rfl

end Calls

/-- What a finished call leaves: the metadata that was found, the session as it was, or no metadata. -/
theorem finish_cases {discovered transport : Bool} (finishes : slot.finish discovered transport = some next) :
    next.answer = slot.answer ∧ next.found = none ∧
      ((∃ found session, slot.found = some found ∧ next.session = some session ∧
          session.metadata = found.1 ∧ next.origin = some found.2) ∨
        (next.session = slot.session ∧ next.origin = slot.origin) ∨ next.origin = none) := by
  have adopted : ∀ metadata, slot.received discovered = some metadata →
      ∃ found, slot.found = some found ∧ metadata = found.1 := by
    intro metadata received
    unfold SessionSlot.received at received
    split at received
    · obtain ⟨found, known, rfl⟩ := Option.map_eq_some_iff.mp received
      exact ⟨found, known, rfl⟩
    · cases received
  unfold SessionSlot.finish at finishes
  dsimp only at finishes
  split at finishes
  · split at finishes
    next session connects =>
      cases finishes
      obtain ⟨found, known, same⟩ := adopted _ (connect_eq_ok connects)
      exact ⟨rfl, rfl, .inl ⟨found, session, known, rfl, same, by rw [known]; rfl⟩⟩
    next =>
      cases finishes
      exact ⟨rfl, rfl, .inr (.inl ⟨rfl, rfl⟩)⟩
  next connected =>
    split at finishes
    next session _ refreshes =>
      cases finishes
      obtain ⟨found, known, same⟩ := adopted _ (refreshMetadata_eq_ok refreshes)
      exact ⟨rfl, rfl, .inl ⟨found, session, known, rfl, same, by rw [known]; rfl⟩⟩
    next refreshes =>
      cases finishes
      refine ⟨rfl, rfl, .inr (.inl ⟨?_, rfl⟩)⟩
      rw [connected, refreshMetadata_eq_error refreshes]
  · split at finishes
    next session _ reconnects =>
      cases finishes
      obtain ⟨found, known, same⟩ := adopted _ (reconnect_eq_ok reconnects)
      exact ⟨rfl, rfl, .inl ⟨found, session, known, rfl, same, by rw [known]; rfl⟩⟩
    next =>
      cases finishes
      exact ⟨rfl, rfl, .inr (.inr rfl)⟩
  · cases finishes

theorem finish {discovered transport : Bool} (first : FirstGeneration slot)
    (finishes : slot.finish discovered transport = some next) : FirstGeneration next := by
  obtain ⟨answer, found, kept⟩ := finish_cases finishes
  refine ⟨fun session member known => ?_, by simp [found], by rw [answer]; exact first.answer⟩
  rcases kept with ⟨discovered, adopted, was, now, metadata, _⟩ | ⟨same, sameOrigin⟩ | nowhere
  · rw [now] at member
    rw [← Option.some.inj member, metadata]
    exact first.found discovered was
  · rw [same] at member
    rw [sameOrigin] at known
    exact first.session session member known
  · rw [nowhere] at known
    cases known

end FirstGeneration

/-- No instance has left the first generation. -/
structure NeverBumped (state : ControlHistory) : Prop where
  server : state.server.generation = 1
  sessions : ∀ id, FirstGeneration (state.sessions id)

namespace NeverBumped

variable {state next : ControlHistory} {event : ControlEvent}

theorem launch (engine : BootstrappedEngine) (freeListHeaderAddr : ℕ) :
    NeverBumped (.launch engine freeListHeaderAddr) :=
  ⟨rfl, fun _ => .vacant⟩

theorem setSlot (never : NeverBumped state) {id : ℕ} {slot : SessionSlot} (first : FirstGeneration slot) :
    NeverBumped (state.setSlot id slot) := by
  refine ⟨never.server, fun other => ?_⟩
  dsimp only [ControlHistory.setSlot]
  split
  · exact first
  · exact never.sessions other

theorem step (never : NeverBumped state) (taken : state.step event = some next) : NeverBumped next := by
  cases event with
  | restart engine freeListHeaderAddr =>
    cases taken
    exact ⟨rfl, never.sessions⟩
  | call id call =>
    obtain ⟨slot, starts, rfl⟩ := Option.map_eq_some_iff.mp taken
    exact never.setSlot ((never.sessions id).start starts)
  | discover id =>
    obtain ⟨_, same⟩ := Option.ite_none_right_eq_some.mp taken
    cases same
    have first := never.sessions id
    refine never.setSlot ⟨first.session, fun found member => ?_, first.answer⟩
    cases member
    exact never.server
  | finish id discovered transport =>
    obtain ⟨slot, finishes, rfl⟩ := Option.map_eq_some_iff.mp taken
    exact never.setSlot ((never.sessions id).finish finishes)
  | invalidate id =>
    obtain ⟨_, mapped⟩ := Option.ite_none_left_eq_some.mp taken
    obtain ⟨session, _, rfl⟩ := Option.map_eq_some_iff.mp mapped
    have first := never.sessions id
    exact never.setSlot ⟨by simp, first.found, first.answer⟩
  | heartbeat id activeTs now =>
    obtain ⟨session, _, rfl⟩ := Option.map_eq_some_iff.mp taken
    have first := never.sessions id
    have answered : FirstGeneration { state.sessions id with
        answer := some ((state.server.heartbeat state.clients session.clientId activeTs now).2,
          state.instances) } := by
      refine ⟨first.session, first.found, fun answer member => ?_⟩
      cases member
      exact ⟨never.server, rfl⟩
    exact ⟨never.server, (@setSlot _ never id _ answered).sessions⟩
  | check id =>
    obtain ⟨_, same⟩ := Option.ite_none_right_eq_some.mp taken
    cases same
    have first := never.sessions id
    exact never.setSlot ⟨first.session, first.found, by simp⟩
  | deregister id =>
    obtain ⟨session, _, rfl⟩ := Option.map_eq_some_iff.mp taken
    exact ⟨never.server, never.sessions⟩

end NeverBumped

/-- Over every history, each check of an answer from a later instance than the cached metadata asks for a
reconnect exactly if there is no such check: none of them ever does. -/
theorem restart_is_noticed_iff (engine : BootstrappedEngine) (freeListHeaderAddr : ℕ)
    (events : List ControlEvent) :
    Throughout ControlHistory.step NoticesRestart (.launch engine freeListHeaderAddr) events ↔
      Throughout ControlHistory.step ChecksCurrentMetadata (.launch engine freeListHeaderAddr) events := by
  refine throughout_congr (fun {state event} never => ?_) (fun never _ taken => never.step taken)
    (NeverBumped.launch engine freeListHeaderAddr)
  refine forall_congr' fun id => imp_congr_right fun _ => ?_
  cases stale : (state.sessions id).stale with
  | false => simp
  | true => simp [(never.sessions id).reconnectNeeded_eq_false stale]

/-- A session connects, the server restarts, and the next heartbeat is answered by the new instance. -/
theorem restart_goes_unnoticed : ∃ state,
    run ControlHistory.step (.launch (.bootstrap 4 128 8 ⟨2, rfl⟩) 0)
        [.call 0 (.connect 7), .discover 0, .finish 0 true true,
          .restart (.bootstrap 8 256 8 ⟨3, rfl⟩) 64, .heartbeat 0 1 1] = some state ∧
      (state.sessions 0).stale = true ∧ (state.sessions 0).reconnectNeeded = false ∧
      (state.step (.check 0)).isSome = true :=
  ⟨_, rfl, rfl, rfl, rfl⟩

end Rdmas.Soundness
