import Rdmas.Model.Connector

/-! # Reports to the Director

`director.rs` of the connector crate, and what the `director` feature adds to the connector: the keys of a
set or delete batch are kept under its future id before the batch is processed, and `drain_completions`
spawns a report for each completion that has an entry. What is modelled is which calls are spawned, with
which keys; the requests they send, for those of the keys that have a chunk hash, are left out.
-/

namespace Rdmas.Model

open LittleEndian Function

/-- The identity a connector reports under. It goes into the requests only. -/
structure DirectorIntegration where
  nodeId : String
  tenantId : String
  modelName : String
  blockSize : BitVec 32
  cacheSalt : String
deriving DecidableEq, Repr

/-- A call that `drain_completions` spawns on the runtime of the Director. -/
inductive DirectorCall where
  | reportStore (keys : List Bytes)
  | reportRemove (keys : List Bytes)
deriving DecidableEq, Repr

/-- Keys by future id. -/
abbrev PendingKeys := ℕ → Option (List Bytes)

/-- The connector with its optional Director. -/
structure DirectedConnector where
  connector : RdmaNativeConnector
  director : Option DirectorIntegration
  pendingReports : PendingKeys
  pendingRemoves : PendingKeys

namespace DirectedConnector

def submitBatchSet (xxh64 : Xxh64) (directed : DirectedConnector) (keys mvs : List Bytes) (clock : ℕ → ℕ)
    (iterate : AccessOrder) : DirectedConnector × Option ℕ :=
  let futureId := directed.connector.nextId
  let pendingReports :=
    if directed.director.isSome then update directed.pendingReports futureId (some keys)
    else directed.pendingReports
  let (connector, returned) := directed.connector.submitBatchSet xxh64 keys mvs clock iterate
  ({ directed with connector, pendingReports }, returned)

def submitBatchDelete (xxh64 : Xxh64) (directed : DirectedConnector)
    (keys : List Bytes) : DirectedConnector × Option ℕ :=
  let futureId := directed.connector.nextId
  let pendingRemoves :=
    if directed.director.isSome then update directed.pendingRemoves futureId (some keys)
    else directed.pendingRemoves
  let (connector, returned) := directed.connector.submitBatchDelete xxh64 keys
  ({ directed with connector, pendingRemoves }, returned)

def submitBatchGet (xxh64 : Xxh64) (directed : DirectedConnector)
    (keys : List Bytes) : DirectedConnector × Option ℕ :=
  let (connector, returned) := directed.connector.submitBatchGet xxh64 keys
  ({ directed with connector }, returned)

def submitBatchExists (xxh64 : Xxh64) (directed : DirectedConnector)
    (keys : List Bytes) : DirectedConnector × Option ℕ :=
  let (connector, returned) := directed.connector.submitBatchExists xxh64 keys
  ({ directed with connector }, returned)

/-- One iteration of the reporting loop, with the calls it spawns under the id of the completion. -/
def reportCompletion (directed : DirectedConnector) (comp : Completion) :
    DirectedConnector × List (ℕ × DirectorCall) :=
  if comp.ok then
    let stores := (directed.pendingReports comp.futureId).toList.map DirectorCall.reportStore
    let removes := (directed.pendingRemoves comp.futureId).toList.map DirectorCall.reportRemove
    ({ directed with
        pendingReports := update directed.pendingReports comp.futureId none
        pendingRemoves := update directed.pendingRemoves comp.futureId none },
      (stores ++ removes).map fun call => (comp.futureId, call))
  else (directed, [])

/-- The reporting loop of `drain_completions`. -/
def reportCompletions (directed : DirectedConnector) :
    List Completion → DirectedConnector × List (ℕ × DirectorCall)
  | [] => (directed, [])
  | comp :: comps =>
      let (directed, calls) := directed.reportCompletion comp
      let (directed, more) := directed.reportCompletions comps
      (directed, calls ++ more)

/-- Take all completions, and spawn the reports that belong to them. -/
def drainCompletions (directed : DirectedConnector) :
    DirectedConnector × List (ℕ × DirectorCall) × List Completion :=
  let comps := directed.connector.completions
  let drained := { directed with connector := { directed.connector with completions := [] } }
  if directed.director.isSome then
    let (reported, calls) := drained.reportCompletions comps
    (reported, calls, comps)
  else (drained, [], comps)

end DirectedConnector

end Rdmas.Model
