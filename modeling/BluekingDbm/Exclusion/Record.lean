import Mathlib.Data.List.Dedup
import BluekingDbm.Library.Crew
import BluekingDbm.Ticket.Flow

/-! The operation records of clusters, from which it is decided whether a task may run on a cluster, and the
runs of tasks that check them and write them. -/
namespace Exclusion

open Program Ticket

/-- Tickets and flows are known by their ids. -/
structure Setting where
  exclusiveTicketMap : String → String → Option Bool
  ticketType : ℕ → String
  ticketClusterIds : ℕ → List ℕ
  flowTicket : ℕ → ℕ
  flowType : ℕ → FlowType
  flowClusterIds : ℕ → List ℕ
  autoRetry : ℕ → Bool

structure ClusterOperateRecord where
  id : ℕ
  clusterId : ℕ
  flowId : ℕ
  ticketId : ℕ
  unlockTicketTypeCondition : List String
deriving DecidableEq

/-- `passed` lists which worker has passed the check of which flow on which cluster, since that flow was
last taken up. It is there for the statements only. -/
structure Database where
  flowStatus : ℕ → TicketFlowStatus
  records : List ClusterOperateRecord
  passed : List (ℕ × ℕ × ℕ)

inductive Op
  | runStatus (flowId : ℕ)
  | otherChecks
  | hasExclusiveOperations (flowId clusterId : ℕ)
  | body
  | runError (flowId : ℕ)
  | filterRecords (ticketId : ℕ) (clusterIds : List ℕ)
  | bulkUpdate (ids : List ℕ) (flowId : ℕ)
  | bulkCreate (flowId ticketId : ℕ) (clusterIds : List ℕ)
  | report (flowId : ℕ) (state : StateType)
  | unlock (id : ℕ) (ticketTypes : List String)

abbrev Res : Op → Type
  | .runStatus _ => Unit
  | .otherChecks => Bool
  | .hasExclusiveOperations .. => List ClusterOperateRecord
  | .body => Bool
  | .runError _ => Unit
  | .filterRecords .. => List ClusterOperateRecord
  | .bulkUpdate .. => Unit
  | .bulkCreate .. => Unit
  | .report .. => Unit
  | .unlock .. => Unit

abbrev Act := Prog Res

variable (E : Setting)

/-- Types that the table does not know exclude each other. -/
def exclusive (ticketType active : String) : Bool := (E.exclusiveTicketMap ticketType active).getD true

def UnderWay (db : Database) (flowId : ℕ) : Prop := db.flowStatus flowId ∈ [.running, .failed]

instance (db : Database) (flowId : ℕ) : Decidable (UnderWay db flowId) :=
  inferInstanceAs (Decidable (_ ∈ _))

def Unlocks (record : ClusterOperateRecord) (ticketType : String) : Prop :=
  "*" ∈ record.unlockTicketTypeCondition ∨ ticketType ∈ record.unlockTicketTypeCondition

instance (record : ClusterOperateRecord) (ticketType : String) : Decidable (Unlocks record ticketType) :=
  inferInstanceAs (Decidable (_ ∨ _))

/-- `filter_inner_actives_with_lock`, leaving out one ticket. -/
def filterInnerActives (db : Database) (clusterId excludeTicketId : ℕ) : List ClusterOperateRecord :=
  db.records.filter fun record => decide (record.clusterId = clusterId ∧
    E.flowType record.flowId = .innerFlow ∧ UnderWay db record.flowId ∧
    E.flowTicket record.flowId ≠ excludeTicketId)

/-- `has_exclusive_operations_with_lock`. -/
def exclusiveInfos (db : Database) (flowId clusterId : ℕ) : List ClusterOperateRecord :=
  (filterInnerActives E db clusterId (E.flowTicket flowId)).filter fun record =>
    decide (¬ Unlocks record (E.ticketType (E.flowTicket flowId))) &&
      exclusive E (E.ticketType (E.flowTicket flowId)) (E.ticketType record.ticketId)

/-- A flow takes on a status. If it was not under way, what was checked before counts no more. -/
def Database.write (db : Database) (flowId : ℕ) (status : TicketFlowStatus) : Database where
  flowStatus := fun id => if id = flowId then status else db.flowStatus id
  records := db.records
  passed := if UnderWay db flowId then db.passed else db.passed.filter fun e => decide (e.2.1 ≠ flowId)

/-- `unlock_ticket_type_operations`. -/
def ClusterOperateRecord.unlock (record : ClusterOperateRecord) (ticketTypes : List String) :
    ClusterOperateRecord :=
  { record with unlockTicketTypeCondition :=
      if "*" ∈ ticketTypes then ["*"] else (record.unlockTicketTypeCondition ++ ticketTypes).dedup }

def newRecords (db : Database) (flowId ticketId : ℕ) (clusterIds : List ℕ) : List ClusterOperateRecord :=
  clusterIds.mapIdx fun i clusterId =>
    ⟨(db.records.map ClusterOperateRecord.id).foldr max 0 + 1 + i, clusterId, flowId, ticketId, []⟩

/-- One operation of the `w`-th worker. What the records do not decide is taken from `c`. A pipeline's
state is stored only for a flow that is under way. -/
def serve (w : ℕ) (c : (o : Op) → Res o) : (o : Op) → Database → Option (Res o × Database)
  | .runStatus flowId, db => some ((), db.write flowId .running)
  | .otherChecks, db => some (c .otherChecks, db)
  | .hasExclusiveOperations flowId clusterId, db =>
    let infos := exclusiveInfos E db flowId clusterId
    some (infos, if infos = [] then { db with passed := (w, flowId, clusterId) :: db.passed } else db)
  | .body, db => some (c .body, db)
  | .runError flowId, db =>
    let db := db.write flowId .failed
    some ((), { db with passed := db.passed.filter fun e => decide (¬ (e.1 = w ∧ e.2.1 = flowId)) })
  | .filterRecords ticketId clusterIds, db =>
    some (db.records.filter fun record =>
      decide (record.ticketId = ticketId ∧ record.clusterId ∈ clusterIds), db)
  | .bulkUpdate ids flowId, db => some ((), { db with
      records := db.records.map fun record =>
        if record.id ∈ ids then { record with flowId := flowId } else record })
  | .bulkCreate flowId ticketId clusterIds, db => some ((), { db with
      records := db.records ++ newRecords db flowId ticketId clusterIds })
  | .report flowId state, db =>
    some ((), if UnderWay db flowId then db.write flowId (bambooStateTicketState state) else db)
  | .unlock id ticketTypes, db => some ((), { db with
      records := db.records.map fun record => if record.id = id then record.unlock ticketTypes else record })

section Running

/-- `Cluster.handle_exclusive_operations`; false when it raises. -/
def handleExclusiveOperations (flowId : ℕ) : List ℕ → Act Bool
  | [] => return true
  | clusterId :: clusterIds => do
    let infos : List ClusterOperateRecord ← perform (Op.hasExclusiveOperations flowId clusterId)
    if infos = [] then handleExclusiveOperations flowId clusterIds else return false

/-- The clusters that the flow and its ticket name. -/
def recordedClusterIds (flowId : ℕ) : List ℕ :=
  (E.flowClusterIds flowId ++ E.ticketClusterIds (E.flowTicket flowId)).dedup

/-- `create_operate_records`, for clusters. -/
def createClusterOperateRecords (flowId : ℕ) : Act Unit :=
  if recordedClusterIds E flowId = [] then return ()
  else do
    let ticketId := E.flowTicket flowId
    let toUpdate : List ClusterOperateRecord ←
      perform (Op.filterRecords ticketId (recordedClusterIds E flowId))
    perform (Op.bulkUpdate (toUpdate.map ClusterOperateRecord.id) flowId)
    let recorded : List ClusterOperateRecord ←
      perform (Op.filterRecords ticketId (recordedClusterIds E flowId))
    perform (Op.bulkCreate flowId ticketId ((recordedClusterIds E flowId).filter fun clusterId =>
      decide (clusterId ∉ recorded.map ClusterOperateRecord.clusterId)))

/-- The end of a run that may not go on; it is run again by itself if the flow says so. -/
def exclusiveError (flowId : ℕ) : Act Unit := do
  perform (Op.runError flowId)
  if E.autoRetry flowId then perform (Op.runStatus flowId) else return ()

/-- `InnerFlow.run`, behind its gate. -/
def innerRun (flowId : ℕ) : Act Unit := do
  perform (Op.runStatus flowId)
  let clear : Bool ← perform Op.otherChecks
  if clear then
    let passed ← handleExclusiveOperations flowId (E.ticketClusterIds (E.flowTicket flowId))
    if passed then
      let done : Bool ← perform Op.body
      if done then createClusterOperateRecords E flowId else perform (Op.runError flowId)
    else exclusiveError E flowId
  else perform (Op.runError flowId)

/-- Runs and retries of flows, the pipelines that report, and tasks that unlock records. -/
inductive Call
  | run (flowId : ℕ)
  | report (flowId : ℕ) (state : StateType)
  | unlock (id : ℕ) (ticketTypes : List String)

def Call.act : Call → Act Unit
  | .run flowId => innerRun E flowId
  | .report flowId state => perform (Op.report flowId state)
  | .unlock id ticketTypes => perform (Op.unlock id ticketTypes)

end Running

abbrev Office := Crew Res Database

abbrev Event := Program.Event Call ((o : Op) → Res o)

def next (s : Office) (e : Event) : Option Office :=
  s.next (Call.act E) (serve E) (fun _ _ => []) e

end Exclusion
