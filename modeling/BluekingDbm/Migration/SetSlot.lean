import BluekingDbm.Library.Retry
import BluekingDbm.Migration.Cluster
import Mathlib.Data.List.Dedup
import Mathlib.Data.List.Sort

/-! Moving slots on tendisplus: the import command, the reports on it, and the second attempt. -/
namespace Migration

/-- The part of `cluster setslot info` that the destination is asked for. -/
structure ClusterSetSlotInfo where
  importingSlotList : List ℕ
  successImportSlotList : List ℕ
  failImportSlotList : List ℕ

inductive ImportStatus
  | importing
  | successImport
  | failImport
  | unknow
deriving DecidableEq

/-- Being imported comes first, success before failure. -/
def ClusterSetSlotInfo.status (info : ClusterSetSlotInfo) (slot : ℕ) : ImportStatus :=
  if slot ∈ info.importingSlotList then .importing
  else if slot ∈ info.successImportSlotList then .successImport
  else if slot ∈ info.failImportSlotList then .failImport
  else .unknow

/-- The slots of each status, in the order `importing, successImport, failImport, unknow`. -/
def ClusterSetSlotInfo.getDstRedisSlotsStatus (info : ClusterSetSlotInfo) (slotList : List ℕ) :
    List ℕ × List ℕ × List ℕ × List ℕ :=
  let having (status : ImportStatus) := slotList.filter fun slot => decide (info.status slot = status)
  (having .importing, having .successImport, having .failImport, having .unknow)

def intSliceInter (list01 list02 : List ℕ) : List ℕ :=
  (list01.dedup.filter fun item => decide (item ∈ list02)).insertionSort (· ≤ ·)

/-- A poll brings a report or an error. -/
abbrev Report := Except String ClusterSetSlotInfo

/-- What `confirmMigrateSlotsStatus` returns, and the reports that it got. -/
structure Confirmation where
  mySuccImport : List ℕ
  myFailImport : List ℕ
  err : Option String
  reports : List Report

def Confirmation.after (report : Report) (c : Confirmation) : Confirmation :=
  { c with reports := report :: c.reports }

def migrateFail : String := "migrate fail"

/-- The polls go on while slots are being imported, `timeLimit` of them at most. -/
def pollSlots (migrateSlots : List ℕ) :
    ℕ → (ℕ → Report) → List ℕ → List ℕ → Confirmation
  | 0, _, mySuccImport, myFailImport => ⟨mySuccImport, myFailImport, none, []⟩
  | timeLimit + 1, polls, mySuccImport, myFailImport =>
    match polls 0 with
    | .error err => ⟨mySuccImport, myFailImport, some err, [polls 0]⟩
    | .ok dstSetSlotInfo =>
      let (importing, successImport, failImport, _) :=
        dstSetSlotInfo.getDstRedisSlotsStatus migrateSlots
      let mySuccImport := intSliceInter migrateSlots successImport
      let myFailImport := intSliceInter migrateSlots failImport
      if importing.length > 0 then
        (pollSlots migrateSlots timeLimit (fun i => polls (i + 1)) mySuccImport myFailImport).after
          (polls 0)
      else if myFailImport.length > 0 then
        ⟨mySuccImport, myFailImport, some migrateFail, [polls 0]⟩
      else ⟨mySuccImport, myFailImport, none, [polls 0]⟩

/-- The timeout is in seconds, and there is a poll every 30 seconds. -/
def confirmMigrateSlotsStatus (migrateSlots : List ℕ) (timeout : ℕ) (polls : ℕ → Report) :
    Confirmation :=
  pollSlots migrateSlots (timeout / 30) polls [] []

/-- The reply to a command is a text or something else. -/
abbrev Reply := Except String (Option String)

/-- What the nodes answer, each list of replies in the order of the tries. -/
structure Replies where
  clusterNodes : Except String (List ClusterNodeData)
  masterNodes : Except String (List ClusterNodeData)
  dstCli : Except String Unit
  srcCli : Except String Unit
  srcSlaves : Except String Unit
  dstSlaves : Except String Unit
  importing : ℕ → Reply
  setSlotInfo : ℕ → Report
  newSrcNode : Except String Unit
  newDstNode : Except String Unit
  newSrcCli : Except String Unit
  newDstCli : Except String Unit
  restart : ℕ → Reply
  setSlotInfoAgain : ℕ → Report

/-- What `job.Err` says. -/
inductive JobErr
  | noTarget
  | sameAddr (addr : String)
  | notIncluded (srcAddr : String)
  | srcUnnormal (srcAddr : String) (failStatus : List String) (linkState : String)
  | dstUnnormal (srcAddr : String) (failStatus : List String) (linkState : String)
  | masterNotIncluded (masterAddr : String)
  | notMaster (masterAddr role : String)
  | notBelong (slots : List ℕ) (srcAddr : String)
  | getSlave (addr err : String)
  | alwaysFailed (err : String)
  | retryFail (err : String)
  | text (err : String)
deriving DecidableEq

def orText {α : Type} (reply : Except String α) (mkErr : String → JobErr) : Except JobErr α :=
  match reply with
  | .error err => .error (mkErr err)
  | .ok a => .ok a

def ClusterNodeData.unnormal (node : ClusterNodeData) : Bool :=
  decide (node.failStatus.length > 0 ∨ node.linkState ≠ redisLinkStateConnected)

/-- The slots that are not the master's. -/
def isSlotsBelongMaster (masterNodes : Except String (List ClusterNodeData)) (masterAddr : String)
    (slots : List ℕ) : Except JobErr (List ℕ) :=
  match masterNodes with
  | .error err => .error (.text err)
  | .ok clusterNodes =>
    match (getAddrMapToNodes clusterNodes).lookup masterAddr with
    | none => .error (.masterNotIncluded masterAddr)
    | some masterNode =>
      if masterNode.role ≠ redisMasterRole then .error (.notMaster masterAddr masterNode.role)
      else .ok (slots.filter fun slot => !masterNode.slotsMap slot)

/-- The checks that come before the import command. -/
def Replies.check (r : Replies) (srcAddr dstAddr : String) (slots : List ℕ) (migrateCount : ℕ) :
    Except JobErr Unit := do
  if slots.length = 0 ∧ migrateCount = 0 then
    throw .noTarget
  if srcAddr = dstAddr then
    throw (.sameAddr srcAddr)
  let clusterNodes ← orText r.clusterNodes .text
  let some srcNodeInfo := (getAddrMapToNodes clusterNodes).lookup srcAddr
    | throw (.notIncluded srcAddr)
  let some dstNodeInfo := (getAddrMapToNodes clusterNodes).lookup dstAddr
    | throw (.notIncluded srcAddr)
  if srcNodeInfo.unnormal then
    throw (.srcUnnormal srcAddr srcNodeInfo.failStatus srcNodeInfo.linkState)
  if dstNodeInfo.unnormal then
    throw (.dstUnnormal srcAddr dstNodeInfo.failStatus dstNodeInfo.linkState)
  let notBelongList ← isSlotsBelongMaster r.masterNodes srcAddr slots
  if notBelongList.length > 0 then
    throw (.notBelong notBelongList srcAddr)
  orText r.dstCli .text
  orText r.srcCli .text
  orText r.srcSlaves (.getSlave srcAddr)
  orText r.dstSlaves (.getSlave dstAddr)

/-- Errors that go away when the slots have been deleted; they are counted on their own. -/
def importLate (err : String) : Bool :=
  Text.contains err "slot in deleting" || Text.contains err "slot not empty"

def restartLate (err : String) : Bool :=
  Text.contains err "slot in deleting" || Text.contains err "slot not empty" ||
    Text.contains err "json contain err"

/-- How a function ends: whether it panics, the error that it leaves, and the reports that it got. -/
structure Ending (ε : Type) where
  panics : Bool
  err : Option ε
  reports : List Report

/-- How a command ends that was tried again and again. -/
inductive Sent
  | taken (taskID : String)
  | fails (err : String)
  | panics

/-- After the loop: an error counts if one of the counters is high enough, and the reply must be a text. -/
def sent (high : ℕ → ℕ → Bool) (tries : Retry.Tries String (Option String)) : Sent :=
  match tries.last with
  | some (.ok (some taskID)) => .taken taskID
  | some (.error err) => if high tries.others tries.lates then .fails err else .panics
  | some (.ok none) => .panics
  | none => .panics

def sendImporting (replies : ℕ → Reply) : Sent :=
  sent (fun others lates => decide (others ≥ 5 ∨ lates ≥ 30))
    (Retry.send importLate 6 301 replies ⟨1, 1, none⟩)

def sendRestart (replies : ℕ → Reply) : Sent :=
  sent (fun others lates => decide (others = 5 ∨ lates = 300))
    (Retry.send restartLate 5 300 replies ⟨0, 0, none⟩)

/-- The second attempt, against the masters of now. -/
def retryMigrateSpecSlots (r : Replies) (slots : List ℕ) (timeout : ℕ) : Ending String :=
  match (do r.newSrcNode; r.newDstNode; r.newSrcCli; r.newDstCli : Except String Unit) with
  | .error err => ⟨false, some err, []⟩
  | .ok () =>
    match sendRestart r.restart with
    | .panics => ⟨true, none, []⟩
    | .fails err => ⟨false, some err, []⟩
    | .taken _ =>
      let confirmation := confirmMigrateSlotsStatus slots timeout r.setSlotInfoAgain
      ⟨false, confirmation.err, confirmation.reports⟩

/-- `job.Err` stays as it was unless something is assigned to it. -/
def migrateSpecificSlots (r : Replies) (jobErr : Option JobErr) (srcAddr dstAddr : String)
    (slots : List ℕ) (timeout migrateCount : ℕ) : Ending JobErr :=
  match r.check srcAddr dstAddr slots migrateCount with
  | .error err => ⟨false, some err, []⟩
  | .ok () =>
    match sendImporting r.importing with
    | .panics => ⟨true, jobErr, []⟩
    | .fails err => ⟨false, some (.alwaysFailed err), []⟩
    | .taken _ =>
      let confirmation := confirmMigrateSlotsStatus slots timeout r.setSlotInfo
      if confirmation.err = some migrateFail then
        let retried := retryMigrateSpecSlots r slots timeout
        ⟨retried.panics,
          match retried.err with
          | some err => some (.retryFail err)
          | none => some (.text migrateFail),
          confirmation.reports ++ retried.reports⟩
      else ⟨false, jobErr, confirmation.reports⟩

end Migration
