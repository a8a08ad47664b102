import BluekingDbm.Library.Program
import BluekingDbm.Resource.Instance
import BluekingDbm.Resource.Store

/-! Applying for hosts, as a program that calls the database and, for the cities of a location, the bk-dbm
api. A host is looked for in what the table holds at one moment, and taken by a statement of its own. -/
namespace Resource

open Loop Program Text

structure LocationSpec where
  city : String
  subZoneIds : List String
  includeOrExclude : Option Bool
  excludeSubZoneIds : List String
  excludeRackIds : List String
  excludeNetDeviceIds : List String

namespace LocationSpec

variable (l : LocationSpec)

def isEmpty : Bool := Text.isEmpty l.city

def subZoneIsEmpty : Bool := l.isEmpty || l.subZoneIds.isEmpty

def isExclude : Bool := l.includeOrExclude = some false

end LocationSpec

structure MeasureRange where
  min : ℤ
  max : ℤ

def MeasureRange.legal (m : MeasureRange) : Bool :=
  if 0 < m.max ∧ 0 < m.min then m.min ≤ m.max else true

/-- One group of a request. `suits` is what its business, resource type, operating system, labels, disks
with a mount point and machine spec ask of a host, `fitsDisks` what its disks without a mount point
ask, and `resourcePriority` the priority they give it. -/
structure ObjectDetail where
  bkCloudId : ℤ
  hosts : List ℤ
  groupMark : String
  deviceClass : List String
  cpu : MeasureRange
  mem : MeasureRange
  storageSpecs : List MeasureRange
  locationSpec : LocationSpec
  tolerance : ℚ
  currentHosts : List CurrentResource
  affinity : Affinity
  count : ℕ
  suits : Machine → Bool
  fitsDisks : Option (Machine → Bool)
  resourcePriority : TbRpDetail → ℤ
  count_pos : 0 < count

structure RequestInputParam where
  resourceType : String
  dryRun : Bool
  details : List ObjectDetail
  groupsInSameLocation : Bool
  details_ne_nil : details ≠ []

inductive ParamError
  | storage
  | cpu
  | mem
  | city
  | subZones
  | tolerance
  deriving DecidableEq

/-- What ends a request without hosts, with the group it ends at. -/
inductive ApplyError
  | param (err : ParamError)
  | resourceLock
  | idcCitys
  | dbQuery
  | noCampus
  | pickCheck (groupMark : String)
  | emptyMountDisk (groupMark : String)
  | queue (err : String)
  | affinity (groupMark : String)
  | preselect (groupMark : String)
  | lockReturn
  deriving DecidableEq

section ParamCheck

def ObjectDetail.checkLocation (a : ObjectDetail) (atLeast : ℕ) : Option ParamError :=
  if a.locationSpec.isEmpty then some .city
  else if !a.locationSpec.isExclude && 0 < a.locationSpec.subZoneIds.length &&
      a.locationSpec.subZoneIds.length < atLeast then some .subZones
  else none

def ObjectDetail.checkTolerance (a : ObjectDetail) : Option ParamError :=
  if a.tolerance < 0 ∨ 1 < a.tolerance then some .tolerance else none

def ObjectDetail.check (a : ObjectDetail) : Option ParamError :=
  if a.storageSpecs.any fun d => 0 < d.max && d.max < d.min then some .storage
  else if !a.cpu.legal then some .cpu
  else if !a.mem.legal then some .mem
  else if a.count ≤ 1 then none
  else
    match a.affinity with
    | .sameSubzone | .sameSubzoneCrossSwtich => (a.checkLocation 0).or a.checkTolerance
    | .crosSubzone =>
      ((a.checkLocation 2).or a.checkTolerance).or <|
        -- with tolerance 0 every host stands in a sub-zone of its own
        if a.tolerance = 0 then a.checkLocation (a.count + a.currentHosts.length) else none
    | .crossSubzoneStrong => a.checkLocation 3
    | .crossSubzoneWeak => a.checkLocation 2
    | .none | .maxEachZoneEqual | .crossRack | .majorityElectionDistri => none

def RequestInputParam.paramCheck (param : RequestInputParam) : Option ParamError :=
  param.details.findSome? ObjectDetail.check

end ParamCheck

/-- The orders in which a queue may give out details of one priority. -/
structure DetailOrder where
  order : List ObjectDetail → List ObjectDetail
  perm : ∀ l, (order l).Perm l

def ObjectDetail.priority (a : ObjectDetail) : ℕ :=
  a.storageSpecs.length +
    (if a.locationSpec.isEmpty then 0 else if a.locationSpec.subZoneIsEmpty then 1 else 2) +
    (if a.deviceClass.isEmpty then 0 else 1) + (if 1 < a.count then a.count else 0)

namespace RequestInputParam

variable (param : RequestInputParam)

def sortDetails (o : DetailOrder) : List ObjectDetail :=
  if param.details.length = 1 then param.details
  else (o.order param.details).insertionSort fun a b => b.priority ≤ a.priority

def getAllAffinities : List Affinity := (param.details.map ObjectDetail.affinity).eraseDups

/-- The location of the first detail. -/
def specialSubZoneIds : List String × Bool :=
  let d := param.details.head param.details_ne_nil
  (d.locationSpec.subZoneIds, d.locationSpec.isExclude)

def lockKey : String :=
  if Text.isEmpty param.resourceType then "dbrms:lock:global"
  else "dbrms:lock:" ++
    if param.resourceType = "tendbcluster" then "mysql" else param.resourceType

end RequestInputParam

/-- The search for the hosts of one group. -/
structure Search where
  detail : ObjectDetail
  idcCitys : List String
  specialSubZoneIds : List String

namespace Search

variable (o : Search)

/-- What the picker reads. -/
def searchContext : SearchContext where
  affinity := o.detail.affinity
  count := o.detail.count
  tolerance := o.detail.tolerance
  currentHosts := o.detail.currentHosts
  specialHostIds := o.detail.hosts
  resourcePriority := o.detail.resourcePriority

/-- `MatchLocationSpec`. -/
def matchLocationSpec (r : Row) : Bool :=
  let l := o.detail.locationSpec
  if l.isEmpty then true
  else
    (if o.idcCitys.isEmpty then r.city = l.city else r.city ∈ o.idcCitys) &&
    if l.subZoneIsEmpty then o.specialSubZoneIds.isEmpty || r.subZoneID ∈ o.specialSubZoneIds
    else
      (if l.isExclude then r.subZoneID ∉ l.subZoneIds else r.subZoneID ∈ l.subZoneIds) &&
      (l.excludeSubZoneIds.isEmpty || r.subZoneID ∉ l.excludeSubZoneIds) &&
      (l.excludeRackIds.isEmpty || r.rackID ∉ l.excludeRackIds) &&
      (l.excludeNetDeviceIds.isEmpty || r.netDeviceID ∉ l.excludeNetDeviceIds)

/-- The step of `matchSteps` that some affinities add. -/
def matchAffinity (r : Row) : Bool :=
  match o.detail.affinity with
  | .sameSubzoneCrossSwtich => r.netDeviceID ≠ "" && r.rackID ≠ ""
  | .crossRack | .crossSubzoneStrong | .crossSubzoneWeak => r.rackID ≠ ""
  | .none | .crosSubzone | .maxEachZoneEqual | .sameSubzone | .majorityElectionDistri => true

/-- `pickBase`: designated hosts are only asked to be unused and alive. -/
def pickBase (r : Row) : Bool :=
  if o.detail.hosts.isEmpty then
    (r.bkCloudID = o.detail.bkCloudId && r.status = .unused && r.gseAlive) && o.detail.suits r.toMachine &&
      o.matchLocationSpec r && o.matchAffinity r
  else r.matched o.detail.hosts .unused && r.gseAlive

/-- Whether `PickCheck` passes. -/
def checked (t : Table) : Bool :=
  if o.detail.hosts.isEmpty then o.detail.count ≤ t.countP o.pickBase
  else (t.countP fun r => r.matched o.detail.hosts .unused && r.bkCloudID = o.detail.bkCloudId) =
    o.detail.hosts.length

/-- The rows that are picked from: none where no host has the disks. -/
def candidates (t : Table) : Option (List Row) :=
  let items := t.filter o.pickBase
  match o.detail.fitsDisks with
  | some fits =>
    if o.detail.hosts.isEmpty then
      let ts := items.filter fun r => fits r.toMachine
      if ts.isEmpty then none else some ts
    else some items
  | none => some items

/-- The picker run on the candidates, for more turns than any run that ends. -/
def pick (rt : Runtime) (items : List Row) : Outcome (Option String × PickerObject) :=
  o.searchContext.pickInstanceBase (items.map fun r => r.toTbRpDetail) rt (3 * items.length + 1)
    (newPicker o.detail.count)

end Search

/-! The calls of a request. -/

/-- `hang` is the call of a request that waits for ever. -/
inductive Op
  | detailOrder
  | campusOrder
  | pickOrder (attempt group : ℕ)
  | hang
  | lock (key : String)
  | getIdcCityByLogicCity (city : String)
  | select
  | preselect (ids : List ℤ)
  | rollback (ids : List ℤ)
  | commit (elements : List BatchGetTbDetail) (mode : Mode)
  | sendLog (data : List BatchGetTbDetailResult)
  | countLog (requestId : String)
  | markUsed (ids : List ℤ)

/-- Statements that may fail answer none or false. -/
def Op.Res : Op → Type
  | .detailOrder => DetailOrder
  | .campusOrder => Runtime
  | .pickOrder _ _ => Runtime
  | .hang => Empty
  | .lock _ => Bool
  | .getIdcCityByLogicCity _ => Option (List String)
  | .select => Option Table
  | .preselect _ => Option ℕ
  | .rollback _ => Unit
  | .commit _ _ => Option (List BatchGetTbDetailResult)
  | .sendLog _ => Unit
  | .countLog _ => Option ℕ
  | .markUsed _ => Bool

abbrev Handler (α : Type) := Prog Op.Res α

def detailOrder : Handler DetailOrder := perform Op.detailOrder
def campusOrder : Handler Runtime := perform Op.campusOrder
def pickOrder (attempt group : ℕ) : Handler Runtime := perform (Op.pickOrder attempt group)
def hang {α : Type} : Handler α := .call .hang Empty.elim
def lock (key : String) : Handler Bool := perform (Op.lock key)
def getIdcCityByLogicCity (city : String) : Handler (Option (List String)) :=
  perform (Op.getIdcCityByLogicCity city)
def select : Handler (Option Table) := perform Op.select
def preselect (ids : List ℤ) : Handler (Option ℕ) := perform (Op.preselect ids)
def rollback (ids : List ℤ) : Handler Unit := perform (Op.rollback ids)
def commit (elements : List BatchGetTbDetail) (mode : Mode) :
    Handler (Option (List BatchGetTbDetailResult)) := perform (Op.commit elements mode)
def sendLog (data : List BatchGetTbDetailResult) : Handler Unit := perform (Op.sendLog data)
def countLog (requestId : String) : Handler (Option ℕ) := perform (Op.countLog requestId)
def updateUsed (ids : List ℤ) : Handler Bool := perform (Op.markUsed ids)

/-- What of a picker is left for preselecting, delivering and rolling back. -/
structure Picked where
  item : String
  satisfiedHostIds : List ℤ
  deriving DecidableEq

/-- `PickCheck`. -/
def pickCheck (o : Search) : Handler (Option ApplyError) := do
  match ← select with
  | none => pure (some .dbQuery)
  | some t => pure (if o.checked t then none else some (.pickCheck o.detail.groupMark))

/-- `PickInstance`. -/
def pickInstance (o : Search) (attempt group : ℕ) : Handler (Except ApplyError Picked) := do
  match ← select with
  | none => pure (.error .dbQuery)
  | some t =>
    match o.candidates t with
    | none => pure (.error (.emptyMountDisk o.detail.groupMark))
    | some items =>
      let rt ← pickOrder attempt group
      match o.pick rt items with
      | .returned (some err, _) => pure (.error (.queue err))
      | .returned (none, picker) =>
        if picker.pickerDone then pure (.ok ⟨o.detail.groupMark, picker.satisfiedHostIds⟩)
        else pure (.error (.affinity o.detail.groupMark))
      | .blocked => hang
      | .outOfFuel => hang

/-- `PreselectedSatisfiedInstance`. -/
def preselectedSatisfiedInstance (picker : Picked) : Handler (Option ApplyError) := do
  match ← preselect picker.satisfiedHostIds with
  | none => pure (some (.preselect picker.item))
  | some affectRows =>
    pure (if affectRows = picker.satisfiedHostIds.length then none else some (.preselect picker.item))

def rollBackAllInstanceUnused : List Picked → Handler Unit
  | [] => pure ()
  | m :: ms => do
    rollback m.satisfiedHostIds
    rollBackAllInstanceUnused ms

/-- One group: checked, picked and preselected. -/
def applyGroup (o : Search) (attempt group : ℕ) : Handler (Except ApplyError Picked) := do
  match ← pickCheck o with
  | some err => pure (.error err)
  | none =>
    match ← pickInstance o attempt group with
    | .error err => pure (.error err)
    | .ok picker =>
      match ← preselectedSatisfiedInstance picker with
      | some err => pure (.error err)
      | none => pure (.ok picker)

/-- One group after the other, with the pickers that were preselected as a whole. -/
def applyGroups (search : ObjectDetail → Handler (Except ApplyError Search)) (attempt : ℕ) :
    ℕ → List ObjectDetail → List Picked → Handler (List Picked × Option ApplyError)
  | _, [], pickers => pure (pickers, none)
  | group, v :: resourceReqList, pickers => do
    match ← search v with
    | .error err => pure (pickers, some err)
    | .ok s =>
      match ← applyGroup s attempt group with
      | .error err => pure (pickers, some err)
      | .ok picker =>
        applyGroups search attempt (group + 1) resourceReqList (pickers ++ [picker])

def getLogicIdcCitys (runMode : String) (v : ObjectDetail) : Handler (Option (List String)) :=
  if runMode = "dev" then pure (some [])
  else if v.affinity ∉ [.crossRack, .none, .crossSubzoneStrong, .crossSubzoneWeak] ||
      v.locationSpec.city ≠ "" || !v.hosts.isEmpty then
    getIdcCityByLogicCity v.locationSpec.city
  else pure (some [])

/-- `cycleApplySequential`. -/
def cycleApplySequential (runMode : String) (param : RequestInputParam) :
    Handler (List Picked × Option ApplyError) := do
  let order ← detailOrder
  let search (v : ObjectDetail) : Handler (Except ApplyError Search) := do
    match ← getLogicIdcCitys runMode v with
    | none => pure (.error .idcCitys)
    | some idcCitys => pure (.ok ⟨v, idcCitys, []⟩)
  applyGroups search 0 0 (param.sortDetails order) []

/-! The sub-zones that all groups may be placed in. -/

structure CampusNice where
  campus : String
  count : ℕ

/-- `PriorityP3`. -/
def priorityP3 : ℕ := 10

/-- The sub-zones in which a group finds enough hosts, racks and net devices. -/
def campusNice (v : ObjectDetail) (items : List Row) : List CampusNice :=
  (items.map fun r => r.subZoneID).dedup.filterMap fun campus =>
    let here := items.filter fun r => r.subZoneID = campus
    let count := here.length
    let equipments := (here.map fun r => r.rackID).dedup.length
    let linkNetdevices := (here.flatMap fun r => split r.netDeviceID ',').dedup.length
    if v.count ≤ count ∧ v.count ≤ equipments ∧ v.count ≤ linkNetdevices then
      some ⟨campus, count + equipments * (1 + priorityP3) + linkNetdevices * (priorityP3 + 1)⟩
    else none

/-- `getGroupcampusNice`; a group replaces an earlier one of the same mark. -/
def getGroupcampusNice (idcCitys : List String) :
    List ObjectDetail → List (String × List CampusNice) →
      Handler (Option (List (String × List CampusNice)))
  | [], groupcampusNice => pure (some groupcampusNice)
  | v :: resourceReqList, groupcampusNice => do
    match ← select with
    | none => pure none
    | some t =>
      let nice := campusNice v (t.filter (Search.mk v idcCitys []).pickBase)
      getGroupcampusNice idcCitys resourceReqList
        ((groupcampusNice.filter fun g => g.1 ≠ v.groupMark) ++ [(v.groupMark, nice)])

def sortgroupcampusNice (rt : Runtime) (gpms : List (String × List CampusNice)) : List String :=
  let cns := gpms.flatMap Prod.snd
  let total (campus : String) : ℕ :=
    ((cns.filter fun cn => cn.campus = campus).map CampusNice.count).sum
  (rt.names 0 (cns.map CampusNice.campus).dedup).insertionSort fun p q => total q ≤ total p

/-- The sub-zones in the order in which they are tried. -/
def candidateSubZones (param : RequestInputParam) (resourceReqList : List ObjectDetail)
    (idcCitys : List String) : Handler (Option (List String)) := do
  let (specialSubZoneIds, isExclude) := param.specialSubZoneIds
  if !isExclude && !specialSubZoneIds.isEmpty then pure (some specialSubZoneIds)
  else
    match ← getGroupcampusNice idcCitys resourceReqList [] with
    | none => pure none
    | some groupcampusNice =>
      let rt ← campusOrder
      let nsubzoneIds := sortgroupcampusNice rt groupcampusNice
      pure (some (if isExclude && !specialSubZoneIds.isEmpty then
        nsubzoneIds.filter fun z => z ∉ specialSubZoneIds else nsubzoneIds))

/-- All groups in one sub-zone after the other. The pickers of the last one are returned with its
error, though they have been rolled back. -/
def trySubZones (resourceReqList : List ObjectDetail) (idcCitys : List String) :
    ℕ → String → List String → Handler (List Picked × Option ApplyError)
  | attempt, subzoneId, subzoneIds => do
    let (pickers, err) ←
      applyGroups (fun v => pure (.ok ⟨v, idcCitys, [subzoneId]⟩)) attempt 0 resourceReqList []
    match err with
    | none => pure (pickers, none)
    | some err =>
      rollBackAllInstanceUnused pickers
      match subzoneIds with
      | [] => pure (pickers, some err)
      | next :: subzoneIds => trySubZones resourceReqList idcCitys (attempt + 1) next subzoneIds

/-- `applyGroupsInSameLocation`. -/
def applyGroupsInSameLocation (runMode : String) (param : RequestInputParam) :
    Handler (List Picked × Option ApplyError) := do
  let order ← detailOrder
  match param.sortDetails order with
  | [] => pure ([], none)
  | v :: vs =>
    match ← getLogicIdcCitys runMode v with
    | none => pure ([], some .idcCitys)
    | some idcCitys =>
      match ← candidateSubZones param (v :: vs) idcCitys with
      | none => pure ([], some .dbQuery)
      | some [] => pure ([], some .noCampus)
      | some (subzoneId :: subzoneIds) => trySubZones (v :: vs) idcCitys 0 subzoneId subzoneIds

/-- Whether `CycleApply` keeps the groups together. -/
def RequestInputParam.sameLocation (param : RequestInputParam) : Bool :=
  param.groupsInSameLocation && 1 < param.details.length &&
    (param.getAllAffinities = [.sameSubzone] || param.getAllAffinities = [.sameSubzoneCrossSwtich])

def cycleApply (runMode : String) (param : RequestInputParam) :
    Handler (List Picked × Option ApplyError) :=
  if param.sameLocation then applyGroupsInSameLocation runMode param
  else cycleApplySequential runMode param

/-! The requests. -/

inductive ConfirmError
  | dbQuery
  | count (listed found : ℕ)
  | abnormal (rows : List Row)
  | retriesExceeded

inductive Reply
  | refused (err : ApplyError)
  | checkSuccess
  | delivered (data : List BatchGetTbDetailResult)
  | confirmed
  | notConfirmed (err : ConfirmError)

/-- `LockReturnPickers`. -/
def lockReturnPickers (elements : List Picked) (mode : Mode) :
    Handler (Option (List BatchGetTbDetailResult)) :=
  commit (elements.map fun v => ⟨v.item, v.satisfiedHostIds⟩) mode

/-- A dry run needs no lock. -/
def obtainLock (param : RequestInputParam) : Handler Bool :=
  if param.dryRun then pure true else lock param.lockKey

/-- `ApplyBase`, with the deferred rollback where it returns with an error. -/
def applyBase (runMode : String) (param : RequestInputParam) (mode : Mode) : Handler Reply := do
  match param.paramCheck with
  | some err => pure (.refused (.param err))
  | none =>
    if !(← obtainLock param) then pure (.refused .resourceLock)
    else
      let (pickers, err) ← cycleApply runMode param
      match err with
      | some err =>
        rollBackAllInstanceUnused pickers
        pure (.refused err)
      | none =>
        if param.dryRun then pure .checkSuccess
        else
          match ← lockReturnPickers pickers mode with
          | none =>
            rollBackAllInstanceUnused pickers
            pure (.refused .lockReturn)
          | some data =>
            sendLog data
            pure (.delivered data)

structure ConfirmApplyParam where
  requestId : String
  hostIds : List ℤ
  hostIds_ne_nil : hostIds ≠ []

/-- `cmutil.Retry`. -/
def retry (f : Handler Bool) : ℕ → Handler Bool
  | 0 => pure false
  | times + 1 => do
    if ← f then pure true else retry f times

/-- `ConfirmApply`. -/
def confirmApply (param : ConfirmApplyParam) : Handler Reply := do
  let hostIds := param.hostIds.dedup
  match ← countLog param.requestId with
  | none => pure (.notConfirmed .dbQuery)
  | some cnt =>
    if hostIds.length ≠ cnt then pure (.notConfirmed (.count hostIds.length cnt))
    else
      match ← select with
      | none => pure (.notConfirmed .dbQuery)
      | some t =>
        let rs := t.filter fun r => r.listed hostIds && r.status ≠ .prepoccupied
        if !rs.isEmpty then pure (.notConfirmed (.abnormal rs))
        else if ← retry (updateUsed hostIds) 3 then pure .confirmed
        else pure (.notConfirmed .retriesExceeded)

end Resource
