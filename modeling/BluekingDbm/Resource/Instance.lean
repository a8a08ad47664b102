import BluekingDbm.Resource.Matching

/-! One resource request: the queues built from the pool, and the picker for each affinity. -/
namespace Resource

open Binary64 Text Loop

/-- What picking reads of a request. `resourcePriority` is what `setResourcePriority` gives a host: it
depends on the other fields of the request, on the host's disks and on the clock. -/
structure SearchContext where
  affinity : Affinity
  count : ℕ
  tolerance : ℚ
  currentHosts : List CurrentResource
  specialHostIds : List ℤ
  resourcePriority : TbRpDetail → ℤ

/-- The key of the queue that a host belongs to. -/
def queueKey (israndom : Bool) (ins : TbRpDetail) : String :=
  if israndom then random else ins.subZone

def TbRpDetail.instanceObject (ins : TbRpDetail) : InstanceObject where
  bkHostId := ins.bkHostID
  rackId := ins.rackID
  linkNetdeviceId := split ins.netDeviceID ','

/-- `PriorityP2`. -/
def priorityP2 : ℤ := 100

namespace SearchContext

variable (o : SearchContext) (insList : List TbRpDetail) (israndom : Bool)

/-- The queue entry of a host. -/
def element (ins : TbRpDetail) : Item where
  priority := o.resourcePriority ins +
    if !israndom && o.affinity ∈ [.sameSubzone, .sameSubzoneCrossSwtich] then
      insList.countP (fun other => other.netDeviceID = ins.netDeviceID) * priorityP2
    else 0
  value := ins.instanceObject

def queues : QueueMap String Item :=
  insList.foldl (fun result ins =>
    let key := queueKey israndom ins
    result.insert key ((result.lookup key).getD [] ++ [o.element insList israndom ins])) ∅

def subZonePrioritySums : AList fun _ : String => ℤ :=
  if israndom then ∅
  else
    insList.foldl (fun sums ins =>
      sums.insert ins.subZone
        ((sums.lookup ins.subZone).getD 0 + (o.element insList israndom ins).priority)) ∅

/-- Two items of one queue have the same key. -/
def pushFails : Bool :=
  (o.queues insList israndom).entries.any fun e => ¬ (e.2.map fun item => item.value.bkHostId).Nodup

/-- `AnalysisResourcePriority`: no queues at all where a push fails. -/
def analysisResourcePriority :
    QueueMap String Item × (AList fun _ : String => ℤ) × Option String :=
  if o.pushFails insList israndom then
    (∅, o.subZonePrioritySums insList israndom, some "duplicate item")
  else (o.queues insList israndom, o.subZonePrioritySums insList israndom, none)

/-- The picker with the queues of the analysis, and its error. -/
def analyse (picker : PickerObject) : Option String × PickerObject :=
  let (priorityElements, subZonePrioritySumMap, err) := o.analysisResourcePriority insList israndom
  (err, { picker with priorityElements, subZonePrioritySumMap })

variable (rt : Runtime) (fuel : ℕ)

/-- The passes of `MAX_EACH_ZONE_EQUAL`, each over queues built anew. -/
def maxEachZonePasses : List (Bool × Bool) → PickerObject → Outcome (Option String × PickerObject)
  | [], picker => .returned (none, picker)
  | (crossSubzone, crossSwitch) :: passes, picker =>
    match o.analyse insList false picker with
    | (some err, picker) => .returned (some err, picker)
    | (none, picker) =>
      (picker.pickerCrossSubzone rt fuel crossSubzone crossSwitch).bind fun picker =>
        if picker.pickerDone then .returned (none, picker) else maxEachZonePasses passes picker

/-- `PickInstanceBase`, with the error it returns. -/
def pickInstanceBase (picker : PickerObject) : Outcome (Option String × PickerObject) :=
  let picker := { picker with affinity := o.affinity }
  if o.specialHostIds.isEmpty then
    match o.affinity with
    | .none =>
      let (err, picker) := o.analyse insList true picker
      (picker.pickerRandom rt fuel).bind fun picker => .returned (err, picker)
    | .crosSubzone =>
      let picker := picker.initToleranceConfig o.tolerance o.currentHosts o.count
      let (err, picker) := o.analyse insList false picker
      (picker.pickerCrossSubzone rt fuel true false).bind fun picker => .returned (err, picker)
    | .maxEachZoneEqual =>
      o.maxEachZonePasses insList rt fuel [(true, false), (false, true), (false, false)] picker
    | .sameSubzone =>
      let picker := picker.initRackToleranceConfig o.tolerance o.currentHosts o.count
      let (err, picker) := o.analyse insList false picker
      (picker.pickerSameSubZone rt fuel false).bind fun picker => .returned (err, picker)
    | .sameSubzoneCrossSwtich =>
      let picker := picker.initRackToleranceConfig o.tolerance o.currentHosts o.count
      let (err, picker) := o.analyse insList false picker
      (picker.pickerSameSubZone rt fuel true).bind fun picker => .returned (err, picker)
    | .crossRack =>
      let picker := picker.initRackToleranceConfig o.tolerance o.currentHosts o.count
      let picker := picker.initRackForCrossRack o.currentHosts
      let (err, picker) := o.analyse insList true picker
      (picker.pickerSameSubZone rt fuel true).bind fun picker => .returned (err, picker)
    | .majorityElectionDistri =>
      let picker := picker.initToleranceConfig o.tolerance o.currentHosts o.count
      let (err, picker) := o.analyse insList false picker
      (picker.pickerMajorityElectionCrossSubzone rt fuel).bind fun picker => .returned (err, picker)
    | .crossSubzoneStrong =>
      let picker := picker.initDualToleranceConfig o.currentHosts o.count (rounded (1 / 3)) (1 / 2)
      match o.analyse insList false picker with
      | (some err, picker) => .returned (some err, picker)
      | (none, picker) =>
        (picker.pickerCrossSubzoneWithRackTolerance rt fuel).bind fun picker =>
          .returned (none, picker)
    | .crossSubzoneWeak =>
      let picker := picker.initDualToleranceConfig o.currentHosts o.count (1 / 2) (1 / 2)
      match o.analyse insList false picker with
      | (some err, picker) => .returned (some err, picker)
      | (none, picker) =>
        (picker.pickerCrossSubzoneWithRackTolerance rt fuel).bind fun picker =>
          .returned (none, picker)
  else
    .returned (none, { picker with
      satisfiedHostIds := picker.satisfiedHostIds ++
        (insList.filter fun v => v.bkHostID ∈ o.specialHostIds).map TbRpDetail.bkHostID
      count := o.specialHostIds.length })

end SearchContext

end Resource
