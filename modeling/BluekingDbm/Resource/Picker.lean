import Mathlib.Data.List.Dedup
import Mathlib.Data.List.Sort
import BluekingDbm.Library.Binary
import BluekingDbm.Library.Text
import BluekingDbm.Library.QueueMap

/-! The resource picker: its counters and limits, the checks on one host, and the orders in which
sub-zones and racks are tried. -/
namespace Resource

open Binary64 Text

/-- A host of the pool, with the columns that picking reads. -/
structure TbRpDetail where
  bkHostID : ℤ
  subZone : String
  rackID : String
  netDeviceID : String
  deriving DecidableEq

/-- A host that the cluster already has. -/
structure CurrentResource where
  bkHostId : ℤ
  subZone : String
  rackId : String

structure InstanceObject where
  bkHostId : ℤ
  rackId : String
  linkNetdeviceId : List String
  deriving DecidableEq

/-- An entry of a priority queue. Its key is the decimal text of the host id. -/
structure Item where
  priority : ℤ
  value : InstanceObject
  deriving DecidableEq

inductive Affinity
  | none
  | crosSubzone
  | maxEachZoneEqual
  | sameSubzone
  | sameSubzoneCrossSwtich
  | crossRack
  | majorityElectionDistri
  | crossSubzoneStrong
  | crossSubzoneWeak
  deriving DecidableEq

/-- What Go leaves open: the order in which a map is ranged over, where an unstable sort puts equal
elements, and which of several equal priorities a heap pops. The `n`-th such choice is a
permutation. -/
structure Runtime where
  names : ℕ → List String → List String
  items : ℕ → List Item → List Item
  names_perm : ∀ n l, (names n l).Perm l
  items_perm : ∀ n l, (items n l).Perm l

/-- A runtime that leaves everything in its place. -/
def Runtime.still : Runtime where
  names _ l := l
  items _ l := l
  names_perm _ _ := .refl _
  items_perm _ _ := .refl _

/-- Maps from names to numbers read 0 where nothing is stored. A queue is kept as the list of its
items in no order. `draws` numbers the choices that were left to the runtime. -/
structure PickerObject where
  count : ℕ
  affinity : Affinity
  pickDistribute : String → ℕ
  existSubZone : List String
  satisfiedHostIds : List ℤ
  satisfiedHostIdsMap : String → List ℤ
  priorityElements : QueueMap String Item
  subZonePrioritySumMap : AList fun _ : String => ℤ
  existRackIds : List String
  existLinkNetdeviceIds : List String
  tolerance : ℚ
  currentHostsBySubZone : String → ℕ
  totalCount : ℕ
  maxPerSubZone : ℤ
  rackTolerance : ℚ
  currentHostsByRack : String → ℕ
  maxPerRack : ℤ
  rackDistribute : String → ℕ
  rackIdsBySubZone : String → List String
  draws : ℕ

def newPicker (count : ℕ) : PickerObject where
  count := count
  affinity := .none
  pickDistribute := fun _ => 0
  existSubZone := []
  satisfiedHostIds := []
  satisfiedHostIdsMap := fun _ => []
  priorityElements := ∅
  subZonePrioritySumMap := ∅
  existRackIds := []
  existLinkNetdeviceIds := []
  tolerance := -1
  currentHostsBySubZone := fun _ => 0
  totalCount := count
  maxPerSubZone := 0
  rackTolerance := -1
  currentHostsByRack := fun _ => 0
  maxPerRack := 0
  rackDistribute := fun _ => 0
  rackIdsBySubZone := fun _ => []
  draws := 0

/-- The one key of the queues when sub-zones do not matter. -/
def random : String := "RANDOM"

def buildRackKey (subZone rackId : String) : String := subZone ++ "-" ++ rackId

/-- `m[k]++`. -/
def bump (m : String → ℕ) (k : String) : String → ℕ := Function.update m k (m k + 1)

/-- How many machines one place may hold: a tolerance of 0 allows one, any other is a share of the
total, rounded up. -/
def maxTolerated (total : ℤ) (tolerance : ℚ) : ℤ :=
  if tolerance = 0 then 1 else ⌈rounded (total * tolerance)⌉

namespace PickerObject

variable (c : PickerObject)

def pickerDone : Bool := c.satisfiedHostIds.length = c.count

section Init

variable (tolerance : ℚ) (currentHosts : List CurrentResource) (requestCount : ℕ)

/-- `InitToleranceConfig`. -/
def initToleranceConfig : PickerObject :=
  { c with
    tolerance
    currentHostsBySubZone := fun z => currentHosts.countP fun host => trimSpace host.subZone = z
    rackIdsBySubZone := fun z =>
      (currentHosts.filter fun host =>
        trimSpace host.subZone = z && !isEmpty host.rackId).map CurrentResource.rackId
    totalCount := currentHosts.length + requestCount
    maxPerSubZone := maxTolerated (currentHosts.length + requestCount) tolerance }

/-- `InitRackToleranceConfig`: the sub-zone of a current host is not trimmed here. -/
def initRackToleranceConfig : PickerObject :=
  { c with
    tolerance
    rackTolerance := tolerance
    currentHostsByRack := fun key => currentHosts.countP fun host =>
      host.rackId ≠ "" && buildRackKey host.subZone host.rackId = key
    rackDistribute := fun _ => 0
    totalCount := currentHosts.length + requestCount
    maxPerRack := maxTolerated (currentHosts.length + requestCount) tolerance }

/-- `InitRackForCrossRack`: each current host is counted as existing and as distributed. -/
def initRackForCrossRack : PickerObject :=
  let existing := fun key => currentHosts.countP fun host =>
    host.rackId ≠ "" && buildRackKey random host.rackId = key
  { c with currentHostsByRack := existing, rackDistribute := existing }

/-- `InitDualToleranceConfig`. -/
def initDualToleranceConfig (subzoneTolerance rackTolerance : ℚ) : PickerObject :=
  let rackKey (host : CurrentResource) := buildRackKey (trimSpace host.subZone) host.rackId
  let maxPerSubZone := maxTolerated (currentHosts.length + requestCount) subzoneTolerance
  { c with
    tolerance := subzoneTolerance
    rackTolerance
    currentHostsBySubZone := fun z => currentHosts.countP fun host => trimSpace host.subZone = z
    currentHostsByRack := fun key => currentHosts.countP fun host =>
      !isEmpty host.rackId && rackKey host = key
    rackDistribute := fun _ => 0
    rackIdsBySubZone := fun key => c.rackIdsBySubZone key ++
      (currentHosts.filter fun host =>
        !isEmpty host.rackId && rackKey host = key).map CurrentResource.rackId
    totalCount := currentHosts.length + requestCount
    maxPerSubZone
    maxPerRack := maxTolerated maxPerSubZone rackTolerance }

end Init

section Checks

def getSubZoneCurrentTotal (subZone : String) : ℕ :=
  c.currentHostsBySubZone subZone + c.pickDistribute subZone

def canAllocateToSubZone (subZone : String) : Bool :=
  if c.tolerance = 0 then c.getSubZoneCurrentTotal subZone = 0
  else c.getSubZoneCurrentTotal subZone < c.maxPerSubZone

def getRackCurrentTotal (subZone rackId : String) : ℕ :=
  c.currentHostsByRack (buildRackKey subZone rackId) +
    c.rackDistribute (buildRackKey subZone rackId)

def canAllocateToRack (subZone rackId : String) : Bool :=
  if c.maxPerRack = 0 then true
  else
    let rackTolerance := if c.rackTolerance = -1 then c.tolerance else c.rackTolerance
    if rackTolerance = 0 then c.getRackCurrentTotal subZone rackId = 0
    else c.getRackCurrentTotal subZone rackId < c.maxPerRack

def interSectForEquipment (equipmentId : String) : ℕ :=
  (c.existRackIds.dedup.filter fun id => id = equipmentId).length

def interSectForLinkNetDevice (linkDeviceIds : List String) : ℕ :=
  ((linkDeviceIds.filter fun id => !isEmpty id).dedup.filter fun id =>
    id ∈ c.existLinkNetdeviceIds).length

def crossRackCheck (v : InstanceObject) : Bool :=
  if isEmpty v.rackId then false else c.interSectForEquipment v.rackId = 0

def crossSwitchCheck (v : InstanceObject) : Bool :=
  if v.linkNetdeviceId.isEmpty then false else c.interSectForLinkNetDevice v.linkNetdeviceId = 0

def crossRackCheckInSubZone (subZone rackId : String) : Bool :=
  if isEmpty rackId then false else rackId ∉ c.rackIdsBySubZone subZone

end Checks

section Orders

variable (rt : Runtime)

/-- The keys in an order in which no later key has to stand before an earlier one. -/
def inOrder (before : String → String → Bool) (keys : List String) : List String × PickerObject :=
  ((rt.names c.draws keys).insertionSort fun a b => before a b, { c with draws := c.draws + 1 })

def queueLen (subZone : String) : ℕ := ((c.priorityElements.lookup subZone).getD []).length

def prioritySum (subZone : String) : ℤ := (c.subZonePrioritySumMap.lookup subZone).getD 0

/-- `ElementNotInArry`. -/
def elementNotInArry (ele : String) (arry : List String) : Bool :=
  arry.all fun v => isEmpty v || trimSpace v ≠ ele

/-- `PriorityPMax`. -/
def priorityPMax : ℤ := 100000000

def sortSubZoneByPriority (crossSubzone : Bool) : List String × PickerObject :=
  c.inOrder rt (fun a b => c.prioritySum b ≤ c.prioritySum a)
    (c.subZonePrioritySumMap.keys.filter fun z => !(crossSubzone && z ∈ c.existSubZone))

def sortSubZoneNum (crossSubzone : Bool) : List String × PickerObject :=
  let number (z : String) : ℤ := c.queueLen z * priorityPMax + c.prioritySum z
  c.inOrder rt (fun a b => number b ≤ number a)
    (c.priorityElements.keys.filter fun z =>
      c.queueLen z ≠ 0 && (!crossSubzone || elementNotInArry z c.existSubZone))

def sortSubzonesByRemainingInventoryDesc : List String × PickerObject :=
  c.inOrder rt (fun a b => c.queueLen b ≤ c.queueLen a)
    (c.priorityElements.keys.filter fun z => c.queueLen z ≠ 0)

/-- The load of a place, a little less for more stock and for a higher priority; every operation is
rounded. -/
def balanceScore (tolerance : ℚ) (maxPerPlace : ℤ) (currentTotal capacity : ℕ) (priority : ℤ) : ℚ :=
  let load :=
    if 0 < tolerance ∧ 0 < maxPerPlace then rounded (rounded (currentTotal / maxPerPlace) * 100)
    else if tolerance = 0 then 0
    else currentTotal
  let load := rounded (load - rounded (capacity * rounded (1 / 1000)))
  rounded (load - rounded (priority * rounded (1 / 1000000)))

/-- Whether a place is a candidate of the balanced order: one that has room, and nothing in it yet
where the tolerance is 0. -/
def balanceCandidate (maxPerPlace : ℤ) (currentTotal : ℕ) (canAllocate : Bool) : Bool :=
  (!(0 ≤ c.tolerance && 0 < maxPerPlace) || canAllocate) &&
    (!(c.tolerance = 0) || currentTotal = 0)

/-- `SortSubZoneByBalance`. -/
def sortSubZoneByBalance : List String × PickerObject :=
  let score (z : String) : ℚ := balanceScore c.tolerance c.maxPerSubZone
    (c.getSubZoneCurrentTotal z) (c.queueLen z) (c.prioritySum z)
  c.inOrder rt (fun a b => score a ≤ score b)
    (c.priorityElements.keys.filter fun z =>
      c.queueLen z ≠ 0 &&
        c.balanceCandidate c.maxPerSubZone (c.getSubZoneCurrentTotal z) (c.canAllocateToSubZone z))

/-- `SortRackByBalance`: the queue is emptied and filled again on the way. -/
def sortRackByBalance (subZone : String) : List String × PickerObject :=
  let items := (c.priorityElements.lookup subZone).getD []
  let inRack (rackId : String) := items.filter fun item => item.value.rackId = rackId
  let score (rackId : String) : ℚ := balanceScore c.tolerance c.maxPerRack
    (c.getRackCurrentTotal subZone rackId) (inRack rackId).length
    ((inRack rackId).map Item.priority).sum
  c.inOrder rt (fun a b => score a ≤ score b)
    ((items.map fun item => item.value.rackId).dedup.filter fun rackId =>
      c.balanceCandidate c.maxPerRack (c.getRackCurrentTotal subZone rackId)
        (c.canAllocateToRack subZone rackId))

end Orders

end PickerObject

end Resource
