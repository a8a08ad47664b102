import BluekingDbm.Library.Loop
import BluekingDbm.Resource.Picker

/-! The pickers: how one host is taken from a sub-zone, and the loops over sub-zones and racks. Loops
without a bound in the source take one from `fuel`. -/
namespace Resource

open Text Loop

/-- What a picker decides about the host it popped. -/
inductive Verdict
  | take
  | skip
  | stop
  deriving DecidableEq

/-- How popping a queue ends: with a host taken, with the call given up at a host, or with nothing
left. -/
inductive Scan
  | taken (v : InstanceObject) (rest : List Item)
  | stopped (rest : List Item)
  | drained

def scan (judge : InstanceObject → Verdict) : List Item → Scan
  | [] => .drained
  | item :: rest =>
    match judge item.value with
    | .take => .taken item.value rest
    | .stop => .stopped rest
    | .skip => scan judge rest

namespace PickerObject

variable (rt : Runtime) (fuel : ℕ) (c : PickerObject)

/-- `delete(c.PriorityElements, z)`. -/
def drop (z : String) : PickerObject := { c with priorityElements := c.priorityElements.erase z }

def setQueue (z : String) (queue : List Item) : PickerObject :=
  { c with priorityElements := c.priorityElements.insert z queue }

/-- The queue of `z` after pops that left `queue` of it. -/
def popTo (z : String) (queue : List Item) : PickerObject :=
  { c.setQueue z queue with draws := c.draws + 1 }

/-- `c.ExistSubZone = append(c.ExistSubZone, z)`. -/
def visit (z : String) : PickerObject := { c with existSubZone := c.existSubZone ++ [z] }

/-- The items as they would be popped, greatest priority first. -/
def popOrder (queue : List Item) : List Item :=
  (rt.items c.draws queue).insertionSort fun a b => b.priority ≤ a.priority

section Take

variable (key : String) (v : InstanceObject)

/-- The writes for a chosen host that all pickers share. -/
def select : PickerObject :=
  { c with
    existRackIds := c.existRackIds ++ [v.rackId]
    satisfiedHostIds := c.satisfiedHostIds ++ [v.bkHostId]
    existLinkNetdeviceIds := c.existLinkNetdeviceIds ++ v.linkNetdeviceId
    pickDistribute := bump c.pickDistribute key }

def recordHost : PickerObject :=
  { c with satisfiedHostIdsMap :=
      Function.update c.satisfiedHostIdsMap key (c.satisfiedHostIdsMap key ++ [v.bkHostId]) }

def recordRackId : PickerObject :=
  { c with rackIdsBySubZone :=
      Function.update c.rackIdsBySubZone key (c.rackIdsBySubZone key ++ [v.rackId]) }

def recordRack : PickerObject :=
  { c with rackDistribute := bump c.rackDistribute (buildRackKey key v.rackId) }

end Take

section One

variable (key : String) (crossSwitch : Bool)

/-- Pop hosts of one sub-zone until one is taken, the call gives up, or the queue is empty. -/
def pickOne (judge : PickerObject → InstanceObject → Verdict)
    (take : PickerObject → InstanceObject → PickerObject) (drained : PickerObject → Bool) :
    Bool × PickerObject :=
  let c := c.visit key
  match c.priorityElements.lookup key with
  | none => (false, c)
  | some pq =>
    match scan (judge c) (c.popOrder rt pq) with
    | .taken v rest => (true, take (c.popTo key rest) v)
    | .stopped rest => (false, c.popTo key rest)
    | .drained => (drained (c.popTo key []), c.popTo key [])

def subZoneVerdict (v : InstanceObject) : Verdict :=
  if v.bkHostId ∈ c.satisfiedHostIds then .stop
  else if crossSwitch && !c.crossRackCheckInSubZone key v.rackId then .skip
  else if (0 ≤ c.tolerance && 0 < c.maxPerSubZone) && !c.canAllocateToSubZone key then .skip
  else .take

def pickerOneByPriorityWithSubZoneTolerance : Bool × PickerObject :=
  c.pickOne rt key (fun c => c.subZoneVerdict key crossSwitch)
    (fun c v => ((c.select key v).recordHost key v).recordRackId key v)
    (fun c => c.priorityElements.size = 0)

def dualVerdict (v : InstanceObject) : Verdict :=
  if v.bkHostId ∈ c.satisfiedHostIds then .stop
  else if 0 < c.maxPerSubZone ∧ c.maxPerSubZone < c.getSubZoneCurrentTotal key + 1 then .skip
  else if 0 < c.maxPerRack ∧ c.maxPerRack < c.getRackCurrentTotal key v.rackId + 1 then .skip
  else .take

def pickerOneByPriorityWithDualTolerance : Bool × PickerObject :=
  c.pickOne rt key (fun c => c.dualVerdict key)
    (fun c v => ((c.select key v).recordHost key v).recordRack key v) (fun _ => false)

def rackVerdict (v : InstanceObject) : Verdict :=
  if crossSwitch && (!c.crossRackCheck v || !c.crossSwitchCheck v) then .skip
  else if v.bkHostId ∈ c.satisfiedHostIds then .stop
  else if (0 ≤ c.tolerance && 0 < c.maxPerRack) && !c.canAllocateToRack key v.rackId then .skip
  else .take

def pickerOneByPriorityWithRackTolerance : Bool × PickerObject :=
  c.pickOne rt key (fun c => c.rackVerdict key crossSwitch)
    (fun c v => (c.select key v).recordRack key v) (fun c => c.priorityElements.size = 0)

def plainVerdict (v : InstanceObject) : Verdict :=
  if crossSwitch && (!c.crossRackCheck v || !c.crossSwitchCheck v) then .skip
  else if v.bkHostId ∈ c.satisfiedHostIds then .stop
  else .take

def pickerOneByPriorityWithoutTolerance : Bool × PickerObject :=
  c.pickOne rt key (fun c => c.plainVerdict crossSwitch)
    (fun c v => (c.select key v).recordHost key v) (fun c => c.priorityElements.size = 0)

def pickerOneByPriority : Bool × PickerObject :=
  if 0 < c.maxPerRack ∧ 0 < c.maxPerSubZone then c.pickerOneByPriorityWithDualTolerance rt key
  else if 0 < c.maxPerRack then c.pickerOneByPriorityWithRackTolerance rt key crossSwitch
  else if 0 < c.maxPerSubZone then c.pickerOneByPriorityWithSubZoneTolerance rt key crossSwitch
  else c.pickerOneByPriorityWithoutTolerance rt key crossSwitch

end One

section SameSubZone

variable (crossSwitch : Bool)

/-- The loop `for pq.Len() > 0` over one sub-zone. -/
def drain (key : String) : Outcome PickerObject :=
  iterate (fun c =>
    if c.queueLen key = 0 then .returned (.leave c)
    else
      let c := (c.pickerOneByPriority rt key crossSwitch).2
      if c.pickerDone then .returned (.leave c) else .returned (.again c)) fuel c

def pickerRandom : Outcome PickerObject :=
  if random ∈ c.priorityElements then c.drain rt fuel false random else .returned c

/-- The picks of an earlier sub-zone are forgotten, the counters are not. -/
def restart : PickerObject :=
  { c with satisfiedHostIds := [], existRackIds := [], existLinkNetdeviceIds := [] }

/-- One sub-zone after the other, each from the start, where it has enough hosts. -/
def eachSubZone (pick : String → PickerObject → Outcome PickerObject) :
    List String → PickerObject → Outcome PickerObject
  | [], c => .returned c
  | z :: zones, c =>
    if c.queueLen z < c.count ∨ c.queueLen z = 0 then eachSubZone pick zones c
    else (pick z c.restart).bind fun c =>
      if c.pickerDone then .returned c else eachSubZone pick zones c

/-- `pickerOneFromRack`: what is popped on the way goes back to the queue. -/
def pickerOneFromRack (subZone rackId : String) : Bool × PickerObject :=
  match c.priorityElements.lookup subZone with
  | none => (false, c)
  | some pq =>
    let fits (item : Item) : Bool :=
      item.value.rackId = rackId && item.value.bkHostId ∉ c.satisfiedHostIds
    let items := c.popOrder rt pq
    match items.find? fits with
    | none => (false, c.popTo subZone items)
    | some item =>
      (true, ((c.popTo subZone (items.eraseP fits)).select subZone item.value).recordRack
        subZone item.value)

/-- The first rack of the list that a host can be taken from. -/
def pickerOneFromRacks (subZone : String) : List String → PickerObject → Bool × PickerObject
  | [], c => (false, c)
  | rackId :: racks, c =>
    if c.canAllocateToRack subZone rackId then
      match c.pickerOneFromRack rt subZone rackId with
      | (true, c) => (true, c)
      | (false, c) => pickerOneFromRacks subZone racks c
    else pickerOneFromRacks subZone racks c

def pickerSameSubZoneRackBalanced (subZone : String) : Outcome PickerObject :=
  iterate (fun c =>
    if c.pickerDone then .returned (.leave c)
    else
      let (racks, c) := c.sortRackByBalance rt subZone
      if racks.isEmpty then .returned (.leave c)
      else
        match pickerOneFromRacks rt subZone racks c with
        | (true, c) => if c.pickerDone then .returned (.leave c) else .returned (.again c)
        | (false, c) => .returned (.leave c)) fuel c

def pickerSameSubZoneBalanced : Outcome PickerObject :=
  let (zones, c) := c.sortSubZoneNum rt false
  eachSubZone (fun z c => c.pickerSameSubZoneRackBalanced rt fuel z) zones c

def pickerSameSubZone : Outcome PickerObject :=
  if 0 < c.tolerance ∧ 0 < c.maxPerRack then c.pickerSameSubZoneBalanced rt fuel
  else
    let (zones, c) := c.sortSubZoneNum rt false
    eachSubZone (fun z c => c.drain rt fuel crossSwitch z) zones c

end SameSubZone

section Balanced

variable (crossSubzone crossSwitch : Bool)

def updateCampusOrder (campusKeys : List String) : List String × PickerObject :=
  let (rebalancedKeys, c) := c.sortSubZoneByBalance rt
  (if rebalancedKeys.isEmpty then campusKeys else rebalancedKeys, c)

def isCampusAvailable (campusName : String) : Bool := c.queueLen campusName ≠ 0

/-- `canAllocateToCampus`: a full sub-zone is dropped. -/
def canAllocateToCampus (campusName : String) : Bool × PickerObject :=
  if (0 ≤ c.tolerance && 0 < c.maxPerSubZone) && !c.canAllocateToSubZone campusName then
    (false, c.drop campusName)
  else (true, c)

def filterValidCampuses : List String → PickerObject → List String × PickerObject
  | [], c => ([], c)
  | campusName :: campusKeys, c =>
    if c.isCampusAvailable campusName then
      match c.canAllocateToCampus campusName with
      | (true, c) =>
        let (validCampuses, c) := filterValidCampuses campusKeys c
        (campusName :: validCampuses, c)
      | (false, c) => filterValidCampuses campusKeys c
    else filterValidCampuses campusKeys c

def handlePostAllocation (campusName : String) : PickerObject :=
  if crossSubzone then
    if c.tolerance = 0 then c.drop campusName
    else if !c.canAllocateToSubZone campusName || c.queueLen campusName = 0 then c.drop campusName
    else c
  else c

/-- One host from the first sub-zone that yields one. -/
def attemptAllocationFromCampuses : List String → PickerObject → Bool × PickerObject
  | [], c => (false, c)
  | campusName :: campusKeys, c =>
    if c.isCampusAvailable campusName then
      match c.canAllocateToCampus campusName with
      | (true, c) =>
        match c.pickerOneByPriority rt campusName crossSwitch with
        | (true, c) => (true, c.handlePostAllocation crossSubzone campusName)
        | (false, c) => attemptAllocationFromCampuses campusKeys c
      | (false, c) => attemptAllocationFromCampuses campusKeys c
    else attemptAllocationFromCampuses campusKeys c

/-- A round of `pickerCrossSubzoneBalanced`. -/
def balancedRound : List String × PickerObject → Outcome (Turn (List String × PickerObject))
  | (campusKeys, c) =>
    if campusKeys.isEmpty || c.pickerDone then .returned (.leave (campusKeys, c))
    else
      let (campusKeys, c) := c.updateCampusOrder rt campusKeys
      let (campusKeys, c) := filterValidCampuses campusKeys c
      match attemptAllocationFromCampuses rt crossSubzone crossSwitch campusKeys c with
      | (true, c) => .returned (.again (campusKeys, c))
      | (false, c) => .returned (.leave (campusKeys, c))

def pickerCrossSubzoneBalanced (campusKeys : List String) : Outcome PickerObject :=
  (iterate (balancedRound rt crossSubzone crossSwitch) fuel (campusKeys, c)).bind
    fun s => .returned s.2

end Balanced

section Channel

/-- A pick from `z`, after which the sub-zone is dropped if a host was found and it is `retired`. -/
def pickAndRetire (pick : String → PickerObject → Bool × PickerObject)
    (retired : String → PickerObject → Bool) (z : String) : PickerObject :=
  let (picked, c) := pick z c
  if picked && retired z c then c.drop z else c

/-- A turn of `for subzone := range subzoneChan`. Nothing closes the channel while the loop runs, so
receiving from it when it is empty waits for ever. A drained sub-zone is dropped and then passed over
or, in two of the three loops, still picked from. -/
def channelTurn (passDrained : Bool) (pick : String → PickerObject → Bool × PickerObject)
    (retired : String → PickerObject → Bool) (sendBack : Bool) :
    List String × PickerObject → Outcome (Turn (List String × PickerObject))
  | ([], _) => .blocked
  | (z :: subzoneChan, c) =>
    if c.priorityElements.size = 0 then .returned (.leave (subzoneChan, c))
    else
      match c.priorityElements.lookup z with
      | none => .returned (.again (subzoneChan, c))
      | some pq =>
        let c := if pq.isEmpty then c.drop z else c
        if c.priorityElements.size = 0 then .returned (.leave (subzoneChan, c))
        else if pq.isEmpty && passDrained then .returned (.again (subzoneChan, c))
        else
          let c := c.pickAndRetire pick retired z
          if c.pickerDone then .returned (.leave (subzoneChan, c))
          else if sendBack then .returned (.again (subzoneChan ++ [z], c))
          else if subzoneChan.isEmpty then .returned (.leave (subzoneChan, c))
          else .returned (.again (subzoneChan, c))

def channelLoop (passDrained : Bool) (pick : String → PickerObject → Bool × PickerObject)
    (retired : String → PickerObject → Bool) (sendBack : Bool) (campKeys : List String) :
    Outcome PickerObject :=
  (iterate (channelTurn passDrained pick retired sendBack) fuel (campKeys, c)).bind
    fun s => .returned s.2

def pickerCrossSubzoneOriginal (campKeys : List String) (crossSubzone crossSwitch : Bool) :
    Outcome PickerObject :=
  c.channelLoop fuel false (fun z c => c.pickerOneByPriority rt z crossSwitch)
    (fun _ _ => crossSubzone) (!crossSubzone) campKeys

/-- The orders that `PickerCrossSubzone` tries; only the first may use the balanced rounds. -/
def crossSubzoneStrategies (crossSubzone crossSwitch : Bool) :
    List (Bool × (PickerObject → List String × PickerObject)) → PickerObject → Outcome PickerObject
  | [], c => .returned c
  | (balanced, sfc) :: rest, c =>
    let (campKeys, c) := sfc c
    if campKeys.isEmpty then crossSubzoneStrategies crossSubzone crossSwitch rest c
    else
      let picked :=
        if balanced && (0 ≤ c.tolerance && 0 < c.maxPerSubZone) then
          c.pickerCrossSubzoneBalanced rt fuel crossSubzone crossSwitch campKeys
        else c.pickerCrossSubzoneOriginal rt fuel campKeys crossSubzone crossSwitch
      picked.bind fun c =>
        if c.pickerDone then .returned c
        else crossSubzoneStrategies crossSubzone crossSwitch rest c

def pickerCrossSubzone (crossSubzone crossSwitch : Bool) : Outcome PickerObject :=
  crossSubzoneStrategies rt fuel crossSubzone crossSwitch
    [(true, fun c => c.sortSubZoneByBalance rt),
      (false, fun c => c.sortSubZoneByPriority rt crossSubzone),
      (false, fun c => c.sortSubZoneNum rt crossSubzone)] c

/-- Every way out of the receiving loop leaves the function, so the second order is never used. -/
def pickerMajorityElectionCrossSubzone : Outcome PickerObject :=
  let (campKeys, c) := c.sortSubZoneNum rt true
  if campKeys.isEmpty then .returned c
  else
    c.channelLoop fuel false (fun z c => c.pickerOneByPriority rt z true)
      (fun z c => c.maxPerSubZone ≤ (c.satisfiedHostIdsMap z).length) true campKeys

/-- Here too only the first of the three orders is used. -/
def pickerCrossSubzoneRoundRobin : Outcome PickerObject :=
  let (campKeys, c) := c.sortSubZoneByBalance rt
  if campKeys.isEmpty then .returned c
  else
    c.channelLoop fuel true (fun z c => c.pickerOneByPriorityWithDualTolerance rt z)
      (fun z c => 0 < c.maxPerSubZone ∧ c.maxPerSubZone ≤ c.getSubZoneCurrentTotal z) true campKeys

end Channel

section BigPool

def canStillTakeFromSubzone (subZone : String) : Bool :=
  c.queueLen subZone ≠ 0 &&
    !(0 < c.maxPerSubZone && c.maxPerSubZone ≤ c.getSubZoneCurrentTotal subZone)

/-- The inner loop over one big sub-zone, with the flag that says whether anything was taken. -/
def takeFromSubzone (subZone : String) (s : Bool × PickerObject) :
    Outcome (Bool × PickerObject) :=
  iterate (fun (allocated, c) =>
    if c.canStillTakeFromSubzone subZone && !c.pickerDone then
      match c.pickerOneByPriorityWithDualTolerance rt subZone with
      | (true, c) => .returned (.again (true, c))
      | (false, c) => .returned (.leave (allocated, c))
    else .returned (.leave (allocated, c))) fuel s

def takeFromSubzones : List String → Bool × PickerObject → Outcome (Bool × PickerObject)
  | [], s => .returned s
  | z :: zones, s =>
    (takeFromSubzone rt fuel z s).bind fun (allocated, c) =>
      let c := if c.canStillTakeFromSubzone z then c else c.drop z
      if c.pickerDone then .returned (allocated, c) else takeFromSubzones zones (allocated, c)

def pickerCrossSubzoneBigPoolFirst : Outcome PickerObject :=
  iterate (fun c =>
    if c.pickerDone then .returned (.leave c)
    else
      let (zones, c) := c.sortSubzonesByRemainingInventoryDesc rt
      if zones.isEmpty then .returned (.leave c)
      else
        (takeFromSubzones rt fuel zones (false, c)).bind fun (allocated, c) =>
          if c.pickerDone || !allocated then .returned (.leave c) else .returned (.again c)) fuel c

end BigPool

def pickerCrossSubzoneWithRackTolerance : Outcome PickerObject :=
  if c.affinity = .crossSubzoneWeak then c.pickerCrossSubzoneBigPoolFirst rt fuel
  else c.pickerCrossSubzoneRoundRobin rt fuel

end PickerObject

end Resource
