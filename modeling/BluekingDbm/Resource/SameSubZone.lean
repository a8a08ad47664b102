import BluekingDbm.Library.Capacity
import BluekingDbm.Resource.Spread

/-! The affinities that keep a request in one place: all hosts from one sub-zone, or spread over the racks
of one queue. -/
namespace Resource

open Loop PickerObject Text

variable {o : SearchContext} {insList : List TbRpDetail} {rt : Runtime} {fuel : ℕ}
  {c c' : PickerObject} {host : TbRpDetail} {key : String} {israndom crossSwitch : Bool}

section OnePlace

/-- Two hosts on different racks and without a common net device. -/
structure Apart (a b : TbRpDetail) : Prop where
  rack : a.rackID ≠ b.rackID
  devices : ∀ d ∈ b.instanceObject.linkNetdeviceId, isEmpty d = false →
    d ∉ a.instanceObject.linkNetdeviceId

/-- The picks are hosts from the queue of `key`, and apart from each other where switches are crossed. -/
def PickedFrom (insList : List TbRpDetail) (israndom crossSwitch : Bool) (key : String) (c : PickerObject)
    (S : List TbRpDetail) : Prop :=
  (∀ host ∈ S, host ∈ insList ∧ queueKey israndom host = key) ∧
    c.satisfiedHostIds = S.map TbRpDetail.bkHostID ∧ c.existRackIds = S.map TbRpDetail.rackID ∧
      c.existLinkNetdeviceIds = S.flatMap (fun host => host.instanceObject.linkNetdeviceId) ∧
        (crossSwitch = true → S.Pairwise Apart)

structure Gathered (insList : List TbRpDetail) (israndom crossSwitch : Bool) (key : String)
    (c : PickerObject) : Prop where
  sourced : Sourced insList israndom c
  zone : c.maxPerSubZone = 0
  picks : ∃ S, PickedFrom insList israndom crossSwitch key c S

theorem Gathered.popTo {pq rest : List Item} (h : Gathered insList israndom crossSwitch key c)
    (hq : c.priorityElements.lookup key = some pq) (hrest : rest ⊆ pq) :
    Gathered insList israndom crossSwitch key (c.popTo key rest) :=
  ⟨h.sourced.popTo hq hrest, h.zone, h.picks⟩

theorem apart_of_checks {S : List TbRpDetail} (hracks : c.existRackIds = S.map TbRpDetail.rackID)
    (hdevices : c.existLinkNetdeviceIds = S.flatMap fun host => host.instanceObject.linkNetdeviceId)
    (hrack : c.crossRackCheck host.instanceObject = true)
    (hswitch : c.crossSwitchCheck host.instanceObject = true) {other : TbRpDetail} (hother : other ∈ S) :
    Apart other host := by
  constructor
  · intro hsame
    unfold PickerObject.crossRackCheck at hrack
    split at hrack
    · cases hrack
    · have hnone : (c.existRackIds.dedup.filter fun id => id = host.rackID) = [] :=
        List.length_eq_zero_iff.mp (of_decide_eq_true hrack)
      have hin : other.rackID ∈ c.existRackIds.dedup := by
        rw [hracks, List.mem_dedup]
        exact List.mem_map_of_mem hother
      exact List.filter_eq_nil_iff.mp hnone other.rackID hin (decide_eq_true hsame)
  · intro d hd hname hin
    unfold PickerObject.crossSwitchCheck at hswitch
    split at hswitch
    · cases hswitch
    · have hnone : ∀ d ∈ host.instanceObject.linkNetdeviceId, isEmpty d = false →
          d ∉ c.existLinkNetdeviceIds := by
        simpa [PickerObject.interSectForLinkNetDevice] using hswitch
      apply hnone d hd hname
      rw [hdevices]
      exact List.mem_flatMap.mpr ⟨other, hother, hin⟩

/-- Taking one more host of the queue. -/
theorem Gathered.select {pq rest : List Item} {item : Item}
    (h : Gathered insList israndom crossSwitch key c) (hq : c.priorityElements.lookup key = some pq)
    (hitem : item ∈ pq) (hrest : rest ⊆ pq)
    (hchecks : crossSwitch = true →
      c.crossRackCheck item.value = true ∧ c.crossSwitchCheck item.value = true)
    (hsame : c'.priorityElements = (c.popTo key rest).priorityElements ∧ c'.maxPerSubZone = c.maxPerSubZone)
    (hids : c'.satisfiedHostIds = c.satisfiedHostIds ++ [item.value.bkHostId])
    (hracks : c'.existRackIds = c.existRackIds ++ [item.value.rackId])
    (hdevices : c'.existLinkNetdeviceIds = c.existLinkNetdeviceIds ++ item.value.linkNetdeviceId) :
    Gathered insList israndom crossSwitch key c' := by
  obtain ⟨S, hpool, hS, hSracks, hSdevices, hapart⟩ := h.picks
  obtain ⟨host, hhost, hkey, hvalue⟩ := h.sourced key pq hq item hitem
  rw [hvalue] at hids hracks hdevices hchecks
  constructor
  · intro y q hy
    rw [hsame.1] at hy
    exact h.sourced.popTo hq hrest y q hy
  · exact hsame.2.trans h.zone
  · refine ⟨S ++ [host], ?_, ?_, ?_, ?_, ?_⟩
    · intro other hother
      rcases List.mem_append.mp hother with hmem | hmem
      · exact hpool other hmem
      · obtain rfl := List.mem_singleton.mp hmem
        exact ⟨hhost, hkey⟩
    · simp [hids, hS, TbRpDetail.instanceObject]
    · simp [hracks, hSracks, TbRpDetail.instanceObject]
    · simp [hdevices, hSdevices]
    · intro hcross
      obtain ⟨hrack, hswitch⟩ := hchecks hcross
      rw [List.pairwise_append]
      refine ⟨hapart hcross, List.pairwise_singleton _ _, ?_⟩
      intro other hother b hb
      obtain rfl := List.mem_singleton.mp hb
      exact apart_of_checks hSracks hSdevices hrack hswitch hother

theorem Gathered.visit (h : Gathered insList israndom crossSwitch key c) :
    Gathered insList israndom crossSwitch key (c.visit key) := ⟨h.sourced, h.zone, h.picks⟩

theorem Gathered.pickOne {judge : PickerObject → InstanceObject → Verdict}
    {take : PickerObject → InstanceObject → PickerObject} {drained : PickerObject → Bool}
    (h : Gathered insList israndom crossSwitch key c)
    (hchecks : ∀ v, judge (c.visit key) v = .take → crossSwitch = true →
      (c.visit key).crossRackCheck v = true ∧ (c.visit key).crossSwitchCheck v = true)
    (htake : ∀ a v, (take a v).priorityElements = a.priorityElements ∧
      (take a v).maxPerSubZone = a.maxPerSubZone ∧
      (take a v).satisfiedHostIds = a.satisfiedHostIds ++ [v.bkHostId] ∧
      (take a v).existRackIds = a.existRackIds ++ [v.rackId] ∧
      (take a v).existLinkNetdeviceIds = a.existLinkNetdeviceIds ++ v.linkNetdeviceId) :
    Gathered insList israndom crossSwitch key (c.pickOne rt key judge take drained).2 := by
  have hpicked := @pickedOne_pickOne rt c key judge take drained
  generalize c.pickOne rt key judge take drained = result at hpicked ⊢
  cases hpicked with
  | missing => exact h.visit
  | @taken pq skipped rest item hq hperm hskip hjudge =>
    obtain ⟨hqueues, hzone, hids, hracks, hdevices⟩ := htake ((c.visit key).popTo key rest) item.value
    have hin : ∀ i ∈ skipped ++ item :: rest, i ∈ pq := fun i hi => hperm.mem_iff.mp hi
    exact h.visit.select hq (hin item (by simp)) (fun i hi => hin i (by simp [hi]))
      (hchecks item.value hjudge) ⟨hqueues, hzone⟩ hids hracks hdevices
  | @stopped pq skipped rest item hq hperm =>
    exact h.visit.popTo hq fun i hi => hperm.mem_iff.mp (by simp [hi])
  | drained hq => exact h.visit.popTo hq (List.nil_subset _)

theorem Gathered.pickerOneByPriority (h : Gathered insList israndom crossSwitch key c) :
    Gathered insList israndom crossSwitch key (c.pickerOneByPriority rt key crossSwitch).2 := by
  have hzone := h.zone
  unfold PickerObject.pickerOneByPriority
  split
  · omega
  · split
    · apply h.pickOne
      · intro v hjudge hcross
        unfold PickerObject.rackVerdict at hjudge
        split at hjudge
        · cases hjudge
        · rename_i hchecked
          simpa [hcross, PickerObject.crossRackCheck, PickerObject.crossSwitchCheck] using hchecked
      · exact fun _ _ => ⟨rfl, rfl, rfl, rfl, rfl⟩
    · split
      · omega
      · apply h.pickOne
        · intro v hjudge hcross
          unfold PickerObject.plainVerdict at hjudge
          split at hjudge
          · cases hjudge
          · rename_i hchecked
            simpa [hcross, PickerObject.crossRackCheck, PickerObject.crossSwitchCheck] using hchecked
        · exact fun _ _ => ⟨rfl, rfl, rfl, rfl, rfl⟩

theorem Gathered.drain (h : Gathered insList israndom crossSwitch key c) :
    (c.drain rt fuel crossSwitch key).Ensures (Gathered insList israndom crossSwitch key) := by
  refine iterate_ensures (Gathered insList israndom crossSwitch key) ?_ h
  intro a ha
  by_cases hlen : a.queueLen key = 0
  · simp only [hlen, if_true]
    exact Outcome.ensures_returned ha
  · simp only [hlen, if_false]
    split
    · exact Outcome.ensures_returned ha.pickerOneByPriority
    · exact Outcome.ensures_returned ha.pickerOneByPriority

theorem Gathered.pickerOneFromRacks {racks : List String} (h : Gathered insList israndom false key c) :
    Gathered insList israndom false key (pickerOneFromRacks rt key racks c).2 := by
  induction racks generalizing c with
  | nil => exact h
  | cons rackId racks ih =>
    have hone : Gathered insList israndom false key (c.pickerOneFromRack rt key rackId).2 := by
      unfold PickerObject.pickerOneFromRack
      split
      · exact h
      · rename_i pq hq
        have hperm : (c.popOrder rt pq).Perm pq := popOrder_perm
        dsimp only
        split
        · exact h.popTo hq hperm.subset
        · rename_i item hfind
          exact h.select hq (hperm.mem_iff.mp (List.mem_of_find?_eq_some hfind))
            (fun i hi => hperm.mem_iff.mp (List.mem_of_mem_eraseP hi)) nofun ⟨rfl, rfl⟩ rfl rfl rfl
    unfold PickerObject.pickerOneFromRacks
    split
    · generalize c.pickerOneFromRack rt key rackId = result at hone ⊢
      obtain ⟨picked, a⟩ := result
      cases picked with
      | true => exact hone
      | false => exact ih hone
    · exact ih h

theorem Gathered.pickerSameSubZoneRackBalanced (h : Gathered insList israndom false key c) :
    (c.pickerSameSubZoneRackBalanced rt fuel key).Ensures (Gathered insList israndom false key) := by
  refine iterate_ensures (Gathered insList israndom false key) ?_ h
  intro a ha
  have hsorted : Gathered insList israndom false key (a.sortRackByBalance rt key).2 :=
    ⟨ha.sourced, ha.zone, ha.picks⟩
  split
  · exact Outcome.ensures_returned ha
  · dsimp only
    split
    · exact Outcome.ensures_returned hsorted
    · have hone := @Gathered.pickerOneFromRacks _ rt _ _ _ (a.sortRackByBalance rt key).1 hsorted
      generalize PickerObject.pickerOneFromRacks rt key _ _ = result at hone ⊢
      obtain ⟨picked, b⟩ := result
      cases picked with
      | false => exact Outcome.ensures_returned hone
      | true =>
        dsimp only
        split <;> exact Outcome.ensures_returned hone

/-- One sub-zone after the other, each from the start. -/
theorem gathered_eachSubZone {pick : String → PickerObject → Outcome PickerObject} {zones : List String}
    (hpick : ∀ z a, Gathered insList israndom crossSwitch z a →
      (pick z a).Ensures (Gathered insList israndom crossSwitch z))
    (h : Gathered insList israndom crossSwitch key c) :
    (eachSubZone pick zones c).Ensures fun a => ∃ z, Gathered insList israndom crossSwitch z a := by
  induction zones generalizing c key with
  | nil => exact Outcome.ensures_returned ⟨key, h⟩
  | cons z zones ih =>
    unfold eachSubZone
    split
    · exact ih h
    · have hrestart : Gathered insList israndom crossSwitch z c.restart :=
        ⟨h.sourced, h.zone, [], List.forall_mem_nil _, rfl, rfl, rfl, fun _ => .nil⟩
      refine (hpick z _ hrestart).bind fun a ha => ?_
      split
      · exact Outcome.ensures_returned ⟨z, ha⟩
      · exact ih ha

theorem Gathered.mono {apart : Bool} (h : Gathered insList israndom crossSwitch key c)
    (hapart : apart = true → crossSwitch = true) : Gathered insList israndom apart key c := by
  obtain ⟨S, hpool, hids, hracks, hdevices, hpairs⟩ := h.picks
  exact ⟨h.sourced, h.zone, S, hpool, hids, hracks, hdevices, fun htrue => hpairs (hapart htrue)⟩

/-- The balanced order of racks does not look at switches. -/
theorem gathered_pickerSameSubZone (h : Gathered insList israndom crossSwitch key c) :
    (c.pickerSameSubZone rt fuel crossSwitch).Ensures fun a =>
      ∃ z, Gathered insList israndom (crossSwitch && decide (c.tolerance ≤ 0)) z a := by
  have hdraw : Gathered insList israndom crossSwitch key (c.sortSubZoneNum rt false).2 :=
    ⟨h.sourced, h.zone, h.picks⟩
  unfold PickerObject.pickerSameSubZone
  split
  · rename_i hbalanced
    rw [decide_eq_false (not_le.mpr hbalanced.1), Bool.and_false]
    exact gathered_eachSubZone (fun z a ha => ha.pickerSameSubZoneRackBalanced) (hdraw.mono nofun)
  · refine (gathered_eachSubZone (fun z a ha => ha.drain) hdraw).mono fun a ha => ?_
    obtain ⟨z, ha⟩ := ha
    exact ⟨z, ha.mono fun hboth => (Bool.and_eq_true_iff.mp hboth).1⟩

/-- A request for one sub-zone has picked hosts from one sub-zone only, whatever is left open in Go; and
where the switches are to be crossed and there is no tolerance for racks, no two of them share a rack or a
net device. -/
theorem picks_in_one_subZone
    (haffinity : o.affinity = .sameSubzone ∨ o.affinity = .sameSubzoneCrossSwtich)
    (hspecial : o.specialHostIds = []) :
    (o.pickInstanceBase insList rt fuel (newPicker o.count)).Ensures fun r =>
      ∃ z, ∃ S : List TbRpDetail, (∀ host ∈ S, host ∈ insList ∧ host.subZone = z) ∧
        r.2.satisfiedHostIds = S.map TbRpDetail.bkHostID ∧
        (o.affinity = .sameSubzoneCrossSwtich → o.tolerance ≤ 0 → S.Pairwise Apart) := by
  have hconfigured : o.configured = { newPicker o.count with
      affinity := o.affinity }.initRackToleranceConfig o.tolerance o.currentHosts o.count := by
    rcases haffinity with ha | ha <;> simp only [SearchContext.configured, ha]
  have hsourced := (@analysed_analyse o insList false o.configured).sourced
  obtain ⟨p, s, hsnd⟩ := @SearchContext.analyse_snd o insList o.configured false
  have hpicked : ∀ crossSwitch,
      ((o.analyse insList false o.configured).2.pickerSameSubZone rt fuel crossSwitch).Ensures fun a =>
        ∃ z, Gathered insList false (crossSwitch && decide (o.tolerance ≤ 0)) z a := by
    intro crossSwitch
    rw [hsnd] at hsourced ⊢
    rw [hconfigured] at hsourced ⊢
    exact @gathered_pickerSameSubZone _ rt fuel _ "" _ _
      ⟨hsourced, rfl, [], List.forall_mem_nil _, rfl, rfl, rfl, fun _ => .nil⟩
  rw [hconfigured] at hpicked
  unfold SearchContext.pickInstanceBase
  rw [if_pos (by simp [hspecial])]
  rcases haffinity with ha | ha
  · simp only [ha] at hpicked ⊢
    refine (hpicked false).bind fun a hgathered => Outcome.ensures_returned ?_
    obtain ⟨z, hgathered⟩ := hgathered
    obtain ⟨S, hpool, hids, -, -, -⟩ := hgathered.picks
    exact ⟨z, S, hpool, hids, fun hcross => by cases hcross⟩
  · simp only [ha] at hpicked ⊢
    refine (hpicked true).bind fun a hgathered => Outcome.ensures_returned ?_
    obtain ⟨z, hgathered⟩ := hgathered
    obtain ⟨S, hpool, hids, -, -, hpairs⟩ := hgathered.picks
    exact ⟨z, S, hpool, hids, fun _ htolerance => hpairs (decide_eq_true htolerance)⟩

/-- Two hosts of three, as two share a rack. -/
def crossSwitchRequest : SearchContext :=
  { loneRequest .sameSubzoneCrossSwtich ⟨9, "A", "r9"⟩ [] with count := 2 }

def crossSwitchPool : List TbRpDetail :=
  [⟨1, "A", "r1", "n1"⟩, ⟨2, "A", "r1", "n2"⟩, ⟨3, "A", "r3", "n3"⟩]

theorem picks_in_one_subZone_of_three : ∃ r,
    crossSwitchRequest.pickInstanceBase crossSwitchPool .still 10 (newPicker 2) = .returned r ∧
      r.2.satisfiedHostIds = [1, 3] ∧
      ∃ z, ∃ S : List TbRpDetail, (∀ host ∈ S, host ∈ crossSwitchPool ∧ host.subZone = z) ∧
        r.2.satisfiedHostIds = S.map TbRpDetail.bkHostID ∧
        (crossSwitchRequest.affinity = .sameSubzoneCrossSwtich → crossSwitchRequest.tolerance ≤ 0 →
          S.Pairwise Apart) := by
  obtain ⟨r, hr, hids⟩ := @exists_returned crossSwitchRequest crossSwitchPool .still 10 [1, 3]
    (by decide +kernel)
  exact ⟨r, hr, hids, picks_in_one_subZone (.inr rfl) rfl r hr⟩

end OnePlace

section CrossRack

variable {S : List TbRpDetail} {q : List Item} {rackId : String}

namespace SearchContext

/-- What the limit leaves of a rack; a current host takes up two places. -/
def rackRoom (o : SearchContext) (rackId : String) : ℕ :=
  (maxTolerated o.total o.tolerance -
    2 * o.currentHosts.countP fun host => host.rackId ≠ "" && host.rackId = rackId).toNat

/-- How many hosts of the pool the racks have room for. -/
def crossRackRoom (o : SearchContext) (insList : List TbRpDetail) : ℕ :=
  ∑ rackId ∈ insList.toFinset.image TbRpDetail.rackID,
    min (o.rackRoom rackId) (insList.toFinset.filter fun host => host.rackID = rackId).card

end SearchContext

/-- A cross-rack request that has picked `S` and has `q` left. -/
structure Filling (o : SearchContext) (insList S : List TbRpDetail) (q : List Item) (c : PickerObject) :
    Prop where
  limits : c.limits = o.configured.limits
  pool : ∀ host ∈ S, host ∈ insList
  tally : Tally true (fun _ => 0) o.configured.rackDistribute S c
  queue : c.priorityElements.lookup random = some q
  distinct : (q.map fun item => item.value.bkHostId).Nodup
  fresh : ∀ item ∈ q, item.value.bkHostId ∉ c.satisfiedHostIds
  items : ∀ item ∈ q, ∃ host ∈ insList, item.value = host.instanceObject
  waiting : ∀ host ∈ insList, host ∈ S ∨ ∃ item ∈ q, item.value = host.instanceObject

/-- What is set up for a request across racks with a tolerance. -/
structure RackTolerance (o : SearchContext) : Prop where
  affinity : o.affinity = .crossRack
  tolerance : 0 < o.tolerance
  count : 0 < o.count

theorem RackTolerance.configured (h : RackTolerance o) : o.configured =
    ({ newPicker o.count with affinity := .crossRack }.initRackToleranceConfig o.tolerance o.currentHosts
      o.count).initRackForCrossRack o.currentHosts := by
  simp only [SearchContext.configured, h.affinity]

/-- The limits that are in force. -/
structure RackLimits (o : SearchContext) (c : PickerObject) : Prop where
  count : c.count = o.count
  tolerance : c.tolerance = o.tolerance
  rackTolerance : c.rackTolerance = o.tolerance
  zone : c.maxPerSubZone = 0
  rack : c.maxPerRack = maxTolerated o.total o.tolerance
  current : c.currentHostsByRack = o.configured.currentHostsByRack

theorem RackTolerance.limits (h : RackTolerance o) (hlimits : c.limits = o.configured.limits) :
    RackLimits o c := by
  have hcurrent : c.currentHostsByRack = o.configured.currentHostsByRack :=
    congrArg Limits.currentHostsByRack hlimits
  rw [h.configured] at hlimits
  exact ⟨congrArg Limits.count hlimits, congrArg Limits.tolerance hlimits,
    congrArg Limits.rackTolerance hlimits, congrArg Limits.maxPerSubZone hlimits,
    congrArg Limits.maxPerRack hlimits, hcurrent⟩

theorem RackTolerance.rack_pos (h : RackTolerance o) (hlimits : c.limits = o.configured.limits) :
    0 < c.maxPerRack := by
  rw [(h.limits hlimits).rack]
  exact maxTolerated_pos (total_pos h.count) h.tolerance.le

theorem Filling.total (hfill : Filling o insList S q c) (h : RackTolerance o) (rackId : String) :
    c.getRackCurrentTotal random rackId =
      2 * (o.currentHosts.countP fun host => host.rackId ≠ "" && host.rackId = rackId) +
        S.countP fun host => host.rackID = rackId := by
  have hkey : ∀ id, buildRackKey random id = buildRackKey random rackId ↔ id = rackId := by
    intro id
    simp [buildRackKey]
  have hracks := hfill.tally.racks (h.rack_pos hfill.limits) (buildRackKey random rackId)
  unfold PickerObject.getRackCurrentTotal
  rw [hracks, (h.limits hfill.limits).current, h.configured]
  simp only [initRackForCrossRack, hkey, rackKey, queueKey, if_true]
  omega

theorem Filling.canAllocate_iff (hfill : Filling o insList S q c) (h : RackTolerance o) :
    c.canAllocateToRack random rackId = true ↔
      (c.getRackCurrentTotal random rackId : ℤ) < c.maxPerRack := by
  have hlimits := h.limits hfill.limits
  unfold PickerObject.canAllocateToRack
  rw [if_neg (h.rack_pos hfill.limits).ne', hlimits.tolerance, hlimits.rackTolerance]
  simp [h.tolerance.ne']

/-- A rack with room and with a host in the queue yields a host. -/
theorem Filling.step (hfill : Filling o insList S q c) (h : RackTolerance o)
    (hids : (insList.map TbRpDetail.bkHostID).Nodup) (hundone : c.pickerDone = false)
    (hroom : c.canAllocateToRack random rackId = true) (hitem : ∃ item ∈ q, item.value.rackId = rackId) :
    ∃ host q', (c.pickerOneFromRack rt random rackId).1 = true ∧
      Filling o insList (S ++ [host]) q' (c.pickerOneFromRack rt random rackId).2 := by
  have hperm : (c.popOrder rt q).Perm q := popOrder_perm
  unfold PickerObject.pickerOneFromRack
  rw [hfill.queue]
  dsimp only
  cases hfind : (c.popOrder rt q).find? fun item =>
      item.value.rackId = rackId && item.value.bkHostId ∉ c.satisfiedHostIds with
  | none =>
    obtain ⟨item, hin, hrack⟩ := hitem
    have hnot := List.find?_eq_none.mp hfind item (hperm.mem_iff.mpr hin)
    simp [hrack, hfill.fresh item hin] at hnot
  | some item =>
    have hrack : item.value.rackId = rackId := by
      have hfits := List.find?_some hfind
      simp only [Bool.and_eq_true, decide_eq_true_eq] at hfits
      exact hfits.1
    have hin : item ∈ q := hperm.mem_iff.mp (List.mem_of_find?_eq_some hfind)
    obtain ⟨host, hhost, hvalue⟩ := hfill.items item hin
    have hrest := (find_eraseP_perm hfind).trans hperm
    generalize (c.popOrder rt q).eraseP _ = rest at hrest ⊢
    have hapart := (hrest.map fun item => item.value.bkHostId).nodup_iff.mpr hfill.distinct
    obtain ⟨hnew, hdistinct⟩ := List.nodup_cons.mp hapart
    have hsub : ∀ i ∈ rest, i ∈ q := fun i hi => hrest.mem_iff.mp (List.mem_cons_of_mem _ hi)
    refine ⟨host, rest, rfl, ?_⟩
    dsimp only
    rw [hvalue]
    constructor
    · exact hfill.limits
    · intro other hother
      rcases List.mem_append.mp hother with hmem | hmem
      · exact hfill.pool other hmem
      · rw [List.mem_singleton.mp hmem]
        exact hhost
    · have hadmits : Admits (c.popTo random rest) random host.instanceObject := by
        refine ⟨hundone, hvalue ▸ hfill.fresh item hin, fun _ hmax => ?_, fun _ hmax => ?_⟩
        · exact absurd (h.limits hfill.limits).zone hmax.ne'
        · apply le_of_canAllocateToRack (v := host.instanceObject) _ hmax
          rw [← hvalue, hrack]
          exact hroom
      exact Tally.pick hfill.tally.frame hadmits ⟨rfl, rfl, rfl, rfl, rfl, .inl rfl⟩
    · exact lookup_popTo_self
    · exact hdistinct
    · intro i hi
      rw [show (((c.popTo random rest).select random host.instanceObject).recordRack random
        host.instanceObject).satisfiedHostIds = c.satisfiedHostIds ++ [host.bkHostID] from rfl]
      rw [List.mem_append, List.mem_singleton, not_or]
      refine ⟨hfill.fresh i (hsub i hi), fun heq => hnew (List.mem_map.mpr ⟨i, hi, ?_⟩)⟩
      exact heq.trans (congrArg InstanceObject.bkHostId hvalue).symm
    · exact fun i hi => hfill.items i (hsub i hi)
    · intro other hother
      rcases hfill.waiting other hother with hmem | ⟨i, hi, hsame⟩
      · exact .inl (List.mem_append_left _ hmem)
      · rcases List.mem_cons.mp (hrest.mem_iff.mpr hi) with rfl | hi
        · have hid : other.bkHostID = host.bkHostID :=
            congrArg InstanceObject.bkHostId (hsame.symm.trans hvalue)
          obtain rfl := List.inj_on_of_nodup_map hids hother hhost hid
          exact .inl (by simp)
        · exact .inr ⟨i, hi, hsame⟩

/-- All that is wanted is picked, or no rack with hosts left has room. -/
def Filled (o : SearchContext) (insList : List TbRpDetail) (c : PickerObject) : Prop :=
  ∃ S q, Filling o insList S q c ∧ (c.pickerDone = false →
    ∀ host ∈ insList, host ∈ S ∨ c.maxPerRack ≤ c.getRackCurrentTotal random host.rackID)

theorem Filling.mem_sortRackByBalance (hfill : Filling o insList S q c) (h : RackTolerance o) :
    rackId ∈ (c.sortRackByBalance rt random).1 ↔ (∃ item ∈ q, item.value.rackId = rackId) ∧
      c.canAllocateToRack random rackId = true := by
  refine inOrder_perm.mem_iff.trans ?_
  simp [hfill.queue, balanceCandidate, (h.limits hfill.limits).tolerance, h.tolerance.le,
    h.tolerance.ne', h.rack_pos hfill.limits]

theorem Filling.rackBalanced (hfill : Filling o insList S q c) (h : RackTolerance o)
    (hids : (insList.map TbRpDetail.bkHostID).Nodup) :
    (c.pickerSameSubZoneRackBalanced rt fuel random).Ensures (Filled o insList) := by
  refine iterate_ensures (fun a => ∃ S q, Filling o insList S q a) ?_ ⟨S, q, hfill⟩
  rintro a ⟨S, q, ha⟩
  cases hd : a.pickerDone with
  | true => exact Outcome.ensures_returned ⟨S, q, ha, fun hundone => by cases hd.symm.trans hundone⟩
  | false =>
    have hsorted : Filling o insList S q (a.sortRackByBalance rt random).2 :=
      ⟨ha.limits, ha.pool, ha.tally.frame, ha.queue, ha.distinct, ha.fresh, ha.items, ha.waiting⟩
    have hmem : ∀ rackId, rackId ∈ (a.sortRackByBalance rt random).1 ↔
        (∃ item ∈ q, item.value.rackId = rackId) ∧
          (a.sortRackByBalance rt random).2.canAllocateToRack random rackId = true :=
      fun rackId => ha.mem_sortRackByBalance h
    have hundone : (a.sortRackByBalance rt random).2.pickerDone = false := hd
    simp only [if_false, Bool.false_eq_true]
    generalize a.sortRackByBalance rt random = sorted at hsorted hmem hundone ⊢
    obtain ⟨racks, b⟩ := sorted
    cases racks with
    | nil =>
      apply Outcome.ensures_returned
      refine ⟨S, q, hsorted, fun _ host hhost => ?_⟩
      rcases hsorted.waiting host hhost with hpicked | ⟨item, hitem, hvalue⟩
      · exact .inl hpicked
      · right
        by_contra hlt
        have hroom := (hsorted.canAllocate_iff h).mpr (not_le.mp hlt)
        exact List.not_mem_nil ((hmem host.rackID).mpr ⟨⟨item, hitem, congrArg InstanceObject.rackId hvalue⟩,
          hroom⟩)
    | cons rackId racks =>
      obtain ⟨hitem, hroom⟩ := (hmem rackId).mp List.mem_cons_self
      obtain ⟨host, q', hpicked, hnext⟩ := @Filling.step _ _ rt _ _ _ _ hsorted h hids hundone hroom hitem
      have hfirst : pickerOneFromRacks rt random (rackId :: racks) b =
          (true, (b.pickerOneFromRack rt random rackId).2) := by
        unfold pickerOneFromRacks
        rw [if_pos hroom]
        generalize b.pickerOneFromRack rt random rackId = result at hpicked ⊢
        obtain ⟨picked, next⟩ := result
        obtain rfl : picked = true := hpicked
        rfl
      dsimp only
      rw [hfirst]
      simp only [List.isEmpty_cons, Bool.false_eq_true, if_false]
      split
      · rename_i hdone
        exact Outcome.ensures_returned ⟨_, q', hnext, fun hnot => by cases hdone.symm.trans hnot⟩
      · exact Outcome.ensures_returned ⟨_, q', hnext⟩

/-- The picks never go beyond the room, and come up to it unless all that is wanted is picked. -/
theorem Filled.done_iff (hfilled : Filled o insList c) (h : RackTolerance o) :
    c.satisfiedHostIds.length = o.count ↔ o.count ≤ o.crossRackRoom insList := by
  obtain ⟨S, q, hfill, hsettled⟩ := hfilled
  have hS : S.Nodup := (hfill.tally.ids ▸ hfill.tally.nodup).of_map
  have hsub : S.toFinset ⊆ insList.toFinset := fun host hhost =>
    List.mem_toFinset.mpr (hfill.pool host (List.mem_toFinset.mp hhost))
  have hlength : c.satisfiedHostIds.length = S.toFinset.card := by
    rw [hfill.tally.ids, List.length_map, List.toFinset_card_of_nodup hS]
  have hcount := (h.limits hfill.limits).count
  have hrack := (h.limits hfill.limits).rack
  have hwanted : S.toFinset.card ≤ o.count := by
    rw [List.toFinset_card_of_nodup hS, ← hcount]
    exact hfill.tally.length
  have hpicked : ∀ rackId, (S.toFinset.filter fun host => host.rackID = rackId).card =
      S.countP fun host => host.rackID = rackId := fun rackId => Capacity.card_filter_toFinset hS _
  have hsum := @Capacity.card_eq_sum_fibers _ _ _ insList.toFinset S.toFinset TbRpDetail.rackID hsub
  have hupper : S.toFinset.card ≤ o.crossRackRoom insList := by
    rw [hsum]
    apply Finset.sum_le_sum
    intro rackId _
    apply le_min
    · rw [hpicked]
      by_cases hnone : S.countP (fun host => host.rackID = rackId) = 0
      · rw [hnone]
        exact Nat.zero_le _
      · obtain ⟨host, hhost, hid⟩ := List.countP_pos_iff.mp (Nat.pos_of_ne_zero hnone)
        obtain rfl := of_decide_eq_true hid
        have hroom := hfill.tally.rackRoom host hhost
          (h.tolerance.le.trans_eq (h.limits hfill.limits).tolerance.symm) (h.rack_pos hfill.limits)
        rw [show queueKey true host = random from rfl, hfill.total h, hrack] at hroom
        unfold SearchContext.rackRoom
        omega
    · exact Finset.card_le_card (Finset.filter_subset_filter _ hsub)
  constructor
  · intro hdone
    omega
  · intro hroom
    by_contra hne
    have hundone : c.pickerDone = false := decide_eq_false (by rwa [hcount])
    have hlower : o.crossRackRoom insList ≤ S.toFinset.card := by
      rw [hsum]
      apply Finset.sum_le_sum
      intro rackId _
      by_cases hfull : ∃ host ∈ insList, host.rackID = rackId ∧ host ∉ S
      · obtain ⟨host, hhost, rfl, hnot⟩ := hfull
        have htotal := (hsettled hundone host hhost).resolve_left hnot
        rw [hfill.total h, hrack] at htotal
        apply (min_le_left _ _).trans
        rw [hpicked]
        unfold SearchContext.rackRoom
        omega
      · apply (min_le_right _ _).trans (Finset.card_le_card _)
        intro host hhost
        obtain ⟨hmem, hrack⟩ := Finset.mem_filter.mp hhost
        have hin : host ∈ S := by
          by_contra hnot
          exact hfull ⟨host, List.mem_toFinset.mp hmem, hrack, hnot⟩
        exact Finset.mem_filter.mpr ⟨List.mem_toFinset.mpr hin, hrack⟩
    omega

theorem crossRackRoom_le (insList : List TbRpDetail) : o.crossRackRoom insList ≤ insList.length := by
  calc
    o.crossRackRoom insList ≤ ∑ rackId ∈ insList.toFinset.image TbRpDetail.rackID,
        (insList.toFinset.filter fun host => host.rackID = rackId).card :=
      Finset.sum_le_sum fun _ _ => min_le_right _ _
    _ = insList.toFinset.card := (Capacity.card_eq_sum_fibers (Finset.Subset.refl _)).symm
    _ ≤ insList.length := List.toFinset_card_le insList

/-- Before anything is picked, all hosts are in the one queue. -/
theorem filling_analysed (h : RackTolerance o) (hids : (insList.map TbRpDetail.bkHostID).Nodup)
    (hne : insList ≠ []) :
    ∃ q, Filling o insList [] q (o.analyse insList true o.configured).2 ∧ q.length = insList.length := by
  have hlookup : ∀ key q, (o.queues insList true).lookup key = some q →
      q = insList.map (o.element insList true) := by
    intro key q hq
    obtain ⟨host, -, rfl⟩ := SearchContext.mem_queues.mp (AList.lookup_isSome.mp (by rw [hq]; rfl))
    rw [SearchContext.queue_of_lookup hq, List.filter_eq_self.mpr fun _ _ => by simp [queueKey]]
  have hdistinct : ((insList.map (o.element insList true)).map fun item => item.value.bkHostId).Nodup := by
    rw [List.map_map]
    exact hids
  have hnone : o.configured.satisfiedHostIds = [] := by rw [h.configured]; rfl
  rcases @SearchContext.analyse_cases o insList true o.configured with ⟨hfails, -⟩ | ⟨-, hanalyse⟩
  · obtain ⟨⟨key, q⟩, he, hdup⟩ := List.any_eq_true.mp hfails
    rw [hlookup key q (AList.mem_lookup_iff.mpr he)] at hdup
    exact absurd hdistinct (of_decide_eq_true hdup)
  · rw [hanalyse]
    obtain ⟨host, hhost⟩ := List.exists_mem_of_ne_nil _ hne
    obtain ⟨q, hq, -⟩ := @SearchContext.mem_queue o insList true host hhost
    obtain rfl := hlookup _ q hq
    refine ⟨_, ⟨?_, List.forall_mem_nil _, ⟨hnone, ?_, Nat.zero_le _, ?_, fun _ _ => rfl,
      List.forall_mem_nil _, List.forall_mem_nil _⟩, hq, hdistinct, ?_, ?_,
      fun host hhost => .inr ⟨_, List.mem_map_of_mem hhost, rfl⟩⟩, List.length_map _⟩
    · rw [h.configured]
      rfl
    · rw [hnone]
      exact List.nodup_nil
    · rw [h.configured]
      exact fun _ => rfl
    · intro item _
      rw [hnone]
      exact List.not_mem_nil
    · intro item hitem
      obtain ⟨host, hhost, rfl⟩ := List.mem_map.mp hitem
      exact ⟨host, hhost, rfl⟩

/-- There is no queue but the one. -/
theorem queueLen_analysed (z : String) :
    (o.analyse insList true o.configured).2.queueLen z ≤ insList.length ∧
      ((o.analyse insList true o.configured).2.queueLen z ≠ 0 → z = random) := by
  rcases @SearchContext.analyse_cases o insList true o.configured with ⟨-, h⟩ | ⟨-, h⟩
  · rw [h]
    exact ⟨Nat.zero_le _, fun hne => absurd rfl hne⟩
  · rw [h]
    unfold PickerObject.queueLen
    cases hq : (o.queues insList true).lookup z with
    | none => exact ⟨Nat.zero_le _, fun hne => absurd rfl hne⟩
    | some q =>
      obtain ⟨host, -, hkey⟩ := SearchContext.mem_queues.mp (AList.lookup_isSome.mp (by rw [hq]; rfl))
      rw [Option.getD_some, SearchContext.queue_of_lookup hq, List.length_map]
      exact ⟨List.length_filter_le _ _, fun _ => hkey.symm⟩

/-- Where no queue is long enough, no sub-zone is tried. -/
theorem eachSubZone_of_short {pick : String → PickerObject → Outcome PickerObject} {zones : List String}
    (hshort : ∀ z, c.queueLen z < c.count) : eachSubZone pick zones c = .returned c := by
  induction zones with
  | nil => rfl
  | cons z zones ih =>
    unfold eachSubZone
    rw [if_pos (.inl (hshort z))]
    exact ih

theorem Filling.balanced (hfill : Filling o insList [] q c) (h : RackTolerance o)
    (hids : (insList.map TbRpDetail.bkHostID).Nodup) (hlength : q.length = insList.length)
    (hwanted : o.count ≤ insList.length) (hzones : ∀ z, c.queueLen z ≠ 0 → z = random) :
    (c.pickerSameSubZoneBalanced rt fuel).Ensures (Filled o insList) := by
  have hcount := (h.limits hfill.limits).count
  have hqueue : c.queueLen random = insList.length := (queueLen_of_lookup hfill.queue).trans hlength
  have hpos : 0 < o.count := h.count
  have hone : (c.sortSubZoneNum rt false).1 = [random] := by
    apply List.perm_singleton.mp
    rw [List.perm_ext_iff_of_nodup nodup_sortSubZoneNum (List.nodup_singleton _)]
    intro z
    rw [mem_sortSubZoneNum, List.mem_singleton]
    constructor
    · exact fun hz => hzones z hz.1
    · rintro rfl
      exact ⟨by omega, nofun⟩
  have hrestart : Filling o insList [] q (c.sortSubZoneNum rt false).2.restart :=
    ⟨hfill.limits, nofun, ⟨rfl, List.nodup_nil, Nat.zero_le _, hfill.tally.zones, hfill.tally.racks, nofun,
      nofun⟩, hfill.queue, hfill.distinct, fun _ _ => List.not_mem_nil, hfill.items, hfill.waiting⟩
  have hstarts : ¬ ((c.sortSubZoneNum rt false).2.queueLen random < (c.sortSubZoneNum rt false).2.count ∨
      (c.sortSubZoneNum rt false).2.queueLen random = 0) := by
    have hsame : (c.sortSubZoneNum rt false).2.queueLen random = c.queueLen random := rfl
    have hsame' : (c.sortSubZoneNum rt false).2.count = c.count := rfl
    omega
  unfold PickerObject.pickerSameSubZoneBalanced
  dsimp only
  rw [hone]
  unfold eachSubZone
  rw [if_neg hstarts]
  refine (hrestart.rackBalanced h hids).bind fun a ha => ?_
  split <;> exact Outcome.ensures_returned ha

/-- A request across racks with a tolerance gets what it wants exactly if the racks have room for as many,
whatever is left open in Go. -/
theorem crossRack_picks_iff (h : RackTolerance o) (hspecial : o.specialHostIds = [])
    (hids : (insList.map TbRpDetail.bkHostID).Nodup) (hfuel : 3 * insList.length < fuel) :
    ∃ r, o.pickInstanceBase insList rt fuel (newPicker o.count) = .returned r ∧
      (r.2.satisfiedHostIds.length = o.count ↔ o.count ≤ o.crossRackRoom insList) := by
  have hstrong : o.affinity ≠ .crossSubzoneStrong := by
    rw [h.affinity]
    nofun
  have hreturns := @pickInstanceBase_returns o insList rt fuel hspecial h.count hstrong hfuel
  have hpicks : (o.pickInstanceBase insList rt fuel (newPicker o.count)).Ensures fun r =>
      (r.2.satisfiedHostIds.length = o.count ↔ o.count ≤ o.crossRackRoom insList) := by
    unfold SearchContext.pickInstanceBase
    rw [if_pos (by simp [hspecial])]
    simp only [h.affinity]
    rw [← h.configured]
    obtain ⟨p, sums, hsnd⟩ := @SearchContext.analyse_snd o insList o.configured true
    have hnone : (o.analyse insList true o.configured).2.satisfiedHostIds = [] := by
      rw [hsnd, h.configured]
      rfl
    have hcount : (o.analyse insList true o.configured).2.count = o.count := by
      rw [hsnd, h.configured]
      rfl
    have hbalanced : 0 < (o.analyse insList true o.configured).2.tolerance ∧
        0 < (o.analyse insList true o.configured).2.maxPerRack := by
      rw [hsnd, h.configured]
      exact ⟨h.tolerance, maxTolerated_pos (total_pos h.count) h.tolerance.le⟩
    unfold PickerObject.pickerSameSubZone
    rw [if_pos hbalanced]
    by_cases hfew : insList.length < o.count
    · unfold PickerObject.pickerSameSubZoneBalanced
      dsimp only
      rw [eachSubZone_of_short]
      · apply Outcome.ensures_returned
        have hroom := @crossRackRoom_le o insList
        have hids : ((o.analyse insList true o.configured).2.sortSubZoneNum rt false).2.satisfiedHostIds =
          [] := hnone
        rw [hids, List.length_nil]
        omega
      · intro z
        exact (queueLen_analysed z).1.trans_lt (hfew.trans_eq hcount.symm)
    · have hpos := h.count
      obtain ⟨q, hfill, hlength⟩ := filling_analysed h hids (List.ne_nil_of_length_pos (by omega))
      refine (hfill.balanced h hids hlength (by omega) fun z => (queueLen_analysed z).2).bind fun a ha => ?_
      exact Outcome.ensures_returned (ha.done_iff h)
  obtain ⟨r, hr, -, hiff⟩ := hreturns.and_ensures hpicks
  exact ⟨r, hr, hiff⟩

/-- The current host leaves room for one more on its rack. -/
def crossRackRequest : SearchContext :=
  { loneRequest .crossRack ⟨9, "A", "r1"⟩ [] with count := 2, tolerance := 1 }

theorem crossRack_picks_two : ∃ r,
    crossRackRequest.pickInstanceBase crossSwitchPool .still 10 (newPicker 2) = .returned r ∧
      r.2.satisfiedHostIds.length = 2 := by
  have hroom : 2 ≤ crossRackRequest.crossRackRoom crossSwitchPool := by decide +kernel
  obtain ⟨r, hr, hiff⟩ := @crossRack_picks_iff crossRackRequest crossSwitchPool .still 10
    ⟨rfl, by decide, by decide⟩ rfl (by decide) (by decide)
  exact ⟨r, hr, hiff.mpr hroom⟩

end CrossRack

end Resource
