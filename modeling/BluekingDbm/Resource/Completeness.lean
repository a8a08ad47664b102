import BluekingDbm.Resource.GivingUp

/-! Which requests get as many hosts as there is room for. -/
namespace Resource

open Loop PickerObject Binary64 Capacity

variable {o : SearchContext} {insList : List TbRpDetail} {rt : Runtime} {fuel : ℕ}
  {c₀ c : PickerObject} {host : TbRpDetail}

section Caps

/-- The rack of a host: a sub-zone, and the id of the rack there. -/
def TbRpDetail.rack (host : TbRpDetail) : String × String := (host.subZone, host.rackID)

/-- The room that a picker's limits leave beside the current hosts. The majority picker takes at most one
host from a rack, and none from one without an id or with a current host. Where racks are not limited,
each has room for the whole pool. -/
def PickerObject.caps (c : PickerObject) (poolSize : ℕ) :
    Rooms TbRpDetail String (String × String) where
  zone := TbRpDetail.subZone
  rack := TbRpDetail.rack
  zoneRoom z := (c.maxPerSubZone - c.currentHostsBySubZone z).toNat
  rackRoom rack :=
    if c.affinity = .majorityElectionDistri then
      if c.crossRackCheckInSubZone rack.1 rack.2 then 1 else 0
    else if 0 < c.maxPerRack then
      (c.maxPerRack - c.currentHostsByRack (buildRackKey rack.1 rack.2)).toNat
    else poolSize

/-- Where racks are limited, each has a counter of its own. -/
def OwnCounters (insList : List TbRpDetail) (c : PickerObject) : Prop :=
  0 < c.maxPerRack → c.affinity ≠ .majorityElectionDistri ∧
    ∀ a ∈ insList, ∀ b ∈ insList, rackKey false a = rackKey false b → a.rack = b.rack

variable {S : List TbRpDetail}

/-- A rack that the majority picker takes nothing from had no room, or one host was taken there. -/
theorem rackRoom_le_of_refused {n : ℕ} (hmajority : c₀.affinity = .majorityElectionDistri)
    (hnoted : ∀ z, c.rackIdsBySubZone z = c₀.rackIdsBySubZone z ++
      (S.filter fun host => host.subZone = z).map TbRpDetail.rackID)
    (hrefused : c.crossRackCheckInSubZone host.subZone host.rackID = false) :
    (c₀.caps n).rackRoom host.rack ≤
      (S.toFinset.filter fun other => other.rack = host.rack).card := by
  show (if c₀.affinity = .majorityElectionDistri then
    if c₀.crossRackCheckInSubZone host.subZone host.rackID then 1 else 0 else _) ≤ _
  rw [if_pos hmajority]
  cases hroom : c₀.crossRackCheckInSubZone host.subZone host.rackID with
  | false => exact Nat.zero_le _
  | true =>
    rw [if_pos rfl, Nat.succ_le_iff, Finset.card_pos]
    have hnew : host.rackID ∈ (S.filter fun other => other.subZone = host.subZone).map
        TbRpDetail.rackID := by
      have hnone := mt crossRackCheckInSubZone_eq_false.mpr (ne_of_eq_of_ne hroom nofun)
      rw [not_or] at hnone
      have hmem := (crossRackCheckInSubZone_eq_false.mp hrefused).resolve_left hnone.1
      rw [hnoted] at hmem
      exact (List.mem_append.mp hmem).resolve_left hnone.2
    obtain ⟨other, hother, hid⟩ := List.mem_map.mp hnew
    obtain ⟨hmem, hz⟩ := List.mem_filter.mp hother
    refine ⟨other, Finset.mem_filter.mpr ⟨List.mem_toFinset.mpr hmem, ?_⟩⟩
    exact Prod.ext (of_decide_eq_true hz) hid

/-- The picks of whoever attends to the whole pool settle it, and so they are as many as there is room
for. -/
theorem Attended.value_le (h : Attended insList c₀ c) (hids : (insList.map TbRpDetail.bkHostID).Nodup)
    (hracks : OwnCounters insList c₀) (hall : ∀ host ∈ insList, Attends c host) :
    (c₀.caps insList.length).value insList.toFinset ≤ c.satisfiedHostIds.length := by
  obtain ⟨S, hpool, ht, hnoted⟩ := h.picks
  have hnodup : (S.map TbRpDetail.bkHostID).Nodup := ht.ids ▸ ht.nodup
  have hS : S.Nodup := hnodup.of_map
  have hmaxZone : c.maxPerSubZone = c₀.maxPerSubZone := congrArg Limits.maxPerSubZone h.limits
  have hzones : c.currentHostsBySubZone = c₀.currentHostsBySubZone :=
    congrArg Limits.currentHostsBySubZone h.limits
  have hmaxRack : c.maxPerRack = c₀.maxPerRack := congrArg Limits.maxPerRack h.limits
  have hcounters : c.currentHostsByRack = c₀.currentHostsByRack :=
    congrArg Limits.currentHostsByRack h.limits
  have haffinity : c.affinity = c₀.affinity := congrArg Limits.affinity h.limits
  have hsettles : (c₀.caps insList.length).Settles S.toFinset insList.toFinset := by
    intro host hhost
    have hhost := List.mem_toFinset.mp hhost
    rcases hall host hhost with hpicked | hzone | ⟨hlimited, hrack⟩ | ⟨hmajority, hrefused⟩
    · left
      rw [ht.ids] at hpicked
      exact List.mem_toFinset.mpr (mem_of_picked hids hpool hhost hpicked)
    · right; left
      show (c₀.maxPerSubZone - c₀.currentHostsBySubZone host.subZone).toNat ≤
        (S.toFinset.filter fun other => other.subZone = host.subZone).card
      rw [card_filter_toFinset hS]
      have htaken : c.pickDistribute host.subZone =
          0 + S.countP fun other => other.subZone = host.subZone := ht.zones host.subZone
      unfold PickerObject.getSubZoneCurrentTotal at hzone
      rw [hmaxZone, hzones] at hzone
      omega
    · right; right
      obtain ⟨hplain, hown⟩ := hracks (hmaxRack ▸ hlimited)
      have htaken := ht.racks hlimited (rackKey false host)
      have hsame : (S.countP fun other => rackKey false other = rackKey false host) ≤
          (S.toFinset.filter fun other => other.rack = host.rack).card := by
        rw [card_filter_toFinset hS]
        refine List.countP_mono_left fun other hother hkey => ?_
        simp only [decide_eq_true_eq] at hkey ⊢
        exact hown other (hpool other hother) host hhost hkey
      have hroom : (c₀.caps insList.length).rackRoom host.rack =
          (c₀.maxPerRack - c₀.currentHostsByRack (rackKey false host)).toNat := by
        show (if _ then _ else if 0 < c₀.maxPerRack then _ else _) = _
        rw [if_neg hplain, if_pos (hmaxRack ▸ hlimited)]
        rfl
      show (c₀.caps insList.length).rackRoom host.rack ≤
        (S.toFinset.filter fun other => other.rack = host.rack).card
      rw [hroom]
      have hrack : c.maxPerRack ≤ ((c.currentHostsByRack (rackKey false host) +
        c.rackDistribute (rackKey false host) : ℕ) : ℤ) := hrack
      rw [hmaxRack, hcounters] at hrack
      omega
    · right; right
      have hmajority : c₀.affinity = .majorityElectionDistri := haffinity ▸ hmajority
      exact rackRoom_le_of_refused hmajority (hnoted hmajority) hrefused
  have hsub : S.toFinset ⊆ insList.toFinset := fun host hhost =>
    List.mem_toFinset.mpr (hpool host (List.mem_toFinset.mp hhost))
  have hvalue := hsettles.value_le hsub fun a _ b _ hab => congrArg Prod.fst hab
  rw [List.toFinset_card_of_nodup hS] at hvalue
  rw [ht.ids, List.length_map]
  exact hvalue

/-- Where there is room for as many as are wanted, whoever attends to the whole pool has picked them. -/
theorem suffices_of_value (hids : (insList.map TbRpDetail.bkHostID).Nodup)
    (hracks : OwnCounters insList c₀)
    (hvalue : c₀.count ≤ (c₀.caps insList.length).value insList.toFinset) : Suffices insList c₀ := by
  intro c h hall
  have hle := h.value_le hids hracks hall
  obtain ⟨S, -, ht, -⟩ := h.picks
  have hlength := ht.length
  have hcount : c.count = c₀.count := congrArg Limits.count h.limits
  have hpicked : c.satisfiedHostIds.length = S.length := by rw [ht.ids, List.length_map]
  exact decide_eq_true (show c.satisfiedHostIds.length = c.count by omega)

end Caps

section Analysed

/-- The picker of a request that starts on the queues of the pool. -/
def SearchContext.analysed (o : SearchContext) (insList : List TbRpDetail) : PickerObject :=
  { o.configured with
    priorityElements := o.queues insList false
    subZonePrioritySumMap := o.subZonePrioritySums insList false }

theorem nodup_queue {key : String} {q : List Item} (hids : (insList.map TbRpDetail.bkHostID).Nodup)
    (hq : (o.queues insList false).lookup key = some q) :
    (q.map fun item => item.value.bkHostId).Nodup := by
  rw [SearchContext.queue_of_lookup hq, List.map_map]
  exact hids.sublist (List.filter_sublist.map TbRpDetail.bkHostID)

theorem analyse_of_distinct (hids : (insList.map TbRpDetail.bkHostID).Nodup) :
    o.analyse insList false o.configured = (none, o.analysed insList) := by
  rcases @SearchContext.analyse_cases o insList false o.configured with ⟨hfails, -⟩ | ⟨-, h⟩
  · obtain ⟨⟨key, q⟩, he, hdup⟩ := List.any_eq_true.mp hfails
    exact absurd (nodup_queue hids (AList.mem_lookup_iff.mpr he)) (of_decide_eq_true hdup)
  · exact h

theorem analysed_queues (hids : (insList.map TbRpDetail.bkHostID).Nodup) :
    Analysed o insList false (o.analysed insList) := by
  have hanalysed := @analysed_analyse o insList false o.configured
  rw [analyse_of_distinct hids] at hanalysed
  exact hanalysed

/-- Nothing is picked yet. -/
structure Untouched (c : PickerObject) : Prop where
  satisfied : c.satisfiedHostIds = []
  mapped : ∀ z, c.satisfiedHostIdsMap z = []
  picks : ∀ z, c.pickDistribute z = 0
  racks : ∀ k, c.rackDistribute k = 0

theorem attended_analysed (hids : (insList.map TbRpDetail.bkHostID).Nodup)
    (h : Untouched o.configured) :
    Attended insList (o.analysed insList) (o.analysed insList) := by
  have hnone : (o.analysed insList).satisfiedHostIds = [] := h.satisfied
  have hmapped : ∀ z, (o.analysed insList).satisfiedHostIdsMap z = [] := h.mapped
  refine ⟨rfl, (analysed_queues hids).sourced, fun _ _ hq => nodup_queue hids hq, fun _ _ _ _ _ => ?_,
    fun host hhost => ?_, fun z => ?_, [], nofun, ⟨hnone, ?_, Nat.zero_le _, h.picks, fun _ => h.racks,
      nofun, nofun⟩, fun _ z => (List.append_nil _).symm⟩
  · rw [hnone]
    exact List.not_mem_nil
  · obtain ⟨q, hq, hmem⟩ := @SearchContext.mem_queue o insList false host hhost
    exact .inr ⟨q, hq, _, hmem, rfl⟩
  · rw [hmapped]
    exact Nat.zero_le _
  · rw [hnone]
    exact List.nodup_nil

theorem undone_analysed (h : Untouched o.configured) (hwanted : 0 < o.configured.count) :
    (o.analysed insList).pickerDone = false := by
  have hnone : (o.analysed insList).satisfiedHostIds = [] := h.satisfied
  have hne : 0 ≠ (o.analysed insList).count := hwanted.ne
  unfold PickerObject.pickerDone
  rw [hnone]
  exact decide_eq_false hne

/-- A request's picker that ends, and ends with all that is wanted. -/
theorem served_of_done {pick : PickerObject → Outcome PickerObject}
    (hreturns : (pick c₀).Returns (Moves c₀))
    (hdone : (pick c₀).Ensures fun c => c.pickerDone = true) :
    ∃ picker, ((pick c₀).bind fun picker => Outcome.returned ((none : Option String), picker)) =
      .returned (none, picker) ∧ picker.satisfiedHostIds.length = c₀.count := by
  obtain ⟨picker, hrun, hmoves, hdone⟩ := hreturns.and_ensures hdone
  rw [hrun]
  exact ⟨picker, rfl, (of_decide_eq_true hdone).trans hmoves.count⟩

theorem tolerance_nonneg {total : ℤ} {tolerance : ℚ} (htotal : 0 < total)
    (h : 0 < maxTolerated total tolerance) : 0 ≤ tolerance := by
  by_contra hneg
  have hneg := not_le.mp hneg
  have htotal' : (0 : ℚ) < total := by exact_mod_cast htotal
  have hshare : rounded (total * tolerance) ≤ 0 :=
    rounded_nonpos (mul_neg_of_pos_of_neg htotal' hneg)
  unfold maxTolerated at h
  rw [if_neg hneg.ne] at h
  have hceil : ⌈rounded (total * tolerance)⌉ ≤ 0 := Int.ceil_le.mpr (by exact_mod_cast hshare)
  omega

end Analysed

section Complete

/-- The room that a request leaves. -/
def SearchContext.caps (o : SearchContext) (insList : List TbRpDetail) :
    Rooms TbRpDetail String (String × String) := o.configured.caps insList.length

/-- The request gets as many hosts as it wants wherever there is room for as many, whatever is left
open in Go. -/
def SearchContext.Completes (o : SearchContext) (insList : List TbRpDetail) : Prop :=
  ∀ rt fuel, 3 * insList.length < fuel → o.count ≤ (o.caps insList).value insList.toFinset →
    ∃ picker, o.pickInstanceBase insList rt fuel (newPicker o.count) = .returned (none, picker) ∧
      picker.satisfiedHostIds.length = o.count

/-- What a tolerance for sub-zones alone sets up. -/
structure Toleranced (o : SearchContext) : Prop where
  untouched : Untouched o.configured
  affinity : o.configured.affinity = o.affinity
  count : o.configured.count = o.count
  tolerance : o.configured.tolerance = o.tolerance
  zone : o.configured.maxPerSubZone = maxTolerated o.total o.tolerance
  rack : o.configured.maxPerRack = 0

theorem toleranced (h : o.affinity = .crosSubzone ∨ o.affinity = .majorityElectionDistri) :
    Toleranced o := by
  have hconfigured : o.configured = { newPicker o.count with
      affinity := o.affinity }.initToleranceConfig o.tolerance o.currentHosts o.count := by
    rcases h with ha | ha <;> simp only [SearchContext.configured, ha]
  refine ⟨?_, ?_, ?_, ?_, ?_, ?_⟩ <;> rw [hconfigured]
  · exact ⟨rfl, fun _ => rfl, fun _ => rfl, fun _ => rfl⟩
  all_goals rfl

theorem Toleranced.zonesOnly {crossSwitch : Bool} (h : Toleranced o) (hcount : 0 < o.count)
    (hvalue : o.count ≤ (o.caps insList).value insList.toFinset)
    (hswitch : crossSwitch = true → o.affinity = .majorityElectionDistri) :
    ZonesOnly (o.analysed insList) crossSwitch ∧ 0 ≤ o.configured.tolerance := by
  obtain ⟨host, -, hroom⟩ := Rooms.exists_zoneRoom_pos (hcount.trans_le hvalue)
  have hroom : 0 < (o.configured.maxPerSubZone - o.configured.currentHostsBySubZone host.subZone).toNat :=
    hroom
  have hzone : 0 < o.configured.maxPerSubZone := by omega
  have htol : 0 ≤ o.configured.tolerance := by
    rw [h.tolerance]
    exact tolerance_nonneg (total_pos hcount) (h.zone ▸ hzone)
  refine ⟨⟨h.rack.le, hzone, fun hzero => ?_, fun hswitched => h.affinity.trans (hswitch hswitched)⟩, htol⟩
  have hzero : o.tolerance = 0 := h.tolerance.symm.trans hzero
  show o.configured.maxPerSubZone ≤ 1
  rw [h.zone, hzero]
  exact le_of_eq (if_pos rfl)

/-- A picking that returns, and with all that is wanted wherever the pool suffices, completes. -/
theorem completes_of_pick (pick : Runtime → ℕ → PickerObject → Outcome PickerObject)
    (hids : (insList.map TbRpDetail.bkHostID).Nodup) (huntouched : Untouched o.configured)
    (hwanted : o.configured.count = o.count) (hracks : OwnCounters insList (o.analysed insList))
    (hrun : o.analyse insList false o.configured = (none, o.analysed insList) → ∀ rt fuel,
      o.pickInstanceBase insList rt fuel (newPicker o.count) =
        (pick rt fuel (o.analysed insList)).bind fun picker => .returned (none, picker))
    (hreturns : ∀ rt fuel, 3 * insList.length < fuel → Analysed o insList false (o.analysed insList) →
      (pick rt fuel (o.analysed insList)).Returns (Moves (o.analysed insList)))
    (hdone : o.count ≤ (o.caps insList).value insList.toFinset → ∀ rt fuel,
      Suffices insList (o.analysed insList) → Attended insList (o.analysed insList) (o.analysed insList) →
        (pick rt fuel (o.analysed insList)).Ensures fun c => c.pickerDone = true) :
    o.Completes insList := by
  intro rt fuel hfuel hvalue
  have hpool : Suffices insList (o.analysed insList) :=
    suffices_of_value hids hracks (hwanted.trans_le hvalue)
  rw [hrun (analyse_of_distinct hids), ← hwanted]
  apply served_of_done
  · exact hreturns rt fuel hfuel (analysed_queues hids)
  · exact hdone hvalue rt fuel hpool (attended_analysed hids huntouched)

theorem completes_crosSubzone (ha : o.affinity = .crosSubzone) (hspecial : o.specialHostIds = [])
    (hcount : 0 < o.count) (hids : (insList.map TbRpDetail.bkHostID).Nodup) :
    o.Completes insList := by
  have hlimits : Toleranced o := toleranced (.inl ha)
  have hundone : (o.analysed insList).pickerDone = false :=
    undone_analysed hlimits.untouched (hcount.trans_eq hlimits.count.symm)
  refine completes_of_pick (fun rt fuel c => c.pickerCrossSubzone rt fuel true false) hids
    hlimits.untouched hlimits.count (fun hlimited => absurd hlimits.rack hlimited.ne') ?_ ?_ ?_
  · intro hanalyse rt fuel
    simp only [SearchContext.configured, ha] at hanalyse
    unfold SearchContext.pickInstanceBase
    rw [if_pos (by simp [hspecial])]
    simp only [ha, hanalyse]
  · intro rt fuel hfuel hqueues
    exact pickerCrossSubzone_once_returns hundone hqueues.unvisited hqueues.within (by omega)
  · intro hvalue rt fuel hpool hattended
    obtain ⟨hzones, htol⟩ : ZonesOnly (o.analysed insList) false ∧ _ :=
      hlimits.zonesOnly hcount hvalue fun h => absurd h Bool.false_ne_true
    exact pickerCrossSubzone_done hids hzones htol hpool hattended hundone

theorem completes_majorityElectionDistri (ha : o.affinity = .majorityElectionDistri)
    (hspecial : o.specialHostIds = []) (hcount : 0 < o.count)
    (hids : (insList.map TbRpDetail.bkHostID).Nodup) : o.Completes insList := by
  have hlimits : Toleranced o := toleranced (.inr ha)
  have hundone : (o.analysed insList).pickerDone = false :=
    undone_analysed hlimits.untouched (hcount.trans_eq hlimits.count.symm)
  have hexist : (o.analysed insList).existSubZone = [] := by
    show o.configured.existSubZone = []
    simp only [SearchContext.configured, ha]
    rfl
  refine completes_of_pick (fun rt fuel c => c.pickerMajorityElectionCrossSubzone rt fuel)
    hids hlimits.untouched hlimits.count (fun hlimited => absurd hlimits.rack hlimited.ne') ?_ ?_ ?_
  · intro hanalyse rt fuel
    simp only [SearchContext.configured, ha] at hanalyse
    unfold SearchContext.pickInstanceBase
    rw [if_pos (by simp [hspecial])]
    simp only [ha, hanalyse]
  · intro rt fuel hfuel hqueues
    exact pickerMajorityElectionCrossSubzone_returns hundone hexist hqueues.stocked hqueues.within hfuel
  · intro hvalue rt fuel hpool hattended
    obtain ⟨hzones, -⟩ : ZonesOnly (o.analysed insList) true ∧ _ :=
      hlimits.zonesOnly hcount hvalue fun _ => ha
    exact pickerMajorityElectionCrossSubzone_done hids hzones hpool hattended hundone hexist

theorem configured_weak (ha : o.affinity = .crossSubzoneWeak) : o.configured =
    { newPicker o.count with affinity := .crossSubzoneWeak }.initDualToleranceConfig
      o.currentHosts o.count (1 / 2) (1 / 2) := by
  simp only [SearchContext.configured, ha]

theorem completes_crossSubzoneWeak (ha : o.affinity = .crossSubzoneWeak)
    (hspecial : o.specialHostIds = []) (hids : (insList.map TbRpDetail.bkHostID).Nodup)
    (hracks : ∀ a ∈ insList, ∀ b ∈ insList, rackKey false a = rackKey false b → a.rack = b.rack) :
    o.Completes insList := by
  have hconfigured := configured_weak ha
  have huntouched : Untouched o.configured := by
    rw [hconfigured]
    exact ⟨rfl, fun _ => rfl, fun _ => rfl, fun _ => rfl⟩
  have hwanted : o.configured.count = o.count := by
    rw [hconfigured]
    rfl
  have haffinity : (o.analysed insList).affinity = .crossSubzoneWeak := by
    show o.configured.affinity = _
    rw [hconfigured]
    rfl
  have hweak : (o.analysed insList).affinity ≠ .majorityElectionDistri := by
    rw [haffinity]
    nofun
  refine completes_of_pick (fun rt fuel c => c.pickerCrossSubzoneBigPoolFirst rt fuel) hids
    huntouched hwanted (fun _ => ⟨hweak, hracks⟩) ?_ ?_ ?_
  · intro hanalyse rt fuel
    rw [hconfigured] at hanalyse
    unfold SearchContext.pickInstanceBase
    rw [if_pos (by simp [hspecial])]
    simp only [ha, hanalyse]
    unfold PickerObject.pickerCrossSubzoneWithRackTolerance
    rw [if_pos haffinity]
  · intro rt fuel hfuel hqueues
    have hload : (o.analysed insList).load < fuel := lt_of_le_of_lt hqueues.within.load (by omega)
    exact pickerCrossSubzoneBigPoolFirst_returns hload
  · intro _ rt fuel hpool hattended
    exact pickerCrossSubzoneBigPoolFirst_done hids hweak hpool hattended

end Complete

section SharedCounter

variable {a b : String × String} {racks : Set (String × String)} {affinity : Affinity}

def pairRequest : SearchContext where
  affinity := .crossSubzoneWeak
  count := 2
  tolerance := 0
  currentHosts := []
  specialHostIds := []
  resourcePriority _ := 0

def pairPool (a b : String × String) : List TbRpDetail :=
  [⟨1, a.1, a.2, "n1"⟩, ⟨2, b.1, b.2, "n2"⟩]

theorem distinct_pairPool : ((pairPool a b).map TbRpDetail.bkHostID).Nodup := by
  show [(1 : ℤ), 2].Nodup
  decide

/-- Racks with the same key are in different sub-zones, if they are different at all. -/
theorem subZone_ne_of_key (hne : a ≠ b) (hkey : buildRackKey a.1 a.2 = buildRackKey b.1 b.2) :
    a.1 ≠ b.1 := by
  intro hz
  refine hne (Prod.ext hz ?_)
  unfold buildRackKey at hkey
  rw [hz] at hkey
  exact (String.append_right_inj _).mp hkey

theorem limits_pairRequest : pairRequest.configured.maxPerSubZone = 1 ∧
    pairRequest.configured.maxPerRack = 1 := by
  decide +kernel

/-- One host of each of two sub-zones. -/
theorem value_pairPool (hz : a.1 ≠ b.1) :
    pairRequest.count ≤ (pairRequest.caps (pairPool a b)).value (pairPool a b).toFinset := by
  obtain ⟨hzone, hrack⟩ := limits_pairRequest
  have hzoneRoom : ∀ z, (pairRequest.caps (pairPool a b)).zoneRoom z = 1 := by
    intro z
    show (pairRequest.configured.maxPerSubZone - 0).toNat = 1
    rw [hzone]
    rfl
  have hrackRoom : ∀ rack, (pairRequest.caps (pairPool a b)).rackRoom rack = 1 := by
    intro rack
    show (if 0 < pairRequest.configured.maxPerRack then
      (pairRequest.configured.maxPerRack - 0).toNat else _) = 1
    rw [hrack]
    rfl
  have hsame : ∀ x ∈ (pairPool a b).toFinset, ∀ y ∈ (pairPool a b).toFinset,
      x.subZone = y.subZone → x = y := by
    intro x hx y hy hxy
    simp only [pairPool, List.mem_toFinset, List.mem_cons, List.not_mem_nil, or_false] at hx hy
    rcases hx with rfl | rfl <;> rcases hy with rfl | rfl
    · rfl
    · exact absurd hxy hz
    · exact absurd hxy.symm hz
    · rfl
  have hfits : (pairRequest.caps (pairPool a b)).Fits (pairPool a b).toFinset := by
    refine ⟨fun z => ?_, fun rack => ?_⟩
    · rw [hzoneRoom, Finset.card_le_one]
      intro x hx y hy
      obtain ⟨hx, hxz⟩ := Finset.mem_filter.mp hx
      obtain ⟨hy, hyz⟩ := Finset.mem_filter.mp hy
      exact hsame x hx y hy (hxz.trans hyz.symm)
    · rw [hrackRoom, Finset.card_le_one]
      intro x hx y hy
      obtain ⟨hx, hxr⟩ := Finset.mem_filter.mp hx
      obtain ⟨hy, hyr⟩ := Finset.mem_filter.mp hy
      exact hsame x hx y hy (congrArg Prod.fst (hxr.trans hyr.symm))
  have hcard : (pairPool a b).toFinset.card = 2 :=
    List.toFinset_card_of_nodup distinct_pairPool.of_map
  exact hcard.symm.le.trans (hfits.card_le_value (Finset.Subset.refl _))

/-- Where two racks share a counter, a host in one takes the room of the other. -/
theorem not_completes_pairPool (hkey : buildRackKey a.1 a.2 = buildRackKey b.1 b.2) (hne : a ≠ b) :
    ¬ pairRequest.Completes (pairPool a b) := by
  intro h
  have hfuel : 3 * (pairPool a b).length < 7 := show 3 * 2 < 7 by decide
  obtain ⟨picker, hrun, hpicked⟩ := h .still 7 hfuel (value_pairPool (subZone_ne_of_key hne hkey))
  have haccounted := accounted_reaches (reaches_of_returned rfl (by decide) hfuel hrun)
  obtain ⟨zones, racks, S, hpool, ht⟩ := haccounted.tally
  obtain ⟨sums, hlimits⟩ := haccounted.limits
  have hmax : picker.maxPerRack = 1 :=
    (congrArg Limits.maxPerRack hlimits).trans limits_pairRequest.2
  have htol : picker.tolerance = pairRequest.configured.tolerance := congrArg Limits.tolerance hlimits
  have hlength : S.length = 2 := by
    rw [ht.ids, List.length_map] at hpicked
    exact hpicked
  have hkeys : ∀ host ∈ S, rackKey false host = buildRackKey a.1 a.2 := by
    intro host hhost
    have hmem := hpool host hhost
    simp only [pairPool, List.mem_cons, List.not_mem_nil, or_false] at hmem
    rcases hmem with rfl | rfl
    · rfl
    · exact hkey.symm
  have htwo : (S.countP fun host => rackKey false host = buildRackKey a.1 a.2) = 2 := by
    rw [← hlength]
    exact List.countP_eq_length.mpr fun host hhost => decide_eq_true (hkeys host hhost)
  obtain ⟨host, hhost⟩ := List.exists_mem_of_length_pos (show 0 < S.length by omega)
  have hroom := ht.rackRoom host hhost (by rw [htol]; decide +kernel) (by rw [hmax]; decide)
  have hkeyed : buildRackKey (queueKey false host) host.rackID = buildRackKey a.1 a.2 :=
    hkeys host hhost
  have htaken : picker.rackDistribute (buildRackKey a.1 a.2) = racks (buildRackKey a.1 a.2) +
      S.countP fun host => rackKey false host = buildRackKey a.1 a.2 := ht.racks (by rw [hmax]; decide) _
  have hroom : ((picker.currentHostsByRack (buildRackKey (queueKey false host) host.rackID) +
      picker.rackDistribute (buildRackKey (queueKey false host) host.rackID) : ℕ) : ℤ) ≤
      picker.maxPerRack := hroom
  rw [hkeyed, hmax] at hroom
  omega

/-- Every request with this affinity for hosts in these racks, where the pool has distinct ids and no
hosts are designated, is complete. -/
def CompleteOn (affinity : Affinity) (racks : Set (String × String)) : Prop :=
  ∀ (o : SearchContext) (insList : List TbRpDetail), o.affinity = affinity → o.specialHostIds = [] →
    0 < o.count → (insList.map TbRpDetail.bkHostID).Nodup → (∀ host ∈ insList, host.rack ∈ racks) →
    o.Completes insList

end SharedCounter

end Resource
