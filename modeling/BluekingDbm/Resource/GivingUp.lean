import BluekingDbm.Resource.Attending

/-! The pickers that limit sub-zones only give up when they have attended to every host of the pool. So
they pick as many as are wanted wherever that many are picked by whoever attends to every host. -/
namespace Resource

open Loop PickerObject

variable {insList : List TbRpDetail} {rt : Runtime} {fuel : ℕ} {c₀ c c' : PickerObject} {z : String}
  {host : TbRpDetail} {crossSwitch : Bool} {keys zones : List String}

section Advances

/-- Whoever attends to every host of the pool has picked as many as are wanted. -/
def Suffices (insList : List TbRpDetail) (c₀ : PickerObject) : Prop :=
  ∀ c, Attended insList c₀ c → (∀ host ∈ insList, Attends c host) → c.pickerDone = true

theorem Waiting.queueLen_ne_zero (h : Waiting c host) : c.queueLen host.subZone ≠ 0 := by
  obtain ⟨q, hq, item, hitem, -⟩ := h
  rw [queueLen_of_lookup hq]
  exact (List.length_pos_of_mem hitem).ne'

/-- Hosts are only left where a sub-zone is full. -/
theorem Attended.done (h : Attended insList c₀ c) (hpool : Suffices insList c₀)
    (hfull : ∀ z, c.queueLen z ≠ 0 → c.maxPerSubZone ≤ c.getSubZoneCurrentTotal z) :
    c.pickerDone = true := by
  apply hpool c h
  intro host hhost
  rcases h.accounted host hhost with hattends | hwaiting
  · exact hattends
  · exact .inr (.inl (hfull _ hwaiting.queueLen_ne_zero))

theorem Attended.dropFull (h : Attended insList c₀ c)
    (hfull : c.maxPerSubZone ≤ c.getSubZoneCurrentTotal z) : Attended insList c₀ (c.drop z) := by
  apply h.drop
  intro host _ hz _
  subst hz
  exact .inr (.inl hfull)

theorem Attended.dropEmpty (h : Attended insList c₀ c) (hlen : c.queueLen z = 0) :
    Attended insList c₀ (c.drop z) := by
  apply h.drop
  intro host _ hz hwaiting
  subst hz
  exact absurd hlen hwaiting.queueLen_ne_zero

/-- Moves after which all is still accounted for. -/
structure Advances (insList : List TbRpDetail) (c₀ c c' : PickerObject) : Prop where
  moves : Moves c c'
  attended : Attended insList c₀ c'

theorem Advances.trans {c'' : PickerObject} (h : Advances insList c₀ c c')
    (h' : Advances insList c₀ c' c'') : Advances insList c₀ c c'' :=
  ⟨h.moves.trans h'.moves, h'.attended⟩

theorem Advances.empty (h : Advances insList c₀ c c') (hlen : c.queueLen z = 0) : c'.queueLen z = 0 :=
  Nat.le_zero.mp (hlen ▸ h.moves.queueLen_le z)

theorem Advances.full (h : Advances insList c₀ c c')
    (hfull : c.maxPerSubZone ≤ c.getSubZoneCurrentTotal z) :
    c'.maxPerSubZone ≤ c'.getSubZoneCurrentTotal z := by
  have hmax : c'.maxPerSubZone = c.maxPerSubZone := congrArg Limits.maxPerSubZone h.moves.limits
  have htotal := h.moves.zoneTotal_le z
  omega

end Advances

section Balanced

theorem Attended.zero (h : Attended insList c₀ c) (hzones : ZonesOnly c₀ crossSwitch) :
    c.tolerance = 0 → c.maxPerSubZone ≤ 1 := by
  rw [show c.tolerance = c₀.tolerance from congrArg Limits.tolerance h.limits,
    show c.maxPerSubZone = c₀.maxPerSubZone from congrArg Limits.maxPerSubZone h.limits]
  exact hzones.zero

/-- A sub-zone of a round is kept as it is, or dropped because it is full. -/
theorem canAllocateToCampus_full (hzero : c.tolerance = 0 → c.maxPerSubZone ≤ 1) :
    c.canAllocateToCampus z = (true, c) ∨ c.canAllocateToCampus z = (false, c.drop z) ∧
      c.maxPerSubZone ≤ c.getSubZoneCurrentTotal z := by
  unfold PickerObject.canAllocateToCampus
  split
  · rename_i hfull
    simp only [Bool.and_eq_true, Bool.not_eq_true'] at hfull
    exact .inr ⟨rfl, full_of_not_canAllocate hzero hfull.2⟩
  · exact .inl rfl

theorem filterValidCampuses_advances (hzones : ZonesOnly c₀ crossSwitch)
    (h : Attended insList c₀ c) :
    Advances insList c₀ c (filterValidCampuses keys c).2 ∧
      (filterValidCampuses keys c).2.pickerDone = c.pickerDone ∧
      ∀ z ∈ keys, z ∈ (filterValidCampuses keys c).1 ∨
        (filterValidCampuses keys c).2.queueLen z = 0 := by
  induction keys generalizing c with
  | nil => exact ⟨⟨.refl, h⟩, rfl, nofun⟩
  | cons y keys ih =>
    unfold filterValidCampuses
    split
    · rcases @canAllocateToCampus_full c y (h.zero hzones) with hkept | ⟨hdropped, hfull⟩
      · obtain ⟨hadvances, hdone, hgone⟩ := ih h
        simp only [hkept]
        refine ⟨hadvances, hdone, fun z hz => ?_⟩
        rcases List.mem_cons.mp hz with rfl | hz
        · exact .inl (by simp)
        · exact (hgone z hz).imp_left (List.mem_cons_of_mem y)
      · obtain ⟨hadvances, hdone, hgone⟩ := ih (h.dropFull hfull)
        simp only [hdropped]
        refine ⟨⟨moves_drop.trans hadvances.moves, hadvances.attended⟩, hdone, fun z hz => ?_⟩
        rcases List.mem_cons.mp hz with rfl | hz
        · exact .inr (hadvances.empty queueLen_drop)
        · exact hgone z hz
    · rename_i hempty
      have hlen : c.queueLen y = 0 := by simpa [PickerObject.isCampusAvailable] using hempty
      obtain ⟨hadvances, hdone, hgone⟩ := ih h
      refine ⟨hadvances, hdone, fun z hz => ?_⟩
      rcases List.mem_cons.mp hz with rfl | hz
      · exact .inr (hadvances.empty hlen)
      · exact hgone z hz

/-- After a pick the sub-zone is dropped if it is full, or if no host is left there. -/
theorem handlePostAllocation_advances (hzones : ZonesOnly c₀ crossSwitch) (h : Attended insList c₀ c)
    (hcounted : 0 < c.pickDistribute z) : Advances insList c₀ c (c.handlePostAllocation true z) := by
  unfold PickerObject.handlePostAllocation
  rw [if_pos rfl]
  split
  · rename_i htol
    refine ⟨moves_drop, h.dropFull ?_⟩
    have hone := h.zero hzones htol
    unfold PickerObject.getSubZoneCurrentTotal
    omega
  · split
    · rename_i hleft
      refine ⟨moves_drop, ?_⟩
      simp only [Bool.or_eq_true, Bool.not_eq_true', decide_eq_true_eq] at hleft
      rcases hleft with hfull | hempty
      · exact h.dropFull (full_of_not_canAllocate (h.zero hzones) hfull)
      · exact h.dropEmpty hempty
    · exact ⟨.refl, h⟩

/-- When a round yields nothing, no sub-zone of the round has a host left. -/
theorem attemptAllocationFromCampuses_advances (hids : (insList.map TbRpDetail.bkHostID).Nodup)
    (hzones : ZonesOnly c₀ crossSwitch) (h : Attended insList c₀ c) (hundone : c.pickerDone = false) :
    Advances insList c₀ c (attemptAllocationFromCampuses rt true crossSwitch keys c).2 ∧
      ((attemptAllocationFromCampuses rt true crossSwitch keys c).1 = false → ∀ z ∈ keys,
        (attemptAllocationFromCampuses rt true crossSwitch keys c).2.queueLen z = 0) := by
  induction keys generalizing c with
  | nil => exact ⟨⟨.refl, h⟩, fun _ => nofun⟩
  | cons y keys ih =>
    unfold attemptAllocationFromCampuses
    split
    · rcases @canAllocateToCampus_full c y (h.zero hzones) with hkept | ⟨hdropped, hfull⟩
      · simp only [hkept]
        have hgreedy : Greedy insList c₀ fun z c => c.pickerOneByPriority rt z crossSwitch :=
          greedy_byPriority hids hzones
        have hattended := hgreedy.attended y c h hundone
        have hdrained := hgreedy.drained y c h
        have hcounted := hgreedy.counted y c h
        have hmoves : Moves c (c.pickerOneByPriority rt y crossSwitch).2 :=
          moves_pickerOneByPriority hundone
        have hdone := @undone_of_not_picked rt c y crossSwitch
        generalize c.pickerOneByPriority rt y crossSwitch = result at *
        obtain ⟨picked, a⟩ := result
        have hpicked : Advances insList c₀ c a := ⟨hmoves, hattended⟩
        cases picked with
        | true =>
          exact ⟨hpicked.trans (handlePostAllocation_advances hzones hattended (hcounted rfl)), nofun⟩
        | false =>
          obtain ⟨hadvances, hgone⟩ := ih hattended ((hdone rfl).trans hundone)
          refine ⟨hpicked.trans hadvances, fun hnone z hz => ?_⟩
          rcases List.mem_cons.mp hz with rfl | hz
          · exact hadvances.empty (hdrained rfl)
          · exact hgone hnone z hz
      · simp only [hdropped]
        obtain ⟨hadvances, hgone⟩ := ih (h.dropFull hfull) hundone
        refine ⟨⟨moves_drop.trans hadvances.moves, hadvances.attended⟩, fun hnone z hz => ?_⟩
        rcases List.mem_cons.mp hz with rfl | hz
        · exact hadvances.empty queueLen_drop
        · exact hgone hnone z hz
    · rename_i hempty
      have hlen : c.queueLen y = 0 := by simpa [PickerObject.isCampusAvailable] using hempty
      obtain ⟨hadvances, hgone⟩ := ih h hundone
      refine ⟨hadvances, fun hnone z hz => ?_⟩
      rcases List.mem_cons.mp hz with rfl | hz
      · exact hadvances.empty hlen
      · exact hgone hnone z hz

/-- A sub-zone that the balanced order leaves out has no hosts or is full. -/
theorem full_of_not_mem_balance (hzero : c.tolerance = 0 → c.maxPerSubZone ≤ 1)
    (hlen : c.queueLen z ≠ 0) (hz : z ∉ (c.sortSubZoneByBalance rt).1) :
    c.maxPerSubZone ≤ c.getSubZoneCurrentTotal z := by
  rw [mem_sortSubZoneByBalance] at hz
  have hnot := Bool.eq_false_iff.mpr fun hcandidate => hz ⟨hlen, hcandidate⟩
  unfold PickerObject.balanceCandidate at hnot
  rcases Bool.and_eq_false_iff.mp hnot with hroom | hfirst
  · exact full_of_not_canAllocate hzero (Bool.or_eq_false_iff.mp hroom).2
  · simp only [Bool.or_eq_false_iff, Bool.not_eq_false', decide_eq_true_eq, decide_eq_false_iff_not]
      at hfirst
    have hone := hzero hfirst.1
    omega

theorem updateCampusOrder_covers (hzero : c.tolerance = 0 → c.maxPerSubZone ≤ 1)
    (hlen : c.queueLen z ≠ 0) : z ∈ (c.updateCampusOrder rt keys).1 ∨
      c.maxPerSubZone ≤ c.getSubZoneCurrentTotal z := by
  by_cases hz : z ∈ (c.sortSubZoneByBalance rt).1
  · left
    have hne : (c.sortSubZoneByBalance rt).1.isEmpty = false := by
      cases hnil : (c.sortSubZoneByBalance rt).1 with
      | nil => simp [hnil] at hz
      | cons y ys => rfl
    simp only [PickerObject.updateCampusOrder, hne, Bool.false_eq_true, if_false]
    exact hz
  · exact .inr (full_of_not_mem_balance hzero hlen hz)

theorem pickerCrossSubzoneBalanced_done (hids : (insList.map TbRpDetail.bkHostID).Nodup)
    (hzones : ZonesOnly c₀ crossSwitch) (hpool : Suffices insList c₀) (h : Attended insList c₀ c)
    (hkeys : keys ≠ []) : (c.pickerCrossSubzoneBalanced rt fuel true crossSwitch keys).Ensures
      fun c' => c'.pickerDone = true := by
  have hloop : (iterate (balancedRound rt true crossSwitch) fuel (keys, c)).Ensures
      fun s => s.2.pickerDone = true := by
    refine iterate_ensures (fun s => Attended insList c₀ s.2 ∧ s.1 ≠ []) ?_ ⟨h, hkeys⟩
    rintro ⟨keys, a⟩ ⟨ha, hkeys⟩
    unfold balancedRound
    simp only
    split
    · rename_i hleave
      apply Outcome.ensures_returned
      simpa [hkeys] using hleave
    · rename_i hgo
      have hundone : a.pickerDone = false := by
        simp only [Bool.or_eq_true, not_or] at hgo
        exact Bool.eq_false_iff.mpr hgo.2
      have hcovers := fun z => @updateCampusOrder_covers rt a z keys (ha.zero hzones)
      have hdraw : (a.updateCampusOrder rt keys).2 = { a with draws := a.draws + 1 } := rfl
      generalize a.updateCampusOrder rt keys = order at hcovers hdraw ⊢
      obtain ⟨keys', b⟩ := order
      simp only at hcovers hdraw ⊢
      subst hdraw
      obtain ⟨hfilter, hdone, hvalid⟩ := @filterValidCampuses_advances insList c₀
        { a with draws := a.draws + 1 } crossSwitch keys' hzones ha.draw
      generalize filterValidCampuses keys' _ = valid at hfilter hdone hvalid ⊢
      obtain ⟨keys'', d⟩ := valid
      simp only at hfilter hdone hvalid ⊢
      obtain ⟨hattempt, hgone⟩ := @attemptAllocationFromCampuses_advances insList rt c₀ d crossSwitch
        keys'' hids hzones hfilter.attended (hdone.trans hundone)
      cases hresult : attemptAllocationFromCampuses rt true crossSwitch keys'' d with
      | mk picked e =>
        rw [hresult] at hattempt hgone
        cases picked with
        | true =>
          refine Outcome.ensures_returned ⟨hattempt.attended, ?_⟩
          rintro rfl
          cases hresult
        | false =>
          apply Outcome.ensures_returned
          refine hattempt.attended.done hpool fun z hz => ?_
          have hd : d.queueLen z ≠ 0 := mt hattempt.empty hz
          have hb : a.queueLen z ≠ 0 := mt hfilter.empty hd
          rcases hcovers z hb with hmem | hfull
          · rcases hvalid z hmem with hmem | hempty
            · exact absurd (hgone rfl z hmem) hz
            · exact absurd hempty hd
          · exact (hfilter.trans hattempt).full hfull
  exact hloop.bind fun s hs => Outcome.ensures_returned hs

/-- The first of the three orders serves the request. -/
theorem pickerCrossSubzone_done (hids : (insList.map TbRpDetail.bkHostID).Nodup)
    (hzones : ZonesOnly c₀ crossSwitch) (htol : 0 ≤ c₀.tolerance) (hpool : Suffices insList c₀)
    (h : Attended insList c₀ c) (hundone : c.pickerDone = false) :
    (c.pickerCrossSubzone rt fuel true crossSwitch).Ensures fun c' => c'.pickerDone = true := by
  have hcovers := fun z => @full_of_not_mem_balance rt c z (h.zero hzones)
  have hdraw : (c.sortSubZoneByBalance rt).2 = { c with draws := c.draws + 1 } := rfl
  unfold PickerObject.pickerCrossSubzone crossSubzoneStrategies
  simp only
  generalize c.sortSubZoneByBalance rt = order at hcovers hdraw ⊢
  obtain ⟨keys, a⟩ := order
  simp only at hcovers hdraw ⊢
  subst hdraw
  split
  · rename_i hempty
    have hdone := h.done hpool fun z hz => hcovers z hz (by simp [List.isEmpty_iff.mp hempty])
    rw [hundone] at hdone
    cases hdone
  · rename_i hne
    have htol' : 0 ≤ c.tolerance :=
      htol.trans_eq (congrArg Limits.tolerance h.limits).symm
    have hmax : 0 < c.maxPerSubZone :=
      hzones.zone.trans_eq (congrArg Limits.maxPerSubZone h.limits).symm
    rw [if_pos (by simp [htol', hmax])]
    refine (pickerCrossSubzoneBalanced_done hids hzones hpool h.draw (by simpa using hne)).bind ?_
    intro b hb
    rw [if_pos hb]
    exact Outcome.ensures_returned hb

end Balanced

section Channel

variable {pick : String → PickerObject → Bool × PickerObject} {retired : String → PickerObject → Bool}
  {passDrained : Bool}

theorem attended_pickAndRetire {pq : List Item} (hpick : Greedy insList c₀ pick)
    (hretired : ∀ c, Attended insList c₀ c → retired z c = true →
      c.maxPerSubZone ≤ c.getSubZoneCurrentTotal z)
    (h : Attended insList c₀ c) (hundone : c.pickerDone = false)
    (hq : c.priorityElements.lookup z = some pq) :
    Attended insList c₀ ((if pq.isEmpty then c.drop z else c).pickAndRetire pick retired z) := by
  have hstart : Attended insList c₀ (if pq.isEmpty then c.drop z else c) := by
    split
    · rename_i hempty
      refine h.dropEmpty ?_
      rw [queueLen_of_lookup hq, List.isEmpty_iff.mp hempty, List.length_nil]
    · exact h
  have hundone' : (if pq.isEmpty then c.drop z else c).pickerDone = false := by
    split <;> exact hundone
  generalize (if pq.isEmpty then c.drop z else c) = a at hstart hundone' ⊢
  have hattended := hpick.attended z a hstart hundone'
  unfold PickerObject.pickAndRetire
  generalize pick z a = result at hattended ⊢
  obtain ⟨picked, b⟩ := result
  simp only at hattended ⊢
  split
  · rename_i hboth
    exact hattended.dropFull (hretired b hattended (Bool.and_eq_true_iff.mp hboth).2)
  · exact hattended

/-- Where sub-zones are only dropped when they are drained or full, the loop leaves when all is served
or no queue is left. -/
theorem channelLoop_done (hpick : Greedy insList c₀ pick)
    (hretired : ∀ z c, Attended insList c₀ c → retired z c = true →
      c.maxPerSubZone ≤ c.getSubZoneCurrentTotal z)
    (hpool : Suffices insList c₀) (h : Attended insList c₀ c) (hundone : c.pickerDone = false) :
    (c.channelLoop fuel passDrained pick retired true keys).Ensures fun c' => c'.pickerDone = true := by
  have hnone : ∀ a : PickerObject, Attended insList c₀ a → a.priorityElements.size = 0 →
      a.pickerDone = true := by
    intro a ha hsize
    refine ha.done hpool fun z hz => ?_
    exact absurd (mem_of_queueLen hz) (QueueMap.not_mem_of_size_eq_zero hsize)
  have hloop : (iterate (channelTurn passDrained pick retired true) fuel (keys, c)).Ensures
      fun s => s.2.pickerDone = true := by
    refine iterate_ensures (fun s => Attended insList c₀ s.2 ∧ s.2.pickerDone = false) ?_ ⟨h, hundone⟩
    rintro ⟨_ | ⟨z, chan⟩, a⟩ ⟨ha, hundone⟩
    · intro turn hturn
      cases hturn
    · have hempty : a.priorityElements.lookup z = some [] → Attended insList c₀ (a.drop z) := by
        intro hq
        exact ha.dropEmpty (by rw [queueLen_of_lookup hq, List.length_nil])
      have hreturns := @channelTurn_returns a z chan passDrained true pick retired
        (Attended insList c₀) fun pq hq _ => attended_pickAndRetire hpick (hretired z) ha hundone hq
      refine hreturns.ensures.mono fun turn hturn => ?_
      cases hturn with
      | empty hsize => exact hnone a ha hsize
      | missing => exact ⟨ha, hundone⟩
      | lastDrained hsize hq => exact hnone (a.drop z) (hempty hq) hsize
      | passed _ _ hq => exact ⟨hempty hq, hundone⟩
      | done _ hdone => exact hdone
      | sentBack hattended hundone => exact ⟨hattended, hundone⟩
      | last _ hsend => cases hsend
      | next _ _ hsend => cases hsend
  exact hloop.bind fun s hs => Outcome.ensures_returned hs

theorem pickerMajorityElectionCrossSubzone_done (hids : (insList.map TbRpDetail.bkHostID).Nodup)
    (hzones : ZonesOnly c₀ true) (hpool : Suffices insList c₀) (h : Attended insList c₀ c)
    (hundone : c.pickerDone = false) (hexist : c.existSubZone = []) :
    (c.pickerMajorityElectionCrossSubzone rt fuel).Ensures fun c' => c'.pickerDone = true := by
  have hmem : ∀ z, c.queueLen z ≠ 0 → z ∈ (c.sortSubZoneNum rt true).1 := by
    intro z hz
    refine mem_sortSubZoneNum.mpr ⟨hz, fun _ => ?_⟩
    simp [elementNotInArry, hexist]
  have hdraw : Attended insList c₀ (c.sortSubZoneNum rt true).2 := h.draw
  unfold PickerObject.pickerMajorityElectionCrossSubzone
  simp only
  split
  · rename_i hempty
    apply Outcome.ensures_returned
    refine hdraw.done hpool fun z hz => ?_
    have := hmem z hz
    rw [List.isEmpty_iff.mp hempty] at this
    cases this
  · refine channelLoop_done (greedy_byPriority hids hzones) (fun z a ha hretired => ?_) hpool hdraw hundone
    -- what is noted for the sub-zone was picked there
    have hlen := ha.mapped z
    have hmax := of_decide_eq_true hretired
    unfold PickerObject.getSubZoneCurrentTotal
    omega

end Channel

section BigPool

variable {s : Bool × PickerObject}

/-- A big sub-zone is emptied until it is full or drained, or all is served. -/
theorem takeFromSubzone_advances (hids : (insList.map TbRpDetail.bkHostID).Nodup)
    (haffinity : c₀.affinity ≠ .majorityElectionDistri) (h : Attended insList c₀ s.2) :
    (takeFromSubzone rt fuel z s).Ensures fun t => Advances insList c₀ s.2 t.2 ∧
      (t.2.pickerDone = false → t.2.canStillTakeFromSubzone z = false) := by
  refine iterate_ensures (fun t => Advances insList c₀ s.2 t.2) ?_ ⟨.refl, h⟩
  rintro ⟨allocated, a⟩ ha
  simp only
  split
  · rename_i htake
    obtain ⟨-, hd⟩ := Bool.and_eq_true_iff.mp htake
    have hundone : a.pickerDone = false := by simpa using hd
    have hgreedy : Greedy insList c₀ fun z c => c.pickerOneByPriorityWithDualTolerance rt z :=
      greedy_dual hids haffinity
    have hattended := hgreedy.attended z a ha.attended hundone
    have hdrained := hgreedy.drained z a ha.attended
    have hmoves := @moves_dual rt a z hundone
    generalize a.pickerOneByPriorityWithDualTolerance rt z = result at hattended hdrained hmoves ⊢
    obtain ⟨picked, b⟩ := result
    have hpicked := ha.trans ⟨hmoves, hattended⟩
    cases picked with
    | true => exact Outcome.ensures_returned hpicked
    | false =>
      refine Outcome.ensures_returned ⟨hpicked, fun _ => ?_⟩
      have hlen : b.queueLen z = 0 := hdrained rfl
      simp [PickerObject.canStillTakeFromSubzone, hlen]
  · rename_i hleave
    refine Outcome.ensures_returned ⟨ha, fun hundone => ?_⟩
    simpa [hundone] using hleave

theorem takeFromSubzones_advances (hids : (insList.map TbRpDetail.bkHostID).Nodup)
    (haffinity : c₀.affinity ≠ .majorityElectionDistri) (h : Attended insList c₀ s.2) :
    (takeFromSubzones rt fuel zones s).Ensures fun t => Advances insList c₀ s.2 t.2 ∧
      (t.2.pickerDone = false → ∀ z ∈ zones, t.2.queueLen z = 0) := by
  induction zones generalizing s with
  | nil => exact Outcome.ensures_returned ⟨⟨.refl, h⟩, fun _ => nofun⟩
  | cons y zones ih =>
    refine (takeFromSubzone_advances hids haffinity h).bind fun ⟨allocated, a⟩ ⟨ha, hstuck⟩ => ?_
    have hdrop : Advances insList c₀ s.2 (if a.canStillTakeFromSubzone y then a else a.drop y) ∧
        ((if a.canStillTakeFromSubzone y then a else a.drop y).pickerDone = false →
          (if a.canStillTakeFromSubzone y then a else a.drop y).queueLen y = 0) := by
      split
      · rename_i htake
        exact ⟨ha, fun hundone => absurd htake (Bool.eq_false_iff.mp (hstuck hundone))⟩
      · rename_i htake
        refine ⟨ha.trans ⟨moves_drop, ?_⟩, fun _ => queueLen_drop⟩
        have hstop := Bool.eq_false_iff.mpr htake
        unfold PickerObject.canStillTakeFromSubzone at hstop
        rcases Bool.and_eq_false_iff.mp hstop with hempty | hfull
        · exact ha.attended.dropEmpty (by simpa using hempty)
        · simp only [Bool.not_eq_false', Bool.and_eq_true, decide_eq_true_eq] at hfull
          exact ha.attended.dropFull hfull.2
    obtain ⟨hdrop, hlen⟩ := hdrop
    simp only
    generalize (if a.canStillTakeFromSubzone y then a else a.drop y) = b at hdrop hlen ⊢
    split
    · rename_i hdone
      refine Outcome.ensures_returned ⟨hdrop, fun hundone => ?_⟩
      rw [hdone] at hundone
      cases hundone
    · rename_i hdone
      refine (ih hdrop.attended).mono fun t ⟨ht, hgone⟩ => ?_
      refine ⟨hdrop.trans ht, fun hundone z hz => ?_⟩
      rcases List.mem_cons.mp hz with rfl | hz
      · exact ht.empty (hlen (Bool.eq_false_iff.mpr hdone))
      · exact hgone hundone z hz

theorem pickerCrossSubzoneBigPoolFirst_done (hids : (insList.map TbRpDetail.bkHostID).Nodup)
    (haffinity : c₀.affinity ≠ .majorityElectionDistri) (hpool : Suffices insList c₀)
    (h : Attended insList c₀ c) :
    (c.pickerCrossSubzoneBigPoolFirst rt fuel).Ensures fun c' => c'.pickerDone = true := by
  refine iterate_ensures (Attended insList c₀) ?_ h
  intro a ha
  have hmem : ∀ z, a.queueLen z ≠ 0 → z ∈ (a.sortSubzonesByRemainingInventoryDesc rt).1 := by
    intro z hz
    refine inOrder_perm.mem_iff.mpr (List.mem_filter.mpr ⟨?_, by simpa using hz⟩)
    exact AList.mem_keys.mp (mem_of_queueLen hz)
  have hdraw : Attended insList c₀ (a.sortSubzonesByRemainingInventoryDesc rt).2 := ha.draw
  have hsame : ∀ z, (a.sortSubzonesByRemainingInventoryDesc rt).2.queueLen z = a.queueLen z :=
    fun _ => rfl
  simp only
  generalize a.sortSubzonesByRemainingInventoryDesc rt = order at hmem hdraw hsame ⊢
  obtain ⟨zones, b⟩ := order
  simp only at hmem hdraw hsame ⊢
  split
  · rename_i hdone
    exact Outcome.ensures_returned hdone
  · split
    · rename_i hempty
      apply Outcome.ensures_returned
      refine hdraw.done hpool fun z hz => ?_
      have := hmem z (hsame z ▸ hz)
      rw [List.isEmpty_iff.mp hempty] at this
      cases this
    · refine (takeFromSubzones_advances hids haffinity hdraw).bind ?_
      rintro ⟨allocated, d⟩ ⟨hd, hgone⟩
      simp only at hd hgone ⊢
      split
      · apply Outcome.ensures_returned
        by_contra hundone
        have hundone := Bool.eq_false_iff.mpr hundone
        have hdone := hd.attended.done hpool fun z hz => by
          have hb := mt hd.empty hz
          exact absurd (hgone hundone z (hmem z (hsame z ▸ hb))) hz
        rw [hundone] at hdone
        cases hdone
      · exact Outcome.ensures_returned hd.attended

end BigPool

end Resource
