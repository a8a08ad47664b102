import BluekingDbm.Resource.Spread

/-! What a picker has left when it gives up: every host of the pool is picked, or refused for want of
room. A host that was refused once is refused for ever. -/
namespace Resource

open Loop PickerObject

variable {insList S : List TbRpDetail} {rt : Runtime} {fuel : ℕ} {c₀ c c' : PickerObject}
  {z key : String} {host : TbRpDetail} {v : InstanceObject} {crossSwitch : Bool}

section Refused

/-- The host's sub-zone or rack has no room any more, or the majority picker takes nothing from the
rack. -/
def PickerObject.Refuses (c : PickerObject) (host : TbRpDetail) : Prop :=
  c.maxPerSubZone ≤ c.getSubZoneCurrentTotal host.subZone ∨
    0 < c.maxPerRack ∧ c.maxPerRack ≤ c.getRackCurrentTotal host.subZone host.rackID ∨
    c.affinity = .majorityElectionDistri ∧
      c.crossRackCheckInSubZone host.subZone host.rackID = false

/-- The host needs no more attention. -/
def Attends (c : PickerObject) (host : TbRpDetail) : Prop :=
  host.bkHostID ∈ c.satisfiedHostIds ∨ c.Refuses host

/-- The writes for a host taken, where the majority picker notes its rack. -/
structure TakesNoted (key : String) (v : InstanceObject) (c c' : PickerObject) : Prop
    extends Takes key v c c' where
  noted : c'.rackIdsBySubZone =
      Function.update c.rackIdsBySubZone key (c.rackIdsBySubZone key ++ [v.rackId]) ∨
    c.affinity ≠ .majorityElectionDistri ∧ c'.rackIdsBySubZone = c.rackIdsBySubZone
  mapped : c'.satisfiedHostIdsMap =
    Function.update c.satisfiedHostIdsMap key (c.satisfiedHostIdsMap key ++ [v.bkHostId])

theorem TakesNoted.rackIds (h : TakesNoted key v c c') (z : String) :
    c.rackIdsBySubZone z ⊆ c'.rackIdsBySubZone z := by
  rcases h.noted with heq | ⟨-, heq⟩
  · rw [heq]
    by_cases hz : z = key
    · subst hz
      rw [Function.update_self]
      exact List.subset_append_left _ _
    · rw [Function.update_of_ne hz]
      exact List.Subset.refl _
  · rw [heq]
    exact List.Subset.refl _

theorem crossRackCheckInSubZone_eq_false {rackId : String} :
    c.crossRackCheckInSubZone z rackId = false ↔
      Text.isEmpty rackId = true ∨ rackId ∈ c.rackIdsBySubZone z := by
  unfold PickerObject.crossRackCheckInSubZone
  cases Text.isEmpty rackId <;> simp

theorem Attends.takes (h : Attends c host) (htakes : TakesNoted key v c c') : Attends c' host := by
  have hmaxZone : c'.maxPerSubZone = c.maxPerSubZone := congrArg Limits.maxPerSubZone htakes.limits
  have hmaxRack : c'.maxPerRack = c.maxPerRack := congrArg Limits.maxPerRack htakes.limits
  have haffinity : c'.affinity = c.affinity := congrArg Limits.affinity htakes.limits
  rcases h with hpicked | hzone | ⟨hmax, hrack⟩ | ⟨hmajority, hrack⟩
  · left
    rw [htakes.satisfied]
    exact List.mem_append_left _ hpicked
  · right; left
    rw [hmaxZone, htakes.zoneTotal]
    have := le_bump c.pickDistribute key host.subZone
    unfold PickerObject.getSubZoneCurrentTotal at hzone
    omega
  · right; right; left
    rw [hmaxRack, htakes.rackTotal hmax]
    have := le_bump c.rackDistribute (buildRackKey key v.rackId) (buildRackKey host.subZone host.rackID)
    unfold PickerObject.getRackCurrentTotal at hrack
    omega
  · right; right; right
    refine ⟨haffinity.trans hmajority, crossRackCheckInSubZone_eq_false.mpr ?_⟩
    refine (crossRackCheckInSubZone_eq_false.mp hrack).imp id fun hmem => ?_
    exact htakes.rackIds _ hmem

end Refused

section Attended

/-- What is known of a picker that started as `c₀` and only takes what there is room for: no queued host
is picked, each host of the pool is queued or needs no more attention, and the counters are those of the
picks. -/
structure Attended (insList : List TbRpDetail) (c₀ c : PickerObject) : Prop where
  limits : c.limits = c₀.limits
  sourced : Sourced insList false c
  distinct : ∀ key q, c.priorityElements.lookup key = some q →
    (q.map fun item => item.value.bkHostId).Nodup
  unpicked : ∀ key q, c.priorityElements.lookup key = some q →
    ∀ item ∈ q, item.value.bkHostId ∉ c.satisfiedHostIds
  accounted : ∀ host ∈ insList, Attends c host ∨ Waiting c host
  mapped : ∀ z, (c.satisfiedHostIdsMap z).length ≤ c.pickDistribute z
  picks : ∃ S, (∀ host ∈ S, host ∈ insList) ∧ Tally false (fun _ => 0) (fun _ => 0) S c ∧
    (c₀.affinity = .majorityElectionDistri → ∀ z, c.rackIdsBySubZone z = c₀.rackIdsBySubZone z ++
      (S.filter fun host => host.subZone = z).map TbRpDetail.rackID)

theorem Attended.visit (h : Attended insList c₀ c) : Attended insList c₀ (c.visit z) := by
  obtain ⟨S, hpool, ht, hnoted⟩ := h.picks
  exact ⟨h.limits, h.sourced, h.distinct, h.unpicked, h.accounted, h.mapped, S, hpool, ht.frame, hnoted⟩

theorem Attended.draw {n : ℕ} (h : Attended insList c₀ c) :
    Attended insList c₀ { c with draws := n } := by
  obtain ⟨S, hpool, ht, hnoted⟩ := h.picks
  exact ⟨h.limits, h.sourced, h.distinct, h.unpicked, h.accounted, h.mapped, S, hpool, ht.frame, hnoted⟩

/-- A sub-zone may be dropped when its hosts need no more attention. -/
theorem Attended.drop (h : Attended insList c₀ c)
    (hattends : ∀ host ∈ insList, host.subZone = z → Waiting c host → Attends c host) :
    Attended insList c₀ (c.drop z) := by
  obtain ⟨S, hpool, ht, hnoted⟩ := h.picks
  have hlookup : ∀ y q, (c.drop z).priorityElements.lookup y = some q →
      c.priorityElements.lookup y = some q := by
    intro y q hq
    by_cases hy : y = z
    · subst hy
      rw [lookup_drop_self] at hq
      cases hq
    · rwa [lookup_drop hy] at hq
  refine ⟨h.limits, h.sourced.drop, fun y q hq => h.distinct y q (hlookup y q hq),
    fun y q hq => h.unpicked y q (hlookup y q hq), fun host hhost => ?_, h.mapped, S, hpool, ht.frame,
    hnoted⟩
  rcases h.accounted host hhost with hattended | hwaiting
  · exact .inl hattended
  · by_cases hz : host.subZone = z
    · exact .inl (hattends host hhost hz hwaiting)
    · obtain ⟨q, hq, hitem⟩ := hwaiting
      exact .inr ⟨q, (lookup_drop hz).trans hq, hitem⟩

/-- The queues that are left when a queue is shortened. -/
theorem queue_popTo {P : String → List Item → Prop} {rest : List Item}
    (h : ∀ y q, c.priorityElements.lookup y = some q → P y q)
    (hrest : P key rest) : ∀ y q, (c.popTo key rest).priorityElements.lookup y = some q → P y q := by
  intro y q hq
  by_cases hy : y = key
  · subst hy
    rw [lookup_popTo_self] at hq
    obtain rfl := Option.some_inj.mp hq
    exact hrest
  · rw [lookup_popTo hy] at hq
    exact h y q hq

/-- Popping hosts that are refused. -/
theorem Attended.popTo {pq skipped rest : List Item} (h : Attended insList c₀ c)
    (hq : c.priorityElements.lookup z = some pq) (hperm : (skipped ++ rest).Perm pq)
    (hskip : ∀ item ∈ skipped, ∀ host : TbRpDetail, host.subZone = z →
      item.value = host.instanceObject → Attends c host) :
    Attended insList c₀ (c.popTo z rest) := by
  obtain ⟨S, hpool, ht, hnoted⟩ := h.picks
  have hrest : rest ⊆ pq := fun item hitem => hperm.subset (List.mem_append_right _ hitem)
  have hnodup : ((skipped ++ rest).map fun item => item.value.bkHostId).Nodup :=
    (hperm.map _).nodup_iff.mpr (h.distinct z pq hq)
  rw [List.map_append] at hnodup
  refine ⟨h.limits, h.sourced.popTo hq hrest, queue_popTo h.distinct hnodup.of_append_right,
    queue_popTo h.unpicked fun item hitem => h.unpicked z pq hq item (hrest hitem), fun host hhost => ?_,
    h.mapped, S, hpool, ht.frame, hnoted⟩
  refine settled_or_waiting hq lookup_popTo_self (fun y hy => lookup_popTo hy) (fun _ => id) ?_
    (h.accounted host hhost)
  intro item hitem
  rcases List.mem_append.mp (hperm.mem_iff.mpr hitem) with hmem | hmem
  · exact .inr fun host hz hv => hskip item hmem host hz hv
  · exact .inl hmem

/-- A host is in one queue at most. -/
theorem Attended.key_unique {q q' : List Item} {item other : Item} (h : Attended insList c₀ c)
    (hids : (insList.map TbRpDetail.bkHostID).Nodup)
    (hq : c.priorityElements.lookup z = some q) (hitem : item ∈ q)
    (hq' : c.priorityElements.lookup y = some q') (hother : other ∈ q')
    (heq : other.value.bkHostId = item.value.bkHostId) : y = z := by
  obtain ⟨picked, hpicked, hz, hv⟩ := h.sourced z q hq item hitem
  obtain ⟨host, hhost, hy, hvalue⟩ := h.sourced y q' hq' other hother
  rw [hvalue, hv] at heq
  have hsame := List.inj_on_of_nodup_map hids hhost hpicked heq
  exact hy.symm.trans ((congrArg (queueKey false) hsame).trans hz)

/-- The majority picker notes the rack of the host that it takes. -/
theorem noted_take {S : List TbRpDetail} {picked : TbRpDetail}
    (haffinity : c.affinity = .majorityElectionDistri)
    (hnoted : ∀ z, c.rackIdsBySubZone z = c₀.rackIdsBySubZone z ++
      (S.filter fun host => host.subZone = z).map TbRpDetail.rackID)
    (htakes : TakesNoted picked.subZone picked.instanceObject c c') :
    ∀ z, c'.rackIdsBySubZone z = c₀.rackIdsBySubZone z ++
      ((S ++ [picked]).filter fun host => host.subZone = z).map TbRpDetail.rackID := by
  intro y
  rcases htakes.noted with heq | ⟨hne, -⟩
  · rw [heq, List.filter_append, List.map_append]
    by_cases hy : picked.subZone = y
    · subst hy
      rw [Function.update_self, hnoted]
      simp [TbRpDetail.instanceObject]
    · rw [Function.update_of_ne (Ne.symm hy), hnoted]
      simp [hy]
  · exact absurd haffinity hne

/-- Popping hosts up to one that is taken. That one is in no other queue. -/
theorem Attended.take {pq skipped rest : List Item} {item : Item} (h : Attended insList c₀ c)
    (hids : (insList.map TbRpDetail.bkHostID).Nodup)
    (hq : c.priorityElements.lookup z = some pq) (hperm : (skipped ++ item :: rest).Perm pq)
    (hskip : ∀ item ∈ skipped, ∀ host : TbRpDetail, host.subZone = z →
      item.value = host.instanceObject → Attends c host)
    (hadmits : Admits c z item.value) (htakes : TakesNoted z item.value (c.popTo z rest) c') :
    Attended insList c₀ c' := by
  have hitem : item ∈ pq := hperm.mem_iff.mp (by simp)
  have hrest : rest ⊆ pq := fun other hother => hperm.subset (by simp [hother])
  obtain ⟨picked, hpicked, hz, hv⟩ := h.sourced z _ hq item hitem
  obtain ⟨S, hpool, ht, hnoted⟩ := h.picks
  have hlimits : c'.limits = c₀.limits := htakes.limits.trans h.limits
  have hlookup : ∀ y, c'.priorityElements.lookup y = (c.popTo z rest).priorityElements.lookup y :=
    fun y => by rw [htakes.queues]
  have hsplit : ((skipped ++ item :: rest).map fun item => item.value.bkHostId).Nodup :=
    (hperm.map _).nodup_iff.mpr (h.distinct z pq hq)
  rw [List.map_append, List.map_cons] at hsplit
  obtain ⟨hfresh, hrestNodup⟩ := List.nodup_cons.mp hsplit.of_append_right
  refine ⟨hlimits, (h.sourced.popTo hq hrest).takes htakes.toTakes,
    fun y q hy => ?_, fun y q hy => ?_, fun host hhost => ?_, fun y => ?_, S ++ [picked], ?_, ?_, ?_⟩
  · rw [hlookup] at hy
    exact queue_popTo h.distinct hrestNodup y q hy
  · rw [hlookup] at hy
    intro other hother hin
    rw [htakes.satisfied, List.mem_append, List.mem_singleton] at hin
    by_cases hyz : y = z
    · subst hyz
      rw [lookup_popTo_self] at hy
      obtain rfl := Option.some_inj.mp hy
      rcases hin with hin | heq
      · exact h.unpicked y pq hq other (hrest hother) hin
      · exact hfresh (heq ▸ List.mem_map_of_mem hother)
    · rw [lookup_popTo hyz] at hy
      rcases hin with hin | heq
      · exact h.unpicked y q hy other hother hin
      · exact hyz (h.key_unique hids hq hitem hy hother heq)
  · have hkeep : ∀ host, Attends c host → Attends c' host := fun host hs =>
      @Attends.takes (c.popTo z rest) c' z host item.value hs htakes
    refine settled_or_waiting hq ((hlookup z).trans lookup_popTo_self)
      (fun y hy => (hlookup y).trans (lookup_popTo hy)) hkeep ?_ (h.accounted host hhost)
    intro other hother
    rcases List.mem_append.mp (hperm.mem_iff.mpr hother) with hmem | hmem
    · exact .inr fun host hz hv => hkeep host (hskip other hmem host hz hv)
    · rcases List.mem_cons.mp hmem with rfl | hmem
      · refine .inr fun host _ hv => .inl ?_
        rw [htakes.satisfied, hv]
        exact List.mem_append_right _ (List.mem_singleton_self _)
      · exact .inl hmem
  · have hle := h.mapped y
    rw [htakes.mapped, htakes.zones]
    by_cases hy : y = z
    · subst hy
      rw [Function.update_self, bump_self, List.length_append]
      exact Nat.add_le_add_right hle 1
    · rw [Function.update_of_ne hy, bump_of_ne hy]
      exact hle
  · intro other hother
    rcases List.mem_append.mp hother with hmem | hmem
    · exact hpool other hmem
    · rw [List.mem_singleton.mp hmem]
      exact hpicked
  · subst hz
    rw [hv] at htakes hadmits
    have ht' : Tally false (fun _ => 0) (fun _ => 0) S (c.popTo (queueKey false picked) rest) :=
      ht.frame
    exact ht'.pick ⟨hadmits.undone, hadmits.fresh, hadmits.subZone, hadmits.rack⟩ htakes.toTakes
  · intro hmajority
    have haffinity : c.affinity = .majorityElectionDistri :=
      (congrArg Limits.affinity h.limits).trans hmajority
    subst hz
    rw [hv] at htakes
    exact noted_take (c := c.popTo picked.subZone rest) haffinity (hnoted hmajority) htakes

end Attended

section Picks

/-- What the loops rely on in a call that picks one host: it attends to all it pops, counts what it takes,
and only gives up a sub-zone that is drained. -/
structure Greedy (insList : List TbRpDetail) (c₀ : PickerObject)
    (pick : String → PickerObject → Bool × PickerObject) : Prop where
  attended : ∀ z c, Attended insList c₀ c → c.pickerDone = false → Attended insList c₀ (pick z c).2
  drained : ∀ z c, Attended insList c₀ c → (pick z c).1 = false → (pick z c).2.queueLen z = 0
  counted : ∀ z c, Attended insList c₀ c → (pick z c).1 = true → 0 < (pick z c).2.pickDistribute z

/-- The verdict and the writes of one call, in a state with the limits of `c₀`. -/
structure Thorough (c₀ : PickerObject) (z : String) (judge : PickerObject → InstanceObject → Verdict)
    (take : PickerObject → InstanceObject → PickerObject) (drained : PickerObject → Bool) : Prop where
  careful : ∀ c, c.limits = c₀.limits → Careful c z judge take drained
  stop : ∀ c v, judge c v = .stop → v.bkHostId ∈ c.satisfiedHostIds
  skip : ∀ c (host : TbRpDetail), c.limits = c₀.limits → host.subZone = z →
    judge c host.instanceObject = .skip → c.Refuses host
  noted : ∀ c v, c.limits = c₀.limits → (take c v).rackIdsBySubZone =
      Function.update c.rackIdsBySubZone z (c.rackIdsBySubZone z ++ [v.rackId]) ∨
    c.affinity ≠ .majorityElectionDistri ∧ (take c v).rackIdsBySubZone = c.rackIdsBySubZone
  mapped : ∀ c v, (take c v).satisfiedHostIdsMap =
    Function.update c.satisfiedHostIdsMap z (c.satisfiedHostIdsMap z ++ [v.bkHostId])

theorem greedy_pickOne {judge : String → PickerObject → InstanceObject → Verdict}
    {take : String → PickerObject → InstanceObject → PickerObject}
    {drained : String → PickerObject → Bool} (hids : (insList.map TbRpDetail.bkHostID).Nodup)
    (h : ∀ z, Thorough c₀ z (judge z) (take z) (drained z)) :
    Greedy insList c₀ fun z c => c.pickOne rt z (judge z) (take z) (drained z) where
  attended z c hc hundone := by
    have hpicked := @pickedOne_pickOne rt c z (judge z) (take z) (drained z)
    have hvisit : Attended insList c₀ (c.visit z) := hc.visit
    have hskips : ∀ {skipped : List Item}, (∀ i ∈ skipped, judge z (c.visit z) i.value = .skip) →
        ∀ i ∈ skipped, ∀ host : TbRpDetail, host.subZone = z → i.value = host.instanceObject →
          Attends (c.visit z) host := by
      intro skipped hskip i hi host hz hv
      exact .inr ((h z).skip _ host hvisit.limits hz (hv ▸ hskip i hi))
    generalize c.pickOne rt z (judge z) (take z) (drained z) = result at hpicked ⊢
    cases hpicked with
    | missing hq => exact hvisit
    | @taken pq skipped rest item hq hperm hskip htake =>
      have hcareful := (h z).careful c hc.limits
      exact hvisit.take hids hq hperm (hskips hskip)
        ⟨hundone, hcareful.fresh _ htake, hcareful.subZone _ htake, hcareful.rack _ htake⟩
        ⟨hcareful.takes rest item.value, (h z).noted _ _ hvisit.limits, (h z).mapped _ _⟩
    | @stopped pq skipped rest item hq hperm hskip hstop =>
      have hitem : item ∈ pq := hperm.mem_iff.mp (by simp)
      exact absurd ((h z).stop _ _ hstop) (hvisit.unpicked z pq hq item hitem)
    | @drained pq hq hskip =>
      have hperm : (pq ++ []).Perm pq := by rw [List.append_nil]
      exact hvisit.popTo hq hperm (hskips hskip)
  drained z c hc hnone := by
    have hpicked := @pickedOne_pickOne rt c z (judge z) (take z) (drained z)
    have hvisit : Attended insList c₀ (c.visit z) := hc.visit
    generalize c.pickOne rt z (judge z) (take z) (drained z) = result at hpicked hnone ⊢
    cases hpicked with
    | missing hq =>
      simp only [PickerObject.queueLen, hq]
      rfl
    | taken => cases hnone
    | @stopped pq skipped rest item hq hperm hskip hstop =>
      have hitem : item ∈ pq := hperm.mem_iff.mp (by simp)
      exact absurd ((h z).stop _ _ hstop) (hvisit.unpicked z pq hq item hitem)
    | drained => rw [queueLen_of_lookup lookup_popTo_self, List.length_nil]
  counted z c hc htaken := by
    have hcareful := (h z).careful c hc.limits
    have hpicked := @pickedOne_pickOne rt c z (judge z) (take z) (drained z)
    generalize c.pickOne rt z (judge z) (take z) (drained z) = result at hpicked htaken ⊢
    cases hpicked with
    | missing => cases htaken
    | @taken pq skipped rest item hq hperm hskip htake =>
      rw [(hcareful.takes rest item.value).zones, bump_self]
      exact Nat.succ_pos _
    | stopped => cases htaken
    | drained =>
      exact absurd (mem_of_lookup lookup_popTo_self)
        (QueueMap.not_mem_of_size_eq_zero (hcareful.drained _ htaken))

theorem thorough_dual (haffinity : c₀.affinity ≠ .majorityElectionDistri) :
    Thorough c₀ z (fun c => c.dualVerdict z) (fun c v => ((c.select z v).recordHost z v).recordRack z v)
      (fun _ => false) where
  careful _ _ := careful_dual
  stop c v h := by
    unfold PickerObject.dualVerdict at h
    split at h
    · assumption
    · split at h
      · cases h
      · split at h <;> cases h
  skip c host _ hz h := by
    subst hz
    unfold PickerObject.dualVerdict at h
    split at h
    · cases h
    · split at h
      · exact .inl (by omega)
      · split at h
        · rename_i hrack
          exact .inr (.inl ⟨hrack.1, Int.lt_add_one_iff.mp hrack.2⟩)
        · cases h
  noted c v hlimits := .inr ⟨(congrArg Limits.affinity hlimits).trans_ne haffinity, rfl⟩
  mapped _ _ := rfl

/-- A sub-zone that may not get a host is full, as a tolerance of 0 allows one host only. -/
theorem full_of_not_canAllocate (hzero : c.tolerance = 0 → c.maxPerSubZone ≤ 1)
    (h : c.canAllocateToSubZone z = false) : c.maxPerSubZone ≤ c.getSubZoneCurrentTotal z := by
  unfold PickerObject.canAllocateToSubZone at h
  split at h
  · rename_i htol
    have hone := hzero htol
    have hne := of_decide_eq_false h
    omega
  · exact not_lt.mp (of_decide_eq_false h)

theorem thorough_subZone (hrack : c₀.maxPerRack ≤ 0) (hzero : c₀.tolerance = 0 → c₀.maxPerSubZone ≤ 1)
    (hswitch : crossSwitch = true → c₀.affinity = .majorityElectionDistri) :
    Thorough c₀ z (fun c => c.subZoneVerdict z crossSwitch)
      (fun c v => ((c.select z v).recordHost z v).recordRackId z v)
      (fun c => c.priorityElements.size = 0) where
  careful c hlimits := careful_subZone (by rwa [show c.maxPerRack = c₀.maxPerRack from
    congrArg Limits.maxPerRack hlimits])
  stop c v h := by
    unfold PickerObject.subZoneVerdict at h
    split at h
    · assumption
    · split at h
      · cases h
      · split at h <;> cases h
  skip c host hlimits hz h := by
    subst hz
    have htol : c.tolerance = c₀.tolerance := congrArg Limits.tolerance hlimits
    have hmax : c.maxPerSubZone = c₀.maxPerSubZone := congrArg Limits.maxPerSubZone hlimits
    have haffinity : c.affinity = c₀.affinity := congrArg Limits.affinity hlimits
    unfold PickerObject.subZoneVerdict at h
    split at h
    · cases h
    · split at h
      · rename_i hcheck
        simp only [Bool.and_eq_true, Bool.not_eq_true'] at hcheck
        exact .inr (.inr ⟨haffinity.trans (hswitch hcheck.1), hcheck.2⟩)
      · split at h
        · rename_i hfull
          simp only [Bool.and_eq_true, decide_eq_true_eq, Bool.not_eq_true'] at hfull
          exact .inl (full_of_not_canAllocate (htol ▸ hmax ▸ hzero) hfull.2)
        · cases h
  noted _ _ _ := .inl rfl
  mapped _ _ := rfl

theorem greedy_dual (hids : (insList.map TbRpDetail.bkHostID).Nodup)
    (haffinity : c₀.affinity ≠ .majorityElectionDistri) :
    Greedy insList c₀ fun z c => c.pickerOneByPriorityWithDualTolerance rt z :=
  greedy_pickOne hids fun _ => thorough_dual haffinity

/-- The limits under which only sub-zones, or for the majority picker single racks, are limited. -/
structure ZonesOnly (c₀ : PickerObject) (crossSwitch : Bool) : Prop where
  rack : c₀.maxPerRack ≤ 0
  zone : 0 < c₀.maxPerSubZone
  zero : c₀.tolerance = 0 → c₀.maxPerSubZone ≤ 1
  switch : crossSwitch = true → c₀.affinity = .majorityElectionDistri

theorem greedy_byPriority (hids : (insList.map TbRpDetail.bkHostID).Nodup)
    (h : ZonesOnly c₀ crossSwitch) :
    Greedy insList c₀ fun z c => c.pickerOneByPriority rt z crossSwitch := by
  have hgreedy : Greedy insList c₀ fun z c =>
      c.pickerOneByPriorityWithSubZoneTolerance rt z crossSwitch :=
    greedy_pickOne hids fun _ => thorough_subZone h.rack h.zero h.switch
  have heq : ∀ z c, Attended insList c₀ c → c.pickerOneByPriority rt z crossSwitch =
      c.pickerOneByPriorityWithSubZoneTolerance rt z crossSwitch := by
    intro z c hc
    have hrack : c.maxPerRack = c₀.maxPerRack := congrArg Limits.maxPerRack hc.limits
    have hzone : c.maxPerSubZone = c₀.maxPerSubZone := congrArg Limits.maxPerSubZone hc.limits
    have hnone : ¬ 0 < c.maxPerRack := not_lt.mpr (hrack.trans_le h.rack)
    unfold PickerObject.pickerOneByPriority
    rw [if_neg fun hand => hnone hand.1, if_neg hnone, if_pos (hzone ▸ h.zone)]
  refine ⟨fun z c hc hundone => ?_, fun z c hc => ?_, fun z c hc => ?_⟩
  · rw [heq z c hc]
    exact hgreedy.attended z c hc hundone
  · rw [heq z c hc]
    exact hgreedy.drained z c hc
  · rw [heq z c hc]
    exact hgreedy.counted z c hc

end Picks

end Resource
