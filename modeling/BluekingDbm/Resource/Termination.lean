import BluekingDbm.Resource.Request

/-! Which requests are picked for to the end, and which wait for a channel that nothing fills. -/
namespace Resource

open Loop PickerObject Binary64 Capacity

variable {o : SearchContext} {insList : List TbRpDetail} {rt : Runtime} {fuel : ℕ}
  {c c' : PickerObject} {R : Rooms TbRpDetail String String} {T : Finset TbRpDetail}

/-- Hosts of the pool that can be picked together. -/
structure Selection (R : Rooms TbRpDetail String String) (insList : List TbRpDetail)
    (T : Finset TbRpDetail) : Prop where
  pool : ∀ host ∈ T, host ∈ insList
  distinct : Set.InjOn TbRpDetail.bkHostID T
  fits : R.Fits T

/-- A selection that no host can be added to: the id of each is in it, or its sub-zone or its rack has
no room any more. -/
structure Exhausted (R : Rooms TbRpDetail String String) (insList : List TbRpDetail)
    (T : Finset TbRpDetail) : Prop extends Selection R insList T where
  complete : ∀ host ∈ insList, (∃ picked ∈ T, picked.bkHostID = host.bkHostID) ∨
    R.zoneRoom (R.zone host) ≤ (T.filter fun other => R.zone other = R.zone host).card ∨
    R.rackRoom (R.rack host) ≤ (T.filter fun other => R.rack other = R.rack host).card

/-- The requests for which picking ends. A strong cross-zone request is one of them if the pool does
not mix full sub-zones with others, or if it holds hosts enough however they are selected. -/
def SearchContext.Served (o : SearchContext) (insList : List TbRpDetail) : Prop :=
  o.specialHostIds ≠ [] ∨ o.affinity ≠ .crossSubzoneStrong ∨ o.pushFails insList false = true ∨
    (∀ host ∈ insList, 0 < o.configured.rooms.zoneRoom host.subZone) ∨
    (∀ host ∈ insList, o.configured.rooms.zoneRoom host.subZone = 0) ∨
    ∀ T, Exhausted o.configured.rooms insList T → o.count ≤ T.card

section Selection

/-- The picks so far are a selection, and an exhausted one once every host is settled. -/
theorem Booked.exists_selection (h : Booked insList c) (htol : 0 ≤ c.tolerance)
    (hmax : 0 < c.maxPerSubZone) : ∃ T, Selection c.rooms insList T ∧
      T.card = c.satisfiedHostIds.length ∧ T.card ≤ c.count ∧
      ((∀ host ∈ insList, Settled c host) → Exhausted c.rooms insList T) := by
  obtain ⟨S, hpool, ht⟩ := h.tally
  have hnodup : (S.map TbRpDetail.bkHostID).Nodup := ht.ids ▸ ht.nodup
  have hS : S.Nodup := hnodup.of_map
  have hcard : S.toFinset.card = S.length := List.toFinset_card_of_nodup hS
  have hzone : ∀ z, (S.toFinset.filter fun host => host.subZone = z).card = c.pickDistribute z := by
    intro z
    rw [card_filter_toFinset hS, ht.zones, Nat.zero_add]
    rfl
  have hrack : ∀ k, (S.toFinset.filter fun host => rackKey false host = k).card =
      c.rackDistribute k := by
    intro k
    rw [card_filter_toFinset hS, ht.racks h.rackLimit, Nat.zero_add]
  have hselection : Selection c.rooms insList S.toFinset := by
    refine ⟨fun host hhost => hpool host (List.mem_toFinset.mp hhost), ?_, fun z => ?_, fun k => ?_⟩
    · intro a ha b hb hab
      exact List.inj_on_of_nodup_map hnodup (List.mem_toFinset.mp ha) (List.mem_toFinset.mp hb) hab
    · show (S.toFinset.filter fun host => host.subZone = z).card ≤
        (c.maxPerSubZone - c.currentHostsBySubZone z).toNat
      rcases Finset.eq_empty_or_nonempty (S.toFinset.filter fun host => host.subZone = z) with
        hnone | ⟨host, hhost⟩
      · rw [hnone]
        exact Nat.zero_le _
      · obtain ⟨hmem, rfl⟩ := Finset.mem_filter.mp hhost
        have hroom := ht.zoneRoom host (List.mem_toFinset.mp hmem) htol hmax
        rw [hzone]
        unfold PickerObject.getSubZoneCurrentTotal queueKey at hroom
        simp only [Bool.false_eq_true, if_false] at hroom
        omega
    · show (S.toFinset.filter fun host => rackKey false host = k).card ≤
        (c.maxPerRack - c.currentHostsByRack k).toNat
      rcases Finset.eq_empty_or_nonempty (S.toFinset.filter fun host => rackKey false host = k) with
        hnone | ⟨host, hhost⟩
      · rw [hnone]
        exact Nat.zero_le _
      · obtain ⟨hmem, rfl⟩ := Finset.mem_filter.mp hhost
        have hroom := ht.rackRoom host (List.mem_toFinset.mp hmem) htol h.rackLimit
        rw [hrack]
        unfold PickerObject.getRackCurrentTotal at hroom
        unfold rackKey
        omega
  refine ⟨S.toFinset, hselection, ?_, hcard ▸ ht.length, fun hsettled => ⟨hselection, ?_⟩⟩
  · rw [hcard, ht.ids, List.length_map]
  · intro host hhost
    rcases hsettled host hhost with hpicked | hfull | hfull
    · left
      rw [ht.ids] at hpicked
      obtain ⟨picked, hmem, hid⟩ := List.mem_map.mp hpicked
      exact ⟨picked, List.mem_toFinset.mpr hmem, hid⟩
    · right; left
      show (c.maxPerSubZone - c.currentHostsBySubZone host.subZone).toNat ≤
        (S.toFinset.filter fun other => other.subZone = host.subZone).card
      rw [hzone]
      unfold PickerObject.getSubZoneCurrentTotal at hfull
      omega
    · right; right
      show (c.maxPerRack - c.currentHostsByRack (rackKey false host)).toNat ≤
        (S.toFinset.filter fun other => rackKey false other = rackKey false host).card
      rw [hrack]
      unfold PickerObject.getRackCurrentTotal at hfull
      have hkey : rackKey false host = buildRackKey host.subZone host.rackID := rfl
      rw [hkey]
      omega

/-- Where host ids are distinct and racks belong to one sub-zone each, exhausted selections are the
largest ones. -/
theorem Exhausted.card_le {P : Finset TbRpDetail} (h : Exhausted R insList T)
    (hP : Selection R insList P) (hids : (insList.map TbRpDetail.bkHostID).Nodup)
    (hnested : R.Nested insList.toFinset) : P.card ≤ T.card := by
  have hsettles : R.Settles T P := by
    intro host hhost
    have hpool := hP.pool host hhost
    refine (h.complete host hpool).imp_left ?_
    rintro ⟨picked, hpicked, hid⟩
    rw [← List.inj_on_of_nodup_map hids (h.pool picked hpicked) hpool hid]
    exact hpicked
  refine hsettles.card_le hP.fits fun a ha b hb => ?_
  have hmem : ∀ host ∈ P ∪ T, host ∈ insList.toFinset := by
    intro host hhost
    rcases Finset.mem_union.mp hhost with hmem | hmem
    · exact List.mem_toFinset.mpr (hP.pool host hmem)
    · exact List.mem_toFinset.mpr (h.pool host hmem)
  exact hnested a (hmem a ha) b (hmem b hb)

end Selection

section Ending

theorem rooms_analyse : (o.analyse insList false o.configured).2.rooms = o.configured.rooms := by
  obtain ⟨p, s, hsnd⟩ := @SearchContext.analyse_snd o insList o.configured false
  rw [hsnd]
  rfl

/-- What the analysed picker of a strong cross-zone request keeps of its limits. -/
theorem strong_limits (haffinity : o.affinity = .crossSubzoneStrong) (hcount : 0 < o.count)
    (h : Moves (o.analyse insList false o.configured).2 c) : c.rooms = o.configured.rooms ∧
      c.count = o.count ∧ 0 < c.tolerance ∧ 0 < c.maxPerSubZone := by
  have hfresh := fresh_configured haffinity hcount
  have hconfigured : o.configured.count = o.count := by
    rw [configured_strong haffinity]
    rfl
  obtain ⟨p, s, hsnd⟩ := @SearchContext.analyse_snd o insList o.configured false
  have hlimits := h.limits
  rw [hsnd] at hlimits
  refine ⟨(rooms_of_limits h.limits).trans rooms_analyse, (congrArg Limits.count hlimits).trans hconfigured, ?_, ?_⟩
  · rw [show c.tolerance = o.configured.tolerance from congrArg Limits.tolerance hlimits]
    exact hfresh.tolerance
  · rw [show c.maxPerSubZone = o.configured.maxPerSubZone from
      congrArg Limits.maxPerSubZone hlimits]
    exact hfresh.zoneLimit

/-- Where it blocks, sub-zones were full from the start, and the picks are an exhausted selection that
is too small. -/
theorem not_served_of_blocked (hspecial : o.specialHostIds = []) (hcount : 0 < o.count)
    (haffinity : o.affinity = .crossSubzoneStrong) (hpushes : o.pushFails insList false = false)
    (h : RotationEnd insList (o.analyse insList false o.configured).2 .blocked) :
    ¬ o.Served insList := by
  cases h with
  | blocked hmoves hbooked hundone hsettled hfull hroomy =>
    obtain ⟨hrooms, hcount', htol, hmax⟩ := strong_limits haffinity hcount hmoves
    obtain ⟨T, -, hcard, hle, hexhausted⟩ := hbooked.exists_selection htol.le hmax
    have hexhausted := hexhausted hsettled
    have hne := of_decide_eq_false hundone
    rw [rooms_analyse] at hfull hroomy
    rw [hrooms] at hexhausted
    rintro (hs | hs | hs | hs | hs | hs)
    · exact hs hspecial
    · exact hs haffinity
    · rw [hpushes] at hs
      cases hs
    · obtain ⟨host, hhost, hzero⟩ := hfull
      have := hs host hhost
      omega
    · obtain ⟨host, hhost, hpos⟩ := hroomy
      have := hs host hhost
      omega
    · have := hs T hexhausted
      omega

/-- A strong cross-zone request that is not served waits for ever. -/
theorem blocked_of_not_served (hids : (insList.map TbRpDetail.bkHostID).Nodup)
    (hnested : o.configured.rooms.Nested insList.toFinset) (hcount : 0 < o.count)
    (hfuel : 3 * insList.length < fuel) (h : ¬ o.Served insList) :
    o.pickInstanceBase insList rt fuel (newPicker o.count) = .blocked := by
  simp only [SearchContext.Served, not_or, not_not, not_forall, exists_prop] at h
  obtain ⟨hspecial, haffinity, hpushes, hfull, hroomy, T, hT, hsmall⟩ := h
  rcases @pickInstanceBase_strong o insList rt fuel hspecial hcount haffinity hfuel with
    ⟨_, -, hfails, -⟩ | ⟨picked, hrun, -, hend⟩
  · exact absurd hfails hpushes
  · rw [hrun]
    cases hend with
    | done hmoves hbooked hdone =>
      obtain ⟨hrooms, hcount', htol, hmax⟩ := strong_limits haffinity hcount hmoves
      obtain ⟨P, hP, hcard, -, -⟩ := hbooked.exists_selection htol.le hmax
      rw [hrooms] at hP
      have hle := hT.card_le hP hids hnested
      have hdone := of_decide_eq_true hdone
      omega
    | noneFull hmoves hnone =>
      rw [rooms_analyse] at hnone
      obtain ⟨host, hhost, hzero⟩ := hfull
      exact absurd (hnone host hhost) hzero
    | allFull hmoves hall =>
      rw [rooms_analyse] at hall
      obtain ⟨host, hhost, hpos⟩ := hroomy
      exact absurd (hall host hhost) hpos
    | blocked => rfl

theorem returns_of_served (hcount : 0 < o.count) (hfuel : 3 * insList.length < fuel)
    (h : o.Served insList) :
    ∃ r, o.pickInstanceBase insList rt fuel (newPicker o.count) = .returned r := by
  by_cases hspecial : o.specialHostIds = []
  · by_cases haffinity : o.affinity = .crossSubzoneStrong
    · rcases @pickInstanceBase_strong o insList rt fuel hspecial hcount haffinity hfuel with
        ⟨r, hrun, -⟩ | ⟨picked, hrun, hpushes, hend⟩
      · exact ⟨r, hrun⟩
      · rw [hrun]
        cases picked with
        | returned picker => exact ⟨_, rfl⟩
        | blocked =>
          exact absurd h (not_served_of_blocked hspecial hcount haffinity hpushes hend)
        | outOfFuel => cases hend
    · obtain ⟨r, hrun, -⟩ := @pickInstanceBase_returns o insList rt fuel hspecial hcount haffinity hfuel
      exact ⟨r, hrun⟩
  · unfold SearchContext.pickInstanceBase
    rw [if_neg (by simpa using hspecial)]
    exact ⟨_, rfl⟩

/-- Picking ends for every request that is served, and it ends for no other: where host ids are distinct
and no two sub-zones share a rack key, a request that is not served is waited for without end. -/
theorem picking_ends (hcount : 0 < o.count) (hfuel : 3 * insList.length < fuel) :
    (o.Served insList →
      ∃ r, o.pickInstanceBase insList rt fuel (newPicker o.count) = .returned r) ∧
    ((insList.map TbRpDetail.bkHostID).Nodup → o.configured.rooms.Nested insList.toFinset →
      ¬ o.Served insList →
        o.pickInstanceBase insList rt fuel (newPicker o.count) = .blocked) :=
  ⟨returns_of_served hcount hfuel, fun hids hnested =>
    blocked_of_not_served hids hnested hcount hfuel⟩

end Ending

section Mixed

def strongRequest : SearchContext where
  affinity := .crossSubzoneStrong
  count := 2
  tolerance := 0
  currentHosts := [⟨9, "A", "r9"⟩]
  specialHostIds := []
  resourcePriority _ := 0

/-- Sub-zone `A` is full with the one host that is there, and `B` has room for one. -/
def mixedPool : List TbRpDetail := [⟨1, "A", "r1", "n1"⟩, ⟨2, "B", "r2", "n2"⟩]

theorem exhausted_mixedPool :
    Exhausted strongRequest.configured.rooms mixedPool {⟨2, "B", "r2", "n2"⟩} where
  pool := by simp [mixedPool]
  distinct := by simp
  fits := Rooms.fits_singleton (by decide +kernel) (by decide +kernel)
  complete := by decide +kernel

theorem mixedPool_not_served : ¬ strongRequest.Served mixedPool := by
  rintro (h | h | h | h | h | h)
  · exact h rfl
  · exact h rfl
  · exact absurd h (by decide +kernel)
  · exact absurd (h ⟨1, "A", "r1", "n1"⟩ (by simp [mixedPool])) (by decide +kernel)
  · exact absurd (h ⟨2, "B", "r2", "n2"⟩ (by simp [mixedPool])) (by decide +kernel)
  · exact absurd (h _ exhausted_mixedPool) (by decide)

theorem mixedPool_nested : strongRequest.configured.rooms.Nested mixedPool.toFinset := by
  unfold Rooms.Nested
  decide +kernel

theorem picking_ends_mixedPool :
    (∃ r, { strongRequest with affinity := .crossSubzoneWeak }.pickInstanceBase mixedPool .still 7
      (newPicker 2) = .returned r) ∧
    strongRequest.pickInstanceBase mixedPool .still 7 (newPicker 2) = .blocked :=
  ⟨(picking_ends (by decide) (by decide)).1 (.inr (.inl (by decide))),
    (picking_ends (by decide) (by decide)).2 (by decide) mixedPool_nested mixedPool_not_served⟩

/-- The picker takes the host in `B`, and then receives from its channel for ever. -/
theorem strongRequest_waits_for_ever : 0 < strongRequest.count ∧
    ¬ ∃ n, ∀ fuel, n ≤ fuel → ∃ r, strongRequest.pickInstanceBase mixedPool .still fuel
      (newPicker strongRequest.count) = .returned r := by
  refine ⟨by decide, ?_⟩
  rintro ⟨n, h⟩
  obtain ⟨r, hr⟩ := h (n + 7) (by omega)
  have hlen : mixedPool.length = 2 := rfl
  have hblocked := @blocked_of_not_served strongRequest mixedPool .still (n + 7) (by decide)
    mixedPool_nested (by decide) (by omega) mixedPool_not_served
  rw [hblocked] at hr
  cases hr

end Mixed

end Resource
