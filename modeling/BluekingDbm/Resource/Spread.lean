import BluekingDbm.Resource.Request

/-! What was picked is sound: hosts of the pool, each once, no more than wanted, and with the current
hosts no more in a sub-zone or in a rack than the limits allow. -/
namespace Resource

open Loop PickerObject Binary64 Text

variable {o : SearchContext} {insList : List TbRpDetail} {rt : Runtime} {fuel : ℕ}
  {c c' : PickerObject} {host : TbRpDetail} {limit : ℤ}

namespace SearchContext

/-- The current hosts and those requested. -/
def total (o : SearchContext) : ℤ := o.currentHosts.length + o.count

/-- How many hosts a sub-zone may hold, where the affinity limits sub-zones. -/
def zoneLimit (o : SearchContext) : Option ℤ :=
  match o.affinity with
  | .crosSubzone | .majorityElectionDistri => some (maxTolerated o.total o.tolerance)
  | .crossSubzoneStrong => some (maxTolerated o.total (rounded (1 / 3)))
  | .crossSubzoneWeak => some (maxTolerated o.total (1 / 2))
  | _ => none

/-- How many hosts a rack may hold, where the affinity limits racks. -/
def rackLimit (o : SearchContext) : Option ℤ :=
  match o.affinity with
  | .sameSubzone | .sameSubzoneCrossSwtich | .crossRack => some (maxTolerated o.total o.tolerance)
  | .crossSubzoneStrong | .crossSubzoneWeak =>
    o.zoneLimit.map fun maxPerSubZone => maxTolerated maxPerSubZone (1 / 2)
  | _ => none

/-- Whether a place is in the rack of a host. Only the cross-rack affinity takes a rack id for the same
rack in every sub-zone. -/
def sameRack (o : SearchContext) (host : TbRpDetail) (subZone rackId : String) : Bool :=
  rackId = host.rackID && (o.affinity = .crossRack || subZone = host.subZone)

/-- Whether the current hosts in the rack of a host are all counted there. Those without a rack id are
not, and where sub-zones are limited too, the names of current hosts are trimmed. -/
def namesRack (o : SearchContext) (host : TbRpDetail) : Prop :=
  if o.zoneLimit.isSome then trimSpace host.subZone = host.subZone ∧ isEmpty host.rackID = false
  else host.rackID ≠ ""

/-- The current hosts and the picked ones in the sub-zone of a host. -/
def inSubZone (o : SearchContext) (insList : List TbRpDetail) (ids : List ℤ) (host : TbRpDetail) : ℕ :=
  (o.currentHosts.countP fun other => other.subZone = host.subZone) +
    insList.countP fun other => other.bkHostID ∈ ids ∧ other.subZone = host.subZone

/-- The current hosts and the picked ones in the rack of a host. -/
def inRack (o : SearchContext) (insList : List TbRpDetail) (ids : List ℤ) (host : TbRpDetail) : ℕ :=
  (o.currentHosts.countP fun other => o.sameRack host other.subZone other.rackId) +
    insList.countP fun other => other.bkHostID ∈ ids ∧ o.sameRack host other.subZone other.rackID

end SearchContext

/-- The hosts with these ids and the current hosts are spread as the limits say, in every sub-zone whose
name has no white space around it and in every rack that has a name. -/
structure Spread (o : SearchContext) (insList : List TbRpDetail) (ids : List ℤ) : Prop where
  zones : ∀ limit ∈ o.zoneLimit, ∀ host ∈ insList, host.bkHostID ∈ ids →
    trimSpace host.subZone = host.subZone → (o.inSubZone insList ids host : ℤ) ≤ limit
  racks : ∀ limit ∈ o.rackLimit, ∀ host ∈ insList, host.bkHostID ∈ ids → o.namesRack host →
    (o.inRack insList ids host : ℤ) ≤ limit

/-- What the picker of a request holds when it returns. -/
structure SoundPick (o : SearchContext) (insList : List TbRpDetail) (c : PickerObject) : Prop where
  distinct : c.satisfiedHostIds.Nodup
  pool : ∀ id ∈ c.satisfiedHostIds, ∃ host ∈ insList, host.bkHostID = id
  count : c.satisfiedHostIds.length ≤ c.count
  wanted : c.count = if o.specialHostIds = [] then o.count else o.specialHostIds.length
  spread : o.specialHostIds = [] → Spread o insList c.satisfiedHostIds

section Accounted

/-- In every state of a request, the counters are those of hosts of the pool. -/
structure Accounted (o : SearchContext) (insList : List TbRpDetail) (c : PickerObject) : Prop where
  sourced : Sourced insList o.affinity.israndom c
  limits : ∃ sums, c.limits = { o.configured.limits with subZonePrioritySumMap := sums }
  tally : ∃ zones racks S, (∀ host ∈ S, host ∈ insList) ∧
    Tally o.affinity.israndom zones racks S c

theorem accounted_configured : Accounted o insList o.configured := by
  have hqueues : o.configured.priorityElements = ∅ := by
    unfold SearchContext.configured
    cases o.affinity <;> rfl
  have hids : o.configured.satisfiedHostIds = [] := by
    unfold SearchContext.configured
    cases o.affinity <;> rfl
  refine ⟨fun key q hq => ?_, ⟨_, rfl⟩, o.configured.pickDistribute, o.configured.rackDistribute, [],
    nofun, hids, ?_, Nat.zero_le _, fun _ => rfl, fun _ _ => rfl, nofun, nofun⟩
  · rw [hqueues] at hq
    cases hq
  · rw [hids]
    exact List.nodup_nil

theorem Accounted.move (h : Accounted o insList c) (hmove : Move c c') : Accounted o insList c' := by
  obtain ⟨zones, racks, S, hpool, ht⟩ := h.tally
  have hlimits : ∃ sums, c'.limits = { o.configured.limits with subZonePrioritySumMap := sums } := by
    rw [hmove.limits]
    exact h.limits
  cases hmove with
  | draw => exact ⟨h.sourced, hlimits, zones, racks, S, hpool, ht.frame⟩
  | visit => exact ⟨h.sourced, hlimits, zones, racks, S, hpool, ht.frame⟩
  | drop => exact ⟨h.sourced.drop, hlimits, zones, racks, S, hpool, ht.frame⟩
  | restart =>
    -- the picks are forgotten, and count as places taken from now on
    exact ⟨h.sourced, hlimits, c.pickDistribute, c.rackDistribute, [], nofun, rfl, List.nodup_nil,
      Nat.zero_le _, fun _ => rfl, fun _ _ => rfl, nofun, nofun⟩
  | pop hq hrest =>
    exact ⟨h.sourced.popTo hq hrest.subset, hlimits, zones, racks, S, hpool, ht.frame⟩
  | @pick _ key pq rest item hq hrest hadmits htakes =>
    have hsub := hrest.subset
    obtain ⟨host, hhost, rfl, hv⟩ := h.sourced key pq hq item (hsub (by simp))
    rw [hv] at hadmits htakes
    refine ⟨(h.sourced.popTo hq fun i hi => hsub (List.mem_cons_of_mem _ hi)).takes htakes, hlimits,
      zones, racks, S ++ [host], ?_, ?_⟩
    · intro other hother
      rcases List.mem_append.mp hother with hmem | hmem
      · exact hpool other hmem
      · rw [List.mem_singleton.mp hmem]
        exact hhost
    · have ht' : Tally o.affinity.israndom zones racks S
          (c.popTo (queueKey o.affinity.israndom host) rest) := ht.frame
      exact ht'.pick ⟨hadmits.undone, hadmits.fresh, hadmits.subZone, hadmits.rack⟩ htakes

theorem Accounted.stage (h : Accounted o insList c) (hstage : Stage o insList c c') :
    Accounted o insList c' := by
  cases hstage with
  | analyse =>
    have hsourced := (@analysed_analyse o insList o.affinity.israndom c).sourced
    obtain ⟨p, s, hsnd⟩ := @SearchContext.analyse_snd o insList c o.affinity.israndom
    obtain ⟨sums, hlimits⟩ := h.limits
    obtain ⟨zones, racks, S, hpool, ht⟩ := h.tally
    rw [hsnd] at hsourced ⊢
    refine ⟨hsourced, ⟨s, ?_⟩, zones, racks, S, hpool, ht.frame⟩
    show { c.limits with subZonePrioritySumMap := s } = _
    rw [hlimits]
  | move hmove => exact h.move hmove

theorem accounted_reaches (h : Reaches o insList o.configured c) : Accounted o insList c :=
  h.invariant accounted_configured fun hstage hc => hc.stage hstage

end Accounted

section Limits

theorem total_pos (hcount : 0 < o.count) : 0 < o.total := by
  unfold SearchContext.total
  omega

/-- How a limit on sub-zones is set up. -/
structure ZoneLimited (o : SearchContext) (limit : ℤ) : Prop where
  israndom : o.affinity.israndom = false
  tolerance : 0 ≤ o.configured.tolerance
  pos : 0 < limit
  limit : o.configured.maxPerSubZone = limit
  existing : ∀ z, o.configured.currentHostsBySubZone z =
    o.currentHosts.countP fun host => trimSpace host.subZone = z

theorem ZoneLimited.of_configured {tolerance : ℚ} (hcount : 0 < o.count) (htol : 0 ≤ tolerance)
    (hrandom : o.affinity.israndom = false)
    (h : o.configured.tolerance = tolerance ∧
      o.configured.maxPerSubZone = maxTolerated o.total tolerance ∧
      ∀ z, o.configured.currentHostsBySubZone z =
        o.currentHosts.countP fun host => trimSpace host.subZone = z) :
    ZoneLimited o (maxTolerated o.total tolerance) where
  israndom := hrandom
  tolerance := h.1 ▸ htol
  pos := maxTolerated_pos (total_pos hcount) htol
  limit := h.2.1
  existing := h.2.2

theorem zoneLimited (hcount : 0 < o.count) (htol : 0 ≤ o.tolerance) (h : limit ∈ o.zoneLimit) :
    ZoneLimited o limit := by
  cases ha : o.affinity with
  | none | maxEachZoneEqual | sameSubzone | sameSubzoneCrossSwtich | crossRack =>
    simp [SearchContext.zoneLimit, ha] at h
  | crosSubzone | majorityElectionDistri =>
    simp only [SearchContext.zoneLimit, ha, Option.mem_def, Option.some.injEq] at h
    subst h
    apply ZoneLimited.of_configured hcount htol (by rw [ha]; rfl)
    simp only [SearchContext.configured, ha]
    exact ⟨rfl, rfl, fun _ => rfl⟩
  | crossSubzoneStrong =>
    simp only [SearchContext.zoneLimit, ha, Option.mem_def, Option.some.injEq] at h
    subst h
    apply ZoneLimited.of_configured hcount (rounded_pos (by norm_num)).le (by rw [ha]; rfl)
    simp only [SearchContext.configured, ha]
    exact ⟨rfl, rfl, fun _ => rfl⟩
  | crossSubzoneWeak =>
    simp only [SearchContext.zoneLimit, ha, Option.mem_def, Option.some.injEq] at h
    subst h
    apply ZoneLimited.of_configured hcount (by norm_num) (by rw [ha]; rfl)
    simp only [SearchContext.configured, ha]
    exact ⟨rfl, rfl, fun _ => rfl⟩

/-- How a limit on racks is set up; the current hosts in a named rack are counted under its key. -/
structure RackLimited (o : SearchContext) (limit : ℤ) : Prop where
  tolerance : 0 ≤ o.configured.tolerance
  pos : 0 < limit
  limit : o.configured.maxPerRack = limit
  existing : ∀ host, o.namesRack host →
    (o.currentHosts.countP fun other => o.sameRack host other.subZone other.rackId) ≤
      o.configured.currentHostsByRack (rackKey o.affinity.israndom host)

section SameRack

variable {subZone rackId : String}

theorem sameRack_rackId (h : o.sameRack host subZone rackId = true) : rackId = host.rackID :=
  of_decide_eq_true (Bool.and_eq_true_iff.mp h).1

theorem sameRack_subZone (ha : o.affinity ≠ .crossRack) (h : o.sameRack host subZone rackId = true) :
    subZone = host.subZone := by
  have hzone := (Bool.and_eq_true_iff.mp h).2
  simp only [Bool.or_eq_true, decide_eq_true_eq] at hzone
  exact hzone.resolve_left ha

theorem rackKey_of_sameRack {other : TbRpDetail}
    (h : o.sameRack host other.subZone other.rackID = true) :
    rackKey o.affinity.israndom other = rackKey o.affinity.israndom host := by
  unfold rackKey
  rw [sameRack_rackId h]
  by_cases ha : o.affinity = .crossRack
  · rw [ha]
    rfl
  · unfold queueKey
    rw [sameRack_subZone ha h]

end SameRack

/-- The count of current hosts that the affinities limiting racks only, or sub-zones as well, start
from. -/
theorem existing_zone {host : TbRpDetail} (ha : o.affinity ≠ .crossRack) (hname : host.rackID ≠ "") :
    (o.currentHosts.countP fun other => o.sameRack host other.subZone other.rackId) ≤
      o.currentHosts.countP fun other =>
        other.rackId ≠ "" && buildRackKey other.subZone other.rackId = rackKey false host := by
  refine List.countP_mono_left fun other _ hsame => ?_
  rw [sameRack_subZone ha hsame, sameRack_rackId hsame]
  simp [hname, rackKey, queueKey]

theorem existing_random {host : TbRpDetail} (hname : host.rackID ≠ "") :
    (o.currentHosts.countP fun other => o.sameRack host other.subZone other.rackId) ≤
      o.currentHosts.countP fun other =>
        other.rackId ≠ "" && buildRackKey random other.rackId = rackKey true host := by
  refine List.countP_mono_left fun other _ hsame => ?_
  rw [sameRack_rackId hsame]
  simp [hname, rackKey, queueKey]

theorem existing_dual {host : TbRpDetail} (ha : o.affinity ≠ .crossRack)
    (htrim : trimSpace host.subZone = host.subZone) (hname : isEmpty host.rackID = false) :
    (o.currentHosts.countP fun other => o.sameRack host other.subZone other.rackId) ≤
      o.currentHosts.countP fun other => !isEmpty other.rackId &&
        buildRackKey (trimSpace other.subZone) other.rackId = rackKey false host := by
  refine List.countP_mono_left fun other _ hsame => ?_
  rw [sameRack_subZone ha hsame, sameRack_rackId hsame, htrim]
  simp [hname, rackKey, queueKey]

theorem rackLimited (hcount : 0 < o.count) (htol : 0 ≤ o.tolerance) (h : limit ∈ o.rackLimit) :
    RackLimited o limit := by
  have htotal := total_pos hcount
  cases ha : o.affinity with
  | none | maxEachZoneEqual | crosSubzone | majorityElectionDistri =>
    simp [SearchContext.rackLimit, ha] at h
  | sameSubzone | sameSubzoneCrossSwtich =>
    simp only [SearchContext.rackLimit, ha, Option.mem_def, Option.some.injEq] at h
    subst h
    have hnames : ∀ host, o.namesRack host → host.rackID ≠ "" := fun host hname => by
      simpa [SearchContext.namesRack, SearchContext.zoneLimit, ha] using hname
    have hzone : o.affinity ≠ .crossRack := by simp [ha]
    refine ⟨?_, maxTolerated_pos htotal htol, ?_, fun host hname => ?_⟩
    · simp only [SearchContext.configured, ha]
      exact htol
    · simp only [SearchContext.configured, ha]
      rfl
    · refine (existing_zone hzone (hnames host hname)).trans (le_of_eq ?_)
      simp only [SearchContext.configured, ha]
      rfl
  | crossRack =>
    simp only [SearchContext.rackLimit, ha, Option.mem_def, Option.some.injEq] at h
    subst h
    have hnames : ∀ host, o.namesRack host → host.rackID ≠ "" := fun host hname => by
      simpa [SearchContext.namesRack, SearchContext.zoneLimit, ha] using hname
    refine ⟨?_, maxTolerated_pos htotal htol, ?_, fun host hname => ?_⟩
    · simp only [SearchContext.configured, ha]
      exact htol
    · simp only [SearchContext.configured, ha]
      rfl
    · refine (existing_random (hnames host hname)).trans (le_of_eq ?_)
      simp only [SearchContext.configured, ha]
      rfl
  | crossSubzoneStrong | crossSubzoneWeak =>
    simp only [SearchContext.rackLimit, ha, Option.mem_def] at h
    obtain ⟨maxPerSubZone, hmax, rfl⟩ := Option.map_eq_some_iff.mp h
    have hlimited := zoneLimited hcount htol hmax
    have hzone : o.affinity ≠ .crossRack := by simp [ha]
    refine ⟨hlimited.tolerance, maxTolerated_pos hlimited.pos (by norm_num), ?_, fun host hname => ?_⟩
    · rw [← hlimited.limit]
      simp only [SearchContext.configured, ha]
      rfl
    · unfold SearchContext.namesRack at hname
      rw [hmax, if_pos (by rfl)] at hname
      refine (existing_dual hzone hname.1 hname.2).trans (le_of_eq ?_)
      simp only [SearchContext.configured, ha]
      rfl

end Limits

section Sound

theorem RotationEnd.moves (h : RotationEnd insList c (.returned c')) : Moves c c' := by
  cases h with
  | done hmoves => exact hmoves
  | noneFull hmoves => exact hmoves
  | allFull hmoves => exact hmoves

theorem reaches_of_returned {r : Option String × PickerObject} (hspecial : o.specialHostIds = [])
    (hcount : 0 < o.count) (hfuel : 3 * insList.length < fuel)
    (h : o.pickInstanceBase insList rt fuel (newPicker o.count) = .returned r) :
    Reaches o insList o.configured r.2 := by
  by_cases ha : o.affinity = .crossSubzoneStrong
  · rcases @pickInstanceBase_strong o insList rt fuel hspecial hcount ha hfuel with
      ⟨r', hrun, -, hreaches⟩ | ⟨picked, hrun, -, hend⟩
    · rw [hrun] at h
      cases h
      exact hreaches
    · rw [hrun] at h
      cases picked with
      | returned a =>
        cases h
        exact (reaches_analyse (by rw [ha]; rfl)).trans hend.moves.reaches
      | blocked => cases h
      | outOfFuel => cases h
  · obtain ⟨r', hrun, hreaches⟩ :=
      @pickInstanceBase_returns o insList rt fuel hspecial hcount ha hfuel
    rw [hrun] at h
    cases h
    exact hreaches

variable {S : List TbRpDetail}

theorem mem_of_picked (hids : (insList.map TbRpDetail.bkHostID).Nodup)
    (hpool : ∀ host ∈ S, host ∈ insList) (hhost : host ∈ insList)
    (hpicked : host.bkHostID ∈ S.map TbRpDetail.bkHostID) : host ∈ S := by
  obtain ⟨picked, hmem, hid⟩ := List.mem_map.mp hpicked
  rw [← List.inj_on_of_nodup_map hids (hpool picked hmem) hhost hid]
  exact hmem

/-- The hosts of the pool with picked ids are the picks, so there are no more of any kind. -/
theorem countP_picked_le (hids : (insList.map TbRpDetail.bkHostID).Nodup)
    (hpool : ∀ host ∈ S, host ∈ insList) {p q : TbRpDetail → Prop} [DecidablePred p] [DecidablePred q]
    (hpq : ∀ host, p host → q host) :
    (insList.countP fun host => host.bkHostID ∈ S.map TbRpDetail.bkHostID ∧ p host) ≤
      S.countP fun host => q host := by
  rw [List.countP_eq_length_filter, List.countP_eq_length_filter]
  refine (List.subperm_of_subset (hids.of_map.filter _) fun host hhost => ?_).length_le
  simp only [List.mem_filter, decide_eq_true_eq] at hhost ⊢
  exact ⟨mem_of_picked hids hpool hhost.1 hhost.2.1, hpq host hhost.2.2⟩

theorem Accounted.spread (h : Accounted o insList c) (hcount : 0 < o.count) (htol : 0 ≤ o.tolerance)
    (hids : (insList.map TbRpDetail.bkHostID).Nodup) : Spread o insList c.satisfiedHostIds := by
  obtain ⟨zones, racks, S, hpool, ht⟩ := h.tally
  obtain ⟨sums, hlimits⟩ := h.limits
  have htolerance : c.tolerance = o.configured.tolerance := congrArg Limits.tolerance hlimits
  rw [ht.ids]
  refine ⟨fun limit hlimit host hhost hpicked htrim => ?_,
    fun limit hlimit host hhost hpicked hname => ?_⟩
  · have hlimited := zoneLimited hcount htol hlimit
    have hmax : c.maxPerSubZone = limit :=
      (congrArg Limits.maxPerSubZone hlimits).trans hlimited.limit
    have hexisting : c.currentHostsBySubZone = o.configured.currentHostsBySubZone :=
      congrArg Limits.currentHostsBySubZone hlimits
    have hroom := ht.zoneRoom host (mem_of_picked hids hpool hhost hpicked)
      (by rw [htolerance]; exact hlimited.tolerance) (by rw [hmax]; exact hlimited.pos)
    have hkey : queueKey o.affinity.israndom host = host.subZone := by
      rw [hlimited.israndom]
      rfl
    have hcurrent : (o.currentHosts.countP fun other => other.subZone = host.subZone) ≤
        c.currentHostsBySubZone host.subZone := by
      rw [hexisting, hlimited.existing]
      refine List.countP_mono_left fun other _ hother => ?_
      simp only [decide_eq_true_eq] at hother ⊢
      rw [hother, htrim]
    have hnew : (insList.countP fun other => other.bkHostID ∈ S.map TbRpDetail.bkHostID ∧
        other.subZone = host.subZone) ≤ c.pickDistribute host.subZone := by
      rw [ht.zones]
      refine (countP_picked_le hids hpool fun other hother => ?_).trans (Nat.le_add_left _ _)
      rw [hlimited.israndom]
      exact hother
    rw [hkey, hmax] at hroom
    unfold PickerObject.getSubZoneCurrentTotal at hroom
    unfold SearchContext.inSubZone
    omega
  · have hlimited := rackLimited hcount htol hlimit
    have hmax : c.maxPerRack = limit := (congrArg Limits.maxPerRack hlimits).trans hlimited.limit
    have hpos : 0 < c.maxPerRack := by rw [hmax]; exact hlimited.pos
    have hexisting : c.currentHostsByRack = o.configured.currentHostsByRack :=
      congrArg Limits.currentHostsByRack hlimits
    have hroom := ht.rackRoom host (mem_of_picked hids hpool hhost hpicked)
      (by rw [htolerance]; exact hlimited.tolerance) hpos
    have hcurrent := hlimited.existing host hname
    rw [← hexisting] at hcurrent
    have hnew : (insList.countP fun other => other.bkHostID ∈ S.map TbRpDetail.bkHostID ∧
        o.sameRack host other.subZone other.rackID = true) ≤
        c.rackDistribute (rackKey o.affinity.israndom host) := by
      rw [ht.racks hpos]
      exact (countP_picked_le hids hpool fun other hother => rackKey_of_sameRack hother).trans
        (Nat.le_add_left _ _)
    rw [hmax] at hroom
    unfold PickerObject.getRackCurrentTotal at hroom
    unfold rackKey at hcurrent hnew
    unfold SearchContext.inRack
    omega

/-- Designated hosts are taken from the pool as they are. -/
theorem sound_designated {r : Option String × PickerObject} (hspecial : o.specialHostIds ≠ [])
    (hids : (insList.map TbRpDetail.bkHostID).Nodup)
    (h : o.pickInstanceBase insList rt fuel (newPicker o.count) = .returned r) :
    SoundPick o insList r.2 := by
  unfold SearchContext.pickInstanceBase at h
  rw [if_neg (by simpa using hspecial)] at h
  cases h
  have hnodup : ((insList.filter fun v => v.bkHostID ∈ o.specialHostIds).map
      TbRpDetail.bkHostID).Nodup := hids.sublist (List.filter_sublist.map _)
  refine ⟨hnodup, fun id hid => ?_, ?_, (if_neg hspecial).symm, fun hnil => absurd hnil hspecial⟩
  · obtain ⟨host, hhost, rfl⟩ := List.mem_map.mp hid
    exact ⟨host, (List.mem_filter.mp hhost).1, rfl⟩
  · refine (List.subperm_of_subset hnodup fun id hid => ?_).length_le
    obtain ⟨host, hhost, rfl⟩ := List.mem_map.mp hid
    simpa using (List.mem_filter.mp hhost).2

/-- Whatever a request holds when picking returns is sound. -/
theorem picks_sound {r : Option String × PickerObject} (hcount : 0 < o.count)
    (htol : 0 ≤ o.tolerance) (hids : (insList.map TbRpDetail.bkHostID).Nodup)
    (hfuel : 3 * insList.length < fuel)
    (h : o.pickInstanceBase insList rt fuel (newPicker o.count) = .returned r) :
    SoundPick o insList r.2 := by
  by_cases hspecial : o.specialHostIds = []
  · have haccounted := accounted_reaches (reaches_of_returned hspecial hcount hfuel h)
    obtain ⟨zones, racks, S, hpool, ht⟩ := haccounted.tally
    obtain ⟨sums, hlimits⟩ := haccounted.limits
    have hwanted : r.2.count = o.count := by
      refine (congrArg Limits.count hlimits).trans ?_
      show o.configured.count = o.count
      unfold SearchContext.configured
      cases o.affinity <;> rfl
    refine ⟨ht.nodup, fun id hid => ?_, ?_, by rw [if_pos hspecial, hwanted],
      fun _ => haccounted.spread hcount htol hids⟩
    · rw [ht.ids] at hid
      obtain ⟨host, hhost, hid⟩ := List.mem_map.mp hid
      exact ⟨host, hpool host hhost, hid⟩
    · rw [ht.ids, List.length_map]
      exact ht.length
  · exact sound_designated hspecial hids h

/-- A request for one host, beside one current host, where a place may hold one. -/
def loneRequest (affinity : Affinity) (current : CurrentResource) (specialHostIds : List ℤ) :
    SearchContext where
  affinity
  count := 1
  tolerance := 0
  currentHosts := [current]
  specialHostIds
  resourcePriority _ := 0

theorem exists_returned {ids : List ℤ}
    (h : (o.pickInstanceBase insList rt fuel (newPicker o.count)).toOption.map
      (fun r => r.2.satisfiedHostIds) = some ids) :
    ∃ r, o.pickInstanceBase insList rt fuel (newPicker o.count) = .returned r ∧
      r.2.satisfiedHostIds = ids := by
  obtain ⟨r, hr, hids⟩ := Option.map_eq_some_iff.mp h
  exact ⟨r, Outcome.toOption_eq_some.mp hr, hids⟩

theorem picks_sound_other_zone : ∃ r,
    (loneRequest .crosSubzone ⟨9, "A", "r9"⟩ []).pickInstanceBase [⟨1, "B", "r1", "n1"⟩] .still 4
      (newPicker 1) = .returned r ∧ r.2.satisfiedHostIds = [1] ∧
    SoundPick (loneRequest .crosSubzone ⟨9, "A", "r9"⟩ []) [⟨1, "B", "r1", "n1"⟩] r.2 := by
  obtain ⟨r, hr, hids⟩ := @exists_returned (loneRequest .crosSubzone ⟨9, "A", "r9"⟩ [])
    [⟨1, "B", "r1", "n1"⟩] .still 4 [1] (by decide +kernel)
  exact ⟨r, hr, hids, picks_sound (by decide) (by decide +kernel) (by decide) (by decide) hr⟩

/-- Two hosts where one is allowed: in a sub-zone whose name ends in a blank, which the picker trims for
the current host only; in the rack without an id, in which current hosts are not counted; and in the
sub-zone of a designated host. -/
theorem overfull_places :
    (∃ r, (loneRequest .crosSubzone ⟨9, "A ", "r9"⟩ []).pickInstanceBase [⟨1, "A ", "r1", "n1"⟩] .still 4
        (newPicker 1) = .returned r ∧
      (loneRequest .crosSubzone ⟨9, "A ", "r9"⟩ []).zoneLimit = some 1 ∧
      (loneRequest .crosSubzone ⟨9, "A ", "r9"⟩ []).inSubZone [⟨1, "A ", "r1", "n1"⟩]
        r.2.satisfiedHostIds ⟨1, "A ", "r1", "n1"⟩ = 2) ∧
    (∃ r, (loneRequest .sameSubzone ⟨9, "A", ""⟩ []).pickInstanceBase [⟨1, "A", "", "n1"⟩] .still 4
        (newPicker 1) = .returned r ∧
      (loneRequest .sameSubzone ⟨9, "A", ""⟩ []).rackLimit = some 1 ∧
      (loneRequest .sameSubzone ⟨9, "A", ""⟩ []).inRack [⟨1, "A", "", "n1"⟩]
        r.2.satisfiedHostIds ⟨1, "A", "", "n1"⟩ = 2) ∧
    ∃ r, (loneRequest .crosSubzone ⟨9, "A", "r9"⟩ [1]).pickInstanceBase [⟨1, "A", "r1", "n1"⟩] .still 4
        (newPicker 1) = .returned r ∧
      (loneRequest .crosSubzone ⟨9, "A", "r9"⟩ [1]).zoneLimit = some 1 ∧
      (loneRequest .crosSubzone ⟨9, "A", "r9"⟩ [1]).inSubZone [⟨1, "A", "r1", "n1"⟩]
        r.2.satisfiedHostIds ⟨1, "A", "r1", "n1"⟩ = 2 := by
  refine ⟨?_, ?_, ?_⟩
  · obtain ⟨r, hr, hids⟩ := @exists_returned (loneRequest .crosSubzone ⟨9, "A ", "r9"⟩ [])
      [⟨1, "A ", "r1", "n1"⟩] .still 4 [1] (by decide +kernel)
    exact ⟨r, hr, by decide +kernel, by rw [hids]; decide +kernel⟩
  · obtain ⟨r, hr, hids⟩ := @exists_returned (loneRequest .sameSubzone ⟨9, "A", ""⟩ [])
      [⟨1, "A", "", "n1"⟩] .still 4 [1] (by decide +kernel)
    exact ⟨r, hr, by decide +kernel, by rw [hids]; decide +kernel⟩
  · obtain ⟨r, hr, hids⟩ := @exists_returned (loneRequest .crosSubzone ⟨9, "A", "r9"⟩ [1])
      [⟨1, "A", "r1", "n1"⟩] .still 4 [1] (by decide +kernel)
    exact ⟨r, hr, by decide +kernel, by rw [hids]; decide +kernel⟩

end Sound

end Resource
