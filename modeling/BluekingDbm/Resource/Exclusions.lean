import Mathlib.Data.Set.Finite.Basic
import BluekingDbm.Resource.Apply

/-! What a location excludes, and which of the hosts that a search lets through it keeps out. -/
namespace Resource

open Text

/-- A host with none of the excluded zones, racks and net devices. -/
structure LocationSpec.Avoids (l : LocationSpec) (r : Row) : Prop where
  subZone : r.subZoneID ∉ l.excludeSubZoneIds
  rack : r.rackID ∉ l.excludeRackIds
  netDevice : ∀ d ∈ r.instanceObject.linkNetdeviceId, d ∉ l.excludeNetDeviceIds

namespace Search

variable (o : Search) {r : Row} {t : Table}

/-- The part of the search for the city. -/
def inCity (r : Row) : Bool :=
  if o.idcCitys.isEmpty then r.city = o.detail.locationSpec.city else r.city ∈ o.idcCitys

/-- The part of the search for the zones that are asked for. -/
def inZones (r : Row) : Bool :=
  let l := o.detail.locationSpec
  if l.subZoneIsEmpty then o.specialSubZoneIds.isEmpty || r.subZoneID ∈ o.specialSubZoneIds
  else if l.isExclude then r.subZoneID ∉ l.subZoneIds else r.subZoneID ∈ l.subZoneIds

/-- No host of the pool gets through with something excluded. -/
def Honours (t : Table) : Prop :=
  ∀ r ∈ t, o.matchLocationSpec r = true → o.detail.locationSpec.Avoids r

/-- What a pool must be like. Without zones the exclusions are not asked for, and with zones the list of
net devices of a host is compared as one text. -/
def Spares (t : Table) : Prop :=
  ∀ r ∈ t, o.inCity r = true → o.inZones r = true →
    if o.detail.locationSpec.subZoneIsEmpty then o.detail.locationSpec.Avoids r
    else 1 < r.instanceObject.linkNetdeviceId.length →
      r.subZoneID ∉ o.detail.locationSpec.excludeSubZoneIds →
      r.rackID ∉ o.detail.locationSpec.excludeRackIds →
      r.netDeviceID ∉ o.detail.locationSpec.excludeNetDeviceIds →
      ∀ d ∈ r.instanceObject.linkNetdeviceId, d ∉ o.detail.locationSpec.excludeNetDeviceIds

/-- What a location must be like for every pool: an excluded text with a comma names no net device. -/
def Heeds : Prop :=
  let l := o.detail.locationSpec
  if l.subZoneIsEmpty then
    (o.specialSubZoneIds = [] → l.excludeSubZoneIds = []) ∧
      (∀ z ∈ o.specialSubZoneIds, z ∉ l.excludeSubZoneIds) ∧ l.excludeRackIds = [] ∧
      ∀ d ∈ l.excludeNetDeviceIds, ',' ∈ d.toList
  else
    (l.isExclude = false ∧ ∀ z ∈ l.subZoneIds, z ∈ l.excludeSubZoneIds) ∨
      ∀ d ∈ l.excludeNetDeviceIds, ',' ∈ d.toList

variable {o}

theorem matchLocationSpec_bare (hcity : o.detail.locationSpec.isEmpty = false)
    (hzones : o.detail.locationSpec.subZoneIsEmpty = true) :
    o.matchLocationSpec r = true ↔ o.inCity r = true ∧ o.inZones r = true := by
  simp [matchLocationSpec, inCity, inZones, hcity, hzones]

theorem matchLocationSpec_zoned (hcity : o.detail.locationSpec.isEmpty = false)
    (hzones : o.detail.locationSpec.subZoneIsEmpty = false) :
    o.matchLocationSpec r = true ↔ o.inCity r = true ∧ o.inZones r = true ∧
      r.subZoneID ∉ o.detail.locationSpec.excludeSubZoneIds ∧
      r.rackID ∉ o.detail.locationSpec.excludeRackIds ∧
      r.netDeviceID ∉ o.detail.locationSpec.excludeNetDeviceIds := by
  have hnone : ∀ (x : String) (xs : List String),
      (xs.isEmpty || decide (x ∉ xs)) = true ↔ x ∉ xs := by
    intro x xs
    cases xs with
    | nil => simp
    | cons y ys => simp
  simp only [matchLocationSpec, inCity, inZones, hcity, hzones, Bool.and_eq_true, hnone,
    Bool.false_eq_true, if_false, and_assoc]

/-- For one pool. -/
theorem honours_iff_spares (hcity : o.detail.locationSpec.isEmpty = false) :
    o.Honours t ↔ o.Spares t := by
  cases hzones : o.detail.locationSpec.subZoneIsEmpty with
  | true =>
    simp only [Honours, Spares, matchLocationSpec_bare hcity hzones, hzones, and_imp, if_true]
  | false =>
    simp only [Honours, Spares, matchLocationSpec_zoned hcity hzones, hzones, Bool.false_eq_true,
      if_false]
    constructor
    · intro h r hr hin hzone _ hz hrack hnet
      exact (h r hr ⟨hin, hzone, hz, hrack, hnet⟩).netDevice
    · rintro h r hr ⟨hin, hzone, hz, hrack, hnet⟩
      refine ⟨hz, hrack, ?_⟩
      by_cases hlen : 1 < r.instanceObject.linkNetdeviceId.length
      · exact h r hr hin hzone hlen hz hrack hnet
      · -- a single device is the whole text that was compared
        intro d hd
        rw [eq_of_mem_split hlen hd]
        exact hnet

section Location

theorem exists_notMem (xs : List String) : ∃ x, x ∉ xs := by
  obtain ⟨x, hx⟩ := Infinite.exists_notMem_finset xs.toFinset
  exact ⟨x, fun h => hx (List.mem_toFinset.mpr h)⟩

/-- A device is one of two devices in infinitely many texts. -/
theorem exists_text_with {d : String} (hd : ',' ∉ d.toList) (xs : List String) :
    ∃ s, s ∉ xs ∧ d ∈ split s ',' := by
  let pair : ℕ → String := fun n => String.intercalate "," [d, n.repr]
  have hsplit : ∀ n, split (pair n) ',' = [d, n.repr] := by
    intro n
    refine split_intercalate rfl (by simp) ?_
    intro item hitem
    rcases List.mem_cons.mp hitem with rfl | hitem
    · exact hd
    · obtain rfl := List.mem_singleton.mp hitem
      intro hcomma
      have := repr_isDigit hcomma
      simp at this
  have hinj : Function.Injective pair := by
    intro m n h
    have hlists : [d, m.repr] = [d, n.repr] := by rw [← hsplit m, ← hsplit n, h]
    exact repr_injective (by simpa using hlists)
  obtain ⟨s, ⟨n, rfl⟩, hs⟩ :=
    (Set.infinite_range_of_injective hinj).exists_notMem_finset xs.toFinset
  refine ⟨pair n, fun h => hs (List.mem_toFinset.mpr h), ?_⟩
  rw [hsplit]
  exact List.mem_cons_self

/-- A host that stands where it is told to. -/
def hostAt (city subZoneID rackID netDeviceID : String) : Row where
  bkHostID := 1
  subZone := subZoneID
  rackID := rackID
  netDeviceID := netDeviceID
  id := 1
  bkCloudID := 0
  city := city
  subZoneID := subZoneID
  gseAlive := true
  status := .unused
  holder := none

theorem exists_city (o : Search) : ∃ city, ∀ z rack net, o.inCity (hostAt city z rack net) = true := by
  cases hcitys : o.idcCitys with
  | nil => exact ⟨o.detail.locationSpec.city, fun z rack net => by simp [inCity, hcitys, hostAt]⟩
  | cons city citys => exact ⟨city, fun z rack net => by simp [inCity, hcitys, hostAt]⟩

/-- Some zone that is asked for is not excluded. -/
theorem exists_zone (hzones : o.detail.locationSpec.subZoneIsEmpty = false)
    (hopen : ¬ (o.detail.locationSpec.isExclude = false ∧
      ∀ z ∈ o.detail.locationSpec.subZoneIds, z ∈ o.detail.locationSpec.excludeSubZoneIds)) :
    ∃ z, z ∉ o.detail.locationSpec.excludeSubZoneIds ∧
      ∀ city rack net, o.inZones (hostAt city z rack net) = true := by
  cases hexclude : o.detail.locationSpec.isExclude with
  | true =>
    obtain ⟨z, hz⟩ := exists_notMem
      (o.detail.locationSpec.subZoneIds ++ o.detail.locationSpec.excludeSubZoneIds)
    have hout := not_or.mp fun h => hz (List.mem_append.mpr h)
    refine ⟨z, hout.2, fun city rack net => ?_⟩
    simp [inZones, hzones, hexclude, hostAt, hout.1]
  | false =>
    have hsome : ∃ z ∈ o.detail.locationSpec.subZoneIds,
        z ∉ o.detail.locationSpec.excludeSubZoneIds := by
      by_contra hnone
      refine hopen ⟨hexclude, fun z hz => ?_⟩
      by_contra hout
      exact hnone ⟨z, hz, hout⟩
    obtain ⟨z, hz, hout⟩ := hsome
    exact ⟨z, hout, fun city rack net => by simp [inZones, hzones, hexclude, hostAt, hz]⟩

/-- An excluded text without a device in it keeps no host out. -/
theorem netDevice_of_commas (h : ∀ d ∈ o.detail.locationSpec.excludeNetDeviceIds, ',' ∈ d.toList) :
    ∀ d ∈ r.instanceObject.linkNetdeviceId, d ∉ o.detail.locationSpec.excludeNetDeviceIds := by
  intro d hd hexcluded
  exact mem_split_no_sep hd (h d hexcluded)

theorem heeds_of_honours_bare (hcity : o.detail.locationSpec.isEmpty = false)
    (hzones : o.detail.locationSpec.subZoneIsEmpty = true) (h : ∀ t, o.Honours t) : o.Heeds := by
  obtain ⟨city, hin⟩ := exists_city o
  have havoids : ∀ z rack net, o.inZones (hostAt city z rack net) = true →
      o.detail.locationSpec.Avoids (hostAt city z rack net) := by
    intro z rack net hzone
    exact h [hostAt city z rack net] _ List.mem_cons_self
      ((matchLocationSpec_bare hcity hzones).mpr ⟨hin z rack net, hzone⟩)
  have hspecial : ∀ z rack net, (o.specialSubZoneIds = [] ∨ z ∈ o.specialSubZoneIds) →
      o.inZones (hostAt city z rack net) = true := by
    intro z rack net hz
    rcases hz with hz | hz
    · simp [inZones, hzones, hz]
    · simp [inZones, hzones, hostAt, hz]
  have hzone : ∃ z, o.specialSubZoneIds = [] ∨ z ∈ o.specialSubZoneIds := by
    cases o.specialSubZoneIds with
    | nil => exact ⟨"", .inl rfl⟩
    | cons z zs => exact ⟨z, .inr List.mem_cons_self⟩
  obtain ⟨z, hz⟩ := hzone
  simp only [Heeds, hzones, if_true]
  refine ⟨fun hnone => ?_, fun z' hz' => ?_, ?_, fun d hd => ?_⟩
  · apply List.eq_nil_iff_forall_not_mem.mpr
    intro z'
    exact (havoids z' "" "" (hspecial z' "" "" (.inl hnone))).subZone
  · exact (havoids z' "" "" (hspecial z' "" "" (.inr hz'))).subZone
  · apply List.eq_nil_iff_forall_not_mem.mpr
    intro rack
    exact (havoids z rack "" (hspecial z rack "" hz)).rack
  · by_contra hcomma
    obtain ⟨net, -, hnet⟩ := exists_text_with hcomma []
    exact (havoids z "" net (hspecial z "" net hz)).netDevice d hnet hd

theorem heeds_of_honours_zoned (hcity : o.detail.locationSpec.isEmpty = false)
    (hzones : o.detail.locationSpec.subZoneIsEmpty = false) (h : ∀ t, o.Honours t) : o.Heeds := by
  simp only [Heeds, hzones, Bool.false_eq_true, if_false]
  by_cases hopen : o.detail.locationSpec.isExclude = false ∧
      ∀ z ∈ o.detail.locationSpec.subZoneIds, z ∈ o.detail.locationSpec.excludeSubZoneIds
  · exact .inl hopen
  · refine .inr fun d hd => ?_
    by_contra hcomma
    obtain ⟨city, hin⟩ := exists_city o
    obtain ⟨z, hz, hzone⟩ := exists_zone hzones hopen
    obtain ⟨rack, hrack⟩ := exists_notMem o.detail.locationSpec.excludeRackIds
    obtain ⟨net, hnet, hmem⟩ := exists_text_with hcomma o.detail.locationSpec.excludeNetDeviceIds
    have hmatch : o.matchLocationSpec (hostAt city z rack net) = true :=
      (matchLocationSpec_zoned hcity hzones).mpr
        ⟨hin z rack net, hzone city rack net, hz, hrack, hnet⟩
    exact (h [hostAt city z rack net] _ List.mem_cons_self hmatch).netDevice d hmem hd

/-- For every pool. -/
theorem honours_all_iff_heeds (hcity : o.detail.locationSpec.isEmpty = false) :
    (∀ t, o.Honours t) ↔ o.Heeds := by
  cases hzones : o.detail.locationSpec.subZoneIsEmpty with
  | true =>
    refine ⟨heeds_of_honours_bare hcity hzones, fun h t r _ hmatch => ?_⟩
    simp only [Heeds, hzones, if_true] at h
    obtain ⟨hnone, hspecial, hracks, hnets⟩ := h
    obtain ⟨-, hzone⟩ := (matchLocationSpec_bare hcity hzones).mp hmatch
    refine ⟨?_, by rw [hracks]; exact List.not_mem_nil, netDevice_of_commas hnets⟩
    have hz : o.specialSubZoneIds = [] ∨ r.subZoneID ∈ o.specialSubZoneIds := by
      simpa [inZones, hzones] using hzone
    rcases hz with hz | hz
    · rw [hnone hz]
      exact List.not_mem_nil
    · exact hspecial _ hz
  | false =>
    refine ⟨heeds_of_honours_zoned hcity hzones, fun h t r _ hmatch => ?_⟩
    simp only [Heeds, hzones, Bool.false_eq_true, if_false] at h
    obtain ⟨-, hzone, hz, hrack, -⟩ := (matchLocationSpec_zoned hcity hzones).mp hmatch
    rcases h with ⟨hinclude, hclosed⟩ | hnets
    · have hmem : r.subZoneID ∈ o.detail.locationSpec.subZoneIds := by
        simpa [inZones, hzones, hinclude] using hzone
      exact absurd (hclosed _ hmem) hz
    · exact ⟨hz, hrack, netDevice_of_commas hnets⟩

end Location

/-- Exclusions are honoured for exactly the pools that spare them, and for every pool by exactly the
locations that heed them. -/
theorem exclusions_honoured_iff (o : Search) (hcity : o.detail.locationSpec.isEmpty = false) :
    (∀ t, o.Honours t ↔ o.Spares t) ∧ ((∀ t, o.Honours t) ↔ o.Heeds) :=
  ⟨fun _ => honours_iff_spares hcity, honours_all_iff_heeds hcity⟩

/-- A search in a city without zones, with one rack excluded. -/
def withoutRack : Search where
  detail :=
    { bkCloudId := 0
      hosts := []
      groupMark := "backend"
      deviceClass := []
      cpu := ⟨0, 0⟩
      mem := ⟨0, 0⟩
      storageSpecs := []
      locationSpec := ⟨"sz", [], none, [], ["r1"], []⟩
      tolerance := 0
      currentHosts := []
      affinity := .none
      count := 1
      suits := fun _ => true
      fitsDisks := none
      resourcePriority := fun _ => 0
      count_pos := Nat.one_pos }
  idcCitys := ["sz"]
  specialSubZoneIds := []

theorem exclusions_honoured_iff_withoutRack :
    (∀ t, withoutRack.Honours t ↔ withoutRack.Spares t) ∧
      ((∀ t, withoutRack.Honours t) ↔ withoutRack.Heeds) :=
  exclusions_honoured_iff withoutRack (by decide)

/-- The host in the excluded rack gets through. -/
theorem withoutRack_not_honoured : withoutRack.detail.locationSpec.isEmpty = false ∧
    ¬ withoutRack.Honours [hostAt "sz" "z1" "r1" "d1"] := by
  refine ⟨by decide, fun h => ?_⟩
  exact (h _ List.mem_cons_self (by decide)).rack (by decide)

end Search
end Resource
