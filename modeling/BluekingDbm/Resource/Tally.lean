import BluekingDbm.Resource.Pool

/-! The hosts behind the counters: which picks a picker's counters account for, and that no pick is
beyond the limits. -/
namespace Resource

open Loop PickerObject

variable {insList S : List TbRpDetail} {israndom : Bool} {zones racks : String → ℕ}
  {c c' : PickerObject} {key : String} {v : InstanceObject} {host : TbRpDetail}

/-- The key under which a host's rack is counted. -/
def rackKey (israndom : Bool) (host : TbRpDetail) : String :=
  buildRackKey (queueKey israndom host) host.rackID

/-- Every queued item stands for a host of the pool that belongs to its queue. -/
def Sourced (insList : List TbRpDetail) (israndom : Bool) (c : PickerObject) : Prop :=
  ∀ key q, c.priorityElements.lookup key = some q → ∀ item ∈ q,
    ∃ host ∈ insList, queueKey israndom host = key ∧ item.value = host.instanceObject

/-- The counters are those of the picks `S`, which the limits admit, on top of `zones` and `racks`. -/
structure Tally (israndom : Bool) (zones racks : String → ℕ) (S : List TbRpDetail)
    (c : PickerObject) : Prop where
  ids : c.satisfiedHostIds = S.map TbRpDetail.bkHostID
  nodup : c.satisfiedHostIds.Nodup
  length : S.length ≤ c.count
  zones : ∀ z, c.pickDistribute z = zones z + S.countP fun host => queueKey israndom host = z
  racks : 0 < c.maxPerRack →
    ∀ k, c.rackDistribute k = racks k + S.countP fun host => rackKey israndom host = k
  zoneRoom : ∀ host ∈ S, 0 ≤ c.tolerance → 0 < c.maxPerSubZone →
    (c.getSubZoneCurrentTotal (queueKey israndom host) : ℤ) ≤ c.maxPerSubZone
  rackRoom : ∀ host ∈ S, 0 ≤ c.tolerance → 0 < c.maxPerRack →
    (c.getRackCurrentTotal (queueKey israndom host) host.rackID : ℤ) ≤ c.maxPerRack

section Sourced

theorem Analysed.sourced {o : SearchContext} (h : Analysed o insList israndom c) :
    Sourced insList israndom c := by
  intro key q hq item hitem
  rw [h.queue key q hq] at hitem
  obtain ⟨host, hhost, rfl⟩ := List.mem_map.mp hitem
  obtain ⟨hhost, hkey⟩ := List.mem_filter.mp hhost
  exact ⟨host, hhost, by simpa using hkey, rfl⟩

theorem lookup_popTo {rest : List Item} {y : String} (h : y ≠ key) :
    (c.popTo key rest).priorityElements.lookup y = c.priorityElements.lookup y :=
  AList.lookup_insert_ne h

theorem lookup_popTo_self {rest : List Item} :
    (c.popTo key rest).priorityElements.lookup key = some rest := AList.lookup_insert _

theorem lookup_drop {y : String} (h : y ≠ key) :
    (c.drop key).priorityElements.lookup y = c.priorityElements.lookup y := AList.lookup_erase_ne h

theorem lookup_drop_self : (c.drop key).priorityElements.lookup key = none := AList.lookup_erase _ _

theorem Sourced.drop (h : Sourced insList israndom c) : Sourced insList israndom (c.drop key) := by
  intro y q hq
  by_cases hy : y = key
  · subst hy
    rw [lookup_drop_self] at hq
    cases hq
  · rw [lookup_drop hy] at hq
    exact h y q hq

theorem Sourced.popTo {pq rest : List Item} (h : Sourced insList israndom c)
    (hq : c.priorityElements.lookup key = some pq) (hrest : rest ⊆ pq) :
    Sourced insList israndom (c.popTo key rest) := by
  intro y q hy
  by_cases hkey : y = key
  · subst hkey
    rw [lookup_popTo_self] at hy
    obtain rfl := Option.some_inj.mp hy
    intro item hitem
    exact h y pq hq item (hrest hitem)
  · rw [lookup_popTo hkey] at hy
    exact h y q hy

theorem Sourced.takes (h : Sourced insList israndom c) (htakes : Takes key v c c') :
    Sourced insList israndom c' := by
  intro y q hq
  rw [htakes.queues] at hq
  exact h y q hq

end Sourced

section Receding

theorem queueLen_drop : (c.drop key).queueLen key = 0 := by
  simp only [PickerObject.queueLen, lookup_drop_self]
  rfl

/-- Hosts only leave a queue. -/
theorem Move.queueLen_le (h : Move c c') (z : String) : c'.queueLen z ≤ c.queueLen z := by
  have hpop : ∀ {key : String} {pq rest : List Item},
      c.priorityElements.lookup key = some pq → rest.Subperm pq →
      (c.popTo key rest).queueLen z ≤ c.queueLen z := by
    intro key pq rest hq hrest
    by_cases hz : z = key
    · subst hz
      rw [queueLen_of_lookup lookup_popTo_self, queueLen_of_lookup hq]
      exact hrest.length_le
    · simp only [PickerObject.queueLen, lookup_popTo hz, le_rfl]
  cases h with
  | @drop key =>
    by_cases hz : z = key
    · subst hz
      rw [queueLen_drop]
      exact Nat.zero_le _
    · simp only [PickerObject.queueLen, lookup_drop hz, le_rfl]
  | pop hq hrest => exact hpop hq hrest
  | pick hq hrest _ htakes =>
    have hpicked := hpop hq ((List.sublist_cons_self _ _).subperm.trans hrest)
    simp only [PickerObject.queueLen, htakes.queues] at hpicked ⊢
    exact hpicked
  | _ => exact le_rfl

theorem Moves.queueLen_le (h : Moves c c') (z : String) : c'.queueLen z ≤ c.queueLen z :=
  h.invariant (P := fun a => a.queueLen z ≤ c.queueLen z) le_rfl
    fun hm ha => (hm.queueLen_le z).trans ha

end Receding

/-- The queues, the sub-zones tried and the choices made do not matter to the account. -/
theorem Tally.frame {priorityElements : QueueMap String Item}
    {subZonePrioritySumMap : AList fun _ : String => ℤ} {existSubZone : List String} {draws : ℕ}
    (h : Tally israndom zones racks S c) :
    Tally israndom zones racks S
      { c with priorityElements, subZonePrioritySumMap, existSubZone, draws } :=
  ⟨h.ids, h.nodup, h.length, h.zones, h.racks, h.zoneRoom, h.rackRoom⟩

section Takes

theorem bump_self (m : String → ℕ) (k : String) : bump m k k = m k + 1 := Function.update_self ..

theorem bump_of_ne {m : String → ℕ} {k k' : String} (h : k' ≠ k) : bump m k k' = m k' :=
  Function.update_of_ne h ..

theorem le_bump (m : String → ℕ) (k k' : String) : m k' ≤ bump m k k' := by
  by_cases h : k' = k
  · subst h
    rw [bump_self]
    exact Nat.le_succ _
  · rw [bump_of_ne h]

theorem bump_countP {m base : String → ℕ} {f : TbRpDetail → String}
    (h : ∀ k, m k = base k + S.countP fun host => f host = k) (k : String) :
    bump m (f host) k = base k + (S ++ [host]).countP fun host => f host = k := by
  rw [List.countP_append]
  by_cases hk : k = f host
  · subst hk
    rw [bump_self, h]
    simp only [List.countP_singleton, decide_true, if_true]
    omega
  · rw [bump_of_ne hk, h]
    simp [Ne.symm hk]

theorem Takes.zoneTotal (h : Takes key v c c') (z : String) : c'.getSubZoneCurrentTotal z =
    c.currentHostsBySubZone z + bump c.pickDistribute key z := by
  have hhosts : c'.currentHostsBySubZone = c.currentHostsBySubZone :=
    congrArg Limits.currentHostsBySubZone h.limits
  unfold PickerObject.getSubZoneCurrentTotal
  rw [hhosts, h.zones]

theorem Takes.rackTotal (h : Takes key v c c') (hmax : 0 < c.maxPerRack) (z rackId : String) :
    c'.getRackCurrentTotal z rackId = c.currentHostsByRack (buildRackKey z rackId) +
      bump c.rackDistribute (buildRackKey key v.rackId) (buildRackKey z rackId) := by
  have hhosts : c'.currentHostsByRack = c.currentHostsByRack :=
    congrArg Limits.currentHostsByRack h.limits
  have hracks := h.racks.resolve_right fun hle => absurd hmax (not_lt.mpr hle.1)
  unfold PickerObject.getRackCurrentTotal
  rw [hhosts, hracks]

/-- What was taken from a sub-zone stays taken. -/
theorem Move.zoneTotal_le (h : Move c c') (z : String) :
    c.getSubZoneCurrentTotal z ≤ c'.getSubZoneCurrentTotal z := by
  cases h with
  | pick _ _ _ htakes =>
    rw [htakes.zoneTotal]
    exact Nat.add_le_add_left (le_bump _ _ z) _
  | _ => exact le_rfl

theorem Moves.zoneTotal_le (h : Moves c c') (z : String) :
    c.getSubZoneCurrentTotal z ≤ c'.getSubZoneCurrentTotal z :=
  h.invariant (P := fun a => c.getSubZoneCurrentTotal z ≤ a.getSubZoneCurrentTotal z) le_rfl
    fun hm ha => ha.trans (hm.zoneTotal_le z)

/-- Taking a host that the limits admit, and noting it, keeps the account. -/
theorem Tally.pick (h : Tally israndom zones racks S c)
    (hadmits : Admits c (queueKey israndom host) host.instanceObject)
    (htakes : Takes (queueKey israndom host) host.instanceObject c c') :
    Tally israndom zones racks (S ++ [host]) c' := by
  have hcount : c'.count = c.count := congrArg Limits.count htakes.limits
  have htol : c'.tolerance = c.tolerance := congrArg Limits.tolerance htakes.limits
  have hmaxZone : c'.maxPerSubZone = c.maxPerSubZone := congrArg Limits.maxPerSubZone htakes.limits
  have hmaxRack : c'.maxPerRack = c.maxPerRack := congrArg Limits.maxPerRack htakes.limits
  refine ⟨?_, ?_, ?_, ?_, ?_, ?_, ?_⟩
  · rw [htakes.satisfied, h.ids, List.map_append]
    rfl
  · rw [htakes.satisfied, List.nodup_append]
    refine ⟨h.nodup, List.nodup_singleton _, fun id hid id' hid' => ?_⟩
    rw [List.mem_singleton.mp hid']
    intro heq
    exact hadmits.fresh (heq ▸ hid)
  · have hlen : c.satisfiedHostIds.length = S.length := by rw [h.ids, List.length_map]
    have hne : ¬ c.satisfiedHostIds.length = c.count := of_decide_eq_false hadmits.undone
    have hle := h.length
    rw [List.length_append, List.length_singleton, hcount]
    omega
  · intro z
    rw [htakes.zones]
    exact bump_countP h.zones z
  · intro hmax k
    rw [hmaxRack] at hmax
    rw [htakes.racks.resolve_right fun hle => absurd hmax (not_lt.mpr hle.1)]
    exact bump_countP (h.racks hmax) k
  · intro other hother htol' hmax
    rw [htol] at htol'
    rw [hmaxZone] at hmax ⊢
    rw [htakes.zoneTotal]
    by_cases hz : queueKey israndom other = queueKey israndom host
    · have hroom := hadmits.subZone htol' hmax
      rw [hz, bump_self]
      unfold PickerObject.getSubZoneCurrentTotal at hroom
      omega
    · have hmem : other ∈ S := by
        rcases List.mem_append.mp hother with hmem | hmem
        · exact hmem
        · exact absurd (by rw [List.mem_singleton.mp hmem]) hz
      rw [bump_of_ne hz]
      exact h.zoneRoom other hmem htol' hmax
  · intro other hother htol' hmax
    rw [htol] at htol'
    rw [hmaxRack] at hmax ⊢
    rw [htakes.rackTotal hmax]
    by_cases hk : rackKey israndom other = rackKey israndom host
    · have hroom := hadmits.rack htol' hmax
      unfold PickerObject.getRackCurrentTotal at hroom
      unfold rackKey at hk
      rw [hk]
      show ((c.currentHostsByRack _ + bump c.rackDistribute (rackKey israndom host)
        (rackKey israndom host) : ℕ) : ℤ) ≤ _
      rw [bump_self]
      unfold rackKey
      push_cast at hroom ⊢
      have hrack : host.instanceObject.rackId = host.rackID := rfl
      rw [hrack] at hroom
      omega
    · have hmem : other ∈ S := by
        rcases List.mem_append.mp hother with hmem | hmem
        · exact hmem
        · exact absurd (by rw [List.mem_singleton.mp hmem]) hk
      have hne : buildRackKey (queueKey israndom other) other.rackID ≠
          buildRackKey (queueKey israndom host) host.instanceObject.rackId := hk
      rw [bump_of_ne hne]
      exact h.rackRoom other hmem htol' hmax

end Takes

end Resource
