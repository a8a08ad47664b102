import BluekingDbm.Resource.AcrossZones
import BluekingDbm.Resource.Instance

/-! What the analysis of the pool gives the pickers: the hosts of the pool, in the queues of their
sub-zones, or no queues at all. -/
namespace Resource

open Loop PickerObject

variable {o : SearchContext} {insList : List TbRpDetail} {israndom : Bool} {picker : PickerObject}
  {key z : String} {q : List Item}

namespace SearchContext

theorem queues_eq_group : o.queues insList israndom =
    QueueMap.group (queueKey israndom) (o.element insList israndom) insList := rfl

theorem mem_queues : key ∈ o.queues insList israndom ↔ ∃ ins ∈ insList, queueKey israndom ins = key := by
  rw [queues_eq_group]
  exact QueueMap.mem_group

theorem load_queues : (o.queues insList israndom).load = insList.length := by
  rw [queues_eq_group]
  exact QueueMap.load_group

theorem queue_of_lookup (h : (o.queues insList israndom).lookup key = some q) :
    q = (insList.filter fun ins => queueKey israndom ins = key).map (o.element insList israndom) := by
  rw [queues_eq_group, QueueMap.lookup_group] at h
  split at h
  · exact (Option.some_inj.mp h).symm
  · cases h

theorem mem_queue {ins : TbRpDetail} (hins : ins ∈ insList) :
    ∃ q, (o.queues insList israndom).lookup (queueKey israndom ins) = some q ∧
      o.element insList israndom ins ∈ q := by
  have hkey : queueKey israndom ins ∈ o.queues insList israndom := mem_queues.mpr ⟨ins, hins, rfl⟩
  obtain ⟨q, hq⟩ := Option.isSome_iff_exists.mp (AList.lookup_isSome.mpr hkey)
  refine ⟨q, hq, ?_⟩
  rw [queue_of_lookup hq]
  exact List.mem_map_of_mem (List.mem_filter.mpr ⟨hins, by simp⟩)

theorem queue_ne_nil (h : (o.queues insList israndom).lookup key = some q) : q ≠ [] := by
  obtain ⟨ins, hins, rfl⟩ := mem_queues.mp (AList.lookup_isSome.mp (by rw [h]; rfl))
  obtain ⟨q', hq', hmem⟩ := @mem_queue o insList israndom ins hins
  rw [h] at hq'
  obtain rfl := Option.some_inj.mp hq'
  exact List.ne_nil_of_mem hmem

theorem mem_subZonePrioritySums (h : z ∈ o.subZonePrioritySums insList israndom) :
    z ∈ o.queues insList israndom := by
  have hsums : israndom = false → (z ∈ o.subZonePrioritySums insList israndom ↔
      ∃ ins ∈ insList, ins.subZone = z) := by
    rintro rfl
    refine foldl_prefix (P := fun done (sums : AList fun _ : String => ℤ) => z ∈ sums ↔
      ∃ ins : TbRpDetail, ins ∈ done ∧ ins.subZone = z) ?_ ?_
    · simp
    · intro done ins rest sums _ hsums
      rw [AList.mem_insert, hsums]
      constructor
      · rintro (rfl | ⟨ins', hins', hz⟩)
        · exact ⟨ins, by simp, rfl⟩
        · exact ⟨ins', by simp [hins'], hz⟩
      · rintro ⟨ins', hins', hz⟩
        rcases List.mem_append.mp hins' with hins' | hins'
        · exact .inr ⟨ins', hins', hz⟩
        · rw [List.mem_singleton.mp hins'] at hz
          exact .inl hz.symm
  cases israndom with
  | true => exact absurd h (AList.notMem_empty _)
  | false => exact mem_queues.mpr ((hsums rfl).mp h)

theorem length_subZonePrioritySums :
    (o.subZonePrioritySums insList israndom).keys.length ≤ insList.length := by
  cases israndom with
  | true => exact Nat.zero_le _
  | false =>
    refine foldl_prefix (P := fun done (sums : AList fun _ : String => ℤ) =>
      sums.keys.length ≤ done.length) (Nat.zero_le _) ?_
    intro done ins rest sums _ hlen
    have := List.length_erase_le (a := ins.subZone) (l := sums.keys)
    simp only [AList.keys_insert, List.length_cons, List.length_append, List.length_nil]
    omega

/-- The two ends of the analysis. -/
theorem analyse_cases :
    (o.pushFails insList israndom = true ∧ o.analyse insList israndom picker =
      (some "duplicate item", { picker with
        priorityElements := ∅
        subZonePrioritySumMap := o.subZonePrioritySums insList israndom })) ∨
    (o.pushFails insList israndom = false ∧ o.analyse insList israndom picker =
      (none, { picker with
        priorityElements := o.queues insList israndom
        subZonePrioritySumMap := o.subZonePrioritySums insList israndom })) := by
  cases hfails : o.pushFails insList israndom with
  | true =>
    have hpriority : o.analysisResourcePriority insList israndom =
        (∅, o.subZonePrioritySums insList israndom, some "duplicate item") := if_pos hfails
    exact .inl ⟨rfl, by rw [analyse, hpriority]⟩
  | false =>
    have hpriority : o.analysisResourcePriority insList israndom =
        (o.queues insList israndom, o.subZonePrioritySums insList israndom, none) :=
      if_neg (by simp [hfails])
    exact .inr ⟨rfl, by rw [analyse, hpriority]⟩

end SearchContext

/-- The queues after the analysis: those of the pool, or none where a push failed. -/
structure Analysed (o : SearchContext) (insList : List TbRpDetail) (israndom : Bool)
    (c : PickerObject) : Prop where
  within : Within insList.length c
  stocked : Stocked c
  unvisited : Unvisited c
  queue : ∀ key q, c.priorityElements.lookup key = some q →
    q = (insList.filter fun ins => queueKey israndom ins = key).map (o.element insList israndom)

theorem analysed_analyse : Analysed o insList israndom (o.analyse insList israndom picker).2 := by
  have hpool : (o.analyse insList israndom picker).2.subZonePrioritySumMap =
        o.subZonePrioritySums insList israndom ∧
      ((o.analyse insList israndom picker).2.priorityElements = ∅ ∨
        (o.analyse insList israndom picker).2.priorityElements = o.queues insList israndom) := by
    rcases @SearchContext.analyse_cases o insList israndom picker with ⟨_, h⟩ | ⟨_, h⟩
    · rw [h]
      exact ⟨rfl, .inl rfl⟩
    · rw [h]
      exact ⟨rfl, .inr rfl⟩
  generalize (o.analyse insList israndom picker).2 = c at hpool ⊢
  obtain ⟨hsums, hqueues⟩ := hpool
  have hlen : c.subZonePrioritySumMap.keys.length ≤ insList.length := by
    rw [hsums]
    exact SearchContext.length_subZonePrioritySums
  rcases hqueues with hqueues | hqueues
  · have hnone : ∀ y, y ∉ c.priorityElements := by
      intro y
      rw [hqueues]
      exact AList.notMem_empty y
    have hsize : c.priorityElements.size = 0 := QueueMap.size_eq_zero.mpr hnone
    refine ⟨⟨?_, by omega, hlen⟩, fun y hy => absurd hy (hnone y), .inl hsize, fun y q hq => ?_⟩
    · unfold PickerObject.load
      rw [hqueues]
      exact Nat.zero_le _
    · exact absurd (mem_of_lookup hq) (hnone y)
  · have hstocked : ∀ y q, c.priorityElements.lookup y = some q → q ≠ [] := by
      intro y q hq
      rw [hqueues] at hq
      exact SearchContext.queue_ne_nil hq
    have hload : c.load = insList.length := by
      unfold PickerObject.load
      rw [hqueues]
      exact SearchContext.load_queues
    have hsize : c.priorityElements.size ≤ c.load := QueueMap.size_le_load hstocked
    refine ⟨⟨hload.le, hsize.trans hload.le, hlen⟩, fun y hy => ?_, .inr fun y hy _ => ?_, ?_⟩
    · obtain ⟨q, hq⟩ := Option.isSome_iff_exists.mp (AList.lookup_isSome.mpr hy)
      have hne := hstocked y q hq
      rw [queueLen_of_lookup hq]
      exact fun h => hne (List.length_eq_zero_iff.mp h)
    · rw [hsums] at hy
      rw [hqueues]
      exact SearchContext.mem_subZonePrioritySums hy
    · intro y q hq
      rw [hqueues] at hq
      exact SearchContext.queue_of_lookup hq

end Resource
