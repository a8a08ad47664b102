import BluekingDbm.Partition.Storing
import Mathlib.Data.List.Nodup

/-! What is dropped from a table that the service has partitioned. -/
namespace Partition

open Calendar

/-- The dates that a statement can name have four digits for their years. -/
structure Room (config : PartitionConfig) (now : ℕ) (rows : List Row) : Prop where
  today : firstDay < now ∧
    now + (config.extraPartition + 1) * config.partitionTimeInterval + 1 < lastDay
  bounds : ∀ row ∈ rows, ∃ day, Dated day ∧ row.partitionDescription = description config day ∧
    day + (config.extraPartition + 1) * config.partitionTimeInterval < lastDay

/-- The tables that the statements of the service produce, on any days: what the database takes of
initial partitions, added ones and dropped ones. -/
inductive Produced (config : PartitionConfig) : List Row → Prop
  | init {now : ℕ}
      (hfirst : firstDay + config.reservedPartition * config.partitionTimeInterval < now)
      (hlast : now + config.extraPartition * config.partitionTimeInterval + 1 < lastDay)
      (htaken : Accepted config (getInitPartitionSql config now)) :
      Produced config (getInitPartitionSql config now)
  | add {now : ℕ} {rows new : List Row} (hrows : Produced config rows) (hroom : Room config now rows)
      (hadd : getAddPartitionSql config now rows = some new)
      (htaken : Accepted config (rows ++ new)) : Produced config (rows ++ new)
  | drop {now : ℕ} {rows : List Row} {names : List String} (hrows : Produced config rows)
      (hdrop : getDropPartitionSql config now rows = some names) :
      Produced config (dropPartitions names rows)

/-- The days of a produced table. -/
structure Regular (config : PartitionConfig) (slots : List Slot) : Prop where
  sound : ∀ slot ∈ slots, slot.Sound config
  taken : Accepted config (slots.map (Slot.row config))

section

variable {config : PartitionConfig} {now base start need day second : ℕ} {slots : List Slot}
  {slot : Slot} {rows new : List Row} {names : List String}

theorem Accepted.sublist (h : Accepted config rows) (hsub : new.Sublist rows) :
    Accepted config new :=
  ⟨h.names.sublist (hsub.map _), h.bounds.sublist hsub⟩

/-- The bounds that a statement can reach have room. -/
theorem newSlots_sound (hinterval : 1 ≤ config.partitionTimeInterval) (hstart : start ≤ 1)
    (hneed : need ≤ config.extraPartition) (hfirst : firstDay ≤ base)
    (hbound : firstDay < base + start * config.partitionTimeInterval + initDiff config)
    (hlast : base + initDiff config +
      (config.extraPartition + 1) * config.partitionTimeInterval < lastDay + initDiff config)
    (hend : base + need * config.partitionTimeInterval + initDiff config < lastDay)
    (hslot : slot ∈ newSlots config base start need) : slot.Sound config := by
  obtain ⟨i, hlow, hhigh, rfl⟩ := (mem_newSlots (by omega)).mp hslot
  have hleft := Nat.mul_le_mul_right config.partitionTimeInterval hlow
  have hright := Nat.mul_le_mul_right config.partitionTimeInterval hhigh
  have hmore := Nat.mul_le_mul_right config.partitionTimeInterval
    (show i + 1 ≤ config.extraPartition + 1 by omega)
  rw [Nat.add_mul, Nat.one_mul] at hmore
  by_cases htype : config.partitionType = .type4
  · have hdiff : initDiff config = 1 := by simp [initDiff, htype, diffOneDay]
    have hnew : newSlot config base i = ⟨base + i * config.partitionTimeInterval,
        base + (i * config.partitionTimeInterval + config.partitionTimeInterval)⟩ := by
      rw [newSlot, newBound, htype, Nat.add_mul, Nat.one_mul]
    rw [hnew]
    refine ⟨?_, ?_, ?_, ?_⟩ <;> dsimp only <;> omega
  · have hnew : newSlot config base i = ⟨base + i * config.partitionTimeInterval,
        base + i * config.partitionTimeInterval + initDiff config⟩ := by
      rw [newSlot, newBound_eq fun heq => absurd heq htype]
    rw [hnew]
    refine ⟨?_, ?_, ?_, Nat.le_refl _⟩ <;> dsimp only <;> omega

theorem dropPartitions_rows (names : List String) (slots : List Slot) :
    dropPartitions names (slots.map (Slot.row config)) =
      (slots.filter fun slot => "p" ++ format slot.name ∉ names).map (Slot.row config) := by
  rw [dropPartitions, List.filter_map]
  rfl

theorem regular_produced (hinterval : 1 ≤ config.partitionTimeInterval)
    (h : Produced config rows) : ∃ slots, rows = slots.map (Slot.row config) ∧
      Regular config slots := by
  induction h with
  | @init now hfirst hlast htaken =>
    refine ⟨_, initSlots config now, ?_, initSlots config now ▸ htaken⟩
    intro slot hslot
    obtain ⟨first, hshift, hdays⟩ := initDays_eq config now
    rw [hdays, List.map_map] at hslot
    obtain ⟨i, hi, rfl⟩ := List.mem_map.mp hslot
    rw [List.mem_range'_1] at hi
    have hdiff := initDiff_le config
    have hmul := Nat.mul_le_mul_right config.partitionTimeInterval
      (show i ≤ config.reservedPartition + config.extraPartition by omega)
    rw [Nat.add_mul] at hmul
    refine ⟨?_, ?_, ?_, Nat.le_refl _⟩ <;> dsimp only [Function.comp_apply] <;> omega
  | @add now rows new hrows hroom hadd htaken ih =>
    obtain ⟨slots, rfl, hregular⟩ := ih
    obtain ⟨⟨hfirst, hend⟩, hbounds⟩ := hroom
    have hdiff := initDiff_le config
    rw [Nat.add_mul, Nat.one_mul] at hend hbounds
    have hnow : Dated now := ⟨by omega, by omega⟩
    have hnext : Dated (now + 1) := ⟨by omega, by omega⟩
    have hlater : ∀ slots' : List Slot, new = slots'.map (Slot.row config) →
        (∀ slot ∈ slots', slot.Sound config) →
          ∃ slots'', slots.map (Slot.row config) ++ new = slots''.map (Slot.row config) ∧
            Regular config slots'' := by
      rintro slots' rfl hsound
      refine ⟨slots ++ slots', List.map_append.symm, ?_, List.map_append ▸ htaken⟩
      intro slot hslot
      rcases List.mem_append.mp hslot with hold | hnew
      · exact hregular.sound slot hold
      · exact hsound slot hnew
    rcases getAddPartitionSql_cases hregular.sound hnow hnext with
      ⟨-, heq⟩ | ⟨-, ⟨-, heq⟩ | ⟨last, hlast, -, heq⟩⟩
    · rw [heq] at hadd
      obtain rfl := Option.some.inj hadd
      exact hlater [] rfl (fun _ hin => by cases hin)
    · rw [heq] at hadd
      obtain ⟨desc, -, rfl⟩ := Option.map_eq_some_iff.mp hadd
      refine hlater _ rfl fun slot hslot => ?_
      apply newSlots_sound hinterval (Nat.zero_le 1) (le_refl _) _ _ _ _ hslot
      · omega
      · omega
      · rw [Nat.add_mul, Nat.one_mul]
        omega
      · omega
    · rw [heq] at hadd
      obtain rfl := Option.some.inj hadd
      obtain ⟨hin, -⟩ := mem_ahead.mp hlast
      have hsound := hregular.sound last hin
      have hname := hsound.name
      have horder := hsound.order
      have hbound := hsound.first
      obtain ⟨day, hday, hdesc, hlate⟩ := hbounds _ (List.mem_map_of_mem hin)
      have hsame : last.bound = day := description_injective hsound.bound hday hdesc
      have hmul := Nat.mul_le_mul_right config.partitionTimeInterval
        (Nat.sub_le config.extraPartition (ahead config now slots).length)
      refine hlater _ rfl fun slot hslot => ?_
      apply newSlots_sound hinterval (le_refl 1) (Nat.sub_le _ _) _ _ _ _ hslot
      · omega
      · omega
      · rw [Nat.add_mul, Nat.one_mul]
        omega
      · omega
  | @drop now rows names hrows hdrop ih =>
    obtain ⟨slots, rfl, hregular⟩ := ih
    refine ⟨_, dropPartitions_rows names slots, ?_, ?_⟩
    · intro slot hslot
      exact hregular.sound slot (List.mem_of_mem_filter hslot)
    · exact hregular.taken.sublist (List.filter_sublist.map _)

/-- Whether a row of a day is older than the rule keeps it, by a number of days more. -/
def OlderThan (config : PartitionConfig) (now more day : ℕ) : Prop :=
  day + config.reservedPartition * config.partitionTimeInterval + more < now

theorem mem_getDropPartitionSql (h : Regular config slots) (hnow : Dated now) :
    ∃ names, getDropPartitionSql config now (slots.map (Slot.row config)) = some names ∧
      ∀ name, name ∈ names ↔ ∃ slot ∈ slots,
        slot.bound + keptDays config < now ∧ name = "p" ++ format slot.name := by
  have hperm : (orderByDescription (slots.map (Slot.row config))).Perm
      (slots.map (Slot.row config)) := List.mergeSort_perm _ _
  have hmem : ∀ name, name ∈ ((orderByDescription (slots.map (Slot.row config))).filter
      fun row => Expired config now row).map Row.partitionName ↔ ∃ slot ∈ slots,
        slot.bound + keptDays config < now ∧ name = "p" ++ format slot.name := by
    intro name
    constructor
    · intro hname
      obtain ⟨row, hrow, rfl⟩ := List.mem_map.mp hname
      rw [List.mem_filter, decide_eq_true_iff, hperm.mem_iff] at hrow
      obtain ⟨slot, hslot, rfl⟩ := List.mem_map.mp hrow.1
      exact ⟨slot, hslot, (expired_row (h.sound slot hslot) hnow).mp hrow.2, rfl⟩
    · rintro ⟨slot, hslot, hold, rfl⟩
      refine List.mem_map.mpr ⟨slot.row config, ?_, rfl⟩
      rw [List.mem_filter, decide_eq_true_iff, hperm.mem_iff]
      exact ⟨List.mem_map_of_mem hslot, (expired_row (h.sound slot hslot) hnow).mpr hold⟩
  refine ⟨_, if_pos ?_, hmem⟩
  rw [List.all_eq_true]
  intro name hname
  obtain ⟨slot, hslot, -, rfl⟩ := (hmem name).mp hname
  exact matchString_name (h.sound slot hslot).dated

/-- Names are those of one partition. -/
theorem Regular.name_inj {other : Slot} (h : Regular config slots) (hslot : slot ∈ slots)
    (hother : other ∈ slots) (heq : "p" ++ format slot.name = "p" ++ format other.name) :
    slot = other := by
  have hnodup := h.taken.names
  rw [List.map_map] at hnodup
  exact List.inj_on_of_nodup_map hnodup hslot hother heq

theorem keptDays_bounds (config : PartitionConfig) :
    keptDays config = config.reservedPartition * config.partitionTimeInterval +
      if Lists config then 1 else 0 := rfl

/-- The last day that a partition holds, and that no partition before it does. -/
theorem find_last {before behind : List Slot} (hsound : ∀ other ∈ before, other.Sound config)
    (hslot : slot.Sound config)
    (hbefore : ∀ other ∈ before, Follows config (other.row config) (slot.row config)) :
    ∃ day second, second < 86400 ∧ (if Lists config then day = slot.bound else day + 1 = slot.bound) ∧
      ((before ++ slot :: behind).map (Slot.row config)).find?
        (fun row => Holds config row day second) = some (slot.row config) := by
  have hfirst := hslot.first
  have hend := hslot.last
  obtain ⟨day, hday, hdated⟩ : ∃ day,
      (if Lists config then day = slot.bound else day + 1 = slot.bound) ∧ Dated day := by
    by_cases hlists : Lists config
    · exact ⟨slot.bound, by rw [if_pos hlists], hslot.bound⟩
    · exact ⟨slot.bound - 1, by rw [if_neg hlists]; omega, by omega, by omega⟩
  refine ⟨day, 0, by omega, hday, ?_⟩
  rw [List.map_append, List.map_cons, List.find?_eq_some_iff_append]
  refine ⟨decide_eq_true ?_, before.map (Slot.row config), behind.map (Slot.row config), rfl, ?_⟩
  · rw [holds_row hslot hdated (by omega)]
    split <;> rename_i hlists
    · rwa [if_pos hlists] at hday
    · rw [if_neg hlists] at hday
      omega
  · intro row hrow
    obtain ⟨other, hother, rfl⟩ := List.mem_map.mp hrow
    have hfollows := (follows_row (hsound other hother) hslot).mp (hbefore other hother)
    have hnot : ¬ Holds config (other.row config) day 0 := by
      rw [holds_row (hsound other hother) hdated (by omega)]
      split <;> rename_i hlists
      · rw [if_pos hlists] at hday hfollows
        exact fun heq => hfollows (heq.symm.trans hday)
      · rw [if_neg hlists] at hday hfollows
        omega
    simpa using hnot

/-- New names are not those of partitions that are dropped. -/
theorem newSlots_not_dropped (hinterval : 1 ≤ config.partitionTimeInterval) {other : Slot}
    (hsound : other.Sound config) (hold : other.bound + keptDays config < now)
    (hbase : now ≤ base + start) (hfirst : firstDay ≤ base)
    (hslot : slot ∈ newSlots config base start need) :
    "p" ++ format slot.name ≠ "p" ++ format other.name := by
  intro heq
  obtain ⟨i, hi, rfl⟩ := List.mem_map.mp hslot
  rw [List.mem_range'_1] at hi
  have hmul := Nat.mul_le_mul hi.1 hinterval
  have hname : (newSlot config base i).name = base + i * config.partitionTimeInterval := rfl
  rw [hname] at heq
  have hsame := name_injective (by omega) hsound.dated heq
  have horder := hsound.order
  omega

end

theorem produced_dailyConfig : Produced dailyConfig (getInitPartitionSql dailyConfig 739251) := by
  have hkept := @kept_init dailyConfig 739251 creatable_dailyConfig (by decide) (by decide)
  refine .init (by decide) (by decide) ?_
  rw [initSlots]
  exact (managed_of_kept hkept).accepted

end Partition
