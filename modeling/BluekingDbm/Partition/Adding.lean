import BluekingDbm.Partition.Slots

/-! The partitions that a statement adds, as pairs of days. -/
namespace Partition

open Calendar

/-- The bound of the new partition `i` behind the day that the statement starts with. -/
def newBound (config : PartitionConfig) (base i : ℕ) : ℕ :=
  match config.partitionType with
  | .type4 => base + (i + 1) * config.partitionTimeInterval
  | _ => base + i * config.partitionTimeInterval + initDiff config

def newSlot (config : PartitionConfig) (base i : ℕ) : Slot :=
  ⟨base + i * config.partitionTimeInterval, newBound config base i⟩

def newSlots (config : PartitionConfig) (base start need : ℕ) : List Slot :=
  (List.range' start (need + 1 - start)).map (newSlot config base)

/-- The partitions that can hold rows of today or later. -/
def ahead (config : PartitionConfig) (now : ℕ) (slots : List Slot) : List Slot :=
  slots.filter fun slot => firstBound config now ≤ slot.bound

/-- A bound as the number that descriptions are counted from; dates are not numbers. -/
def boundValue (config : PartitionConfig) (day : ℕ) : ℤ :=
  match config.partitionType with
  | .type5 => unixTimestamp config.timeZone day
  | _ => day

section

variable {config : PartitionConfig} {now base start need i : ℕ} {slots : List Slot} {slot last : Slot}
  {rows : List Row} {row first : Row} {desc : ℤ}

theorem newDesc_eq (hdesc : desc = boundValue config (base + initDiff config) ∨
      config.partitionType = .type3 ∨ config.partitionType = .type4 ∨
      config.partitionType = .type101) :
    newDesc config base desc i = description config (newBound config base i) := by
  unfold newDesc description newBound boundValue initDiff at *
  obtain ⟨column, partitionType, interval, reserved, extra, zone⟩ := config
  cases partitionType <;> simp only [reduceCtorEq, or_false, or_true, or_self] at hdesc ⊢
  case type3 => rfl
  case type101 => rfl
  all_goals
    rw [hdesc]
    congr 1
  · push_cast
    omega
  · unfold unixTimestamp
    push_cast
    omega

theorem newPartitions_eq (hbase : Dated base)
    (hdesc : desc = boundValue config (base + initDiff config) ∨ config.partitionType = .type3 ∨
      config.partitionType = .type4 ∨ config.partitionType = .type101) :
    newPartitions config start need (format base) desc =
      some ((newSlots config base start need).map (Slot.row config)) := by
  rw [newPartitions, parseName_format hbase, Option.map_some, newSlots, List.map_map]
  congr 1
  apply List.map_congr_left
  intro i _
  rw [newDesc_eq hdesc]
  rfl

/-- The first row of an order by description from the greatest on. -/
theorem head_orderByDescriptionDesc (h : first ∈ (orderByDescriptionDesc rows).head?) :
    first ∈ rows ∧ ∀ row ∈ rows, row.partitionDescription ≤ first.partitionDescription := by
  have hperm : (orderByDescriptionDesc rows).Perm rows := List.mergeSort_perm _ _
  have hsorted : (orderByDescriptionDesc rows).Pairwise fun a b =>
      decide (b.partitionDescription ≤ a.partitionDescription) = true := by
    apply List.pairwise_mergeSort
    · intro a b c hab hbc
      exact decide_eq_true (le_trans (of_decide_eq_true hbc) (of_decide_eq_true hab))
    · intro a b
      simpa using le_total b.partitionDescription a.partitionDescription
  obtain ⟨rest, hrest⟩ : ∃ rest, orderByDescriptionDesc rows = first :: rest := by
    rcases hlist : orderByDescriptionDesc rows with _ | ⟨head, rest⟩
    · rw [hlist] at h
      cases h
    · rw [hlist] at h
      obtain rfl := Option.some.inj h
      exact ⟨rest, rfl⟩
  rw [hrest] at hperm hsorted
  refine ⟨hperm.subset List.mem_cons_self, ?_⟩
  intro row hrow
  rcases List.mem_cons.mp (hperm.mem_iff.mpr hrow) with rfl | hin
  · exact le_refl _
  · exact of_decide_eq_true ((List.pairwise_cons.mp hsorted).1 row hin)

theorem head_orderByDescriptionDesc_none (h : (orderByDescriptionDesc rows).head? = none) :
    rows = [] := by
  have hperm : (orderByDescriptionDesc rows).Perm rows := List.mergeSort_perm _ _
  rw [List.head?_eq_none_iff] at h
  rw [h] at hperm
  exact hperm.symm.eq_nil

theorem filter_reachesToday (hslots : ∀ slot ∈ slots, slot.Sound config) (hnow : Dated now)
    (hnext : Dated (now + 1)) :
    (slots.map (Slot.row config)).filter (fun row => ReachesToday config now row) =
      (ahead config now slots).map (Slot.row config) := by
  rw [List.filter_map, ahead]
  congr 1
  apply List.filter_congr
  intro slot hslot
  exact decide_eq_decide.mpr (reachesToday_row (hslots slot hslot) hnow hnext)

/-- A statement adds nothing where enough partitions lie ahead; else it goes on behind the last of
them, or starts today where there is none. -/
theorem getAddPartitionSql_cases (hslots : ∀ slot ∈ slots, slot.Sound config) (hnow : Dated now)
    (hnext : Dated (now + 1)) :
    config.extraPartition ≤ (ahead config now slots).length ∧
        getAddPartitionSql config now (slots.map (Slot.row config)) = some [] ∨
      (ahead config now slots).length < config.extraPartition ∧
        (ahead config now slots = [] ∧
            getAddPartitionSql config now (slots.map (Slot.row config)) =
              (wantedDescIfOld config now).map (fun _ =>
                (newSlots config now 0 config.extraPartition).map (Slot.row config)) ∨
          ∃ last ∈ ahead config now slots,
            (∀ slot ∈ ahead config now slots,
              description config slot.bound ≤ description config last.bound) ∧
            getAddPartitionSql config now (slots.map (Slot.row config)) =
              some ((newSlots config (last.bound - initDiff config) 1
                (config.extraPartition - (ahead config now slots).length)).map
                  (Slot.row config))) := by
  unfold getAddPartitionSql
  dsimp only
  rw [filter_reachesToday hslots hnow hnext, List.length_map]
  by_cases henough : config.extraPartition ≤ (ahead config now slots).length
  · exact Or.inl ⟨henough, if_pos henough⟩
  · right
    refine ⟨by omega, ?_⟩
    rw [if_neg henough]
    cases hhead : (orderByDescriptionDesc ((ahead config now slots).map (Slot.row config))).head? with
    | none =>
      left
      have hnil := List.map_eq_nil_iff.mp (head_orderByDescriptionDesc_none hhead)
      refine ⟨hnil, ?_⟩
      dsimp only
      rw [hnil, List.length_nil, Nat.sub_zero]
      cases hold : wantedDescIfOld config now with
      | none => rfl
      | some desc =>
        rw [Option.bind_some, Option.map_some]
        apply newPartitions_eq hnow
        unfold wantedDescIfOld boundValue initDiff at *
        obtain ⟨column, partitionType, interval, reserved, extra, zone⟩ := config
        cases partitionType <;> simp_all
    | some first =>
      right
      obtain ⟨hin, hgreatest⟩ := head_orderByDescriptionDesc hhead
      obtain ⟨last, hlast, rfl⟩ := List.mem_map.mp hin
      have hsound := hslots last (List.mem_of_mem_filter hlast)
      have horder := hsound.order
      have hend := hsound.last
      have hname := hsound.name
      have hbase : Dated (last.bound - initDiff config) := ⟨by omega, by omega⟩
      have hbehind : Dated (last.bound - initDiff config + 1) := by
        have hbound := hsound.first
        exact ⟨by omega, by omega⟩
      refine ⟨last, hlast, ?_, ?_⟩
      · intro slot hslot
        exact hgreatest _ (List.mem_map_of_mem hslot)
      · have htrim : trimPrefix (last.row config).partitionName = format last.name :=
          trimPrefix_name last.name
        have hother : format (last.bound - initDiff config + 1) ≠ format last.name := by
          intro heq
          have hsame := format_injective hbehind hsound.dated heq
          omega
        simp only [wantedName_row hsound, parseName_format hbase, htrim, if_neg hother,
          Option.bind_eq_bind, Option.bind_some]
        apply newPartitions_eq hbase
        have hback : last.bound - initDiff config + initDiff config = last.bound := by omega
        rw [hback]
        have hdated := hsound.bound.2
        unfold boundValue Slot.row description
        obtain ⟨column, partitionType, interval, reserved, extra, zone⟩ := config
        cases partitionType
        · exact Or.inl (value_day hdated)
        · exact Or.inl (value_day hdated)
        · exact Or.inr (Or.inl rfl)
        · exact Or.inr (Or.inr (Or.inl rfl))
        · exact Or.inl (value_timestamp zone hdated)
        · exact Or.inr (Or.inr (Or.inr rfl))

/-- Where nothing lies ahead, a statement starts today. -/
theorem getAddPartitionSql_fresh (htype : config.partitionType ≠ .type1)
    (hextra : 1 ≤ config.extraPartition) (hslots : ∀ slot ∈ slots, slot.Sound config)
    (hnow : Dated now) (hnext : Dated (now + 1)) (hnone : ahead config now slots = []) :
    getAddPartitionSql config now (slots.map (Slot.row config)) =
      some ((newSlots config now 0 config.extraPartition).map (Slot.row config)) := by
  obtain ⟨desc, hdesc⟩ : ∃ desc, wantedDescIfOld config now = some desc := by
    unfold wantedDescIfOld
    split
    · exact ⟨_, rfl⟩
    · exact absurd ‹_› htype
    all_goals exact ⟨_, rfl⟩
  rcases getAddPartitionSql_cases hslots hnow hnext with
    ⟨henough, -⟩ | ⟨-, ⟨-, hadd⟩ | ⟨last, hlast, -⟩⟩
  · rw [hnone, List.length_nil] at henough
    omega
  · rw [hadd, hdesc, Option.map_some]
  · rw [hnone] at hlast
    cases hlast

end

end Partition
