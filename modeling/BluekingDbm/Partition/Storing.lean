import BluekingDbm.Library.Run
import BluekingDbm.Partition.Adding

/-! A table that the cron extends day after day: whether it can store the rows of today. -/
namespace Partition

open Calendar

/-- A table after the run of a day. -/
structure Extended where
  day : ℕ
  rows : List Row

/-- A run on a later day, and its statement. -/
def AddStep (config : PartitionConfig) (s : Extended) (now : ℕ) (t : Extended) : Prop :=
  s.day < now ∧ t = ⟨now, s.rows ++ (getAddPartitionSql config now s.rows).getD []⟩

/-- What is wanted of a table: a partition for rows of today, as many as the extra count that
reach today or later, bounds and names that the database takes, and names that are the days of the
bounds, less the days between the two. -/
structure Managed (config : PartitionConfig) (s : Extended) : Prop where
  today : ∃ row ∈ s.rows, ∀ second < 86400, Holds config row s.day second
  extra : ∃ part : List Row, part.Sublist s.rows ∧ config.extraPartition ≤ part.length ∧
    ∀ row ∈ part, ∃ day second, s.day ≤ day ∧ second < 86400 ∧ Holds config row day second
  accepted : Accepted config s.rows
  names : ∀ row ∈ s.rows, ∃ day,
    row = ⟨"p" ++ format day, description config (day + initDiff config)⟩

/-- Where a statement adds what it is to add: the dates keep four digits for their years, the texts
of the bounds ahead are ordered as the bounds, and the partitions of types 3, 4 and 101 are not in
the way of their formulas. -/
structure Sustained (config : PartitionConfig) (s : Extended) (now : ℕ) : Prop where
  today : now + config.extraPartition * config.partitionTimeInterval + 1 < lastDay
  dates : ∀ row ∈ s.rows, ∃ day, Dated day ∧ row.partitionDescription = description config day ∧
    day + config.extraPartition * config.partitionTimeInterval < lastDay
  texts : ∀ a ∈ s.rows, ∀ b ∈ s.rows, ReachesToday config now a → ReachesToday config now b →
    value a.partitionDescription < value b.partitionDescription →
      a.partitionDescription < b.partitionDescription
  type3 : config.partitionType = .type3 → config.partitionTimeInterval = 1 ∨
    (∃ row ∈ s.rows, row.partitionDescription = format now) ∨
    ∀ row ∈ s.rows, ¬ ReachesToday config now row
  type4 : config.partitionType = .type4 → config.partitionTimeInterval = 1 ∨
    config.extraPartition ≤ (s.rows.filter fun row => ReachesToday config now row).length
  type101 : config.partitionType = .type101 →
    (∃ row ∈ s.rows, row.partitionDescription = format now) →
      ∃ row ∈ s.rows, ReachesToday config now row

/-- A slot whose partition holds rows of a day. -/
def Slot.HoldsDay (config : PartitionConfig) (day : ℕ) (slot : Slot) : Prop :=
  if Lists config then slot.bound = day else day < slot.bound

/-- What every run leaves. -/
structure Kept (config : PartitionConfig) (now : ℕ) (slots : List Slot) : Prop where
  date : firstDay < now ∧ now + 1 < lastDay
  sound : ∀ slot ∈ slots, slot.Sound config
  offset : ∀ slot ∈ slots, slot.bound = slot.name + initDiff config
  increasing : slots.Pairwise fun a b => a.bound < b.bound
  extra : config.extraPartition ≤ (ahead config now slots).length
  today : ∃ slot ∈ slots, slot.HoldsDay config now
  gapless : Lists config → config.partitionTimeInterval = 1 → ∀ slot ∈ slots, ∀ day,
    now ≤ day → day ≤ slot.bound → ∃ other ∈ slots, other.bound = day

section

variable {config : PartitionConfig} {now base start need i day : ℕ} {slots : List Slot}
  {slot last : Slot} {s t : Extended}

theorem newBound_eq (h : config.partitionType = .type4 → config.partitionTimeInterval = 1) :
    newBound config base i = base + i * config.partitionTimeInterval + initDiff config := by
  unfold newBound
  split
  · rename_i htype
    rw [h htype]
    have hdiff : initDiff config = 1 := by simp [initDiff, htype, diffOneDay]
    omega
  · rfl

theorem mem_newSlots (hstart : start ≤ need + 1) :
    slot ∈ newSlots config base start need ↔
      ∃ i, start ≤ i ∧ i ≤ need ∧ slot = newSlot config base i := by
  unfold newSlots
  rw [List.mem_map]
  constructor
  · rintro ⟨i, hi, rfl⟩
    rw [List.mem_range'_1] at hi
    exact ⟨i, by omega, by omega, rfl⟩
  · rintro ⟨i, hlow, hhigh, rfl⟩
    refine ⟨i, ?_, rfl⟩
    rw [List.mem_range'_1]
    omega

theorem interval_lt (config : PartitionConfig) {i j : ℕ} (h : i < j) :
    i * config.partitionTimeInterval + config.partitionTimeInterval ≤
      j * config.partitionTimeInterval := by
  have hmul := Nat.mul_le_mul_right config.partitionTimeInterval (Nat.succ_le_of_lt h)
  rwa [Nat.succ_mul] at hmul

/-- New partitions behind the old ones. -/
structure Behind (config : PartitionConfig) (slots : List Slot) (base start need : ℕ) : Prop where
  begins : start ≤ 1
  first : firstDay ≤ base ∧
    firstDay < base + start * config.partitionTimeInterval + initDiff config
  last : base + need * config.partitionTimeInterval + initDiff config < lastDay
  type4 : config.partitionType = .type4 → config.partitionTimeInterval = 1
  bounds : ∀ slot ∈ slots,
    slot.bound < base + start * config.partitionTimeInterval + initDiff config

theorem Behind.newSlot (h : Behind config slots base start need)
    (hslot : slot ∈ newSlots config base start need) :
    ∃ i, start ≤ i ∧ i ≤ need ∧ slot = ⟨base + i * config.partitionTimeInterval,
      base + i * config.partitionTimeInterval + initDiff config⟩ := by
  obtain ⟨i, hlow, hhigh, rfl⟩ := (mem_newSlots (by have := h.begins; omega)).mp hslot
  exact ⟨i, hlow, hhigh, by rw [Partition.newSlot, newBound_eq h.type4]⟩

theorem Behind.sound (h : Behind config slots base start need)
    (hslot : slot ∈ newSlots config base start need) :
    slot.Sound config ∧ slot.bound = slot.name + initDiff config := by
  obtain ⟨i, hlow, hhigh, rfl⟩ := h.newSlot hslot
  obtain ⟨hfirst, hbound⟩ := h.first
  have hlast := h.last
  have hleft := Nat.mul_le_mul_right config.partitionTimeInterval hlow
  have hright := Nat.mul_le_mul_right config.partitionTimeInterval hhigh
  refine ⟨⟨?_, ?_, ?_, Nat.le_refl _⟩, rfl⟩ <;> dsimp only <;> omega

theorem Behind.increasing (h : Behind config slots base start need)
    (hinterval : 1 ≤ config.partitionTimeInterval)
    (hslots : slots.Pairwise fun a b => a.bound < b.bound) :
    (slots ++ newSlots config base start need).Pairwise fun a b => a.bound < b.bound := by
  refine List.pairwise_append.mpr ⟨hslots, ?_, ?_⟩
  · refine List.pairwise_map.mpr ((List.pairwise_lt_range' 1).imp ?_)
    intro i j hij
    have hlt := interval_lt config hij
    show newBound config base i < newBound config base j
    rw [newBound_eq h.type4, newBound_eq h.type4]
    omega
  · intro a ha b hb
    obtain ⟨i, hlow, hhigh, rfl⟩ := h.newSlot hb
    have hold := h.bounds a ha
    have hleft := Nat.mul_le_mul_right config.partitionTimeInterval hlow
    show a.bound < base + i * config.partitionTimeInterval + initDiff config
    omega

/-- The new partitions but for the first one of a new start reach beyond today. -/
theorem Behind.length_ahead (h : Behind config slots base start need)
    (hbase : firstBound config now ≤ base + config.partitionTimeInterval + initDiff config) :
    need ≤ (ahead config now (newSlots config base start need)).length := by
  have hall : ahead config now (newSlots config base 1 need) =
      newSlots config base 1 need := by
    apply List.filter_eq_self.mpr
    intro slot hslot
    obtain ⟨i, hlow, hhigh, rfl⟩ := (mem_newSlots (by omega)).mp hslot
    refine decide_eq_true ?_
    have hleft := Nat.mul_le_mul_right config.partitionTimeInterval hlow
    show firstBound config now ≤ newBound config base i
    rw [newBound_eq h.type4]
    omega
  have hlength : (newSlots config base 1 need).length = need := by
    rw [newSlots, List.length_map, List.length_range', Nat.add_sub_cancel]
  have hstart := h.begins
  obtain rfl | rfl : start = 0 ∨ start = 1 := by omega
  · have hsplit : newSlots config base 0 need =
        Partition.newSlot config base 0 :: newSlots config base 1 need := by
      rw [newSlots, Nat.sub_zero, List.range'_succ, List.map_cons, newSlots, Nat.add_sub_cancel]
    have hsub : (newSlots config base 1 need).Sublist (newSlots config base 0 need) := by
      rw [hsplit]
      exact List.sublist_cons_self _ _
    have hle := (hsub.filter fun slot => firstBound config now ≤ slot.bound).length_le
    have hsame : (newSlots config base 1 need).filter
        (fun slot => firstBound config now ≤ slot.bound) = newSlots config base 1 need := hall
    rw [hsame, hlength] at hle
    exact hle
  · rw [hall, hlength]

theorem ahead_append (slots new : List Slot) :
    ahead config now (slots ++ new) = ahead config now slots ++ ahead config now new :=
  List.filter_append ..

theorem initSlots (config : PartitionConfig) (now : ℕ) :
    getInitPartitionSql config now = ((initDays config now).map fun day =>
      (⟨day, day + initDiff config⟩ : Slot)).map (Slot.row config) := by
  rw [getInitPartitionSql, List.map_map]
  rfl

theorem firstBound_le (config : PartitionConfig) (now : ℕ) : firstBound config now ≤ now + 1 := by
  unfold firstBound
  split <;> omega

theorem initDiff_le (config : PartitionConfig) : initDiff config ≤ 1 := by
  unfold initDiff diffOneDay
  split <;> omega

theorem firstBound_eq (hone : config.partitionType ≠ .type1)
    (hother : config.partitionType ≠ .type101) :
    firstBound config now = now + initDiff config := by
  unfold firstBound initDiff Lists diffOneDay
  obtain ⟨column, partitionType, interval, reserved, extra, zone⟩ := config
  cases partitionType <;> simp at hone hother ⊢

/-- The days of an initial statement; type 101 begins one interval later. -/
theorem initDays_eq (config : PartitionConfig) (now : ℕ) : ∃ first,
    (first = 0 ∧ config.partitionType ≠ .type101 ∨ first = 1 ∧ config.partitionType = .type101) ∧
    initDays config now =
      (List.range' first (config.reservedPartition + config.extraPartition)).map fun i =>
        now + i * config.partitionTimeInterval -
          config.reservedPartition * config.partitionTimeInterval := by
  by_cases htype : config.partitionType = .type101
  · refine ⟨1, Or.inr ⟨rfl, htype⟩, ?_⟩
    rw [initDays, htype]
  · refine ⟨0, Or.inl ⟨rfl, htype⟩, ?_⟩
    unfold initDays
    split
    · exact absurd ‹_› htype
    · rfl

theorem kept_init (hconfig : Creatable config)
    (hfirst : firstDay + config.reservedPartition * config.partitionTimeInterval < now)
    (hlast : now + config.extraPartition * config.partitionTimeInterval + 1 < lastDay) :
    Kept config now ((initDays config now).map fun day => ⟨day, day + initDiff config⟩) := by
  obtain ⟨first, hshift, hdays⟩ := initDays_eq config now
  rw [hdays, List.map_map]
  have hinterval := hconfig.interval
  have hextra := hconfig.extra
  have hdiff : initDiff config ≤ 1 ∧ (Lists config → initDiff config = 0 ∧ first = 0) ∧
      (¬ Lists config → 1 ≤ first + initDiff config) := by
    unfold initDiff Lists diffOneDay
    cases htype : config.partitionType <;> simp [htype] at hshift ⊢ <;> omega
  have hat : ∀ i, config.reservedPartition * config.partitionTimeInterval ≤
      i * config.partitionTimeInterval →
      firstBound config now ≤ now + i * config.partitionTimeInterval -
        config.reservedPartition * config.partitionTimeInterval + initDiff config ∨
      i * config.partitionTimeInterval <
        (first + config.reservedPartition) * config.partitionTimeInterval := by
    intro i hi
    by_cases hlists : Lists config
    · rw [firstBound, if_pos hlists]
      omega
    · have hone := hdiff.2.2 hlists
      rw [firstBound, if_neg hlists]
      rcases Nat.lt_or_ge (i * config.partitionTimeInterval)
        ((first + config.reservedPartition) * config.partitionTimeInterval) with hlt | hge
      · exact Or.inr hlt
      · left
        rw [Nat.add_mul] at hge
        rcases hshift with ⟨rfl, -⟩ | ⟨rfl, -⟩
        · omega
        · rw [Nat.one_mul] at hge
          omega
  constructor
  case date => omega
  case sound =>
    intro slot hslot
    obtain ⟨i, hi, rfl⟩ := List.mem_map.mp hslot
    rw [List.mem_range'_1] at hi
    have hmul := Nat.mul_le_mul_right config.partitionTimeInterval
      (show i ≤ config.reservedPartition + config.extraPartition by omega)
    rw [Nat.add_mul] at hmul
    refine ⟨?_, ?_, ?_, Nat.le_refl _⟩ <;> dsimp only [Function.comp_apply] <;> omega
  case offset =>
    intro slot hslot
    obtain ⟨i, -, rfl⟩ := List.mem_map.mp hslot
    rfl
  case increasing =>
    refine List.pairwise_map.mpr ((List.pairwise_lt_range' 1).imp ?_)
    intro i j hij
    have hlt := interval_lt config hij
    dsimp only [Function.comp_apply]
    omega
  case extra =>
    have hsplit := @List.range'_append_1 first config.reservedPartition config.extraPartition
    rw [← hsplit, List.map_append, ahead_append, List.length_append]
    have hall : ahead config now ((List.range' (first + config.reservedPartition)
        config.extraPartition).map ((fun day => (⟨day, day + initDiff config⟩ : Slot)) ∘ fun i =>
          now + i * config.partitionTimeInterval -
            config.reservedPartition * config.partitionTimeInterval)) = _ :=
      List.filter_eq_self.mpr fun slot hslot => by
        obtain ⟨i, hi, rfl⟩ := List.mem_map.mp hslot
        rw [List.mem_range'_1] at hi
        have hmul := Nat.mul_le_mul_right config.partitionTimeInterval hi.1
        have hreserved := Nat.mul_le_mul_right config.partitionTimeInterval
          (Nat.le_add_left config.reservedPartition first)
        exact decide_eq_true ((hat i (by omega)).resolve_right (by omega))
    rw [hall, List.length_map, List.length_range']
    omega
  case today =>
    refine ⟨_, List.mem_map_of_mem (List.mem_range'_1.mpr
      ⟨Nat.le_add_right first config.reservedPartition, by omega⟩), ?_⟩
    have hbound := (hat (first + config.reservedPartition) (Nat.mul_le_mul_right _
      (Nat.le_add_left _ _))).resolve_right (lt_irrefl _)
    unfold Slot.HoldsDay firstBound at *
    dsimp only [Function.comp_apply]
    split
    · rename_i hlists
      obtain ⟨hzero, rfl⟩ := hdiff.2.1 hlists
      rw [hzero, Nat.zero_add]
      omega
    · rename_i hlists
      rw [if_neg hlists] at hbound
      omega
  case gapless =>
    intro hlists hone slot hslot day hnow hday
    obtain ⟨hzero, rfl⟩ := hdiff.2.1 hlists
    obtain ⟨i, hi, rfl⟩ := List.mem_map.mp hslot
    rw [List.mem_range'_1] at hi
    dsimp only [Function.comp_apply] at hday
    rw [hone, Nat.mul_one, Nat.mul_one] at hday
    refine ⟨_, List.mem_map_of_mem (List.mem_range'_1.mpr
      (show 0 ≤ config.reservedPartition + (day - now) ∧ _ by omega)), ?_⟩
    dsimp only [Function.comp_apply]
    rw [hone, Nat.mul_one, Nat.mul_one]
    omega

theorem description_injective {a b : ℕ} (ha : Dated a) (hb : Dated b)
    (h : description config a = description config b) : a = b := by
  unfold description at h
  obtain ⟨column, partitionType, interval, reserved, extra, zone⟩ := config
  cases partitionType <;> dsimp only at h
  · exact Int.ofNat_inj.mp (Text.decimal_injective h)
  · exact Int.ofNat_inj.mp (Text.decimal_injective h)
  · exact format_injective ha hb h
  · have hlt := quoted_lt ha hb
    have hgt := quoted_lt hb ha
    rw [h] at hlt hgt
    simp only [lt_irrefl, false_iff] at hlt hgt
    omega
  · have hstamp := Text.decimal_injective h
    unfold unixTimestamp at hstamp
    omega
  · exact format_injective ha hb h

/-- Descriptions are ordered as the bounds, where the texts of numbers are. -/
theorem description_lt {a b : ℕ} (ha : Dated a) (hb : Dated b) (hlt : a < b)
    (htext : value (description config a) < value (description config b) →
      description config a < description config b) :
    description config a < description config b := by
  unfold description at htext ⊢
  obtain ⟨column, partitionType, interval, reserved, extra, zone⟩ := config
  cases partitionType <;> dsimp only at htext ⊢
  · rw [value_day ha.2, value_day hb.2] at htext
    exact htext (by omega)
  · rw [value_day ha.2, value_day hb.2] at htext
    exact htext (by omega)
  · exact (format_lt ha hb).mpr hlt
  · exact (quoted_lt ha hb).mpr hlt
  · rw [value_timestamp zone ha.2, value_timestamp zone hb.2] at htext
    refine htext ?_
    unfold unixTimestamp
    omega
  · exact (format_lt ha hb).mpr hlt

/-- The condition of a run, read off the days. -/
structure SustainedSlots (config : PartitionConfig) (slots : List Slot) (now : ℕ) : Prop where
  today : now + config.extraPartition * config.partitionTimeInterval + 1 < lastDay
  dates : ∀ slot ∈ slots,
    slot.bound + config.extraPartition * config.partitionTimeInterval < lastDay
  texts : ∀ a ∈ ahead config now slots, ∀ b ∈ ahead config now slots,
    description config a.bound ≤ description config b.bound → a.bound ≤ b.bound
  type3 : config.partitionType = .type3 → config.partitionTimeInterval = 1 ∨
    (∃ slot ∈ slots, slot.bound = now) ∨ ahead config now slots = []
  type4 : config.partitionType = .type4 → config.partitionTimeInterval = 1 ∨
    config.extraPartition ≤ (ahead config now slots).length
  type101 : config.partitionType = .type101 → (∃ slot ∈ slots, slot.bound = now) →
    ahead config now slots ≠ []

theorem reachesToday_ahead (hsound : ∀ slot ∈ slots, slot.Sound config) (hnow : Dated now)
    (hnext : Dated (now + 1)) (hslot : slot ∈ slots) :
    ReachesToday config now (slot.row config) ↔ slot ∈ ahead config now slots := by
  rw [ahead, List.mem_filter, decide_eq_true_iff, reachesToday_row (hsound slot hslot) hnow hnext]
  exact ⟨fun hreach => ⟨hslot, hreach⟩, fun hboth => hboth.2⟩

theorem sustainedSlots {d : ℕ} (h : ∀ slot ∈ slots, slot.Sound config) (hnow : Dated now)
    (hnext : Dated (now + 1)) (hsustained : Sustained config ⟨d, slots.map (Slot.row config)⟩ now) :
    SustainedSlots config slots now := by
  have hreaches : ∀ slot ∈ slots, ReachesToday config now (slot.row config) ↔
      slot ∈ ahead config now slots := fun slot hslot => reachesToday_ahead h hnow hnext hslot
  have hat : config.partitionType = .type3 ∨ config.partitionType = .type101 →
      ((∃ row ∈ slots.map (Slot.row config), row.partitionDescription = format now) ↔
        ∃ slot ∈ slots, slot.bound = now) := by
    intro htype
    have hformat : ∀ day, description config day = format day := by
      intro day
      unfold description
      rcases htype with htype | htype <;> rw [htype]
    constructor
    · rintro ⟨row, hrow, heq⟩
      obtain ⟨slot, hslot, rfl⟩ := List.mem_map.mp hrow
      have heq : description config slot.bound = format now := heq
      rw [hformat] at heq
      exact ⟨slot, hslot, format_injective (h slot hslot).bound hnow heq⟩
    · rintro ⟨slot, hslot, rfl⟩
      exact ⟨_, List.mem_map_of_mem hslot, hformat slot.bound⟩
  obtain ⟨htoday, hdates, htexts, htype3, htype4, htype101⟩ := hsustained
  refine ⟨htoday, ?_, ?_, ?_, ?_, ?_⟩
  · intro slot hslot
    obtain ⟨day, hday, heq, hlt⟩ := hdates _ (List.mem_map_of_mem hslot)
    have hsame : slot.bound = day := description_injective (h slot hslot).bound hday heq
    omega
  · intro a ha b hb hle
    by_contra hlt
    have hain := List.mem_of_mem_filter ha
    have hbin := List.mem_of_mem_filter hb
    apply absurd hle
    rw [not_le]
    have htext := htexts _ (List.mem_map_of_mem hbin) _ (List.mem_map_of_mem hain)
      ((hreaches b hbin).mpr hb) ((hreaches a hain).mpr ha)
    exact description_lt (h b hbin).bound (h a hain).bound (by omega) htext
  · intro htype
    rcases htype3 htype with hone | hnow' | hnone
    · exact Or.inl hone
    · exact Or.inr (Or.inl ((hat (Or.inl htype)).mp hnow'))
    · right
      right
      refine List.eq_nil_iff_forall_not_mem.mpr ?_
      intro slot hslot
      have hin := List.mem_of_mem_filter hslot
      exact hnone _ (List.mem_map_of_mem hin) ((hreaches slot hin).mpr hslot)
  · intro htype
    refine (htype4 htype).imp id ?_
    intro hle
    rwa [filter_reachesToday h hnow hnext, List.length_map] at hle
  · intro htype hnow' hnil
    obtain ⟨row, hrow, hreach⟩ := htype101 htype ((hat (Or.inr htype)).mpr hnow')
    obtain ⟨slot, hslot, rfl⟩ := List.mem_map.mp hrow
    have hin := (hreaches slot hslot).mp hreach
    rw [hnil] at hin
    cases hin

theorem mem_ahead : slot ∈ ahead config now slots ↔
    slot ∈ slots ∧ firstBound config now ≤ slot.bound := by
  rw [ahead, List.mem_filter, decide_eq_true_iff]

/-- Where new partitions lie behind the old ones and reach beyond today, the table is kept as it
should be if today has its partition. -/
theorem Behind.kept {d : ℕ} (h : Behind config slots base start need) (hkept : Kept config d slots)
    (hinterval : 1 ≤ config.partitionTimeInterval) (hdate : firstDay < now ∧ now + 1 < lastDay)
    (hneed : config.extraPartition ≤ (ahead config now slots).length + need)
    (hbase : firstBound config now ≤ base + config.partitionTimeInterval + initDiff config)
    (htoday : ∃ slot ∈ slots ++ newSlots config base start need, slot.HoldsDay config now)
    (hgapless : Lists config → config.partitionTimeInterval = 1 →
      ∀ slot ∈ slots ++ newSlots config base start need, ∀ day, now ≤ day → day ≤ slot.bound →
        ∃ other ∈ slots ++ newSlots config base start need, other.bound = day) :
    Kept config now (slots ++ newSlots config base start need) := by
  constructor
  case date => exact hdate
  case sound =>
    intro slot hslot
    rcases List.mem_append.mp hslot with hold | hnew
    · exact hkept.sound slot hold
    · exact (h.sound hnew).1
  case offset =>
    intro slot hslot
    rcases List.mem_append.mp hslot with hold | hnew
    · exact hkept.offset slot hold
    · exact (h.sound hnew).2
  case increasing => exact h.increasing hinterval hkept.increasing
  case extra =>
    have hahead := h.length_ahead hbase
    rw [ahead_append, List.length_append]
    omega
  case today => exact htoday
  case gapless => exact hgapless

theorem kept_none {d : ℕ} (hconfig : Creatable config) (h : Kept config d slots) (hlt : d < now)
    (hsound : SustainedSlots config slots now)
    (henough : config.extraPartition ≤ (ahead config now slots).length) :
    Kept config now slots := by
  have htoday := hsound.today
  have hd := h.date
  have hextra := hconfig.extra
  obtain ⟨slot, hslot⟩ : ∃ slot, slot ∈ ahead config now slots :=
    List.exists_mem_of_length_pos (by omega)
  obtain ⟨hin, hbound⟩ := mem_ahead.mp hslot
  refine ⟨by omega, h.sound, h.offset, h.increasing, henough, ?_, ?_⟩
  · by_cases hlists : Lists config
    · have htype : config.partitionType = .type3 := hlists.resolve_left hconfig.type
      have hat : ∃ slot ∈ slots, slot.bound = now := by
        rcases hsound.type3 htype with hone | hnow | hnone
        · rw [firstBound, if_pos hlists] at hbound
          exact h.gapless hlists hone slot hin now (by omega) hbound
        · exact hnow
        · rw [hnone] at hslot
          cases hslot
      obtain ⟨other, hother, heq⟩ := hat
      exact ⟨other, hother, by rw [Slot.HoldsDay, if_pos hlists]; exact heq⟩
    · rw [firstBound, if_neg hlists] at hbound
      exact ⟨slot, hin, by rw [Slot.HoldsDay, if_neg hlists]; omega⟩
  · intro hlists hone slot hslot day hnow hday
    exact h.gapless hlists hone slot hslot day (by omega) hday

theorem kept_behind {d : ℕ} (hconfig : Creatable config) (h : Kept config d slots) (hlt : d < now)
    (hsound : SustainedSlots config slots now)
    (hfew : (ahead config now slots).length < config.extraPartition)
    (hlast : last ∈ ahead config now slots)
    (hgreatest : ∀ slot ∈ ahead config now slots,
      description config slot.bound ≤ description config last.bound) :
    Kept config now (slots ++ newSlots config (last.bound - initDiff config) 1
      (config.extraPartition - (ahead config now slots).length)) := by
  have hinterval := hconfig.interval
  have htoday := hsound.today
  have hd := h.date
  obtain ⟨hin, hbound⟩ := mem_ahead.mp hlast
  have hoffset := h.offset last hin
  have hslot := h.sound last hin
  have hname := hslot.name
  have hfirst := hslot.first
  have hdates := hsound.dates last hin
  have hmul := Nat.mul_le_mul_right config.partitionTimeInterval
    (Nat.sub_le config.extraPartition (ahead config now slots).length)
  have hbehind : Behind config slots (last.bound - initDiff config) 1
      (config.extraPartition - (ahead config now slots).length) := by
    refine ⟨by omega, by omega, by omega, ?_, ?_⟩
    · intro htype
      exact (hsound.type4 htype).resolve_right (by omega)
    · intro slot hslot
      by_cases hreach : slot ∈ ahead config now slots
      · have hle := hsound.texts slot hreach last hlast (hgreatest slot hreach)
        omega
      · have hnot : ¬ firstBound config now ≤ slot.bound := fun hle => hreach (mem_ahead.mpr ⟨hslot, hle⟩)
        omega
  refine hbehind.kept h hinterval (by omega) (by omega) (by omega) ?_ ?_
  · by_cases hlists : Lists config
    · have htype : config.partitionType = .type3 := hlists.resolve_left hconfig.type
      have hat : ∃ slot ∈ slots, slot.bound = now := by
        rcases hsound.type3 htype with hone | hnow | hnone
        · rw [firstBound, if_pos hlists] at hbound
          exact h.gapless hlists hone last hin now (by omega) hbound
        · exact hnow
        · rw [hnone] at hlast
          cases hlast
      obtain ⟨other, hother, heq⟩ := hat
      refine ⟨other, List.mem_append_left _ hother, ?_⟩
      rw [Slot.HoldsDay, if_pos hlists]
      exact heq
    · rw [firstBound, if_neg hlists] at hbound
      refine ⟨last, List.mem_append_left _ hin, ?_⟩
      rw [Slot.HoldsDay, if_neg hlists]
      omega
  · intro hlists hone slot hslot day hnow hday
    by_cases hle : day ≤ last.bound
    · obtain ⟨other, hother, heq⟩ := h.gapless hlists hone last hin day (by omega) hle
      exact ⟨other, List.mem_append_left _ hother, heq⟩
    · rcases List.mem_append.mp hslot with hold | hnew
      · obtain ⟨other, hother, heq⟩ := h.gapless hlists hone slot hold day (by omega) hday
        exact ⟨other, List.mem_append_left _ hother, heq⟩
      · obtain ⟨i, hlow, hhigh, rfl⟩ := hbehind.newSlot hnew
        dsimp only at hday
        rw [hone, Nat.mul_one] at hday
        refine ⟨newSlot config (last.bound - initDiff config) (day - last.bound),
          List.mem_append_right _ ((mem_newSlots (by omega)).mpr ⟨_, by omega, by omega, rfl⟩), ?_⟩
        show newBound config _ _ = day
        rw [newBound_eq hbehind.type4, hone, Nat.mul_one]
        omega

theorem kept_fresh {d : ℕ} (hconfig : Creatable config) (h : Kept config d slots) (hlt : d < now)
    (hsound : SustainedSlots config slots now) (hnone : ahead config now slots = []) :
    Kept config now (slots ++ newSlots config now 0 config.extraPartition) := by
  have hinterval := hconfig.interval
  have hextra := hconfig.extra
  have htoday := hsound.today
  have hd := h.date
  have hnext := firstBound_le config now
  have hold : ∀ slot ∈ slots, slot.bound < firstBound config now := by
    intro slot hslot
    by_contra hge
    have hin : slot ∈ ahead config now slots := mem_ahead.mpr ⟨hslot, by omega⟩
    rw [hnone] at hin
    cases hin
  have hdiff := initDiff_le config
  have hbehind : Behind config slots now 0 config.extraPartition := by
    refine ⟨by omega, by omega, by omega, ?_, ?_⟩
    · intro htype
      refine (hsound.type4 htype).resolve_right ?_
      rw [hnone, List.length_nil]
      omega
    · intro slot hslot
      have hless := hold slot hslot
      by_cases htype : config.partitionType = .type101
      · have hother : slot.bound ≠ now := by
          intro heq
          exact hsound.type101 htype ⟨slot, hslot, heq⟩ hnone
        omega
      · have hfirst := @firstBound_eq config now hconfig.type htype
        omega
  refine hbehind.kept h hinterval (by omega) (by omega) (by omega) ?_ ?_
  · by_cases hlists : Lists config
    · refine ⟨newSlot config now 0, List.mem_append_right _ ((mem_newSlots (by omega)).mpr
        ⟨0, by omega, by omega, rfl⟩), ?_⟩
      have hnot : config.partitionType ≠ .type101 := by
        rcases hlists with htype | htype <;> rw [htype] <;> exact fun heq => by cases heq
      have hzero := @firstBound_eq config now hconfig.type hnot
      rw [firstBound, if_pos hlists] at hzero
      rw [Slot.HoldsDay, if_pos hlists]
      show newBound config now 0 = now
      rw [newBound_eq hbehind.type4]
      omega
    · refine ⟨newSlot config now 1, List.mem_append_right _ ((mem_newSlots (by omega)).mpr
        ⟨1, by omega, by omega, rfl⟩), ?_⟩
      rw [Slot.HoldsDay, if_neg hlists]
      show now < newBound config now 1
      rw [newBound_eq hbehind.type4]
      omega
  · intro hlists hone slot hslot day hnow hday
    rcases List.mem_append.mp hslot with hin | hnew
    · have hless := hold slot hin
      rw [firstBound, if_pos hlists] at hless
      omega
    · obtain ⟨i, hlow, hhigh, rfl⟩ := hbehind.newSlot hnew
      have hnot : config.partitionType ≠ .type101 := by
        rcases hlists with htype | htype <;> rw [htype] <;> exact fun heq => by cases heq
      have hzero := @firstBound_eq config now hconfig.type hnot
      rw [firstBound, if_pos hlists] at hzero
      dsimp only at hday
      rw [hone, Nat.mul_one] at hday
      refine ⟨newSlot config now (day - now), List.mem_append_right _ ((mem_newSlots (by omega)).mpr
        ⟨_, by omega, by omega, rfl⟩), ?_⟩
      show newBound config _ _ = day
      rw [newBound_eq hbehind.type4, hone, Nat.mul_one]
      omega

/-- A run whose condition is met leaves the table as it should be. -/
theorem kept_step {d : ℕ} (hconfig : Creatable config) (h : Kept config d slots) (hlt : d < now)
    (hsustained : Sustained config ⟨d, slots.map (Slot.row config)⟩ now) :
    ∃ slots', slots.map (Slot.row config) ++
        (getAddPartitionSql config now (slots.map (Slot.row config))).getD [] =
          slots'.map (Slot.row config) ∧ Kept config now slots' := by
  have htoday := hsustained.today
  have hd := h.date
  have hnow : Dated now := ⟨by omega, by omega⟩
  have hnext : Dated (now + 1) := ⟨by omega, by omega⟩
  have hslots := sustainedSlots h.sound hnow hnext hsustained
  rcases getAddPartitionSql_cases h.sound hnow hnext with
    ⟨henough, hadd⟩ | ⟨hfew, ⟨hnone, -⟩ | ⟨last, hlast, hgreatest, hadd⟩⟩
  · refine ⟨slots, ?_, kept_none hconfig h hlt hslots henough⟩
    rw [hadd, Option.getD_some, List.append_nil]
  · refine ⟨slots ++ newSlots config now 0 config.extraPartition, ?_,
      kept_fresh hconfig h hlt hslots hnone⟩
    have hfresh := getAddPartitionSql_fresh hconfig.type hconfig.extra h.sound hnow hnext hnone
    rw [hfresh, Option.getD_some, List.map_append]
  · refine ⟨_, ?_, kept_behind hconfig h hlt hslots hfew hlast hgreatest⟩
    rw [hadd, Option.getD_some, List.map_append]

theorem managed_of_kept (h : Kept config now slots) :
    Managed config ⟨now, slots.map (Slot.row config)⟩ := by
  have hdate := h.date
  have hnow : Dated now := ⟨by omega, by omega⟩
  constructor
  case today =>
    obtain ⟨slot, hslot, hholds⟩ := h.today
    refine ⟨_, List.mem_map_of_mem hslot, ?_⟩
    intro second hsecond
    rw [holds_row (h.sound slot hslot) hnow hsecond]
    unfold Slot.HoldsDay at hholds
    split <;> rename_i hlists
    · rw [if_pos hlists] at hholds
      exact hholds.symm
    · rwa [if_neg hlists] at hholds
  case extra =>
    refine ⟨(ahead config now slots).map (Slot.row config), List.filter_sublist.map _, ?_, ?_⟩
    · rw [List.length_map]
      exact h.extra
    · intro row hrow
      obtain ⟨slot, hslot, rfl⟩ := List.mem_map.mp hrow
      obtain ⟨hin, hbound⟩ := mem_ahead.mp hslot
      have hsound := h.sound slot hin
      by_cases hlists : Lists config
      · rw [firstBound, if_pos hlists] at hbound
        refine ⟨slot.bound, 0, hbound, by omega, ?_⟩
        rw [holds_row hsound hsound.bound (by omega), if_pos hlists]
      · rw [firstBound, if_neg hlists] at hbound
        refine ⟨now, 0, Nat.le_refl now, by omega, ?_⟩
        rw [holds_row hsound hnow (by omega), if_neg hlists]
        omega
  case accepted =>
    constructor
    · rw [List.map_map]
      refine List.pairwise_map.mpr (h.increasing.imp_of_mem ?_)
      intro a b ha hb hlt heq
      have hname := name_injective (h.sound a ha).name (h.sound b hb).dated heq
      have hoffset := h.offset a ha
      have hoffset' := h.offset b hb
      omega
    · refine List.pairwise_map.mpr (h.increasing.imp_of_mem ?_)
      intro a b ha hb hlt
      rw [follows_row (h.sound a ha) (h.sound b hb)]
      split
      · exact Nat.ne_of_lt hlt
      · exact hlt
  case names =>
    intro row hrow
    obtain ⟨slot, hslot, rfl⟩ := List.mem_map.mp hrow
    exact ⟨slot.name, by rw [← h.offset slot hslot]; rfl⟩

theorem kept_run {days : List ℕ} (hconfig : Creatable config)
    (hfirst : firstDay + config.reservedPartition * config.partitionTimeInterval < start)
    (hlast : start + config.extraPartition * config.partitionTimeInterval + 1 < lastDay)
    (hrun : Transition.Run (Transition.Guarded (Sustained config) (AddStep config))
      ⟨start, getInitPartitionSql config start⟩ days s) :
    ∃ slots, s.rows = slots.map (Slot.row config) ∧ Kept config s.day slots := by
  apply hrun.invariant fun s => ∃ slots, s.rows = slots.map (Slot.row config) ∧ Kept config s.day slots
  · exact ⟨_, initSlots config start, kept_init hconfig hfirst hlast⟩
  · rintro ⟨d, rows⟩ now t ⟨slots, rfl, hkept⟩ ⟨hsustained, hlt, rfl⟩
    exact kept_step hconfig hkept hlt hsustained

end

/-- A partition each day for the rows of a column of dates, one kept and one ahead. -/
def dailyConfig : PartitionConfig := ⟨"day", .type0, 1, 1, 1, ⟨28800, by decide⟩⟩

theorem creatable_dailyConfig : Creatable dailyConfig :=
  ⟨by decide, by decide, by decide, by decide, by decide⟩

theorem sustained_dailyConfig :
    Sustained dailyConfig ⟨739251, getInitPartitionSql dailyConfig 739251⟩ 739252 := by
  have hslots : (initDays dailyConfig 739251).map (fun day =>
      (⟨day, day + initDiff dailyConfig⟩ : Slot)) = [⟨739250, 739251⟩, ⟨739251, 739252⟩] := rfl
  have hkept := @kept_init dailyConfig 739251 creatable_dailyConfig (by decide) (by decide)
  rw [hslots] at hkept
  have hrows : getInitPartitionSql dailyConfig 739251 = _ := initSlots dailyConfig 739251
  rw [hslots] at hrows
  rw [hrows]
  have hnone : ∀ row ∈ [⟨739250, 739251⟩, ⟨739251, 739252⟩].map (Slot.row dailyConfig),
      ¬ ReachesToday dailyConfig 739252 row := by
    intro row hrow
    obtain ⟨slot, hslot, rfl⟩ := List.mem_map.mp hrow
    rw [reachesToday_row (hkept.sound slot hslot) (by decide) (by decide)]
    revert slot
    decide
  constructor
  case today => decide
  case dates =>
    intro row hrow
    obtain ⟨slot, hslot, rfl⟩ := List.mem_map.mp hrow
    refine ⟨slot.bound, (hkept.sound slot hslot).bound, rfl, ?_⟩
    clear hrow
    revert slot
    decide
  case texts => exact fun a ha _ _ hreach => absurd hreach (hnone a ha)
  all_goals exact fun htype => by cases htype

/-- A partition each week for the rows of a column of numbers. -/
def weeklyConfig : PartitionConfig := ⟨"day", .type3, 7, 4, 15, ⟨28800, by decide⟩⟩

theorem creatable_weeklyConfig : Creatable weeklyConfig :=
  ⟨by decide, by decide, by decide, by decide, by decide⟩

/-- Its bounds stay on the weekday of the start. -/
theorem weekly_rows : ∃ slots : List Slot, getInitPartitionSql weeklyConfig 739251 ++
    (getAddPartitionSql weeklyConfig 739252 (getInitPartitionSql weeklyConfig 739251)).getD [] =
      slots.map (Slot.row weeklyConfig) ∧
    ∀ slot ∈ slots, slot.Sound weeklyConfig ∧ slot.bound % 7 = 739251 % 7 := by
  have hkept := @kept_init weeklyConfig 739251 creatable_weeklyConfig (by decide) (by decide)
  have hdays : ∀ slot ∈ (initDays weeklyConfig 739251).map (fun day =>
      (⟨day, day + initDiff weeklyConfig⟩ : Slot)), slot.bound % 7 = 739251 % 7 ∧
        739000 < slot.bound ∧ slot.bound < 740000 := by
    decide
  have hahead : ahead weeklyConfig 739252 ((initDays weeklyConfig 739251).map (fun day =>
      (⟨day, day + initDiff weeklyConfig⟩ : Slot))) ≠ [] := by
    decide
  rw [initSlots]
  generalize (initDays weeklyConfig 739251).map (fun day =>
      (⟨day, day + initDiff weeklyConfig⟩ : Slot)) = slots at *
  have hold : ∀ slot ∈ slots, slot.Sound weeklyConfig ∧ slot.bound % 7 = 739251 % 7 :=
    fun slot hslot => ⟨hkept.sound slot hslot, (hdays slot hslot).1⟩
  rcases @getAddPartitionSql_cases weeklyConfig 739252 slots hkept.sound (by decide) (by decide) with
    ⟨-, hadd⟩ | ⟨-, ⟨hnone, -⟩ | ⟨last, hlast, -, hadd⟩⟩
  · refine ⟨slots, ?_, hold⟩
    rw [hadd, Option.getD_some, List.append_nil]
  · exact absurd hnone hahead
  · refine ⟨_, by rw [hadd, Option.getD_some, ← List.map_append], ?_⟩
    intro slot hslot
    rcases List.mem_append.mp hslot with hin | hnew
    · exact hold slot hin
    · obtain ⟨hweek, hearly, hlate⟩ := hdays last (mem_ahead.mp hlast).1
      have hfew : weeklyConfig.extraPartition - (ahead weeklyConfig 739252 slots).length ≤ 15 :=
        Nat.sub_le _ _
      obtain ⟨i, hlow, hhigh, rfl⟩ := (mem_newSlots (by omega)).mp hnew
      have hbound : (newSlot weeklyConfig (last.bound - initDiff weeklyConfig) i).bound =
          last.bound + i * 7 := rfl
      have hname : (newSlot weeklyConfig (last.bound - initDiff weeklyConfig) i).name =
          last.bound + i * 7 := rfl
      have hfirst : firstDay = 366 := rfl
      have hend : lastDay = 3652424 := rfl
      refine ⟨⟨by omega, by omega, by omega, Nat.le_refl _⟩, by omega⟩

end Partition
