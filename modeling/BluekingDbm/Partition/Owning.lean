import BluekingDbm.Library.Lists
import BluekingDbm.Partition.Retention
import Mathlib.Data.List.Chain

/-! Whether the service takes a table that it has partitioned itself for its own. -/
namespace Partition

open Calendar

/-- The expressions that the database reports of the table of a rule: as it was written, or in a
form of its own. -/
def reports (config : PartitionConfig) : List String :=
  match config.partitionType with
  | .type0 | .type1 => [(pkey config).2, "to_days(" ++ ("`" ++ config.partitionColumn ++ "`") ++ ")"]
  | .type3 | .type4 | .type101 => [(pkey config).2, "`" ++ config.partitionColumn ++ "`"]
  | .type5 => [(pkey config).2, "unix_timestamp(" ++ ("`" ++ config.partitionColumn ++ "`") ++ ")"]

/-- A table after the run of a day. -/
structure Owned where
  day : ℕ
  table : Table

/-- The table as it is partitioned first. -/
def initTable (config : PartitionConfig) (now : ℕ) (expression : String) : Table :=
  ⟨expression, (pkey config).1, getInitPartitionSql config now⟩

/-- The day of a run, and whether the rule is online: partitions are dropped only then. -/
structure CronRun where
  day : ℕ
  online : Bool

/-- The partitions after a run. -/
def cronRows (config : PartitionConfig) (run : CronRun) (table : Table) : List Row :=
  if getOneTableInfo config true table ≠ .partitioned then table.rows
  else
    match getAddPartitionSql config run.day table.rows with
    | none => table.rows
    | some new =>
      if run.online then
        match getDropPartitionSql config run.day table.rows with
        | none => table.rows
        | some names => dropPartitions names (table.rows ++ new)
      else table.rows ++ new

/-- A run on a later day. -/
def CronStep (config : PartitionConfig) (s : Owned) (run : CronRun) (t : Owned) : Prop :=
  s.day < run.day ∧ t = ⟨run.day, { s.table with rows := cronRows config run s.table }⟩

/-- The texts of numbers are ordered as the numbers. -/
def TextOrdered (rows : List Row) : Prop :=
  ∀ a ∈ rows, ∀ b ∈ rows, value a.partitionDescription < value b.partitionDescription →
    a.partitionDescription < b.partitionDescription

/-- No other partition has a greater description. -/
def Greatest (rows : List Row) (row : Row) : Prop :=
  row ∈ rows ∧ ∀ other ∈ rows, other.partitionDescription ≤ row.partitionDescription

/-- Where a run leaves names that are an interval apart: the dates keep four digits for their years,
an interval is a duration, and texts are ordered as what they stand for; with type 4 a name is
counted from a bound only where the two are a day apart; and where all partitions have passed, the
run drops them all, or comes an interval after the last name. -/
structure Steady (config : PartitionConfig) (s : Owned) (run : CronRun) : Prop where
  room : Room config run.day s.table.rows
  span : config.partitionTimeInterval ≤ 106751
  texts : TextOrdered s.table.rows
  type4 : config.partitionType = .type4 → config.partitionTimeInterval = 1 ∨
    config.extraPartition ≤
      (s.table.rows.filter fun row => ReachesToday config run.day row).length ∨
    (∀ row ∈ s.table.rows, ¬ ReachesToday config run.day row) ∨
    ∃ day, Dated day ∧
      Greatest s.table.rows ⟨"p" ++ format day, description config (day + initDiff config)⟩
  restart : (∀ row ∈ s.table.rows, ¬ ReachesToday config run.day row) →
    run.online = true ∧ (∀ row ∈ s.table.rows, Expired config run.day row) ∨
    ∃ row, Greatest s.table.rows row ∧ ∃ day, Dated day ∧ row.partitionName = "p" ++ format day ∧
      day + config.partitionTimeInterval = run.day

/-- What every run leaves: names that are an interval apart. -/
structure Chained (config : PartitionConfig) (slots : List Slot) : Prop where
  sound : ∀ slot ∈ slots, slot.Sound config
  increasing : slots.Pairwise fun a b => a.bound < b.bound
  apart : slots.IsChain fun a b => b.name = a.name + config.partitionTimeInterval
  offset : (config.partitionType = .type4 → config.partitionTimeInterval = 1) →
    ∀ slot ∈ slots, slot.bound = slot.name + initDiff config

section

variable {config : PartitionConfig} {now base start need day i j : ℕ} {slots new : List Slot}
  {slot last : Slot} {a b : ℕ} {table : Table} {fromCron : Bool}

theorem checkPartitionExpression_reports (h : table.partitionExpression ∈ reports config)
    (hmethod : table.partitionMethod = (pkey config).1) :
    checkPartitionExpression table.partitionExpression table.partitionMethod config.partitionColumn
      config.partitionType = true := by
  unfold reports pkey at h
  unfold pkey at hmethod
  unfold checkPartitionExpression
  obtain ⟨column, partitionType, interval, reserved, extra, zone⟩ := config
  rcases table with ⟨expression, method, rows⟩
  cases partitionType <;> dsimp only at h hmethod ⊢ <;> subst hmethod <;>
    rcases List.mem_cons.mp h with rfl | h
  all_goals first
    | exact decide_eq_true ⟨by simp, rfl⟩
    | (rw [List.mem_singleton] at h
       subst h
       exact decide_eq_true ⟨by simp, rfl⟩)

theorem subDays_interval (h : b = a + config.partitionTimeInterval)
    (hspan : config.partitionTimeInterval ≤ 106751) :
    subDays b a = config.partitionTimeInterval := by
  unfold subDays
  have hdiff : (b : ℤ) - a = config.partitionTimeInterval := by omega
  dsimp only
  rw [hdiff]
  have hmax : (config.partitionTimeInterval : ℤ) * (86400 * 10 ^ 9) ≤ 2 ^ 63 - 1 := by omega
  rw [min_eq_left hmax, max_eq_right (by omega)]
  exact Int.mul_tdiv_cancel _ (by decide)

theorem calculateInterval_names (ha : Dated a) (hb : Dated b) (interval : ℕ) :
    calculateInterval ("p" ++ format a) ("p" ++ format b) interval =
      some (decide (subDays b a = interval)) := by
  rw [calculateInterval, if_pos ⟨matchString_name ha, matchString_name hb⟩, trimPrefix_name,
    trimPrefix_name, parseName_format ha, parseName_format hb]
  rfl

theorem TextOrdered.lt {other : Slot} (h : TextOrdered (slots.map (Slot.row config)))
    (hsound : ∀ slot ∈ slots, slot.Sound config) (hslot : slot ∈ slots) (hother : other ∈ slots)
    (hlt : slot.bound < other.bound) :
    description config slot.bound < description config other.bound := by
  have htext := h _ (List.mem_map_of_mem hslot) _ (List.mem_map_of_mem hother)
  exact description_lt (hsound slot hslot).bound (hsound other hother).bound hlt htext

/-- The two lowest descriptions are those of the first two bounds. -/
theorem orderByDescription_rows (hsound : ∀ slot ∈ slots, slot.Sound config)
    (hslots : slots.Pairwise fun a b => a.bound < b.bound)
    (htexts : TextOrdered (slots.map (Slot.row config))) :
    orderByDescription (slots.map (Slot.row config)) = slots.map (Slot.row config) := by
  apply List.mergeSort_of_pairwise
  refine List.pairwise_map.mpr (hslots.imp_of_mem ?_)
  intro a b ha hb hlt
  exact decide_eq_true (le_of_lt (htexts.lt hsound ha hb hlt))

/-- What is found of a table whose bounds and texts go up: its first two names decide. -/
theorem getOneTableInfo_rows {rest : List Slot} {first second : Slot}
    (hsound : ∀ slot ∈ first :: second :: rest, slot.Sound config)
    (hslots : (first :: second :: rest).Pairwise fun a b => a.bound < b.bound)
    (hexpression : table.partitionExpression ∈ reports config)
    (hmethod : table.partitionMethod = (pkey config).1)
    (hrows : table.rows = (first :: second :: rest).map (Slot.row config))
    (htexts : TextOrdered table.rows) :
    getOneTableInfo config fromCron table =
      if subDays second.name first.name = config.partitionTimeInterval then .partitioned
      else if fromCron then .inconsistent else .notPartitioned := by
  have hcheck := checkPartitionExpression_reports hexpression hmethod
  rw [hrows] at htexts
  have hfirst := (hsound first List.mem_cons_self).dated
  have hsecond := (hsound second (List.mem_cons_of_mem _ List.mem_cons_self)).dated
  have hname : ∀ slot : Slot, (slot.row config).partitionName = "p" ++ format slot.name :=
    fun _ => rfl
  unfold getOneTableInfo
  dsimp only
  rw [hrows, orderByDescription_rows hsound hslots htexts, hcheck]
  rw [if_neg (by simp), List.map_cons, List.map_cons, List.take_succ_cons, List.take_succ_cons,
    List.take_zero]
  dsimp only
  rw [hname, hname, calculateInterval_names hfirst hsecond]
  by_cases hapart : subDays second.name first.name = config.partitionTimeInterval
  · rw [if_pos hapart, decide_eq_true hapart]
  · rw [if_neg hapart, decide_eq_false hapart]

theorem getOneTableInfo_chained (h : Chained config slots)
    (hspan : config.partitionTimeInterval ≤ 106751)
    (hexpression : table.partitionExpression ∈ reports config)
    (hmethod : table.partitionMethod = (pkey config).1)
    (hrows : table.rows = slots.map (Slot.row config)) (htexts : TextOrdered table.rows) :
    getOneTableInfo config fromCron table = .partitioned := by
  rcases slots with _ | ⟨first, _ | ⟨second, rest⟩⟩
  · unfold getOneTableInfo
    dsimp only
    rw [hrows, orderByDescription_rows h.sound h.increasing (hrows ▸ htexts)]
    rfl
  · unfold getOneTableInfo
    dsimp only
    rw [hrows, orderByDescription_rows h.sound h.increasing (hrows ▸ htexts),
      checkPartitionExpression_reports hexpression hmethod]
    rfl
  · have hapart := (List.isChain_cons_cons.mp h.apart).1
    rw [getOneTableInfo_rows h.sound h.increasing hexpression hmethod hrows htexts,
      if_pos (subDays_interval hapart hspan)]

theorem Chained.names_increasing (hinterval : 1 ≤ config.partitionTimeInterval)
    (h : Chained config slots) : slots.Pairwise fun a b => a.name < b.name := by
  have hchain : (slots.map Slot.name).IsChain (· < ·) := by
    apply List.isChain_map_of_isChain _ _ h.apart
    intro a b hab
    omega
  exact List.pairwise_map.mp hchain.pairwise

theorem Chained.regular (hinterval : 1 ≤ config.partitionTimeInterval)
    (h : Chained config slots) : Regular config slots := by
  refine ⟨h.sound, ?_, ?_⟩
  · rw [List.map_map]
    refine List.pairwise_map.mpr ((h.names_increasing hinterval).imp_of_mem ?_)
    intro a b ha hb hlt heq
    have hname := name_injective (h.sound a ha).name (h.sound b hb).dated heq
    omega
  · refine List.pairwise_map.mpr (h.increasing.imp_of_mem ?_)
    intro a b ha hb hlt
    rw [follows_row (h.sound a ha) (h.sound b hb)]
    split
    · exact Nat.ne_of_lt hlt
    · exact hlt

theorem Chained.suffix (h : Chained config slots) (hnew : new <:+ slots) : Chained config new :=
  ⟨fun slot hslot => h.sound slot (hnew.subset hslot), h.increasing.sublist hnew.sublist,
    h.apart.suffix hnew, fun hone slot hslot => h.offset hone slot (hnew.subset hslot)⟩

theorem Chained.append (h : Chained config slots) (hnew : Chained config new)
    (hbounds : ∀ a ∈ slots, ∀ b ∈ new, a.bound < b.bound)
    (hlast : ∀ a ∈ slots.getLast?, ∀ b ∈ new.head?, b.name = a.name + config.partitionTimeInterval) :
    Chained config (slots ++ new) := by
  constructor
  case sound =>
    intro slot hslot
    rcases List.mem_append.mp hslot with hin | hin
    · exact h.sound slot hin
    · exact hnew.sound slot hin
  case increasing => exact List.pairwise_append.mpr ⟨h.increasing, hnew.increasing, hbounds⟩
  case apart => exact h.apart.append hnew.apart hlast
  case offset =>
    intro hone slot hslot
    rcases List.mem_append.mp hslot with hin | hin
    · exact h.offset hone slot hin
    · exact hnew.offset hone slot hin

theorem newBound_lt (hinterval : 1 ≤ config.partitionTimeInterval) (hij : i < j) :
    newBound config base i < newBound config base j := by
  have hmul := interval_lt config hij
  unfold newBound
  split
  · rw [Nat.succ_mul, Nat.succ_mul]
    omega
  · omega

theorem chained_newSlots (hinterval : 1 ≤ config.partitionTimeInterval)
    (hsound : ∀ slot ∈ newSlots config base start need, slot.Sound config) :
    Chained config (newSlots config base start need) := by
  constructor
  case sound => exact hsound
  case increasing =>
    refine List.pairwise_map.mpr ((List.pairwise_lt_range' 1).imp ?_)
    intro i j hij
    exact newBound_lt hinterval hij
  case apart =>
    apply List.isChain_map_of_isChain (newSlot config base) _ (List.isChain_range' start _ 1)
    rintro i j rfl
    show base + (i + 1) * config.partitionTimeInterval =
      base + i * config.partitionTimeInterval + config.partitionTimeInterval
    rw [Nat.succ_mul]
    omega
  case offset =>
    intro hone slot hslot
    obtain ⟨i, -, rfl⟩ := List.mem_map.mp hslot
    exact newBound_eq hone

theorem chained_init (hconfig : Creatable config)
    (hfirst : firstDay + config.reservedPartition * config.partitionTimeInterval < now)
    (hlast : now + config.extraPartition * config.partitionTimeInterval + 1 < lastDay) :
    Chained config ((initDays config now).map fun day => ⟨day, day + initDiff config⟩) := by
  have hkept := kept_init hconfig hfirst hlast
  refine ⟨hkept.sound, hkept.increasing, ?_, fun _ => hkept.offset⟩
  obtain ⟨first, -, hdays⟩ := initDays_eq config now
  rw [hdays, List.map_map]
  apply List.isChain_map_of_isChain _ _ (List.isChain_range' first _ 1)
  rintro i j rfl
  show now + (i + 1) * config.partitionTimeInterval -
      config.reservedPartition * config.partitionTimeInterval =
    now + i * config.partitionTimeInterval -
      config.reservedPartition * config.partitionTimeInterval + config.partitionTimeInterval
  rw [Nat.succ_mul]
  omega

/-- The greatest description is that of the last bound. -/
theorem last_of_greatest (h : Chained config slots) (hslot : last ∈ slots)
    (htexts : TextOrdered (slots.map (Slot.row config)))
    (hgreatest : ∀ slot ∈ slots, last.bound < slot.bound →
      description config slot.bound ≤ description config last.bound) :
    slots.getLast? = some last := by
  obtain ⟨before, behind, rfl⟩ := List.append_of_mem hslot
  rcases behind with _ | ⟨next, rest⟩
  · simp
  · have hnext : next ∈ before ++ last :: next :: rest :=
      List.mem_append_right _ (List.mem_cons_of_mem _ List.mem_cons_self)
    have hbehind := (List.pairwise_append.mp h.increasing).2.1
    have hlt := (List.pairwise_cons.mp hbehind).1 next List.mem_cons_self
    exact absurd (hgreatest next hnext hlt) (not_le_of_gt (htexts.lt h.sound hslot hnext hlt))

theorem bound_le_last (h : Chained config slots) (hlast : slots.getLast? = some last)
    (hslot : slot ∈ slots) : slot.bound ≤ last.bound := by
  obtain ⟨before, rfl⟩ := List.getLast?_eq_some_iff.mp hlast
  rcases List.mem_append.mp hslot with hin | hin
  · exact Nat.le_of_lt ((List.pairwise_append.mp h.increasing).2.2 slot hin last (by simp))
  · obtain rfl := List.mem_singleton.mp hin
    exact Nat.le_refl _

theorem last_of_greatest_row {row : Row} (h : Chained config slots)
    (htexts : TextOrdered (slots.map (Slot.row config)))
    (hrow : Greatest (slots.map (Slot.row config)) row) :
    ∃ slot, slots.getLast? = some slot ∧ row = slot.row config := by
  obtain ⟨hin, hgreatest⟩ := hrow
  obtain ⟨slot, hslot, rfl⟩ := List.mem_map.mp hin
  refine ⟨slot, last_of_greatest h hslot htexts ?_, rfl⟩
  intro other hother _
  exact hgreatest _ (List.mem_map_of_mem hother)

theorem head_newSlots (h : slot ∈ (newSlots config base start need).head?) :
    slot = newSlot config base start := by
  rw [newSlots, List.head?_map, List.head?_range'] at h
  split at h
  · cases h
  · exact (Option.some.inj h).symm

theorem newBound_le_newSlots (hinterval : 1 ≤ config.partitionTimeInterval)
    (hslot : slot ∈ newSlots config base start need) :
    newBound config base start ≤ slot.bound := by
  obtain ⟨i, hi, rfl⟩ := List.mem_map.mp hslot
  rw [List.mem_range'_1] at hi
  rcases Nat.eq_or_lt_of_le hi.1 with rfl | hlt
  · exact Nat.le_refl _
  · exact Nat.le_of_lt (newBound_lt hinterval hlt)

/-- What a run adds: partitions an interval apart, behind all others, and an interval behind the last
one unless all others are dropped. -/
structure Continued (config : PartitionConfig) (slots : List Slot) (run : CronRun)
    (new : List Slot) : Prop where
  chained : Chained config new
  bounds : ∀ a ∈ slots, ∀ b ∈ new, a.bound < b.bound
  stays : ∀ slot ∈ new, ∀ other ∈ slots, other.bound + keptDays config < run.day →
    "p" ++ format slot.name ≠ "p" ++ format other.name
  apart : run.online = true ∧ (∀ slot ∈ slots, slot.bound + keptDays config < run.day) ∨
    ∀ a ∈ slots.getLast?, ∀ b ∈ new.head?, b.name = a.name + config.partitionTimeInterval

theorem continued_behind {run : CronRun} (hinterval : 1 ≤ config.partitionTimeInterval)
    (h : Chained config slots) (hlast : slots.getLast? = some last)
    (hneed : need ≤ config.extraPartition)
    (hroom : last.bound + (config.extraPartition + 1) * config.partitionTimeInterval < lastDay)
    (hahead : firstBound config run.day ≤ last.bound)
    (hoffset : last.bound = last.name + initDiff config) :
    Continued config slots run (newSlots config last.name 1 need) := by
  have hin : last ∈ slots := List.mem_of_getLast? hlast
  have hsound := h.sound last hin
  have hname := hsound.name
  have hmul := Nat.mul_le_mul_right config.partitionTimeInterval
    (show need ≤ config.extraPartition + 1 by omega)
  have hnew : ∀ slot ∈ newSlots config last.name 1 need, slot.Sound config := by
    intro slot hslot
    apply newSlots_sound hinterval (Nat.le_refl 1) hneed hname _ _ _ hslot <;> omega
  constructor
  case chained => exact chained_newSlots hinterval hnew
  case bounds =>
    intro a ha b hb
    have hle := bound_le_last h hlast ha
    have hfirst := newBound_le_newSlots hinterval hb
    have hnext : last.bound < newBound config last.name 1 := by
      unfold newBound initDiff diffOneDay at *
      split <;> simp_all <;> omega
    omega
  case stays =>
    intro slot hslot other hother hold
    refine newSlots_not_dropped hinterval (h.sound other hother) hold ?_ hname hslot
    have hdiff := initDiff_le config
    unfold firstBound at hahead
    split at hahead <;> omega
  case apart =>
    right
    intro a ha b hb
    rw [hlast] at ha
    obtain rfl := Option.some.inj ha
    rw [head_newSlots hb]
    show _ + 1 * _ = _
    omega

/-- A new start, once all partitions have passed. -/
theorem continued_fresh {run : CronRun} (hconfig : Creatable config) (h : Chained config slots)
    (hdate : firstDay < run.day ∧
      run.day + (config.extraPartition + 1) * config.partitionTimeInterval + 1 < lastDay)
    (hnone : ∀ slot ∈ slots, slot.bound < firstBound config run.day)
    (hrestart : run.online = true ∧ (∀ slot ∈ slots, slot.bound + keptDays config < run.day) ∨
      ∃ last, slots.getLast? = some last ∧
        last.name + config.partitionTimeInterval = run.day) :
    Continued config slots run (newSlots config run.day 0 config.extraPartition) := by
  have hinterval := hconfig.interval
  obtain ⟨hfirst, hend⟩ := hdate
  have hmul := Nat.mul_le_mul_right config.partitionTimeInterval
    (show config.extraPartition ≤ config.extraPartition + 1 by omega)
  have hdiff := initDiff_le config
  have hnew : ∀ slot ∈ newSlots config run.day 0 config.extraPartition, slot.Sound config := by
    intro slot hslot
    apply newSlots_sound hinterval (Nat.zero_le 1) (Nat.le_refl _) _ _ _ _ hslot <;> omega
  constructor
  case chained => exact chained_newSlots hinterval hnew
  case bounds =>
    intro a ha b hb
    have hle := newBound_le_newSlots hinterval hb
    have hbefore := hnone a ha
    have hzero : a.bound < newBound config run.day 0 := by
      by_cases htype : config.partitionType = .type101
      · -- with this type a bound may be today's, unless the table has been left long enough
        have hother : config.partitionType = .type4 → config.partitionTimeInterval = 1 := by
          intro heq
          rw [heq] at htype
          cases htype
        have hzero : initDiff config = 0 := by simp [initDiff, htype]
        rw [newBound_eq hother]
        rcases hrestart with ⟨-, hold⟩ | ⟨last, hlast, hday⟩
        · have hlong := hold a ha
          omega
        · have hlastBound := bound_le_last h hlast ha
          have hoffset := h.offset hother last (List.mem_of_getLast? hlast)
          omega
      · have hday := @firstBound_eq config run.day hconfig.type htype
        unfold newBound
        split <;> omega
    omega
  case stays =>
    intro slot hslot other hother hold
    exact newSlots_not_dropped hinterval (h.sound other hother) hold (by omega) (by omega) hslot
  case apart =>
    refine hrestart.imp id ?_
    rintro ⟨last, hlast, hday⟩ a ha b hb
    rw [hlast] at ha
    obtain rfl := Option.some.inj ha
    rw [head_newSlots hb]
    show run.day + 0 * _ = _
    omega

/-- What a statement adds, where the condition of a run is met. -/
theorem continued_steady {s : Owned} {run : CronRun} (hconfig : Creatable config)
    (h : Chained config slots) (hrows : s.table.rows = slots.map (Slot.row config))
    (hsteady : Steady config s run) :
    ∃ new, getAddPartitionSql config run.day (slots.map (Slot.row config)) =
        some (new.map (Slot.row config)) ∧ Continued config slots run new := by
  obtain ⟨⟨hdate, hroom⟩, hspan, htexts, htype4, hrestart⟩ := hsteady
  rw [hrows] at hroom htexts htype4 hrestart
  obtain ⟨hfirst, hend⟩ := hdate
  have hnow : Dated run.day := ⟨by omega, by omega⟩
  have hnext : Dated (run.day + 1) := ⟨by omega, by omega⟩
  have hnot : ∀ slot ∈ slots, ReachesToday config run.day (slot.row config) ↔
      slot ∈ ahead config run.day slots :=
    fun slot hslot => reachesToday_ahead h.sound hnow hnext hslot
  rcases getAddPartitionSql_cases h.sound hnow hnext with
    ⟨henough, hadd⟩ | ⟨hfew, ⟨hnone, -⟩ | ⟨last, hlast, hgreatest, hadd⟩⟩
  · refine ⟨[], hadd, ⟨⟨?_, ?_, ?_, ?_⟩, ?_, ?_, ?_⟩⟩
    all_goals simp
  · have hpassed : ∀ row ∈ slots.map (Slot.row config), ¬ ReachesToday config run.day row := by
      intro row hrow hreach
      obtain ⟨slot, hslot, rfl⟩ := List.mem_map.mp hrow
      have hin := (hnot slot hslot).mp hreach
      rw [hnone] at hin
      cases hin
    refine ⟨_, getAddPartitionSql_fresh hconfig.type hconfig.extra h.sound hnow hnext hnone,
      continued_fresh hconfig h ⟨hfirst, hend⟩ ?_ ?_⟩
    · intro slot hslot
      by_contra hge
      have hin : slot ∈ ahead config run.day slots := mem_ahead.mpr ⟨hslot, by omega⟩
      rw [hnone] at hin
      cases hin
    · rcases hrestart hpassed with ⟨honline, hold⟩ | ⟨row, hrow, day, hday, hname, hlater⟩
      · refine Or.inl ⟨honline, fun slot hslot => ?_⟩
        exact (expired_row (h.sound slot hslot) hnow).mp (hold _ (List.mem_map_of_mem hslot))
      · obtain ⟨slot, hslot, rfl⟩ := last_of_greatest_row h htexts hrow
        have hsound := h.sound slot (List.mem_of_getLast? hslot)
        obtain rfl := name_injective hsound.name hday hname
        exact Or.inr ⟨slot, hslot, hlater⟩
  · obtain ⟨hin, hbound⟩ := mem_ahead.mp hlast
    have hsound := h.sound last hin
    have hend' : slots.getLast? = some last := by
      refine last_of_greatest h hin htexts ?_
      intro slot hslot hlt
      exact hgreatest slot (mem_ahead.mpr ⟨hslot, by omega⟩)
    have hoffset : last.bound = last.name + initDiff config := by
      by_cases hone : config.partitionType = .type4 → config.partitionTimeInterval = 1
      · exact h.offset hone last hin
      · obtain ⟨htype, hmore⟩ := Classical.not_imp.mp hone
        rw [filter_reachesToday h.sound hnow hnext, List.length_map] at htype4
        rcases htype4 htype with heq | hle | hpassed | ⟨day, hday, hrow⟩
        · exact absurd heq hmore
        · omega
        · exact absurd ((hnot last hin).mpr hlast) (hpassed _ (List.mem_map_of_mem hin))
        · obtain ⟨slot, hslot, heq⟩ := last_of_greatest_row h htexts hrow
          rw [hend'] at hslot
          obtain rfl := Option.some.inj hslot
          obtain ⟨hname, hdesc⟩ := Row.mk.inj heq
          obtain rfl := name_injective hday.1 hsound.dated hname
          have horder := hsound.order
          have hlater := hsound.last
          have hlow := hsound.name
          exact (description_injective ⟨by omega, by omega⟩ hsound.bound hdesc).symm
    obtain ⟨day, hday, hdesc, hlate⟩ := hroom _ (List.mem_map_of_mem hin)
    obtain rfl : last.bound = day := description_injective hsound.bound hday hdesc
    have hbase : last.bound - initDiff config = last.name := by omega
    rw [hbase] at hadd
    exact ⟨_, hadd, continued_behind hconfig.interval h hend' (Nat.sub_le _ _) hlate hbound hoffset⟩

/-- A run drops the front of the old partitions, and none of the new ones. -/
theorem cronRows_eq {run : CronRun} (hrows : table.rows = slots.map (Slot.row config))
    (hinfo : getOneTableInfo config true table = .partitioned) (hregular : Regular config slots)
    (hnow : Dated run.day)
    (hadd : getAddPartitionSql config run.day (slots.map (Slot.row config)) =
      some (new.map (Slot.row config)))
    (hstays : ∀ slot ∈ new, ∀ other ∈ slots, other.bound + keptDays config < run.day →
      "p" ++ format slot.name ≠ "p" ++ format other.name) :
    cronRows config run table = ((if run.online then
      slots.filter (fun slot => run.day ≤ slot.bound + keptDays config) else slots) ++ new).map
        (Slot.row config) := by
  obtain ⟨names, hdrop, hnames⟩ := mem_getDropPartitionSql hregular hnow
  unfold cronRows
  rw [hinfo, if_neg (by simp), hrows, hadd]
  dsimp only
  split
  · rw [hdrop]
    dsimp only
    rw [← List.map_append, dropPartitions_rows, List.filter_append]
    congr 2
    · apply List.filter_congr
      intro slot hslot
      rw [decide_eq_decide, hnames]
      constructor
      · intro hkept
        by_contra hold
        exact hkept ⟨slot, hslot, by omega, rfl⟩
      · rintro hkept ⟨other, hother, hold, heq⟩
        obtain rfl := hregular.name_inj hslot hother heq
        omega
    · apply List.filter_eq_self.mpr
      intro slot hslot
      refine decide_eq_true ?_
      rw [hnames]
      rintro ⟨other, hother, hold, heq⟩
      exact hstays slot hslot other hother hold heq
  · rw [List.map_append]

/-- A run that starts anew leaves the young partitions before the new ones. -/
theorem cronRows_fresh {run : CronRun} (hconfig : Creatable config) (h : Chained config slots)
    (hspan : config.partitionTimeInterval ≤ 106751)
    (hexpression : table.partitionExpression ∈ reports config)
    (hmethod : table.partitionMethod = (pkey config).1)
    (hrows : table.rows = slots.map (Slot.row config)) (htexts : TextOrdered table.rows)
    (hnow : Dated run.day) (hnext : Dated (run.day + 1)) (hnone : ahead config run.day slots = []) :
    cronRows config run table = ((if run.online then
      slots.filter (fun slot => run.day ≤ slot.bound + keptDays config) else slots) ++
        newSlots config run.day 0 config.extraPartition).map (Slot.row config) := by
  apply cronRows_eq hrows (getOneTableInfo_chained h hspan hexpression hmethod hrows htexts)
    (h.regular hconfig.interval) hnow
    (getAddPartitionSql_fresh hconfig.type hconfig.extra h.sound hnow hnext hnone)
  intro slot hslot other hother hold
  have hdate := hnow.1
  exact newSlots_not_dropped hconfig.interval (h.sound other hother) hold (by omega) hdate hslot

theorem getLast_suffix (h : new <:+ slots) (hlast : last ∈ new.getLast?) :
    last ∈ slots.getLast? := by
  obtain ⟨front, rfl⟩ := h
  obtain ⟨rest, rfl⟩ := List.getLast?_eq_some_iff.mp hlast
  rw [← List.append_assoc, List.getLast?_append_cons]
  rfl

/-- A run whose condition is met leaves names that are an interval apart. -/
theorem chained_step {s : Owned} {run : CronRun} (hconfig : Creatable config)
    (h : Chained config slots) (hexpression : s.table.partitionExpression ∈ reports config)
    (hmethod : s.table.partitionMethod = (pkey config).1)
    (hrows : s.table.rows = slots.map (Slot.row config)) (hsteady : Steady config s run) :
    ∃ slots', cronRows config run s.table = slots'.map (Slot.row config) ∧
      Chained config slots' := by
  have hinterval := hconfig.interval
  obtain ⟨new, hadd, hnew⟩ := continued_steady hconfig h hrows hsteady
  have hinfo := @getOneTableInfo_chained config slots s.table true h hsteady.span hexpression hmethod
    hrows hsteady.texts
  have hroom := hsteady.room.today
  have hnow : Dated run.day := ⟨by omega, by omega⟩
  refine ⟨_, cronRows_eq hrows hinfo (h.regular hinterval) hnow hadd hnew.stays, ?_⟩
  split
  · have hsuffix : slots.filter (fun slot => run.day ≤ slot.bound + keptDays config) <:+ slots := by
      apply Ends.filter_suffix
      refine h.increasing.imp ?_
      intro a b hlt hkept
      have hle := of_decide_eq_true hkept
      exact decide_eq_true (by omega)
    refine (h.suffix hsuffix).append hnew.chained ?_ ?_
    · intro a ha
      exact hnew.bounds a (hsuffix.subset ha)
    · intro a ha
      rcases hnew.apart with ⟨-, hold⟩ | hlast
      · obtain ⟨hin, hkept⟩ := List.mem_filter.mp (List.mem_of_getLast? ha)
        have hpassed := hold a hin
        have hle := of_decide_eq_true hkept
        omega
      · exact hlast a (getLast_suffix hsuffix ha)
  · rename_i honline
    refine h.append hnew.chained hnew.bounds (hnew.apart.resolve_left ?_)
    rintro ⟨htrue, -⟩
    exact honline htrue

theorem chained_run {s : Owned} {runs : List CronRun} {expression : String}
    (hconfig : Creatable config) (hexpression : expression ∈ reports config)
    (hfirst : firstDay + config.reservedPartition * config.partitionTimeInterval < start)
    (hlast : start + config.extraPartition * config.partitionTimeInterval + 1 < lastDay)
    (hrun : Transition.Run (Transition.Guarded (Steady config) (CronStep config))
      ⟨start, initTable config start expression⟩ runs s) :
    s.table.partitionExpression ∈ reports config ∧ s.table.partitionMethod = (pkey config).1 ∧
      ∃ slots, s.table.rows = slots.map (Slot.row config) ∧ Chained config slots := by
  apply hrun.invariant fun s => s.table.partitionExpression ∈ reports config ∧
    s.table.partitionMethod = (pkey config).1 ∧
      ∃ slots, s.table.rows = slots.map (Slot.row config) ∧ Chained config slots
  · exact ⟨hexpression, rfl, _, initSlots config start, chained_init hconfig hfirst hlast⟩
  · rintro s run t ⟨hexpression, hmethod, slots, hrows, hchained⟩ ⟨hsteady, -, rfl⟩
    exact ⟨hexpression, hmethod, chained_step hconfig hchained hexpression hmethod hrows hsteady⟩

/-- Each run whose condition is met, after others whose conditions were met, finds a table that the
service has partitioned to be the rule's own, and so does an execution from the page. -/
theorem table_stays_owned {s : Owned} {runs : List CronRun} {run : CronRun} {expression : String}
    (hconfig : Creatable config) (hexpression : expression ∈ reports config)
    (hfirst : firstDay + config.reservedPartition * config.partitionTimeInterval < start)
    (hlast : start + config.extraPartition * config.partitionTimeInterval + 1 < lastDay)
    (hrun : Transition.Run (Transition.Guarded (Steady config) (CronStep config))
      ⟨start, initTable config start expression⟩ runs s)
    (hsteady : Steady config s run) (fromCron : Bool) :
    getOneTableInfo config fromCron s.table = .partitioned := by
  obtain ⟨hexpression, hmethod, slots, hrows, hchained⟩ :=
    chained_run hconfig hexpression hfirst hlast hrun
  exact getOneTableInfo_chained hchained hsteady.span hexpression hmethod hrows hsteady.texts

theorem decimal_lt {w : ℕ} (hlow : 10 ^ w ≤ a) (hlt : a < b) (hhigh : b < 10 ^ (w + 1)) :
    Text.decimal a < Text.decimal b := by
  have hdigits := (Padded.digits_lt_iff (Nat.succ_pos w) (by omega) hhigh).mpr hlt
  rw [Padded.digits_of_le hlow, Padded.digits_of_le (by omega)] at hdigits
  exact String.lt_iff.mpr hdigits

/-- The days of this age have numbers of six digits. -/
theorem textOrdered_days (htype : config.partitionType = .type0)
    (hslots : ∀ slot ∈ slots, 10 ^ 5 ≤ slot.bound ∧ slot.bound < 10 ^ 6) :
    TextOrdered (slots.map (Slot.row config)) := by
  intro a ha b hb hlt
  obtain ⟨slot, hslot, rfl⟩ := List.mem_map.mp ha
  obtain ⟨other, hother, rfl⟩ := List.mem_map.mp hb
  obtain ⟨hlow, hhigh⟩ := hslots slot hslot
  obtain ⟨hlow', hhigh'⟩ := hslots other hother
  have hdecimal : ∀ slot : Slot, (slot.row config).partitionDescription =
      Text.decimal slot.bound := by
    intro slot
    unfold Slot.row description
    rw [htype]
  have hlast : lastDay = 3652424 := rfl
  rw [hdecimal, hdecimal, value_day (by omega), value_day (by omega)] at hlt
  rw [hdecimal, hdecimal]
  exact decimal_lt hlow (by omega) hhigh'

/-- The condition of a run for days with six digits. -/
theorem steady_days {d : ℕ} {online : Bool} {expression method : String}
    (h : Chained dailyConfig slots)
    (hslots : ∀ slot ∈ slots, 10 ^ 5 ≤ slot.bound ∧ slot.bound < 10 ^ 6 - 2)
    (hnow : 10 ^ 5 ≤ now ∧ now < 10 ^ 6 - 3) (hlast : slots.getLast? = some last)
    (hcome : now + 1 ≤ last.bound ∨ last.name + 1 = now) :
    Steady dailyConfig ⟨d, ⟨expression, method, slots.map (Slot.row dailyConfig)⟩⟩
      ⟨now, online⟩ := by
  have hfirst : firstDay = 366 := rfl
  have hend : lastDay = 3652424 := rfl
  have hroom : (dailyConfig.extraPartition + 1) * dailyConfig.partitionTimeInterval = 2 := rfl
  have hin : last ∈ slots := List.mem_of_getLast? hlast
  have hdate : Dated now ∧ Dated (now + 1) := ⟨⟨by omega, by omega⟩, by omega, by omega⟩
  have htexts : TextOrdered (slots.map (Slot.row dailyConfig)) := by
    apply textOrdered_days rfl
    intro slot hslot
    have hbound := hslots slot hslot
    omega
  constructor
  case room =>
    refine ⟨by dsimp only; omega, ?_⟩
    intro row hrow
    obtain ⟨slot, hslot, rfl⟩ := List.mem_map.mp hrow
    have hbound := hslots slot hslot
    exact ⟨slot.bound, (h.sound slot hslot).bound, rfl, by omega⟩
  case span => decide
  case texts => exact htexts
  case type4 => exact fun htype => by cases htype
  case restart =>
    intro hpassed
    rcases hcome with hreach | hday
    · refine absurd ?_ (hpassed _ (List.mem_map_of_mem hin))
      exact (reachesToday_row (h.sound last hin) hdate.1 hdate.2).mpr hreach
    · refine Or.inr ⟨_, ⟨List.mem_map_of_mem hin, ?_⟩, last.name, (h.sound last hin).dated, rfl, hday⟩
      intro row hrow
      obtain ⟨slot, hslot, rfl⟩ := List.mem_map.mp hrow
      rcases Nat.eq_or_lt_of_le (bound_le_last h hlast hslot) with heq | hlt
      · exact le_of_eq (congrArg (description dailyConfig) heq)
      · exact le_of_lt (htexts.lt h.sound hslot hin hlt)

end

/-- The first days of the daily rule, and the days after its first run. -/
theorem chained_dailyConfig : Chained dailyConfig [⟨739250, 739251⟩, ⟨739251, 739252⟩] :=
  chained_init creatable_dailyConfig (show firstDay + 1 * 1 < 739251 by decide)
    (show 739251 + 1 * 1 + 1 < lastDay by decide)

theorem initTable_dailyConfig : initTable dailyConfig 739251 "TO_DAYS(day)" =
    ⟨"TO_DAYS(day)", "RANGE", [⟨739250, 739251⟩, ⟨739251, 739252⟩].map (Slot.row dailyConfig)⟩ := by
  rw [initTable, initSlots]
  rfl

theorem steady_dailyConfig : Steady dailyConfig
    ⟨739251, initTable dailyConfig 739251 "TO_DAYS(day)"⟩ ⟨739252, true⟩ := by
  rw [initTable_dailyConfig]
  exact steady_days chained_dailyConfig (by decide) (by decide) rfl (by decide)

/-- The table after that run. -/
def dailyTable : Table :=
  ⟨"TO_DAYS(day)", "RANGE", (newSlots dailyConfig 739250 0 3).map (Slot.row dailyConfig)⟩

theorem dailyTable_step : CronStep dailyConfig
    ⟨739251, initTable dailyConfig 739251 "TO_DAYS(day)"⟩ ⟨739252, true⟩ ⟨739252, dailyTable⟩ := by
  refine ⟨by decide, ?_⟩
  rw [initTable_dailyConfig]
  have hrows : cronRows dailyConfig ⟨739252, true⟩ ⟨"TO_DAYS(day)", "RANGE",
      [⟨739250, 739251⟩, ⟨739251, 739252⟩].map (Slot.row dailyConfig)⟩ =
        (newSlots dailyConfig 739250 0 3).map (Slot.row dailyConfig) :=
    cronRows_fresh creatable_dailyConfig chained_dailyConfig (by decide) (by decide) rfl rfl
      (textOrdered_days rfl (by decide)) (by decide) (by decide) (by decide)
  exact congrArg (fun rows => Owned.mk 739252 ⟨"TO_DAYS(day)", "RANGE", rows⟩) hrows.symm

theorem steady_dailyTable : Steady dailyConfig ⟨739252, dailyTable⟩ ⟨739253, true⟩ := by
  refine @steady_days 739253 _ ⟨739253, 739254⟩ 739252 true _ _ (chained_newSlots (by decide) ?_)
    (by decide) (by decide) rfl (by decide)
  have hdates : ∀ slot ∈ newSlots dailyConfig 739250 0 3, firstDay ≤ slot.name ∧
      firstDay < slot.bound ∧ slot.bound < lastDay ∧
        slot.name + initDiff dailyConfig ≤ slot.bound := by decide
  intro slot hslot
  obtain ⟨hname, hfirst, hlast, horder⟩ := hdates slot hslot
  exact ⟨hname, hfirst, hlast, horder⟩

theorem table_stays_owned_daily : getOneTableInfo dailyConfig true dailyTable = .partitioned :=
  table_stays_owned creatable_dailyConfig (show "TO_DAYS(day)" ∈ reports dailyConfig by decide)
    (show firstDay + 1 * 1 < 739251 by decide) (show 739251 + 1 * 1 + 1 < lastDay by decide)
    (.snoc .refl ⟨steady_dailyConfig, dailyTable_step⟩) steady_dailyTable true

/-- A partition each day, one kept and fifteen ahead. -/
def dayConfig : PartitionConfig := { dailyConfig with extraPartition := extraTime }

theorem creatable_dayConfig : Creatable dayConfig :=
  ⟨by decide, by decide, by decide, by decide, by decide⟩

/-- The table sixteen days after it was partitioned: one old partition, and a gap of a day. -/
theorem dayTable_step : CronStep dayConfig
    ⟨739251, initTable dayConfig 739251 "TO_DAYS(day)"⟩ ⟨739267, true⟩
    ⟨739267, ⟨"TO_DAYS(day)", "RANGE", (⟨739265, 739266⟩ :: newSlots dayConfig 739267 0 15).map
      (Slot.row dayConfig)⟩⟩ := by
  have hchained := @chained_init dayConfig 739251 creatable_dayConfig
    (show firstDay + 1 * 1 < 739251 by decide) (show 739251 + 15 * 1 + 1 < lastDay by decide)
  have hslots : ((initDays dayConfig 739251).map fun day =>
      (⟨day, day + initDiff dayConfig⟩ : Slot)) = newSlots dayConfig 739250 0 15 := by decide
  have htable : initTable dayConfig 739251 "TO_DAYS(day)" =
      ⟨"TO_DAYS(day)", "RANGE", (newSlots dayConfig 739250 0 15).map (Slot.row dayConfig)⟩ := by
    rw [initTable, initSlots, hslots]
    rfl
  have hkept : (newSlots dayConfig 739250 0 15).filter
      (fun slot => 739267 ≤ slot.bound + keptDays dayConfig) = [⟨739265, 739266⟩] := by decide
  rw [hslots] at hchained
  have hrows := @cronRows_fresh dayConfig _ (initTable dayConfig 739251 "TO_DAYS(day)") ⟨739267, true⟩
    creatable_dayConfig hchained (by decide) (by decide) rfl (by rw [htable])
    (by rw [htable]; exact textOrdered_days rfl (by decide)) (by decide) (by decide) (by decide)
  refine ⟨by decide, ?_⟩
  rw [hrows]
  dsimp only
  rw [if_pos rfl, hkept]
  rfl

/-- The run after the gap leaves two names that are two days apart in front. -/
theorem table_disowned : ¬ ∀ (config : PartitionConfig) (start : ℕ) (expression : String)
    (runs : List CronRun) (s : Owned) (fromCron : Bool),
    Creatable config → expression ∈ reports config →
      firstDay + config.reservedPartition * config.partitionTimeInterval < start →
        start + config.extraPartition * config.partitionTimeInterval + 1 < lastDay →
          Transition.Run (CronStep config) ⟨start, initTable config start expression⟩ runs s →
            getOneTableInfo config fromCron s.table = .partitioned := by
  intro hall
  have hfound := hall dayConfig 739251 "TO_DAYS(day)" [⟨739267, true⟩] _ true creatable_dayConfig
    (by decide) (by decide) (by decide) (.snoc .refl dayTable_step)
  have hnew : newSlots dayConfig 739267 0 15 =
      ⟨739267, 739268⟩ :: newSlots dayConfig 739268 0 14 := by decide
  have hdates : ∀ slot ∈ (⟨739265, 739266⟩ : Slot) :: ⟨739267, 739268⟩ ::
      newSlots dayConfig 739268 0 14, firstDay ≤ slot.name ∧ firstDay < slot.bound ∧
        slot.bound < lastDay ∧ slot.name + initDiff dayConfig ≤ slot.bound := by decide
  rw [hnew, getOneTableInfo_rows _ (by decide) (by decide) rfl rfl
    (textOrdered_days rfl (by decide))] at hfound
  · exact absurd hfound (by decide)
  · intro slot hslot
    obtain ⟨hname, hfirst, hlast, horder⟩ := hdates slot hslot
    exact ⟨hname, hfirst, hlast, horder⟩

end Partition
