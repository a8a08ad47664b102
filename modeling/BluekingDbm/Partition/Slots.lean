import BluekingDbm.Partition.Statement

/-! Partitions as pairs of days: what the texts of the database and of the service say about them. -/
namespace Partition

open Calendar

/-- The day that names a partition, and the day of its bound. -/
structure Slot where
  name : ℕ
  bound : ℕ
  deriving DecidableEq

def Slot.row (config : PartitionConfig) (slot : Slot) : Row :=
  ⟨"p" ++ format slot.name, description config slot.bound⟩

/-- The dates have four digits for their years, with a day left at both ends, and the bound lies
behind the name. -/
structure Slot.Sound (config : PartitionConfig) (slot : Slot) : Prop where
  name : firstDay ≤ slot.name
  first : firstDay < slot.bound
  last : slot.bound < lastDay
  order : slot.name + initDiff config ≤ slot.bound

theorem Slot.Sound.bound {config : PartitionConfig} {slot : Slot} (h : slot.Sound config) :
    Dated slot.bound :=
  ⟨Nat.le_of_lt h.first, Nat.le_of_lt h.last⟩

theorem Slot.Sound.dated {config : PartitionConfig} {slot : Slot} (h : slot.Sound config) :
    Dated slot.name := by
  have horder := h.order
  have hlast := h.last
  exact ⟨h.name, by omega⟩

/-- The partitions are lists of one day, and not ranges. -/
def Lists (config : PartitionConfig) : Prop :=
  config.partitionType = .type1 ∨ config.partitionType = .type3

instance (config : PartitionConfig) : Decidable (Lists config) := inferInstanceAs (Decidable (_ ∨ _))

/-- The lowest bound that holds rows of today. -/
def firstBound (config : PartitionConfig) (now : ℕ) : ℕ := if Lists config then now else now + 1

/-- The days that are kept behind today. -/
def keptDays (config : PartitionConfig) : ℕ :=
  config.reservedPartition * config.partitionTimeInterval + if Lists config then 1 else 0

section

variable {config : PartitionConfig} {a b day now n second : ℕ} {slot other : Slot} {z : ℤ}

theorem ofList_lt {cs ds : List Char} : String.ofList cs < String.ofList ds ↔ cs < ds := by
  rw [String.lt_iff, String.toList_ofList, String.toList_ofList]

theorem format_lt (ha : Dated a) (hb : Dated b) : format a < format b ↔ a < b :=
  ofList_lt.trans (basic_lt_iff ha hb)

theorem format_le (ha : Dated a) (hb : Dated b) : format a ≤ format b ↔ a ≤ b := by
  rw [← not_lt, format_lt hb ha, Nat.not_lt]

theorem quoted_lt (ha : Dated a) (hb : Dated b) : quoted a < quoted b ↔ a < b := by
  have hlength : ∀ {day : ℕ}, Dated day → (ofDays day).dashed.length = 10 := by
    intro day h
    obtain ⟨hyear, hmonth, hday⟩ := h.lengths
    simp [Date.dashed, hyear, hmonth, hday]
  rw [quoted, quoted, ofList_lt, List.cons_lt_cons_iff,
    Padded.append_lt_append_iff ((hlength ha).trans (hlength hb).symm), dashed_lt_iff ha hb]
  simp

theorem quoted_le (ha : Dated a) (hb : Dated b) : quoted a ≤ quoted b ↔ a ≤ b := by
  rw [← not_lt, quoted_lt hb ha, Nat.not_lt]

theorem format_digits (ha : Dated a) :
    (ofDays a).basic.length = 8 ∧ ∀ c ∈ (ofDays a).basic, c.isDigit = true := by
  obtain ⟨hyear, hmonth, hday⟩ := ha.lengths
  refine ⟨by simp [Date.basic, hyear, hmonth, hday], ?_⟩
  intro c hc
  rcases List.mem_append.mp hc with hc | hc
  · exact Padded.digits_isDigit hc
  · rcases List.mem_append.mp hc with hc | hc <;> exact Padded.digits_isDigit hc

theorem parseName_format (ha : Dated a) : parseName (format a) = some a := by
  rw [parseName, format, String.toList_ofList, parseBasic_basic ha]

theorem format_injective (ha : Dated a) (hb : Dated b) (h : format a = format b) : a = b := by
  have hparse := congrArg parseName h
  rw [parseName_format ha, parseName_format hb] at hparse
  exact Option.some.inj hparse

theorem name_toList (a : ℕ) : ("p" ++ format a).toList = 'p' :: (ofDays a).basic := by
  have hp : "p".toList = ['p'] := rfl
  rw [String.toList_append, hp, List.singleton_append, format, String.toList_ofList]

theorem trimPrefix_name (a : ℕ) : trimPrefix ("p" ++ format a) = format a := by
  rw [trimPrefix, name_toList]
  rfl

theorem matchString_name (ha : Dated a) : matchString ("p" ++ format a) = true := by
  obtain ⟨hlength, hdigits⟩ := format_digits ha
  rw [matchString, name_toList]
  exact decide_eq_true ⟨hlength, List.all_eq_true.mpr hdigits⟩

theorem name_injective (ha : firstDay ≤ a) (hb : Dated b)
    (h : "p" ++ format a = "p" ++ format b) : a = b := by
  have htrim := congrArg trimPrefix h
  rw [trimPrefix_name, trimPrefix_name] at htrim
  have hlength := congrArg String.toList htrim
  rw [format, format, String.toList_ofList, String.toList_ofList] at hlength
  have height : (ofDays a).basic.length = 8 := by
    rw [hlength]
    exact (format_digits hb).1
  exact format_injective (dated_of_length ha height) hb htrim

/-- A date read as a number. -/
theorem value_format (ha : Dated a) :
    value (format a) = (Nat.ofDigitChars 10 (ofDays a).basic 0 : ℕ) := by
  obtain ⟨hlength, hdigits⟩ := format_digits ha
  have hlt := Padded.ofDigitChars_lt hdigits
  have hne : (ofDays a).basic ≠ [] := by
    intro hnil
    rw [hnil] at hlength
    cases hlength
  have hread : Numeral.digits (ofDays a).basic = some (Nat.ofDigitChars 10 (ofDays a).basic 0) :=
    if_pos ⟨hne, List.all_eq_true.mpr hdigits⟩
  have hbound : Nat.ofDigitChars 10 (ofDays a).basic 0 < 2 ^ 63 := by
    rw [hlength] at hlt
    omega
  have hlist : (format a).toList = (ofDays a).basic := String.toList_ofList
  have hsign : ∀ c, c = '-' ∨ c = '+' → ∀ cs, (format a).toList ≠ c :: cs := by
    intro c hc cs
    exact Numeral.no_sign (by rwa [hlist]) hc cs
  unfold value Numeral.atoi
  split
  · rename_i cs hcs
    exact absurd hcs (hsign '-' (Or.inl rfl) cs)
  · rename_i cs hcs
    exact absurd hcs (hsign '+' (Or.inr rfl) cs)
  · rw [hlist, hread, Option.bind_some, if_pos hbound]
    rfl

theorem value_format_lt (ha : Dated a) (hb : Dated b) :
    value (format a) < value (format b) ↔ a < b := by
  obtain ⟨hlength, hdigits⟩ := format_digits ha
  obtain ⟨hlength', hdigits'⟩ := format_digits hb
  rw [value_format ha, value_format hb, Int.ofNat_lt,
    ← Padded.lt_iff_ofDigitChars_lt (hlength.trans hlength'.symm) hdigits hdigits',
    basic_lt_iff ha hb]

theorem value_format_inj (ha : Dated a) (hb : Dated b) :
    value (format a) = value (format b) ↔ a = b := by
  constructor
  · intro heq
    have hlt := value_format_lt ha hb
    have hgt := value_format_lt hb ha
    omega
  · exact fun heq => heq ▸ rfl

theorem value_decimal (hlow : -2 ^ 63 ≤ z) (hhigh : z < 2 ^ 63) : value (Text.decimal z) = z := by
  rw [value, Numeral.atoi_decimal hlow hhigh]
  rfl

theorem value_day (ha : a ≤ lastDay) : value (Text.decimal a) = a := by
  unfold lastDay at ha
  apply value_decimal <;> omega

theorem value_timestamp (zone : Zone) (ha : a ≤ lastDay) :
    value (Text.decimal (unixTimestamp zone a)) = unixTimestamp zone a := by
  obtain ⟨hlow, hhigh⟩ := zone.2
  unfold lastDay at ha
  unfold unixTimestamp
  apply value_decimal <;> omega

theorem fromUnixtime_timestamp (zone : Zone) (a : ℕ) :
    fromUnixtime zone (unixTimestamp zone a) = a := by
  unfold fromUnixtime unixTimestamp
  omega

theorem reachesToday_row (h : slot.Sound config) (hnow : Dated now) (hnext : Dated (now + 1)) :
    ReachesToday config now (slot.row config) ↔ firstBound config now ≤ slot.bound := by
  have hlast := h.bound.2
  unfold ReachesToday firstBound Lists Slot.row description diffOneDay
  obtain ⟨column, partitionType, interval, reserved, extra, zone⟩ := config
  cases partitionType <;> simp only [reduceCtorEq, or_self, or_true, true_or, if_true, if_false]
  · rw [value_day hlast]
    omega
  · rw [value_day hlast]
    omega
  · exact format_le hnow h.bound
  · exact quoted_le hnext h.bound
  · rw [value_timestamp zone hlast]
    unfold unixTimestamp
    omega
  · exact format_le hnext h.bound

theorem expired_row (h : slot.Sound config) (hnow : Dated now) :
    Expired config now (slot.row config) ↔ slot.bound + keptDays config < now := by
  have hlast := h.bound.2
  have hfirst := h.first
  -- where the date lies before the first day, nothing does
  have hdate : ∀ {days : ℕ} (p : ℕ → Prop), (∀ day, Dated day → (p day ↔ slot.bound < day)) →
      ((∃ day ∈ dateSub now days, p day) ↔ slot.bound + days < now) := by
    intro days p hp
    unfold dateSub
    have hend := hnow.2
    constructor
    · rintro ⟨day, hday, hlt⟩
      split at hday
      · obtain rfl := Option.some.inj hday
        have hless := (hp _ ⟨by omega, by omega⟩).mp hlt
        omega
      · cases hday
    · intro hlt
      refine ⟨now - days, ?_, (hp _ ⟨by omega, by omega⟩).mpr (by omega)⟩
      rw [if_pos (by omega)]
      rfl
  unfold Expired keptDays Lists Slot.row description diffOneDay
  obtain ⟨column, partitionType, interval, reserved, extra, zone⟩ := config
  cases partitionType <;> simp only [reduceCtorEq, or_self, or_true, true_or, if_true, if_false, Nat.add_sub_cancel]
  · rw [value_day hlast]
    omega
  · rw [value_day hlast]
    omega
  · exact hdate _ fun day hday => format_lt h.bound hday
  · exact hdate _ fun day hday => quoted_lt h.bound hday
  · rw [value_timestamp zone hlast]
    unfold unixTimestamp
    omega
  · exact hdate _ fun day hday => format_lt h.bound hday

theorem holds_row (h : slot.Sound config) (hday : Dated day) (hsecond : second < 86400) :
    Holds config (slot.row config) day second ↔
      if Lists config then day = slot.bound else day < slot.bound := by
  have hlast := h.bound.2
  unfold Holds Lists Slot.row description
  obtain ⟨column, partitionType, interval, reserved, extra, zone⟩ := config
  cases partitionType <;> simp only [reduceCtorEq, or_self, or_true, true_or, if_true, if_false]
  · rw [value_day hlast, Int.ofNat_lt]
  · rw [value_day hlast, Int.ofNat_inj]
  · exact value_format_inj hday h.bound
  · exact quoted_lt hday h.bound
  · rw [value_timestamp zone hlast]
    unfold unixTimestamp
    omega
  · exact value_format_lt hday h.bound

theorem follows_row (h : slot.Sound config) (h' : other.Sound config) :
    Follows config (slot.row config) (other.row config) ↔
      if Lists config then slot.bound ≠ other.bound else slot.bound < other.bound := by
  have hlast := h.bound.2
  have hlast' := h'.bound.2
  unfold Follows Lists Slot.row description
  obtain ⟨column, partitionType, interval, reserved, extra, zone⟩ := config
  cases partitionType <;> simp only [reduceCtorEq, or_self, or_true, true_or, if_true, if_false]
  · rw [value_day hlast, value_day hlast', Int.ofNat_lt]
  · rw [value_day hlast, value_day hlast', ne_eq, Int.ofNat_inj]
  · rw [ne_eq, value_format_inj h.bound h'.bound]
  · exact quoted_lt h.bound h'.bound
  · rw [value_timestamp zone hlast, value_timestamp zone hlast']
    unfold unixTimestamp
    omega
  · exact value_format_lt h.bound h'.bound

theorem wantedName_row (h : slot.Sound config) :
    wantedName config (slot.row config) = some (format (slot.bound - initDiff config)) := by
  have hlast := h.bound.2
  have hfirst := h.first
  unfold wantedName initDiff Slot.row description diffOneDay
  obtain ⟨column, partitionType, interval, reserved, extra, zone⟩ := config
  cases partitionType <;> simp only [Nat.sub_zero]
  · rw [value_day hlast]
    congr 2
    omega
  · rw [value_day hlast]
    congr 2
  · have hdashed : (quoted slot.bound).toList.filter (· ≠ '\'') = (ofDays slot.bound).dashed := by
      have hall : ∀ c ∈ (ofDays slot.bound).dashed, decide (c ≠ '\'') = true := by
        intro c hc
        have hdigit : c.isDigit = true ∨ c = '-' := by
          rcases List.mem_append.mp hc with hc | hc
          · exact Or.inl (Padded.digits_isDigit hc)
          · rcases List.mem_cons.mp hc with rfl | hc
            · exact Or.inr rfl
            · rcases List.mem_append.mp hc with hc | hc
              · exact Or.inl (Padded.digits_isDigit hc)
              · rcases List.mem_cons.mp hc with rfl | hc
                · exact Or.inr rfl
                · exact Or.inl (Padded.digits_isDigit hc)
        have hne : c ≠ '\'' := by
          rintro rfl
          exact absurd hdigit (by decide)
        exact decide_eq_true hne
      rw [quoted, String.toList_ofList, List.filter_cons_of_neg (by decide), List.filter_append,
        List.filter_eq_self.mpr hall, List.filter_cons_of_neg (by decide), List.filter_nil,
        List.append_nil]
    rw [hdashed, parseDashed_dashed h.bound]
    rfl
  · rw [value_timestamp zone hlast, fromUnixtime_timestamp]

end

end Partition
