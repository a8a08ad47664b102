import BluekingDbm.Library.Padded

/-! Days of the Gregorian calendar, counted as MySQL's `TO_DAYS` does, and the texts of their
dates. -/
namespace Calendar

/-- A date, from year one on. -/
structure Date where
  year : ℕ
  month : ℕ
  day : ℕ
  deriving DecidableEq

def leap (year : ℕ) : Bool := year % 4 = 0 ∧ (year % 100 ≠ 0 ∨ year % 400 = 0)

/-- The days of a number of years. -/
def ofYears (years : ℕ) : ℕ := 365 * years + years / 4 - years / 100 + years / 400

/-- The days of a year before a month, and those of the whole year for a month behind the last. -/
def ofMonths (leap : Bool) (month : ℕ) : ℕ :=
  [0, 0, 31, 59, 90, 120, 151, 181, 212, 243, 273, 304, 334, 365].getD month 365 +
    if leap ∧ 2 < month then 1 else 0

/-- A date that there is. -/
structure Date.Valid (date : Date) : Prop where
  year : 1 ≤ date.year
  month : 1 ≤ date.month ∧ date.month ≤ 12
  day : 1 ≤ date.day ∧
    ofMonths (leap date.year) date.month + date.day ≤ ofMonths (leap date.year) (date.month + 1)

instance (date : Date) : Decidable date.Valid :=
  decidable_of_iff (1 ≤ date.year ∧ (1 ≤ date.month ∧ date.month ≤ 12) ∧ 1 ≤ date.day ∧
    ofMonths (leap date.year) date.month + date.day ≤ ofMonths (leap date.year) (date.month + 1))
    ⟨fun ⟨hyear, hmonth, hday⟩ => ⟨hyear, hmonth, hday⟩, fun h => ⟨h.year, h.month, h.day⟩⟩

/-- `TO_DAYS`. -/
def Date.toDays (date : Date) : ℕ :=
  365 + ofYears (date.year - 1) + ofMonths (leap date.year) date.month + date.day

/-- The first day of year one, and the last one of year 9999. -/
def firstDay : ℕ := 366
def lastDay : ℕ := 3652424

/-- The years before a day, counted from the first day on. -/
def yearsBefore (day : ℕ) : ℕ :=
  let years := 400 * day / 146097
  if day < ofYears years then years - 1
  else if ofYears (years + 1) ≤ day then years + 1
  else years

def monthAt (leap : Bool) (day : ℕ) : ℕ :=
  ((List.range' 1 12).filter fun month => ofMonths leap month ≤ day).length

/-- `FROM_DAYS`, from the first day on. -/
def ofDays (day : ℕ) : Date :=
  let years := yearsBefore (day - firstDay)
  let rest := day - firstDay - ofYears years
  let month := monthAt (leap (years + 1)) rest
  ⟨years + 1, month, rest - ofMonths (leap (years + 1)) month + 1⟩

/-- One date lies before another. -/
def Date.Before (a b : Date) : Prop :=
  a.year < b.year ∨ a.year = b.year ∧ (a.month < b.month ∨ a.month = b.month ∧ a.day < b.day)

section

variable {a b : Date} {day day' : ℕ}

/-- A quotient goes up with a multiple. -/
theorem div_succ (n k : ℕ) :
    (n + 1) % k = 0 ∧ (n + 1) / k = n / k + 1 ∨ (n + 1) % k ≠ 0 ∧ (n + 1) / k = n / k := by
  have hdiv := @Nat.succ_div n k
  by_cases hdvd : k ∣ n + 1
  · rw [if_pos hdvd] at hdiv
    exact Or.inl ⟨Nat.mod_eq_zero_of_dvd hdvd, hdiv⟩
  · rw [if_neg hdvd] at hdiv
    exact Or.inr ⟨fun hzero => hdvd (Nat.dvd_of_mod_eq_zero hzero), hdiv⟩

theorem ofYears_succ (years : ℕ) :
    ofYears (years + 1) = ofYears years + ofMonths (leap (years + 1)) 13 := by
  have hdays : ofMonths (leap (years + 1)) 13 = 365 + if leap (years + 1) then 1 else 0 := by
    simp [ofMonths]
  have hfour := div_succ years 4
  have hcentury := div_succ years 100
  have hfourth := div_succ years 400
  have hcenturies : years / 100 ≤ 365 * years := by omega
  rw [hdays, ofYears, ofYears]
  have hleap : leap (years + 1) = true ↔
      (years + 1) % 4 = 0 ∧ ((years + 1) % 100 ≠ 0 ∨ (years + 1) % 400 = 0) := by
    simp [leap]
  split
  · rename_i h
    have hrule := hleap.mp h
    omega
  · rename_i h
    have hrule := mt hleap.mpr h
    omega

theorem ofYears_le {m n : ℕ} (h : m ≤ n) : ofYears m ≤ ofYears n := by
  induction n, h using Nat.le_induction with
  | base => exact Nat.le_refl _
  | succ n _ ih =>
    rw [ofYears_succ]
    omega

theorem yearsBefore_spec (day : ℕ) :
    ofYears (yearsBefore day) ≤ day ∧ day < ofYears (yearsBefore day + 1) := by
  have hlow : ofYears (400 * day / 146097 - 1) ≤ day := by
    unfold ofYears
    omega
  have hhigh : day < ofYears (400 * day / 146097 + 2) := by
    unfold ofYears
    omega
  unfold yearsBefore
  dsimp only
  split
  · rename_i hlt
    have hpos : 400 * day / 146097 ≠ 0 := by
      intro hzero
      rw [hzero] at hlt
      exact absurd hlt (Nat.not_lt_zero day)
    have hsucc : 400 * day / 146097 - 1 + 1 = 400 * day / 146097 := by omega
    exact ⟨hlow, hsucc ▸ hlt⟩
  · split
    · rename_i hle
      exact ⟨hle, hhigh⟩
    · omega

theorem monthAt_spec : ∀ leap, ∀ day < ofMonths leap 13,
    (1 ≤ monthAt leap day ∧ monthAt leap day ≤ 12) ∧ ofMonths leap (monthAt leap day) ≤ day ∧
      day < ofMonths leap (monthAt leap day + 1) := by
  decide +kernel

theorem ofMonths_le : ∀ leap, ∀ month ≤ 13, ∀ month' ≤ 13, month ≤ month' →
    ofMonths leap month ≤ ofMonths leap month' := by
  decide

/-- The parts of a day from the first one on. -/
theorem ofDays_valid (h : firstDay ≤ day) : (ofDays day).Valid ∧ (ofDays day).toDays = day := by
  obtain ⟨hlow, hhigh⟩ := yearsBefore_spec (day - firstDay)
  rw [ofYears_succ] at hhigh
  obtain ⟨hmonth, hfrom, hto⟩ := monthAt_spec (leap (yearsBefore (day - firstDay) + 1))
    (day - firstDay - ofYears (yearsBefore (day - firstDay))) (by omega)
  unfold firstDay at *
  constructor
  · constructor
    · exact Nat.succ_pos _
    · exact hmonth
    · unfold ofDays firstDay
      dsimp only
      omega
  · unfold Date.toDays ofDays firstDay
    dsimp only
    rw [Nat.add_sub_cancel]
    omega

theorem toDays_lt (ha : a.Valid) (hb : b.Valid) (h : a.Before b) : a.toDays < b.toDays := by
  obtain ⟨hayear, hamonth, haday⟩ := ha
  obtain ⟨hbyear, hbmonth, hbday⟩ := hb
  unfold Date.toDays
  rcases h with hyear | ⟨hyear, hrest⟩
  · -- the whole of the earlier year lies between
    have hyears := ofYears_le (show a.year ≤ b.year - 1 by omega)
    have hsucc := ofYears_succ (a.year - 1)
    rw [Nat.sub_add_cancel hayear] at hsucc
    have hmonths := ofMonths_le (leap a.year) (a.month + 1) (by omega) 13 (by omega) (by omega)
    omega
  · rw [hyear] at haday ⊢
    rcases hrest with hmonth | ⟨hmonth, hday⟩
    · have hmonths := ofMonths_le (leap b.year) (a.month + 1) (by omega) b.month (by omega)
        (by omega)
      omega
    · rw [hmonth]
      omega

theorem before_total (a b : Date) : a.Before b ∨ a = b ∨ b.Before a := by
  obtain ⟨ay, am, ad⟩ := a
  obtain ⟨by', bm, bd⟩ := b
  simp only [Date.Before, Date.mk.injEq]
  omega

/-- Dates are ordered as their days. -/
theorem ofDays_before (h : firstDay ≤ day) (h' : firstDay ≤ day') :
    (ofDays day).Before (ofDays day') ↔ day < day' := by
  obtain ⟨hvalid, hdays⟩ := ofDays_valid h
  obtain ⟨hvalid', hdays'⟩ := ofDays_valid h'
  constructor
  · intro hbefore
    have hlt := toDays_lt hvalid hvalid' hbefore
    omega
  · intro hlt
    rcases before_total (ofDays day) (ofDays day') with hbefore | heq | hbehind
    · exact hbefore
    · rw [heq] at hdays
      omega
    · have hgt := toDays_lt hvalid' hvalid hbehind
      omega

/-- A day of a year that is written with four digits. -/
def Dated (day : ℕ) : Prop := firstDay ≤ day ∧ day ≤ lastDay

instance (day : ℕ) : Decidable (Dated day) := inferInstanceAs (Decidable (_ ∧ _))

theorem Dated.parts (h : Dated day) :
    (ofDays day).year < 10 ^ 4 ∧ (ofDays day).month < 10 ^ 2 ∧ (ofDays day).day < 10 ^ 2 := by
  obtain ⟨hvalid, hdays⟩ := ofDays_valid h.1
  obtain ⟨hyear, hmonth, hday⟩ := hvalid
  have hlength : ∀ leap, ∀ month ≤ 12, ofMonths leap (month + 1) ≤ ofMonths leap month + 31 := by
    decide
  have hmonths := hlength (leap (ofDays day).year) (ofDays day).month (by omega)
  refine ⟨?_, by omega, by omega⟩
  by_contra hlate
  have hyears := ofYears_le (show 9999 ≤ (ofDays day).year - 1 by omega)
  have hall : ofYears 9999 = 3652059 := by decide
  have hle := h.2
  unfold lastDay at hle
  unfold Date.toDays at hdays
  omega

end

/-- Go's layout `20060102`, and MySQL's `%Y%m%d`. -/
def Date.basic (date : Date) : List Char :=
  Padded.digits 4 date.year ++ (Padded.digits 2 date.month ++ Padded.digits 2 date.day)

/-- Go's layout `2006-01-02`, and MySQL's `%Y-%m-%d`. -/
def Date.dashed (date : Date) : List Char :=
  Padded.digits 4 date.year ++ '-' :: (Padded.digits 2 date.month ++ '-' :: Padded.digits 2 date.day)

/-- The day of a date that is read from its digits. -/
def parts (year month day : List Char) : Option ℕ :=
  let date : Date :=
    ⟨Nat.ofDigitChars 10 year 0, Nat.ofDigitChars 10 month 0, Nat.ofDigitChars 10 day 0⟩
  if (year ++ month ++ day).all Char.isDigit ∧ date.Valid then some date.toDays else none

/-- `time.Parse` with the layout `20060102`. -/
def parseBasic (text : List Char) : Option ℕ :=
  if text.length = 8 then parts (text.take 4) ((text.drop 4).take 2) (text.drop 6) else none

/-- A text of the layout `2006-01-02`, read as a date. -/
def parseDashed (text : List Char) : Option ℕ :=
  if text.length = 10 ∧ text[4]? = some '-' ∧ text[7]? = some '-' then
    parts (text.take 4) ((text.drop 5).take 2) (text.drop 8)
  else none

section

variable {day day' : ℕ}

theorem Dated.lengths (h : Dated day) : (Padded.digits 4 (ofDays day).year).length = 4 ∧
    (Padded.digits 2 (ofDays day).month).length = 2 ∧
    (Padded.digits 2 (ofDays day).day).length = 2 := by
  obtain ⟨hyear, hmonth, hday⟩ := h.parts
  exact ⟨Padded.length_digits (by omega) hyear, Padded.length_digits (by omega) hmonth,
    Padded.length_digits (by omega) hday⟩

/-- A year of five digits makes its dates longer. -/
theorem dated_of_length (h : firstDay ≤ day) (hlength : (ofDays day).basic.length = 8) :
    Dated day := by
  refine ⟨h, ?_⟩
  by_contra hlate
  obtain ⟨hvalid, hdays⟩ := ofDays_valid h
  obtain ⟨hyear, hmonth, hday⟩ := hvalid
  have hwidth : ∀ w n, w ≤ (Padded.digits w n).length := by
    intro w n
    rw [Padded.digits, List.length_append, List.length_replicate, String.length_toList]
    omega
  have hfive : 5 ≤ (Padded.digits 4 (ofDays day).year).length := by
    have hrepr : ¬ (ofDays day).year.repr.length ≤ 4 := by
      rw [Nat.length_repr_le_iff (by omega)]
      intro hsmall
      apply hlate
      have hyears := ofYears_le (show (ofDays day).year - 1 ≤ 9998 by omega)
      have hall : ofYears 9999 = 3652059 := by decide
      have hsucc := ofYears_succ ((ofDays day).year - 1)
      rw [Nat.sub_add_cancel hyear] at hsucc
      have hmonths := ofMonths_le (leap (ofDays day).year) ((ofDays day).month + 1) (by omega) 13
        (by omega) (by omega)
      have hmore := ofYears_le (show (ofDays day).year ≤ 9999 by omega)
      unfold lastDay
      unfold Date.toDays at hdays
      omega
    rw [Padded.digits, List.length_append, List.length_replicate, String.length_toList]
    omega
  have hmonth2 := hwidth 2 (ofDays day).month
  have hday2 := hwidth 2 (ofDays day).day
  rw [Date.basic, List.length_append, List.length_append] at hlength
  omega

theorem parts_ofDays (h : Dated day) : parts (Padded.digits 4 (ofDays day).year)
    (Padded.digits 2 (ofDays day).month) (Padded.digits 2 (ofDays day).day) = some day := by
  obtain ⟨hvalid, hdays⟩ := ofDays_valid h.1
  have hall : (Padded.digits 4 (ofDays day).year ++ Padded.digits 2 (ofDays day).month ++
      Padded.digits 2 (ofDays day).day).all Char.isDigit = true := by
    rw [List.all_eq_true]
    intro c hc
    rcases List.mem_append.mp hc with hc | hc
    · rcases List.mem_append.mp hc with hc | hc <;> exact Padded.digits_isDigit hc
    · exact Padded.digits_isDigit hc
  unfold parts
  simp only [Padded.ofDigitChars_digits]
  rw [if_pos ⟨hall, hvalid⟩, hdays]

theorem parseBasic_basic (h : Dated day) : parseBasic (ofDays day).basic = some day := by
  obtain ⟨hyear, hmonth, hday⟩ := h.lengths
  have hparts := parts_ofDays h
  unfold parseBasic Date.basic
  generalize Padded.digits 4 (ofDays day).year = year at *
  generalize Padded.digits 2 (ofDays day).month = month at *
  generalize Padded.digits 2 (ofDays day).day = rest at *
  have hdrop : year.drop 6 = [] := List.drop_eq_nil_of_le (by omega)
  rw [if_pos (by simp [hyear, hmonth, hday])]
  simpa [List.take_append, List.drop_append, hyear, hmonth, hday, hdrop] using hparts

theorem parseDashed_dashed (h : Dated day) : parseDashed (ofDays day).dashed = some day := by
  obtain ⟨hyear, hmonth, hday⟩ := h.lengths
  have hparts := parts_ofDays h
  unfold parseDashed Date.dashed
  generalize Padded.digits 4 (ofDays day).year = year at *
  generalize Padded.digits 2 (ofDays day).month = month at *
  generalize Padded.digits 2 (ofDays day).day = rest at *
  have hdrop : year.drop 5 = [] ∧ year.drop 8 = [] ∧ month.drop 3 = [] :=
    ⟨List.drop_eq_nil_of_le (by omega), List.drop_eq_nil_of_le (by omega),
      List.drop_eq_nil_of_le (by omega)⟩
  rw [if_pos (by simp [hyear, hmonth, hday])]
  simpa [List.take_append, List.drop_append, hyear, hmonth, hday, hdrop] using hparts

/-- The texts of dates are ordered as the days. -/
theorem basic_lt_iff (h : Dated day) (h' : Dated day') :
    (ofDays day).basic < (ofDays day').basic ↔ day < day' := by
  obtain ⟨hyear, hmonth, hday⟩ := h.parts
  obtain ⟨hyear', hmonth', hday'⟩ := h'.parts
  obtain ⟨hlen, hlenMonth, -⟩ := h.lengths
  obtain ⟨hlen', hlenMonth', -⟩ := h'.lengths
  rw [← ofDays_before h.1 h'.1, Date.basic, Date.basic,
    Padded.append_lt_append_iff (hlen.trans hlen'.symm),
    Padded.append_lt_append_iff (hlenMonth.trans hlenMonth'.symm),
    Padded.digits_lt_iff (by omega) hyear hyear', Padded.digits_lt_iff (by omega) hmonth hmonth',
    Padded.digits_lt_iff (by omega) hday hday']
  have hiff : ∀ {w m n : ℕ}, Padded.digits w m = Padded.digits w n ↔ m = n :=
    ⟨Padded.digits_injective, fun heq => heq ▸ rfl⟩
  rw [hiff, hiff]
  exact Iff.rfl

theorem dashed_lt_iff (h : Dated day) (h' : Dated day') :
    (ofDays day).dashed < (ofDays day').dashed ↔ day < day' := by
  obtain ⟨hyear, hmonth, hday⟩ := h.parts
  obtain ⟨hyear', hmonth', hday'⟩ := h'.parts
  obtain ⟨hlen, hlenMonth, -⟩ := h.lengths
  obtain ⟨hlen', hlenMonth', -⟩ := h'.lengths
  have hdash : ∀ cs ds : List Char, '-' :: cs < '-' :: ds ↔ cs < ds := by
    intro cs ds
    simp
  rw [← ofDays_before h.1 h'.1, Date.dashed, Date.dashed,
    Padded.append_lt_append_iff (hlen.trans hlen'.symm), hdash,
    Padded.append_lt_append_iff (hlenMonth.trans hlenMonth'.symm), hdash,
    Padded.digits_lt_iff (by omega) hyear hyear', Padded.digits_lt_iff (by omega) hmonth hmonth',
    Padded.digits_lt_iff (by omega) hday hday']
  have hiff : ∀ {w m n : ℕ}, Padded.digits w m = Padded.digits w n ↔ m = n :=
    ⟨Padded.digits_injective, fun heq => heq ▸ rfl⟩
  rw [hiff, hiff]
  exact Iff.rfl

end

example : (Date.mk 1970 1 1).toDays = 719528 := by decide
example : (Date.mk 9999 12 31).toDays = lastDay := by decide
example : ofDays 739251 = ⟨2024, 1, 1⟩ := by decide

end Calendar
