import BluekingDbm.Config.RangeText
import BluekingDbm.Config.ValidationPanic

/-! Which range checks of integers and sizes give the answer of the exact numbers. -/
namespace Config

open Binary32 (rounded rounded_mono rounded_zero)
open FloatText Panicking Text

inductive SizeUnit
  | b
  | k
  | m
  | g
  deriving DecidableEq

namespace SizeUnit

def factor : SizeUnit → ℕ
  | b => 1
  | k => 2 ^ 10
  | m => 2 ^ 20
  | g => 2 ^ 30

def suffix : SizeUnit → List Char
  | b => []
  | k => ['k']
  | m => ['m']
  | g => ['g']

end SizeUnit

/-- A number with its unit, which is left out for bytes. -/
structure Size where
  number : ℕ
  unit : SizeUnit

namespace Size

def text (s : Size) : String := String.ofList (s.number.repr.toList ++ s.unit.suffix)

def bytes (s : Size) : ℤ := s.number * s.unit.factor

/-- What the size is taken for in a range. -/
def taken (s : Size) : ℤ := if s.bytes < 2 ^ 63 then s.bytes else 0

end Size

/-- `cast` on decimal texts and on numbers. -/
structure Casts (env : Packages) : Prop where
  toInt64E : ∀ n : ℕ, env.toInt64E n.repr = if n < 2 ^ 63 then some (n : ℤ) else none
  toString : ∀ n : ℤ, env.toString n = decimal n

variable {env : Packages} {bound : Char × Char} {s l r : Size} {pad n : ℕ} {a b v : ℤ}

section Sizes

theorem Size.toList_text (s : Size) : s.text.toList = s.number.repr.toList ++ s.unit.suffix :=
  String.toList_ofList

theorem Size.mem_text {c : Char} (h : c ∈ s.text.toList) : c.isDigit = true ∨ c ∈ ['k', 'm', 'g'] := by
  rw [Size.toList_text] at h
  rcases List.mem_append.mp h with h | h
  · exact .inl (repr_isDigit h)
  · right
    revert h
    cases s.unit with
    | b => simp [SizeUnit.suffix]
    | k => exact fun h => List.mem_cons.mpr (.inl (List.mem_singleton.mp h))
    | m => exact fun h => by simp [List.mem_singleton.mp h]
    | g => exact fun h => by simp [List.mem_singleton.mp h]

theorem boundText_size (s : Size) : BoundText s.text where
  nonempty := by
    rw [Size.toList_text]
    exact List.append_ne_nil_of_left_ne_nil (repr_ne_nil _) _
  noComma h := absurd (Size.mem_text h) (by decide)
  noBlank h := absurd (Size.mem_text h) (by decide)
  noNewline h := absurd (Size.mem_text h) (by decide)

theorem Size.not_isSpace {c : Char} (h : c ∈ s.text.toList) : isSpace c = false := by
  rcases Size.mem_text h with h | h
  · exact isSpace_of_isDigit h
  · simp only [List.mem_cons, List.not_mem_nil, or_false] at h
    rcases h with rfl | rfl | rfl
    · rfl
    · rfl
    · rfl

theorem index_append {α ε : Type} (xs ys : List α) (x : α) :
    (index (xs ++ x :: ys) xs.length : Panicking ε α) = .done x := by
  unfold index
  rw [if_pos (Int.natCast_nonneg _), Int.toNat_natCast, List.getElem?_append_right le_rfl,
    Nat.sub_self]
  rfl

theorem trimmed_digits (n : ℕ) : trimmed n.repr.toList = n.repr := by
  rw [trimmed, String.ofList_toList]
  exact trimSpace_eq fun c hc => isSpace_of_isDigit (repr_isDigit hc)

theorem trimSuffixB_append (xs : List Char) : trimSuffixB (xs ++ ['b']) = xs := by
  unfold trimSuffixB
  rw [List.getLast?_concat, if_pos rfl, List.dropLast_concat]

/-- The character before the `b` decides. -/
theorem sizeParts_append {ds : List Char} (x : Char) (hds : ds ≠ []) :
    sizeParts (ds ++ [x] ++ ['b']) =
      match lower x with
      | 'k' => .done (2 ^ 10, trimmed ds)
      | 'm' => .done (2 ^ 20, trimmed ds)
      | 'g' => .done (2 ^ 30, trimmed ds)
      | _ => .done (1, trimmed (ds ++ [x])) := by
  have hpos := List.length_pos_iff.mpr hds
  have hlast : ((ds ++ [x] ++ ['b']).length : ℤ) - 1 = (ds ++ [x]).length := by
    rw [List.length_append, List.length_singleton]
    omega
  have hbefore : ((ds ++ [x]).length : ℤ) - 1 = ds.length := by
    rw [List.length_append, List.length_singleton]
    omega
  have hb : (index (ds ++ [x] ++ ['b']) (ds ++ [x]).length : Check Char) = .done 'b' :=
    index_append (ds ++ [x]) [] 'b'
  have hx : (index (ds ++ [x] ++ ['b']) ds.length : Check Char) = .done x := by
    rw [List.append_assoc]
    exact index_append ds ['b'] x
  have htake : (ds ++ [x] ++ ['b']).take ((ds.length : ℤ)).toNat = ds := by
    rw [Int.toNat_natCast, List.append_assoc, List.take_left']
    rfl
  have hlong : (1 : ℤ) < (ds ++ [x]).length := by
    rw [List.length_append, List.length_singleton]
    omega
  unfold sizeParts
  rw [hlast]
  dsimp only
  rw [if_pos (by omega), hb, done_bind, if_pos (.inl rfl), if_pos hlong, hbefore, hx, done_bind, htake,
    trimSuffixB_append]
  rfl

/-- One digit has no unit before the `b`. -/
theorem sizeParts_digit (d : Char) : sizeParts ([d] ++ ['b']) = .done (1, trimmed [d]) := by
  have hb : (index ([d] ++ ['b']) 1 : Check Char) = .done 'b' := index_append [d] [] 'b'
  unfold sizeParts
  dsimp only
  rw [if_pos (by simp)]
  change (index ([d] ++ ['b']) 1 >>= _) = _
  rw [hb, done_bind, if_pos (.inl rfl), if_neg (by simp), trimSuffixB_append]
  rfl

theorem lower_digit_ne {d : Char} (h : d.isDigit = true) : lower d ∉ ['k', 'm', 'g'] := by
  rw [lower_of_isDigit h]
  intro hmem
  simp only [List.mem_cons, List.not_mem_nil, or_false] at hmem
  rcases hmem with rfl | rfl | rfl
  · exact absurd h (by decide)
  · exact absurd h (by decide)
  · exact absurd h (by decide)

theorem sizeParts_digits {ds : List Char} (hne : ds ≠ []) (h : ∀ d ∈ ds, d.isDigit = true) :
    sizeParts (ds ++ ['b']) = .done (1, trimmed ds) := by
  obtain ⟨front, d, rfl⟩ := List.eq_nil_or_concat ds |>.resolve_left hne
  rw [List.concat_eq_append] at h ⊢
  cases front with
  | nil => exact sizeParts_digit d
  | cons c front =>
    have hd := lower_digit_ne (h d (List.mem_append_right _ List.mem_cons_self))
    rw [sizeParts_append d (List.cons_ne_nil c front)]
    split
    · rename_i hk
      exact absurd (by rw [hk]; decide) hd
    · rename_i hm
      exact absurd (by rw [hm]; decide) hd
    · rename_i hg
      exact absurd (by rw [hg]; decide) hd
    · rfl

/-- The unit is taken off. -/
theorem sizeParts_text (s : Size) :
    sizeParts (s.text.toList ++ ['b']) = .done ((s.unit.factor : ℤ), s.number.repr) := by
  have hne := repr_ne_nil s.number
  have hnumber := trimmed_digits s.number
  rw [Size.toList_text]
  cases hunit : s.unit with
  | b =>
    have hparts := sizeParts_digits hne fun c hc => repr_isDigit hc
    rw [hnumber] at hparts
    simpa [SizeUnit.suffix, SizeUnit.factor] using hparts
  | k =>
    have hparts := sizeParts_append 'k' hne
    have hlower : lower 'k' = 'k' := by decide
    rw [hlower, hnumber] at hparts
    simpa [SizeUnit.suffix, SizeUnit.factor] using hparts
  | m =>
    have hparts := sizeParts_append 'm' hne
    have hlower : lower 'm' = 'm' := by decide
    rw [hlower, hnumber] at hparts
    simpa [SizeUnit.suffix, SizeUnit.factor] using hparts
  | g =>
    have hparts := sizeParts_append 'g' hne
    have hlower : lower 'g' = 'g' := by decide
    rw [hlower, hnumber] at hparts
    simpa [SizeUnit.suffix, SizeUnit.factor] using hparts

/-- A product that does not fit is taken for zero. -/
theorem safeMul_eq {a b : ℤ} (ha : 0 ≤ a) (hafit : a < 2 ^ 63) (hb : 1 ≤ b) (hbfit : b < 2 ^ 63) :
    safeMul a b = if a * b < 2 ^ 63 then a * b else 0 := by
  have hnonneg : 0 ≤ a * b := mul_nonneg ha (by omega)
  unfold safeMul
  dsimp only
  by_cases hfit : a * b < 2 ^ 63
  · have hwrapped : wrapped (a * b) = a * b := Int.bmod_eq_of_le (by omega) (by omega)
    rw [if_pos hfit, hwrapped, Int.mul_tdiv_cancel a (by omega)]
    exact if_neg fun h => h.2.2 rfl
  · rw [if_neg hfit]
    have ha1 : 1 < a := by
      by_contra hle
      have hone : a * b ≤ 1 * b := mul_le_mul_of_nonneg_right (by omega) (by omega)
      omega
    have hb1 : 1 < b := by
      by_contra hle
      have hone : b = 1 := by omega
      rw [hone, mul_one] at hfit
      exact hfit hafit
    apply if_pos
    refine ⟨ha1, hb1, fun hdiv => ?_⟩
    -- the wrapped product is below 2 ^ 63, the exact one is not
    have hsmall : wrapped (a * b) < 2 ^ 63 := by
      have hlt : (a * b).bmod (2 ^ 64) < ((2 ^ 64 : ℕ) + 1) / 2 := Int.bmod_lt (by norm_num)
      unfold wrapped
      omega
    have hmod := Int.mul_tdiv_add_tmod (wrapped (a * b)) b
    rw [hdiv, mul_comm] at hmod
    by_cases hneg : 0 ≤ wrapped (a * b)
    · have hrest := Int.tmod_nonneg b hneg
      omega
    · have hrest : -b < (wrapped (a * b)).tmod b := by
        have hlt := Int.lt_tmod_of_pos (wrapped (a * b)) (by omega : 0 < b)
        omega
      omega

theorem Size.factor_bounds (u : SizeUnit) : (1 : ℤ) ≤ u.factor ∧ (u.factor : ℤ) < 2 ^ 63 := by
  cases u with
  | b => decide
  | k => decide
  | m => decide
  | g => decide

theorem Size.bytes_nonneg (s : Size) : 0 ≤ s.bytes :=
  mul_nonneg (Int.natCast_nonneg _) (Int.natCast_nonneg _)

theorem Size.number_le_bytes (s : Size) : (s.number : ℤ) ≤ s.bytes :=
  le_mul_of_one_le_right (Int.natCast_nonneg _) (Size.factor_bounds s.unit).1

theorem parseSizeInBytesE_text (hcast : Casts env) (s : Size) :
    parseSizeInBytesE env s.text =
      if s.number < 2 ^ 63 then .done s.taken else .failed (.sizeSyntax s.number.repr) := by
  have hne : s.text.toList ≠ [] := (boundText_size s).nonempty
  have hpos := List.length_pos_iff.mpr hne
  have htrim : trimSpace s.text = s.text := trimSpace_eq fun c hc => Size.not_isSpace hc
  unfold parseSizeInBytesE
  rw [htrim]
  dsimp only
  rw [index_of_lt (by omega) (by omega), done_bind]
  have hlast : ∀ c ∈ s.text.toList, lower c ≠ 'b' := by
    intro c hc
    rcases Size.mem_text hc with hc | hc
    · rw [lower_of_isDigit hc]
      rintro rfl
      exact absurd hc (by decide)
    · simp only [List.mem_cons, List.not_mem_nil, or_false] at hc
      rcases hc with rfl | rfl | rfl
      · decide
      · decide
      · decide
  rw [if_pos (hlast _ (List.getElem_mem _)), sizeParts_text, done_bind]
  dsimp only
  rw [hcast.toInt64E]
  by_cases hfit : s.number < 2 ^ 63
  · have hbounds := Size.factor_bounds s.unit
    have hnumber : (s.number : ℤ) < 2 ^ 63 := by exact_mod_cast hfit
    rw [if_pos hfit, if_pos hfit]
    dsimp only
    rw [if_neg (not_lt.mpr (Int.natCast_nonneg _)),
      safeMul_eq (Int.natCast_nonneg _) hnumber hbounds.1 hbounds.2]
    rfl
  · rw [if_neg hfit, if_neg hfit]

theorem Size.taken_nonneg (s : Size) : 0 ≤ s.taken := by
  unfold Size.taken
  split
  · exact s.bytes_nonneg
  · exact le_rfl

theorem Size.fits_taken (s : Size) : Fits s.taken := by
  have hnonneg := s.taken_nonneg
  refine ⟨by omega, ?_⟩
  unfold Size.taken
  split
  · assumption
  · norm_num

/-- A bound that does not fit is zero. -/
theorem parseSizeInBytes_text (hcast : Casts env) (s : Size) :
    parseSizeInBytes env s.text = .done s.taken := by
  unfold parseSizeInBytes
  rw [parseSizeInBytesE_text hcast]
  by_cases hfit : s.number < 2 ^ 63
  · rw [if_pos hfit]
    exact congrArg Panicking.done (if_neg (not_lt.mpr s.taken_nonneg))
  · have hnumber : (2 : ℤ) ^ 63 ≤ s.number := by exact_mod_cast not_lt.mp hfit
    have htaken : s.taken = 0 := if_neg (by have hle := s.number_le_bytes; omega)
    rw [if_neg hfit, htaken]
    rfl

end Sizes

section Checks

theorem noBraces_of_notMem {v : String} (h : '\x7b' ∉ v.toList) : confValueHasBraces v = false := by
  unfold confValueHasBraces
  rw [Bool.and_eq_false_iff]
  left
  apply decide_eq_false
  intro hstarts
  exact h (hstarts.subset (by decide))

theorem decimal_noBraces (v : ℤ) : confValueHasBraces (decimal v) = false := by
  apply noBraces_of_notMem
  intro hmem
  exact absurd (mem_decimal hmem) (by decide)

theorem Size.noBraces (s : Size) : confValueHasBraces s.text = false := by
  apply noBraces_of_notMem
  intro hmem
  exact absurd (Size.mem_text hmem) (by decide)

theorem rangeText_ne_empty (l r : String) : rangeText bound l r pad ≠ "" := by
  intro h
  have hlists := congrArg String.toList h
  rw [rangeText, String.toList_ofList] at hlists
  exact List.cons_ne_nil _ _ hlists

/-- An integer with a range comes to the range check. -/
theorem validateConfValue_int (hv : Fits v) (l r : String) :
    validateConfValue env (decimal v) "INT" "RANGE" (rangeText bound l r pad) =
      checkInRange (decimal v) (rangeText bound l r pad) := by
  have htype : checkDataType "INT" (decimal v) = .done () := by
    rw [checkDataType, if_pos rfl, Numeral.atoi_decimal hv.1 hv.2]
    rfl
  unfold validateConfValue
  rw [if_neg (fun h => absurd h.1 (by decide)), decimal_noBraces, htype]
  change validateValueNumber "INT" "RANGE" (decimal v) (rangeText bound l r pad) = _
  rw [validateValueNumber, if_neg (rangeText_ne_empty l r)]
  rfl

/-- A size with a range comes to the size check. -/
theorem validateConfValue_size (s : Size) (l r : String) :
    validateConfValue env s.text "STRING" "BYTES" (rangeText bound l r pad) =
      checkInSizeRange env s.text (rangeText bound l r pad) := by
  have hallowed := @rangeText_ne_empty bound pad l r
  unfold validateConfValue
  rw [if_neg (fun h => absurd h.1 (by decide)), s.noBraces]
  change validateValueString env "STRING" "BYTES" s.text (rangeText bound l r pad) = _
  rw [validateValueString, if_neg (fun h => hallowed h.1)]
  rfl

/-- A size in range of sizes: what does not fit counts as zero. -/
theorem checkInSizeRange_text (hcast : Casts env) (hbound : Brackets bound) :
    checkInSizeRange env s.text (rangeText bound l.text r.text pad) =
      if s.number < 2 ^ 63 then
        checkInRange (decimal s.taken) (rangeText bound (decimal l.taken) (decimal r.taken) 1)
      else .failed (.sizeSyntax s.number.repr) := by
  have hrange : autoDetectTypeSub (rangeText bound l.text r.text pad) = "RANGE" := by
    rw [autoDetectTypeSub_range, matchRange_rangeText hbound (boundText_size l) (boundText_size r)]
    rfl
  unfold checkInSizeRange
  rw [parseSizeInBytesE_text hcast, hrange]
  by_cases hfit : s.number < 2 ^ 63
  · rw [if_pos hfit, if_pos hfit, done_bind, if_pos rfl, checkSizeBounds,
      parseRange_rangeText hbound (boundText_size l) (boundText_size r)]
    dsimp only
    rw [parseSizeInBytes_text hcast, parseSizeInBytes_text hcast, done_bind, done_bind, hcast.toString,
      rangeOf_eq]
  · rw [if_neg hfit, if_neg hfit]
    rfl

end Checks

/-- The check of the integer is that of the exact numbers. -/
def IntExact (env : Packages) (bound : Char × Char) (pad : ℕ) (a b v : ℤ) : Prop :=
  validateConfValue env (decimal v) "INT" "RANGE" (rangeText bound (decimal a) (decimal b) pad) =
    .done () ↔ InRange bound a b v

/-- The check of the size is that of the exact numbers, and a number of bytes that does not fit is an
error. -/
def SizeExact (env : Packages) (bound : Char × Char) (pad : ℕ) (l r s : Size) : Prop :=
  (s.bytes < 2 ^ 63 →
    (validateConfValue env s.text "STRING" "BYTES" (rangeText bound l.text r.text pad) = .done () ↔
      InRange bound l.bytes r.bytes s.bytes)) ∧
  (2 ^ 63 ≤ s.bytes → ∃ e,
    validateConfValue env s.text "STRING" "BYTES" (rangeText bound l.text r.text pad) = .failed e)

/-- Nothing is blurred, and nothing that does not fit changes the answer when it is taken for zero. -/
def SizeClear (bound : Char × Char) (l r s : Size) : Prop :=
  if s.bytes < 2 ^ 63 then
    if l.bytes < 2 ^ 63 then
      if r.bytes < 2 ^ 63 then ¬ Blurred bound l.bytes r.bytes s.bytes
      else Above bound.1 s.bytes l.bytes → bound = ('[', ']') ∧ l.bytes = 0 ∧ s.bytes = 0
    else ¬ InRange bound 0 (rounded r.taken) (rounded s.bytes)
  else 2 ^ 63 ≤ s.number ∨ ¬ InRange bound (rounded l.taken) (rounded r.taken) 0

section Exact

theorem Size.taken_of_fits (h : s.bytes < 2 ^ 63) : s.taken = s.bytes := if_pos h

theorem Size.taken_of_large (h : ¬ s.bytes < 2 ^ 63) : s.taken = 0 := if_neg h

theorem not_above_of_lt {left : Char} {x p : ℚ} (h : x < p) : ¬ Above left x p := by
  unfold Above
  split
  · exact not_le.mpr h
  · exact not_lt.mpr h.le

theorem below_of_lt {right : Char} {x q : ℚ} (h : x < q) : Below right x q := by
  unfold Below
  split
  · exact h.le
  · exact h

/-- Below a bound of zero there is only zero. -/
theorem inRange_zero_iff (hl : 0 ≤ a) (hv : 0 ≤ v) (hbound : Brackets bound) :
    InRange bound (rounded a) 0 (rounded v) ↔ bound = ('[', ']') ∧ a = 0 ∧ v = 0 := by
  have hpos : ∀ n : ℤ, 0 < n → 0 < rounded (n : ℚ) := by
    intro n hn
    have hone : rounded 1 = 1 := by
      have hzpow := @Binary32.rounded_zpow 0 (by norm_num)
      rwa [zpow_zero] at hzpow
    have hmono : rounded 1 ≤ rounded (n : ℚ) := rounded_mono (by exact_mod_cast hn)
    rw [hone] at hmono
    exact one_pos.trans_le hmono
  have ha := Binary32.rounded_nonneg (by exact_mod_cast hl : (0 : ℚ) ≤ a)
  obtain ⟨left, right⟩ := bound
  constructor
  · intro h
    have hle := h.le
    have hazero : a = 0 := by
      by_contra hne
      exact absurd (hpos a (by omega)) (not_lt.mpr hle)
    have habove := h.1
    have hbelow := h.2
    rw [hazero, Int.cast_zero, rounded_zero] at habove
    have hvzero : v = 0 := by
      by_contra hne
      have hlt := hpos v (by omega)
      unfold Below at hbelow
      split at hbelow
      · exact absurd hlt (not_lt.mpr hbelow)
      · exact absurd hlt (not_lt.mpr hbelow.le)
    rw [hvzero, Int.cast_zero, rounded_zero] at habove hbelow
    refine ⟨Prod.ext ?_ ?_, hazero, hvzero⟩
    · by_contra hne
      rw [Above, if_neg hne] at habove
      exact lt_irrefl _ habove
    · by_contra hne
      rw [Below, if_neg hne] at hbelow
      exact lt_irrefl _ hbelow
  · rintro ⟨hbrackets, rfl, rfl⟩
    cases hbrackets
    rw [Int.cast_zero, rounded_zero]
    exact ⟨le_rfl, le_rfl⟩

theorem intExact_iff (hbound : Brackets bound) (ha : Fits a) (hb : Fits b) (hv : Fits v) :
    IntExact env bound pad a b v ↔ ¬ Blurred bound a b v := by
  rw [IntExact, validateConfValue_int hv, checkInRange_decimal hbound ha hb hv]
  exact inRange_rounded_iff

/-- What the check of a size comes to. -/
theorem validateConfValue_size_done (hcast : Casts env) (hbound : Brackets bound)
    (hfit : s.number < 2 ^ 63) :
    validateConfValue env s.text "STRING" "BYTES" (rangeText bound l.text r.text pad) = .done () ↔
      InRange bound (rounded l.taken) (rounded r.taken) (rounded s.taken) := by
  rw [validateConfValue_size, checkInSizeRange_text hcast hbound, if_pos hfit]
  exact checkInRange_decimal hbound l.fits_taken r.fits_taken s.fits_taken

theorem validateConfValue_size_returns (hcast : Casts env) (hbound : Brackets bound) :
    validateConfValue env s.text "STRING" "BYTES" (rangeText bound l.text r.text pad) ≠ .panicked := by
  rw [validateConfValue_size, checkInSizeRange_text hcast hbound]
  split
  · exact checkInRange_ne_panicked
  · intro h
    cases h

theorem failed_iff {x : Check Unit} (h : x ≠ .panicked) : (∃ e, x = .failed e) ↔ x ≠ .done () := by
  cases x with
  | done u => simp
  | failed e => simp
  | panicked => exact absurd rfl h

theorem Size.number_fits (h : s.bytes < 2 ^ 63) : s.number < 2 ^ 63 := by
  have hle := s.number_le_bytes
  have hcast : (s.number : ℤ) < 2 ^ 63 := by omega
  exact_mod_cast hcast

/-- A size that fits, against any bounds. -/
theorem sizeExact_of_fits (hcast : Casts env) (hbound : Brackets bound) (hs : s.bytes < 2 ^ 63) :
    (validateConfValue env s.text "STRING" "BYTES" (rangeText bound l.text r.text pad) = .done () ↔
      InRange bound l.bytes r.bytes s.bytes) ↔
    if l.bytes < 2 ^ 63 then
      if r.bytes < 2 ^ 63 then ¬ Blurred bound l.bytes r.bytes s.bytes
      else Above bound.1 s.bytes l.bytes → bound = ('[', ']') ∧ l.bytes = 0 ∧ s.bytes = 0
    else ¬ InRange bound 0 (rounded r.taken) (rounded s.bytes) := by
  rw [validateConfValue_size_done hcast hbound (Size.number_fits hs), Size.taken_of_fits hs]
  by_cases hl : l.bytes < 2 ^ 63
  · rw [if_pos hl, Size.taken_of_fits hl]
    by_cases hr : r.bytes < 2 ^ 63
    · rw [if_pos hr, Size.taken_of_fits hr]
      exact inRange_rounded_iff
    · have hbelow : Below bound.2 (s.bytes : ℚ) r.bytes :=
        below_of_lt (by exact_mod_cast hs.trans_le (not_lt.mp hr))
      rw [if_neg hr, Size.taken_of_large hr, Int.cast_zero, rounded_zero,
        inRange_zero_iff l.bytes_nonneg s.bytes_nonneg hbound]
      constructor
      · intro h habove
        exact h.mpr ⟨habove, hbelow⟩
      · intro h
        refine ⟨?_, fun hin => h hin.1⟩
        rintro ⟨rfl, hlzero, hszero⟩
        refine ⟨?_, hbelow⟩
        rw [hlzero, hszero]
        exact le_rfl
  · have hout : ¬ InRange bound (l.bytes : ℚ) r.bytes s.bytes := fun h =>
      not_above_of_lt (by exact_mod_cast hs.trans_le (not_lt.mp hl)) h.1
    rw [if_neg hl, Size.taken_of_large hl, Int.cast_zero, rounded_zero]
    exact iff_false_right hout

/-- A size that does not fit is an error, or is taken for zero. -/
theorem sizeExact_of_large (hcast : Casts env) (hbound : Brackets bound) (hs : ¬ s.bytes < 2 ^ 63) :
    (∃ e, validateConfValue env s.text "STRING" "BYTES" (rangeText bound l.text r.text pad) =
      .failed e) ↔ 2 ^ 63 ≤ s.number ∨ ¬ InRange bound (rounded l.taken) (rounded r.taken) 0 := by
  rw [failed_iff (validateConfValue_size_returns hcast hbound)]
  by_cases hfit : s.number < 2 ^ 63
  · rw [Ne, validateConfValue_size_done hcast hbound hfit, Size.taken_of_large hs, Int.cast_zero,
      rounded_zero]
    constructor
    · exact .inr
    · rintro (h | h)
      · exact absurd hfit (not_lt.mpr h)
      · exact h
  · rw [validateConfValue_size, checkInSizeRange_text hcast hbound, if_neg hfit]
    exact iff_of_true (fun h => by cases h) (.inl (not_lt.mp hfit))

theorem sizeExact_iff (hcast : Casts env) (hbound : Brackets bound) :
    SizeExact env bound pad l r s ↔ SizeClear bound l r s := by
  unfold SizeExact SizeClear
  by_cases hs : s.bytes < 2 ^ 63
  · rw [if_pos hs, ← sizeExact_of_fits hcast hbound hs]
    constructor
    · exact fun h => h.1 hs
    · exact fun h => ⟨fun _ => h, fun hlarge => absurd hs (not_lt.mpr hlarge)⟩
  · rw [if_neg hs, ← @sizeExact_of_large env bound s l r pad hcast hbound hs]
    constructor
    · exact fun h => h.2 (not_lt.mp hs)
    · exact fun h => ⟨fun hfit => absurd hfit hs, fun _ => h⟩

/-- The range checks of integers and of sizes are exact but for numbers that rounding to 24 bits blurs
and for products that overflow. -/
theorem rangesExact_iff (env : Packages) (hcast : Casts env) (bound : Char × Char)
    (hbound : Brackets bound) (pad : ℕ) :
    (∀ v a b : ℤ, Fits v → Fits a → Fits b → a ≤ b →
      (IntExact env bound pad a b v ↔ ¬ Blurred bound a b v)) ∧
    ∀ s l r : Size, SizeExact env bound pad l r s ↔ SizeClear bound l r s :=
  ⟨fun _ _ _ hv ha hb _ => intExact_iff hbound ha hb hv, fun _ _ _ => sizeExact_iff hcast hbound⟩

theorem lenientPackages_casts : Casts lenientPackages where
  toInt64E := Numeral.atoi_repr
  toString _ := rfl

/-- A small integer in a closed range. -/
theorem rangesExact_iff_small :
    IntExact lenientPackages ('[', ']') 1 0 100 7 ↔ ¬ Blurred ('[', ']') 0 100 7 := by
  have hexact := (rangesExact_iff lenientPackages lenientPackages_casts ('[', ']')
    ⟨by decide, by decide⟩ 1).1 7 0 100 ⟨by decide, by decide⟩ ⟨by decide, by decide⟩
    ⟨by decide, by decide⟩ (by decide)
  exact_mod_cast hexact

/-- The first integer that is no float32 is rounded to the one before it. -/
theorem rounded_first : rounded 16777217 = rounded 16777216 := by
  have hlog : Int.log 2 |(16777217 : ℚ)| = 24 := by
    have hnat : Int.log 2 ((16777217 : ℕ) : ℚ) = Nat.log 2 16777217 := Int.log_natCast 2 16777217
    have hvalue : Nat.log 2 16777217 = 24 := by
      rw [Nat.log_eq_iff (by norm_num)]
      norm_num
    rw [abs_of_pos (by norm_num)]
    rw [hvalue] at hnat
    exact_mod_cast hnat
  have hulp : Binary32.ulp 16777217 = 2 := by
    rw [Binary32.ulp, hlog]
    norm_num
  have hnearest : Binary32.Nearest (16777217 / 2) 8388608 := by
    right
    norm_num
  have hround := (Binary32.nearest_roundHalfEven (16777217 / 2)).unique hnearest
  have hpower := @Binary32.rounded_zpow 24 (by norm_num)
  have hleft : rounded 16777217 = 16777216 := by
    rw [rounded, hulp, hround]
    norm_num
  have hright : rounded (16777216 : ℚ) = 16777216 := by
    norm_num at hpower
    exact hpower
  rw [hleft, hright]

/-- The first integer that is no float32 passes for the one before it, and so many gibibytes that they
overflow pass for nothing. -/
theorem rounding_not_exact :
    ¬ IntExact lenientPackages ('[', ']') 1 0 16777216 16777217 ∧
      ¬ SizeExact lenientPackages ('[', ']') 1 ⟨0, .b⟩ ⟨1, .k⟩ ⟨8589934592, .g⟩ := by
  have hbrackets : Brackets ('[', ']') := ⟨by decide, by decide⟩
  constructor
  · rw [intExact_iff hbrackets ⟨by decide, by decide⟩ ⟨by decide, by decide⟩ ⟨by decide, by decide⟩,
      not_not]
    have hzero : rounded ((0 : ℤ) : ℚ) ≤ rounded ((16777217 : ℤ) : ℚ) := rounded_mono (by norm_num)
    exact .inr ⟨by exact_mod_cast rounded_first, by norm_num, hzero⟩
  · rw [sizeExact_iff lenientPackages_casts hbrackets]
    have hlarge : ¬ (Size.mk 8589934592 .g).bytes < 2 ^ 63 := by decide
    have hleft : rounded (((Size.mk 0 .b).taken : ℤ) : ℚ) ≤ 0 := by
      have htaken : (Size.mk 0 .b).taken = 0 := by decide
      rw [htaken, Int.cast_zero, rounded_zero]
    have hright : 0 ≤ rounded (((Size.mk 1 .k).taken : ℤ) : ℚ) :=
      Binary32.rounded_nonneg (by exact_mod_cast (Size.mk 1 .k).taken_nonneg)
    rw [SizeClear, if_neg hlarge]
    rintro (hnumber | hrange)
    · exact absurd hnumber (by decide)
    · exact hrange ⟨hleft, hright⟩

end Exact

end Config
