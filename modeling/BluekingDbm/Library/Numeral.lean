import BluekingDbm.Library.Text
import Mathlib.Algebra.Group.Int.Defs
import Mathlib.Algebra.Group.Nat.Defs

/-! Numbers read from text, as Go and Python read them. -/
namespace Numeral

/-- The value of one or more ASCII digits. -/
def digits (cs : List Char) : Option ℕ :=
  if cs ≠ [] ∧ cs.all Char.isDigit then some (Nat.ofDigitChars 10 cs 0) else none

/-- `strconv.Atoi`, for an int of 64 bits. -/
def atoi (s : String) : Option ℤ :=
  match s.toList with
  | '-' :: cs => (digits cs).bind fun n => if n ≤ 2 ^ 63 then some (-n) else none
  | '+' :: cs => (digits cs).bind fun n => if n < 2 ^ 63 then some n else none
  | cs => (digits cs).bind fun n => if n < 2 ^ 63 then some n else none

/-- `strconv.ParseInt` of digits, for 64 bits, with its error passed over: a number out of range is
taken as the greatest. -/
def parseInt (s : String) : ℤ := (atoi s).getD (2 ^ 63 - 1)

/-- `strconv.Atoi` with its error passed over: 0 for what is no number, and the nearest int for a number
out of range. -/
def atoiValue (s : String) : ℤ :=
  match s.toList with
  | '-' :: cs => ((digits cs).map fun n => -((min n (2 ^ 63) : ℕ) : ℤ)).getD 0
  | '+' :: cs => ((digits cs).map fun n => ((min n (2 ^ 63 - 1) : ℕ) : ℤ)).getD 0
  | cs => ((digits cs).map fun n => ((min n (2 ^ 63 - 1) : ℕ) : ℤ)).getD 0

namespace Py

/-- `str.isspace`, which is also what `\s` matches. -/
def isSpace (c : Char) : Bool := Text.isSpace c || (0x1C ≤ c.toNat && c.toNat ≤ 0x1F)

/-- `str.strip`. -/
def strip (s : String) : String :=
  String.ofList (((s.toList.dropWhile isSpace).reverse.dropWhile isSpace).reverse)

/-- The zeros of the decimal digits of Unicode; the nine other digits follow each of them. -/
def zeros : List ℕ :=
  [0x30, 0x660, 0x6F0, 0x7C0, 0x966, 0x9E6, 0xA66, 0xAE6, 0xB66, 0xBE6, 0xC66, 0xCE6, 0xD66, 0xDE6,
    0xE50, 0xED0, 0xF20, 0x1040, 0x1090, 0x17E0, 0x1810, 0x1946, 0x19D0, 0x1A80, 0x1A90, 0x1B50,
    0x1BB0, 0x1C40, 0x1C50, 0xA620, 0xA8D0, 0xA900, 0xA9D0, 0xA9F0, 0xAA50, 0xABF0, 0xFF10, 0x104A0,
    0x10D30, 0x11066, 0x110F0, 0x11136, 0x111D0, 0x112F0, 0x11450, 0x114D0, 0x11650, 0x116C0,
    0x11730, 0x118E0, 0x11950, 0x11C50, 0x11D50, 0x11DA0, 0x16A60, 0x16AC0, 0x16B50, 0x1D7CE,
    0x1D7D8, 0x1D7E2, 0x1D7EC, 0x1D7F6, 0x1E140, 0x1E2F0, 0x1E950, 0x1FBF0]

def digitValue (c : Char) : Option ℕ :=
  (zeros.find? fun z => z ≤ c.toNat && c.toNat < z + 10).map fun z => c.toNat - z

/-- Digits, with single underscores between them. -/
def digitValues : List Char → Option (List ℕ)
  | [] => none
  | [c] => (digitValue c).map fun d => [d]
  | c :: '_' :: rest => (digitValue c).bind fun d => (digitValues rest).map (d :: ·)
  | c :: rest => (digitValue c).bind fun d => (digitValues rest).map (d :: ·)

/-- The most digits that a number may be written with. -/
def maxDigits : ℕ := 4300

def magnitude (cs : List Char) : Option ℕ :=
  (digitValues cs).bind fun ds =>
    if ds.length ≤ maxDigits then some (ds.foldl (fun n d => 10 * n + d) 0) else none

/-- `int` of a text; none is a ValueError. -/
def int (s : String) : Option ℤ :=
  match (strip s).toList with
  | '-' :: cs => (magnitude cs).map fun n => -Int.ofNat n
  | '+' :: cs => (magnitude cs).map Int.ofNat
  | cs => (magnitude cs).map Int.ofNat

end Py

variable {n : ℕ} {s : String}

theorem digits_repr (n : ℕ) : digits n.repr.toList = some n := by
  have hall : n.repr.toList.all Char.isDigit = true := by
    rw [List.all_eq_true]
    intro c hc
    exact Text.repr_isDigit hc
  rw [digits, if_pos ⟨Text.repr_ne_nil n, hall⟩, Nat.toList_repr, Nat.ofDigitChars_ten_toDigits]

theorem atoi_repr (n : ℕ) : atoi n.repr = if n < 2 ^ 63 then some (n : ℤ) else none := by
  have hdigit : ∀ c ∈ n.repr.toList, c.isDigit = true := fun c hc => Text.repr_isDigit hc
  have hdigits := digits_repr n
  unfold atoi
  split
  · rename_i cs hcs
    rw [hcs] at hdigit
    exact absurd (hdigit '-' List.mem_cons_self) (by decide)
  · rename_i cs hcs
    rw [hcs] at hdigit
    exact absurd (hdigit '+' List.mem_cons_self) (by decide)
  · rw [hdigits]
    rfl

theorem atoiValue_of_atoi {m : ℤ} (h : atoi s = some m) : atoiValue s = m := by
  unfold atoi at h
  unfold atoiValue
  split at h
  · obtain ⟨n, hdigits, hn⟩ := Option.bind_eq_some_iff.mp h
    rw [hdigits]
    split at hn
    case isTrue hfits =>
      cases hn
      rw [Option.map_some, Option.getD_some, min_eq_left hfits]
    case isFalse => cases hn
  · obtain ⟨n, hdigits, hn⟩ := Option.bind_eq_some_iff.mp h
    rw [hdigits]
    split at hn
    case isTrue hfits =>
      cases hn
      rw [Option.map_some, Option.getD_some, min_eq_left (by omega)]
    case isFalse => cases hn
  · obtain ⟨n, hdigits, hn⟩ := Option.bind_eq_some_iff.mp h
    rw [hdigits]
    split at hn
    case isTrue hfits =>
      cases hn
      rw [Option.map_some, Option.getD_some, min_eq_left (by omega)]
    case isFalse => cases hn

theorem atoiValue_repr (h : n < 2 ^ 63) : atoiValue n.repr = n :=
  atoiValue_of_atoi ((atoi_repr n).trans (if_pos h))

/-- A rendered number is read back, if it fits. -/
theorem atoi_decimal {m : ℤ} (hlow : -2 ^ 63 ≤ m) (hhigh : m < 2 ^ 63) :
    atoi (Text.decimal m) = some m := by
  cases m with
  | ofNat n =>
    have hn : n < 2 ^ 63 := by
      have hcast : (n : ℤ) < 2 ^ 63 := hhigh
      omega
    exact (atoi_repr n).trans (if_pos hn)
  | negSucc n =>
    have hn : n + 1 ≤ 2 ^ 63 := by omega
    have hlist : (Text.decimal (Int.negSucc n)).toList = '-' :: (n + 1).repr.toList := by
      rw [Text.decimal_negSucc, String.toList_append]
      rfl
    rw [atoi, hlist]
    simp only [digits_repr, Option.bind_some, if_pos hn]
    rfl

/-- Without a minus sign no number below zero is read. -/
theorem Py.int_nonneg {m : ℤ} (h : '-' ∉ s.toList) (hs : Py.int s = some m) : 0 ≤ m := by
  have hstrip : '-' ∉ (Py.strip s).toList := by
    intro hmem
    apply h
    rw [Py.strip, String.toList_ofList] at hmem
    exact (List.dropWhile_suffix _).mem (List.mem_reverse.mp
      ((List.dropWhile_suffix _).mem (List.mem_reverse.mp hmem)))
  unfold Py.int at hs
  split at hs
  · rename_i cs hcs
    rw [hcs] at hstrip
    exact absurd List.mem_cons_self hstrip
  · obtain ⟨n, -, rfl⟩ := Option.map_eq_some_iff.mp hs
    exact Int.natCast_nonneg n
  · obtain ⟨n, -, rfl⟩ := Option.map_eq_some_iff.mp hs
    exact Int.natCast_nonneg n

section Ascii

variable {c : Char} {cs : List Char} {m : ℤ}

theorem Py.digitValue_of_isDigit (h : c.isDigit = true) :
    Py.digitValue c = some (c.toNat - '0'.toNat) := by
  have hrange : 48 ≤ c.toNat ∧ c.toNat ≤ 57 := Char.isDigit_iff_toNat.mp h
  have hin : (decide (0x30 ≤ c.toNat) && decide (c.toNat < 0x30 + 10)) = true := by
    simp only [Bool.and_eq_true, decide_eq_true_eq]
    omega
  have hzeros : Py.zeros = 0x30 :: Py.zeros.tail := rfl
  rw [Py.digitValue, hzeros, List.find?, hin]
  rfl

theorem Py.digitValues_digits (hne : cs ≠ []) (h : ∀ c ∈ cs, c.isDigit = true) :
    Py.digitValues cs = some (cs.map fun c => c.toNat - '0'.toNat) := by
  induction cs with
  | nil => exact absurd rfl hne
  | cons c cs ih =>
    obtain ⟨hc, hcs⟩ := List.forall_mem_cons.mp h
    cases cs with
    | nil => simp [Py.digitValues, Py.digitValue_of_isDigit hc]
    | cons d cs =>
      have hd : d ≠ '_' := by
        rintro rfl
        exact absurd (hcs '_' List.mem_cons_self) (by decide)
      have hcons : Py.digitValues (c :: d :: cs) =
          (Py.digitValue c).bind fun v => (Py.digitValues (d :: cs)).map (v :: ·) := by
        rw [Py.digitValues]
        · exact List.cons_ne_nil d cs
        · intro rest hrest
          exact hd (List.cons.inj hrest).1
      rw [hcons, Py.digitValue_of_isDigit hc, ih (List.cons_ne_nil d cs) hcs]
      rfl

theorem Py.strip_digits (h : ∀ c ∈ s.toList, c.isDigit = true) : Py.strip s = s := by
  have hdrop : ∀ cs : List Char, (∀ c ∈ cs, c.isDigit = true) → cs.dropWhile Py.isSpace = cs := by
    intro cs hcs
    cases cs with
    | nil => rfl
    | cons c cs =>
      have hc := hcs c List.mem_cons_self
      have hrange : 48 ≤ c.toNat ∧ c.toNat ≤ 57 := Char.isDigit_iff_toNat.mp hc
      have hspace : Py.isSpace c = false := by
        simp only [Py.isSpace, Text.isSpace_of_isDigit hc, Bool.false_or, Bool.and_eq_false_iff,
          decide_eq_false_iff_not]
        omega
      simp [hspace]
  rw [Py.strip, hdrop _ h, hdrop _ (by simpa using h), List.reverse_reverse, String.ofList_toList]

theorem no_sign (h : ∀ c ∈ s.toList, c.isDigit = true) (hc : c = '-' ∨ c = '+') (cs : List Char) :
    s.toList ≠ c :: cs := by
  intro hcs
  have hdigit := h c (by simp [hcs])
  rcases hc with rfl | rfl <;> exact absurd hdigit (by decide)

/-- `strconv.Atoi` of ASCII digits. -/
theorem atoi_digits (hne : s ≠ "") (h : ∀ c ∈ s.toList, c.isDigit = true) :
    atoi s = if Nat.ofDigitChars 10 s.toList 0 < 2 ^ 63 then
      some (Nat.ofDigitChars 10 s.toList 0 : ℤ) else none := by
  have hlist : s.toList ≠ [] := fun hnil => hne (String.toList_eq_nil_iff.mp hnil)
  have hread : digits s.toList = some (Nat.ofDigitChars 10 s.toList 0) :=
    if_pos ⟨hlist, List.all_eq_true.mpr h⟩
  unfold atoi
  split
  · rename_i cs hcs
    exact absurd hcs (no_sign h (Or.inl rfl) cs)
  · rename_i cs hcs
    exact absurd hcs (no_sign h (Or.inr rfl) cs)
  · rw [hread]
    rfl

/-- `int` of ASCII digits. -/
theorem Py.int_digits (hne : s ≠ "") (h : ∀ c ∈ s.toList, c.isDigit = true) :
    Py.int s = if s.toList.length ≤ Py.maxDigits then some (Nat.ofDigitChars 10 s.toList 0 : ℤ)
      else none := by
  have hlist : s.toList ≠ [] := by simpa using hne
  rw [Py.int, Py.strip_digits h]
  split
  · rename_i cs hcs
    exact absurd hcs (no_sign h (Or.inl rfl) cs)
  · rename_i cs hcs
    exact absurd hcs (no_sign h (Or.inr rfl) cs)
  · rw [Py.magnitude, Py.digitValues_digits hlist h, Option.bind_some, List.length_map]
    split
    · rw [Option.map_some, Nat.ofDigitChars_eq_foldl, List.foldl_map]
      rfl
    · rfl

theorem Py.int_repr (h : n.repr.toList.length ≤ Py.maxDigits) : Py.int n.repr = some (n : ℤ) := by
  have hne : n.repr ≠ "" := fun hempty => Text.repr_ne_nil n (congrArg String.toList hempty)
  rw [Py.int_digits hne (fun c hc => Text.repr_isDigit hc), if_pos h, Nat.toList_repr,
    Nat.ofDigitChars_ten_toDigits]

/-- Both languages read the same number from ASCII digits, if it fits. -/
theorem parseInt_of_int (hne : s ≠ "") (h : ∀ c ∈ s.toList, c.isDigit = true)
    (hint : Py.int s = some m) (hm : m < 2 ^ 63) : parseInt s = m := by
  have hlist : s.toList ≠ [] := by simpa using hne
  have hvalue : (Nat.ofDigitChars 10 s.toList 0 : ℤ) = m := by
    rw [Py.int_digits hne h] at hint
    split at hint
    · exact Option.some_inj.mp hint
    · cases hint
  have hall : s.toList.all Char.isDigit = true := List.all_eq_true.mpr h
  have hdigits : digits s.toList = some (Nat.ofDigitChars 10 s.toList 0) := if_pos ⟨hlist, hall⟩
  have hfits : Nat.ofDigitChars 10 s.toList 0 < 2 ^ 63 := by omega
  rw [parseInt, atoi]
  split
  · rename_i cs hcs
    exact absurd hcs (no_sign h (Or.inl rfl) cs)
  · rename_i cs hcs
    exact absurd hcs (no_sign h (Or.inr rfl) cs)
  · rw [hdigits, Option.bind_some, if_pos hfits, Option.getD_some, hvalue]

end Ascii

end Numeral
