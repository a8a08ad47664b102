import BluekingDbm.Library.Text
import Mathlib.Data.String.Basic

/-! Numbers written with leading zeros, and the order of their texts. -/
namespace Padded

/-- The digits of a number, at least `w` of them. -/
def digits (w n : ℕ) : List Char := List.replicate (w - n.repr.length) '0' ++ n.repr.toList

variable {w n : ℕ} {c : Char} {cs ds front front' : List Char}

theorem digits_isDigit (h : c ∈ digits w n) : c.isDigit = true := by
  rcases List.mem_append.mp h with hc | hc
  · rw [List.eq_of_mem_replicate hc]
    rfl
  · exact Text.repr_isDigit hc

theorem ofDigitChars_digits (w n : ℕ) : Nat.ofDigitChars 10 (digits w n) 0 = n := by
  rw [digits, Nat.ofDigitChars_append, Nat.ofDigitChars_replicate_zero, Nat.mul_zero,
    Nat.toList_repr, Nat.ofDigitChars_ten_toDigits]

theorem digits_ne_nil (w n : ℕ) : digits w n ≠ [] := by
  intro hnil
  exact Text.repr_ne_nil n (List.append_eq_nil_iff.mp hnil).2

/-- The digits are what stands behind the last dot. -/
theorem takeWhile_digits (base : String) (w n : ℕ) :
    ((base ++ "." ++ String.ofList (digits w n)).toList.reverse.takeWhile (· ≠ '.')).reverse =
      digits w n := by
  have hpass : ∀ c ∈ (digits w n).reverse, decide (c ≠ '.') = true := by
    intro c hc
    have hdigit := digits_isDigit (List.mem_reverse.mp hc)
    have hne : c ≠ '.' := fun heq => absurd (heq ▸ hdigit) (by decide)
    exact decide_eq_true hne
  have hlist : (base ++ "." ++ String.ofList (digits w n)).toList.reverse =
      (digits w n).reverse ++ '.' :: base.toList.reverse := by
    rw [String.toList_append, String.toList_append, String.toList_ofList]
    simp
  rw [hlist, List.takeWhile_append_of_pos hpass, List.takeWhile_cons_of_neg (by simp),
    List.append_nil, List.reverse_reverse]

theorem length_digits (hw : 0 < w) (h : n < 10 ^ w) : (digits w n).length = w := by
  have hle : n.repr.length ≤ w := (Nat.length_repr_le_iff hw).mpr h
  rw [digits, List.length_append, List.length_replicate, String.length_toList]
  omega

/-- Digits stand for less than the power of ten that they reach up to. -/
theorem ofDigitChars_lt (h : ∀ c ∈ cs, c.isDigit = true) :
    Nat.ofDigitChars 10 cs 0 < 10 ^ cs.length := by
  induction cs with
  | nil => simp
  | cons c cs ih =>
    obtain ⟨hc, hcs⟩ := List.forall_mem_cons.mp h
    have hrange : 48 ≤ c.toNat ∧ c.toNat ≤ 57 := Char.isDigit_iff_toNat.mp hc
    have hrest := ih hcs
    have hdigit : 10 ^ cs.length * (c.toNat - 48) ≤ 10 ^ cs.length * 9 :=
      Nat.mul_le_mul_left _ (by omega)
    rw [Nat.ofDigitChars_cons, Nat.ofDigitChars_eq_ofDigitChars_zero, List.length_cons, Nat.pow_succ]
    have hzero : 10 * 0 + (c.toNat - '0'.toNat) = c.toNat - 48 := by simp
    rw [hzero]
    omega

/-- Zeros in front of a number can be left out. -/
theorem ofDigitChars_dropWhile (cs : List Char) :
    Nat.ofDigitChars 10 (cs.dropWhile (· = '0')) 0 = Nat.ofDigitChars 10 cs 0 := by
  induction cs with
  | nil => rfl
  | cons c cs ih =>
    by_cases hzero : c = '0'
    · rw [List.dropWhile_cons, if_pos (by simpa using hzero), ih, Nat.ofDigitChars_cons, hzero]
      simp
    · rw [List.dropWhile_cons, if_neg (by simpa using hzero)]

/-- Texts with fronts of one length are ordered by the fronts first. -/
theorem append_lt_append_iff (h : front.length = front'.length) :
    front ++ cs < front' ++ ds ↔ front < front' ∨ front = front' ∧ cs < ds := by
  induction front generalizing front' with
  | nil =>
    obtain rfl := List.length_eq_zero_iff.mp h.symm
    simp
  | cons c front ih =>
    cases front' with
    | nil => cases h
    | cons d front' =>
      rw [List.cons_append, List.cons_append, List.cons_lt_cons_iff, List.cons_lt_cons_iff,
        ih (Nat.succ.inj h), List.cons.injEq]
      tauto

/-- Digits of one length are ordered as the numbers that they stand for. -/
theorem lt_iff_ofDigitChars_lt (hlength : cs.length = ds.length)
    (hcs : ∀ c ∈ cs, c.isDigit = true) (hds : ∀ d ∈ ds, d.isDigit = true) :
    cs < ds ↔ Nat.ofDigitChars 10 cs 0 < Nat.ofDigitChars 10 ds 0 := by
  induction cs generalizing ds with
  | nil =>
    obtain rfl := List.length_eq_zero_iff.mp hlength.symm
    simp
  | cons c cs ih =>
    cases ds with
    | nil => cases hlength
    | cons d ds =>
      have hlen : cs.length = ds.length := Nat.succ.inj hlength
      obtain ⟨hc, hcs⟩ := List.forall_mem_cons.mp hcs
      obtain ⟨hd, hds⟩ := List.forall_mem_cons.mp hds
      have hcrange : 48 ≤ c.toNat ∧ c.toNat ≤ 57 := Char.isDigit_iff_toNat.mp hc
      have hdrange : 48 ≤ d.toNat ∧ d.toNat ≤ 57 := Char.isDigit_iff_toNat.mp hd
      have hclt := ofDigitChars_lt hcs
      have hdlt := ofDigitChars_lt hds
      have hvalue : ∀ e : Char, 10 * 0 + (e.toNat - '0'.toNat) = e.toNat - 48 := by
        intro e
        simp
      rw [Nat.ofDigitChars_cons, Nat.ofDigitChars_cons, Nat.ofDigitChars_eq_ofDigitChars_zero,
        @Nat.ofDigitChars_eq_ofDigitChars_zero ds, hvalue, hvalue, List.cons_lt_cons_iff, ih hlen hcs hds,
        hlen]
      rw [hlen] at hclt
      have hchar : c < d ↔ c.toNat < d.toNat := Char.lt_def
      rcases Nat.lt_trichotomy c.toNat d.toNat with hlt | heq | hgt
      · have hmul : 10 ^ ds.length * (c.toNat - 48 + 1) ≤ 10 ^ ds.length * (d.toNat - 48) :=
          Nat.mul_le_mul_left _ (by omega)
        rw [Nat.mul_add, Nat.mul_one] at hmul
        exact ⟨fun _ => by omega, fun _ => Or.inl (hchar.mpr hlt)⟩
      · obtain rfl : c = d := Char.toNat_inj.mp heq
        constructor
        · rintro (hlt | ⟨-, hlt⟩)
          · exact absurd hlt (lt_irrefl _)
          · omega
        · intro hlt
          exact Or.inr ⟨rfl, by omega⟩
      · have hmul : 10 ^ ds.length * (d.toNat - 48 + 1) ≤ 10 ^ ds.length * (c.toNat - 48) :=
          Nat.mul_le_mul_left _ (by omega)
        rw [Nat.mul_add, Nat.mul_one] at hmul
        constructor
        · rintro (hlt | ⟨rfl, -⟩)
          · have := hchar.mp hlt
            omega
          · omega
        · intro hlt
          omega

/-- Padded numbers that fit are ordered as the numbers. -/
theorem digits_lt_iff {m : ℕ} (hw : 0 < w) (hm : m < 10 ^ w) (hn : n < 10 ^ w) :
    digits w m < digits w n ↔ m < n := by
  have hlength : (digits w m).length = (digits w n).length := by
    rw [length_digits hw hm, length_digits hw hn]
  rw [lt_iff_ofDigitChars_lt hlength (fun _ => digits_isDigit) (fun _ => digits_isDigit),
    ofDigitChars_digits, ofDigitChars_digits]

/-- A number with `w + 1` digits is not padded to them. -/
theorem digits_of_le (hlow : 10 ^ w ≤ n) : digits (w + 1) n = n.repr.toList := by
  have hlong : w < n.repr.length := by
    by_contra hshort
    rcases Nat.eq_zero_or_pos w with rfl | hw
    · have hpos := Nat.length_repr_pos (n := n)
      omega
    · have hlt := (Nat.length_repr_le_iff (n := n) hw).mp (by omega)
      omega
  rw [digits, show w + 1 - n.repr.length = 0 by omega, List.replicate_zero, List.nil_append]

theorem digits_injective {m : ℕ} (h : digits w m = digits w n) : m = n := by
  have hvalue := congrArg (fun cs => Nat.ofDigitChars 10 cs 0) h
  rwa [ofDigitChars_digits, ofDigitChars_digits] at hvalue

end Padded
