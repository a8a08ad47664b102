import BluekingDbm.Config.Validation
import Mathlib.Tactic.Linarith

/-! Ranges of numbers written as text, and the value against them: bounds and value are compared as they
are rounded. -/
namespace Config

open Binary32 (rounded rounded_mono Value)
open FloatText Panicking Text

/-- An opening and a closing bracket. -/
def Brackets (bound : Char × Char) : Prop := bound.1 ∈ ['(', '['] ∧ bound.2 ∈ [')', ']']

/-- The text of a range, with some blanks behind the comma. -/
def rangeText (bound : Char × Char) (l r : String) (pad : ℕ) : String :=
  String.ofList (bound.1 :: (l.toList ++ ',' :: (List.replicate pad ' ' ++ r.toList)) ++ [bound.2])

/-- A bound that a range can be written with. -/
structure BoundText (s : String) : Prop where
  nonempty : s.toList ≠ []
  noComma : ',' ∉ s.toList
  noBlank : ' ' ∉ s.toList
  noNewline : '\n' ∉ s.toList

variable {bound : Char × Char} {l r value : String} {pad : ℕ} {a b v : ℤ}

section Parsing

theorem splitRange_append {left right : List Char} (hl : left ≠ []) (hr : right ≠ [])
    (hcomma : ',' ∉ right) :
    splitRange (left ++ ',' :: right) = some (String.ofList left, String.ofList right) := by
  obtain ⟨body, c, rfl⟩ := List.eq_nil_or_concat right |>.resolve_left hr
  rw [List.concat_eq_append] at hcomma ⊢
  have hbody : ',' ∉ body.reverse := fun h => hcomma (List.mem_append_left _ (List.mem_reverse.mp h))
  have hreverse : (left ++ ',' :: (body ++ [c])).reverse = c :: (body.reverse ++ ',' :: left.reverse) := by
    simp
  have hleft : left.reverse ≠ [] := fun h => hl (List.reverse_eq_nil_iff.mp h)
  unfold splitRange
  rw [hreverse]
  simp only [cutChars_single hbody, if_neg hleft, List.reverse_reverse, List.reverse_cons]

theorem matchRange_rangeText (hbound : Brackets bound) (hl : BoundText l) (hr : BoundText r) :
    matchRange (rangeText bound l r pad) =
      some (bound, (l, String.ofList (List.replicate pad ' ' ++ r.toList))) := by
  have hpadded : List.replicate pad ' ' ++ r.toList ≠ [] :=
    List.append_ne_nil_of_right_ne_nil _ hr.nonempty
  have hcomma : ',' ∉ List.replicate pad ' ' ++ r.toList := by
    intro h
    rcases List.mem_append.mp h with h | h
    · exact absurd (List.eq_of_mem_replicate h) (by decide)
    · exact hr.noComma h
  have hnewline : '\n' ∉ l.toList ++ ',' :: (List.replicate pad ' ' ++ r.toList) := by
    intro h
    rcases List.mem_append.mp h with h | h
    · exact hl.noNewline h
    · rcases List.mem_cons.mp h with h | h
      · exact absurd h (by decide)
      · rcases List.mem_append.mp h with h | h
        · exact absurd (List.eq_of_mem_replicate h) (by decide)
        · exact hr.noNewline h
  have hsplit := splitRange_append hl.nonempty hpadded hcomma
  unfold matchRange rangeText
  rw [String.toList_ofList, List.cons_append]
  dsimp only
  rw [List.getLast?_concat]
  dsimp only
  rw [List.dropLast_concat, if_pos ⟨hbound.1, hbound.2, hnewline⟩, hsplit, String.ofList_toList]
  rfl

theorem filter_noBlank {s : List Char} (h : ' ' ∉ s) : s.filter (fun c => c ≠ ' ') = s := by
  apply List.filter_eq_self.mpr
  intro c hc
  have hne : c ≠ ' ' := by
    rintro rfl
    exact h hc
  exact decide_eq_true hne

theorem withoutBlanks_rangeText (hbound : Brackets bound) (hl : BoundText l) (hr : BoundText r) :
    withoutBlanks (rangeText bound l r pad) = rangeText bound l r 0 := by
  have hleft : bound.1 ≠ ' ' := by
    intro h
    have hmem := hbound.1
    rw [h] at hmem
    exact absurd hmem (by decide)
  have hright : bound.2 ≠ ' ' := by
    intro h
    have hmem := hbound.2
    rw [h] at hmem
    exact absurd hmem (by decide)
  have hpad : (List.replicate pad ' ').filter (fun c => c ≠ ' ') = [] := by
    apply List.filter_eq_nil_iff.mpr
    intro c hc
    rw [List.eq_of_mem_replicate hc]
    decide
  have hbody : (l.toList ++ ',' :: (List.replicate pad ' ' ++ r.toList)).filter (fun c => c ≠ ' ') =
      l.toList ++ ',' :: r.toList := by
    rw [List.filter_append, filter_noBlank hl.noBlank, List.filter_cons_of_pos (by decide),
      List.filter_append, hpad, filter_noBlank hr.noBlank, List.nil_append]
  unfold withoutBlanks rangeText
  rw [String.toList_ofList, List.filter_append, List.filter_cons, if_pos (decide_eq_true hleft), hbody,
    List.filter_cons, if_pos (decide_eq_true hright)]
  rfl

theorem parseRange_rangeText (hbound : Brackets bound) (hl : BoundText l) (hr : BoundText r) :
    parseRange (rangeText bound l r pad) = .done (bound, (l, r)) := by
  have hmatch : matchRange (rangeText bound l r 0) = some (bound, (l, r)) := by
    rw [matchRange_rangeText hbound hl hr, List.replicate_zero, List.nil_append, String.ofList_toList]
  rw [parseRange, withoutBlanks_rangeText hbound hl hr, hmatch]
  rfl

theorem boundText_decimal (a : ℤ) : BoundText (decimal a) where
  nonempty := decimal_ne_nil a
  noComma h := absurd (mem_decimal h) (by decide)
  noBlank h := absurd (mem_decimal h) (by decide)
  noNewline h := absurd (mem_decimal h) (by decide)

theorem rangeOf_eq (bound : Char × Char) (a b : ℤ) :
    rangeOf bound a b = rangeText bound (decimal a) (decimal b) 1 := by
  apply String.toList_injective
  simp [rangeOf, rangeText]

end Parsing

section Comparing

variable {p q x : ℚ}

def Above (left : Char) (x p : ℚ) : Prop := if left = '[' then p ≤ x else p < x

def Below (right : Char) (x q : ℚ) : Prop := if right = ']' then x ≤ q else x < q

/-- `x` lies between `p` and `q`, which belong to the range as the brackets say. -/
def InRange (bound : Char × Char) (p q x : ℚ) : Prop := Above bound.1 x p ∧ Below bound.2 x q

/-- `x` is rounded to the same number as a bound that it is not equal to, and this decides: a value
outside a closed bound comes in, or a value inside an open bound falls out. -/
def Blurred (bound : Char × Char) (p q x : ℚ) : Prop :=
  (rounded x = rounded p ∧ if bound.1 = '[' then x < p ∧ Below bound.2 (rounded x) (rounded q)
    else p < x ∧ Below bound.2 x q) ∨
  (rounded x = rounded q ∧ if bound.2 = ']' then q < x ∧ Above bound.1 (rounded x) (rounded p)
    else x < q ∧ Above bound.1 x p)

theorem outLeft_finite (left : Char) :
    outLeft left (.finite x) (.finite p) = false ↔ Above left x p := by
  unfold outLeft Above
  split
  · simp [Value.lt]
  · simp [Value.le, Value.lt]

theorem outRight_finite (right : Char) :
    outRight right (.finite x) (.finite q) = false ↔ Below right x q := by
  unfold outRight Below
  split
  · simp [Value.lt]
  · simp [Value.le, Value.lt]

theorem rounded_le_iff : rounded p ≤ rounded x ↔ p ≤ x ∨ x < p ∧ rounded x = rounded p := by
  constructor
  · intro h
    rcases le_or_gt p x with hle | hlt
    · exact .inl hle
    · exact .inr ⟨hlt, le_antisymm (rounded_mono hlt.le) h⟩
  · rintro (h | ⟨-, h⟩)
    · exact rounded_mono h
    · exact h.ge

theorem rounded_lt_iff : rounded p < rounded x ↔ p < x ∧ rounded x ≠ rounded p := by
  constructor
  · intro h
    refine ⟨?_, h.ne'⟩
    by_contra hle
    exact absurd (rounded_mono (not_lt.mp hle)) (not_le.mpr h)
  · rintro ⟨hlt, hne⟩
    exact lt_of_le_of_ne (rounded_mono hlt.le) hne.symm

theorem above_rounded (left : Char) : Above left (rounded x) (rounded p) ↔
    if left = '[' then Above left x p ∨ x < p ∧ rounded x = rounded p
    else Above left x p ∧ rounded x ≠ rounded p := by
  unfold Above
  split
  · exact rounded_le_iff
  · exact rounded_lt_iff

theorem below_rounded (right : Char) : Below right (rounded x) (rounded q) ↔
    if right = ']' then Below right x q ∨ q < x ∧ rounded x = rounded q
    else Below right x q ∧ rounded x ≠ rounded q := by
  unfold Below
  split
  · rw [rounded_le_iff, eq_comm]
  · rw [rounded_lt_iff, ne_comm]

/-- Rounding keeps the answer but for blurred values. -/
theorem inRange_rounded_iff : (InRange bound (rounded p) (rounded q) (rounded x) ↔ InRange bound p q x) ↔
    ¬ Blurred bound p q x := by
  unfold InRange Blurred
  rw [above_rounded, below_rounded]
  unfold Above Below
  by_cases hleft : bound.1 = '['
  · simp only [if_pos hleft, ← not_lt]
    by_cases hright : bound.2 = ']'
    · simp only [if_pos hright]
      grind
    · simp only [if_neg hright]
      grind
  · simp only [if_neg hleft]
    by_cases hright : bound.2 = ']'
    · simp only [if_pos hright, ← not_lt]
      grind
    · simp only [if_neg hright]
      grind

theorem InRange.le (h : InRange bound p q x) : p ≤ q := by
  have hleft : p ≤ x := by
    have habove := h.1
    unfold Above at habove
    split at habove
    · exact habove
    · exact habove.le
  have hright : x ≤ q := by
    have hbelow := h.2
    unfold Below at hbelow
    split at hbelow
    · exact hbelow
    · exact hbelow.le
  exact hleft.trans hright

end Comparing

/-- An integer of 64 bits. -/
def Fits (n : ℤ) : Prop := -2 ^ 63 ≤ n ∧ n < 2 ^ 63

theorem parseFloat32_fits (h : Fits a) :
    parseFloat32 (decimal a) = (.finite (rounded a), true) :=
  parseFloat32_decimal h.1 h.2.le

/-- A range that is upside down contains nothing and is an error. -/
theorem checkInRange_decimal (hbound : Brackets bound) (ha : Fits a) (hb : Fits b) (hv : Fits v) :
    checkInRange (decimal v) (rangeText bound (decimal a) (decimal b) pad) = .done () ↔
      InRange bound (rounded a) (rounded b) (rounded v) := by
  have hparse := @parseRange_rangeText bound (decimal a) (decimal b) pad hbound (boundText_decimal a)
    (boundText_decimal b)
  have hvalues : parseFloat32ExprRange (rangeText bound (decimal a) (decimal b) pad) =
      if rounded (b : ℚ) < rounded a then
        .failed (.rangeOrder (rangeText bound (decimal a) (decimal b) pad))
      else .done (bound, (.finite (rounded a), .finite (rounded b))) := by
    unfold parseFloat32ExprRange
    rw [hparse, done_bind]
    simp [parseFloat32_fits ha, parseFloat32_fits hb, Value.lt]
  unfold checkInRange
  rw [hvalues, parseFloat32_fits hv]
  by_cases horder : rounded (b : ℚ) < rounded a
  · rw [if_pos horder, failed_bind]
    constructor
    · intro h
      cases h
    · intro h
      exact absurd h.le (not_le.mpr horder)
  · rw [if_neg horder, done_bind, InRange, ← outLeft_finite, ← outRight_finite]
    dsimp only
    split_ifs with hl hr
    · simp [hl]
    · simp [hr]
    · simp [Bool.eq_false_iff.mpr hl, Bool.eq_false_iff.mpr hr]

end Config
