import Mathlib.Algebra.BigOperators.Group.Finset.Basic
import Mathlib.Algebra.Order.BigOperators.Group.Finset
import Mathlib.Algebra.Order.Ring.Int

/-! Levelling: a largest member of a family goes down by one step, again and again. How often any
member goes down is told by counting the steps that lie above a level. -/
namespace Levelling

variable {ι : Type*} [DecidableEq ι] {keys : Finset ι} {step low v a : ℤ}
  {tie : (ι → ℤ) → ι → Prop} {s t : ι → ℤ} {i j : ι} {n : ℕ}

/-- `n` steps from `s`; each takes from a largest member that is not below `low`, and `tie` tells
which of several may be taken. -/
inductive Levels (keys : Finset ι) (step low : ℤ) (tie : (ι → ℤ) → ι → Prop) (s : ι → ℤ) :
    ℕ → (ι → ℤ) → Prop
  | refl : Levels keys step low tie s 0 s
  | take {n : ℕ} {t : ι → ℤ} {i : ι} : Levels keys step low tie s n t → i ∈ keys → low ≤ t i →
      (∀ j ∈ keys, t j ≤ t i) → tie t i →
      Levels keys step low tie s (n + 1) (Function.update t i (t i - step))

/-- How many steps from `a` down begin at `v` or above. -/
def steps (step v a : ℤ) : ℕ := ((a - v) / step + 1).toNat

/-- The steps of a whole family. -/
def above (keys : Finset ι) (step v : ℤ) (s : ι → ℤ) : ℕ := ∑ j ∈ keys, steps step v (s j)

theorem steps_of_lt (hstep : 0 < step) (h : a < v) : steps step v a = 0 := by
  have hneg : (a - v) / step < 0 := Int.ediv_neg_of_neg_of_pos (by omega) hstep
  unfold steps
  omega

theorem steps_of_le (hstep : 0 < step) (h : v ≤ a) :
    steps step v a = steps step v (a - step) + 1 := by
  have hnonneg : 0 ≤ (a - v) / step := Int.ediv_nonneg (by omega) (by omega)
  have hless : (a - step - v) / step = (a - v) / step - 1 := by
    have hone : a - step - v = a - v + step * -1 := by omega
    rw [hone, Int.add_mul_ediv_left _ _ (by omega)]
    omega
  unfold steps
  omega

omit [DecidableEq ι] in
theorem above_eq_zero (hstep : 0 < step) (h : ∀ j ∈ keys, s j < v) : above keys step v s = 0 :=
  Finset.sum_eq_zero fun j hj => steps_of_lt hstep (h j hj)

omit [DecidableEq ι] in
theorem above_pos (hstep : 0 < step) (hi : i ∈ keys) (h : v ≤ s i) : 0 < above keys step v s := by
  apply Finset.sum_pos' (fun j _ => Nat.zero_le _)
  refine ⟨i, hi, ?_⟩
  rw [steps_of_le hstep h]
  omega

theorem sum_take {β : Type*} [AddCommMonoid β] (w : ℤ → β) (hi : i ∈ keys) (x : ℤ) :
    ∑ j ∈ keys, w (Function.update t i x j) + w (t i) = ∑ j ∈ keys, w (t j) + w x := by
  have hothers : ∑ j ∈ keys.erase i, w (Function.update t i x j) = ∑ j ∈ keys.erase i, w (t j) := by
    apply Finset.sum_congr rfl
    intro j hj
    rw [Function.update_of_ne (Finset.ne_of_mem_erase hj)]
  rw [← Finset.sum_erase_add keys _ hi, ← Finset.sum_erase_add keys (fun j => w (t j)) hi, hothers,
    Function.update_self, add_assoc, add_assoc, add_comm (w x)]

theorem above_take (hstep : 0 < step) (hi : i ∈ keys) (h : v ≤ t i) :
    above keys step v t = above keys step v (Function.update t i (t i - step)) + 1 := by
  have hsum := sum_take (t := t) (steps step v) hi (t i - step)
  rw [steps_of_le hstep h] at hsum
  unfold above
  omega

theorem above_take_of_lt (hstep : 0 < step) (hi : i ∈ keys) (h : t i < v) :
    above keys step v t = above keys step v (Function.update t i (t i - step)) := by
  have hsum := sum_take (t := t) (steps step v) hi (t i - step)
  rw [steps_of_lt hstep h, steps_of_lt hstep (by omega)] at hsum
  unfold above
  omega

namespace Levels

theorem sum_eq (h : Levels keys step low tie s n t) :
    ∑ j ∈ keys, t j + step * n = ∑ j ∈ keys, s j := by
  induction h with
  | refl => simp
  | @take n t i _ hi _ _ _ ih =>
    have hsum := sum_take (t := t) (fun x => x) hi (t i - step)
    have hmul : step * ((n + 1 : ℕ) : ℤ) = step * n + step := by
      rw [Nat.cast_succ, mul_add, mul_one]
    rw [hmul]
    omega

theorem le (hstep : 0 < step) (h : Levels keys step low tie s n t) (j : ι) : t j ≤ s j := by
  induction h with
  | refl => exact le_refl _
  | @take n t i _ _ _ _ _ ih =>
    by_cases hj : j = i
    · subst hj
      rw [Function.update_self]
      omega
    · rwa [Function.update_of_ne hj]

theorem dvd (h : Levels keys step low tie s n t) (j : ι) : step ∣ s j - t j := by
  induction h with
  | refl => simp
  | @take n t i _ _ _ _ _ ih =>
    by_cases hj : j = i
    · subst hj
      rw [Function.update_self]
      have hsplit : s j - (t j - step) = s j - t j + step := by omega
      rw [hsplit]
      exact Int.dvd_add ih (dvd_refl step)
    · rwa [Function.update_of_ne hj]

/-- What goes down keeps what lies one step below `low`. -/
theorem kept (h : Levels keys step low tie s n t) (hj : t j ≠ s j) : low - step ≤ t j := by
  induction h with
  | refl => exact absurd rfl hj
  | @take n t i _ _ hlow _ _ ih =>
    by_cases hji : j = i
    · subst hji
      rw [Function.update_self]
      omega
    · rw [Function.update_of_ne hji] at hj ⊢
      exact ih hj

theorem above_le (hstep : 0 < step) (h : Levels keys step low tie s n t) (v : ℤ) :
    above keys step v s ≤ above keys step v t + n := by
  induction h with
  | refl => omega
  | @take n t i _ hi _ _ _ ih =>
    by_cases hv : v ≤ t i
    · have := above_take hstep hi hv
      omega
    · have := above_take_of_lt hstep hi (not_le.mp hv)
      omega

/-- As long as some member is not below `v`, no step begins below `v`. -/
theorem above_eq (hstep : 0 < step) (h : Levels keys step low tie s n t) (hi : i ∈ keys)
    (hv : v ≤ t i) : above keys step v s = above keys step v t + n := by
  induction h with
  | refl => omega
  | @take n t p _ hp _ hmax _ ih =>
    have hmono : Function.update t p (t p - step) i ≤ t i := by
      by_cases hip : i = p
      · subst hip
        rw [Function.update_self]
        omega
      · rw [Function.update_of_ne hip]
    have hti : v ≤ t i := hv.trans hmono
    have := above_take hstep hp (hti.trans (hmax i hi))
    have := ih hti
    omega

/-- No step begins below `low`. -/
theorem above_low (hstep : 0 < step) (h : Levels keys step low tie s n t) :
    above keys step low s = above keys step low t + n := by
  induction h with
  | refl => omega
  | @take n t p _ hp hlow _ _ ih =>
    have := above_take hstep hp hlow
    omega

/-- A member goes below its level `v` only when everything else has come down to it. -/
theorem above_lt (hstep : 0 < step) (h : Levels keys step low tie s n t) (hv : v ≤ s i)
    (hdvd : step ∣ s i - v) (hlower : t i < v) : above keys step (v + 1) s < n := by
  induction h with
  | refl => omega
  | @take n t p hlevels hp _ hmax _ ih =>
    by_cases hbefore : t i < v
    · have := ih hbefore
      omega
    · by_cases hip : i = p
      · subst hip
        rw [Function.update_self] at hlower
        have hti : t i = v := by
          obtain ⟨k, hk⟩ := hdvd
          obtain ⟨l, hl⟩ := hlevels.dvd i
          have hdiff : t i - v = step * (k - l) := by
            rw [mul_sub]
            omega
          have hzero : k - l = 0 := by
            by_contra hne
            rcases lt_or_gt_of_ne hne with hneg | hpos
            · have := mul_neg_of_pos_of_neg hstep hneg
              omega
            · have := (le_mul_iff_one_le_right hstep).mpr (show 1 ≤ k - l by omega)
              omega
          rw [hzero, mul_zero] at hdiff
          omega
        have hnone := above_eq_zero (v := v + 1) hstep fun j hj => by
          have := hmax j hj
          show t j < v + 1
          omega
        have := hlevels.above_le hstep (v + 1)
        omega
      · rw [Function.update_of_ne hip] at hlower
        omega

/-- A member that is taken first among equals goes below its level as soon as everything else has
come down to it. -/
theorem le_above (hstep : 0 < step) (h : Levels keys step low tie s n t)
    (hfirst : ∀ t p, tie t p → p ≠ i → t i < t p) (hv : v ≤ t i) :
    n ≤ above keys step (v + 1) s := by
  have hall : above keys step (v + 1) s = above keys step (v + 1) t + n := by
    induction h with
    | refl => omega
    | @take n t p _ hp _ _ htie ih =>
      by_cases hip : i = p
      · subst hip
        rw [Function.update_self] at hv
        have := above_take hstep hp (show v + 1 ≤ t i by omega)
        have := ih (by omega)
        omega
      · rw [Function.update_of_ne hip] at hv
        have hless := hfirst t p htie (Ne.symm hip)
        have := above_take hstep hp (show v + 1 ≤ t p by omega)
        have := ih hv
        omega
  omega

end Levels

end Levelling
