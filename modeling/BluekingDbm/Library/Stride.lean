import Mathlib.RingTheory.Coprime.Basic
import Mathlib.Data.Int.ModEq
import Mathlib.Tactic.LinearCombination
import Mathlib.Data.List.Nodup

/-! Going round a list by a fixed stride. -/
namespace Stride

variable {α : Type*} {n j : ℕ} {m start : ℤ} {l : List α} {a : α}

/-- The list from position `k` on, then what stands before it. -/
def turned (l : List α) (k : ℕ) : List α := l.drop k ++ l.take k

theorem turned_perm (l : List α) (k : ℕ) : (turned l k).Perm l := by
  have hperm := @List.perm_append_comm _ (l.drop k) (l.take k)
  rwa [List.take_append_drop] at hperm

theorem head?_turned {k : ℕ} (hk : k < l.length) : (turned l k).head? = l[k]? := by
  rw [turned, List.drop_eq_getElem_cons hk, List.getElem?_eq_getElem hk]
  rfl

/-- Two steps of a stride without a divisor in common with the length are at the same position only
a multiple of the length apart. -/
theorem dvd_of_emod_eq (hm : IsCoprime m n) {x y : ℤ} (h : x * m % n = y * m % n) :
    (n : ℤ) ∣ y - x := by
  have hdvd : (n : ℤ) ∣ (y - x) * m := by
    have := Int.modEq_iff_dvd.mp (show x * m ≡ y * m [ZMOD n] from h)
    rwa [← sub_mul] at this
  exact hm.symm.dvd_of_dvd_mul_right hdvd

/-- Such a stride brings up each position. -/
theorem exists_visit (hm : IsCoprime m n) (start : ℤ) (hj : j < n) :
    ∃ i : ℕ, i < n ∧ (start + i) * m % n = j := by
  obtain ⟨u, v, huv⟩ := hm
  have hn : (0 : ℤ) < n := by omega
  have hrest := Int.emod_add_mul_ediv (j * u - start) n
  have hpos := Int.emod_nonneg (j * u - start) hn.ne'
  have hlt := Int.emod_lt_of_pos (j * u - start) hn
  refine ⟨((j * u - start) % n).toNat, by omega, ?_⟩
  rw [Int.toNat_of_nonneg hpos]
  have hj' : (j : ℤ) % n = j := Int.emod_eq_of_lt (by omega) (by omega)
  rw [← hj']
  apply Int.modEq_iff_dvd.mpr
  -- the step is `j * u` up to a multiple of `n`, and `u` undoes the stride
  refine ⟨j * v + (j * u - start) / n * m, ?_⟩
  rw [hj']
  linear_combination (-(j : ℤ)) * huv - m * hrest

/-- It brings each position up exactly once in any `n` consecutive steps. -/
theorem visits_once (hm : IsCoprime m n) (start : ℤ) (hj : j < n) :
    ∃! i : ℕ, i < n ∧ (start + i) * m % n = j := by
  obtain ⟨i, hi, hij⟩ := exists_visit hm start hj
  refine ⟨i, ⟨hi, hij⟩, ?_⟩
  rintro k ⟨hk, hkj⟩
  have hdvd := dvd_of_emod_eq hm (hkj.trans hij.symm)
  have hzero := Int.eq_zero_of_abs_lt_dvd hdvd (by rw [abs_lt]; omega)
  omega

/-- A list without repetitions turned by such a stride has each element at its head exactly once in
any `n` consecutive steps. -/
theorem head_once (hm : IsCoprime m l.length) (hnodup : l.Nodup) (start : ℤ) (ha : a ∈ l) :
    ∃! i : ℕ, i < l.length ∧
      (turned l ((start + i) * m % l.length).toNat).head? = some a := by
  obtain ⟨j, hj, rfl⟩ := List.mem_iff_getElem.mp ha
  have hn : (0 : ℤ) < l.length := by omega
  have hhead : ∀ i : ℕ, (turned l ((start + i) * m % l.length).toNat).head? = some l[j] ↔
      (start + i) * m % l.length = j := by
    intro i
    have hpos := Int.emod_nonneg ((start + i) * m) hn.ne'
    have hlt := Int.emod_lt_of_pos ((start + i) * m) hn
    have hk : ((start + i) * m % l.length).toNat < l.length := by omega
    rw [head?_turned hk, List.getElem?_eq_getElem hk, Option.some.injEq,
      hnodup.getElem_inj_iff]
    omega
  simp only [hhead]
  exact visits_once hm start hj

end Stride
