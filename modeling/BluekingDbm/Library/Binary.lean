import Mathlib.Data.Int.Log
import Mathlib.Data.Rat.Floor
import Mathlib.Tactic.Linarith
import Mathlib.Tactic.NormNum

/-! Rounding of a rational number to the nearest number with 53 significant bits, ties to even. The
exponent is not bounded, so nothing overflows and nothing is subnormal. -/
namespace Binary64

variable {q : ℚ} {k : ℤ}

/-- The distance of neighbouring numbers with 53 bits in the binade of `q`. -/
def ulp (q : ℚ) : ℚ := 2 ^ (Int.log 2 |q| - 52)

def roundHalfEven (q : ℚ) : ℤ :=
  let n := ⌊q⌋
  if q - n < 1 / 2 then n else if 1 / 2 < q - n then n + 1 else if n % 2 = 0 then n else n + 1

/-- The value of a float64 operation whose exact result is `q`. -/
def rounded (q : ℚ) : ℚ := roundHalfEven (q / ulp q) * ulp q

theorem ulp_pos : 0 < ulp q := zpow_pos (by norm_num) _

theorem le_roundHalfEven (h : (k : ℚ) ≤ q) : k ≤ roundHalfEven q := by
  have hk : k ≤ ⌊q⌋ := Int.le_floor.mpr h
  unfold roundHalfEven
  simp only
  split
  · exact hk
  · split
    · omega
    · split <;> omega

theorem rounded_pos (h : 0 < q) : 0 < rounded q := by
  have hle : (2 : ℚ) ^ Int.log 2 |q| ≤ q := by
    rw [abs_of_pos h]
    exact Int.zpow_log_le_self Nat.one_lt_two h
  have hone : ((1 : ℤ) : ℚ) ≤ q / ulp q := by
    rw [Int.cast_one, le_div_iff₀ ulp_pos, one_mul]
    refine le_trans ?_ hle
    exact zpow_le_zpow_right₀ (by norm_num) (by omega)
  have hpos : (0 : ℚ) < roundHalfEven (q / ulp q) := by
    exact_mod_cast le_roundHalfEven hone
  exact mul_pos hpos ulp_pos

theorem roundHalfEven_nonpos (h : q < 0) : roundHalfEven q ≤ 0 := by
  have hfloor : ⌊q⌋ < 0 := Int.floor_lt.mpr (by exact_mod_cast h)
  unfold roundHalfEven
  simp only
  split
  · omega
  · split
    · omega
    · split <;> omega

theorem rounded_nonpos (h : q < 0) : rounded q ≤ 0 := by
  have hround : roundHalfEven (q / ulp q) ≤ 0 := roundHalfEven_nonpos (div_neg_of_neg_of_pos h ulp_pos)
  exact mul_nonpos_of_nonpos_of_nonneg (by exact_mod_cast hround) ulp_pos.le

end Binary64

/-! The numbers of a float32: rounding to 24 significant bits, and comparison. -/
namespace Binary32

open Binary64 (roundHalfEven le_roundHalfEven)

variable {p q : ℚ} {k n : ℤ}

/-- A float32; the sign of zero is left out. -/
inductive Value
  | nan
  | inf (neg : Bool)
  | finite (q : ℚ)
  deriving DecidableEq

/-- The distance of neighbouring numbers in the binade of `q`; below the normal numbers it stays the same. -/
def ulp (q : ℚ) : ℚ := 2 ^ max (Int.log 2 |q| - 23) (-149)

def rounded (q : ℚ) : ℚ := roundHalfEven (q / ulp q) * ulp q

namespace Value

/-- The order of the numbers; nothing is below or above a NaN. -/
def lt : Value → Value → Bool
  | .nan, _ => false
  | _, .nan => false
  | .inf neg, .inf neg' => neg && !neg'
  | .inf neg, .finite _ => neg
  | .finite _, .inf neg => !neg
  | .finite p, .finite q => p < q

def le (a b : Value) : Bool :=
  match a, b with
  | .nan, _ => false
  | _, .nan => false
  | a, b => !lt b a

end Value

theorem ulp_pos : 0 < ulp q := zpow_pos (by norm_num) _

section Nearest

/-- The nearest integer, of two the even one. -/
def Nearest (q : ℚ) (n : ℤ) : Prop := |q - n| < 1 / 2 ∨ |q - n| = 1 / 2 ∧ n % 2 = 0

theorem Nearest.dist (h : Nearest q n) : |q - n| ≤ 1 / 2 := by
  rcases h with h | ⟨h, -⟩
  · exact h.le
  · exact h.le

theorem Nearest.unique (hk : Nearest q k) (hn : Nearest q n) : k = n := by
  have hdist : ∀ {k n : ℤ}, Nearest q k → Nearest q n → ¬ k < n := by
    intro k n hk hn hlt
    have hk' := abs_le.mp hk.dist
    have hn' := abs_le.mp hn.dist
    have hcast : (k : ℚ) + 1 ≤ n := by exact_mod_cast hlt
    -- both are half a unit away, so both are even
    have hkeq : q - k = 1 / 2 := by linarith
    have hneq : q - n = -(1 / 2) := by linarith
    have hnext : (k : ℚ) + 1 = n := by linarith
    have hnext' : k + 1 = n := by exact_mod_cast hnext
    have habs : |(1 / 2 : ℚ)| = 1 / 2 := abs_of_pos (by norm_num)
    have hkeven : k % 2 = 0 := by
      rcases hk with h | ⟨-, h⟩
      · rw [hkeq, habs] at h
        exact absurd h (lt_irrefl _)
      · exact h
    have hneven : n % 2 = 0 := by
      rcases hn with h | ⟨-, h⟩
      · rw [hneq, abs_neg, habs] at h
        exact absurd h (lt_irrefl _)
      · exact h
    omega
  have hkn := hdist hk hn
  have hnk := hdist hn hk
  omega

theorem Nearest.neg (h : Nearest q n) : Nearest (-q) (-n) := by
  have habs : |-q - ((-n : ℤ) : ℚ)| = |q - n| := by
    push_cast
    rw [← abs_neg]
    congr 1
    linarith
  unfold Nearest
  rw [habs]
  rcases h with h | ⟨h, heven⟩
  · exact .inl h
  · exact .inr ⟨h, by omega⟩

theorem nearest_int (n : ℤ) : Nearest n n := by
  left
  rw [sub_self, abs_zero]
  norm_num

theorem nearest_roundHalfEven (q : ℚ) : Nearest q (roundHalfEven q) := by
  have hfloor := Int.floor_le q
  have hlt := Int.lt_floor_add_one q
  unfold roundHalfEven Nearest
  simp only
  split_ifs with hlow hhigh heven
  · left
    rw [abs_lt]
    constructor <;> linarith
  · left
    rw [abs_lt]
    push_cast
    constructor <;> linarith
  · right
    have hhalf : q - ⌊q⌋ = 1 / 2 := le_antisymm (not_lt.mp hhigh) (not_lt.mp hlow)
    rw [hhalf]
    exact ⟨abs_of_pos (by norm_num), heven⟩
  · right
    have hhalf : q - ⌊q⌋ = 1 / 2 := le_antisymm (not_lt.mp hhigh) (not_lt.mp hlow)
    refine ⟨?_, by omega⟩
    have hval : q - ((⌊q⌋ + 1 : ℤ) : ℚ) = -(1 / 2) := by
      push_cast
      linarith
    rw [hval, abs_neg]
    exact abs_of_pos (by norm_num)

theorem roundHalfEven_int (n : ℤ) : roundHalfEven n = n :=
  (nearest_roundHalfEven n).unique (nearest_int n)

theorem roundHalfEven_neg (q : ℚ) : roundHalfEven (-q) = -roundHalfEven q :=
  (nearest_roundHalfEven (-q)).unique (nearest_roundHalfEven q).neg

theorem roundHalfEven_mono (h : p ≤ q) : roundHalfEven p ≤ roundHalfEven q := by
  by_contra hlt
  have hp := abs_le.mp (nearest_roundHalfEven p).dist
  have hq := abs_le.mp (nearest_roundHalfEven q).dist
  have hcast : (roundHalfEven q : ℚ) + 1 ≤ roundHalfEven p := by exact_mod_cast not_le.mp hlt
  have heq : p = q := by linarith
  exact hlt (by rw [heq])

theorem roundHalfEven_le (h : q ≤ k) : roundHalfEven q ≤ k := by
  have hmono := roundHalfEven_mono h
  rwa [roundHalfEven_int] at hmono

end Nearest

section Monotone

theorem rounded_zero : rounded 0 = 0 := by
  have hzero : roundHalfEven 0 = 0 := by exact_mod_cast roundHalfEven_int 0
  rw [rounded, zero_div, hzero]
  norm_num

theorem rounded_neg (q : ℚ) : rounded (-q) = -rounded q := by
  have hulp : ulp (-q) = ulp q := by rw [ulp, abs_neg, ulp]
  rw [rounded, rounded, hulp, neg_div, roundHalfEven_neg]
  push_cast
  exact neg_mul _ _

theorem rounded_nonneg (h : 0 ≤ q) : 0 ≤ rounded q := by
  have hdiv : ((0 : ℤ) : ℚ) ≤ q / ulp q := by
    rw [Int.cast_zero]
    exact div_nonneg h ulp_pos.le
  have hround : (0 : ℚ) ≤ roundHalfEven (q / ulp q) := by exact_mod_cast le_roundHalfEven hdiv
  exact mul_nonneg hround ulp_pos.le

/-- A power of two as a multiple of the distance. -/
theorem zpow_eq_mul_ulp {e : ℤ} (hulp : max (Int.log 2 |q| - 23) (-149) ≤ e) :
    ∃ k : ℤ, (2 : ℚ) ^ e = k * ulp q := by
  obtain ⟨m, hm⟩ := Int.eq_ofNat_of_zero_le (sub_nonneg.mpr hulp)
  refine ⟨2 ^ m, ?_⟩
  rw [ulp]
  push_cast
  rw [← zpow_natCast, ← zpow_add₀ (by norm_num), ← hm, sub_add_cancel]

theorem rounded_le_zpow {e : ℤ} (hulp : max (Int.log 2 |q| - 23) (-149) ≤ e)
    (h : q ≤ 2 ^ e) : rounded q ≤ 2 ^ e := by
  obtain ⟨k, hk⟩ := zpow_eq_mul_ulp hulp
  rw [hk] at h ⊢
  have hround : (roundHalfEven (q / ulp q) : ℚ) ≤ k := by
    exact_mod_cast roundHalfEven_le ((div_le_iff₀ ulp_pos).mpr h)
  exact mul_le_mul_of_nonneg_right hround ulp_pos.le

theorem zpow_le_rounded {e : ℤ} (hulp : max (Int.log 2 |q| - 23) (-149) ≤ e)
    (h : 2 ^ e ≤ q) : 2 ^ e ≤ rounded q := by
  obtain ⟨k, hk⟩ := zpow_eq_mul_ulp hulp
  rw [hk] at h ⊢
  have hround : (k : ℚ) ≤ roundHalfEven (q / ulp q) := by
    exact_mod_cast le_roundHalfEven ((le_div_iff₀ ulp_pos).mpr h)
  exact mul_le_mul_of_nonneg_right hround ulp_pos.le

theorem rounded_mono_pos (hp : 0 < p) (h : p ≤ q) : rounded p ≤ rounded q := by
  have hq : 0 < q := hp.trans_le h
  have hlog : Int.log 2 |p| ≤ Int.log 2 |q| := by
    rw [abs_of_pos hp, abs_of_pos hq]
    exact Int.log_mono_right hp h
  by_cases hsame : max (Int.log 2 |p| - 23) (-149) = max (Int.log 2 |q| - 23) (-149)
  · have hulp : ulp p = ulp q := by rw [ulp, hsame, ulp]
    have hdiv : p / ulp p ≤ q / ulp q := by
      rw [hulp]
      exact div_le_div_of_nonneg_right h ulp_pos.le
    have hround : (roundHalfEven (p / ulp p) : ℚ) ≤ roundHalfEven (q / ulp q) := by
      exact_mod_cast roundHalfEven_mono hdiv
    calc rounded p = roundHalfEven (p / ulp p) * ulp q := by rw [rounded, hulp]
      _ ≤ rounded q := mul_le_mul_of_nonneg_right hround ulp_pos.le
  · -- a power of two stands between numbers of different binades
    have hpow : p ≤ 2 ^ Int.log 2 |q| := by
      have hlt : p < (2 : ℚ) ^ (Int.log 2 p + 1) := Int.lt_zpow_succ_log_self Nat.one_lt_two p
      rw [abs_of_pos hp] at hlog hsame
      refine hlt.le.trans (zpow_le_zpow_right₀ (by norm_num) ?_)
      omega
    have hqpow : 2 ^ Int.log 2 |q| ≤ q := by
      have hle : (2 : ℚ) ^ Int.log 2 q ≤ q := Int.zpow_log_le_self Nat.one_lt_two hq
      rwa [abs_of_pos hq]
    exact (rounded_le_zpow (by omega) hpow).trans (zpow_le_rounded (by omega) hqpow)

theorem rounded_mono (h : p ≤ q) : rounded p ≤ rounded q := by
  rcases le_or_gt p 0 with hp | hp
  · rcases le_or_gt 0 q with hq | hq
    · have hneg := rounded_nonneg (neg_nonneg.mpr hp)
      have hpos := rounded_nonneg hq
      rw [rounded_neg] at hneg
      linarith
    · have hmono := rounded_mono_pos (neg_pos.mpr hq) (neg_le_neg h)
      rw [rounded_neg, rounded_neg] at hmono
      linarith
  · exact rounded_mono_pos hp h

/-- Powers of two are kept. -/
theorem rounded_zpow {e : ℤ} (he : -149 ≤ e) : rounded (2 ^ e) = 2 ^ e := by
  have hlog : Int.log 2 |(2 : ℚ) ^ e| = e := by
    rw [abs_of_pos (zpow_pos (by norm_num) e)]
    have hlog : Int.log 2 (((2 : ℕ) : ℚ) ^ e) = e := Int.log_zpow Nat.one_lt_two e
    exact hlog
  exact le_antisymm (rounded_le_zpow (by omega) le_rfl) (zpow_le_rounded (by omega) le_rfl)

theorem abs_rounded_le {e : ℤ} (he : -149 ≤ e) (h : |q| ≤ 2 ^ e) : |rounded q| ≤ 2 ^ e := by
  obtain ⟨hlow, hhigh⟩ := abs_le.mp h
  have hle := rounded_mono hhigh
  have hge := rounded_mono hlow
  rw [rounded_neg] at hge
  rw [rounded_zpow he] at hle hge
  exact abs_le.mpr ⟨hge, hle⟩

end Monotone

end Binary32
