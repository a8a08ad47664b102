import Mathlib.NumberTheory.LucasPrimality
import Mathlib.Tactic.ReduceModChar
import Mathlib.Tactic.NormNum.Prime
import BluekingDbm.Library.Stride

/-! The order in which a tick of the pump takes the queues. -/
namespace Dispatch

def rotationMultiplier : ℕ := 2654435761

/-- `_rotate_for_tick`. -/
def rotateForTick {α : Type*} (queues : List α) (currentTickId : ℤ) : List α :=
  if queues.length < 2 then queues
  else
    let offset := (currentTickId * rotationMultiplier % queues.length).toNat
    queues.drop offset ++ queues.take offset

/-- The queues that a tick submits before its deadline: the first of its order. -/
def submitted {α : Type*} (queues : List α) (currentTickId : ℤ) (count : ℕ) : List α :=
  (rotateForTick queues currentTickId).take count

/-- The certificate: 22 has order `rotationMultiplier - 1`. -/
theorem rotationMultiplier_prime : Nat.Prime rotationMultiplier := by
  show Nat.Prime 2654435761
  apply lucas_primality _ 22
  · norm_num only
    reduce_mod_char
  · intro q hq hdvd
    have hfactors : q ∣ 2 ^ 4 * 3 * 5 * 17 * 31 ^ 2 * 677 := hdvd
    have heq : ∀ {p : ℕ}, p.Prime → q ∣ p → q = p := fun hp h =>
      (Nat.prime_dvd_prime_iff_eq hq hp).mp h
    have hmem : q = 2 ∨ q = 3 ∨ q = 5 ∨ q = 17 ∨ q = 31 ∨ q = 677 := by
      simp only [hq.dvd_mul] at hfactors
      rcases hfactors with ((((h | h) | h) | h) | h) | h
      · exact .inl (heq Nat.prime_two (hq.dvd_of_dvd_pow h))
      · exact .inr (.inl (heq Nat.prime_three h))
      · exact .inr (.inr (.inl (heq Nat.prime_five h)))
      · exact .inr (.inr (.inr (.inl (heq (by norm_num) h))))
      · exact .inr (.inr (.inr (.inr (.inl (heq (by norm_num) (hq.dvd_of_dvd_pow h))))))
      · exact .inr (.inr (.inr (.inr (.inr (heq (by norm_num) h)))))
    rcases hmem with rfl | rfl | rfl | rfl | rfl | rfl
    all_goals
      norm_num only
      reduce_mod_char
      decide

/-- A prime has no divisor in common with a smaller length. -/
theorem rotationMultiplier_coprime {n : ℕ} (hpos : 0 < n) (hlt : n < rotationMultiplier) :
    IsCoprime (rotationMultiplier : ℤ) n := by
  apply Nat.isCoprime_iff_coprime.mpr
  apply (Nat.Prime.coprime_iff_not_dvd rotationMultiplier_prime).mpr
  intro hdvd
  exact absurd (Nat.le_of_dvd hpos hdvd) (Nat.not_le.mpr hlt)

section Fair

variable {α : Type*} {queues : List α} {q : α}

theorem rotateForTick_eq (h : 2 ≤ queues.length) (tick : ℤ) :
    rotateForTick queues tick =
      Stride.turned queues (tick * rotationMultiplier % queues.length).toNat :=
  if_neg (by omega)

theorem rotateForTick_perm (tick : ℤ) : (rotateForTick queues tick).Perm queues := by
  unfold rotateForTick
  split
  · exact List.Perm.refl queues
  · exact Stride.turned_perm queues _

/-- A tick that submits anything submits the first queue of its order. -/
theorem mem_submitted {tick : ℤ} {count : ℕ} (hcount : 1 ≤ count)
    (hhead : (rotateForTick queues tick).head? = some q) : q ∈ submitted queues tick count := by
  obtain ⟨rest, hrest⟩ := List.head?_eq_some_iff.mp hhead
  obtain ⟨k, rfl⟩ := Nat.exists_eq_add_of_le' hcount
  rw [submitted, hrest, List.take_succ_cons]
  exact List.mem_cons_self

/-- Every tick takes every queue, each queue is the first once in as many consecutive ticks as there
are queues, and so none waits longer if every tick submits one. -/
theorem rotation_fair (hnodup : queues.Nodup) (hmany : 2 ≤ queues.length)
    (hfew : queues.length < rotationMultiplier) (start : ℤ) :
    (∀ tick, (rotateForTick queues tick).Perm queues) ∧
      (∀ q ∈ queues, ∃! i : ℕ, i < queues.length ∧
        (rotateForTick queues (start + i)).head? = some q) ∧
      ∀ count : ℤ → ℕ, (∀ tick, 1 ≤ count tick) → ∀ q ∈ queues,
        ∃ i : ℕ, i < queues.length ∧ q ∈ submitted queues (start + i) (count (start + i)) := by
  have hcoprime := rotationMultiplier_coprime (by omega) hfew
  have honce : ∀ q ∈ queues, ∃! i : ℕ, i < queues.length ∧
      (rotateForTick queues (start + i)).head? = some q := by
    intro q hq
    simp only [rotateForTick_eq hmany]
    exact Stride.head_once hcoprime hnodup start hq
  refine ⟨rotateForTick_perm, honce, fun count hcount q hq => ?_⟩
  obtain ⟨i, ⟨hi, hhead⟩, -⟩ := honce q hq
  exact ⟨i, hi, mem_submitted (hcount _) hhead⟩

theorem rotation_fair_three : ∃ i : ℕ, i < ["ai", "portrait", "nameservice"].length ∧
    "portrait" ∈ submitted ["ai", "portrait", "nameservice"] (170000000 + i) 1 :=
  (rotation_fair (by decide) (by decide) (by decide) 170000000).2.2 (fun _ => 1) (fun _ => le_rfl)
    "portrait" (by decide)

end Fair

end Dispatch
