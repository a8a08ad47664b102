import BluekingDbm.Migration.Cluster

/-! The slots are cut into as many segments as there are nodes; the first ones are a slot longer where
the division leaves a remainder. -/
namespace Migration

def totalSlots : ℕ := defaultMaxSlots + 1

/-- First and last slot of a segment. -/
def getBESlot (idxCount idx slotCount : ℕ) : ℕ × ℕ :=
  let remainder := totalSlots % idxCount
  if idx < remainder then (idx * (slotCount + 1), idx * (slotCount + 1) + slotCount)
  else
    let beginSlotNum := remainder * (slotCount + 1) + (idx - remainder) * slotCount
    (beginSlotNum, beginSlotNum + slotCount - 1)

/-- The loop from the first slot of a segment to the last. -/
def segmentSlots (idxCount idx slotCount : ℕ) : List ℕ :=
  let (beginSlotNum, endSlotNum) := getBESlot idxCount idx slotCount
  List.range' beginSlotNum (endSlotNum + 1 - beginSlotNum)

/-- Where a segment starts. -/
def bound (n i : ℕ) : ℕ := i * (totalSlots / n) + min i (totalSlots % n)

variable {n i j s : ℕ}

theorem bound_zero : bound n 0 = 0 := by simp [bound]

theorem bound_last (hn : 0 < n) : bound n n = totalSlots := by
  have hlt : totalSlots % n < n := Nat.mod_lt _ hn
  have hdiv := Nat.div_add_mod totalSlots n
  rw [bound, min_eq_right hlt.le]
  omega

/-- Sizes differ by at most one. -/
theorem bound_succ : bound n (i + 1) = bound n i + totalSlots / n ∨
    bound n (i + 1) = bound n i + totalSlots / n + 1 := by
  have hmul : (i + 1) * (totalSlots / n) = i * (totalSlots / n) + totalSlots / n := Nat.succ_mul ..
  rw [bound, bound, hmul]
  omega

theorem bound_mono (hij : i ≤ j) : bound n i ≤ bound n j := by
  induction j, hij using Nat.le_induction with
  | base => exact le_rfl
  | succ j _ ih =>
    refine ih.trans ?_
    rcases @bound_succ n j with h | h
    · rw [h]
      exact Nat.le_add_right ..
    · rw [h, Nat.add_assoc]
      exact Nat.le_add_right ..

theorem bound_lt_total (hn : 0 < n) (hi : i ≤ n) : bound n i ≤ totalSlots :=
  (bound_mono hi).trans_eq (bound_last hn)

/-- The loop runs over the slots between two bounds. -/
theorem mem_segmentSlots (hn : 0 < n) :
    s ∈ segmentSlots n i (totalSlots / n) ↔ bound n i ≤ s ∧ s < bound n (i + 1) := by
  have hmod : totalSlots % n < n := Nat.mod_lt _ hn
  have hdiv := Nat.div_add_mod totalSlots n
  have hmul : (i + 1) * (totalSlots / n) = i * (totalSlots / n) + totalSlots / n := Nat.succ_mul ..
  rw [segmentSlots, getBESlot]
  by_cases hi : i < totalSlots % n
  · have hfirst : i * (totalSlots / n + 1) = i * (totalSlots / n) + i := Nat.mul_succ ..
    simp only [if_pos hi, List.mem_range'_1, bound, hmul, hfirst]
    omega
  · -- only the empty segments behind the last slot have no slot to count
    have hpos : totalSlots / n = 0 → 0 < totalSlots % n := by
      intro hzero
      rw [hzero] at hdiv
      have htotal : totalSlots = 16384 := rfl
      omega
    have hsplit : i * (totalSlots / n) =
        totalSlots % n * (totalSlots / n) + (i - totalSlots % n) * (totalSlots / n) := by
      rw [← Nat.add_mul]
      congr 1
      omega
    have hfirst : totalSlots % n * (totalSlots / n + 1) =
        totalSlots % n * (totalSlots / n) + totalSlots % n := Nat.mul_succ ..
    simp only [if_neg hi, List.mem_range'_1, bound, hmul, hfirst]
    omega

theorem nodup_segmentSlots (m i slotCount : ℕ) : (segmentSlots m i slotCount).Nodup :=
  List.nodup_range'

/-- Every slot lies in a segment. -/
theorem exists_segment (hn : 0 < n) (hs : s < totalSlots) :
    ∃ i < n, bound n i ≤ s ∧ s < bound n (i + 1) := by
  have hwalk : ∀ k, s < bound n k → ∃ i < k, bound n i ≤ s ∧ s < bound n (i + 1) := by
    intro k hk
    induction k with
    | zero =>
      rw [bound_zero] at hk
      omega
    | succ k ih =>
      by_cases hbefore : s < bound n k
      · obtain ⟨i, hi, hmem⟩ := ih hbefore
        exact ⟨i, by omega, hmem⟩
      · exact ⟨k, by omega, by omega, hk⟩
  exact hwalk n (by rwa [bound_last hn])

/-- In just one. -/
theorem segment_unique (hi : bound n i ≤ s ∧ s < bound n (i + 1))
    (hj : bound n j ≤ s ∧ s < bound n (j + 1)) : i = j := by
  rcases Nat.lt_trichotomy i j with hlt | heq | hgt
  · have := @bound_mono n (i + 1) j hlt
    omega
  · exact heq
  · have := @bound_mono n (j + 1) i hgt
    omega

end Migration
