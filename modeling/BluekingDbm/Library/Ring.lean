import Mathlib.Data.Prod.Lex
import Mathlib.Data.List.Basic
import Mathlib.Order.Bounds.Basic

/-! Points on a ring over a linear order: which of them comes first clockwise from a key. -/
namespace Ring

variable {α : Type*} [LinearOrder α] {A B : Set α} {k p q : α}

/-- How far clockwise a point lies from the key: those behind the key come after the wrap. -/
def turn (k p : α) : Bool ×ₗ α := toLex (decide (p < k), p)

/-- No point comes before this one clockwise from the key. -/
def First (A : Set α) (k p : α) : Prop := p ∈ A ∧ ∀ q ∈ A, turn k p ≤ turn k q

theorem turn_le_iff : turn k p ≤ turn k q ↔ (k ≤ p ∧ q < k) ∨ ((p < k ↔ q < k) ∧ p ≤ q) := by
  rw [turn, turn, Prod.Lex.toLex_le_toLex, Bool.lt_iff]
  simp only [decide_eq_false_iff_not, decide_eq_true_eq, not_lt, decide_eq_decide]

theorem turn_injective : Function.Injective (turn k) := by
  intro p q h
  exact congrArg (fun t => (ofLex t).2) h

theorem First.unique (hp : First A k p) (hq : First A k q) : p = q :=
  turn_injective (le_antisymm (hp.2 q hq.1) (hq.2 p hp.1))

/-- Fewer points: a first point that is still there is still first. -/
theorem First.mono (hp : First B k p) (hAB : A ⊆ B) (hA : p ∈ A) : First A k p :=
  ⟨hA, fun q hq => hp.2 q (hAB hq)⟩

/-- The first point at or after the key on a sorted ring, else the least one. -/
def clockwise (ring : List α) (k : α) : Option α :=
  let idx := ring.findIdx fun p => decide (k ≤ p)
  ring[if ring.length ≤ idx then 0 else idx]?

theorem clockwise_spec {ring : List α} (hs : ring.Pairwise (· ≤ ·)) (hne : ring ≠ []) :
    ∃ p, clockwise ring k = some p ∧ First {x | x ∈ ring} k p := by
  have hpos : 0 < ring.length := List.length_pos_iff.mpr hne
  simp only [clockwise]
  split
  case isTrue hend =>
    -- every point lies behind the key, and the least of them is taken
    have hbehind : ∀ q ∈ ring, q < k := by
      intro q hq
      by_contra hkq
      have := List.findIdx_lt_length_of_exists (p := fun p => decide (k ≤ p))
        ⟨q, hq, decide_eq_true (not_lt.mp hkq)⟩
      omega
    refine ⟨ring[0], List.getElem?_eq_getElem hpos, List.getElem_mem hpos, ?_⟩
    intro q hq
    obtain ⟨i, hi, rfl⟩ := List.mem_iff_getElem.mp hq
    refine turn_le_iff.mpr (Or.inr ⟨?_, ?_⟩)
    · exact iff_of_true (hbehind _ (List.getElem_mem hpos)) (hbehind _ hq)
    · rcases Nat.eq_zero_or_pos i with rfl | hi0
      · exact le_rfl
      · exact List.pairwise_iff_getElem.mp hs 0 i hpos hi hi0
  case isFalse hend =>
    have hlt : ring.findIdx (fun p => decide (k ≤ p)) < ring.length := not_le.mp hend
    have hahead := of_decide_eq_true (List.findIdx_getElem (w := hlt))
    refine ⟨_, List.getElem?_eq_getElem hlt, List.getElem_mem hlt, ?_⟩
    intro q hq
    refine turn_le_iff.mpr ?_
    rcases lt_or_ge q k with hqk | hqk
    · exact Or.inl ⟨hahead, hqk⟩
    · refine Or.inr ⟨iff_of_false (not_lt.mpr hahead) (not_lt.mpr hqk), ?_⟩
      obtain ⟨i, hi, rfl⟩ := List.mem_iff_getElem.mp hq
      rcases lt_trichotomy (ring.findIdx fun p => decide (k ≤ p)) i with hlti | heq | hgt
      · exact List.pairwise_iff_getElem.mp hs _ _ hlt hi hlti
      · exact le_of_eq (by simp only [heq])
      · have hno := List.not_of_lt_findIdx hgt
        exact absurd hqk (of_decide_eq_false hno)

end Ring
