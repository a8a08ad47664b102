import Mathlib.Algebra.BigOperators.Group.Finset.Piecewise
import Mathlib.Logic.Hydra

/-! Families of which one member changes at a time: what becomes of a sum over them and of what holds
of some member, and that they cannot change for ever if no member can. -/
namespace Family

variable {ι α : Type*} [DecidableEq ι] {f g : ι → α} {i : ι} {a : α}

theorem sum_update {β : Type*} [Fintype ι] [AddCommMonoid β] (w : ι → α → β) (f : ι → α) (i : ι)
    (a : α) :
    ∑ j, w j (Function.update f i a j) + w i (f i) = ∑ j, w j (f j) + w i a := by
  have hupdate : (fun j => w j (Function.update f i a j)) =
      Function.update (fun j => w j (f j)) i (w i a) := by
    funext j
    by_cases hij : j = i
    · subst hij
      rw [Function.update_self, Function.update_self]
    · rw [Function.update_of_ne hij, Function.update_of_ne hij]
  have hsplit := Finset.sum_eq_add_sum_sdiff_singleton_of_mem (Finset.mem_univ i) fun j => w j (f j)
  calc
    ∑ j, w j (Function.update f i a j) + w i (f i) =
        ∑ j, Function.update (fun j => w j (f j)) i (w i a) j + w i (f i) :=
      congrArg (fun x => ∑ j, x j + w i (f i)) hupdate
    _ = w i a + ∑ j ∈ Finset.univ \ {i}, w j (f j) + w i (f i) :=
      congrArg (· + w i (f i)) (Finset.sum_update_of_mem (Finset.mem_univ i) _ _)
    _ = ∑ j, w j (f j) + w i a := by
      rw [hsplit, add_assoc, add_comm, add_comm (w i (f i))]

/-- What a member keeps holds of some member as before, or now of this one. -/
theorem exists_update {P : ι → α → Prop} (h : P i (f i) → P i a) :
    (∃ j, P j (Function.update f i a j)) ↔ (∃ j, P j (f j)) ∨ P i a := by
  constructor
  · rintro ⟨j, hj⟩
    by_cases hij : j = i
    · subst hij
      rw [Function.update_self] at hj
      exact Or.inr hj
    · rw [Function.update_of_ne hij] at hj
      exact Or.inl ⟨j, hj⟩
  · rintro (⟨j, hj⟩ | hi)
    · by_cases hij : j = i
      · subst hij
        refine ⟨j, ?_⟩
        rw [Function.update_self]
        exact h hj
      · refine ⟨j, ?_⟩
        rw [Function.update_of_ne hij]
        exact hj
    · refine ⟨i, ?_⟩
      rw [Function.update_self]
      exact hi

/-- One member goes down. -/
def Descends (r : α → α → Prop) (g f : ι → α) : Prop :=
  ∃ i, r (g i) (f i) ∧ ∀ j, j ≠ i → g j = f j

omit [DecidableEq ι] in
/-- Finitely many members that cannot go down for ever cannot do so by turns. -/
theorem descends_wf [Fintype ι] {r : α → α → Prop} (hr : WellFounded r) :
    WellFounded (Descends r : (ι → α) → (ι → α) → Prop) := by
  classical
  refine Subrelation.wf ?_
    (InvImage.wf (fun f : ι → α => Finset.univ.val.map f) hr.cutExpand)
  rintro g f ⟨i, hlower, hothers⟩
  have hg : g = Function.update f i (g i) := by
    funext j
    by_cases hij : j = i
    · subst hij
      rw [Function.update_self]
    · rw [Function.update_of_ne hij]
      exact hothers j hij
  have hsum := sum_update (fun _ x => ({x} : Multiset α)) f i (g i)
  rw [← hg] at hsum
  refine ⟨{g i}, f i, ?_, ?_⟩
  · intro x hx
    rw [Multiset.mem_singleton.mp hx]
    exact hlower
  · have hmap : ∀ h : ι → α, ∑ j, ({h j} : Multiset α) = Finset.univ.val.map h := by
      intro h
      have hsingle := Multiset.sum_map_singleton (Finset.univ.val.map h)
      rw [Multiset.map_map] at hsingle
      exact hsingle
    rw [hmap, hmap] at hsum
    exact hsum

end Family
