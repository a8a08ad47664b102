import BluekingDbm.Library.Run
import Mathlib.Algebra.BigOperators.Group.Finset.Basic
import Mathlib.Algebra.Order.BigOperators.Group.Finset
import Mathlib.Data.Fintype.Order
import Mathlib.Data.Fintype.Lattice
import Mathlib.Data.Set.Insert

/-! Workers that share locks: who holds what, that some worker can always go on if locks are taken in
order, and that every run ends if each worker has only so many moves left. -/
namespace Locks

/-- What a move of a worker does to the locks. -/
inductive Op (Lock : Type*)
  | skip
  | acquire (l : Lock)
  | release (l : Lock)

structure Workers (ι Lock P : Type*) where
  place : ι → P
  holder : Lock → Option ι

variable {ι Lock P : Type*} [DecidableEq ι] [DecidableEq Lock]
  {move : ι → P → Op Lock → P → Prop} {holds : ι → P → Set Lock} {final : P → Prop}
  {s t : Workers ι Lock P} {i j : ι} {l : Lock} {es : List ι}

/-- One worker moves; a lock is taken only when it is free. -/
inductive Step (move : ι → P → Op Lock → P → Prop) (s : Workers ι Lock P) :
    ι → Workers ι Lock P → Prop
  | skip {i : ι} {p : P} : move i (s.place i) .skip p →
      Step move s i ⟨Function.update s.place i p, s.holder⟩
  | acquire {i : ι} {l : Lock} {p : P} : move i (s.place i) (.acquire l) p → s.holder l = none →
      Step move s i ⟨Function.update s.place i p, Function.update s.holder l (some i)⟩
  | release {i : ι} {l : Lock} {p : P} : move i (s.place i) (.release l) p →
      Step move s i ⟨Function.update s.place i p, Function.update s.holder l none⟩

theorem step_place (h : Step move s i t) :
    ∃ op p, move i (s.place i) op p ∧ t.place = Function.update s.place i p := by
  cases h with
  | skip hmove => exact ⟨_, _, hmove, rfl⟩
  | acquire hmove => exact ⟨_, _, hmove, rfl⟩
  | release hmove => exact ⟨_, _, hmove, rfl⟩

/-- A worker holds what it has acquired and not released. -/
structure Discipline (move : ι → P → Op Lock → P → Prop) (holds : ι → P → Set Lock) : Prop where
  skip : ∀ {i p q}, move i p .skip q → holds i q = holds i p
  acquire : ∀ {i p q l}, move i p (.acquire l) q → holds i q = insert l (holds i p)
  release : ∀ {i p q l}, move i p (.release l) q → l ∈ holds i p ∧ holds i q = holds i p \ {l}

/-- The holder of a lock is the worker whose place says so. -/
def Owned (holds : ι → P → Set Lock) (s : Workers ι Lock P) : Prop :=
  ∀ l i, s.holder l = some i ↔ l ∈ holds i (s.place i)

omit [DecidableEq ι] [DecidableEq Lock] in
theorem Owned.unique (h : Owned holds s) (hi : l ∈ holds i (s.place i))
    (hj : l ∈ holds j (s.place j)) : i = j := by
  have heq := ((h l i).mpr hi).symm.trans ((h l j).mpr hj)
  exact Option.some.inj heq

theorem Discipline.owned_step (hd : Discipline move holds) (hs : Owned holds s)
    (hstep : Step move s i t) : Owned holds t := by
  intro k j
  cases hstep with
  | @skip p hmove =>
    dsimp only
    rcases eq_or_ne j i with rfl | hne
    · rw [Function.update_self, hd.skip hmove]
      exact hs k j
    · rw [Function.update_of_ne hne]
      exact hs k j
  | @acquire l p hmove hfree =>
    dsimp only
    rcases eq_or_ne j i with rfl | hne
    · rw [Function.update_self, hd.acquire hmove, Set.mem_insert_iff]
      rcases eq_or_ne k l with rfl | hother
      · simp
      · rw [Function.update_of_ne hother, hs k j]
        exact ⟨Or.inr, fun h => h.resolve_left hother⟩
    · rw [Function.update_of_ne hne]
      rcases eq_or_ne k l with rfl | hother
      · rw [Function.update_self, ← hs k j, hfree]
        simp [Ne.symm hne]
      · rw [Function.update_of_ne hother]
        exact hs k j
  | @release l p hmove =>
    dsimp only
    obtain ⟨hheld, hrest⟩ := hd.release hmove
    rcases eq_or_ne j i with rfl | hne
    · rw [Function.update_self, hrest]
      rcases eq_or_ne k l with rfl | hother
      · simp
      · rw [Function.update_of_ne hother, hs k j]
        exact ⟨fun h => ⟨h, hother⟩, fun h => h.1⟩
    · rw [Function.update_of_ne hne]
      rcases eq_or_ne k l with rfl | hother
      · rw [Function.update_self]
        refine iff_of_false nofun fun hj => hne ?_
        exact hs.unique hj hheld
      · rw [Function.update_of_ne hother]
        exact hs k j

theorem Discipline.owned_run (hd : Discipline move holds) (hs : Owned holds s)
    (h : Transition.Run (Step move) s es t) : Owned holds t :=
  h.invariant (Owned holds) hs hd.owned_step

/-- A property of places that every move keeps is had by every place. -/
theorem place_run (Good : P → Prop) (hmove : ∀ {i p op q}, move i p op q → Good p → Good q)
    (hs : ∀ i, Good (s.place i)) (h : Transition.Run (Step move) s es t) : ∀ i, Good (t.place i) := by
  refine h.invariant (fun u => ∀ i, Good (u.place i)) hs ?_
  intro u i v hu hstep j
  obtain ⟨op, p, hp, hplace⟩ := step_place hstep
  rw [hplace]
  rcases eq_or_ne j i with rfl | hne
  · rw [Function.update_self]
    exact hmove hp (hu j)
  · rw [Function.update_of_ne hne]
    exact hu j

section Progress

variable [LinearOrder Lock]

/-- A worker that has not finished can move without a lock, or goes for one above all that it holds. -/
structure Ordered (move : ι → P → Op Lock → P → Prop) (holds : ι → P → Set Lock)
    (final : P → Prop) : Prop where
  free : ∀ {i p}, final p → holds i p = ∅
  next : ∀ {i p}, ¬ final p → (∃ q, move i p .skip q) ∨ (∃ l q, move i p (.release l) q) ∨
    ∃ l q, move i p (.acquire l) q ∧ ∀ k ∈ holds i p, k < l

/-- Otherwise the worker that waits for the greatest lock would wait for one that waits for a greater. -/
theorem Ordered.progress [Finite ι] (ho : Ordered move holds final) (hs : Owned holds s)
    (hi : ¬ final (s.place i)) : ∃ j t, Step move s j t := by
  by_contra hstuck
  push Not at hstuck
  have hwaits : ∀ j : {j // ¬ final (s.place j)},
      ∃ l, (∀ k ∈ holds j.1 (s.place j.1), k < l) ∧ s.holder l ≠ none := by
    rintro ⟨j, hj⟩
    rcases ho.next (i := j) hj with ⟨q, hmove⟩ | ⟨l, q, hmove⟩ | ⟨l, q, hmove, habove⟩
    · exact absurd (.skip hmove) (hstuck j _)
    · exact absurd (.release hmove) (hstuck j _)
    · exact ⟨l, habove, fun hfree => hstuck j _ (.acquire hmove hfree)⟩
  choose goal habove hheld using hwaits
  have : Nonempty {j // ¬ final (s.place j)} := ⟨⟨i, hi⟩⟩
  obtain ⟨last, hlast⟩ := Finite.exists_max goal
  obtain ⟨owner, howner⟩ := Option.ne_none_iff_exists'.mp (hheld last)
  have hmem := (hs _ _).mp howner
  have hunfinished : ¬ final (s.place owner) := by
    intro hfinal
    rw [ho.free hfinal] at hmem
    exact hmem
  have hgreater := habove ⟨owner, hunfinished⟩ _ hmem
  exact absurd (hlast ⟨owner, hunfinished⟩) (not_le_of_gt hgreater)

end Progress

/-- A run is no longer than the moves that its workers have left. -/
theorem run_length [Fintype ι] (rank : P → ℕ)
    (hrank : ∀ {i p op q}, move i p op q → rank q < rank p)
    (h : Transition.Run (Step move) s es t) :
    es.length + ∑ i, rank (t.place i) ≤ ∑ i, rank (s.place i) := by
  induction h with
  | refl => simp
  | @snoc es t u i hrun hstep ih =>
    obtain ⟨op, p, hmove, hplace⟩ := step_place hstep
    have hless : ∑ j, rank (u.place j) < ∑ j, rank (t.place j) := by
      refine Finset.sum_lt_sum (fun j _ => ?_) ⟨i, Finset.mem_univ i, ?_⟩
      · rw [hplace]
        rcases eq_or_ne j i with rfl | hne
        · rw [Function.update_self]
          exact (hrank hmove).le
        · rw [Function.update_of_ne hne]
      · rw [hplace, Function.update_self]
        exact hrank hmove
    rw [List.length_append, List.length_singleton]
    omega

end Locks
