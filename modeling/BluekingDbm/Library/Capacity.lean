import Mathlib.Algebra.Order.BigOperators.Group.Finset

/-! Choosing from things that stand in racks, and the racks in zones, where each rack and each zone has
room for so many. A choice to which nothing can be added is a largest one. -/
namespace Capacity

/-- Where the things stand, and the room there. -/
structure Rooms (α ζ ρ : Type*) where
  zone : α → ζ
  rack : α → ρ
  zoneRoom : ζ → ℕ
  rackRoom : ρ → ℕ

variable {α ζ ρ κ : Type*} [DecidableEq ζ] [DecidableEq ρ] [DecidableEq κ] {R : Rooms α ζ ρ}
  {P S : Finset α}

/-- A choice that leaves no zone and no rack overfull. -/
structure Rooms.Fits (R : Rooms α ζ ρ) (P : Finset α) : Prop where
  zones : ∀ z, (P.filter fun a => R.zone a = z).card ≤ R.zoneRoom z
  racks : ∀ r, (P.filter fun a => R.rack a = r).card ≤ R.rackRoom r

/-- Each member of `P` is chosen by `S`, or stands in a zone or in a rack that `S` fills. -/
def Rooms.Settles (R : Rooms α ζ ρ) (S P : Finset α) : Prop :=
  ∀ a ∈ P, a ∈ S ∨ R.zoneRoom (R.zone a) ≤ (S.filter fun b => R.zone b = R.zone a).card ∨
    R.rackRoom (R.rack a) ≤ (S.filter fun b => R.rack b = R.rack a).card

/-- The racks stand in one zone each. -/
def Rooms.Nested (R : Rooms α ζ ρ) (P : Finset α) : Prop :=
  ∀ a ∈ P, ∀ b ∈ P, R.rack a = R.rack b → R.zone a = R.zone b

theorem card_filter_toFinset [DecidableEq α] {l : List α} (hl : l.Nodup) (p : α → Prop)
    [DecidablePred p] : (l.toFinset.filter p).card = l.countP fun a => p a := by
  have hfilter : l.toFinset.filter p = (l.filter fun a => p a).toFinset := by
    ext a
    simp
  rw [hfilter, List.toFinset_card_of_nodup (hl.filter _), List.countP_eq_length_filter]

theorem card_filter_singleton_le {f : α → κ} {a : α} {n : κ → ℕ} (h : 0 < n (f a)) (k : κ) :
    (Finset.filter (fun b => f b = k) {a}).card ≤ n k := by
  rw [Finset.filter_singleton]
  split
  · rename_i hk
    rw [← hk]
    exact h
  · exact Nat.zero_le _

theorem Rooms.fits_singleton {a : α} (hzone : 0 < R.zoneRoom (R.zone a))
    (hrack : 0 < R.rackRoom (R.rack a)) : R.Fits {a} :=
  ⟨card_filter_singleton_le hzone, card_filter_singleton_le hrack⟩

theorem card_le_of_fibers (f : α → κ)
    (h : ∀ k, (P.filter fun a => f a = k).card ≤ (S.filter fun a => f a = k).card) :
    P.card ≤ S.card := by
  classical
  let keys := (P ∪ S).image f
  have hP : ∀ a ∈ P, f a ∈ keys := fun a ha =>
    Finset.mem_image_of_mem f (Finset.mem_union_left S ha)
  have hS : ∀ a ∈ S, f a ∈ keys := fun a ha =>
    Finset.mem_image_of_mem f (Finset.mem_union_right P ha)
  calc
    P.card = ∑ k ∈ keys, (P.filter fun a => f a = k).card := Finset.card_eq_sum_card_fiberwise hP
    _ ≤ ∑ k ∈ keys, (S.filter fun a => f a = k).card := Finset.sum_le_sum fun k _ => h k
    _ = S.card := (Finset.card_eq_sum_card_fiberwise hS).symm

/-- In a zone that `S` does not fill, `S` has as many of each rack as there are or as there is room. -/
theorem Rooms.Settles.min_rack_le {z : ζ} (hS : R.Settles S P)
    (hnested : ∀ a ∈ P, ∀ b ∈ S, R.rack a = R.rack b → R.zone a = R.zone b)
    (hroom : ¬ R.zoneRoom z ≤ (S.filter fun a => R.zone a = z).card) (r : ρ) :
    min (R.rackRoom r) ((P.filter fun a => R.zone a = z).filter fun a => R.rack a = r).card ≤
      ((S.filter fun a => R.zone a = z).filter fun a => R.rack a = r).card := by
  by_cases hfull : ∃ a ∈ P, R.zone a = z ∧ R.rack a = r ∧
      R.rackRoom r ≤ (S.filter fun b => R.rack b = r).card
  · obtain ⟨a, ha, hz, hr, hfull⟩ := hfull
    refine (min_le_left _ _).trans (hfull.trans (Finset.card_le_card fun b hb => ?_))
    obtain ⟨hb, hbr⟩ := Finset.mem_filter.mp hb
    have hbz := hnested a ha b hb (hr.trans hbr.symm)
    simp only [Finset.mem_filter]
    exact ⟨⟨hb, hbz.symm.trans hz⟩, hbr⟩
  · refine (min_le_right _ _).trans (Finset.card_le_card fun a ha => ?_)
    simp only [Finset.mem_filter] at ha ⊢
    obtain ⟨⟨ha, hz⟩, hr⟩ := ha
    rcases hS a ha with hmem | hzone | hrack
    · exact ⟨⟨hmem, hz⟩, hr⟩
    · rw [hz] at hzone
      exact absurd hzone hroom
    · rw [hr] at hrack
      exact absurd ⟨a, ha, hz, hr, hrack⟩ hfull

/-- In a zone that `S` does not fill, `S` has at least as many of each rack. -/
theorem Rooms.Settles.card_rack_le {z : ζ} (hS : R.Settles S P) (hP : R.Fits P)
    (hnested : ∀ a ∈ P, ∀ b ∈ S, R.rack a = R.rack b → R.zone a = R.zone b)
    (hroom : ¬ R.zoneRoom z ≤ (S.filter fun a => R.zone a = z).card) (r : ρ) :
    ((P.filter fun a => R.zone a = z).filter fun a => R.rack a = r).card ≤
      ((S.filter fun a => R.zone a = z).filter fun a => R.rack a = r).card := by
  refine le_trans (le_min ?_ le_rfl) (hS.min_rack_le hnested hroom r)
  calc
    _ ≤ (P.filter fun a => R.rack a = r).card :=
      Finset.card_le_card (Finset.filter_subset_filter _ (Finset.filter_subset _ P))
    _ ≤ R.rackRoom r := hP.racks r

/-- Where racks stand in one zone each, a choice that settles another is at least as large. -/
theorem Rooms.Settles.card_le [DecidableEq α] (hS : R.Settles S P) (hP : R.Fits P)
    (hnested : R.Nested (P ∪ S)) : P.card ≤ S.card := by
  apply card_le_of_fibers R.zone
  intro z
  by_cases hroom : R.zoneRoom z ≤ (S.filter fun a => R.zone a = z).card
  · exact (hP.zones z).trans hroom
  · apply card_le_of_fibers R.rack
    apply hS.card_rack_le hP _ hroom
    intro a ha b hb
    exact hnested a (Finset.mem_union_left S ha) b (Finset.mem_union_right P hb)

section Value

/-- How many of `P` there is room for: in each zone as many as the zone has room for, or as its racks
have, whichever is less. -/
def Rooms.value (R : Rooms α ζ ρ) (P : Finset α) : ℕ :=
  ∑ z ∈ P.image R.zone, min (R.zoneRoom z)
    (∑ r ∈ (P.filter fun a => R.zone a = z).image R.rack,
      min (R.rackRoom r) ((P.filter fun a => R.zone a = z).filter fun a => R.rack a = r).card)

theorem Rooms.exists_zoneRoom_pos (h : 0 < R.value P) : ∃ a ∈ P, 0 < R.zoneRoom (R.zone a) := by
  obtain ⟨z, hz, hne⟩ := Finset.exists_ne_zero_of_sum_ne_zero h.ne'
  obtain ⟨a, ha, rfl⟩ := Finset.mem_image.mp hz
  exact ⟨a, ha, by omega⟩

theorem card_eq_sum_fibers {f : α → κ} (h : S ⊆ P) :
    S.card = ∑ k ∈ P.image f, (S.filter fun a => f a = k).card :=
  Finset.card_eq_sum_card_fiberwise fun _ ha => Finset.mem_image_of_mem f (h ha)

/-- No choice that fits has more. -/
theorem Rooms.Fits.card_le_value (hS : R.Fits S) (hsub : S ⊆ P) : S.card ≤ R.value P := by
  rw [@card_eq_sum_fibers _ _ _ P S R.zone hsub]
  refine Finset.sum_le_sum fun z _ => le_min (hS.zones z) ?_
  have hzone : (S.filter fun a => R.zone a = z) ⊆ P.filter fun a => R.zone a = z :=
    Finset.filter_subset_filter _ hsub
  rw [@card_eq_sum_fibers _ _ _ _ _ R.rack hzone]
  refine Finset.sum_le_sum fun r _ => le_min ?_ ?_
  · refine le_trans (Finset.card_le_card ?_) (hS.racks r)
    exact Finset.filter_subset_filter _ (Finset.filter_subset _ S)
  · exact Finset.card_le_card (Finset.filter_subset_filter _ hzone)

/-- Where racks stand in one zone each, a choice from `P` that settles the rest has at least as many. -/
theorem Rooms.Settles.value_le (hS : R.Settles S P) (hsub : S ⊆ P) (hnested : R.Nested P) :
    R.value P ≤ S.card := by
  rw [@card_eq_sum_fibers _ _ _ P S R.zone hsub]
  refine Finset.sum_le_sum fun z _ => ?_
  by_cases hroom : R.zoneRoom z ≤ (S.filter fun a => R.zone a = z).card
  · exact (min_le_left _ _).trans hroom
  · refine (min_le_right _ _).trans ?_
    have hzone : (S.filter fun a => R.zone a = z) ⊆ P.filter fun a => R.zone a = z :=
      Finset.filter_subset_filter _ hsub
    rw [@card_eq_sum_fibers _ _ _ _ _ R.rack hzone]
    exact Finset.sum_le_sum fun r _ => hS.min_rack_le (fun a ha b hb => hnested a ha b (hsub hb)) hroom r

end Value

end Capacity
