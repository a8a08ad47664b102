import Mathlib.Combinatorics.Hall.Basic
import Mathlib.Data.Fintype.Fin
import Mathlib.Algebra.BigOperators.Fin

/-! Serving demands one after the other, each with any supply it accepts that is left: when this can get
stuck although all the demands together could be served. -/
namespace Transversal

section Cover

variable {ι β : Type*} {R : ι → β → Prop} {f : ι → β} {g : β → ι} {B : Set β} {b : β}

/-- Supplies that move to the demand that `g` names: those of `B` that `f` leaves out, and those
that lose their place to one that moves. -/
inductive Moves (f : ι → β) (g : β → ι) (B : Set β) : β → Prop
  | start (b : β) (mem : b ∈ B) (out : ∀ i, f i ≠ b) : Moves f g B b
  | next (b : β) (moves : Moves f g B b) (mem : f (g b) ∈ B) : Moves f g B (f (g b))

theorem Moves.mem (h : Moves f g B b) : b ∈ B := by
  cases h with
  | start _ hmem _ => exact hmem
  | next _ _ hmem => exact hmem

/-- What serves all demands can be changed so that the supplies of `B` are all in use, if these can be
given to different demands. -/
theorem exists_cover (hf : Function.Injective f) (hfR : ∀ i, R i (f i)) (hg : B.InjOn g)
    (hgR : ∀ b ∈ B, R (g b) b) :
    ∃ h : ι → β, Function.Injective h ∧ (∀ i, R i (h i)) ∧ (∀ b ∈ B, ∃ i, h i = b) ∧
      ∀ i, h i ∈ B ∨ h i = f i := by
  classical
  have hchoice : ∀ i, ∃ b, (∃ b, Moves f g B b ∧ g b = i) → Moves f g B b ∧ g b = i := by
    intro i
    by_cases hi : ∃ b, Moves f g B b ∧ g b = i
    · obtain ⟨b, hb⟩ := hi
      exact ⟨b, fun _ => hb⟩
    · exact ⟨f i, fun h => absurd h hi⟩
  choose mover hmover using hchoice
  let h : ι → β := fun i => if ∃ b, Moves f g B b ∧ g b = i then mover i else f i
  have hmoved : ∀ b, Moves f g B b → h (g b) = b := by
    intro b hb
    have hex : ∃ c, Moves f g B c ∧ g c = g b := ⟨b, hb, rfl⟩
    obtain ⟨hm, hgm⟩ := hmover (g b) hex
    exact (if_pos hex).trans (hg hm.mem hb.mem hgm)
  have hstays : ∀ i, (¬ ∃ b, Moves f g B b ∧ g b = i) → h i = f i := fun i hi => if_neg hi
  -- a supply that moves is not held by a demand that stays
  have happart : ∀ b i, Moves f g B b → (¬ ∃ b, Moves f g B b ∧ g b = i) → f i ≠ b := by
    intro b i hb hi heq
    cases hb with
    | start _ _ hout => exact hout i heq
    | next c hc _ => exact hi ⟨c, hc, (hf heq).symm⟩
  refine ⟨h, ?_, ?_, ?_, ?_⟩
  · intro i j hij
    by_cases hi : ∃ b, Moves f g B b ∧ g b = i
    · obtain ⟨b, hb, rfl⟩ := hi
      by_cases hj : ∃ b, Moves f g B b ∧ g b = j
      · obtain ⟨c, hc, rfl⟩ := hj
        rw [hmoved b hb, hmoved c hc] at hij
        rw [hij]
      · rw [hmoved b hb, hstays j hj] at hij
        exact absurd hij.symm (happart b j hb hj)
    · by_cases hj : ∃ b, Moves f g B b ∧ g b = j
      · obtain ⟨c, hc, rfl⟩ := hj
        rw [hstays i hi, hmoved c hc] at hij
        exact absurd hij (happart c i hc hi)
      · rw [hstays i hi, hstays j hj] at hij
        exact hf hij
  · intro i
    by_cases hi : ∃ b, Moves f g B b ∧ g b = i
    · obtain ⟨b, hb, rfl⟩ := hi
      rw [hmoved b hb]
      exact hgR b hb.mem
    · rw [hstays i hi]
      exact hfR i
  · intro b hb
    by_cases hmoves : Moves f g B b
    · exact ⟨g b, hmoved b hmoves⟩
    · have hheld : ∃ i, f i = b := by
        by_contra hnone
        exact hmoves (.start b hb fun i heq => hnone ⟨i, heq⟩)
      obtain ⟨i, rfl⟩ := hheld
      refine ⟨i, hstays i ?_⟩
      rintro ⟨c, hc, rfl⟩
      exact hmoves (.next c hc hb)
  · intro i
    by_cases hi : ∃ b, Moves f g B b ∧ g b = i
    · obtain ⟨b, hb, rfl⟩ := hi
      rw [hmoved b hb]
      exact Or.inl hb.mem
    · exact Or.inr (hstays i hi)

end Cover

section Serving

variable {α β : Type*} {accepts : α → β → Prop} {D T : Finset β} {l : List α} {ds : List β}

/-- Different supplies, one for each demand. -/
structure Serves (accepts : α → β → Prop) (D : Finset β) (l : List α) (ds : List β) : Prop where
  accepted : List.Forall₂ accepts l ds
  nodup : ds.Nodup
  mem : ∀ d ∈ ds, d ∈ D

def Servable (accepts : α → β → Prop) (D : Finset β) (l : List α) : Prop :=
  ∃ ds, Serves accepts D l ds

variable [DecidableEq β]

/-- Whatever supplies the demands take in their turn, there is one for the next. -/
def NeverStuck (accepts : α → β → Prop) : Finset β → List α → Prop
  | _, [] => True
  | D, a :: l => (∃ d ∈ D, accepts a d) ∧ ∀ d ∈ D, accepts a d → NeverStuck accepts (D.erase d) l

theorem serves_cons {a : α} {d : β} :
    Serves accepts D (a :: l) (d :: ds) ↔ accepts a d ∧ d ∈ D ∧ Serves accepts (D.erase d) l ds := by
  constructor
  · rintro ⟨hacc, hnodup, hmem⟩
    obtain ⟨had, hrest⟩ := List.forall₂_cons.mp hacc
    obtain ⟨hd, hds⟩ := List.nodup_cons.mp hnodup
    obtain ⟨hdD, hdsD⟩ := List.forall_mem_cons.mp hmem
    refine ⟨had, hdD, hrest, hds, ?_⟩
    intro x hx
    exact Finset.mem_erase.mpr ⟨fun heq => hd (heq ▸ hx), hdsD x hx⟩
  · rintro ⟨had, hdD, hacc, hnodup, hmem⟩
    refine ⟨.cons had hacc, List.nodup_cons.mpr ⟨?_, hnodup⟩, List.forall_mem_cons.mpr ⟨hdD, ?_⟩⟩
    · intro hd
      exact Finset.notMem_erase d D (hmem d hd)
    · intro x hx
      exact Finset.mem_of_mem_erase (hmem x hx)

/-- The runs of the greedy service are the ways to serve the first demands. -/
theorem neverStuck_iff : NeverStuck accepts D l ↔
    ∀ k (hk : k < l.length) ds, Serves accepts D (l.take k) ds → ∃ d ∈ D, d ∉ ds ∧ accepts l[k] d := by
  induction l generalizing D with
  | nil => exact iff_of_true trivial fun k hk => absurd hk (Nat.not_lt_zero k)
  | cons a l ih =>
    constructor
    · rintro ⟨⟨d, hd, had⟩, hrest⟩ k hk ds hserves
      cases k with
      | zero =>
        cases hserves.accepted
        exact ⟨d, hd, List.not_mem_nil, had⟩
      | succ k =>
        rw [List.take_succ_cons] at hserves
        cases ds with
        | nil => cases hserves.accepted
        | cons e ds =>
          obtain ⟨hae, he, hserves⟩ := serves_cons.mp hserves
          obtain ⟨x, hx, hnot, hacc⟩ := ih.mp (hrest e he hae) k (Nat.lt_of_succ_lt_succ hk) ds hserves
          obtain ⟨hne, hxD⟩ := Finset.mem_erase.mp hx
          exact ⟨x, hxD, fun hmem => (List.mem_cons.mp hmem).elim hne hnot, hacc⟩
    · intro h
      refine ⟨?_, ?_⟩
      · obtain ⟨d, hd, -, had⟩ := h 0 (Nat.zero_lt_succ _) [] ⟨.nil, List.nodup_nil, by simp⟩
        exact ⟨d, hd, had⟩
      · intro d hd had
        refine ih.mpr ?_
        intro k hk ds hserves
        obtain ⟨x, hx, hnot, hacc⟩ :=
          h (k + 1) (Nat.succ_lt_succ hk) (d :: ds) (serves_cons.mpr ⟨had, hd, hserves⟩)
        obtain ⟨hne, hnot⟩ := not_or.mp (mt List.mem_cons.mpr hnot)
        exact ⟨x, Finset.mem_erase.mpr ⟨hne, hx⟩, hnot, hacc⟩

variable [DecidableRel accepts]

/-- How many demands accept something in the set. -/
def interested (accepts : α → β → Prop) [DecidableRel accepts] (T : Finset β) (l : List α) : ℕ :=
  l.countP fun a => decide (∃ d ∈ T, accepts a d)

theorem interested_mono {T' : Finset β} (h : T ⊆ T') (l : List α) :
    interested accepts T l ≤ interested accepts T' l := by
  refine List.countP_mono_left ?_
  intro a _ ha
  obtain ⟨d, hd, had⟩ := of_decide_eq_true ha
  exact decide_eq_true ⟨d, h hd, had⟩

/-- Supplies in use are of interest to as many demands. -/
theorem card_le_interested (h : List.Forall₂ accepts l ds) (hnodup : ds.Nodup)
    (hT : ∀ d ∈ T, d ∈ ds) : T.card ≤ interested accepts T l := by
  induction h generalizing T with
  | nil =>
    have hempty : T = ∅ := Finset.eq_empty_of_forall_notMem fun d hd => List.not_mem_nil (hT d hd)
    rw [hempty]
    exact Nat.zero_le _
  | @cons a d l ds had _ ih =>
    obtain ⟨hd, hnodup⟩ := List.nodup_cons.mp hnodup
    by_cases hmem : d ∈ T
    · have hrest := ih hnodup (T := T.erase d) fun x hx =>
        ((List.mem_cons.mp (hT x (Finset.mem_of_mem_erase hx))).resolve_left (Finset.ne_of_mem_erase hx))
      have hmono : interested accepts (T.erase d) l ≤ interested accepts T l :=
        interested_mono (Finset.erase_subset d T) l
      have hone : interested accepts T (a :: l) = interested accepts T l + 1 :=
        List.countP_cons_of_pos (decide_eq_true ⟨d, hmem, had⟩)
      have hcard := Finset.card_erase_add_one hmem
      omega
    · have hrest := ih hnodup fun x hx =>
        (List.mem_cons.mp (hT x hx)).resolve_left fun heq => hmem (heq ▸ hx)
      have hle : interested accepts T l ≤ interested accepts T (a :: l) :=
        List.Sublist.countP_le (List.sublist_cons_self a l)
      omega

theorem interested_eq_card (T : Finset β) (l : List α) :
    interested accepts T l =
      (Finset.univ.filter fun i : Fin l.length => ∃ d ∈ T, accepts l[i] d).card := by
  induction l with
  | nil => rfl
  | cons a l ih =>
    have hcons : interested accepts T (a :: l) =
        interested accepts T l + if decide (∃ d ∈ T, accepts a d) then 1 else 0 := List.countP_cons
    rw [Finset.card_filter] at ih
    rw [hcons, ih, Finset.card_filter, Nat.add_comm]
    refine Eq.trans ?_ (Fin.sum_univ_succ _).symm
    by_cases ha : ∃ d ∈ T, accepts a d
    · simp [ha]
    · simp [ha]

/-- If every set of supplies is of interest to as many demands, the demands can be served with all of
them in use. -/
theorem exists_serves_cover {B : Finset β} (hserves : Serves accepts D l ds) (hB : B ⊆ D)
    (hcard : ∀ T ⊆ B, T.card ≤ interested accepts T l) :
    ∃ ds', Serves accepts D l ds' ∧ ∀ b ∈ B, b ∈ ds' := by
  obtain ⟨hlen, hacc⟩ := List.forall₂_iff_get.mp hserves.accepted
  -- the supplies of the set go to different demands
  have hhall : ∀ A : Finset {b // b ∈ B},
      A.card ≤ (Finset.univ.filter fun i : Fin l.length => ∃ b ∈ A, accepts l[i] b.1).card := by
    intro A
    have hsub : A.map (Function.Embedding.subtype _) ⊆ B := by
      intro b hb
      obtain ⟨c, -, rfl⟩ := Finset.mem_map.mp hb
      exact c.2
    have h := hcard _ hsub
    rw [Finset.card_map, interested_eq_card] at h
    refine h.trans (Finset.card_le_card ?_)
    intro i hi
    obtain ⟨d, hd, hid⟩ := (Finset.mem_filter.mp hi).2
    obtain ⟨c, hc, rfl⟩ := Finset.mem_map.mp hd
    exact Finset.mem_filter.mpr ⟨Finset.mem_univ _, c, hc, hid⟩
  obtain ⟨g, hg, hgR⟩ := (Fintype.all_card_le_filter_rel_iff_exists_injective
    fun (b : {b // b ∈ B}) (i : Fin l.length) => accepts l[i] b.1).mp hhall
  by_cases hempty : B = ∅
  · exact ⟨ds, hserves, fun b hb => absurd (hempty ▸ hb) (Finset.notMem_empty b)⟩
  · obtain ⟨b₀, hb₀⟩ := Finset.nonempty_iff_ne_empty.mpr hempty
    let g' : β → Fin l.length := fun b => if hb : b ∈ B then g ⟨b, hb⟩ else g ⟨b₀, hb₀⟩
    have hg' : ∀ b (hb : b ∈ B), g' b = g ⟨b, hb⟩ := fun b hb => dif_pos hb
    obtain ⟨h, hinj, hR, hcover, horigin⟩ := @exists_cover _ _ (fun (i : Fin l.length) b => accepts l[i] b)
      (fun i => ds.get (i.cast hlen)) g' ↑B
      (fun i j hij => by simpa using (List.nodup_iff_injective_get.mp hserves.nodup) hij)
      (fun i => hacc i i.2 (hlen ▸ i.2))
      (fun b hb c hc hbc => by
        rw [hg' b hb, hg' c hc] at hbc
        exact congrArg Subtype.val (hg hbc))
      (fun b hb => by
        rw [hg' b hb]
        exact hgR ⟨b, hb⟩)
    refine ⟨List.ofFn h, ⟨?_, List.nodup_ofFn.mpr hinj, ?_⟩, ?_⟩
    · refine List.forall₂_iff_get.mpr ⟨List.length_ofFn.symm, ?_⟩
      intro i hi _
      simpa using hR ⟨i, hi⟩
    · intro d hd
      obtain ⟨i, rfl⟩ := List.mem_ofFn.mp hd
      rcases horigin i with hmem | heq
      · exact hB hmem
      · rw [heq]
        exact hserves.mem _ (List.get_mem _ _)
    · intro b hb
      obtain ⟨i, rfl⟩ := hcover b hb
      exact List.mem_ofFn.mpr ⟨i, rfl⟩

/-- Each demand accepts some supplies that are more than the demands before it that are interested in
them. -/
def Reserved (accepts : α → β → Prop) [DecidableRel accepts] (D : Finset β) (l : List α) : Prop :=
  ∀ k (hk : k < l.length), ∃ T ⊆ D, (∀ d ∈ T, accepts l[k] d) ∧
    interested accepts T (l.take k) < T.card

/-- Demands that can be served together are served greedily, in any way, just if each has supplies in
reserve. -/
theorem neverStuck_iff_reserved (h : Servable accepts D l) :
    NeverStuck accepts D l ↔ Reserved accepts D l := by
  rw [neverStuck_iff]
  constructor
  · intro hnever k hk
    by_contra hnone
    obtain ⟨ds, hds⟩ := h
    have htake : Serves accepts D (l.take k) (ds.take k) :=
      ⟨List.forall₂_take k hds.accepted, hds.nodup.sublist (List.take_sublist k ds),
        fun d hd => hds.mem d (List.mem_of_mem_take hd)⟩
    obtain ⟨ds', hserves, hcover⟩ := exists_serves_cover (B := D.filter (accepts l[k])) htake
      (Finset.filter_subset _ _) fun T hT => by
        by_contra hlt
        exact hnone ⟨T, hT.trans (Finset.filter_subset _ _),
          fun d hd => (Finset.mem_filter.mp (hT hd)).2, not_le.mp hlt⟩
    obtain ⟨d, hd, hnot, hacc⟩ := hnever k hk ds' hserves
    exact hnot (hcover d (Finset.mem_filter.mpr ⟨hd, hacc⟩))
  · intro hreserved k hk ds hserves
    obtain ⟨T, hTD, hacc, hlt⟩ := hreserved k hk
    by_contra hnone
    have hT : ∀ d ∈ T, d ∈ ds := by
      intro d hd
      by_contra hnot
      exact hnone ⟨d, hTD hd, hnot, hacc d hd⟩
    have hle := card_le_interested hserves.accepted hserves.nodup hT
    omega

end Serving

end Transversal
