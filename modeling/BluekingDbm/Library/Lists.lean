import Mathlib.Data.List.Basic
import Mathlib.Data.List.Chain
import Mathlib.Data.List.Infix
import Mathlib.Data.Nat.Basic

/-! Fronts and ends of lists that are in some order. -/
namespace Ends

variable {α : Type*} {l : List α}

/-- Whatever comes before a member of a sorted list's front is in the front, too. -/
theorem mem_take_of_before {R : α → α → Prop} {k : ℕ} {a b : α}
    (h : l.Pairwise fun a b => ¬ R b a) (hb : b ∈ l.take k) (ha : a ∈ l) (hab : R a b) :
    a ∈ l.take k := by
  rw [← List.take_append_drop k l] at ha h
  rcases List.mem_append.mp ha with ha | ha
  · exact ha
  · exact absurd hab ((List.pairwise_append.mp h).2.2 b hb a ha)

/-- What is kept from its first member on is the end of the list. -/
theorem filter_suffix {p : α → Bool}
    (h : l.Pairwise fun a b => p a = true → p b = true) : l.filter p <:+ l := by
  induction l with
  | nil => exact List.suffix_rfl
  | cons a l ih =>
    obtain ⟨ha, hl⟩ := List.pairwise_cons.mp h
    by_cases hp : p a = true
    · have hall : (a :: l).filter p = a :: l := by
        apply List.filter_eq_self.mpr
        intro b hb
        rcases List.mem_cons.mp hb with rfl | hb
        · exact hp
        · exact ha b hb hp
      rw [hall]
    · rw [List.filter_cons_of_neg hp]
      exact (ih hl).trans (List.suffix_cons a l)

/-- What is not kept comes first. -/
theorem filter_append_filter {p : α → Prop} [DecidablePred p] (h : l.Pairwise fun a b => p a → p b) :
    l.filter (fun a => ¬ p a) ++ l.filter (fun a => p a) = l := by
  induction l with
  | nil => rfl
  | cons a l ih =>
    obtain ⟨ha, hl⟩ := List.pairwise_cons.mp h
    by_cases hp : p a
    · have hall : ∀ b ∈ a :: l, p b := by
        intro b hb
        rcases List.mem_cons.mp hb with rfl | hb
        · exact hp
        · exact ha b hb hp
      rw [List.filter_eq_nil_iff.mpr (fun b hb => by simpa using hall b hb), List.nil_append,
        List.filter_eq_self.mpr fun b hb => decide_eq_true (hall b hb)]
    · rw [List.filter_cons_of_pos (by simpa using hp), List.filter_cons_of_neg (by simpa using hp),
        List.cons_append, ih hl]

/-! Lists in the order of a number. -/

variable {number : α → ℕ}

/-- Where no number is left out, none is skipped from one member to the next. -/
theorem isChain_of_full (h : l.Pairwise fun a b => number a ≤ number b)
    (hfull : ∀ a ∈ l, ∀ b ∈ l, ∀ n, number a ≤ n → n ≤ number b → ∃ c ∈ l, number c = n) :
    l.IsChain fun a b => number b ≤ number a + 1 := by
  induction l with
  | nil => exact List.isChain_nil
  | cons a l ih =>
    obtain ⟨hle, hl⟩ := List.pairwise_cons.mp h
    refine List.isChain_cons.mpr ⟨fun b hb => ?_, ih hl fun x hx y hy n hlow hhigh => ?_⟩
    · by_contra hgap
      obtain ⟨l', rfl⟩ : ∃ l', l = b :: l' := by
        cases l with
        | nil => cases hb
        | cons b' l' => exact ⟨l', by rw [Option.some.inj hb]⟩
      obtain ⟨c, hc, hn⟩ := hfull a List.mem_cons_self b (List.mem_cons_of_mem a List.mem_cons_self)
        (number a + 1) (by omega) (by omega)
      rcases List.mem_cons.mp hc with rfl | hc
      · omega
      · rcases List.mem_cons.mp hc with rfl | hc
        · omega
        · have hbc := (List.pairwise_cons.mp hl).1 c hc
          omega
    · obtain ⟨c, hc, hn⟩ := hfull x (List.mem_cons_of_mem a hx) y (List.mem_cons_of_mem a hy) n hlow hhigh
      rcases List.mem_cons.mp hc with rfl | hc
      · exact ⟨x, hx, by have := hle x hx; omega⟩
      · exact ⟨c, hc, hn⟩

/-- Numbers that are not skipped rise by one exactly where none is repeated. -/
theorem rising_iff_nodup (h : l.Pairwise fun a b => number a ≤ number b)
    (hchain : l.IsChain fun a b => number b ≤ number a + 1) :
    (l.IsChain fun a b => number b = number a + 1) ↔ (l.map number).Nodup := by
  constructor
  · intro hrising
    have hlt : (l.map number).IsChain (· < ·) := by
      apply List.isChain_map_of_isChain number _ hrising
      intro a b hab
      omega
    exact hlt.pairwise.imp fun hab => Nat.ne_of_lt hab
  · intro hnodup
    have hne : l.Pairwise fun a b => number a ≠ number b := List.pairwise_map.mp hnodup
    have hlt := (h.and hne).isChain
    clear h hne hnodup
    induction l with
    | nil => exact List.isChain_nil
    | cons a l ih =>
      obtain ⟨hhead, htail⟩ := List.isChain_cons.mp hchain
      obtain ⟨hhead', htail'⟩ := List.isChain_cons.mp hlt
      refine List.isChain_cons.mpr ⟨fun b hb => ?_, ih htail htail'⟩
      have hle := hhead b hb
      obtain ⟨hge, hne⟩ := hhead' b hb
      omega

end Ends

/-! Lists whose members are updated in place. -/
namespace Slots

variable {α : Type*} {l : List α} {i : ℕ} {a b : α} {R : α → α → Prop}

/-- A member that is replaced by one no more related to the others than it was. -/
theorem pairwise_set (h : l.Pairwise R) (hi : l[i]? = some a)
    (hl : ∀ x ∈ l, R x a → R x b) (hr : ∀ x ∈ l, R a x → R b x) : (l.set i b).Pairwise R := by
  induction l generalizing i with
  | nil => cases hi
  | cons x l ih =>
    obtain ⟨hx, htail⟩ := List.pairwise_cons.mp h
    cases i with
    | zero =>
      obtain rfl : x = a := by simpa using hi
      refine List.pairwise_cons.mpr ⟨fun y hy => ?_, htail⟩
      exact hr y (List.mem_cons_of_mem _ hy) (hx y hy)
    | succ i =>
      have hi' : l[i]? = some a := by simpa using hi
      refine List.pairwise_cons.mpr ⟨fun y hy => ?_, ?_⟩
      · rcases List.mem_or_eq_of_mem_set hy with hy | rfl
        · exact hx y hy
        · exact hl x List.mem_cons_self (hx a (List.mem_of_getElem? hi'))
      · exact ih htail hi' (fun y hy => hl y (List.mem_cons_of_mem _ hy))
          fun y hy => hr y (List.mem_cons_of_mem _ hy)

/-- Two different members of a list whose members are pairwise related. -/
theorem pairwise_get (h : l.Pairwise R) (hsymm : ∀ x y, R x y → R y x) {j : ℕ}
    (hi : l[i]? = some a) (hj : l[j]? = some b) (hij : i ≠ j) : R a b := by
  obtain ⟨hilen, rfl⟩ := List.getElem?_eq_some_iff.mp hi
  obtain ⟨hjlen, rfl⟩ := List.getElem?_eq_some_iff.mp hj
  rcases Nat.lt_or_gt_of_ne hij with hlt | hlt
  · exact List.pairwise_iff_getElem.mp h i j hilen hjlen hlt
  · exact hsymm _ _ (List.pairwise_iff_getElem.mp h j i hjlen hilen hlt)

/-- Where no two members hold the same, what one of them holds is at one place only. -/
theorem existsUnique_index {β : Type*} {f : α → List β} {x : β}
    (hapart : l.Pairwise fun a b => ∀ x ∈ f a, x ∉ f b) (hx : ∃ a ∈ l, x ∈ f a) :
    ∃! k : ℕ, ∃ a, l[k]? = some a ∧ x ∈ f a := by
  obtain ⟨a, ha, hxa⟩ := hx
  obtain ⟨k, hk⟩ := List.getElem?_of_mem ha
  refine ⟨k, ⟨a, hk, hxa⟩, ?_⟩
  rintro j ⟨b, hj, hxb⟩
  by_contra hne
  have hsymm : l.Pairwise fun a b => (∀ x ∈ f a, x ∉ f b) ∧ ∀ x ∈ f b, x ∉ f a :=
    hapart.imp fun h => ⟨h, fun x hb ha => h x ha hb⟩
  exact (pairwise_get hsymm (fun _ _ => And.symm) hj hk hne).1 x hxb hxa

end Slots
