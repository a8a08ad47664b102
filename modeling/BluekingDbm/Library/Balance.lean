import Mathlib.Algebra.BigOperators.Group.Finset.Piecewise
import Mathlib.Algebra.Order.BigOperators.Group.Finset
import Mathlib.Algebra.BigOperators.Group.Multiset.Basic
import Mathlib.Algebra.BigOperators.Fin
import Mathlib.Algebra.Group.Action.Defs
import Mathlib.Data.Fintype.BigOperators
import Mathlib.Data.Prod.Lex
import Mathlib.Tactic.Common

/-! Items put one after the other into the bucket of least key: how far the buckets differ in the
end, when none stays empty, and that no other way to fill them up spreads less. -/
namespace Balance

variable {ι α κ : Type*} [DecidableEq ι]

def put (b : ι → List α) (i : ι) (a : α) : ι → List α := Function.update b i (b i ++ [a])

@[simp] theorem put_self (b : ι → List α) (i : ι) (a : α) : put b i a i = b i ++ [a] :=
  Function.update_self i _ b

theorem put_of_ne {b : ι → List α} {i j : ι} (a : α) (h : j ≠ i) : put b i a j = b j :=
  Function.update_of_ne h _ b

/-- `Greedy key start items b`: the items, in this order, each into a bucket of least key, fill
`start` up to `b`. -/
inductive Greedy [LE κ] (key : List α → κ) (start : ι → List α) : List α → (ι → List α) → Prop
  | refl : Greedy key start [] start
  | snoc {items : List α} {b : ι → List α} {i : ι} {a : α} :
      Greedy key start items b → (∀ j, key (b i) ≤ key (b j)) →
        Greedy key start (items ++ [a]) (put b i a)

section Keys

variable [Preorder κ] {key : List α → κ} {start b : ι → List α} {items : List α}

/-- A bucket is what it was, with items after it. -/
theorem Greedy.exists_added (h : Greedy key start items b) (i : ι) :
    ∃ added, b i = start i ++ added ∧ ∀ a ∈ added, a ∈ items := by
  induction h with
  | refl => exact ⟨[], (List.append_nil _).symm, fun _ ha => absurd ha List.not_mem_nil⟩
  | @snoc items b j c _ _ ih =>
    obtain ⟨added, hb, hadded⟩ := ih
    by_cases hij : i = j
    · subst hij
      refine ⟨added ++ [c], ?_, ?_⟩
      · rw [put_self, hb, List.append_assoc]
      · intro a ha
        rcases List.mem_append.mp ha with ha | ha
        · exact List.mem_append_left _ (hadded a ha)
        · exact List.mem_append_right _ ha
    · refine ⟨added, ?_, fun a ha => List.mem_append_left _ (hadded a ha)⟩
      rw [put_of_ne c hij]
      exact hb

theorem le_put (hmono : ∀ l a, key l ≤ key (l ++ [a])) (b : ι → List α) (i j : ι) (a : α) :
    key (b j) ≤ key (put b i a j) := by
  by_cases hij : j = i
  · subst hij
    rw [put_self]
    exact hmono _ _
  · rw [put_of_ne a hij]

/-- A bucket is as it was, or no bucket is below what it was before its last item. -/
theorem Greedy.last (hmono : ∀ l a, key l ≤ key (l ++ [a])) (h : Greedy key start items b)
    (i : ι) : b i = start i ∨ ∃ l a, b i = l ++ [a] ∧ ∀ j, key l ≤ key (b j) := by
  induction h with
  | refl => exact Or.inl rfl
  | @snoc items b k a _ hleast ih =>
    by_cases hik : i = k
    · subst hik
      refine Or.inr ⟨b i, a, put_self b i a, ?_⟩
      intro j
      exact (hleast j).trans (le_put hmono b i j a)
    · rw [put_of_ne a hik]
      rcases ih with hstart | ⟨l, c, hl, hle⟩
      · exact Or.inl hstart
      · exact Or.inr ⟨l, c, hl, fun j => (hle j).trans (le_put hmono b k j a)⟩

end Keys

section Sums

variable [LE κ] [Fintype ι] {key : List α → κ} {start b : ι → List α} {items : List α}

theorem sum_put {β : Type*} [AddCommMonoid β] (f : List α → β) (c : β) (b : ι → List α) (i : ι)
    (a : α) (h : f (b i ++ [a]) = f (b i) + c) : ∑ j, f (put b i a j) = ∑ j, f (b j) + c := by
  have hupdate : (fun j => f (put b i a j)) = Function.update (fun j => f (b j)) i (f (b i) + c) := by
    funext j
    by_cases hij : j = i
    · subst hij
      rw [put_self, Function.update_self, h]
    · rw [put_of_ne a hij, Function.update_of_ne hij]
  have hsplit := Finset.sum_eq_add_sum_sdiff_singleton_of_mem (Finset.mem_univ i) fun j => f (b j)
  calc
    ∑ j, f (put b i a j) = ∑ j, Function.update (fun j => f (b j)) i (f (b i) + c) j :=
      congrArg (fun g => ∑ j, g j) hupdate
    _ = f (b i) + c + ∑ j ∈ Finset.univ \ {i}, f (b j) :=
      Finset.sum_update_of_mem (Finset.mem_univ i) _ _
    _ = ∑ j, f (b j) + c := by
      rw [hsplit]
      exact add_right_comm _ _ _

/-- The buckets hold what they held and the items, each once. -/
theorem Greedy.sum_coe (h : Greedy key start items b) :
    ∑ i, (b i : Multiset α) = ∑ i, (start i : Multiset α) + (items : Multiset α) := by
  induction h with
  | refl => simp
  | @snoc items b i a _ _ ih =>
    have hput := sum_put (fun l => (l : Multiset α)) {a} b i a rfl
    rw [hput, ih, add_assoc]
    rfl

theorem coe_flatten (ls : List (List α)) :
    (ls.flatten : Multiset α) = (ls.map Multiset.ofList).sum := by
  induction ls with
  | nil => rfl
  | cons l ls ih =>
    rw [List.flatten_cons, List.map_cons, List.sum_cons, ← ih]
    rfl

theorem coe_flatten_ofFn {n : ℕ} (b : Fin n → List α) :
    ((List.ofFn b).flatten : Multiset α) = ∑ i, (b i : Multiset α) := by
  rw [coe_flatten, List.map_ofFn, List.sum_ofFn]
  rfl

/-- The buckets in a row. -/
theorem Greedy.perm {n : ℕ} {start b : Fin n → List α} (h : Greedy key start items b) :
    (List.ofFn b).flatten.Perm ((List.ofFn start).flatten ++ items) := by
  refine Multiset.coe_eq_coe.mp ?_
  rw [← Multiset.coe_add, coe_flatten_ofFn, coe_flatten_ofFn]
  exact h.sum_coe

theorem Greedy.sum_length (h : Greedy key start items b) :
    ∑ i, (b i).length = ∑ i, (start i).length + items.length := by
  have hcard := congrArg Multiset.card h.sum_coe
  simpa using hcard

end Sums

section Loads

variable {w : α → ℕ} {b : ι → List α} {items : List α}

def load (w : α → ℕ) (l : List α) : ℕ := (l.map w).sum

theorem load_append (l : List α) (a : α) : load w (l ++ [a]) = load w l + w a := by
  simp [load]

/-- The load of a bucket, then the number of its items. -/
def loadKey (w : α → ℕ) (l : List α) : ℕ ×ₗ ℕ := toLex (load w l, l.length)

theorem loadKey_le_iff {l m : List α} :
    loadKey w l ≤ loadKey w m ↔
      load w l < load w m ∨ load w l = load w m ∧ l.length ≤ m.length :=
  Prod.Lex.toLex_le_toLex

theorem load_le_of_loadKey {l m : List α} (h : loadKey w l ≤ loadKey w m) :
    load w l ≤ load w m := by
  have := loadKey_le_iff.mp h
  omega

theorem loadKey_mono (l : List α) (a : α) : loadKey w l ≤ loadKey w (l ++ [a]) := by
  refine loadKey_le_iff.mpr ?_
  rw [load_append, List.length_append, List.length_singleton]
  omega

/-- No bucket exceeds another by more than the item that it took last. -/
theorem Greedy.load_le (h : Greedy (loadKey w) (fun _ => []) items b) {i : ι} {a : α}
    (ha : (b i).getLast? = some a) (j : ι) : load w (b i) ≤ load w (b j) + w a := by
  rcases h.last loadKey_mono i with hstart | ⟨l, c, hl, hle⟩
  · rw [hstart] at ha
    cases ha
  · obtain rfl : c = a := by simpa [hl] using ha
    have hload := load_le_of_loadKey (hle j)
    rw [hl, load_append]
    omega

/-- While a bucket is empty no bucket has two items. -/
theorem Greedy.length_le_one (h : Greedy (loadKey w) (fun _ => []) items b) {i : ι}
    (hi : b i = []) (j : ι) : (b j).length ≤ 1 := by
  rcases h.last loadKey_mono j with hstart | ⟨l, c, hl, hle⟩
  · simp [hstart]
  · have hkey := loadKey_le_iff.mp (hle i)
    rw [hi] at hkey
    simp only [load, List.map_nil, List.sum_nil, List.length_nil] at hkey
    rw [hl, List.length_append, List.length_singleton]
    omega

theorem Greedy.mem_of_mem (h : Greedy (loadKey w) (fun _ => []) items b) (i : ι) :
    ∀ a ∈ b i, a ∈ items := by
  obtain ⟨added, hb, hadded⟩ := h.exists_added i
  rw [hb]
  exact hadded

variable [Fintype ι]

theorem Greedy.length_eq (h : Greedy (loadKey w) (fun _ => []) items b) :
    ∑ i, (b i).length = items.length := by
  simpa using h.sum_length

/-- With no more buckets than items none stays empty. -/
theorem Greedy.ne_nil (h : Greedy (loadKey w) (fun _ => []) items b)
    (hcard : Fintype.card ι ≤ items.length) (i : ι) : b i ≠ [] := by
  intro hi
  have hle : ∀ j ∈ Finset.univ, (b j).length ≤ 1 := fun j _ => h.length_le_one hi j
  have hlt : (b i).length < 1 := by simp [hi]
  have hsum := Finset.sum_lt_sum hle ⟨i, Finset.mem_univ i, hlt⟩
  rw [h.length_eq] at hsum
  simp only [Finset.sum_const, Finset.card_univ, smul_eq_mul, mul_one] at hsum
  omega

/-- With no fewer buckets than items none takes two. -/
theorem Greedy.length_le_one_of_card (h : Greedy (loadKey w) (fun _ => []) items b)
    (hcard : items.length ≤ Fintype.card ι) (i : ι) : (b i).length ≤ 1 := by
  by_cases hempty : ∃ j, b j = []
  · obtain ⟨j, hj⟩ := hempty
    exact h.length_le_one hj i
  · by_contra hmany
    have hle : ∀ j ∈ Finset.univ, 1 ≤ (b j).length := by
      intro j _
      exact List.length_pos_iff.mpr fun hj => hempty ⟨j, hj⟩
    have hsum := Finset.sum_lt_sum hle ⟨i, Finset.mem_univ i, by omega⟩
    rw [h.length_eq] at hsum
    simp only [Finset.sum_const, Finset.card_univ, smul_eq_mul, mul_one] at hsum
    omega

end Loads

section Spread

variable [Fintype ι] {start b : ι → List α} {items : List α} {p : ι → ℕ}

theorem length_mono (l : List α) (a : α) : l.length ≤ (l ++ [a]).length := by simp

/-- However else as many items are spread, some bucket gets as full as this one. -/
theorem Greedy.exists_fuller (h : Greedy List.length start items b)
    (hp : ∑ i, p i = items.length) (i : ι) : ∃ j, (b i).length ≤ (start j).length + p j := by
  rcases h.last length_mono i with hstart | ⟨l, a, hl, hle⟩
  · exact ⟨i, by rw [hstart]; omega⟩
  · by_contra hnone
    have hbelow : ∀ j, (start j).length + p j < (b i).length := by
      intro j
      by_contra hj
      exact hnone ⟨j, by omega⟩
    have hi : (b i).length = l.length + 1 := by simp [hl]
    have hle' : ∀ j ∈ Finset.univ, (start j).length + p j ≤ (b j).length := by
      intro j _
      have h1 := hbelow j
      have h2 := hle j
      omega
    have hlt := Finset.sum_lt_sum hle' ⟨i, Finset.mem_univ i, hbelow i⟩
    rw [Finset.sum_add_distrib, hp, h.sum_length] at hlt
    omega

/-- However else as many items are spread, some bucket stays as low as this one. -/
theorem Greedy.exists_lower (h : Greedy List.length start items b)
    (hp : ∑ i, p i = items.length) (i : ι) : ∃ j, (start j).length + p j ≤ (b i).length := by
  by_contra hnone
  have habove : ∀ j, (b i).length < (start j).length + p j := by
    intro j
    by_contra hj
    exact hnone ⟨j, by omega⟩
  have hle : ∀ j ∈ Finset.univ, (b j).length ≤ (start j).length + p j := by
    intro j _
    rcases h.last length_mono j with hstart | ⟨l, a, hl, hleast⟩
    · rw [hstart]
      omega
    · have h1 := habove j
      have h2 := hleast i
      rw [hl, List.length_append, List.length_singleton]
      omega
  have hlt := Finset.sum_lt_sum hle ⟨i, Finset.mem_univ i, habove i⟩
  rw [Finset.sum_add_distrib, hp, h.sum_length] at hlt
  omega

end Spread
end Balance
