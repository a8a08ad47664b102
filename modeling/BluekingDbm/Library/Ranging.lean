import Mathlib.Data.List.Basic

/-! Maps are ranged over in no particular order. -/

/-- The orders in which Go may range over a map. -/
structure RangeOrder (α : Type*) where
  order : List α → List α
  perm : ∀ l, (order l).Perm l

namespace RangeOrder

variable {α : Type*} (r : RangeOrder α) {l : List α} {a : α}

/-- The order of the listing itself. -/
def still : RangeOrder α := ⟨id, fun _ => .refl _⟩

/-- The order that begins with one item. -/
def front [DecidableEq α] (a : α) : RangeOrder α where
  order l := if a ∈ l then a :: l.erase a else l
  perm l := by
    split
    case isTrue h => exact (List.perm_cons_erase h).symm
    case isFalse => exact .refl _

/-- `sort.Slice`: what the comparison leaves equal comes in any order. -/
def sortSlice (less : α → α → Bool) (l : List α) : List α :=
  (r.order l).mergeSort fun a b => !less b a

/-- `sort.Slice` as Go's quicksort does it since 1.19: it leaves a slice without a descent alone. -/
def pdqsort (less : α → α → Bool) (l : List α) : List α :=
  if l.IsChain fun a b => less b a = false then l else r.sortSlice less l

theorem perm_sortSlice (less : α → α → Bool) : (r.sortSlice less l).Perm l :=
  (List.mergeSort_perm _ _).trans (r.perm l)

theorem mem_order : a ∈ r.order l ↔ a ∈ l := (r.perm l).mem_iff

theorem mem_sortSlice {less : α → α → Bool} {l : List α} {a : α} :
    a ∈ r.sortSlice less l ↔ a ∈ l := (r.perm_sortSlice less).mem_iff

/-- A sorted list, for a comparison whose negation is a total preorder. -/
theorem pairwise_sortSlice {less : α → α → Bool}
    (htrans : ∀ a b c, less b a = false → less c b = false → less c a = false)
    (htotal : ∀ a b, less b a = false ∨ less a b = false) :
    (r.sortSlice less l).Pairwise fun a b => less b a = false := by
  have hsorted : (r.sortSlice less l).Pairwise fun a b => (!less b a) = true := by
    apply List.pairwise_mergeSort
    · intro a b c hab hbc
      simp only [Bool.not_eq_true'] at hab hbc ⊢
      exact htrans a b c hab hbc
    · intro a b
      simpa using htotal a b
  refine hsorted.imp ?_
  intro a b hab
  simpa using hab

theorem pdqsort_of_no_descent {less : α → α → Bool} (h : ∀ a ∈ l, ∀ b ∈ l, less a b = false) :
    r.pdqsort less l = l := by
  have hchain : l.IsChain fun a b => less b a = false := by
    apply List.Pairwise.isChain
    apply List.pairwise_of_forall_mem_list
    intro a ha b hb
    exact h b hb a ha
  exact if_pos hchain

end RangeOrder
