import Mathlib.Algebra.BigOperators.Group.List.Basic
import Mathlib.Algebra.Order.BigOperators.Group.List
import Mathlib.Algebra.Order.Group.Int
import Mathlib.Algebra.Ring.Int.Defs
import Mathlib.Tactic.Common

/-! Amounts moved between holders: what is held after a list of transfers, that transfers out of enough
can be made in any order, and that no list with the same effect moves less than one way only. -/
namespace Transfers

structure Transfer (N : Type*) where
  src : N
  dst : N
  amount : ℤ

variable {N : Type*} [DecidableEq N] {held : N → ℤ} {ts us : List (Transfer N)} {l : List N} {a : N}

def Transfer.apply (t : Transfer N) (held : N → ℤ) : N → ℤ := fun a =>
  held a - (if t.src = a then t.amount else 0) + if t.dst = a then t.amount else 0

/-- What is held after the transfers, one after the other. -/
def run (held : N → ℤ) (ts : List (Transfer N)) : N → ℤ :=
  ts.foldl (fun held t => t.apply held) held

/-- What the transfers with one end at a node amount to. -/
def flow (side : Transfer N → N) (ts : List (Transfer N)) (a : N) : ℤ :=
  (ts.map fun t => if side t = a then t.amount else 0).sum

def total (ts : List (Transfer N)) : ℤ := (ts.map Transfer.amount).sum

variable {side : Transfer N → N}

@[simp] theorem flow_nil : flow side [] a = 0 := rfl

@[simp] theorem flow_cons (t : Transfer N) :
    flow side (t :: ts) a = (if side t = a then t.amount else 0) + flow side ts a := List.sum_cons

theorem flow_append : flow side (ts ++ us) a = flow side ts a + flow side us a := by
  rw [flow, List.map_append, List.sum_append]
  rfl

theorem flow_perm (h : ts.Perm us) : flow side ts a = flow side us a := (h.map _).sum_eq

theorem flow_nonneg (h : ∀ t ∈ ts, 0 ≤ t.amount) : 0 ≤ flow side ts a := by
  induction ts with
  | nil => exact Int.le_refl 0
  | cons t ts ih =>
    obtain ⟨ht, hts⟩ := List.forall_mem_cons.mp h
    have hrest := ih hts
    rw [flow_cons]
    split
    · omega
    · omega

theorem flow_eq_zero (h : ∀ t ∈ ts, side t ≠ a) : flow side ts a = 0 := by
  induction ts with
  | nil => rfl
  | cons t ts ih =>
    obtain ⟨ht, hts⟩ := List.forall_mem_cons.mp h
    rw [flow_cons, if_neg ht, ih hts]
    rfl

theorem flow_const {n : N} (h : ∀ t ∈ ts, side t = n) :
    flow side ts a = if n = a then total ts else 0 := by
  by_cases hn : n = a
  · rw [if_pos hn]
    refine congrArg List.sum (List.map_congr_left fun t ht => ?_)
    exact if_pos ((h t ht).trans hn)
  · rw [if_neg hn]
    exact flow_eq_zero fun t ht heq => hn ((h t ht).symm.trans heq)

theorem run_eq (held : N → ℤ) (ts : List (Transfer N)) (a : N) :
    run held ts a = held a - flow Transfer.src ts a + flow Transfer.dst ts a := by
  induction ts generalizing held with
  | nil => simp [run]
  | cons t ts ih =>
    have hrest := ih (t.apply held)
    rw [flow_cons, flow_cons]
    have hrun : run held (t :: ts) a = run (t.apply held) ts a := rfl
    rw [hrun, hrest, Transfer.apply]
    omega

/-- The order of the transfers does not matter in the end. -/
theorem run_perm (h : ts.Perm us) (held : N → ℤ) : run held ts = run held us := by
  funext a
  rw [run_eq, run_eq, flow_perm h, flow_perm h]

/-- Where nothing flows into a source that can pay all its transfers, it can pay each when its turn
comes. -/
theorem affordable (hamount : ∀ t ∈ ts, 0 ≤ t.amount) (hapart : ∀ t ∈ ts, ∀ u ∈ ts, u.dst ≠ t.src)
    (hout : ∀ t ∈ ts, flow Transfer.src ts t.src ≤ held t.src) {before after : List (Transfer N)}
    {t : Transfer N} (h : (before ++ t :: after).Perm ts) : t.amount ≤ run held before t.src := by
  have hmem : ∀ u ∈ before ++ t :: after, u ∈ ts := fun u hu => h.mem_iff.mp hu
  have ht : t ∈ ts := hmem t (List.mem_append_right _ List.mem_cons_self)
  have hsum : flow Transfer.src ts t.src =
      flow Transfer.src before t.src + (t.amount + flow Transfer.src after t.src) := by
    rw [← flow_perm h, flow_append, flow_cons, if_pos rfl]
  have hafter : 0 ≤ flow Transfer.src after t.src := flow_nonneg fun u hu =>
    hamount u (hmem u (List.mem_append_right _ (List.mem_cons_of_mem _ hu)))
  have hinto : flow Transfer.dst before t.src = 0 := flow_eq_zero fun u hu =>
    hapart t ht u (hmem u (List.mem_append_left _ hu))
  have hpay := hout t ht
  rw [run_eq, hinto]
  omega

theorem sum_ite_eq {M : Type*} [AddCommMonoid M] (hl : l.Nodup) (n : N) (amount : M) :
    (l.map fun a => if n = a then amount else 0).sum = if n ∈ l then amount else 0 := by
  induction l with
  | nil => rfl
  | cons a l ih =>
    obtain ⟨ha, hrest⟩ := List.nodup_cons.mp hl
    rw [List.map_cons, List.sum_cons, ih hrest]
    by_cases hn : n = a
    · subst hn
      rw [if_pos rfl, if_neg ha, if_pos List.mem_cons_self, add_zero]
    · rw [if_neg hn, zero_add]
      by_cases hmem : n ∈ l
      · rw [if_pos hmem, if_pos (List.mem_cons_of_mem _ hmem)]
      · rw [if_neg hmem, if_neg (by simp [hn, hmem])]

/-- What leaves the nodes of a list is no more than what is moved, and just that if all the sources are
among them. -/
theorem sum_out (hl : l.Nodup) (hamount : ∀ t ∈ ts, 0 ≤ t.amount) :
    (l.map fun a => flow Transfer.src ts a).sum ≤ total ts ∧
      ((∀ t ∈ ts, t.src ∈ l) → (l.map fun a => flow Transfer.src ts a).sum = total ts) := by
  induction ts with
  | nil => simp [total]
  | cons t ts ih =>
    obtain ⟨ht, hts⟩ := List.forall_mem_cons.mp hamount
    obtain ⟨hle, heq⟩ := ih hts
    have hsum : (l.map fun a => flow Transfer.src (t :: ts) a).sum =
        (if t.src ∈ l then t.amount else 0) + (l.map fun a => flow Transfer.src ts a).sum := by
      simp only [flow_cons]
      rw [List.sum_map_add, sum_ite_eq hl]
    have htotal : total (t :: ts) = t.amount + total ts := List.sum_cons
    rw [hsum, htotal]
    constructor
    · split
      · omega
      · omega
    · intro hsrc
      obtain ⟨hmem, hrest⟩ := List.forall_mem_cons.mp hsrc
      rw [if_pos hmem, heq hrest]

/-- Transfers that only flow out of some nodes move no more than any that leave them with the same. -/
theorem least (held : N → ℤ) (hl : l.Nodup) (hamount : ∀ t ∈ ts, 0 ≤ t.amount)
    (hsrc : ∀ t ∈ ts, t.src ∈ l) (hdst : ∀ t ∈ ts, t.dst ∉ l) (hus : ∀ u ∈ us, 0 ≤ u.amount)
    (hsame : ∀ a ∈ l, run held us a = run held ts a) : total ts ≤ total us := by
  have hless : ∀ a ∈ l, flow Transfer.src ts a ≤ flow Transfer.src us a := by
    intro a ha
    have hnone : flow Transfer.dst ts a = 0 := flow_eq_zero fun t ht heq => hdst t ht (heq ▸ ha)
    have hsome : 0 ≤ flow Transfer.dst us a := flow_nonneg hus
    have heq := hsame a ha
    rw [run_eq, run_eq, hnone] at heq
    omega
  have hall : (l.map fun a => flow Transfer.src ts a).sum = total ts := (sum_out hl hamount).2 hsrc
  have hsums : (l.map fun a => flow Transfer.src ts a).sum ≤
      (l.map fun a => flow Transfer.src us a).sum := List.sum_le_sum hless
  have hle := (sum_out hl hus).1
  omega

end Transfers
