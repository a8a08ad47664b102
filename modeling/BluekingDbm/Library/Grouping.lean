import BluekingDbm.Library.Table
import Mathlib.Algebra.BigOperators.Group.List.Basic
import Mathlib.Algebra.GroupWithZero.Nat
import Mathlib.Data.List.AList
import Mathlib.Data.List.Induction

/-! Gathering the items of a list under their keys, in the order of the list. -/
namespace Grouping

variable {α κ : Type*} [DecidableEq κ] {key : α → κ} {l : List α} {k : κ} {a : α}

def gather (key : α → κ) (l : List α) : AList fun _ : κ => List α :=
  l.foldl (fun m a => m.insert (key a) ((m.lookup (key a)).getD [] ++ [a])) ∅

/-- The items of one key. -/
def part (key : α → κ) (l : List α) (k : κ) : List α := l.filter fun a => decide (key a = k)

theorem gather_append (a : α) : gather key (l ++ [a]) =
    (gather key l).insert (key a) (((gather key l).lookup (key a)).getD [] ++ [a]) := by
  rw [gather, List.foldl_append]
  rfl

theorem part_append (a : α) : part key (l ++ [a]) k =
    if key a = k then part key l k ++ [a] else part key l k := by
  rw [part, List.filter_append]
  split
  case isTrue h => simp [part, h]
  case isFalse h => simp [part, h]

/-- Each key that occurs has the items of that key. -/
theorem lookup_gather : (gather key l).lookup k =
    if part key l k = [] then none else some (part key l k) := by
  induction l using List.reverseRecOn generalizing k with
  | nil => rfl
  | append_singleton l a ih =>
    rw [gather_append, part_append]
    by_cases hk : key a = k
    · subst hk
      rw [AList.lookup_insert, ih, if_pos rfl, if_neg (List.append_ne_nil_of_right_ne_nil _ (by simp))]
      split
      case isTrue hempty => simp [hempty]
      case isFalse hne => rfl
    · rw [AList.lookup_insert_ne (Ne.symm hk), ih, if_neg hk]

theorem mem_gather {e : Sigma fun _ : κ => List α} :
    e ∈ (gather key l).entries ↔ e.2 = part key l e.1 ∧ part key l e.1 ≠ [] := by
  obtain ⟨k, items⟩ := e
  rw [← AList.mem_lookup_iff, Option.mem_def, lookup_gather]
  constructor
  · intro h
    split at h
    case isTrue => cases h
    case isFalse hne => exact ⟨(Option.some.inj h).symm, hne⟩
  · rintro ⟨h, hne⟩
    rw [if_neg hne]
    exact congrArg some h.symm

/-! Values that are gathered under given keys. -/

variable {β : Type*} {m : AList fun _ : κ => List β} {v : β} {pairs : List (κ × β)}

/-- `m[k] = append(m[k], v)`. -/
def add (m : AList fun _ : κ => List β) (k : κ) (v : β) : AList fun _ : κ => List β :=
  m.insert k ((m.lookup k).getD [] ++ [v])

/-- The values of one key. -/
def values (pairs : List (κ × β)) (k : κ) : List β :=
  (pairs.filter fun pair => decide (pair.1 = k)).map (·.2)

/-- Each key that occurs has its values. -/
def Holds (m : AList fun _ : κ => List β) (pairs : List (κ × β)) : Prop :=
  ∀ k, m.lookup k = if values pairs k = [] then none else some (values pairs k)

theorem holds_nil : Holds (∅ : AList fun _ : κ => List β) [] := fun _ => rfl

theorem Holds.add (h : Holds m pairs) : Holds (add m k v) (pairs ++ [(k, v)]) := by
  intro k'
  rw [values, List.filter_append, List.map_append]
  by_cases hk : k = k'
  · subst hk
    rw [Grouping.add, AList.lookup_insert, h k]
    have hlast : ([(k, v)].filter fun pair => decide (pair.1 = k)).map (·.2) = [v] := by simp
    rw [hlast, if_neg (List.append_ne_nil_of_right_ne_nil _ (List.cons_ne_nil v [])), values]
    split
    case isTrue hempty => rw [hempty]; rfl
    case isFalse hne => rfl
  · have hlast : ([(k, v)].filter fun pair => decide (pair.1 = k')).map (·.2) = [] := by simp [hk]
    rw [Grouping.add, AList.lookup_insert_ne (Ne.symm hk), h k', hlast, List.append_nil]
    rfl

/-- A loop that appends a value to the entry of its key. -/
theorem holds_foldl (key : α → κ) (value : α → β) (l : List α) :
    Holds (l.foldl (fun m a => add m (key a) (value a)) ∅) (l.map fun a => (key a, value a)) := by
  induction l using List.reverseRecOn with
  | nil => exact holds_nil
  | append_singleton l a ih =>
    rw [List.foldl_append, List.map_append]
    exact ih.add

theorem Holds.mem_entries (h : Holds m pairs) {e : Sigma fun _ : κ => List β} :
    e ∈ m.entries ↔ e.2 = values pairs e.1 ∧ values pairs e.1 ≠ [] := by
  obtain ⟨k, items⟩ := e
  rw [← AList.mem_lookup_iff, Option.mem_def, h k]
  constructor
  · intro hlookup
    split at hlookup
    case isTrue => cases hlookup
    case isFalse hne => exact ⟨(Option.some.inj hlookup).symm, hne⟩
  · rintro ⟨hitems, hne⟩
    rw [if_neg hne]
    exact congrArg some hitems.symm

end Grouping

/-! How often each key occurs, counted into a map. -/

/-- Each key that was counted once, with its count. -/
abbrev Histogram (κ : Type*) := AList fun _ : κ => ℕ

namespace Histogram

variable {κ α : Type*} {h : Histogram κ} {k k' : κ} {key : α → κ} {l l' : List α}

/-- The sum of the counts. -/
def total (h : Histogram κ) : ℕ := (h.entries.map fun e => e.2).sum

@[simp] theorem total_empty : total (∅ : Histogram κ) = 0 := rfl

variable [DecidableEq κ]

def get (h : Histogram κ) (k : κ) : ℕ := (h.lookup k).getD 0

def bump (h : Histogram κ) (k : κ) : Histogram κ := h.insert k (get h k + 1)

/-- Counts the elements of `l` on top of `h`. -/
def collect (key : α → κ) (h : Histogram κ) (l : List α) : Histogram κ :=
  l.foldl (fun h a => bump h (key a)) h

@[simp] theorem get_empty : get (∅ : Histogram κ) k = 0 := rfl

theorem get_bump : get (bump h k) k' = get h k' + if k = k' then 1 else 0 := by
  by_cases hk : k = k'
  · subst hk
    simp [bump, get, AList.lookup_insert]
  · simp [bump, get, AList.lookup_insert_ne (Ne.symm hk), hk]

theorem get_collect : get (collect key h l) k = get h k + l.countP fun a => key a = k := by
  induction l generalizing h with
  | nil => rfl
  | cons a l ih =>
    rw [collect, List.foldl_cons]
    show get (collect key (bump h (key a)) l) k = _
    rw [ih, get_bump, List.countP_cons]
    simp only [decide_eq_true_eq]
    omega

end Histogram
