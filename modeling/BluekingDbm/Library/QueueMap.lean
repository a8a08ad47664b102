import Mathlib.Data.List.AList
import Mathlib.Algebra.BigOperators.Group.List.Basic
import Mathlib.Algebra.GroupWithZero.Nat
import BluekingDbm.Library.Loop

/-! A map from keys to queues. -/

/-- Each key once, with its queue. -/
abbrev QueueMap (κ α : Type*) := AList fun _ : κ => List α

namespace QueueMap

variable {κ α : Type*} {m : QueueMap κ α} {k : κ} {q r : List α}

/-- How many keys there are. -/
def size (m : QueueMap κ α) : ℕ := m.keys.length

/-- How many items the queues hold together. -/
def load (m : QueueMap κ α) : ℕ := (m.entries.map fun e => e.2.length).sum

theorem size_pos_of_mem (h : k ∈ m) : 0 < size m := List.length_pos_of_mem (show k ∈ m.keys from h)

theorem not_mem_of_size_eq_zero (h : size m = 0) : k ∉ m := fun hk =>
  absurd (size_pos_of_mem hk) (by omega)

theorem size_eq_zero : size m = 0 ↔ ∀ k, k ∉ m := by
  refine ⟨fun h k => not_mem_of_size_eq_zero h, fun h => ?_⟩
  rw [size, List.length_eq_zero_iff]
  exact List.eq_nil_iff_forall_not_mem.mpr h

variable [DecidableEq κ]

theorem load_erase (h : m.lookup k = some q) : load (m.erase k) + q.length = load m := by
  have hk : k ∈ m.entries.keys := AList.mem_keys.mp (AList.lookup_isSome.mp (by simp [h]))
  obtain ⟨q', l₁, l₂, hk₁, he, hr⟩ := List.exists_of_kerase hk
  have hq : q' = q := by
    have hl : m.entries.dlookup k = some q := h
    rw [he, List.dlookup_append, List.dlookup_eq_none.mpr hk₁] at hl
    simpa using hl
  subst hq
  have hload : (m.erase k).entries = l₁ ++ l₂ := hr
  simp only [load, hload, he, List.map_append, List.map_cons, List.sum_append, List.sum_cons]
  omega

theorem load_insert (h : m.lookup k = some q) :
    load (m.insert k r) + q.length = load m + r.length := by
  have herase := load_erase h
  have hload : load (m.insert k r) = r.length + load (m.erase k) := by
    have hentries : (m.erase k).entries = List.kerase k m.entries := rfl
    simp [load, AList.entries_insert, hentries]
  omega

theorem erase_of_not_mem (h : k ∉ m) : m.erase k = m := by
  apply AList.ext
  exact List.kerase_of_notMem_keys h

theorem load_erase_le : load (m.erase k) ≤ load m := by
  cases hk : m.lookup k with
  | none => rw [erase_of_not_mem (AList.lookup_eq_none.mp hk)]
  | some q =>
    have := load_erase hk
    omega

theorem size_erase (h : k ∈ m) : size (m.erase k) + 1 = size m := by
  have hlen := List.length_erase_of_mem (show k ∈ m.keys from h)
  have hpos := List.length_pos_of_mem (show k ∈ m.keys from h)
  simp only [size, AList.keys_erase]
  omega

theorem size_erase_le : size (m.erase k) ≤ size m := by
  by_cases h : k ∈ m
  · have := size_erase h
    omega
  · rw [erase_of_not_mem h]

theorem size_insert (h : k ∈ m) : size (m.insert k q) = size m := by
  have := size_erase h
  simp only [size, AList.keys_insert, AList.keys_erase, List.length_cons] at this ⊢
  omega

theorem load_insert_of_not_mem (h : k ∉ m) : load (m.insert k r) = load m + r.length := by
  have herase : (m.erase k).entries = m.entries := congrArg AList.entries (erase_of_not_mem h)
  have hentries : m.entries.kerase k = m.entries := herase
  simp only [load, AList.entries_insert, hentries, List.map_cons, List.sum_cons]
  omega

section Push

variable {β : Type*} {a : α} {l : List β} {key : β → κ} {value : β → α}

/-- One item more at the end of the queue of `k`. -/
def push (m : QueueMap κ α) (k : κ) (a : α) : QueueMap κ α :=
  m.insert k ((m.lookup k).getD [] ++ [a])

theorem load_push : load (push m k a) = load m + 1 := by
  unfold push
  cases hk : m.lookup k with
  | none =>
    have := @load_insert_of_not_mem _ _ m k [a] _ (AList.lookup_eq_none.mp hk)
    simpa using this
  | some q =>
    have := @load_insert _ _ m k q (q ++ [a]) _ hk
    simp only [Option.getD_some, List.length_append, List.length_singleton] at this ⊢
    omega

/-- The items of a list, each in the queue of its key. -/
def group (key : β → κ) (value : β → α) (l : List β) : QueueMap κ α :=
  l.foldl (fun m b => push m (key b) (value b)) ∅

theorem load_group : load (group key value l) = l.length := by
  refine Loop.foldl_prefix (P := fun done m => load m = done.length) rfl ?_
  intro done b rest m _ hm
  simp [load_push, hm]

theorem lookup_group (k : κ) : (group key value l).lookup k =
    if ∃ b ∈ l, key b = k then some ((l.filter fun b => key b = k).map value) else none := by
  refine Loop.foldl_prefix (P := fun done (m : QueueMap κ α) => m.lookup k =
    if ∃ b ∈ done, key b = k then some ((done.filter fun b => key b = k).map value) else none) ?_ ?_
  · simp
  · intro done b rest m _ hm
    by_cases hb : key b = k
    · have hlookup : (push m (key b) (value b)).lookup k =
          some ((m.lookup k).getD [] ++ [value b]) := by
        subst hb
        exact AList.lookup_insert _
      have hqueue : (m.lookup k).getD [] = (done.filter fun b => key b = k).map value := by
        rw [hm]
        split
        · rfl
        · rename_i hnone
          have : done.filter (fun b => key b = k) = [] := by
            refine List.filter_eq_nil_iff.mpr fun b hb hk => hnone ⟨b, hb, ?_⟩
            simpa using hk
          simp [this]
      rw [hlookup, hqueue, if_pos ⟨b, by simp, hb⟩]
      simp [hb]
    · have hlookup : (push m (key b) (value b)).lookup k = m.lookup k :=
        AList.lookup_insert_ne (Ne.symm hb)
      simp [hlookup, hm, hb]

theorem mem_group : k ∈ group key value l ↔ ∃ b ∈ l, key b = k := by
  rw [← AList.lookup_isSome, lookup_group]
  split <;> simp_all

/-- Every queue holds something, so there are no more keys than items. -/
theorem size_le_load (h : ∀ k q, m.lookup k = some q → q ≠ []) : size m ≤ load m := by
  have hpos : ∀ n ∈ m.entries.map (fun e => e.2.length), 1 ≤ n := by
    intro n hn
    obtain ⟨⟨k, q⟩, he, rfl⟩ := List.mem_map.mp hn
    exact List.length_pos_iff.mpr (h k q (AList.mem_lookup_iff.mpr he))
  have hsum := List.length_le_sum_of_one_le _ hpos
  simpa [size, load, AList.keys, List.keys] using hsum

end Push

end QueueMap
