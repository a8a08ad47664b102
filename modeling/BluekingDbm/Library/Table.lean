import Mathlib.Data.List.AList
import Mathlib.Algebra.BigOperators.Group.List.Basic
import Mathlib.Algebra.GroupWithZero.Nat
import Mathlib.Tactic.Tauto

/-! Finite tables: the part of a table whose values pass a test, and sums over its values. -/
namespace Table

variable {κ α : Type*} {l : List (Sigma fun _ : κ => α)} {k : κ}

/-- The entries whose values pass the test. -/
def keep (m : AList fun _ : κ => α) (p : α → Bool) : AList fun _ : κ => α :=
  ⟨m.entries.filter fun e => p e.2, m.nodupKeys.sublist List.filter_sublist⟩

def values (m : AList fun _ : κ => α) : List α := m.entries.map Sigma.snd

theorem mem_values {m : AList fun _ : κ => α} {v : α} : v ∈ values m ↔ ∃ k, ⟨k, v⟩ ∈ m.entries := by
  constructor
  · intro h
    obtain ⟨⟨k, v'⟩, he, rfl⟩ := List.mem_map.mp h
    exact ⟨k, he⟩
  · rintro ⟨k, he⟩
    exact List.mem_map.mpr ⟨_, he, rfl⟩

theorem values_keep (m : AList fun _ : κ => α) (p : α → Bool) :
    values (keep m p) = (values m).filter p := by
  simp [values, keep, List.filter_map, Function.comp_def]

variable [DecidableEq κ]

theorem lookup_keep (m : AList fun _ : κ => α) (p : α → Bool) (k : κ) :
    (keep m p).lookup k = (m.lookup k).filter p := by
  apply Option.ext
  intro v
  rw [Option.mem_def.symm, AList.mem_lookup_iff, Option.mem_def.symm, Option.mem_filter_iff,
    AList.mem_lookup_iff]
  exact List.mem_filter

/-- Entering a list of pairs adds their keys. -/
theorem mem_enter {pairs : List (κ × α)} {m : AList fun _ : κ => α} :
    k ∈ pairs.foldl (fun m p => m.insert p.1 p.2) m ↔ k ∈ m ∨ k ∈ pairs.map Prod.fst := by
  induction pairs generalizing m with
  | nil => simp
  | cons p pairs ih =>
    rw [List.foldl_cons, ih, AList.mem_insert, List.map_cons, List.mem_cons]
    tauto

theorem entries_insert_new {m : AList fun _ : κ => α} {v : α} (h : k ∉ m) :
    (m.insert k v).entries = ⟨k, v⟩ :: m.entries := by
  rw [AList.entries_insert, List.kerase_of_notMem_keys h]

/-- An entry and what is left without it. -/
theorem perm_erase {m : AList fun _ : κ => α} {v : α} (h : m.lookup k = some v) :
    m.entries.Perm (⟨k, v⟩ :: (m.erase k).entries) := by
  have hmem : ⟨k, v⟩ ∈ m.entries := AList.mem_lookup_iff.mp h
  obtain ⟨v', l₁, l₂, hk₁, he, hr⟩ := List.exists_of_kerase (List.mem_keys_of_mem hmem)
  have hv : m.lookup k = some v' := by
    show m.entries.dlookup k = some v'
    rw [he, List.dlookup_append, List.dlookup_eq_none.mpr hk₁]
    simp
  obtain rfl : v = v' := Option.some.inj (h.symm.trans hv)
  have hentries : (m.erase k).entries = l₁ ++ l₂ := hr
  rw [hentries, he]
  exact List.perm_middle

/-- Pairs with new keys are added to the entries. -/
theorem perm_enter {pairs : List (κ × α)} {m : AList fun _ : κ => α}
    (hkeys : (pairs.map Prod.fst).Nodup) (hnew : ∀ p ∈ pairs, p.1 ∉ m) :
    (pairs.foldl (fun m p => m.insert p.1 p.2) m).entries.Perm
      (pairs.map (fun p => ⟨p.1, p.2⟩) ++ m.entries) := by
  induction pairs generalizing m with
  | nil => exact .refl _
  | cons p pairs ih =>
    obtain ⟨hp, hkeys⟩ := List.nodup_cons.mp hkeys
    have hrest : ∀ q ∈ pairs, q.1 ∉ m.insert p.1 p.2 := by
      intro q hq hmem
      rcases (AList.mem_insert _).mp hmem with heq | hmem
      · exact hp (heq ▸ List.mem_map_of_mem hq)
      · exact hnew q (List.mem_cons_of_mem _ hq) hmem
    have hperm := ih hkeys hrest
    rw [entries_insert_new (hnew p List.mem_cons_self)] at hperm
    exact hperm.trans List.perm_middle

/-- What the values under one key add up to. -/
theorem sum_key (hl : l.NodupKeys) (f : α → ℕ) :
    ((l.filter fun e => e.1 = k).map fun e => f e.2).sum = ((l.dlookup k).map f).getD 0 := by
  induction l with
  | nil => rfl
  | cons e l ih =>
    obtain ⟨k', v⟩ := e
    obtain ⟨hnot, hl⟩ := List.nodupKeys_cons.mp hl
    by_cases hk : k' = k
    · subst hk
      have hrest : l.filter (fun e => decide (e.1 = k')) = [] := by
        rw [List.filter_eq_nil_iff]
        intro e he hek
        have hkey : k' ∈ l.keys := by
          rw [← of_decide_eq_true hek]
          exact List.mem_keys_of_mem he
        exact hnot hkey
      simp [hrest]
    · have hne : k ≠ k' := fun h => hk h.symm
      simp [hk, List.dlookup_cons_ne, hne, ih hl]

/-- What a measure of the values adds up to over the whole table. -/
def total (m : AList fun _ : κ => α) (f : α → ℕ) : ℕ := ((values m).map f).sum

theorem total_erase (m : AList fun _ : κ => α) (f : α → ℕ) (k : κ) :
    total (m.erase k) f + ((m.lookup k).map f).getD 0 = total m f := by
  by_cases hk : k ∈ m.entries.keys
  · obtain ⟨v, l₁, l₂, hk₁, he, hr⟩ := List.exists_of_kerase hk
    have hentries : (m.erase k).entries = l₁ ++ l₂ := hr
    have hv : m.lookup k = some v := by
      show m.entries.dlookup k = some v
      rw [he, List.dlookup_append, List.dlookup_eq_none.mpr hk₁]
      simp
    simp only [total, values, hentries, he, hv, List.map_append, List.map_cons,
      List.sum_append, List.sum_cons, Option.map_some, Option.getD_some]
    omega
  · have hv : m.lookup k = none := List.dlookup_eq_none.mpr hk
    have hentries : (m.erase k).entries = m.entries := List.kerase_of_notMem_keys hk
    simp [total, values, hentries, hv]

/-- Entering a value adds its measure and takes that of the value it replaces. -/
theorem total_insert (m : AList fun _ : κ => α) (f : α → ℕ) (k : κ) (v : α) :
    total (m.insert k v) f + ((m.lookup k).map f).getD 0 = total m f + f v := by
  have herase := total_erase m f k
  have hentries : (m.erase k).entries = List.kerase k m.entries := rfl
  have htotal : total (m.insert k v) f = f v + total (m.erase k) f := by
    simp [total, values, AList.entries_insert, hentries]
  omega

end Table
