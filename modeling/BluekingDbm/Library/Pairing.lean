import BluekingDbm.Library.Table
import Mathlib.Data.List.Perm.Subperm

/-! Tables that give each key a value of its own. -/
namespace Pairing

variable {α β : Type*} {m : AList fun _ : α => β} {a : α} {b : β}

/-- No value is given twice. -/
def Injective (m : AList fun _ : α => β) : Prop := (Table.values m).Nodup

theorem injective_empty : Injective (∅ : AList fun _ : α => β) := List.nodup_nil

theorem length_values : (Table.values m).length = m.keys.length := by
  rw [Table.values, AList.keys, List.keys, List.length_map, List.length_map]

/-- While keys are missing, values are left. -/
theorem exists_free {keys : List α} {vals : List β} (hkeys : m.keys ⊆ keys) (ha : a ∈ keys)
    (hmiss : a ∉ m) (hvals : vals.Nodup) (hlen : keys.length ≤ vals.length) :
    ∃ b ∈ vals, b ∉ Table.values m := by
  by_contra hall
  have hsub : vals ⊆ Table.values m := by
    intro b hb
    by_contra hnot
    exact hall ⟨b, hb, hnot⟩
  have hle : vals.length ≤ m.keys.length := by
    rw [← length_values]
    exact (List.subperm_of_subset hvals hsub).length_le
  have hmore : (a :: m.keys).length ≤ keys.length := by
    have hnodup : (a :: m.keys).Nodup := List.nodup_cons.mpr ⟨hmiss, m.keys_nodup⟩
    exact (List.subperm_of_subset hnodup (List.cons_subset.mpr ⟨ha, hkeys⟩)).length_le
  rw [List.length_cons] at hmore
  omega

/-- With a value for each of the keys, all values are given. -/
theorem perm_of_full {keys : List α} {vals : List β} (hm : Injective m) (hkeys : m.keys.Perm keys)
    (hvals : Table.values m ⊆ vals) (hlen : vals.length ≤ keys.length) :
    (Table.values m).Perm vals := by
  refine (List.subperm_of_subset hm hvals).perm_of_length_le ?_
  rw [length_values, hkeys.length_eq]
  exact hlen

variable [DecidableEq α]

/-- Looking up every key lists the values. -/
theorem map_lookup_keys (default : β) :
    (m.keys.map fun a => (m.lookup a).getD default) = Table.values m := by
  rw [AList.keys, List.keys, List.map_map, Table.values]
  refine List.map_congr_left ?_
  intro e he
  have hlookup : m.lookup e.1 = some e.2 := AList.mem_lookup_iff.mpr he
  rw [Function.comp_apply, hlookup]
  rfl

theorem values_insert (ha : a ∉ m) : Table.values (m.insert a b) = b :: Table.values m := by
  rw [Table.values, AList.entries_insert_of_notMem ha]
  rfl

theorem keys_insert (ha : a ∉ m) : (m.insert a b).keys = a :: m.keys := by
  rw [AList.keys_insert, List.erase_of_not_mem ha]

theorem Injective.insert (hm : Injective m) (ha : a ∉ m) (hb : b ∉ Table.values m) :
    Injective (m.insert a b) := by
  rw [Injective, values_insert ha]
  exact List.nodup_cons.mpr ⟨hb, hm⟩

end Pairing
