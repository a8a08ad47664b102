import Mathlib.Data.List.AList
import Mathlib.Algebra.Order.Field.Rat
import Mathlib.Tactic.Linarith

/-! The Redis values that a queue is built from: sorted sets, string keys with a time to live, and
hashes of integer counters. Time is passed in; an expired key stays in the map and is not read. -/
namespace Redis

/-- A sorted set: each member once, with its score. -/
abbrev SortedSet (α : Type*) := AList fun _ : α => ℚ

section SortedSet

variable {α : Type*} {z : SortedSet α} {a b : α} {q : ℚ} {p : α → Bool}

def zcard (z : SortedSet α) : ℕ := z.keys.length

/-- How many members satisfy `p`. -/
def zcount (p : α → Bool) (z : SortedSet α) : ℕ := z.keys.countP p

theorem not_mem_empty : a ∉ (∅ : SortedSet α) := AList.notMem_empty a

@[simp] theorem zcard_empty : zcard (∅ : SortedSet α) = 0 := rfl

@[simp] theorem zcount_empty : zcount p (∅ : SortedSet α) = 0 := rfl

theorem zcard_eq_zcount : zcard z = zcount (fun _ => true) z := by
  simp [zcard, zcount]

variable [DecidableEq α]

def zscore (z : SortedSet α) (a : α) : Option ℚ := z.lookup a

def zadd (z : SortedSet α) (q : ℚ) (a : α) : SortedSet α := z.insert a q

def zrem (z : SortedSet α) (a : α) : SortedSet α := z.erase a

/-- The reply of ZREM: how many members it removed. -/
def zremReply (z : SortedSet α) (a : α) : ℕ := if a ∈ z then 1 else 0

@[simp] theorem mem_zadd : b ∈ zadd z q a ↔ b = a ∨ b ∈ z := AList.mem_insert z

@[simp] theorem mem_zrem : b ∈ zrem z a ↔ b ≠ a ∧ b ∈ z := AList.mem_erase

theorem zscore_isSome : (zscore z a).isSome ↔ a ∈ z := AList.lookup_isSome

@[simp] theorem zscore_zadd_self : zscore (zadd z q a) a = some q := AList.lookup_insert z

theorem zscore_zadd_ne (h : b ≠ a) : zscore (zadd z q a) b = zscore z b := AList.lookup_insert_ne h

theorem zrem_of_not_mem (h : a ∉ z) : zrem z a = z := by
  apply AList.ext
  exact List.kerase_of_notMem_keys h

theorem zcount_zadd_of_not_mem (h : a ∉ z) :
    zcount p (zadd z q a) = zcount p z + if p a then 1 else 0 := by
  have hk : z.keys.erase a = z.keys := List.erase_of_not_mem h
  simp [zcount, zadd, hk, List.countP_cons]

theorem zcount_zrem_of_mem (h : a ∈ z) :
    zcount p (zrem z a) + (if p a then 1 else 0) = zcount p z := by
  have hp : z.keys.Perm (a :: z.keys.erase a) := List.perm_cons_erase h
  simp [zcount, zrem, hp.countP_eq p, List.countP_cons]

theorem zcard_zadd_of_not_mem (h : a ∉ z) : zcard (zadd z q a) = zcard z + 1 := by
  simp [zcard_eq_zcount, zcount_zadd_of_not_mem h]

theorem zcard_zrem_of_mem (h : a ∈ z) : zcard (zrem z a) + 1 = zcard z := by
  simpa [zcard_eq_zcount] using zcount_zrem_of_mem (p := fun _ => true) h

theorem zcard_zadd_of_mem (h : a ∈ z) : zcard (zadd z q a) = zcard z := by
  have hm : a ∈ z.keys := h
  have := List.length_pos_of_mem hm
  simp [zcard, zadd, List.length_erase_of_mem hm]
  omega

theorem zcard_zadd_le : zcard (zadd z q a) ≤ zcard z + 1 := by
  by_cases h : a ∈ z
  · rw [zcard_zadd_of_mem h]; omega
  · rw [zcard_zadd_of_not_mem h]

theorem zcard_le_zadd : zcard z ≤ zcard (zadd z q a) := by
  by_cases h : a ∈ z
  · rw [zcard_zadd_of_mem h]
  · rw [zcard_zadd_of_not_mem h]; omega

/-- ZREM takes away exactly as many members as it replies. -/
theorem zcard_zrem_add_reply : zcard (zrem z a) + zremReply z a = zcard z := by
  by_cases h : a ∈ z
  · simp [zremReply, h, zcard_zrem_of_mem]
  · simp [zremReply, h, zrem_of_not_mem]

theorem zcard_zrem_le : zcard (zrem z a) ≤ zcard z := by
  have := zcard_zrem_add_reply (z := z) (a := a)
  omega

end SortedSet

section Keyspace

/-- A string value and the time from which it no longer exists. -/
structure Entry (α : Type*) where
  value : α
  expireAt : Option ℚ

def Entry.live {α : Type*} (now : ℚ) (e : Entry α) : Bool := e.expireAt.all fun t => now < t

/-- The string keys of one family. -/
abbrev Keyspace (κ α : Type*) := κ → Option (Entry α)

variable {κ α : Type*} {db : Keyspace κ α} {now later : ℚ} {k k' : κ} {v : α}

/-- GET. -/
def getKey (db : Keyspace κ α) (now : ℚ) (k : κ) : Option α :=
  ((db k).filter (Entry.live now)).map Entry.value

theorem getKey_eq_some :
    getKey db now k = some v ↔ ∃ e, db k = some e ∧ e.live now ∧ e.value = v := by
  simp [getKey, Option.filter_eq_some_iff, and_assoc]

theorem getKey_congr {db' : Keyspace κ α} (h : db k = db' k) :
    getKey db now k = getKey db' now k := by
  simp [getKey, h]

theorem Entry.live_of_later {e : Entry α} (h : e.live later) (hle : now ≤ later) : e.live now := by
  cases ht : e.expireAt with
  | none => simp [Entry.live, ht]
  | some t =>
    simp only [Entry.live, ht, Option.all_some, decide_eq_true_eq] at h ⊢
    exact hle.trans_lt h

/-- A key that still exists later exists now, with the same value. -/
theorem getKey_of_later (h : getKey db later k = some v) (hle : now ≤ later) :
    getKey db now k = some v := by
  obtain ⟨e, he, hl, hv⟩ := getKey_eq_some.mp h
  exact getKey_eq_some.mpr ⟨e, he, Entry.live_of_later hl hle, hv⟩

/-- EXISTS. -/
def existsKey (db : Keyspace κ α) (now : ℚ) (k : κ) : Bool := (getKey db now k).isSome

variable [DecidableEq κ]

/-- SET with EX. -/
def setEx (db : Keyspace κ α) (now : ℚ) (k : κ) (v : α) (ttl : ℕ) : Keyspace κ α :=
  Function.update db k (some ⟨v, some (now + ttl)⟩)

/-- SET with NX and EX: `none` where the key exists. -/
def setNxEx (db : Keyspace κ α) (now : ℚ) (k : κ) (v : α) (ttl : ℕ) : Option (Keyspace κ α) :=
  if existsKey db now k then none else some (setEx db now k v ttl)

/-- EXPIRE, which does nothing for a missing key. -/
def expireKey (db : Keyspace κ α) (now : ℚ) (k : κ) (ttl : ℕ) : Keyspace κ α :=
  match getKey db now k with
  | some v => setEx db now k v ttl
  | none => db

/-- DEL. -/
def delKey (db : Keyspace κ α) (k : κ) : Keyspace κ α := Function.update db k none

theorem setEx_self {n : ℕ} : setEx db now k v n k = some ⟨v, some (now + n)⟩ := by simp [setEx]

theorem setEx_ne (h : k' ≠ k) {n : ℕ} : setEx db now k v n k' = db k' := by simp [setEx, h]

theorem delKey_self : delKey db k k = none := by simp [delKey]

theorem delKey_ne (h : k' ≠ k) : delKey db k k' = db k' := by simp [delKey, h]

theorem getKey_delKey_self : getKey (delKey db k) now k = none := by simp [getKey, delKey_self]

theorem getKey_setEx_ne (h : k' ≠ k) {n : ℕ} :
    getKey (setEx db now k v n) later k' = getKey db later k' :=
  getKey_congr (setEx_ne h)

theorem getKey_setEx_self {n : ℕ} (h : later < now + n) :
    getKey (setEx db now k v n) later k = some v := by
  simp [getKey, setEx_self, Entry.live, h]

end Keyspace

section Counters

/-- A hash whose fields hold integers. -/
abbrev Counters (κ : Type*) := κ → Option ℤ

variable {κ : Type*} [DecidableEq κ] {h : Counters κ} {f g : κ} {n m : ℕ}

/-- HINCRBY, then HDEL of a field that is no longer positive. -/
def hincrbyPrune (h : Counters κ) (f : κ) (n : ℤ) : Counters κ :=
  let value := (h f).getD 0 + n
  Function.update h f (if value ≤ 0 then none else some value)

/-- The field that counts `n` things: absent for none. -/
def tallied (n : ℕ) : Option ℤ := if n = 0 then none else some n

theorem getD_tallied : (tallied n).getD 0 = n := by
  unfold tallied
  split <;> simp_all

theorem hincrbyPrune_ne (hg : g ≠ f) (n : ℤ) : hincrbyPrune h f n g = h g := by
  simp [hincrbyPrune, hg]

/-- Two increments are one, the first of them leaving a positive value. -/
theorem hincrbyPrune_add {c d : ℤ} (hpos : 0 < (h f).getD 0 + c) :
    hincrbyPrune (hincrbyPrune h f c) f d = hincrbyPrune h f (c + d) := by
  funext g
  by_cases hg : g = f
  · subst hg
    simp [hincrbyPrune, not_le.mpr hpos, add_assoc]
  · rw [hincrbyPrune_ne hg, hincrbyPrune_ne hg, hincrbyPrune_ne hg]

theorem hincrbyPrune_self {d : ℤ} (hf : h f = tallied n) (hm : (n : ℤ) + d = m) :
    hincrbyPrune h f d f = tallied m := by
  have hv : (h f).getD 0 + d = m := by rw [hf, getD_tallied, hm]
  simp only [hincrbyPrune, Function.update_self, hv, tallied]
  split <;> split <;> first | rfl | omega

end Counters

end Redis
