import BluekingDbm.Library.Bytes
import BluekingDbm.Library.Ring
import BluekingDbm.Library.Text
import Mathlib.Logic.Function.Basic
import Mathlib.Data.Finset.Insert

/-! The businesses are shared out between the analysis instances by consistent hashing: each
instance puts the ids it lists on a ring and takes the businesses whose first point is its own. -/
namespace Failover

open Ring

def defaultReplicas : ℕ := 200

/-- `nodes` has the id written last at each hash value. -/
structure ConsistentHash where
  replicas : ℕ
  ring : List ℕ
  nodes : ℕ → Option String

def newConsistentHash (replicas : ℤ) : ConsistentHash :=
  ⟨if replicas ≤ 0 then defaultReplicas else replicas.toNat, [], fun _ => none⟩

def hashKey (key : String) : ℕ := (Crc32.checksum key.toUTF8.data.toList).toNat

/-- The key of a virtual node. -/
def virtualKey (instanceID : String) (i : ℕ) : String := instanceID ++ "#" ++ Text.decimal i

namespace ConsistentHash

def addNode (c : ConsistentHash) (instanceID : String) (i : ℕ) : ConsistentHash :=
  let hash := hashKey (virtualKey instanceID i)
  { c with ring := c.ring ++ [hash], nodes := Function.update c.nodes hash (some instanceID) }

def add (c : ConsistentHash) (instanceID : String) : ConsistentHash :=
  (List.range c.replicas).foldl (fun c i => c.addNode instanceID i) c

/-- The node of the first position from the key's hash on, from the start past the end. -/
def get (c : ConsistentHash) (key : String) : String :=
  if c.ring = [] then ""
  else
    let idx := c.ring.findIdx fun p => decide (hashKey key ≤ p)
    let idx := if c.ring.length ≤ idx then 0 else idx
    ((c.ring[idx]?).bind c.nodes).getD ""

def rebuild (c : ConsistentHash) (instanceIDs : List String) : ConsistentHash :=
  let c := instanceIDs.foldl add { c with ring := [], nodes := fun _ => none }
  { c with ring := c.ring.mergeSort fun a b => decide (a ≤ b) }

def size (c : ConsistentHash) : ℕ := c.ring.length

end ConsistentHash

/-- What is read from the registry, in the order in which the map is ranged over: the ids in the
values, and nothing where a value cannot be read. -/
abbrev Registry := List (Option String)

structure InstanceDiscovery where
  myServiceID : String
  hashRing : ConsistentHash

def newInstanceDiscovery (myServiceID : String) : InstanceDiscovery :=
  ⟨myServiceID, newConsistentHash defaultReplicas⟩

namespace InstanceDiscovery

/-- Nothing is read when the registry cannot be reached. -/
def refreshList (d : InstanceDiscovery) (kvs : Option Registry) : InstanceDiscovery :=
  match kvs with
  | none => { d with hashRing := d.hashRing.rebuild [d.myServiceID] }
  | some kvs =>
    let ids := (kvs.filterMap id).filter fun i => decide (i ≠ "")
    let ids := if ids = [] then [d.myServiceID] else ids
    { d with hashRing := d.hashRing.rebuild ids }

def owner (d : InstanceDiscovery) (bizID : ℤ) : String := d.hashRing.get (Text.decimal bizID)

def assignedBizIDs (d : InstanceDiscovery) (allBizIDs : List ℤ) : List ℤ :=
  if d.hashRing.size = 0 then allBizIDs
  else allBizIDs.filter fun bizID => decide (d.owner bizID = d.myServiceID)

end InstanceDiscovery

/-- A set of analysis instances. -/
structure Members where
  ids : Finset String
  nonempty : ids.Nonempty
  named : "" ∉ ids

/-- What is listed, in whatever order, is that set. -/
def Members.Listed (S : Members) (kvs : Registry) : Prop :=
  ∀ i, i ∈ S.ids ↔ some i ∈ kvs ∧ i ≠ ""

/-- An instance after any number of refreshes, the last of which listed that set. -/
def Sees (S : Members) (d : InstanceDiscovery) : Prop :=
  ∃ (me : String) (history : List (Option Registry)) (kvs : Registry), S.Listed kvs ∧
    d = (history.foldl InstanceDiscovery.refreshList (newInstanceDiscovery me)).refreshList
      (some kvs)

/-- The instance has a virtual node there. -/
def Marks (instanceID : String) (p : ℕ) : Prop :=
  ∃ i < defaultReplicas, hashKey (virtualKey instanceID i) = p

/-- The positions of the instances on the ring. -/
def Members.points (S : Members) : Set ℕ := {p | ∃ i ∈ S.ids, Marks i p}

/-- Where a business looks from. -/
def bizKey (bizID : ℤ) : ℕ := hashKey (Text.decimal bizID)

section Ring

variable {c : ConsistentHash} {i j : String} {ids : List String} {p : ℕ}

theorem addNodes_replicas (n : ℕ) :
    ((List.range n).foldl (fun c k => c.addNode i k) c).replicas = c.replicas := by
  induction n with
  | zero => rfl
  | succ n ih =>
    rw [List.range_succ, List.foldl_append]
    exact ih

theorem add_replicas : (c.add i).replicas = c.replicas := addNodes_replicas _

theorem addNodes_ring (n : ℕ) :
    ((List.range n).foldl (fun c k => c.addNode i k) c).ring =
      c.ring ++ (List.range n).map fun k => hashKey (virtualKey i k) := by
  induction n with
  | zero => simp
  | succ n ih =>
    rw [List.range_succ, List.foldl_append, List.map_append, ← List.append_assoc, ← ih]
    rfl

theorem addNodes_nodes_of_mem {n k : ℕ} (hk : k < n) :
    ((List.range n).foldl (fun c k => c.addNode i k) c).nodes (hashKey (virtualKey i k)) =
      some i := by
  induction n with
  | zero => omega
  | succ n ih =>
    rw [List.range_succ, List.foldl_append]
    rcases eq_or_ne (hashKey (virtualKey i k)) (hashKey (virtualKey i n)) with hp | hp
    · rw [hp]
      exact Function.update_self ..
    · have hlt : k < n := by
        rcases Nat.lt_succ_iff_lt_or_eq.mp hk with hk | rfl
        · exact hk
        · exact absurd rfl hp
      exact (Function.update_of_ne hp ..).trans (ih hlt)

theorem addNodes_nodes_of_not_mem {n : ℕ} (h : ∀ k < n, hashKey (virtualKey i k) ≠ p) :
    ((List.range n).foldl (fun c k => c.addNode i k) c).nodes p = c.nodes p := by
  induction n with
  | zero => rfl
  | succ n ih =>
    rw [List.range_succ, List.foldl_append]
    have hp : p ≠ hashKey (virtualKey i n) := (h n (Nat.lt_succ_self n)).symm
    exact (Function.update_of_ne hp ..).trans (ih fun k hk => h k (Nat.lt_succ_of_lt hk))

theorem mem_add_ring (hc : c.replicas = defaultReplicas) :
    p ∈ (c.add i).ring ↔ p ∈ c.ring ∨ Marks i p := by
  rw [ConsistentHash.add, addNodes_ring, List.mem_append, List.mem_map, hc]
  simp only [List.mem_range, Marks]

theorem add_nodes_of_marks (hc : c.replicas = defaultReplicas) (h : Marks i p) :
    (c.add i).nodes p = some i := by
  obtain ⟨k, hk, rfl⟩ := h
  exact addNodes_nodes_of_mem (hc ▸ hk)

theorem add_nodes_of_not_marks (hc : c.replicas = defaultReplicas) (h : ¬ Marks i p) :
    (c.add i).nodes p = c.nodes p := by
  refine addNodes_nodes_of_not_mem fun k hk hkp => h ⟨k, ?_, hkp⟩
  rwa [hc] at hk

theorem adds_replicas : (ids.foldl ConsistentHash.add c).replicas = c.replicas := by
  induction ids generalizing c with
  | nil => rfl
  | cons i ids ih => rw [List.foldl_cons, ih, add_replicas]

theorem mem_adds_ring (hc : c.replicas = defaultReplicas) :
    p ∈ (ids.foldl ConsistentHash.add c).ring ↔ p ∈ c.ring ∨ ∃ i ∈ ids, Marks i p := by
  induction ids generalizing c with
  | nil => simp
  | cons i ids ih =>
    rw [List.foldl_cons, ih (add_replicas.trans hc), mem_add_ring hc, or_assoc]
    simp only [List.mem_cons, exists_eq_or_imp]

/-- A position belongs to an instance that has a virtual node there. -/
theorem adds_nodes (hc : c.replicas = defaultReplicas) (h : ∃ i ∈ ids, Marks i p) :
    ∃ i ∈ ids, Marks i p ∧ (ids.foldl ConsistentHash.add c).nodes p = some i := by
  induction ids using List.reverseRecOn with
  | nil => simp at h
  | append_singleton ids i ih =>
    have hr : (ids.foldl ConsistentHash.add c).replicas = defaultReplicas := adds_replicas.trans hc
    rw [List.foldl_append]
    by_cases hi : Marks i p
    · exact ⟨i, by simp, hi, add_nodes_of_marks hr hi⟩
    · have hids : ∃ j ∈ ids, Marks j p := by
        obtain ⟨j, hj, hjp⟩ := h
        rcases List.mem_append.mp hj with hj | hj
        · exact ⟨j, hj, hjp⟩
        · obtain rfl := List.mem_singleton.mp hj
          exact absurd hjp hi
      obtain ⟨j, hj, hjp, hnode⟩ := ih hids
      refine ⟨j, List.mem_append_left _ hj, hjp, ?_⟩
      exact (add_nodes_of_not_marks hr hi).trans hnode

/-- The last of the ids listed takes a position from all others that have it. -/
theorem adds_nodes_last (hc : c.replicas = defaultReplicas) (h : Marks i p) :
    ((ids ++ [i]).foldl ConsistentHash.add c).nodes p = some i := by
  rw [List.foldl_append]
  exact add_nodes_of_marks (adds_replicas.trans hc) h

theorem rebuild_nodes : (c.rebuild ids).nodes =
    (ids.foldl ConsistentHash.add { c with ring := [], nodes := fun _ => none }).nodes := rfl

theorem rebuild_sorted : (c.rebuild ids).ring.Pairwise (· ≤ ·) := by
  have h := @List.pairwise_mergeSort _ (fun a b : ℕ => decide (a ≤ b))
    (fun a b c hab hbc => decide_eq_true ((of_decide_eq_true hab).trans (of_decide_eq_true hbc)))
    (fun a b => by simpa using Nat.le_total a b)
    (ids.foldl ConsistentHash.add { c with ring := [], nodes := fun _ => none }).ring
  exact h.imp of_decide_eq_true

theorem mem_rebuild_ring (hc : c.replicas = defaultReplicas) :
    p ∈ (c.rebuild ids).ring ↔ ∃ i ∈ ids, Marks i p := by
  let c₀ : ConsistentHash := { c with ring := [], nodes := fun _ => none }
  have h : p ∈ (ids.foldl ConsistentHash.add c₀).ring ↔ p ∈ c₀.ring ∨ ∃ i ∈ ids, Marks i p :=
    mem_adds_ring hc
  simpa [ConsistentHash.rebuild, c₀] using h

/-- The first position clockwise decides. -/
theorem get_of_ring {key : String} (hs : c.ring.Pairwise (· ≤ ·)) (hne : c.ring ≠ []) :
    ∃ p, First {q | q ∈ c.ring} (hashKey key) p ∧ c.get key = (c.nodes p).getD "" := by
  obtain ⟨p, hp, hfirst⟩ := clockwise_spec (k := hashKey key) hs hne
  refine ⟨p, hfirst, ?_⟩
  rw [ConsistentHash.get, if_neg hne]
  exact congrArg (fun o => (o.bind c.nodes).getD "") hp

end Ring

section Listing

variable {S : Members} {kvs : Registry} {d : InstanceDiscovery}

/-- The ids that a listing of the members leaves on the ring. -/
theorem refreshList_ring (hkvs : S.Listed kvs) :
    ∃ ids : List String, (∀ i, i ∈ ids ↔ i ∈ S.ids) ∧
      ids = (kvs.filterMap id).filter (fun i => decide (i ≠ "")) ∧
      (d.refreshList (some kvs)).hashRing = d.hashRing.rebuild ids := by
  have hmem : ∀ i, i ∈ (kvs.filterMap id).filter (fun i => decide (i ≠ "")) ↔ i ∈ S.ids := by
    intro i
    rw [hkvs i]
    simp [List.mem_filter, List.mem_filterMap]
  refine ⟨_, hmem, rfl, ?_⟩
  obtain ⟨i, hi⟩ := S.nonempty
  have hne : (kvs.filterMap id).filter (fun i => decide (i ≠ "")) ≠ [] :=
    List.ne_nil_of_mem ((hmem i).mpr hi)
  simp only [InstanceDiscovery.refreshList, if_neg hne]

theorem refreshList_replicas (kvs : Option Registry) :
    (d.refreshList kvs).hashRing.replicas = d.hashRing.replicas := by
  cases kvs with
  | none => exact adds_replicas
  | some kvs => exact adds_replicas

theorem history_replicas (history : List (Option Registry)) :
    (history.foldl InstanceDiscovery.refreshList d).hashRing.replicas = d.hashRing.replicas := by
  induction history generalizing d with
  | nil => rfl
  | cons kvs history ih => rw [List.foldl_cons, ih, refreshList_replicas]

theorem new_history_replicas (me : String) (history : List (Option Registry)) :
    (history.foldl InstanceDiscovery.refreshList (newInstanceDiscovery me)).hashRing.replicas =
      defaultReplicas := history_replicas history

/-- A rebuilt ring is searched for the first position of the members. -/
theorem rebuild_get {c : ConsistentHash} {ids : List String} (hc : c.replicas = defaultReplicas)
    (hids : ∀ i, i ∈ ids ↔ i ∈ S.ids) (bizID : ℤ) :
    ∃ p, First S.points (bizKey bizID) p ∧
      (c.rebuild ids).get (Text.decimal bizID) = ((c.rebuild ids).nodes p).getD "" := by
  have hpoints : ∀ p, p ∈ (c.rebuild ids).ring ↔ p ∈ S.points := by
    intro p
    rw [mem_rebuild_ring hc]
    simp only [hids]
    rfl
  obtain ⟨i, hi⟩ := S.nonempty
  have hne : (c.rebuild ids).ring ≠ [] :=
    List.ne_nil_of_mem ((hpoints _).mpr ⟨i, hi, 0, by decide, rfl⟩)
  obtain ⟨p, hp, hget⟩ := @get_of_ring _ (Text.decimal bizID) rebuild_sorted hne
  exact ⟨p, hp.mono (fun q hq => (hpoints q).mpr hq) ((hpoints p).mp hp.1), hget⟩

/-- The owner is a member with a virtual node at the first position. -/
theorem refreshed_owner_spec (hr : d.hashRing.replicas = defaultReplicas) (hkvs : S.Listed kvs)
    (bizID : ℤ) :
    ∃ p, First S.points (bizKey bizID) p ∧ (d.refreshList (some kvs)).owner bizID ∈ S.ids ∧
      Marks ((d.refreshList (some kvs)).owner bizID) p := by
  obtain ⟨ids, hids, -, hring⟩ := @refreshList_ring S kvs d hkvs
  obtain ⟨p, hp, hget⟩ := rebuild_get hr hids bizID
  have hmarked : ∃ i ∈ ids, Marks i p := by
    obtain ⟨i, hi, hip⟩ := hp.1
    exact ⟨i, (hids i).mpr hi, hip⟩
  let c₀ : ConsistentHash := { d.hashRing with ring := [], nodes := fun _ => none }
  have hc₀ : c₀.replicas = defaultReplicas := hr
  obtain ⟨j, hj, hjp, hnode⟩ := adds_nodes hc₀ hmarked
  have howner : (d.refreshList (some kvs)).owner bizID = j := by
    rw [InstanceDiscovery.owner, hring, hget, rebuild_nodes, hnode]
    rfl
  rw [howner]
  exact ⟨p, hp, (hids j).mp hj, hjp⟩

theorem Sees.owner_spec (h : Sees S d) (bizID : ℤ) :
    ∃ p, First S.points (bizKey bizID) p ∧ d.owner bizID ∈ S.ids ∧ Marks (d.owner bizID) p := by
  obtain ⟨me, history, kvs, hkvs, rfl⟩ := h
  exact refreshed_owner_spec (new_history_replicas me history) hkvs bizID

/-- The owner is the member listed last, where that one has the first position. -/
theorem refreshed_owner_last {i : String} {ids : List String} {p : ℕ} {bizID : ℤ}
    (hr : d.hashRing.replicas = defaultReplicas) (hkvs : S.Listed ((ids ++ [i]).map some))
    (hnamed : "" ∉ ids ++ [i]) (hp : First S.points (bizKey bizID) p) (hi : Marks i p) :
    (d.refreshList (some ((ids ++ [i]).map some))).owner bizID = i := by
  obtain ⟨ids', hids', heq, hring⟩ := @refreshList_ring S _ d hkvs
  have hids : ids' = ids ++ [i] := by
    have hall : ∀ a ∈ ids ++ [i], decide (a ≠ "") = true := by
      intro a ha
      refine decide_eq_true ?_
      rintro rfl
      exact hnamed ha
    rw [heq, List.filterMap_map, show (id ∘ some : String → Option String) = some from rfl,
      List.filterMap_some, List.filter_eq_self.mpr hall]
  subst hids
  obtain ⟨q, hq, hget⟩ := rebuild_get hr hids' bizID
  let c₀ : ConsistentHash := { d.hashRing with ring := [], nodes := fun _ => none }
  have hc₀ : c₀.replicas = defaultReplicas := hr
  rw [InstanceDiscovery.owner, hring, hget, rebuild_nodes, hq.unique hp,
    @adds_nodes_last c₀ i ids p hc₀ hi]
  rfl

end Listing

end Failover
