import BluekingDbm.Library.Balance
import Mathlib.Algebra.Order.Floor.Div
import Mathlib.Data.List.FinRange
import Mathlib.Data.List.OfFn

/-! The shards of a rollback on its temporary hosts: how they are packed by what they download, and
the search for a number of hosts that hold them in memory. -/
namespace Rollback

section Heap

variable {κ : Type*} [LinearOrder κ] {heap rest : List κ} {least : κ}

def heappop (heap : List κ) : Option (κ × List κ) :=
  heap.min?.map fun least => (least, heap.erase least)

theorem heappop_some (h : heappop heap = some (least, rest)) :
    heap.Perm (least :: rest) ∧ ∀ x ∈ heap, least ≤ x := by
  obtain ⟨m, hm, heq⟩ := Option.map_eq_some_iff.mp h
  obtain ⟨rfl, rfl⟩ : m = least ∧ heap.erase m = rest := by simpa using heq
  obtain ⟨hmem, hle⟩ := List.min?_eq_some_iff.mp hm
  exact ⟨List.perm_cons_erase hmem, hle⟩

theorem exists_heappop (h : heap ≠ []) : ∃ least rest, heappop heap = some (least, rest) := by
  obtain ⟨least, hleast⟩ := Option.isSome_iff_exists.mp (List.isSome_min?_of_ne_nil h)
  exact ⟨least, heap.erase least, by rw [heappop, hleast]; rfl⟩

end Heap

section Hosts

variable {α κ : Type*} [LinearOrder κ] {n : ℕ}

/-- A loop over items and a heap of hosts: each item goes to the host of the least tuple, which is
pushed again as it is with the item. A heap that is empty raises. -/
def assign (index : κ → Fin n) (push : κ → α → κ) :
    List α → (Fin n → List α) → List κ → Option (Fin n → List α)
  | [], buckets, _ => some buckets
  | item :: items, buckets, hosts =>
    match heappop hosts with
    | none => none
    | some (host, rest) =>
      assign index push items (Balance.put buckets (index host) item) (push host item :: rest)

/-- The hosts as the heap has them: the tuples of their buckets. -/
def tuples (tuple : List α → Fin n → κ) (buckets : Fin n → List α) : List κ :=
  (List.finRange n).map fun i => tuple (buckets i) i

variable {index : κ → Fin n} {push : κ → α → κ} {tuple : List α → Fin n → κ}
  {buckets : Fin n → List α}

/-- The heap after one item, where its host was on top. -/
theorem tuples_put {hosts rest : List κ} {i : Fin n} {item : α}
    (hpush : push (tuple (buckets i) i) item = tuple (buckets i ++ [item]) i)
    (hhosts : hosts.Perm (tuples tuple buckets))
    (hpop : hosts.Perm (tuple (buckets i) i :: rest)) :
    (push (tuple (buckets i) i) item :: rest).Perm (tuples tuple (Balance.put buckets i item)) := by
  have hperm := List.perm_cons_erase (List.mem_finRange i)
  have hnotin : i ∉ (List.finRange n).erase i := (List.nodup_finRange n).not_mem_erase
  have hothers : (((List.finRange n).erase i).map fun j => tuple (Balance.put buckets i item j) j) =
      ((List.finRange n).erase i).map fun j => tuple (buckets j) j := by
    refine List.map_congr_left fun j hj => ?_
    have hne : j ≠ i := fun h => hnotin (h ▸ hj)
    rw [Balance.put_of_ne item hne]
  have hrest : rest.Perm (((List.finRange n).erase i).map fun j => tuple (buckets j) j) :=
    (hpop.symm.trans (hhosts.trans (hperm.map _))).cons_inv
  have hnew := hperm.map fun j => tuple (Balance.put buckets i item j) j
  rw [List.map_cons, Balance.put_self, hothers, ← hpush] at hnew
  exact (hrest.cons _).trans hnew.symm

/-- Such a loop is greedy by every key that the tuples put first. -/
theorem assign_greedy {β : Type*} [LE β] {key : List α → β} {start : Fin n → List α}
    (hn : 0 < n) (hindex : ∀ l i, index (tuple l i) = i)
    (hpush : ∀ l i a, push (tuple l i) a = tuple (l ++ [a]) i)
    (hkey : ∀ l m i j, tuple l i ≤ tuple m j → key l ≤ key m) {done items : List α}
    {hosts : List κ} (hhosts : hosts.Perm (tuples tuple buckets))
    (hdone : Balance.Greedy key start done buckets) :
    ∃ b, assign index push items buckets hosts = some b ∧
      Balance.Greedy key start (done ++ items) b := by
  induction items generalizing done buckets hosts with
  | nil =>
    refine ⟨buckets, rfl, ?_⟩
    rw [List.append_nil]
    exact hdone
  | cons item items ih =>
    have hne : hosts ≠ [] := by
      intro hnil
      have hlen := hhosts.length_eq
      simp only [hnil, tuples, List.length_nil, List.length_map, List.length_finRange] at hlen
      omega
    obtain ⟨host, rest, hpop⟩ := exists_heappop hne
    obtain ⟨hperm, hleast⟩ := heappop_some hpop
    obtain ⟨i, -, rfl⟩ : ∃ i ∈ List.finRange n, tuple (buckets i) i = host :=
      List.mem_map.mp (hhosts.mem_iff.mp (hperm.mem_iff.mpr List.mem_cons_self))
    have hnext := hdone.snoc (a := item) fun j =>
      hkey _ _ i j (hleast _ (hhosts.mem_iff.mpr (List.mem_map_of_mem (List.mem_finRange j))))
    obtain ⟨b, hb, hgreedy⟩ := ih (tuples_put (hpush _ _ _) hhosts hperm) hnext
    refine ⟨b, ?_, ?_⟩
    · simp only [assign, hpop, hindex]
      exact hb
    · rw [List.append_assoc] at hgreedy
      exact hgreedy

end Hosts

section Packing

variable {α : Type*} {n : ℕ}

/-- Load, ports and index of a host: ties go to the host with fewer ports, then the lower index. -/
abbrev HostLoad (n : ℕ) := ℕ ×ₗ ℕ ×ₗ Fin n

/-- Ports and index of a host. -/
abbrev HostPorts (n : ℕ) := ℕ ×ₗ Fin n

def HostLoad.index (host : HostLoad n) : Fin n := (ofLex (ofLex host).2).2

def HostLoad.push (size : α → ℕ) (host : HostLoad n) (item : α) : HostLoad n :=
  toLex ((ofLex host).1 + size item, toLex ((ofLex (ofLex host).2).1 + 1, host.index))

def HostPorts.index (host : HostPorts n) : Fin n := (ofLex host).2

def HostPorts.push (host : HostPorts n) (_ : α) : HostPorts n :=
  toLex ((ofLex host).1 + 1, HostPorts.index host)

/-- Real shards, largest first, go to the least-loaded host; placeholders carry no data and only
even out the ports. -/
def balanceHosts (real placeholders : List α) (hostCount : ℕ) (size : α → ℕ) :
    Option (Fin hostCount → List α) :=
  let hosts : List (HostLoad hostCount) :=
    (List.finRange hostCount).map fun index => toLex (0, toLex (0, index))
  match assign HostLoad.index (HostLoad.push size) real (fun _ => []) hosts with
  | none => none
  | some buckets =>
    let byPorts : List (HostPorts hostCount) :=
      (List.finRange hostCount).map fun index => toLex ((buckets index).length, index)
    assign HostPorts.index HostPorts.push placeholders buckets byPorts

def hostLoad (size : α → ℕ) (l : List α) (i : Fin n) : HostLoad n :=
  toLex (Balance.load size l, toLex (l.length, i))

def hostPorts (l : List α) (i : Fin n) : HostPorts n := toLex (l.length, i)

theorem loadKey_le_of_hostLoad {size : α → ℕ} {l m : List α} {i j : Fin n}
    (h : hostLoad size l i ≤ hostLoad size m j) :
    Balance.loadKey size l ≤ Balance.loadKey size m := by
  refine Balance.loadKey_le_iff.mpr ?_
  rcases Prod.Lex.toLex_le_toLex.mp h with hlt | ⟨heq, hle⟩
  · exact Or.inl hlt
  · refine Or.inr ⟨heq, ?_⟩
    rcases Prod.Lex.toLex_le_toLex.mp hle with hlt | ⟨hlen, -⟩
    · exact hlt.le
    · exact hlen.le

theorem length_le_of_hostPorts {l m : List α} {i j : Fin n} (h : hostPorts l i ≤ hostPorts m j) :
    l.length ≤ m.length := by
  rcases Prod.Lex.toLex_le_toLex.mp h with hlt | ⟨heq, -⟩
  · exact hlt.le
  · exact heq.le

theorem assign_real (real : List α) (size : α → ℕ) (hn : 0 < n) :
    ∃ r : Fin n → List α,
      assign HostLoad.index (HostLoad.push size) real (fun _ => [])
          (tuples (hostLoad size) fun _ => []) = some r ∧
        Balance.Greedy (Balance.loadKey size) (fun _ => []) real r :=
  assign_greedy hn (fun _ _ => rfl)
    (fun l i a => by simp [hostLoad, HostLoad.push, HostLoad.index, Balance.load_append])
    (fun _ _ _ _ => loadKey_le_of_hostLoad) (List.Perm.refl _) .refl

theorem assign_placeholders (placeholders : List α) (r : Fin n → List α) (hn : 0 < n) :
    ∃ b : Fin n → List α,
      assign HostPorts.index HostPorts.push placeholders r (tuples hostPorts r) = some b ∧
        Balance.Greedy List.length r placeholders b :=
  assign_greedy hn (fun _ _ => rfl)
    (fun l i a => by simp [hostPorts, HostPorts.push, HostPorts.index])
    (fun _ _ _ _ => length_le_of_hostPorts) (List.Perm.refl _) .refl

/-- The packing is greedy by load with the real shards and then by ports with the placeholders;
without placeholders it stops between the two. -/
theorem balanceHosts_greedy (real placeholders : List α) {hostCount : ℕ} (size : α → ℕ)
    (hn : 0 < hostCount) :
    ∃ r b, balanceHosts real [] hostCount size = some r ∧
      balanceHosts real placeholders hostCount size = some b ∧
      Balance.Greedy (Balance.loadKey size) (fun _ => []) real r ∧
      Balance.Greedy List.length r placeholders b := by
  obtain ⟨r, hr, hreal⟩ := assign_real real size hn
  obtain ⟨b, hb, hports⟩ := assign_placeholders placeholders r hn
  have htuples : tuples (hostLoad size) (fun _ : Fin hostCount => []) =
      (List.finRange hostCount).map fun index => toLex (0, toLex (0, index)) := rfl
  rw [htuples] at hr
  refine ⟨r, b, ?_, ?_, hreal, hports⟩
  · simp only [balanceHosts, hr]
    rfl
  · simp only [balanceHosts, hr]
    exact hb

end Packing

section Renaming

variable {α β κ : Type*} [LinearOrder κ] {n : ℕ}

theorem put_map (f : α → β) (b : Fin n → List α) (i : Fin n) (a : α) :
    Balance.put (fun j => (b j).map f) i (f a) = fun j => (Balance.put b i a j).map f := by
  funext j
  by_cases hij : j = i
  · subst hij
    simp
  · rw [Balance.put_of_ne (f a) hij, Balance.put_of_ne a hij]

/-- The hosts do not see what is put on them, only how it pushes their tuples. -/
theorem assign_map (index : κ → Fin n) (f : α → β) (push : κ → β → κ) (items : List α) (b : Fin n → List α)
    (hosts : List κ) :
    assign index push (items.map f) (fun i => (b i).map f) hosts =
      (assign index (fun host a => push host (f a)) items b hosts).map
        fun b i => (b i).map f := by
  induction items generalizing b hosts with
  | nil => rfl
  | cons item items ih =>
    simp only [List.map_cons, assign]
    cases heappop hosts with
    | none => rfl
    | some popped =>
      simp only [put_map]
      exact ih _ _

theorem balanceHosts_nil (real : List α) (hostCount : ℕ) (size : α → ℕ) :
    balanceHosts real [] hostCount size =
      assign HostLoad.index (HostLoad.push size) real (fun _ => [])
        ((List.finRange hostCount).map fun index => toLex (0, toLex (0, index))) := by
  cases h : assign HostLoad.index (HostLoad.push size) real (fun _ => [])
      ((List.finRange hostCount).map fun index => toLex (0, toLex (0, index))) with
  | none => simp only [balanceHosts, h]
  | some buckets =>
    simp only [balanceHosts, h]
    rfl

theorem balanceHosts_map (f : α → β) (real : List α) (hostCount : ℕ) (size : β → ℕ) :
    balanceHosts (real.map f) [] hostCount size =
      (balanceHosts real [] hostCount fun a => size (f a)).map fun b i => (b i).map f := by
  rw [balanceHosts_nil, balanceHosts_nil]
  exact assign_map HostLoad.index f (HostLoad.push size) real (fun _ => []) _

end Renaming

section HostCount

/-- What the packing reads of a shard. -/
structure ShardSize where
  downloadBytes : ℕ
  memoryBytes : ℕ
  deriving DecidableEq, Repr

variable {real : List ShardSize} {limit hostCount need : ℕ}

/-- The memory of the busiest host, with the shards packed by what they download. -/
def busiest (real : List ShardSize) (count : ℕ) : Option ℕ :=
  match balanceHosts real [] count ShardSize.downloadBytes with
  | none => none
  | some buckets => ((List.finRange count).map fun i =>
      Balance.load ShardSize.memoryBytes (buckets i)).max?

/-- The bisection: the upper end fits, and no count below the lower end is tried again. -/
def searchHosts (busiest : ℕ → Option ℕ) (limit low high : ℕ) : Option ℕ :=
  if _h : low < high then
    match busiest ((low + high) / 2) with
    | none => none
    | some load =>
      if load ≤ limit then searchHosts busiest limit low ((low + high) / 2)
      else searchHosts busiest limit ((low + high) / 2 + 1) high
  else some low
termination_by high - low

/-- A host count whose busiest host fits; `total / limit` raises where the limit is zero. -/
def fewestHosts (busiest : ℕ → Option ℕ) (limit hostCount total shards : ℕ) : Option ℕ :=
  if limit = 0 then none
  else searchHosts busiest limit (max (hostCount + 1) (total ⌈/⌉ limit)) shards

inductive MemoryVerdict
  | fits
  | largerSpec
  | atLeast (hosts : ℕ)
  deriving DecidableEq, Repr

/-- The check of a cluster whose data stays in memory; `limit` is the budget of one host. -/
def checkMemory (real : List ShardSize) (limit hostCount : ℕ) : Option MemoryVerdict :=
  if hostCount = 0 ∨ real = [] ∨ real.length < hostCount then some .fits
  else
    match busiest real hostCount with
    | none => none
    | some need =>
      if need ≤ limit then some .fits
      else if ∃ shard ∈ real, limit < shard.memoryBytes then some .largerSpec
      else
        (fewestHosts (busiest real) limit hostCount
          (real.map ShardSize.memoryBytes).sum real.length).map .atLeast

theorem busiest_iff {count : ℕ} {m : ℕ} (h : busiest real count = some m) (limit : ℕ) :
    m ≤ limit ↔ ∃ buckets, balanceHosts real [] count ShardSize.downloadBytes = some buckets ∧
      ∀ i, Balance.load ShardSize.memoryBytes (buckets i) ≤ limit := by
  unfold busiest at h
  cases hb : balanceHosts real [] count ShardSize.downloadBytes with
  | none => simp [hb] at h
  | some buckets =>
    simp only [hb] at h
    obtain ⟨hmem, hle⟩ := List.max?_eq_some_iff.mp h
    constructor
    · intro hm
      refine ⟨buckets, rfl, fun i => (hle _ ?_).trans hm⟩
      exact List.mem_map_of_mem (List.mem_finRange i)
    · rintro ⟨buckets', heq, hall⟩
      cases heq
      obtain ⟨i, -, rfl⟩ := List.mem_map.mp hmem
      exact hall i

theorem busiest_pos {count m : ℕ} (h : busiest real count = some m) : 0 < count := by
  rcases Nat.eq_zero_or_pos count with rfl | hpos
  · unfold busiest at h
    cases hb : balanceHosts real [] 0 ShardSize.downloadBytes <;> simp [hb] at h
  · exact hpos

theorem exists_busiest (real : List ShardSize) {count : ℕ} (hn : 0 < count) :
    ∃ m, busiest real count = some m := by
  obtain ⟨r, -, hr, -⟩ := balanceHosts_greedy real [] ShardSize.downloadBytes hn
  unfold busiest
  rw [hr]
  refine Option.isSome_iff_exists.mp (List.isSome_max?_of_ne_nil fun hnil => ?_)
  have hlen := congrArg List.length hnil
  simp only [List.length_map, List.length_finRange, List.length_nil] at hlen
  omega

/-- With no fewer hosts than shards every host holds one shard at most, whatever their sizes. -/
theorem busiest_le_of_length_le {count m : ℕ} (hshards : ∀ shard ∈ real, shard.memoryBytes ≤ limit)
    (hcount : real.length ≤ count) (h : busiest real count = some m) : m ≤ limit := by
  obtain ⟨r, -, hr, -, hgreedy, -⟩ :=
    balanceHosts_greedy real [] ShardSize.downloadBytes (busiest_pos h)
  refine (busiest_iff h limit).mpr ⟨r, hr, fun i => ?_⟩
  have hone := hgreedy.length_le_one_of_card (by rw [Fintype.card_fin]; exact hcount) i
  have hmem : ∀ shard ∈ r i, shard ∈ real := hgreedy.mem_of_mem i
  match hri : r i with
  | [] => exact Nat.zero_le _
  | [shard] =>
    have hshard := hshards shard (hmem shard (by rw [hri]; exact List.mem_singleton_self shard))
    simpa [Balance.load] using hshard
  | _ :: _ :: _ =>
    rw [hri] at hone
    simp at hone

/-- The search ends between its ends, on a count that fits if its upper end does. -/
theorem searchHosts_spec {busiest : ℕ → Option ℕ} {low high : ℕ} (hle : low ≤ high)
    (htotal : ∀ count, low ≤ count → ∃ load, busiest count = some load)
    (hhigh : ∃ load, busiest high = some load ∧ load ≤ limit) :
    ∃ count, searchHosts busiest limit low high = some count ∧ low ≤ count ∧ count ≤ high ∧
      ∃ load, busiest count = some load ∧ load ≤ limit := by
  induction low, high using searchHosts.induct busiest limit with
  | case1 low high hlt hnone =>
    obtain ⟨load, hload⟩ := htotal ((low + high) / 2) (by omega)
    cases hnone.symm.trans hload
  | case2 low high hlt load hload hfits ih =>
    obtain ⟨count, hcount, h1, h2, h3⟩ := ih (by omega) htotal ⟨load, hload, hfits⟩
    refine ⟨count, ?_, h1, by omega, h3⟩
    rw [searchHosts, dif_pos hlt, hload]
    simp only [hfits, if_true]
    exact hcount
  | case3 low high hlt load hload hfits ih =>
    obtain ⟨count, hcount, h1, h2, h3⟩ :=
      ih (by omega) (fun count hcount => htotal count (by omega)) hhigh
    refine ⟨count, ?_, by omega, h2, h3⟩
    rw [searchHosts, dif_pos hlt, hload]
    simp only [hfits, if_false]
    exact hcount
  | case4 low high hge =>
    obtain rfl : low = high := by omega
    refine ⟨low, ?_, le_rfl, le_rfl, hhigh⟩
    rw [searchHosts, dif_neg hge]

/-- Where the packing on the hosts asked for does not fit, though every shard fits on its own, the
search returns more hosts, at most one for each shard, on which the packing fits. -/
theorem fewestHosts_fits (hshards : ∀ shard ∈ real, shard.memoryBytes ≤ limit)
    (hneed : busiest real hostCount = some need) (hover : limit < need) :
    ∃ count, fewestHosts (busiest real) limit hostCount (real.map ShardSize.memoryBytes).sum
        real.length = some count ∧
      hostCount < count ∧ count ≤ real.length ∧
      ∃ buckets, balanceHosts real [] count ShardSize.downloadBytes = some buckets ∧
        ∀ i, Balance.load ShardSize.memoryBytes (buckets i) ≤ limit := by
  have hless : hostCount < real.length := by
    by_contra hmany
    have := busiest_le_of_length_le hshards (by omega) hneed
    omega
  have hlimit : limit ≠ 0 := by
    rintro rfl
    -- nothing takes memory, so that every packing fits
    have hzero : need ≤ 0 := by
      obtain ⟨r, -, hr, -, hgreedy, -⟩ :=
        balanceHosts_greedy real [] ShardSize.downloadBytes (busiest_pos hneed)
      refine (busiest_iff hneed 0).mpr ⟨r, hr, fun i => ?_⟩
      refine (List.sum_eq_zero fun m hm => ?_).le
      obtain ⟨shard, hshard, rfl⟩ := List.mem_map.mp hm
      exact Nat.le_zero.mp (hshards shard (hgreedy.mem_of_mem i shard hshard))
    omega
  have htotal : (real.map ShardSize.memoryBytes).sum ≤ limit * real.length := by
    have hsum := List.sum_le_card_nsmul (real.map ShardSize.memoryBytes) limit (by simpa using hshards)
    simpa [Nat.mul_comm] using hsum
  have hceil : (real.map ShardSize.memoryBytes).sum ⌈/⌉ limit ≤ real.length :=
    (ceilDiv_le_iff_le_mul (Nat.pos_of_ne_zero hlimit)).mpr htotal
  have hle : max (hostCount + 1) ((real.map ShardSize.memoryBytes).sum ⌈/⌉ limit) ≤ real.length :=
    max_le hless hceil
  have hall : ∀ count, max (hostCount + 1) ((real.map ShardSize.memoryBytes).sum ⌈/⌉ limit) ≤ count →
      ∃ load, busiest real count = some load := by
    intro count hcount
    exact exists_busiest real (by omega)
  obtain ⟨m, hm⟩ := exists_busiest real (show 0 < real.length by omega)
  obtain ⟨count, hcount, hlow, hhigh, load, hload, hfits⟩ :=
    searchHosts_spec hle hall ⟨m, hm, busiest_le_of_length_le hshards le_rfl hm⟩
  refine ⟨count, ?_, by omega, hhigh, (busiest_iff hload limit).mp hfits⟩
  rw [fewestHosts, if_neg hlimit]
  exact hcount

/-- Three shards of three on hosts of four: one host holds nine. -/
theorem fewestHosts_fits_three :
    busiest [⟨5, 3⟩, ⟨5, 3⟩, ⟨0, 3⟩] 1 = some 9 ∧
      ∃ count, fewestHosts (busiest [⟨5, 3⟩, ⟨5, 3⟩, ⟨0, 3⟩]) 4 1 9 3 = some count ∧
        1 < count ∧ count ≤ 3 := by
  have hneed : busiest [⟨5, 3⟩, ⟨5, 3⟩, ⟨0, 3⟩] 1 = some 9 := by decide
  obtain ⟨count, hcount, hmore, hless, -⟩ := fewestHosts_fits (by decide) hneed (show 4 < 9 by decide)
  exact ⟨hneed, count, hcount, hmore, hless⟩

end HostCount

end Rollback
