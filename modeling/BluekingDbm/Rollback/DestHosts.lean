import BluekingDbm.Rollback.Packing
import Mathlib.Data.String.Basic

/-! A rollback plan packed on its temporary hosts: every item gets an address there, and the hosts
share the shards as the estimate before the ticket had them. -/
namespace Rollback.Planner

/-- A file that an item downloads. -/
structure FileRef where
  taskId : String
  fileName : String
  size : ℕ
  deriving DecidableEq, Repr

def COMPRESSED_SUFFIXES : List String := [".zst", ".gz", ".lzo"]

def UNPACK_RATIO : ℕ := 3

def unpackedSize (f : FileRef) : ℕ :=
  if COMPRESSED_SUFFIXES.any fun suffix => f.fileName.endsWith suffix then f.size * UNPACK_RATIO
  else f.size

/-- The ratio of memory to data is two, whether the file is an RDB or an AOF. -/
def MEMORY_RATIO : ℕ := 2

def loadMemory (files : List FileRef) : ℕ := (files.map fun f => unpackedSize f * MEMORY_RATIO).sum

structure RollbackItem where
  shardValue : String
  sourceIp : String
  sourcePort : ℕ
  destIp : String
  destPort : ℕ
  fullFiles : List FileRef
  binlogFiles : List FileRef
  isPlaceholder : Bool
  deriving DecidableEq, Repr

namespace RollbackItem

variable (it : RollbackItem)

def downloadBytes : ℕ := (it.fullFiles.map FileRef.size).sum + (it.binlogFiles.map FileRef.size).sum

def taskIds : List String := it.fullFiles.map FileRef.taskId ++ it.binlogFiles.map FileRef.taskId

def memoryBytes : ℕ := loadMemory it.fullFiles

def unpackedBytes : ℕ := (it.fullFiles.map unpackedSize).sum

def setDest (ip : String) (port : ℕ) : RollbackItem := { it with destIp := ip, destPort := port }

/-- The item without its address on the temporary hosts. -/
def unplaced : RollbackItem := it.setDest "" 0

end RollbackItem

structure DestHost where
  ip : String
  ports : List ℕ
  taskIds : List String
  downloadBytes : ℕ
  unpackedBytes : ℕ
  memoryBytes : ℕ
  deriving DecidableEq, Repr

/-- What packing reads and writes of a plan. -/
structure RollbackPlan where
  inMemory : Bool
  items : List RollbackItem
  destHosts : List DestHost
  deriving DecidableEq, Repr

def DEFAULT_REDIS_START_PORT : ℕ := 30000

def hostCountError (hostCount : ℤ) (restoreCount : ℕ) : Option String :=
  if hostCount ≤ 0 then some "临时机数量必须 > 0"
  else if (restoreCount : ℤ) < hostCount then
    some ("主机数量(" ++ toString hostCount ++ ")不能大于待构造分片数(" ++ toString restoreCount ++ ")")
  else none

/-- Largest first; the source addresses break ties. -/
def largerFirst (a b : RollbackItem) : Bool :=
  toLex (-(a.downloadBytes : ℤ), toLex (a.sourceIp, a.sourcePort)) ≤
    toLex (-(b.downloadBytes : ℤ), toLex (b.sourceIp, b.sourcePort))

/-- The order of the items on one host. -/
def chunkOrder (a b : RollbackItem) : Bool :=
  toLex (a.isPlaceholder, toLex (a.sourceIp, a.sourcePort)) ≤
    toLex (b.isPlaceholder, toLex (b.sourceIp, b.sourcePort))

/-- The items of one bucket with their addresses, the ports in a row from the first. -/
def placeChunk (ip : String) (bucket : List RollbackItem) : List RollbackItem :=
  (bucket.mergeSort chunkOrder).zipIdx.map fun it =>
    it.1.setDest ip (DEFAULT_REDIS_START_PORT + it.2)

def destHost (inMemory : Bool) (ip : String) (bucket : List RollbackItem) : DestHost :=
  let chunk := placeChunk ip bucket
  { ip
    ports := chunk.map RollbackItem.destPort
    taskIds := chunk.flatMap RollbackItem.taskIds
    downloadBytes := (chunk.map RollbackItem.downloadBytes).sum
    unpackedBytes := (chunk.map RollbackItem.unpackedBytes).sum
    memoryBytes := if inMemory then (chunk.map RollbackItem.memoryBytes).sum else 0 }

namespace RollbackPlan

variable (plan : RollbackPlan)

/-- The items that receive data, in the order in which packing assigns them. -/
def real : List RollbackItem :=
  (plan.items.filter fun it => !it.isPlaceholder).mergeSort largerFirst

def placeholders : List RollbackItem := plan.items.filter fun it => it.isPlaceholder

def restoreCount : ℕ := (plan.items.filter fun it => !it.isPlaceholder).length

def packDestHosts (destIps : List String) (hostCount : ℤ) : Except String RollbackPlan :=
  match hostCountError hostCount plan.restoreCount with
  | some message => .error message
  | none =>
    -- without hosts this was a check at the time of the ticket
    if destIps = [] then .ok plan
    else
      match balanceHosts plan.real plan.placeholders destIps.length RollbackItem.downloadBytes with
      | none => .error "IndexError"
      | some buckets =>
        let chunks := destIps.zip (List.ofFn buckets)
        .ok { plan with
          items := chunks.flatMap fun chunk => placeChunk chunk.1 chunk.2
          destHosts := chunks.map fun chunk => destHost plan.inMemory chunk.1 chunk.2 }

/-- The items on one host. -/
def itemsOn (ip : String) : List RollbackItem := plan.items.filter fun it => it.destIp = ip

end RollbackPlan

/-- One shard as it was evaluated. -/
structure ShardEval where
  shardValue : String
  sourceIp : String
  sourcePort : ℕ
  roundFiles : List FileRef
  binlogs : List FileRef
  errors : List String
  isPlaceholder : Bool
  deriving DecidableEq, Repr

namespace ShardEval

variable (shard : ShardEval)

def ok : Bool := shard.errors.isEmpty

def downloadBytes : ℕ :=
  (shard.roundFiles.map FileRef.size).sum + (shard.binlogs.map FileRef.size).sum

def toItem : RollbackItem :=
  { shardValue := shard.shardValue
    sourceIp := shard.sourceIp
    sourcePort := shard.sourcePort
    destIp := ""
    destPort := 0
    fullFiles := shard.roundFiles
    binlogFiles := shard.binlogs
    isPlaceholder := shard.isPlaceholder }

def largerFirst (a b : ShardEval) : Bool :=
  toLex (-(a.downloadBytes : ℤ), toLex (a.sourceIp, a.sourcePort)) ≤
    toLex (-(b.downloadBytes : ℤ), toLex (b.sourceIp, b.sourcePort))

end ShardEval

/-- An evaluation: the shards asked for, and the others of the batch, which stay empty. -/
structure PlanEval where
  shards : List ShardEval
  placeholders : List ShardEval
  shards_real : ∀ shard ∈ shards, shard.isPlaceholder = false
  placeholders_marked : ∀ shard ∈ placeholders, shard.isPlaceholder = true

namespace PlanEval

variable (evaluation : PlanEval)

def realShards : List ShardEval :=
  (evaluation.shards.filter ShardEval.ok).mergeSort ShardEval.largerFirst

/-- Packing without hosts, real shards only. -/
def simulate (hostCount : ℕ) : Option (Fin hostCount → List ShardEval) :=
  balanceHosts evaluation.realShards [] hostCount ShardEval.downloadBytes

/-- The items of the plan; a shard with an error raises. -/
def buildItems : Option (List RollbackItem) :=
  if evaluation.shards.all ShardEval.ok then
    some (evaluation.shards.map ShardEval.toItem ++ evaluation.placeholders.map ShardEval.toItem)
  else none

end PlanEval

section Placing

variable {ip : String} {bucket : List RollbackItem} {it : RollbackItem}

@[simp] theorem unplaced_setDest (it : RollbackItem) (ip : String) (port : ℕ) :
    (it.setDest ip port).unplaced = it.unplaced := rfl

theorem destIp_of_mem_placeChunk (h : it ∈ placeChunk ip bucket) : it.destIp = ip := by
  obtain ⟨pair, -, rfl⟩ := List.mem_map.mp h
  rfl

theorem map_placeChunk {β : Type*} (f : RollbackItem → β)
    (hf : ∀ it ip port, f (RollbackItem.setDest it ip port) = f it) :
    ((placeChunk ip bucket).map f).Perm (bucket.map f) := by
  have hmap : (placeChunk ip bucket).map f = (bucket.mergeSort chunkOrder).map f := by
    rw [placeChunk, List.map_map]
    calc
      _ = (bucket.mergeSort chunkOrder).zipIdx.map (f ∘ Prod.fst) :=
        List.map_congr_left fun pair _ => hf _ _ _
      _ = (bucket.mergeSort chunkOrder).map f := by rw [← List.map_map, List.zipIdx_map_fst]
  rw [hmap]
  exact (List.mergeSort_perm _ _).map f

theorem length_placeChunk : (placeChunk ip bucket).length = bucket.length := by
  rw [placeChunk, List.length_map, List.length_zipIdx, List.length_mergeSort]

/-- The ports of one host are in a row, so no two of its items share one. -/
theorem placeChunk_apart : ((placeChunk ip bucket).map fun it => (it.destIp, it.destPort)).Nodup := by
  have hports : (placeChunk ip bucket).map (fun it => (it.destIp, it.destPort)) =
      (List.range bucket.length).map fun offset => (ip, DEFAULT_REDIS_START_PORT + offset) := by
    have hsnd := List.zipIdx_map_snd 0 (bucket.mergeSort chunkOrder)
    rw [List.length_mergeSort, ← List.range_eq_range'] at hsnd
    rw [← hsnd, placeChunk, List.map_map, List.map_map]
    rfl
  rw [hports]
  refine List.Nodup.map ?_ List.nodup_range
  intro a b h
  have := congrArg Prod.snd h
  simp only at this
  omega

variable {chunks : List (String × List RollbackItem)}

/-- Hosts of different names keep what each was given. -/
theorem filter_flatMap_placeChunk (hnodup : (chunks.map Prod.fst).Nodup)
    (hmem : (ip, bucket) ∈ chunks) :
    ((chunks.flatMap fun chunk => placeChunk chunk.1 chunk.2).filter fun it => it.destIp = ip) =
      placeChunk ip bucket := by
  induction chunks with
  | nil => cases hmem
  | cons chunk chunks ih =>
    obtain ⟨hnotin, hnodup⟩ := List.nodup_cons.mp hnodup
    rw [List.flatMap_cons, List.filter_append]
    rcases List.mem_cons.mp hmem with rfl | hmem
    · have hall : (placeChunk ip bucket).filter (fun it => it.destIp = ip) = placeChunk ip bucket :=
        List.filter_eq_self.mpr fun it hit => decide_eq_true (destIp_of_mem_placeChunk hit)
      have hnone : ((chunks.flatMap fun chunk => placeChunk chunk.1 chunk.2).filter
          fun it => it.destIp = ip) = [] := by
        refine List.filter_eq_nil_iff.mpr fun it hit hip => ?_
        obtain ⟨other, hother, hit⟩ := List.mem_flatMap.mp hit
        have heq := (destIp_of_mem_placeChunk hit).symm.trans (of_decide_eq_true hip)
        exact hnotin (List.mem_map.mpr ⟨other, hother, heq⟩)
      rw [hall, hnone, List.append_nil]
    · have hne : chunk.1 ≠ ip := fun h => hnotin (List.mem_map.mpr ⟨_, hmem, h.symm⟩)
      have hnone : (placeChunk chunk.1 chunk.2).filter (fun it => it.destIp = ip) = [] := by
        refine List.filter_eq_nil_iff.mpr fun it hit hip => hne ?_
        exact (destIp_of_mem_placeChunk hit).symm.trans (of_decide_eq_true hip)
      rw [hnone, List.nil_append]
      exact ih hnodup hmem

theorem flatMap_placeChunk_apart (hnodup : (chunks.map Prod.fst).Nodup) :
    ((chunks.flatMap fun chunk => placeChunk chunk.1 chunk.2).map
      fun it => (it.destIp, it.destPort)).Nodup := by
  induction chunks with
  | nil => exact List.nodup_nil
  | cons chunk chunks ih =>
    obtain ⟨hnotin, hnodup⟩ := List.nodup_cons.mp hnodup
    rw [List.flatMap_cons, List.map_append]
    refine List.Nodup.append placeChunk_apart (ih hnodup) ?_
    intro address hleft hright
    obtain ⟨it, hit, rfl⟩ := List.mem_map.mp hleft
    obtain ⟨it', hit', heq⟩ := List.mem_map.mp hright
    obtain ⟨other, hother, hit'⟩ := List.mem_flatMap.mp hit'
    have hip := congrArg Prod.fst heq
    rw [destIp_of_mem_placeChunk hit, destIp_of_mem_placeChunk hit'] at hip
    exact hnotin (List.mem_map.mpr ⟨other, hother, hip⟩)

theorem map_flatMap_placeChunk {β : Type*} (f : RollbackItem → β)
    (hf : ∀ it ip port, f (RollbackItem.setDest it ip port) = f it) :
    ((chunks.flatMap fun chunk => placeChunk chunk.1 chunk.2).map f).Perm
      ((chunks.map Prod.snd).flatten.map f) := by
  induction chunks with
  | nil => exact List.Perm.refl _
  | cons chunk chunks ih =>
    rw [List.flatMap_cons, List.map_append, List.map_cons, List.flatten_cons, List.map_append]
    exact (map_placeChunk f hf).append ih

end Placing

section Estimate

variable {plan : RollbackPlan} {evaluation : PlanEval}

theorem real_of_buildItems (h : evaluation.buildItems = some plan.items) :
    plan.real = evaluation.realShards.map ShardEval.toItem := by
  unfold PlanEval.buildItems at h
  split at h
  · rename_i hok
    have hitems := Option.some.inj h
    have hshards : (evaluation.shards.map ShardEval.toItem).filter (fun it => !it.isPlaceholder) =
        evaluation.shards.map ShardEval.toItem := by
      refine List.filter_eq_self.mpr fun it hit => ?_
      obtain ⟨shard, hshard, rfl⟩ := List.mem_map.mp hit
      show (!shard.isPlaceholder) = true
      rw [evaluation.shards_real shard hshard]
      rfl
    have hothers : (evaluation.placeholders.map ShardEval.toItem).filter
        (fun it => !it.isPlaceholder) = [] := by
      refine List.filter_eq_nil_iff.mpr fun it hit hreal => ?_
      obtain ⟨shard, hshard, rfl⟩ := List.mem_map.mp hit
      have hmarked := evaluation.placeholders_marked shard hshard
      simp [ShardEval.toItem, hmarked] at hreal
    have hall : evaluation.shards.filter ShardEval.ok = evaluation.shards :=
      List.filter_eq_self.mpr fun shard hshard => List.all_eq_true.mp hok shard hshard
    rw [RollbackPlan.real, ← hitems, List.filter_append, hshards, hothers, List.append_nil,
      PlanEval.realShards, hall]
    exact (List.map_mergeSort (f := ShardEval.toItem) fun _ _ _ _ => rfl).symm
  · cases h

/-- The real shards are packed for the plan as the estimate packs them. -/
theorem balanceHosts_eq_simulate (h : evaluation.buildItems = some plan.items) (hostCount : ℕ) :
    balanceHosts plan.real [] hostCount RollbackItem.downloadBytes =
      (evaluation.simulate hostCount).map fun b i => (b i).map ShardEval.toItem := by
  rw [real_of_buildItems h, balanceHosts_map]
  rfl

end Estimate

/-- What is expected of a plan packed on its hosts, where the shards to restore were put as `r` has
them, each host's in the order in which it got them. -/
structure PackedOn (plan packed : RollbackPlan) (ips : List String)
    (r : Fin ips.length → List RollbackItem) : Prop where
  complete : (packed.items.map RollbackItem.unplaced).Perm (plan.items.map RollbackItem.unplaced)
  onHosts : ∀ it ∈ packed.items, it.destIp ∈ ips
  apart : (packed.items.map fun it => (it.destIp, it.destPort)).Nodup
  restored : ∀ i : Fin ips.length, (((packed.itemsOn ips[i]).filter fun it => !it.isPlaceholder).map
    RollbackItem.unplaced).Perm ((r i).map RollbackItem.unplaced)
  used : ∀ i, r i ≠ []
  balanced : ∀ i j last, (r i).getLast? = some last →
    Balance.load RollbackItem.downloadBytes (r i) ≤
      Balance.load RollbackItem.downloadBytes (r j) + last.downloadBytes
  spread : ∀ p : Fin ips.length → ℕ, ∑ i, p i = plan.placeholders.length →
    ∀ i : Fin ips.length,
    (∃ j, (packed.itemsOn ips[i]).length ≤ (r j).length + p j) ∧
      ∃ j, (r j).length + p j ≤ (packed.itemsOn ips[i]).length

section Packing

variable {plan : RollbackPlan} {ips : List String}

/-- The plan with its items in these buckets. -/
def packedIn (plan : RollbackPlan) (ips : List String) (b : Fin ips.length → List RollbackItem) :
    RollbackPlan :=
  let chunks := ips.zip (List.ofFn b)
  { plan with
    items := chunks.flatMap fun chunk => placeChunk chunk.1 chunk.2
    destHosts := chunks.map fun chunk => destHost plan.inMemory chunk.1 chunk.2 }

theorem map_fst_chunks (b : Fin ips.length → List RollbackItem) :
    (ips.zip (List.ofFn b)).map Prod.fst = ips := List.map_fst_zip (by simp)

theorem map_snd_chunks (b : Fin ips.length → List RollbackItem) :
    (ips.zip (List.ofFn b)).map Prod.snd = List.ofFn b := List.map_snd_zip (by simp)

theorem mem_chunks (b : Fin ips.length → List RollbackItem) (i : Fin ips.length) :
    (ips[i], b i) ∈ ips.zip (List.ofFn b) := by
  refine List.mem_iff_getElem.mpr ⟨i.val, by simp, ?_⟩
  simp

theorem itemsOn_packedIn (hnodup : ips.Nodup) (b : Fin ips.length → List RollbackItem)
    (i : Fin ips.length) : (packedIn plan ips b).itemsOn ips[i] = placeChunk ips[i] (b i) := by
  have hfst : ((ips.zip (List.ofFn b)).map Prod.fst).Nodup := by rwa [map_fst_chunks]
  exact filter_flatMap_placeChunk hfst (mem_chunks b i)

theorem real_perm_append (plan : RollbackPlan) :
    (plan.real ++ plan.placeholders).Perm plan.items := by
  refine ((List.mergeSort_perm _ _).append_right _).trans ?_
  have hsplit := List.filter_append_perm (fun it => !it.isPlaceholder) plan.items
  simpa [RollbackPlan.placeholders] using hsplit

theorem filter_placeChunk_perm {ip : String} {bucket reals added : List RollbackItem}
    (hbucket : bucket = reals ++ added) (hreals : ∀ it ∈ reals, it.isPlaceholder = false)
    (hadded : ∀ it ∈ added, it.isPlaceholder = true) :
    (((placeChunk ip bucket).filter fun it => !it.isPlaceholder).map RollbackItem.unplaced).Perm
      (reals.map RollbackItem.unplaced) := by
  have hperm : ((placeChunk ip bucket).map RollbackItem.unplaced).Perm
      (bucket.map RollbackItem.unplaced) := map_placeChunk _ fun _ _ _ => rfl
  have hfilter := hperm.filter fun it => !it.isPlaceholder
  rw [List.filter_map, List.filter_map] at hfilter
  refine hfilter.trans (List.Perm.of_eq ?_)
  have hkeep : reals.filter (fun it => !it.isPlaceholder) = reals :=
    List.filter_eq_self.mpr fun it hit => by rw [hreals it hit]; rfl
  have hdrop : added.filter (fun it => !it.isPlaceholder) = [] :=
    List.filter_eq_nil_iff.mpr fun it hit => by rw [hadded it hit]; decide
  have hcomp : ((fun it => !it.isPlaceholder) ∘ RollbackItem.unplaced) =
      fun it : RollbackItem => !it.isPlaceholder := rfl
  rw [hcomp, hbucket, List.filter_append, hkeep, hdrop, List.append_nil]

theorem packedOn_packedIn (hnodup : ips.Nodup) (hcount : ips.length ≤ plan.restoreCount)
    {r b : Fin ips.length → List RollbackItem}
    (hreal : Balance.Greedy (Balance.loadKey RollbackItem.downloadBytes) (fun _ => []) plan.real r)
    (hports : Balance.Greedy List.length r plan.placeholders b) :
    PackedOn plan (packedIn plan ips b) ips r := by
  have hlength : ∀ i : Fin ips.length, ((packedIn plan ips b).itemsOn ips[i]).length = (b i).length := by
    intro i
    rw [itemsOn_packedIn hnodup, length_placeChunk]
  refine ⟨?_, ?_, ?_, ?_, ?_, ?_, ?_⟩
  · have hmap : ((packedIn plan ips b).items.map RollbackItem.unplaced).Perm
        (((ips.zip (List.ofFn b)).map Prod.snd).flatten.map RollbackItem.unplaced) :=
      map_flatMap_placeChunk _ fun _ _ _ => rfl
    rw [map_snd_chunks] at hmap
    have hreals := hreal.perm
    have hall := hports.perm.trans (hreals.append_right plan.placeholders)
    have hempty : (List.ofFn fun _ : Fin ips.length => ([] : List RollbackItem)).flatten = [] := by
      simp
    rw [hempty, List.nil_append] at hall
    exact hmap.trans ((hall.trans (real_perm_append plan)).map _)
  · intro it hit
    obtain ⟨chunk, hchunk, hit⟩ := List.mem_flatMap.mp hit
    rw [destIp_of_mem_placeChunk hit]
    exact (List.of_mem_zip hchunk).1
  · exact flatMap_placeChunk_apart (by rwa [map_fst_chunks])
  · intro i
    rw [itemsOn_packedIn hnodup]
    obtain ⟨added, hb, hadded⟩ := hports.exists_added i
    refine filter_placeChunk_perm hb ?_ ?_
    · intro it hit
      have hmem := List.mem_mergeSort.mp (hreal.mem_of_mem i it hit)
      simpa using (List.mem_filter.mp hmem).2
    · intro it hit
      exact (List.mem_filter.mp (hadded it hit)).2
  · intro i
    refine hreal.ne_nil ?_ i
    rw [Fintype.card_fin, RollbackPlan.real, List.length_mergeSort]
    exact hcount
  · intro i j last hlast
    exact hreal.load_le hlast j
  · intro p hp i
    rw [hlength]
    exact ⟨hports.exists_fuller hp i, hports.exists_lower hp i⟩

/-- On different hosts, no more of them than shards to restore, the packing is complete, spread and
balanced, and where the plan was built from an evaluation the shards are put as its estimate has
them. -/
theorem packDestHosts_packs (plan : RollbackPlan) {ips : List String} (hne : ips ≠ [])
    (hnodup : ips.Nodup) (hcount : ips.length ≤ plan.restoreCount) :
    ∃ packed r, plan.packDestHosts ips ips.length = .ok packed ∧
      balanceHosts plan.real [] ips.length RollbackItem.downloadBytes = some r ∧
      PackedOn plan packed ips r ∧
      ∀ evaluation : PlanEval, evaluation.buildItems = some plan.items →
        ∃ s, evaluation.simulate ips.length = some s ∧
          ∀ i, r i = (s i).map ShardEval.toItem := by
  have hpos : 0 < ips.length := List.length_pos_iff.mpr hne
  obtain ⟨r, b, hr, hb, hreal, hports⟩ :=
    balanceHosts_greedy plan.real plan.placeholders RollbackItem.downloadBytes hpos
  refine ⟨packedIn plan ips b, r, ?_, hr, packedOn_packedIn hnodup hcount hreal hports, ?_⟩
  · have hmessage : hostCountError ips.length plan.restoreCount = none := by
      unfold hostCountError
      rw [if_neg (by omega), if_neg (by omega)]
    simp only [RollbackPlan.packDestHosts, hmessage, if_neg hne, hb]
    rfl
  · intro evaluation hbuild
    rw [balanceHosts_eq_simulate hbuild] at hr
    obtain ⟨s, hs, heq⟩ := Option.map_eq_some_iff.mp hr
    exact ⟨s, hs, fun i => (congrFun heq i).symm⟩

/-- Two shards to restore and one that stays empty. -/
def threeItems : RollbackPlan :=
  { inMemory := true
    items := [⟨"0-1", "1.1.1.1", 30000, "", 0, [⟨"1", "a.rdb", 5⟩], [], false⟩,
      ⟨"2-3", "1.1.1.1", 30001, "", 0, [], [], false⟩, ⟨"4-5", "1.1.1.1", 30002, "", 0, [], [], true⟩]
    destHosts := [] }

theorem packDestHosts_packs_threeItems :
    ∃ packed r, threeItems.packDestHosts ["2.2.2.2", "3.3.3.3"] 2 = .ok packed ∧
      PackedOn threeItems packed ["2.2.2.2", "3.3.3.3"] r := by
  obtain ⟨packed, r, hok, -, hpacked, -⟩ :=
    packDestHosts_packs threeItems (List.cons_ne_nil "2.2.2.2" ["3.3.3.3"]) (by decide) (by decide)
  exact ⟨packed, r, hok, hpacked⟩

end Packing

end Rollback.Planner
