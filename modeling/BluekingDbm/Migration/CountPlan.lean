import BluekingDbm.Library.Transfers
import BluekingDbm.Migration.ByCount
import Mathlib.Data.List.Dedup

/-! What the moves of a plan by counts come to: who holds how many slots after them, in whatever order
they are made, and that none of them could be spared. -/
namespace Migration

open Loop (Outcome Turn iterate)
open Transfers

def MigrateCount.transfer (task : MigrateCount) : Transfer String :=
  ⟨task.srcAddr, task.dstAddr, task.migrateCount⟩

def transfers (tasks : List MigrateCount) : List (Transfer String) := tasks.map MigrateCount.transfer

section Ledger

variable {srcs srcs' : List SrcNode} {dsts : List DstNode} {need need' : ℤ} {dstAddr a : String}
  {tasks : List MigrateCount} {start s t : Pairing} {fuel : ℕ}

/-- What the sources at an address have left to give. -/
def remainAt (srcs : List SrcNode) (a : String) : ℤ :=
  (srcs.map fun src => if src.addr = a then src.remain else 0).sum

def needAt (dsts : List DstNode) (a : String) : ℤ :=
  (dsts.map fun dst => if dst.addr = a then dst.need else 0).sum

@[simp] theorem remainAt_cons (src : SrcNode) :
    remainAt (src :: srcs) a = (if src.addr = a then src.remain else 0) + remainAt srcs a :=
  List.sum_cons

@[simp] theorem needAt_cons (dst : DstNode) :
    needAt (dst :: dsts) a = (if dst.addr = a then dst.need else 0) + needAt dsts a := List.sum_cons

theorem remainAt_bounds (h : ∀ src ∈ srcs, 0 ≤ src.remain) :
    0 ≤ remainAt srcs a ∧ remainAt srcs a ≤ supply srcs := by
  induction srcs with
  | nil => exact ⟨Int.le_refl 0, Int.le_refl 0⟩
  | cons src srcs ih =>
    obtain ⟨hsrc, hsrcs⟩ := List.forall_mem_cons.mp h
    have hrest := ih hsrcs
    rw [remainAt_cons, supply_cons]
    split
    · omega
    · omega

theorem needAt_bounds (h : ∀ dst ∈ dsts, 0 ≤ dst.need) :
    0 ≤ needAt dsts a ∧ needAt dsts a ≤ demand dsts := by
  induction dsts with
  | nil => exact ⟨Int.le_refl 0, Int.le_refl 0⟩
  | cons dst dsts ih =>
    obtain ⟨hdst, hdsts⟩ := List.forall_mem_cons.mp h
    have hrest := ih hdsts
    rw [needAt_cons, demand_cons]
    split
    · omega
    · omega

/-- What one pass books: the slots that its tasks move. -/
structure Booked (dstAddr : String) (srcs : List SrcNode) (need : ℤ) (srcs' : List SrcNode)
    (need' : ℤ) (tasks : List MigrateCount) : Prop where
  addrs : srcs'.map SrcNode.addr = srcs.map SrcNode.addr
  remain : ∀ a, remainAt srcs' a + flow Transfer.src (transfers tasks) a = remainAt srcs a
  need : total (transfers tasks) + need' = need
  tasks : ∀ task ∈ tasks, 0 < task.migrateCount ∧ task.srcAddr ∈ srcs.map SrcNode.addr ∧
    task.dstAddr = dstAddr

theorem drawFrom_booked : Booked dstAddr srcs need (drawFrom dstAddr need srcs).1
    (drawFrom dstAddr need srcs).2.1 (drawFrom dstAddr need srcs).2.2 := by
  induction srcs generalizing need with
  | nil =>
    refine ⟨rfl, fun a => rfl, ?_, fun task htask => absurd htask List.not_mem_nil⟩
    exact Int.zero_add need
  | cons src srcs ih =>
    rw [drawFrom]
    split
    · have hrest := @ih need
      generalize drawFrom dstAddr need srcs = out at hrest ⊢
      obtain ⟨srcs', need', tasks⟩ := out
      obtain ⟨haddrs, hremain, hneed, htasks⟩ := hrest
      dsimp only at haddrs hremain hneed htasks ⊢
      refine ⟨congrArg (src.addr :: ·) haddrs, fun a => ?_, hneed, fun task htask => ?_⟩
      · have hrest := hremain a
        rw [remainAt_cons, remainAt_cons]
        omega
      · obtain ⟨hpos, hsrc, hdst⟩ := htasks task htask
        exact ⟨hpos, List.mem_cons_of_mem _ hsrc, hdst⟩
    · split
      · refine ⟨rfl, fun a => Int.add_zero _, Int.zero_add need, fun task htask => ?_⟩
        exact absurd htask List.not_mem_nil
      · dsimp only
        generalize hcount : (if need < src.remain then need else src.remain) = migrateCount
        have hpos : 0 < migrateCount := by
          split at hcount
          · omega
          · omega
        have hrest := @ih (need - migrateCount)
        generalize drawFrom dstAddr (need - migrateCount) srcs = out at hrest ⊢
        obtain ⟨srcs', need', tasks⟩ := out
        obtain ⟨haddrs, hremain, hneed, htasks⟩ := hrest
        dsimp only at haddrs hremain hneed htasks ⊢
        have hcons : transfers (⟨src.addr, dstAddr, migrateCount⟩ :: tasks) =
            ⟨src.addr, dstAddr, migrateCount⟩ :: transfers tasks := rfl
        refine ⟨congrArg (src.addr :: ·) haddrs, fun a => ?_, ?_, ?_⟩
        · have hrest := hremain a
          rw [hcons, remainAt_cons, remainAt_cons, flow_cons]
          dsimp only
          split
          · omega
          · omega
        · have htotal : total (⟨src.addr, dstAddr, migrateCount⟩ :: transfers tasks) =
              migrateCount + total (transfers tasks) := List.sum_cons
          rw [hcons, htotal]
          omega
        · refine List.forall_mem_cons.mpr ⟨⟨hpos, List.mem_cons_self, rfl⟩, fun task htask => ?_⟩
          obtain ⟨hpos, hsrc, hdst⟩ := htasks task htask
          exact ⟨hpos, List.mem_cons_of_mem _ hsrc, hdst⟩

/-- What the tasks of one pass bring to an address. -/
theorem Booked.into (h : Booked dstAddr srcs need srcs' need' tasks) (a : String) :
    flow Transfer.dst (transfers tasks) a = if dstAddr = a then total (transfers tasks) else 0 := by
  refine flow_const fun u hu => ?_
  obtain ⟨task, htask, rfl⟩ := List.mem_map.mp hu
  exact (h.tasks task htask).2.2

/-- A destination whose need is met is dropped, and counts for nothing. -/
theorem needAt_left {dst : DstNode} (hneed : 0 ≤ need) :
    needAt (if need ≤ 0 then dsts else { dst with need := need } :: dsts) a =
      (if dst.addr = a then need else 0) + needAt dsts a := by
  by_cases hmet : need ≤ 0
  · have hzero : need = 0 := by omega
    rw [if_pos hmet, hzero]
    split
    · exact (Int.zero_add _).symm
    · exact (Int.zero_add _).symm
  · rw [if_neg hmet, needAt_cons]

/-- What is owed at an address: slots that are to go less slots that are to come. -/
def Pairing.owed (s : Pairing) (a : String) : ℤ := remainAt s.srcs a - needAt s.dsts a

/-- The tasks so far and what is still owed make up what was owed at the start. -/
structure Ledger (start s : Pairing) : Prop where
  srcs : s.srcs.map SrcNode.addr = start.srcs.map SrcNode.addr
  dsts : ∀ dst ∈ s.dsts, dst.addr ∈ start.dsts.map DstNode.addr
  owed : ∀ a, s.owed a + flow Transfer.src (transfers s.migrateTasks) a -
    flow Transfer.dst (transfers s.migrateTasks) a = start.owed a
  tasks : ∀ task ∈ s.migrateTasks, 0 < task.migrateCount ∧
    task.srcAddr ∈ start.srcs.map SrcNode.addr ∧ task.dstAddr ∈ start.dsts.map DstNode.addr

theorem pairTurn_ledger (h : Ledger start s) (hnonneg : ∀ dst ∈ s.dsts, 0 ≤ dst.need)
    (hunmet : ∀ dst need, 0 ≤ need → 0 ≤ (drawFrom dst need s.srcs).2.1)
    (hturn : pairTurn s = .returned (.again t)) : Ledger start t := by
  obtain ⟨hsrcs, hdsts, howed, htasks⟩ := h
  unfold pairTurn at hturn
  split at hturn
  · cases hturn
  case h_2 dst dsts hlist =>
    split at hturn
    · cases hturn
    · rw [hlist] at hdsts hnonneg
      obtain ⟨hdst, hrest⟩ := List.forall_mem_cons.mp hdsts
      obtain ⟨hdstNeed, -⟩ := List.forall_mem_cons.mp hnonneg
      split at hturn
      case isTrue hmet =>
        cases hturn
        refine ⟨hsrcs, hrest, fun a => ?_, htasks⟩
        have hbefore := howed a
        rw [Pairing.owed, hlist, needAt_cons] at hbefore
        rw [Pairing.owed]
        dsimp only
        split at hbefore
        · omega
        · omega
      case isFalse =>
        have hbooked := @drawFrom_booked s.srcs dst.need dst.addr
        have hleft := hunmet dst.addr dst.need
        generalize drawFrom dst.addr dst.need s.srcs = out at hturn hbooked hleft
        obtain ⟨srcs, need, tasks⟩ := out
        have hinto := hbooked.into
        obtain ⟨haddrs, hremain, hneed, hnew⟩ := hbooked
        dsimp only at hturn haddrs hremain hneed hnew hleft hinto
        cases hturn
        refine ⟨haddrs.trans hsrcs, ?_, fun a => ?_, ?_⟩
        · intro other hother
          dsimp only at hother
          split at hother
          · exact hrest other hother
          · rcases List.mem_cons.mp hother with rfl | hother
            · exact hdst
            · exact hrest other hother
        · have hbefore := howed a
          have hmoved := hremain a
          have hsplit : transfers (s.migrateTasks ++ tasks) =
              transfers s.migrateTasks ++ transfers tasks := List.map_append
          rw [Pairing.owed, hlist, needAt_cons] at hbefore
          rw [Pairing.owed]
          dsimp only
          rw [needAt_left (hleft hdstNeed), hsplit, flow_append, flow_append, hinto]
          split at hbefore
          case isTrue heq =>
            rw [if_pos heq, if_pos heq]
            omega
          case isFalse hne =>
            rw [if_neg hne, if_neg hne]
            omega
        · intro task htask
          rcases List.mem_append.mp htask with htask | htask
          · exact htasks task htask
          · obtain ⟨hpos, hsrc, hto⟩ := hnew task htask
            exact ⟨hpos, hsrcs ▸ hsrc, hto ▸ hdst⟩

/-- A loop whose sources have just what is needed returns, and then nothing is owed. -/
theorem pairing_settles (h : Sound start) (hnone : start.migrateTasks = [])
    (hbalance : supply start.srcs = demand start.dsts) (hfuel : start.dsts.length < fuel) :
    (iterate pairTurn fuel start).Returns fun s => Ledger start s ∧ ∀ a, s.owed a = 0 := by
  refine Loop.iterate_returns
    (fun s : Pairing => Sound s ∧ supply s.srcs = demand s.dsts ∧ Ledger start s)
    (fun s : Pairing => s.dsts.length) ?_ ⟨h, hbalance, ?_⟩ hfuel
  · rintro s ⟨hsound, hbalance, hledger⟩
    rcases pairTurn_cases hsound with ⟨hleave, hend⟩ | ⟨t, hagain, ht, -, -, hmoved, hprogress⟩
    · refine ⟨_, hleave, hledger, fun a => ?_⟩
      have hremain := @remainAt_bounds s.srcs a hsound.remain
      have hneed := @needAt_bounds s.dsts a hsound.need
      have hzero : supply s.srcs = 0 := by
        rcases hend with hnil | hnil
        · rw [hbalance, hnil, demand_nil]
        · rw [hnil, supply_nil]
      rw [Pairing.owed]
      omega
    · have hunmet : ∀ dst need, 0 ≤ need → 0 ≤ (drawFrom dst need s.srcs).2.1 :=
        fun dst need hneed => (drawFrom_drawn hneed hsound.remain).unmet
      refine ⟨_, hagain, ⟨ht, by omega, pairTurn_ledger hledger hsound.need hunmet hagain⟩, ?_⟩
      rcases hprogress with hshort | ⟨hzero, hpos⟩
      · exact hshort
      · omega
  · refine ⟨rfl, fun dst hdst => List.mem_map_of_mem hdst, fun a => ?_, ?_⟩
    · rw [hnone]
      exact (Int.sub_zero _).trans (Int.add_zero _)
    · rw [hnone]
      exact fun task htask => absurd htask List.not_mem_nil

end Ledger

section Owed

variable {finalNodes toBeDelNodes : List String} {clusterNodes nodes : List ClusterNodeData}
  {bs : List (String × ℤ)} {total count k i : ℕ} {a : String}

/-- The slots listed at an address. -/
def slotsAt (nodes : List ClusterNodeData) (a : String) : ℕ :=
  (nodes.map fun node => if node.addr = a then node.slots.length else 0).sum

theorem slotsAt_cons (node : ClusterNodeData) : slotsAt (node :: nodes) a =
    (if node.addr = a then node.slots.length else 0) + slotsAt nodes a := List.sum_cons

theorem slotsAt_eq_zero (h : a ∉ nodes.map ClusterNodeData.addr) : slotsAt nodes a = 0 := by
  induction nodes with
  | nil => rfl
  | cons node nodes ih =>
    rw [List.map_cons, List.mem_cons, not_or] at h
    rw [slotsAt_cons, if_neg (Ne.symm h.1), ih h.2]

theorem curSlots_eq_slotsAt (h : ((masters clusterNodes).map ClusterNodeData.addr).Nodup) :
    curSlots clusterNodes a = slotsAt (masters clusterNodes) a := by
  induction clusterNodes with
  | nil => rfl
  | cons node clusterNodes ih =>
    by_cases hrole : node.role = redisMasterRole
    · have hmasters : masters (node :: clusterNodes) = node :: masters clusterNodes :=
        List.filter_cons_of_pos (by simpa using hrole)
      rw [hmasters, List.map_cons, List.nodup_cons] at h
      obtain ⟨hother, hrest⟩ := h
      rw [hmasters, slotsAt_cons]
      by_cases haddr : node.addr = a
      · subst haddr
        rw [slotsAt_eq_zero hother, curSlots, List.find?_cons_of_pos (by simpa using hrole), if_pos rfl]
        rfl
      · rw [if_neg haddr, Nat.zero_add, ← ih hrest, curSlots, curSlots,
          List.find?_cons_of_neg (by simp [haddr])]
    · have hmasters : masters (node :: clusterNodes) = masters clusterNodes :=
        List.filter_cons_of_neg (by simpa using hrole)
      rw [hmasters] at h ⊢
      rw [← ih h, curSlots, curSlots, List.find?_cons_of_neg (by simp [hrole])]

theorem owed_balances : remainAt (bs.filterMap surplus) a - needAt (bs.filterMap shortage) a =
    (bs.map fun b => if b.1 = a then b.2 else 0).sum := by
  induction bs with
  | nil => rfl
  | cons b bs ih =>
    rw [List.map_cons, List.sum_cons]
    rcases lt_trichotomy b.2 0 with hneg | hzero | hpos
    · have hsurplus : surplus b = none := if_neg (by omega)
      have hshortage : shortage b = some ⟨b.1, -b.2⟩ := if_pos hneg
      rw [List.filterMap_cons_none hsurplus, List.filterMap_cons_some hshortage, needAt_cons]
      dsimp only
      split
      · omega
      · omega
    · have hsurplus : surplus b = none := if_neg (by omega)
      have hshortage : shortage b = none := if_neg (by omega)
      rw [List.filterMap_cons_none hsurplus, List.filterMap_cons_none hshortage, hzero]
      split
      · omega
      · omega
    · have hsurplus : surplus b = some ⟨b.1, b.2⟩ := if_pos hpos
      have hshortage : shortage b = none := if_neg (by omega)
      rw [List.filterMap_cons_some hsurplus, List.filterMap_cons_none hshortage, remainAt_cons]
      dsimp only
      split
      · omega
      · omega

theorem remainAt_leaving : remainAt (nodes.filterMap leaving) a = slotsAt nodes a := by
  induction nodes with
  | nil => rfl
  | cons node nodes ih =>
    rw [slotsAt_cons]
    by_cases hpos : 0 < node.slots.length
    · have hleaving : leaving node = some ⟨node.addr, node.slots.length⟩ := if_pos hpos
      rw [List.filterMap_cons_some hleaving, remainAt_cons, ih]
      dsimp only
      split
      · omega
      · omega
    · have hleaving : leaving node = none := if_neg hpos
      rw [List.filterMap_cons_none hleaving, ih]
      split
      · omega
      · omega

/-- What is owed at the start: a surplus, and all that a node to be deleted has. -/
theorem owed_start : (pairingStart finalNodes toBeDelNodes clusterNodes).owed a =
    ((balances finalNodes toBeDelNodes clusterNodes).map fun b => if b.1 = a then b.2 else 0).sum +
      slotsAt (toBeDelMasters toBeDelNodes clusterNodes) a := by
  have happend : remainAt (pairingStart finalNodes toBeDelNodes clusterNodes).srcs a =
      remainAt ((balances finalNodes toBeDelNodes clusterNodes).filterMap surplus) a +
        remainAt ((toBeDelMasters toBeDelNodes clusterNodes).filterMap leaving) a := by
    rw [pairingStart, remainAt, List.map_append, List.sum_append]
    rfl
  have hbalances := @owed_balances (balances finalNodes toBeDelNodes clusterNodes) a
  have hneed : needAt (pairingStart finalNodes toBeDelNodes clusterNodes).dsts a =
      needAt ((balances finalNodes toBeDelNodes clusterNodes).filterMap shortage) a := rfl
  rw [Pairing.owed, happend, remainAt_leaving, hneed]
  omega

theorem balances_addrs :
    (balances finalNodes toBeDelNodes clusterNodes).map Prod.fst = finalNodes := by
  rw [balances, List.map_map]
  exact List.zipIdx_map_fst 0 finalNodes

/-- The share of a node that stays is counted once. -/
theorem sum_balance_at (f : String → ℕ → ℤ) {l : List String} (hl : l.Nodup) (hi : i < l.length) :
    (((l.zipIdx k).map fun p => (p.1, f p.1 p.2)).map fun b => if b.1 = l[i] then b.2 else 0).sum =
      f l[i] (k + i) := by
  induction l generalizing k i with
  | nil => exact absurd hi (Nat.not_lt_zero i)
  | cons x l ih =>
    obtain ⟨hx, hrest⟩ := List.nodup_cons.mp hl
    rw [List.zipIdx_cons, List.map_cons, List.map_cons, List.sum_cons]
    cases i with
    | zero =>
      have hnone : ((((l.zipIdx (k + 1)).map fun p => (p.1, f p.1 p.2)).map fun b =>
          if b.1 = x then b.2 else 0)).sum = 0 := by
        refine List.sum_eq_zero ?_
        intro y hy
        obtain ⟨b, hb, rfl⟩ := List.mem_map.mp hy
        obtain ⟨p, hp, rfl⟩ := List.mem_map.mp hb
        refine if_neg ?_
        rintro rfl
        exact hx (List.fst_mem_of_mem_zipIdx hp)
      rw [List.getElem_cons_zero, if_pos rfl, hnone]
      exact Int.add_zero _
    | succ i =>
      have hlt : i < l.length := Nat.lt_of_succ_lt_succ hi
      have hne : x ≠ l[i] := by
        rintro rfl
        exact hx (List.getElem_mem hlt)
      rw [List.getElem_cons_succ, if_neg hne, ih hrest hlt]
      have hindex : k + 1 + i = k + (i + 1) := by omega
      rw [hindex]
      exact Int.zero_add _

end Owed

section Exact

variable {finalNodes toBeDelNodes : List String} {clusterNodes : List ClusterNodeData}
  {total count : ℕ} {a : String}

/-- The masters have all slots, each of them once, and those with slots stay or are to be deleted. -/
structure AllOwned (finalNodes toBeDelNodes : List String) (clusterNodes : List ClusterNodeData) :
    Prop where
  kept : finalNodes ≠ []
  distinct : finalNodes.Nodup
  apart : ∀ addr ∈ finalNodes, addr ∉ toBeDelNodes
  addrs : ((masters clusterNodes).map ClusterNodeData.addr).Nodup
  slots : ((masters clusterNodes).flatMap ClusterNodeData.slots).Perm (List.range totalSlots)
  owners : ∀ node ∈ masters clusterNodes, node.slots ≠ [] →
    node.addr ∈ finalNodes ∨ node.addr ∈ toBeDelNodes

/-- How many slots there are at an address. -/
def heldSlots (clusterNodes : List ClusterNodeData) (addr : String) : ℤ := curSlots clusterNodes addr

/-- After the tasks, in any order, each node that stays has its share and each that goes has none; no
task takes more than there is when its turn comes; and no moves with this outcome move fewer slots. -/
structure ExactPlan (finalNodes toBeDelNodes : List String) (clusterNodes : List ClusterNodeData)
    (tasks : List MigrateCount) : Prop where
  shares : ((List.range finalNodes.length).map (expectedSlots totalSlots finalNodes.length)).sum =
    totalSlots
  expected : ∀ order, order.Perm tasks → ∀ i (hi : i < finalNodes.length),
    run (heldSlots clusterNodes) (transfers order) finalNodes[i] =
      expectedSlots totalSlots finalNodes.length i
  deleted : ∀ order, order.Perm tasks → ∀ addr ∈ toBeDelNodes,
    run (heldSlots clusterNodes) (transfers order) addr = 0
  affordable : ∀ before task after, (before ++ task :: after).Perm tasks →
    0 < task.migrateCount ∧
      task.migrateCount ≤ run (heldSlots clusterNodes) (transfers before) task.srcAddr
  least : ∀ moves : List (Transfer String), (∀ move ∈ moves, 0 ≤ move.amount) →
    (∀ i (hi : i < finalNodes.length), run (heldSlots clusterNodes) moves finalNodes[i] =
      expectedSlots totalSlots finalNodes.length i) →
    (∀ addr ∈ toBeDelNodes, run (heldSlots clusterNodes) moves addr = 0) →
      Transfers.total (transfers tasks) ≤ Transfers.total moves

theorem sum_expectedSlots (k : ℕ) : ((List.range k).map (expectedSlots total count)).sum =
    k * (total / count) + min k (total % count) := by
  induction k with
  | zero => simp
  | succ k ih =>
    have hmul : (k + 1) * (total / count) = k * (total / count) + total / count := Nat.succ_mul ..
    rw [List.range_succ, List.map_append, List.sum_append, ih, List.map_singleton, List.sum_singleton]
    unfold expectedSlots
    split
    · omega
    · omega

theorem slotsOf_masters (h : AllOwned finalNodes toBeDelNodes clusterNodes) :
    slotsOf (masters clusterNodes) = totalSlots := by
  have hlength := h.slots.length_eq
  rw [List.length_flatMap, List.length_range] at hlength
  exact hlength

/-- Whether the slots are counted or not, there are all of them. -/
theorem totalSlotsInCluster_eq (h : AllOwned finalNodes toBeDelNodes clusterNodes) :
    totalSlotsInCluster toBeDelNodes clusterNodes = totalSlots := by
  unfold totalSlotsInCluster
  split
  · exact slotsOf_masters h
  · rfl

theorem sum_slotsAt {nodes : List ClusterNodeData} (hdistinct : finalNodes.Nodup) :
    (finalNodes.map (slotsAt nodes)).sum =
      (nodes.map fun node => if node.addr ∈ finalNodes then node.slots.length else 0).sum := by
  induction nodes with
  | nil => exact List.sum_eq_zero (by simp [slotsAt])
  | cons node nodes ih =>
    have hcons : slotsAt (node :: nodes) = fun a =>
        (if node.addr = a then node.slots.length else 0) + slotsAt nodes a :=
      funext fun a => slotsAt_cons node
    rw [hcons, List.sum_map_add, sum_ite_eq hdistinct, ih, List.map_cons, List.sum_cons]

/-- The nodes that stay and those that go have all slots between them. -/
theorem keptSlots_add_leaving (h : AllOwned finalNodes toBeDelNodes clusterNodes) :
    keptSlots finalNodes clusterNodes + slotsOf (toBeDelMasters toBeDelNodes clusterNodes) =
      totalSlots := by
  have hcur : curSlots clusterNodes = slotsAt (masters clusterNodes) :=
    funext fun a => curSlots_eq_slotsAt h.addrs
  rw [keptSlots, hcur, sum_slotsAt h.distinct, ← slotsOf_masters h, toBeDelMasters]
  have howners := h.owners
  generalize masters clusterNodes = nodes at howners
  induction nodes with
  | nil => rfl
  | cons node nodes ih =>
    obtain ⟨howner, hrest⟩ := List.forall_mem_cons.mp howners
    have hsum := ih hrest
    have hslots : slotsOf (node :: nodes) = node.slots.length + slotsOf nodes := List.sum_cons
    rw [List.map_cons, List.sum_cons, hslots]
    by_cases hgoes : node.addr ∈ toBeDelNodes
    · have hstays : node.addr ∉ finalNodes := fun hmem => h.apart _ hmem hgoes
      have hfilter : slotsOf ((node :: nodes).filter fun node => decide (node.addr ∈ toBeDelNodes)) =
          node.slots.length + slotsOf (nodes.filter fun node => decide (node.addr ∈ toBeDelNodes)) := by
        rw [List.filter_cons_of_pos (by simpa using hgoes)]
        exact List.sum_cons
      rw [if_neg hstays, hfilter]
      omega
    · rw [List.filter_cons_of_neg (by simpa using hgoes)]
      split
      · omega
      case isFalse hstays =>
        have hempty : node.slots = [] := by
          by_contra hne
          exact (howner hne).elim hstays hgoes
        rw [hempty, List.length_nil]
        omega

theorem pairingStart_settled (h : AllOwned finalNodes toBeDelNodes clusterNodes) :
    supply (pairingStart finalNodes toBeDelNodes clusterNodes).srcs =
      demand (pairingStart finalNodes toBeDelNodes clusterNodes).dsts := by
  have hover := @pairingStart_over finalNodes toBeDelNodes clusterNodes h.kept
  have hall := keptSlots_add_leaving h
  rw [totalSlotsInCluster_eq h] at hover
  omega

theorem owed_final (h : AllOwned finalNodes toBeDelNodes clusterNodes) {i : ℕ}
    (hi : i < finalNodes.length) :
    (pairingStart finalNodes toBeDelNodes clusterNodes).owed finalNodes[i] =
      heldSlots clusterNodes finalNodes[i] - expectedSlots totalSlots finalNodes.length i := by
  have hnone : slotsAt (toBeDelMasters toBeDelNodes clusterNodes) finalNodes[i] = 0 := by
    refine slotsAt_eq_zero fun hmem => ?_
    obtain ⟨node, hnode, haddr⟩ := List.mem_map.mp hmem
    have hgoes := of_decide_eq_true (List.mem_filter.mp hnode).2
    exact h.apart _ (List.getElem_mem hi) (haddr ▸ hgoes)
  have hshare := @sum_balance_at 0 i (fun addr i => (curSlots clusterNodes addr : ℤ) -
    expectedSlots (totalSlotsInCluster toBeDelNodes clusterNodes) finalNodes.length i) finalNodes
      h.distinct hi
  rw [owed_start, hnone, balances]
  rw [totalSlotsInCluster_eq h, Nat.zero_add] at hshare
  rw [totalSlotsInCluster_eq h]
  exact (Int.add_zero _).trans hshare

theorem owed_deleted (h : AllOwned finalNodes toBeDelNodes clusterNodes) (ha : a ∈ toBeDelNodes) :
    (pairingStart finalNodes toBeDelNodes clusterNodes).owed a = heldSlots clusterNodes a := by
  have hnone : ((balances finalNodes toBeDelNodes clusterNodes).map fun b =>
      if b.1 = a then b.2 else 0).sum = 0 := by
    refine List.sum_eq_zero fun y hy => ?_
    obtain ⟨b, hb, rfl⟩ := List.mem_map.mp hy
    refine if_neg ?_
    rintro rfl
    have hmem : b.1 ∈ finalNodes := by
      rw [← @balances_addrs finalNodes toBeDelNodes clusterNodes]
      exact List.mem_map_of_mem hb
    exact h.apart _ hmem ha
  have hall : slotsAt (toBeDelMasters toBeDelNodes clusterNodes) a = slotsAt (masters clusterNodes) a := by
    unfold toBeDelMasters
    generalize masters clusterNodes = nodes
    induction nodes with
    | nil => rfl
    | cons node nodes ih =>
      by_cases hgoes : node.addr ∈ toBeDelNodes
      · rw [List.filter_cons_of_pos (by simpa using hgoes), slotsAt_cons, slotsAt_cons, ih]
      · have hne : node.addr ≠ a := by
          rintro rfl
          exact hgoes ha
        rw [List.filter_cons_of_neg (by simpa using hgoes), slotsAt_cons, if_neg hne, ih, Nat.zero_add]
  rw [owed_start, hnone, hall, heldSlots, curSlots_eq_slotsAt h.addrs]
  exact Int.zero_add _

theorem src_addr (h : a ∈ (pairingStart finalNodes toBeDelNodes clusterNodes).srcs.map SrcNode.addr) :
    (∃ b ∈ balances finalNodes toBeDelNodes clusterNodes, 0 < b.2 ∧ b.1 = a) ∨ a ∈ toBeDelNodes := by
  obtain ⟨src, hsrc, rfl⟩ := List.mem_map.mp h
  rcases List.mem_append.mp hsrc with hsrc | hsrc
  · obtain ⟨b, hb, hsome⟩ := List.mem_filterMap.mp hsrc
    unfold surplus at hsome
    split at hsome
    case isTrue hpos =>
      cases hsome
      exact Or.inl ⟨b, hb, hpos, rfl⟩
    case isFalse => cases hsome
  · obtain ⟨node, hnode, hsome⟩ := List.mem_filterMap.mp hsrc
    unfold leaving at hsome
    split at hsome
    · cases hsome
      exact Or.inr (of_decide_eq_true (List.mem_filter.mp hnode).2)
    · cases hsome

theorem dst_addr (h : a ∈ (pairingStart finalNodes toBeDelNodes clusterNodes).dsts.map DstNode.addr) :
    ∃ b ∈ balances finalNodes toBeDelNodes clusterNodes, b.2 < 0 ∧ b.1 = a := by
  obtain ⟨dst, hdst, rfl⟩ := List.mem_map.mp h
  obtain ⟨b, hb, hsome⟩ := List.mem_filterMap.mp hdst
  unfold shortage at hsome
  split at hsome
  case isTrue hneg =>
    cases hsome
    exact ⟨b, hb, hneg, rfl⟩
  case isFalse => cases hsome

/-- Nothing is taken from where something is missing. -/
theorem src_not_dst (h : AllOwned finalNodes toBeDelNodes clusterNodes)
    (hsrc : a ∈ (pairingStart finalNodes toBeDelNodes clusterNodes).srcs.map SrcNode.addr) :
    a ∉ (pairingStart finalNodes toBeDelNodes clusterNodes).dsts.map DstNode.addr := by
  intro hdst
  obtain ⟨b, hb, hneg, rfl⟩ := dst_addr hdst
  have haddrs := @balances_addrs finalNodes toBeDelNodes clusterNodes
  rcases src_addr hsrc with ⟨b', hb', hpos, haddr⟩ | hgoes
  · have hnodup : ((balances finalNodes toBeDelNodes clusterNodes).map Prod.fst).Nodup :=
      haddrs.symm ▸ h.distinct
    have heq := List.inj_on_of_nodup_map hnodup hb' hb haddr
    rw [heq] at hpos
    omega
  · have hmem : b.1 ∈ finalNodes := haddrs ▸ List.mem_map_of_mem hb
    exact h.apart _ hmem hgoes

/-- A source is a node that stays or one that goes. -/
theorem src_known (h : a ∈ (pairingStart finalNodes toBeDelNodes clusterNodes).srcs.map SrcNode.addr) :
    (∃ i, ∃ hi : i < finalNodes.length, finalNodes[i] = a) ∨ a ∈ toBeDelNodes := by
  rcases src_addr h with ⟨b, hb, -, rfl⟩ | hgoes
  · have hmem : b.1 ∈ finalNodes := by
      rw [← @balances_addrs finalNodes toBeDelNodes clusterNodes]
      exact List.mem_map_of_mem hb
    exact Or.inl (List.mem_iff_getElem.mp hmem)
  · exact Or.inr hgoes

section Settled

variable {s : Pairing} {start : Pairing}

/-- When nothing is owed any more, the tasks have moved what was owed at the start. -/
theorem Ledger.flows (h : Ledger start s) (hsettled : ∀ a, s.owed a = 0) (a : String) :
    flow Transfer.src (transfers s.migrateTasks) a - flow Transfer.dst (transfers s.migrateTasks) a =
      start.owed a := by
  have hbooked := h.owed a
  rw [hsettled] at hbooked
  omega

theorem Ledger.run_eq (h : Ledger start s) (hsettled : ∀ a, s.owed a = 0) (held : String → ℤ)
    (a : String) : run held (transfers s.migrateTasks) a = held a - start.owed a := by
  rw [Transfers.run_eq, ← h.flows hsettled a]
  omega

theorem Ledger.ends (h : Ledger start s) {u : Transfer String} (hu : u ∈ transfers s.migrateTasks) :
    0 < u.amount ∧ u.src ∈ start.srcs.map SrcNode.addr ∧ u.dst ∈ start.dsts.map DstNode.addr := by
  obtain ⟨task, htask, rfl⟩ := List.mem_map.mp hu
  exact h.tasks task htask

variable (hall : AllOwned finalNodes toBeDelNodes clusterNodes)
  (h : Ledger (pairingStart finalNodes toBeDelNodes clusterNodes) s) (hsettled : ∀ a, s.owed a = 0)

include hall h

theorem Ledger.apart {u v : Transfer String} (hu : u ∈ transfers s.migrateTasks)
    (hv : v ∈ transfers s.migrateTasks) : v.dst ≠ u.src := fun heq =>
  src_not_dst hall (h.ends hu).2.1 (heq ▸ (h.ends hv).2.2)

include hsettled

theorem Ledger.run_final {i : ℕ} (hi : i < finalNodes.length) :
    run (heldSlots clusterNodes) (transfers s.migrateTasks) finalNodes[i] =
      expectedSlots totalSlots finalNodes.length i := by
  rw [h.run_eq hsettled, owed_final hall hi]
  omega

theorem Ledger.run_deleted {addr : String} (haddr : addr ∈ toBeDelNodes) :
    run (heldSlots clusterNodes) (transfers s.migrateTasks) addr = 0 := by
  rw [h.run_eq hsettled, owed_deleted hall haddr]
  omega

/-- A source has what all its tasks take. -/
theorem Ledger.paid {u : Transfer String} (hu : u ∈ transfers s.migrateTasks) :
    flow Transfer.src (transfers s.migrateTasks) u.src ≤ heldSlots clusterNodes u.src := by
  have hnone : flow Transfer.dst (transfers s.migrateTasks) u.src = 0 :=
    flow_eq_zero fun v hv => h.apart hall hu hv
  have hflow := h.flows hsettled u.src
  rcases src_known (h.ends hu).2.1 with ⟨i, hi, heq⟩ | hgoes
  · have howes := owed_final hall hi
    rw [heq] at howes
    omega
  · rw [owed_deleted hall hgoes] at hflow
    omega

/-- A ledger in which nothing is owed any more is an exact plan. -/
theorem Ledger.exactPlan : ExactPlan finalNodes toBeDelNodes clusterNodes s.migrateTasks := by
  have hamount : ∀ u ∈ transfers s.migrateTasks, 0 ≤ u.amount := fun u hu => (h.ends hu).1.le
  have horders : ∀ order : List MigrateCount, order.Perm s.migrateTasks →
      run (heldSlots clusterNodes) (transfers order) =
        run (heldSlots clusterNodes) (transfers s.migrateTasks) :=
    fun order horder => run_perm (horder.map MigrateCount.transfer) _
  refine ⟨?_, ?_, ?_, ?_, ?_⟩
  · have hpos := List.length_pos_iff.mpr hall.kept
    have hmod := Nat.mod_lt totalSlots hpos
    rw [sum_expectedSlots, min_eq_right hmod.le]
    exact Nat.div_add_mod totalSlots finalNodes.length
  · intro order horder i hi
    rw [horders order horder]
    exact h.run_final hall hsettled hi
  · intro order horder addr haddr
    rw [horders order horder]
    exact h.run_deleted hall hsettled haddr
  · intro before task after horder
    have hperm : (transfers before ++ task.transfer :: transfers after).Perm
        (transfers s.migrateTasks) := by
      have hmap := horder.map MigrateCount.transfer
      rw [List.map_append, List.map_cons] at hmap
      exact hmap
    have hmem : task ∈ s.migrateTasks :=
      horder.mem_iff.mp (List.mem_append_right _ List.mem_cons_self)
    exact ⟨(h.tasks task hmem).1, Transfers.affordable hamount (fun u hu v hv => h.apart hall hu hv)
      (fun u hu => h.paid hall hsettled hu) hperm⟩
  · intro moves hmoves hfinal hdeleted
    refine Transfers.least (heldSlots clusterNodes) (List.nodup_dedup
      ((pairingStart finalNodes toBeDelNodes clusterNodes).srcs.map SrcNode.addr)) hamount ?_ ?_ hmoves ?_
    · exact fun u hu => List.mem_dedup.mpr (h.ends hu).2.1
    · intro u hu hmem
      exact src_not_dst hall (List.mem_dedup.mp hmem) (h.ends hu).2.2
    · intro addr hmem
      rcases src_known (List.mem_dedup.mp hmem) with ⟨i, hi, rfl⟩ | hgoes
      · rw [hfinal i hi, h.run_final hall hsettled hi]
      · rw [hdeleted addr hgoes, h.run_deleted hall hsettled hgoes]

end Settled

/-- The plan of a cluster whose slots are all with nodes that stay or go is made, and is exact. -/
theorem redisClusterRebalanceSlot_exact (job : ClusterMigrateSlots) (o : RangeOrder ClusterNodeData)
    (runningNodes clusterNodes : List ClusterNodeData)
    (h : AllOwned (job.getMigrateNodes o runningNodes).1 (job.getMigrateNodes o runningNodes).2
      clusterNodes) :
    ∃ fuel tasks, job.redisClusterRebalanceSlot o runningNodes clusterNodes fuel =
        .ok (.returned tasks) ∧
      ExactPlan (job.getMigrateNodes o runningNodes).1 (job.getMigrateNodes o runningNodes).2
        clusterNodes tasks := by
  obtain ⟨s, hreturned, hledger, hsettled⟩ :=
    pairing_settles pairingStart_sound rfl (pairingStart_settled h) (Nat.lt_succ_self _)
  have hlen : (job.getMigrateNodes o runningNodes).1.length ≠ 0 :=
    fun hzero => h.kept (List.length_eq_zero_iff.mp hzero)
  refine ⟨(pairingStart (job.getMigrateNodes o runningNodes).1
    (job.getMigrateNodes o runningNodes).2 clusterNodes).dsts.length + 1, s.migrateTasks, ?_,
      hledger.exactPlan h hsettled⟩
  unfold ClusterMigrateSlots.redisClusterRebalanceSlot
  dsimp only
  rw [if_neg hlen, hreturned]
  rfl

/-- One master has all slots and goes; two stay. -/
def firstHasAll : List ClusterNodeData :=
  [⟨"10.0.0.1:6379", "10.0.0.1", 6379, "master", [], "connected", List.range totalSlots⟩,
    ⟨"10.0.0.2:6379", "10.0.0.2", 6379, "master", [], "connected", []⟩,
    ⟨"10.0.0.3:6379", "10.0.0.3", 6379, "master", [], "connected", []⟩]

theorem redisClusterRebalanceSlot_firstHasAll : ∃ fuel tasks,
    firstGoes.redisClusterRebalanceSlot .still firstHasAll firstHasAll fuel = .ok (.returned tasks) ∧
      ExactPlan (firstGoes.getMigrateNodes .still firstHasAll).1
        (firstGoes.getMigrateNodes .still firstHasAll).2 firstHasAll tasks := by
  refine redisClusterRebalanceSlot_exact firstGoes .still firstHasAll firstHasAll ?_
  have hsplit : firstGoes.getMigrateNodes .still firstHasAll =
      (["10.0.0.3:6379", "10.0.0.2:6379"], ["10.0.0.1:6379"]) := by decide
  have haddrs : (masters firstHasAll).map ClusterNodeData.addr =
      ["10.0.0.1:6379", "10.0.0.2:6379", "10.0.0.3:6379"] := rfl
  have hdistinct : ((masters firstHasAll).map ClusterNodeData.addr).Nodup := by
    rw [haddrs]
    decide
  rw [hsplit]
  refine ⟨List.cons_ne_nil _ _, by decide, by decide, hdistinct, ?_, ?_⟩
  · have hmasters : masters firstHasAll = firstHasAll := rfl
    rw [hmasters]
    simp [firstHasAll]
  · intro node hnode hslots
    simp only [masters, firstHasAll, List.mem_filter, List.mem_cons, List.not_mem_nil, or_false] at hnode
    rcases hnode.1 with rfl | rfl | rfl
    · exact Or.inr List.mem_cons_self
    · exact absurd rfl hslots
    · exact absurd rfl hslots

end Exact

end Migration
