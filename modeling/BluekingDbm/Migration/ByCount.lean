import BluekingDbm.Library.Loop
import BluekingDbm.Migration.Segments
import Mathlib.Algebra.BigOperators.Group.List.Basic
import Mathlib.Algebra.Order.Group.Int
import Mathlib.Algebra.Ring.Int.Defs
import Mathlib.Tactic.Common

/-! The plan of a rebalance where only the numbers of slots count: nodes with too many are paired with
nodes with too few, in a loop that ends when every need is met or there was no source to begin with. -/
namespace Migration

open Loop (Outcome Turn iterate)

structure MigrateCount where
  srcAddr : String
  dstAddr : String
  migrateCount : ℤ
  deriving DecidableEq

structure SrcNode where
  addr : String
  remain : ℤ

structure DstNode where
  addr : String
  need : ℤ

/-- The slots of the first master listed at the address. -/
def curSlots (clusterNodes : List ClusterNodeData) (addr : String) : ℕ :=
  match clusterNodes.find? fun node => decide (node.role = redisMasterRole ∧ node.addr = addr) with
  | some node => node.slots.length
  | none => 0

def masters (clusterNodes : List ClusterNodeData) : List ClusterNodeData :=
  clusterNodes.filter fun node => decide (node.role = redisMasterRole)

def toBeDelMasters (toBeDelNodes : List String) (clusterNodes : List ClusterNodeData) :
    List ClusterNodeData :=
  (masters clusterNodes).filter fun node => decide (node.addr ∈ toBeDelNodes)

def slotsOf (nodes : List ClusterNodeData) : ℕ := (nodes.map fun node => node.slots.length).sum

/-- Scaling down counts the slots that are there; otherwise there are all of them. -/
def totalSlotsInCluster (toBeDelNodes : List String) (clusterNodes : List ClusterNodeData) : ℕ :=
  if 0 < slotsOf (toBeDelMasters toBeDelNodes clusterNodes) then slotsOf (masters clusterNodes)
  else totalSlots

/-- The first nodes take one slot of the remainder each. -/
def expectedSlots (total count i : ℕ) : ℕ :=
  if i < total % count then total / count + 1 else total / count

/-- Each node with its surplus, which is negative where slots are missing. -/
def balances (finalNodes toBeDelNodes : List String) (clusterNodes : List ClusterNodeData) :
    List (String × ℤ) :=
  finalNodes.zipIdx.map fun (addr, i) =>
    (addr, (curSlots clusterNodes addr : ℤ) -
      expectedSlots (totalSlotsInCluster toBeDelNodes clusterNodes) finalNodes.length i)

def surplus (b : String × ℤ) : Option SrcNode := if 0 < b.2 then some ⟨b.1, b.2⟩ else none

def shortage (b : String × ℤ) : Option DstNode := if b.2 < 0 then some ⟨b.1, -b.2⟩ else none

/-- Everything of a node to be deleted has to go. -/
def leaving (node : ClusterNodeData) : Option SrcNode :=
  if 0 < node.slots.length then some ⟨node.addr, node.slots.length⟩ else none

structure Pairing where
  srcs : List SrcNode
  dsts : List DstNode
  migrateTasks : List MigrateCount

def pairingStart (finalNodes toBeDelNodes : List String) (clusterNodes : List ClusterNodeData) :
    Pairing where
  srcs := (balances finalNodes toBeDelNodes clusterNodes).filterMap surplus ++
    (toBeDelMasters toBeDelNodes clusterNodes).filterMap leaving
  dsts := (balances finalNodes toBeDelNodes clusterNodes).filterMap shortage
  migrateTasks := []

/-- The pass over the sources for one destination: the sources and the need that are left, and the
tasks. -/
def drawFrom (dstAddr : String) (need : ℤ) : List SrcNode → List SrcNode × ℤ × List MigrateCount
  | [] => ([], need, [])
  | src :: srcs =>
    if src.remain ≤ 0 then
      let (srcs, need, tasks) := drawFrom dstAddr need srcs
      (src :: srcs, need, tasks)
    else if need ≤ 0 then (src :: srcs, need, [])
    else
      let migrateCount := if need < src.remain then need else src.remain
      let (srcs, need, tasks) := drawFrom dstAddr (need - migrateCount) srcs
      ({ src with remain := src.remain - migrateCount } :: srcs, need,
        ⟨src.addr, dstAddr, migrateCount⟩ :: tasks)

/-- Exhausted sources stay in the list. -/
def pairTurn (s : Pairing) : Outcome (Turn Pairing) :=
  match s.dsts with
  | [] => .returned (.leave s)
  | dst :: dsts =>
    if s.srcs = [] then .returned (.leave s)
    else if dst.need ≤ 0 then .returned (.again { s with dsts := dsts })
    else
      let (srcs, need, tasks) := drawFrom dst.addr dst.need s.srcs
      .returned (.again ⟨srcs, if need ≤ 0 then dsts else { dst with need := need } :: dsts,
        s.migrateTasks ++ tasks⟩)

/-- The tasks after at most `fuel` turns of the loop. -/
def ClusterMigrateSlots.redisClusterRebalanceSlot (job : ClusterMigrateSlots)
    (o : RangeOrder ClusterNodeData) (runningNodes clusterNodes : List ClusterNodeData) (fuel : ℕ) :
    Except String (Outcome (List MigrateCount)) :=
  let (finalNodes, toBeDelNodes) := job.getMigrateNodes o runningNodes
  if finalNodes.length = 0 then .error "runtime error: integer divide by zero"
  else
    .ok ((iterate pairTurn fuel (pairingStart finalNodes toBeDelNodes clusterNodes)).bind fun s =>
      .returned s.migrateTasks)

section Drawing

def supply (srcs : List SrcNode) : ℤ := (srcs.map SrcNode.remain).sum

def demand (dsts : List DstNode) : ℤ := (dsts.map DstNode.need).sum

/-- What one pass does: it moves slots from the sources to the need, and stops only when one of the two
is used up. -/
structure Drawn (srcs : List SrcNode) (need : ℤ) (srcs' : List SrcNode) (need' : ℤ) : Prop where
  nonneg : ∀ src ∈ srcs', 0 ≤ src.remain
  conserved : supply srcs' + need = supply srcs + need'
  unmet : 0 ≤ need'
  usedUp : need' = 0 ∨ supply srcs' = 0
  length : srcs'.length = srcs.length

variable {srcs : List SrcNode} {dsts : List DstNode} {need : ℤ} {dstAddr : String}

@[simp] theorem supply_nil : supply [] = 0 := rfl

@[simp] theorem supply_cons (src : SrcNode) (srcs : List SrcNode) :
    supply (src :: srcs) = src.remain + supply srcs := List.sum_cons

@[simp] theorem demand_nil : demand [] = 0 := rfl

@[simp] theorem demand_cons (dst : DstNode) (dsts : List DstNode) :
    demand (dst :: dsts) = dst.need + demand dsts := List.sum_cons

theorem supply_nonneg (h : ∀ src ∈ srcs, 0 ≤ src.remain) : 0 ≤ supply srcs := by
  induction srcs with
  | nil => exact le_rfl
  | cons src srcs ih =>
    obtain ⟨hsrc, hsrcs⟩ := List.forall_mem_cons.mp h
    have hrest := ih hsrcs
    rw [supply_cons]
    omega

theorem demand_nonneg (h : ∀ dst ∈ dsts, 0 ≤ dst.need) : 0 ≤ demand dsts := by
  induction dsts with
  | nil => exact le_rfl
  | cons dst dsts ih =>
    obtain ⟨hdst, hdsts⟩ := List.forall_mem_cons.mp h
    have hrest := ih hdsts
    rw [demand_cons]
    omega

theorem drawFrom_drawn (hneed : 0 ≤ need) (h : ∀ src ∈ srcs, 0 ≤ src.remain) :
    Drawn srcs need (drawFrom dstAddr need srcs).1 (drawFrom dstAddr need srcs).2.1 := by
  induction srcs generalizing need with
  | nil => exact ⟨h, rfl, hneed, .inr rfl, rfl⟩
  | cons src srcs ih =>
    obtain ⟨hsrc, hsrcs⟩ := List.forall_mem_cons.mp h
    rw [drawFrom]
    split
    · -- an exhausted source is passed over
      have hrest := ih hneed hsrcs
      generalize drawFrom dstAddr need srcs = out at hrest ⊢
      obtain ⟨srcs', need', tasks⟩ := out
      obtain ⟨hnonneg, hconserved, hunmet, husedUp, hlength⟩ := hrest
      dsimp only at hnonneg hconserved hunmet husedUp hlength ⊢
      refine ⟨List.forall_mem_cons.mpr ⟨hsrc, hnonneg⟩, ?_, hunmet, ?_, congrArg (· + 1) hlength⟩
      · rw [supply_cons, supply_cons]
        omega
      · rw [supply_cons]
        omega
    · split
      · exact ⟨h, rfl, hneed, .inl (by dsimp only; omega), rfl⟩
      · dsimp only
        generalize hcount : (if need < src.remain then need else src.remain) = migrateCount
        have hbounds : migrateCount ≤ need ∧ migrateCount ≤ src.remain ∧
            (migrateCount = need ∨ migrateCount = src.remain) := by
          split at hcount
          · omega
          · omega
        have hrest := @ih (need - migrateCount) (by omega) hsrcs
        generalize drawFrom dstAddr (need - migrateCount) srcs = out at hrest ⊢
        obtain ⟨srcs', need', tasks⟩ := out
        obtain ⟨hnonneg, hconserved, hunmet, husedUp, hlength⟩ := hrest
        dsimp only at hnonneg hconserved hunmet husedUp hlength ⊢
        have hsupply := supply_nonneg hnonneg
        have hall := supply_nonneg hsrcs
        refine ⟨List.forall_mem_cons.mpr ⟨by dsimp only; omega, hnonneg⟩, ?_, hunmet, ?_,
          congrArg (· + 1) hlength⟩
        · rw [supply_cons, supply_cons]
          dsimp only
          omega
        · rw [supply_cons]
          dsimp only
          omega

end Drawing

section Turns

variable {s : Pairing} {fuel : ℕ}

/-- Nothing is negative. -/
structure Sound (s : Pairing) : Prop where
  remain : ∀ src ∈ s.srcs, 0 ≤ src.remain
  need : ∀ dst ∈ s.dsts, 0 ≤ dst.need

/-- What a turn does where there is a destination and a source. -/
theorem pairTurn_cases (h : Sound s) :
    (pairTurn s = .returned (.leave s) ∧ (s.dsts = [] ∨ s.srcs = [])) ∨
    ∃ t, pairTurn s = .returned (.again t) ∧ Sound t ∧ s.srcs ≠ [] ∧ t.srcs ≠ [] ∧
      supply t.srcs + demand s.dsts = supply s.srcs + demand t.dsts ∧
      (t.dsts.length < s.dsts.length ∨ supply t.srcs = 0 ∧ 0 < demand t.dsts) := by
  obtain ⟨hremain, hneed⟩ := h
  unfold pairTurn
  cases hdsts : s.dsts with
  | nil => exact .inl ⟨rfl, .inl rfl⟩
  | cons dst dsts =>
    dsimp only
    by_cases hsrcs : s.srcs = []
    · rw [if_pos hsrcs]
      exact .inl ⟨rfl, .inr hsrcs⟩
    · rw [hdsts] at hneed
      obtain ⟨hdst, hrest⟩ := List.forall_mem_cons.mp hneed
      rw [if_neg hsrcs]
      right
      by_cases hmet : dst.need ≤ 0
      · rw [if_pos hmet]
        refine ⟨_, rfl, ⟨hremain, hrest⟩, hsrcs, hsrcs, ?_, .inl (Nat.lt_succ_self _)⟩
        dsimp only
        rw [demand_cons]
        omega
      · have hdrawn := @drawFrom_drawn s.srcs dst.need dst.addr hdst hremain
        rw [if_neg hmet]
        generalize drawFrom dst.addr dst.need s.srcs = out at hdrawn
        obtain ⟨srcs, need, tasks⟩ := out
        obtain ⟨hnonneg, hconserved, hunmet, husedUp, hlength⟩ := hdrawn
        dsimp only at hnonneg hconserved hunmet husedUp hlength ⊢
        have hsome : srcs ≠ [] := by
          rw [Ne, ← List.length_eq_zero_iff, hlength, List.length_eq_zero_iff]
          exact hsrcs
        by_cases hleft : need ≤ 0
        · rw [if_pos hleft]
          refine ⟨_, rfl, ⟨hnonneg, hrest⟩, hsrcs, hsome, ?_, .inl (Nat.lt_succ_self _)⟩
          dsimp only
          rw [demand_cons]
          omega
        · have hdemand := demand_nonneg hrest
          rw [if_neg hleft]
          refine ⟨_, rfl, ⟨hnonneg, List.forall_mem_cons.mpr ⟨hunmet, hrest⟩⟩, hsrcs, hsome, ?_, .inr ?_⟩
          · dsimp only
            rw [demand_cons, demand_cons]
            dsimp only
            omega
          · dsimp only
            rw [demand_cons]
            dsimp only
            omega

/-- A loop with enough in its sources, or with none, returns. -/
theorem pairing_returns (h : Sound s) (hsupply : s.srcs = [] ∨ demand s.dsts ≤ supply s.srcs)
    (hfuel : s.dsts.length < fuel) : (iterate pairTurn fuel s).Returns fun _ => True := by
  refine Loop.iterate_returns
    (fun s : Pairing => Sound s ∧ (s.srcs = [] ∨ demand s.dsts ≤ supply s.srcs))
    (fun s : Pairing => s.dsts.length) ?_ ⟨h, hsupply⟩ hfuel
  rintro s ⟨hsound, hsupply⟩
  rcases pairTurn_cases hsound with ⟨hleave, -⟩ | ⟨t, hagain, ht, hsrcs, -, hbalance, hprogress⟩
  · exact ⟨_, hleave, trivial⟩
  · have hle := hsupply.resolve_left hsrcs
    refine ⟨_, hagain, ⟨ht, .inr (by omega)⟩, ?_⟩
    rcases hprogress with hshort | ⟨hzero, hpos⟩
    · exact hshort
    · omega

/-- A loop whose sources run dry never returns. -/
theorem pairing_spins (h : Sound s) (hsrcs : s.srcs ≠ []) (hdry : supply s.srcs < demand s.dsts) :
    (iterate pairTurn fuel s).Ensures fun _ => False := by
  refine Loop.iterate_ensures
    (fun s : Pairing => Sound s ∧ s.srcs ≠ [] ∧ supply s.srcs < demand s.dsts) ?_ ⟨h, hsrcs, hdry⟩
  rintro s ⟨hsound, hsrcs, hdry⟩
  apply Outcome.Returns.ensures
  rcases pairTurn_cases hsound with ⟨-, hnone | hnone⟩ | ⟨t, hagain, ht, -, hsome, hbalance, -⟩
  · have hsupply := supply_nonneg hsound.remain
    rw [hnone, demand_nil] at hdry
    omega
  · exact absurd hnone hsrcs
  · exact ⟨_, hagain, ht, hsome, by omega⟩

end Turns

section Shares

variable {finalNodes toBeDelNodes : List String} {clusterNodes : List ClusterNodeData}
  {bs : List (String × ℤ)} {total count : ℕ}

/-- The slots of the nodes that stay. -/
def keptSlots (finalNodes : List String) (clusterNodes : List ClusterNodeData) : ℕ :=
  (finalNodes.map (curSlots clusterNodes)).sum

/-- Nobody who stays has more than its share, and what goes has nothing. -/
def NoSource (finalNodes toBeDelNodes : List String) (clusterNodes : List ClusterNodeData) : Prop :=
  (∀ b ∈ balances finalNodes toBeDelNodes clusterNodes, b.2 ≤ 0) ∧
    slotsOf (toBeDelMasters toBeDelNodes clusterNodes) = 0

/-- The nodes that stay and those that go have the slots that are shared out. -/
def Supplied (finalNodes toBeDelNodes : List String) (clusterNodes : List ClusterNodeData) : Prop :=
  totalSlotsInCluster toBeDelNodes clusterNodes ≤
    keptSlots finalNodes clusterNodes + slotsOf (toBeDelMasters toBeDelNodes clusterNodes)

theorem surplus_sub_shortage :
    supply (bs.filterMap surplus) - demand (bs.filterMap shortage) = (bs.map Prod.snd).sum := by
  induction bs with
  | nil => rfl
  | cons b bs ih =>
    rw [List.map_cons, List.sum_cons]
    rcases lt_trichotomy b.2 0 with hneg | hzero | hpos
    · have hsurplus : surplus b = none := if_neg (by omega)
      have hshortage : shortage b = some ⟨b.1, -b.2⟩ := if_pos hneg
      rw [List.filterMap_cons_none hsurplus, List.filterMap_cons_some hshortage, demand_cons]
      dsimp only
      omega
    · have hsurplus : surplus b = none := if_neg (by omega)
      have hshortage : shortage b = none := if_neg (by omega)
      rw [List.filterMap_cons_none hsurplus, List.filterMap_cons_none hshortage]
      omega
    · have hsurplus : surplus b = some ⟨b.1, b.2⟩ := if_pos hpos
      have hshortage : shortage b = none := if_neg (by omega)
      rw [List.filterMap_cons_some hsurplus, List.filterMap_cons_none hshortage, supply_cons]
      dsimp only
      omega

theorem supply_leaving (nodes : List ClusterNodeData) :
    supply (nodes.filterMap leaving) = slotsOf nodes := by
  induction nodes with
  | nil => rfl
  | cons node nodes ih =>
    have hslots : slotsOf (node :: nodes) = node.slots.length + slotsOf nodes := List.sum_cons
    by_cases hpos : 0 < node.slots.length
    · have hleaving : leaving node = some ⟨node.addr, node.slots.length⟩ := if_pos hpos
      rw [List.filterMap_cons_some hleaving, supply_cons, ih, hslots]
      push_cast
      rfl
    · have hleaving : leaving node = none := if_neg hpos
      rw [List.filterMap_cons_none hleaving, ih, hslots]
      omega

/-- The shares of some nodes in a row. -/
theorem sum_shares (cur : String → ℕ) (l : List String) (k : ℕ) :
    ((l.zipIdx k).map fun p => (cur p.1 : ℤ) - expectedSlots total count p.2).sum =
      (l.map cur).sum -
        (((k + l.length) * (total / count) + min (k + l.length) (total % count) : ℕ) -
          (k * (total / count) + min k (total % count) : ℕ) : ℤ) := by
  induction l generalizing k with
  | nil => simp
  | cons addr l ih =>
    have hnext : (k + 1) * (total / count) + min (k + 1) (total % count) =
        k * (total / count) + min k (total % count) + expectedSlots total count k := by
      have hmul : (k + 1) * (total / count) = k * (total / count) + total / count := Nat.succ_mul ..
      unfold expectedSlots
      split
      · omega
      · omega
    have hlen : k + 1 + l.length = k + (addr :: l).length := by
      rw [List.length_cons]
      omega
    rw [List.zipIdx_cons, List.map_cons, List.sum_cons, ih, List.map_cons, List.sum_cons, hlen, hnext]
    push_cast
    omega

/-- All shares together are the slots that are shared out. -/
theorem sum_balances (hsome : finalNodes ≠ []) :
    ((balances finalNodes toBeDelNodes clusterNodes).map Prod.snd).sum =
      (keptSlots finalNodes clusterNodes : ℤ) - totalSlotsInCluster toBeDelNodes clusterNodes := by
  have hpos := List.length_pos_iff.mpr hsome
  have hsum := @sum_shares (totalSlotsInCluster toBeDelNodes clusterNodes) finalNodes.length
    (curSlots clusterNodes) finalNodes 0
  have hmod : totalSlotsInCluster toBeDelNodes clusterNodes % finalNodes.length <
    finalNodes.length := Nat.mod_lt _ hpos
  have hdiv := Nat.div_add_mod (totalSlotsInCluster toBeDelNodes clusterNodes) finalNodes.length
  rw [Nat.zero_add, min_eq_right hmod.le, hdiv, Nat.zero_mul, Nat.zero_min] at hsum
  rw [balances, List.map_map]
  exact hsum.trans (by rw [keptSlots]; omega)

theorem pairingStart_sound : Sound (pairingStart finalNodes toBeDelNodes clusterNodes) := by
  constructor
  · intro src hsrc
    rcases List.mem_append.mp hsrc with hsrc | hsrc
    · obtain ⟨b, -, hb⟩ := List.mem_filterMap.mp hsrc
      unfold surplus at hb
      split at hb
      · cases hb
        dsimp only
        omega
      · cases hb
    · obtain ⟨node, -, hnode⟩ := List.mem_filterMap.mp hsrc
      unfold leaving at hnode
      split at hnode
      · cases hnode
        exact Int.natCast_nonneg _
      · cases hnode
  · intro dst hdst
    obtain ⟨b, -, hb⟩ := List.mem_filterMap.mp hdst
    unfold shortage at hb
    split at hb
    · cases hb
      dsimp only
      omega
    · cases hb

theorem noSource_iff : (pairingStart finalNodes toBeDelNodes clusterNodes).srcs = [] ↔
    NoSource finalNodes toBeDelNodes clusterNodes := by
  have hleaving : ((toBeDelMasters toBeDelNodes clusterNodes).filterMap leaving = []) ↔
      slotsOf (toBeDelMasters toBeDelNodes clusterNodes) = 0 := by
    rw [List.filterMap_eq_nil_iff, slotsOf, List.sum_eq_zero_iff_forall_eq_nat, List.forall_mem_map]
    refine forall₂_congr fun node _ => ?_
    unfold leaving
    split
    · exact iff_of_false (by simp) (by omega)
    · exact iff_of_true rfl (by omega)
  have hsurplus : ((balances finalNodes toBeDelNodes clusterNodes).filterMap surplus = []) ↔
      ∀ b ∈ balances finalNodes toBeDelNodes clusterNodes, b.2 ≤ 0 := by
    rw [List.filterMap_eq_nil_iff]
    refine forall₂_congr fun b _ => ?_
    unfold surplus
    split
    · exact iff_of_false (by simp) (by omega)
    · exact iff_of_true rfl (by omega)
  unfold pairingStart NoSource
  rw [List.append_eq_nil_iff, hsurplus, hleaving]

/-- What the sources have over the needs. -/
theorem pairingStart_over (hsome : finalNodes ≠ []) :
    supply (pairingStart finalNodes toBeDelNodes clusterNodes).srcs -
        demand (pairingStart finalNodes toBeDelNodes clusterNodes).dsts =
      keptSlots finalNodes clusterNodes + slotsOf (toBeDelMasters toBeDelNodes clusterNodes) -
        totalSlotsInCluster toBeDelNodes clusterNodes := by
  have hsum := @sum_balances finalNodes toBeDelNodes clusterNodes hsome
  have hdiff := @surplus_sub_shortage (balances finalNodes toBeDelNodes clusterNodes)
  have hleaving := supply_leaving (toBeDelMasters toBeDelNodes clusterNodes)
  have happend : supply (pairingStart finalNodes toBeDelNodes clusterNodes).srcs =
      supply ((balances finalNodes toBeDelNodes clusterNodes).filterMap surplus) +
        supply ((toBeDelMasters toBeDelNodes clusterNodes).filterMap leaving) := by
    rw [pairingStart, supply, List.map_append, List.sum_append]
    rfl
  rw [happend, hleaving]
  change _ - demand ((balances finalNodes toBeDelNodes clusterNodes).filterMap shortage) = _
  omega

/-- What is left over where every need is met. -/
theorem pairingStart_balance (hsome : finalNodes ≠ []) :
    demand (pairingStart finalNodes toBeDelNodes clusterNodes).dsts ≤
      supply (pairingStart finalNodes toBeDelNodes clusterNodes).srcs ↔
    Supplied finalNodes toBeDelNodes clusterNodes := by
  have hover := @pairingStart_over finalNodes toBeDelNodes clusterNodes hsome
  rw [Supplied]
  omega

end Shares

section Stopping

variable {job : ClusterMigrateSlots} {o : RangeOrder ClusterNodeData}
  {runningNodes clusterNodes : List ClusterNodeData}

/-- The planning ends, without a panic, in some number of turns. -/
def ClusterMigrateSlots.PlanStops (job : ClusterMigrateSlots) (o : RangeOrder ClusterNodeData)
    (runningNodes clusterNodes : List ClusterNodeData) : Prop :=
  ∃ fuel tasks, job.redisClusterRebalanceSlot o runningNodes clusterNodes fuel =
    .ok (.returned tasks)

theorem planStops_pairing (hsome : (job.getMigrateNodes o runningNodes).1 ≠ []) :
    job.PlanStops o runningNodes clusterNodes ↔
      ∃ fuel s, iterate pairTurn fuel (pairingStart (job.getMigrateNodes o runningNodes).1
        (job.getMigrateNodes o runningNodes).2 clusterNodes) = .returned s := by
  have hlen : (job.getMigrateNodes o runningNodes).1.length ≠ 0 :=
    fun h => hsome (List.length_eq_zero_iff.mp h)
  unfold ClusterMigrateSlots.PlanStops ClusterMigrateSlots.redisClusterRebalanceSlot
  dsimp only
  simp only [if_neg hlen, Except.ok.injEq]
  refine exists_congr fun fuel => ?_
  generalize iterate pairTurn fuel _ = out
  cases out with
  | returned s => simp [Outcome.bind]
  | blocked => simp [Outcome.bind]
  | outOfFuel => simp [Outcome.bind]

/-- Without a master that stays the division panics; without the slots that are shared out the loop
spins. -/
theorem planStops_iff (job : ClusterMigrateSlots) (o : RangeOrder ClusterNodeData)
    (runningNodes clusterNodes : List ClusterNodeData) :
    job.PlanStops o runningNodes clusterNodes ↔
      (job.getMigrateNodes o runningNodes).1 ≠ [] ∧
        (NoSource (job.getMigrateNodes o runningNodes).1 (job.getMigrateNodes o runningNodes).2
            clusterNodes ∨
          Supplied (job.getMigrateNodes o runningNodes).1 (job.getMigrateNodes o runningNodes).2
            clusterNodes) := by
  by_cases hsome : (job.getMigrateNodes o runningNodes).1 = []
  · refine iff_of_false ?_ fun h => h.1 hsome
    rintro ⟨fuel, tasks, hplan⟩
    have hlen : (job.getMigrateNodes o runningNodes).1.length = 0 := by rw [hsome]; rfl
    unfold ClusterMigrateSlots.redisClusterRebalanceSlot at hplan
    dsimp only at hplan
    rw [if_pos hlen] at hplan
    cases hplan
  · rw [planStops_pairing hsome, and_iff_right hsome, ← noSource_iff, ← pairingStart_balance hsome]
    generalize hstart : pairingStart (job.getMigrateNodes o runningNodes).1
      (job.getMigrateNodes o runningNodes).2 clusterNodes = s
    have hsound : Sound s := hstart ▸ pairingStart_sound
    constructor
    · rintro ⟨fuel, t, hreturned⟩
      by_contra hnot
      obtain ⟨hsrcs, hdry⟩ := not_or.mp hnot
      exact pairing_spins hsound hsrcs (not_le.mp hdry) t hreturned
    · intro hsupply
      obtain ⟨t, hreturned, -⟩ := pairing_returns hsound hsupply (Nat.lt_succ_self _)
      exact ⟨_, t, hreturned⟩

/-- One master that goes, one that stays, and one that has failed with a slot of its own. -/
def failedMaster : List ClusterNodeData :=
  [⟨"10.0.0.1:6379", "10.0.0.1", 6379, "master", [], "connected", [0]⟩,
    ⟨"10.0.0.2:6379", "10.0.0.2", 6379, "master", [], "connected", []⟩,
    ⟨"10.0.0.3:6379", "10.0.0.3", 6379, "master", ["fail"], "disconnected", [1]⟩]

def firstGoes : ClusterMigrateSlots := ⟨"10.0.0.1:6379", true, ["10.0.0.1:6379"]⟩

/-- The slot of the failed master is counted as a need that nobody meets. -/
theorem failedMaster_spins : ¬ firstGoes.PlanStops .still failedMaster failedMaster := by
  have hsplit : firstGoes.getMigrateNodes .still failedMaster =
      (["10.0.0.2:6379"], ["10.0.0.1:6379"]) := by decide
  have hsome : (firstGoes.getMigrateNodes .still failedMaster).1 ≠ [] := by
    rw [hsplit]
    exact List.cons_ne_nil _ _
  have hstart : pairingStart ["10.0.0.2:6379"] ["10.0.0.1:6379"] failedMaster =
      ⟨[⟨"10.0.0.1:6379", 1⟩], [⟨"10.0.0.2:6379", 2⟩], []⟩ := by rfl
  rw [planStops_pairing hsome, hsplit, hstart]
  rintro ⟨fuel, s, hreturned⟩
  refine pairing_spins ⟨?_, ?_⟩ (List.cons_ne_nil _ _) ?_ s hreturned
  · decide
  · decide
  · decide

end Stopping

end Migration
