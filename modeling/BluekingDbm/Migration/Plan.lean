import BluekingDbm.Library.Grouping
import BluekingDbm.Migration.Segments

/-! The plan of a rebalance: which node shall have which segment, and the slots to be moved for it. -/
namespace Migration

structure MigrateSomeSlots where
  srcAddr : String
  dstAddr : String
  migrateSlots : List ℕ
deriving DecidableEq

/-- How many slots of a segment a node has. -/
structure NodeSegStat where
  addr : String
  segIdx : ℕ
  matchCount : ℕ

structure Seg where
  idx : ℕ
  count : ℕ

/-- The segments given away, and to whom. -/
structure Plan where
  segmentIsChose : ℕ → Bool
  node2Segment : AList fun _ : String => ℕ

/-- What sorting leaves open and the order of the shuffled tasks. The shuffle also covers the orders in
which maps are ranged over. -/
structure Choices where
  masters : RangeOrder ClusterNodeData
  nodes : RangeOrder ClusterNodeData
  stats : RangeOrder NodeSegStat
  segs : String → RangeOrder Seg
  shuffle : RangeOrder MigrateSomeSlots

def Plan.start : Plan := ⟨fun _ => false, ∅⟩

def Plan.choose (p : Plan) (addr : String) (segIdx : ℕ) : Plan where
  segmentIsChose := Function.update p.segmentIsChose segIdx true
  node2Segment := p.node2Segment.insert addr segIdx

def isMaster (node : ClusterNodeData) : Bool := decide (node.role = redisMasterRole)

/-- Which master lists a slot; the last one if there were several. -/
def slotSrcNodeMap (clusterNodes : List ClusterNodeData) : ℕ → Option String :=
  (clusterNodes.filter isMaster).foldl (fun m node => node.slots.foldl
    (fun m slot => Function.update m slot (some node.addr)) m) fun _ => none

/-- The address at which a slot is looked for. -/
def slotSrc (clusterNodes : List ClusterNodeData) (slot : ℕ) : String :=
  (slotSrcNodeMap clusterNodes slot).getD ""

def matchCount (node : ClusterNodeData) (n idx slotCount : ℕ) : ℕ :=
  (segmentSlots n idx slotCount).countP node.slotsMap

/-- The masters that stay. -/
def finalMasters (finalNodes : List String) (clusterNodes : List ClusterNodeData) :
    List ClusterNodeData :=
  (clusterNodes.filter isMaster).filter fun node => decide (node.addr ∈ finalNodes)

/-- One task for each source of the slots that the node does not have yet. -/
def tasksInto (src : ℕ → String) (addr : String) (slots : List ℕ) : List MigrateSomeSlots :=
  (Grouping.gather src (slots.filter fun slot => decide (src slot ≠ addr))).entries.map fun e =>
    ⟨e.1, addr, e.2⟩

/-- Scaling down: the best match of all goes first; nodes that have chosen and segments that are
taken are passed over. -/
def Plan.greedy (p : Plan) (stat : NodeSegStat) : Plan :=
  if stat.addr ∈ p.node2Segment then p
  else if p.segmentIsChose stat.segIdx then p
  else p.choose stat.addr stat.segIdx

def allNodeSegStats (finalNodes : List String) (clusterNodes : List ClusterNodeData)
    (slotCount : ℕ) : List NodeSegStat :=
  (finalMasters finalNodes clusterNodes).flatMap fun node =>
    (List.range finalNodes.length).map fun idx =>
      ⟨node.addr, idx, matchCount node finalNodes.length idx slotCount⟩

def scaleDown (o : Choices) (finalNodes : List String) (clusterNodes : List ClusterNodeData)
    (slotCount : ℕ) : Plan × List MigrateSomeSlots :=
  let stats := o.stats.sortSlice (fun a b =>
      if a.matchCount ≠ b.matchCount then decide (a.matchCount > b.matchCount)
      else decide (a.segIdx < b.segIdx))
    (allNodeSegStats finalNodes clusterNodes slotCount)
  let plan := stats.foldl Plan.greedy Plan.start
  (plan, plan.node2Segment.entries.flatMap fun e =>
    tasksInto (slotSrc clusterNodes) e.1 (segmentSlots finalNodes.length e.2 slotCount))

/-- Scaling up: node after node takes the segment it matches best of those left. -/
def takeBest (o : Choices) (src : ℕ → String) (n slotCount : ℕ) (p : Plan × List MigrateSomeSlots)
    (node : ClusterNodeData) : Plan × List MigrateSomeSlots :=
  let nodeSlot4SegStat := (o.segs node.addr).sortSlice (fun a b => decide (a.count > b.count))
    ((List.range n).map fun idx => ⟨idx, matchCount node n idx slotCount⟩)
  match nodeSlot4SegStat.find? fun sc => !p.1.segmentIsChose sc.idx with
  | none => p
  | some sc =>
    (p.1.choose node.addr sc.idx,
      p.2 ++ tasksInto src node.addr (segmentSlots n sc.idx slotCount))

def scaleUp (o : Choices) (finalNodes : List String) (clusterNodes : List ClusterNodeData)
    (slotCount : ℕ) : Plan × List MigrateSomeSlots :=
  (finalMasters finalNodes clusterNodes).foldl
    (takeBest o (slotSrc clusterNodes) finalNodes.length slotCount) (Plan.start, [])

def targetSlotMap (plan : Plan) (n slotCount : ℕ) : AList fun _ : ℕ => String :=
  (plan.node2Segment.entries.flatMap fun e =>
    (segmentSlots n e.2 slotCount).map fun slot => (slot, e.1)).foldl
      (fun m p => m.insert p.1 p.2) ∅

def checkSlotFullCoverage (slotMap : AList fun _ : ℕ => String) : Except String Unit :=
  match slotMap.keys.find? fun slot => decide (slot > defaultMaxSlots) with
  | some slot => .error ("slot " ++ Text.decimal slot ++ " 超出 [0, " ++
      Text.decimal defaultMaxSlots ++ "] 范围")
  | none =>
    if slotMap.keys.length ≠ totalSlots then
      match (List.range totalSlots).find? fun slot => decide (slot ∉ slotMap) with
      | some slot => .error ("slot 分布不完整: 期望 " ++ Text.decimal totalSlots ++ " 个, 实际 " ++
          Text.decimal slotMap.keys.length ++ " 个, 第一个缺失 slot=" ++ Text.decimal slot)
      | none => .error ("slot 分布存在重复: 期望 " ++ Text.decimal totalSlots ++ " 个, 实际 " ++
          Text.decimal slotMap.keys.length ++ " 个")
    else .ok ()

/-- The tasks handed over for execution. The running masters are asked for first, and the listing that
the plan is made from is fetched after that; without a node to keep the division panics. -/
def ClusterMigrateSlots.reBalanceSlot (job : ClusterMigrateSlots) (o : Choices)
    (runningNodes clusterNodes : List ClusterNodeData) : Except String (List MigrateSomeSlots) :=
  let (finalNodes, toBeDelNodes) := job.getMigrateNodes o.masters runningNodes
  if finalNodes.length = 0 then .error "runtime error: integer divide by zero"
  else
    let slotCount := totalSlots / finalNodes.length
    let clusterNodes := o.nodes.sortSlice
      (fun a b => decide (a.slots.length > b.slots.length)) clusterNodes
    let (plan, migrateTasks) :=
      if toBeDelNodes.length > 0 then scaleDown o finalNodes clusterNodes slotCount
      else scaleUp o finalNodes clusterNodes slotCount
    match checkSlotFullCoverage (targetSlotMap plan finalNodes.length slotCount) with
    | .error errMsg => .error ("slot 分组计划校验失败: " ++ errMsg)
    | .ok () => .ok (o.shuffle.order migrateTasks)

end Migration
