import BluekingDbm.Library.Ranging
import BluekingDbm.Library.Table
import BluekingDbm.Library.Text

/-! A redis cluster as its nodes list it, and the nodes that a job keeps and deletes. -/
namespace Migration

def defaultMaxSlots : ℕ := 16383

def redisMasterRole : String := "master"

def redisLinkStateConnected : String := "connected"

/-- One line of the listing. `slotsMap` is read from the same slots. -/
structure ClusterNodeData where
  addr : String
  ip : String
  port : ℤ
  role : String
  failStatus : List String
  linkState : String
  slots : List ℕ
deriving DecidableEq

def ClusterNodeData.slotsMap (node : ClusterNodeData) (slot : ℕ) : Bool := decide (slot ∈ node.slots)

/-- The node listed last at each address. -/
def getAddrMapToNodes (clusterNodes : List ClusterNodeData) : AList fun _ : String => ClusterNodeData :=
  clusterNodes.foldl (fun m node => m.insert node.addr node) ∅

def getRunningMasters (clusterNodes : List ClusterNodeData) :
    AList fun _ : String => ClusterNodeData :=
  Table.keep (getAddrMapToNodes clusterNodes) fun node =>
    decide (node.failStatus.length = 0 ∧ node.role = redisMasterRole)

/-- The parameters of the job that the plan depends on. -/
structure ClusterMigrateSlots where
  dstNodeAddr : String
  isDeleteNode : Bool
  toBeDelNodesAddr : List String

/-- The addresses that stay and those that go. -/
def ClusterMigrateSlots.getMigrateNodes (job : ClusterMigrateSlots) (r : RangeOrder ClusterNodeData)
    (clusterNodes : List ClusterNodeData) : List String × List String :=
  let runningMasterNodesAddr := (r.order (Table.values (getRunningMasters clusterNodes))).map
    fun node => node.ip ++ ":" ++ Text.decimal node.port
  let toBeDelNodesAddr :=
    if job.isDeleteNode then
      if job.toBeDelNodesAddr.length ≠ 0 then job.toBeDelNodesAddr else [job.dstNodeAddr]
    else []
  (runningMasterNodesAddr.filter fun addr => decide (addr ∉ toBeDelNodesAddr), toBeDelNodesAddr)

/-- An address leads to the node it was entered for. -/
theorem addr_of_addrMap {clusterNodes : List ClusterNodeData} {e : Sigma fun _ : String => ClusterNodeData}
    (he : e ∈ (getAddrMapToNodes clusterNodes).entries) : e.2.addr = e.1 ∧ e.2 ∈ clusterNodes := by
  have hrun : ∀ (done rest : List ClusterNodeData) (m : AList fun _ : String => ClusterNodeData),
      (∀ k node, m.lookup k = some node → node.addr = k ∧ node ∈ done) →
      ∀ k node, (rest.foldl (fun m node => m.insert node.addr node) m).lookup k = some node →
        node.addr = k ∧ node ∈ done ++ rest := by
    intro done rest
    induction rest generalizing done with
    | nil =>
      intro m hm
      simpa using hm
    | cons x rest ih =>
      intro m hm
      have hstep : ∀ k node, (m.insert x.addr x).lookup k = some node →
          node.addr = k ∧ node ∈ done ++ [x] := by
        intro k node hk
        rcases eq_or_ne k x.addr with rfl | hne
        · rw [AList.lookup_insert] at hk
          obtain rfl := Option.some.inj hk
          exact ⟨rfl, by simp⟩
        · rw [AList.lookup_insert_ne hne] at hk
          obtain ⟨haddr, hmem⟩ := hm k node hk
          exact ⟨haddr, List.mem_append_left _ hmem⟩
      simpa using ih (done ++ [x]) _ hstep
  have hempty : ∀ k node, (∅ : AList fun _ : String => ClusterNodeData).lookup k = some node →
      node.addr = k ∧ node ∈ ([] : List ClusterNodeData) := by
    intro k node hk
    rw [AList.lookup_empty] at hk
    cases hk
  exact hrun [] clusterNodes ∅ hempty e.1 e.2 (AList.mem_lookup_iff.mpr he)

section Addresses

variable {job : ClusterMigrateSlots} {r : RangeOrder ClusterNodeData}
  {clusterNodes : List ClusterNodeData} {node : ClusterNodeData}

theorem mem_getRunningMasters (h : node ∈ Table.values (getRunningMasters clusterNodes)) :
    node ∈ clusterNodes ∧ node.failStatus = [] ∧ node.role = redisMasterRole := by
  obtain ⟨k, hk⟩ := Table.mem_values.mp h
  obtain ⟨hmem, hrunning⟩ := List.mem_filter.mp hk
  obtain ⟨hfail, hrole⟩ := of_decide_eq_true hrunning
  exact ⟨(addr_of_addrMap hmem).2, List.length_eq_zero_iff.mp hfail, hrole⟩

/-- No address is kept twice, if addresses are written `ip:port`. -/
theorem finalNodes_nodup (haddr : ∀ node ∈ clusterNodes, node.failStatus = [] →
    node.role = redisMasterRole → node.ip ++ ":" ++ Text.decimal node.port = node.addr) :
    (job.getMigrateNodes r clusterNodes).1.Nodup := by
  refine List.Nodup.filter _ ?_
  have hnodup : ((Table.values (getRunningMasters clusterNodes)).map ClusterNodeData.addr).Nodup := by
    have hkeys : (Table.values (getRunningMasters clusterNodes)).map ClusterNodeData.addr =
        (getRunningMasters clusterNodes).keys := by
      rw [Table.values, List.map_map]
      refine List.map_congr_left ?_
      intro e he
      exact (addr_of_addrMap (List.mem_filter.mp he).1).1
    rw [hkeys]
    exact AList.keys_nodup _
  have hsame : (r.order (Table.values (getRunningMasters clusterNodes))).map
      (fun node => node.ip ++ ":" ++ Text.decimal node.port) =
        (r.order (Table.values (getRunningMasters clusterNodes))).map ClusterNodeData.addr := by
    refine List.map_congr_left ?_
    intro node hnode
    obtain ⟨hmem, hfail, hrole⟩ := mem_getRunningMasters (r.mem_order.mp hnode)
    exact haddr node hmem hfail hrole
  rw [hsame]
  exact ((r.perm _).map _).nodup_iff.mpr hnodup

/-- No address is both kept and deleted. -/
theorem finalNodes_disjoint {addr : String} (h : addr ∈ (job.getMigrateNodes r clusterNodes).1) :
    addr ∉ (job.getMigrateNodes r clusterNodes).2 :=
  of_decide_eq_true (List.mem_filter.mp h).2

end Addresses

end Migration
