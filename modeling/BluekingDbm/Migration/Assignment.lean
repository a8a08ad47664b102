import BluekingDbm.Library.Pairing
import BluekingDbm.Migration.Plan

/-! Scaling up and scaling down both give each node that stays a segment of its own. -/
namespace Migration

/-- The segments given away are the marked ones, each given to one of the nodes that stay. -/
structure Assigned (finalNodes : List String) (p : Plan) : Prop where
  injective : Pairing.Injective p.node2Segment
  marked : ∀ idx, p.segmentIsChose idx = true ↔ idx ∈ Table.values p.node2Segment
  inRange : ∀ idx ∈ Table.values p.node2Segment, idx < finalNodes.length
  final : p.node2Segment.keys ⊆ finalNodes

/-- The tasks that bring each node the segment it was given. -/
def Plan.tasks (src : ℕ → String) (n slotCount : ℕ) (p : Plan) : List MigrateSomeSlots :=
  p.node2Segment.entries.flatMap fun e => tasksInto src e.1 (segmentSlots n e.2 slotCount)

variable {finalNodes : List String} {p : Plan} {addr : String} {idx slotCount : ℕ}
  {clusterNodes : List ClusterNodeData} {src : ℕ → String} {o : Choices}

theorem Assigned.start : Assigned finalNodes Plan.start where
  injective := Pairing.injective_empty
  marked _ := ⟨fun h => (Bool.false_ne_true h).elim, fun h => (List.not_mem_nil h).elim⟩
  inRange _ h := (List.not_mem_nil h).elim
  final := List.nil_subset _

theorem Assigned.choose (hp : Assigned finalNodes p) (haddr : addr ∈ finalNodes)
    (hnew : addr ∉ p.node2Segment) (hidx : idx < finalNodes.length)
    (hfree : p.segmentIsChose idx = false) : Assigned finalNodes (p.choose addr idx) := by
  have hunused : idx ∉ Table.values p.node2Segment := by
    rw [← hp.marked idx, hfree]
    exact Bool.false_ne_true
  have hvalues : Table.values (p.choose addr idx).node2Segment =
      idx :: Table.values p.node2Segment := Pairing.values_insert hnew
  constructor
  · exact hp.injective.insert hnew hunused
  · intro i
    rw [hvalues, List.mem_cons, ← hp.marked i]
    rcases eq_or_ne i idx with rfl | hne
    · simp [Plan.choose]
    · simp [Plan.choose, hne]
  · intro i hi
    rw [hvalues] at hi
    rcases List.mem_cons.mp hi with rfl | hi
    · exact hidx
    · exact hp.inRange i hi
  · intro a ha
    have hkeys : (p.choose addr idx).node2Segment.keys = addr :: p.node2Segment.keys :=
      Pairing.keys_insert hnew
    rw [hkeys] at ha
    rcases List.mem_cons.mp ha with rfl | ha
    · exact haddr
    · exact hp.final ha

/-- While a node has no segment, one is left. -/
theorem Assigned.exists_free (hp : Assigned finalNodes p) (haddr : addr ∈ finalNodes)
    (hmiss : addr ∉ p.node2Segment) :
    ∃ idx < finalNodes.length, p.segmentIsChose idx = false := by
  obtain ⟨idx, hidx, hunused⟩ := Pairing.exists_free hp.final haddr hmiss
    (@List.nodup_range finalNodes.length) (by rw [List.length_range])
  refine ⟨idx, List.mem_range.mp hidx, ?_⟩
  rw [← hp.marked idx] at hunused
  exact eq_false_of_ne_true hunused

theorem Plan.tasks_choose {n : ℕ} (hnew : addr ∉ p.node2Segment) :
    (p.choose addr idx).tasks src n slotCount =
      tasksInto src addr (segmentSlots n idx slotCount) ++ p.tasks src n slotCount := by
  have hentries : (p.choose addr idx).node2Segment.entries =
      ⟨addr, idx⟩ :: p.node2Segment.entries := AList.entries_insert_of_notMem hnew
  rw [Plan.tasks, hentries, List.flatMap_cons]
  rfl

/-- Everyone who stays has a segment, and the tasks are those that go with it. -/
structure Complete (finalNodes : List String) (src : ℕ → String) (slotCount : ℕ)
    (result : Plan × List MigrateSomeSlots) : Prop where
  assigned : Assigned finalNodes result.1
  everyone : ∀ addr ∈ finalNodes, addr ∈ result.1.node2Segment
  tasks : result.2.Perm (result.1.tasks src finalNodes.length slotCount)

section Down

variable {stat : NodeSegStat} {stats : List NodeSegStat}

/-- A step passes over its item only if the node or the segment is taken already. -/
theorem Assigned.greedy (hp : Assigned finalNodes p) (haddr : stat.addr ∈ finalNodes)
    (hidx : stat.segIdx < finalNodes.length) :
    Assigned finalNodes (p.greedy stat) ∧
      (stat.addr ∈ (p.greedy stat).node2Segment ∨
        (p.greedy stat).segmentIsChose stat.segIdx = true) := by
  rw [Plan.greedy]
  split
  case isTrue hchosen => exact ⟨hp, Or.inl hchosen⟩
  case isFalse hnew =>
    split
    case isTrue htaken => exact ⟨hp, Or.inr htaken⟩
    case isFalse hfree =>
      refine ⟨hp.choose haddr hnew hidx (eq_false_of_ne_true hfree), Or.inl ?_⟩
      exact AList.mem_insert _ |>.mpr (Or.inl rfl)

/-- What is taken stays taken. -/
theorem greedy_mono :
    (addr ∈ p.node2Segment → addr ∈ (p.greedy stat).node2Segment) ∧
      (p.segmentIsChose idx = true → (p.greedy stat).segmentIsChose idx = true) := by
  rw [Plan.greedy]
  split
  case isTrue => exact ⟨id, id⟩
  case isFalse =>
    split
    case isTrue => exact ⟨id, id⟩
    case isFalse =>
      constructor
      · intro h
        exact (AList.mem_insert _).mpr (Or.inr h)
      · intro h
        by_cases hsame : idx = stat.segIdx
        · simp [Plan.choose, hsame]
        · simp [Plan.choose, hsame, h]

theorem greedyRun_mono :
    (addr ∈ p.node2Segment → addr ∈ (stats.foldl Plan.greedy p).node2Segment) ∧
      (p.segmentIsChose idx = true → (stats.foldl Plan.greedy p).segmentIsChose idx = true) := by
  induction stats generalizing p with
  | nil => exact ⟨id, id⟩
  | cons stat stats ih =>
    obtain ⟨hnode, hseg⟩ := @ih (p.greedy stat)
    obtain ⟨hnode', hseg'⟩ := @greedy_mono p addr idx stat
    exact ⟨fun h => hnode (hnode' h), fun h => hseg (hseg' h)⟩

/-- At the end no pair is left of which both could still be taken. -/
theorem Assigned.greedyRun (hp : Assigned finalNodes p)
    (hstats : ∀ stat ∈ stats, stat.addr ∈ finalNodes ∧ stat.segIdx < finalNodes.length) :
    Assigned finalNodes (stats.foldl Plan.greedy p) ∧ ∀ stat ∈ stats,
      stat.addr ∈ (stats.foldl Plan.greedy p).node2Segment ∨
        (stats.foldl Plan.greedy p).segmentIsChose stat.segIdx = true := by
  induction stats generalizing p with
  | nil => exact ⟨hp, fun stat hstat => (List.not_mem_nil hstat).elim⟩
  | cons x stats ih =>
    obtain ⟨haddr, hidx⟩ := hstats x List.mem_cons_self
    obtain ⟨hstep, htaken⟩ := hp.greedy haddr hidx
    obtain ⟨hrun, hrest⟩ := ih hstep fun stat hstat => hstats stat (List.mem_cons_of_mem _ hstat)
    rw [List.foldl_cons]
    refine ⟨hrun, ?_⟩
    rintro stat (_ | ⟨_, hstat⟩)
    · obtain ⟨hnode, hseg⟩ := @greedyRun_mono (p.greedy x) x.addr x.segIdx stats
      exact htaken.imp hnode hseg
    · exact hrest stat hstat

end Down

/-- The masters that stay are listed, each of them once. -/
def ListedOnce (finalNodes : List String) (clusterNodes : List ClusterNodeData) : Prop :=
  ∀ addr ∈ finalNodes, ((clusterNodes.filter isMaster).map ClusterNodeData.addr).count addr = 1

theorem ListedOnce.perm {nodes : List ClusterNodeData} (h : ListedOnce finalNodes clusterNodes)
    (hperm : nodes.Perm clusterNodes) : ListedOnce finalNodes nodes := by
  intro addr haddr
  rw [((hperm.filter _).map _).count_eq]
  exact h addr haddr

theorem mem_finalMasters {node : ClusterNodeData} :
    node ∈ finalMasters finalNodes clusterNodes ↔
      node ∈ clusterNodes.filter isMaster ∧ node.addr ∈ finalNodes := by
  rw [finalMasters, List.mem_filter, decide_eq_true_iff]

theorem ListedOnce.exists_master (h : ListedOnce finalNodes clusterNodes) (haddr : addr ∈ finalNodes) :
    ∃ node ∈ finalMasters finalNodes clusterNodes, node.addr = addr := by
  have hcount := h addr haddr
  have hmem : addr ∈ (clusterNodes.filter isMaster).map ClusterNodeData.addr :=
    List.count_pos_iff.mp (by omega)
  obtain ⟨node, hnode, rfl⟩ := List.mem_map.mp hmem
  exact ⟨node, mem_finalMasters.mpr ⟨hnode, haddr⟩, rfl⟩

theorem ListedOnce.nodup (h : ListedOnce finalNodes clusterNodes) :
    ((finalMasters finalNodes clusterNodes).map ClusterNodeData.addr).Nodup := by
  rw [List.nodup_iff_count_le_one]
  intro addr
  by_cases haddr : addr ∈ finalNodes
  · have hsub : ((finalMasters finalNodes clusterNodes).map ClusterNodeData.addr).Sublist
        ((clusterNodes.filter isMaster).map ClusterNodeData.addr) := List.filter_sublist.map _
    exact (hsub.count_le addr).trans (h addr haddr).le
  · rw [List.count_eq_zero_of_not_mem]
    · exact Nat.zero_le _
    · intro hmem
      obtain ⟨node, hnode, rfl⟩ := List.mem_map.mp hmem
      exact haddr (mem_finalMasters.mp hnode).2

theorem scaleDown_complete (h : ListedOnce finalNodes clusterNodes) :
    Complete finalNodes (slotSrc clusterNodes) slotCount
      (scaleDown o finalNodes clusterNodes slotCount) := by
  have hstats : ∀ stat ∈ allNodeSegStats finalNodes clusterNodes slotCount,
      stat.addr ∈ finalNodes ∧ stat.segIdx < finalNodes.length := by
    intro stat hstat
    obtain ⟨node, hnode, hin⟩ := List.mem_flatMap.mp hstat
    obtain ⟨idx, hidx, rfl⟩ := List.mem_map.mp hin
    exact ⟨(mem_finalMasters.mp hnode).2, List.mem_range.mp hidx⟩
  obtain ⟨hrun, htaken⟩ := Assigned.start.greedyRun fun stat hstat =>
    hstats stat (o.stats.mem_sortSlice.mp hstat)
  refine ⟨hrun, ?_, List.Perm.refl _⟩
  intro addr haddr
  by_contra hmiss
  obtain ⟨idx, hidx, hfree⟩ := hrun.exists_free haddr hmiss
  obtain ⟨node, hnode, rfl⟩ := h.exists_master haddr
  have hstat : (⟨node.addr, idx, matchCount node finalNodes.length idx slotCount⟩ : NodeSegStat) ∈
      allNodeSegStats finalNodes clusterNodes slotCount :=
    List.mem_flatMap.mpr ⟨node, hnode, List.mem_map.mpr ⟨idx, List.mem_range.mpr hidx, rfl⟩⟩
  rcases htaken _ (o.stats.mem_sortSlice.mpr hstat) with htakes | hseg
  · exact hmiss htakes
  · exact Bool.false_ne_true (hfree.symm.trans hseg)

section Up

variable {node : ClusterNodeData} {nodes : List ClusterNodeData} {q : Plan × List MigrateSomeSlots}

/-- A node without a segment takes one that is free. -/
theorem takeBest_takes (hp : Assigned finalNodes q.1) (haddr : node.addr ∈ finalNodes)
    (hmiss : node.addr ∉ q.1.node2Segment) :
    ∃ idx < finalNodes.length, q.1.segmentIsChose idx = false ∧
      takeBest o src finalNodes.length slotCount q node = (q.1.choose node.addr idx,
        q.2 ++ tasksInto src node.addr (segmentSlots finalNodes.length idx slotCount)) := by
  obtain ⟨free, hfree, hunused⟩ := hp.exists_free haddr hmiss
  rw [takeBest]
  split
  case h_1 hnone =>
    have hall := List.find?_eq_none.mp hnone ⟨free, matchCount node finalNodes.length free slotCount⟩
      ((o.segs node.addr).mem_sortSlice.mpr
        (List.mem_map.mpr ⟨free, List.mem_range.mpr hfree, rfl⟩))
    simp [hunused] at hall
  case h_2 sc hsome =>
    have hin := (o.segs node.addr).mem_sortSlice.mp (List.mem_of_find?_eq_some hsome)
    obtain ⟨idx, hidx, rfl⟩ := List.mem_map.mp hin
    refine ⟨idx, List.mem_range.mp hidx, ?_, rfl⟩
    simpa using List.find?_some hsome

theorem takeBest_run (hp : Assigned finalNodes q.1)
    (htasks : q.2.Perm (q.1.tasks src finalNodes.length slotCount))
    (hnodes : ∀ node ∈ nodes, node.addr ∈ finalNodes ∧ node.addr ∉ q.1.node2Segment)
    (hnodup : (nodes.map ClusterNodeData.addr).Nodup) :
    let r := nodes.foldl (takeBest o src finalNodes.length slotCount) q
    Assigned finalNodes r.1 ∧ r.2.Perm (r.1.tasks src finalNodes.length slotCount) ∧
      (∀ addr ∈ q.1.node2Segment, addr ∈ r.1.node2Segment) ∧
      ∀ node ∈ nodes, node.addr ∈ r.1.node2Segment := by
  induction nodes generalizing q with
  | nil => exact ⟨hp, htasks, fun addr h => h, fun node h => (List.not_mem_nil h).elim⟩
  | cons x nodes ih =>
    obtain ⟨haddr, hmiss⟩ := hnodes x List.mem_cons_self
    obtain ⟨hother, hnodup⟩ := List.nodup_cons.mp hnodup
    obtain ⟨idx, hidx, hfree, htake⟩ := @takeBest_takes finalNodes slotCount src o x q hp haddr hmiss
    have hstay : ∀ addr, addr ∈ (q.1.choose x.addr idx).node2Segment ↔
        addr = x.addr ∨ addr ∈ q.1.node2Segment := fun addr => AList.mem_insert _
    have hperm : (q.2 ++ tasksInto src x.addr (segmentSlots finalNodes.length idx slotCount)).Perm
        ((q.1.choose x.addr idx).tasks src finalNodes.length slotCount) := by
      rw [Plan.tasks_choose hmiss]
      exact (htasks.append_right _).trans List.perm_append_comm
    have hrest : ∀ node ∈ nodes, node.addr ∈ finalNodes ∧
        node.addr ∉ (q.1.choose x.addr idx).node2Segment := by
      intro node hnode
      obtain ⟨hfinal, hout⟩ := hnodes node (List.mem_cons_of_mem _ hnode)
      refine ⟨hfinal, fun hin => ?_⟩
      rcases (hstay _).mp hin with hsame | hin
      · exact hother (hsame ▸ List.mem_map_of_mem hnode)
      · exact hout hin
    rw [List.foldl_cons, htake]
    obtain ⟨hrun, htasks', hold, hall⟩ := @ih (q.1.choose x.addr idx, q.2 ++ tasksInto src x.addr
      (segmentSlots finalNodes.length idx slotCount)) (hp.choose haddr hmiss hidx hfree) hperm hrest
      hnodup
    refine ⟨hrun, htasks', fun addr h => hold addr ((hstay addr).mpr (Or.inr h)), ?_⟩
    rintro node (_ | ⟨_, hnode⟩)
    · exact hold _ ((hstay _).mpr (Or.inl rfl))
    · exact hall node hnode

theorem scaleUp_complete (h : ListedOnce finalNodes clusterNodes) :
    Complete finalNodes (slotSrc clusterNodes) slotCount
      (scaleUp o finalNodes clusterNodes slotCount) := by
  obtain ⟨hrun, htasks, -, hall⟩ := @takeBest_run finalNodes slotCount (slotSrc clusterNodes) o
    (finalMasters finalNodes clusterNodes) (Plan.start, []) Assigned.start (List.Perm.refl _)
    (fun node hnode => ⟨(mem_finalMasters.mp hnode).2, AList.notMem_empty _⟩) h.nodup
  refine ⟨hrun, ?_, htasks⟩
  intro addr haddr
  obtain ⟨node, hnode, rfl⟩ := h.exists_master haddr
  exact hall node hnode

end Up

end Migration
