import BluekingDbm.Migration.Segments
import BluekingDbm.Migration.Waiting
import BluekingDbm.Myredis.Nodes

/-! Making the nodes that stay forget the masters that go, and their slaves. -/
namespace Migration

open Text

structure ClusterInfo where
  clusterState : String
  clusterSlotsAssigned : ℤ

/-- Whether the cluster is up with all slots assigned, or down with none. -/
def clusterState (clusterInfo : Except String ClusterInfo) : Except String Bool :=
  match clusterInfo with
  | .error err => .error ("get cluster info fail:" ++ err)
  | .ok info =>
    if info.clusterState = "ok" ∧ info.clusterSlotsAssigned = totalSlots then .ok true
    else if info.clusterState = "fail" ∧ info.clusterSlotsAssigned = 0 then .ok false
    else .error "get cluster info fail"

/-- The two rounds of commands. -/
inductive Round
  | first
  | second
deriving DecidableEq

/-- What the nodes answer to `ForgetDelNodes`. A node that is asked for its slaves lists the cluster
twice. -/
structure ForgetReplies where
  srcNodeAddr : String
  isRedisInstance : Bool
  clusterInfo : Except String ClusterInfo
  setSlotInfo : ℕ → String → TaskReply
  clusterNodes : Except String (List Myredis.ClusterNodeData)
  newDstCli : String → Except String Unit
  dstListing : String → Except String (List Myredis.ClusterNodeData)
  dstListingAgain : String → Except String (List Myredis.ClusterNodeData)
  slaveOrder : RangeOrder Myredis.ClusterNodeData
  newAddrCli : Round → String → Except String Unit
  clusterForget : Round → String → String → Except String Unit

structure Send where
  issuer : String
  nodeID : String
  reply : Except String Unit

/-- The error that is returned, and the commands that were sent. -/
structure Forgetting where
  err : Option String
  sends : List Send

/-- The ids of the nodes to be deleted, which must have no slots left, and the addresses of the others. -/
def splitNodes (toBeDelNodes : List String) :
    List Myredis.ClusterNodeData → Except String (List String × List String)
  | [] => .ok ([], [])
  | node :: clusterNodes =>
    if node.addr ∈ toBeDelNodes then
      if node.slots.length ≠ 0 then
        .error ("toBeDelNode:" ++ node.addr ++ "  still have " ++ node.slots.length.repr ++ " slots ")
      else
        (splitNodes toBeDelNodes clusterNodes).map fun (toBeDelAllNodeId, finalAllNodeAddr) =>
          (node.nodeID :: toBeDelAllNodeId, finalAllNodeAddr)
    else
      (splitNodes toBeDelNodes clusterNodes).map fun (toBeDelAllNodeId, finalAllNodeAddr) =>
        (toBeDelAllNodeId, node.addr :: finalAllNodeAddr)

namespace ForgetReplies

variable (q : ForgetReplies) (toBeDelNodes : List String)

def slavesOf (addr01 : String) : Except String (List Myredis.ClusterNodeData) :=
  Myredis.getAllSlaveNodesByMasterAddr q.slaveOrder (q.dstListing addr01) (q.dstListingAgain addr01)
    addr01

def slaveIds : List String → Except String (List String)
  | [] => .ok []
  | addr01 :: toBeDelNodes =>
    match q.newDstCli addr01 with
    | .error err => .error err
    | .ok () =>
      match q.slavesOf addr01 with
      | .error err => .error ("dstAddr:" ++ addr01 ++ " get slave fail:" ++ err)
      | .ok dstSlaves => (slaveIds toBeDelNodes).map fun ids =>
          dstSlaves.map Myredis.ClusterNodeData.nodeID ++ ids

/-- The addresses of the list that are not to be deleted. -/
def withoutDeleted (toBeDelAllNodeAddr finalAllNodeAddr : List String) : List String :=
  finalAllNodeAddr.filter fun addr => decide (addr ∉ toBeDelAllNodeAddr)

/-- Every issuer is connected to, and sends a command for each id. -/
def forgetRound (round : Round) (toBeDelAllNodeId : List String) : List String → Forgetting
  | [] => ⟨none, []⟩
  | addr03 :: finalAllNodeAddr =>
    match q.newAddrCli round addr03 with
    | .error err => ⟨some err, []⟩
    | .ok () =>
      let rest := forgetRound round toBeDelAllNodeId finalAllNodeAddr
      { rest with
        sends := (toBeDelAllNodeId.map fun nodeID =>
          ⟨addr03, nodeID, q.clusterForget round addr03 nodeID⟩) ++ rest.sends }

def errForgetList (sends : List Send) : List String :=
  sends.filterMap fun send =>
    match send.reply with
    | .error _ => some ("node:" ++ send.issuer ++ " cluster forget " ++ send.nodeID ++ " failed")
    | .ok () => none

/-- The errors of the second round are passed over. -/
def forgetRounds (toBeDelAllNodeId finalAllNodeAddr : List String) : Forgetting :=
  let first := q.forgetRound .first toBeDelAllNodeId finalAllNodeAddr
  match first.err with
  | some _ => first
  | none =>
    if (errForgetList first.sends).length > 0 then
      { first with err := some ("\n".intercalate (errForgetList first.sends)) }
    else
      let second := q.forgetRound .second toBeDelAllNodeId finalAllNodeAddr
      { second with sends := first.sends ++ second.sends }

def forgetNodes : Forgetting :=
  match q.clusterNodes with
  | .error err => ⟨some err, []⟩
  | .ok clusterNodes =>
    if toBeDelNodes.length = 0 then ⟨none, []⟩
    else
      match splitNodes toBeDelNodes clusterNodes, q.slaveIds toBeDelNodes with
      | .error err, _ => ⟨some err, []⟩
      | .ok _, .error err => ⟨some err, []⟩
      | .ok (masterIds, _finalAllNodeAddr), .ok slaveIds =>
        let toBeDelAllNodeId := masterIds ++ slaveIds
        let toBeDelAllNodeAddr := toBeDelNodes ++
          (clusterNodes.filter fun node => decide (node.nodeID ∈ toBeDelAllNodeId)).map
            Myredis.ClusterNodeData.addr
        -- the list has been emptied when it is ranged over
        let finalAllNodeAddr := withoutDeleted toBeDelAllNodeAddr []
        q.forgetRounds toBeDelAllNodeId finalAllNodeAddr

/-- What the poll finds on the masters to be deleted. -/
def poll (i : ℕ) : Except String (Option (String × List ℕ)) :=
  areTenplusMigrating q.isRedisInstance (q.setSlotInfo i) toBeDelNodes

/-- It returns nothing as long as `fuel` polls are not enough. -/
def forgetDelNodes (fuel : ℕ) : Option Forgetting :=
  match clusterState q.clusterInfo with
  | .error err => some ⟨some err, []⟩
  | .ok false => some ⟨some ("cluster_state is fail,addr:" ++ q.srcNodeAddr), []⟩
  | .ok true =>
    (waitToBeDelMasters (q.poll toBeDelNodes) fuel 0).map fun waited =>
      match waitErr waited with
      | some err => ⟨some err, []⟩
      | none => q.forgetNodes toBeDelNodes

end ForgetReplies

section Topology

variable (clusterNodes : List Myredis.ClusterNodeData) (toBeDelNodes : List String)

/-- A node that goes: a master to be deleted, or a slave of one. -/
def ToBeForgotten (node : Myredis.ClusterNodeData) : Prop :=
  node ∈ clusterNodes ∧ (node.addr ∈ toBeDelNodes ∨ node.role = Myredis.redisSlaveRole ∧
    ∃ master ∈ clusterNodes, master.addr ∈ toBeDelNodes ∧ node.masterID = master.nodeID)

def Remaining (node : Myredis.ClusterNodeData) : Prop :=
  node ∈ clusterNodes ∧ ¬ ToBeForgotten clusterNodes toBeDelNodes node

/-- The nodes to be deleted are masters without slots. -/
def EmptyMasters : Prop :=
  ∀ addr ∈ toBeDelNodes,
    (∃ node ∈ clusterNodes, node.addr = addr ∧ node.role = Myredis.redisMasterRole) ∧
      ∀ node ∈ clusterNodes, node.addr = addr → node.slots = []

end Topology

namespace ForgetReplies

variable {q : ForgetReplies} {toBeDelNodes : List String} {fuel : ℕ}

/-- Success means that every node that stays has forgotten every node that goes, and that no node that
goes was asked to forget another. -/
def ForgetComplete (q : ForgetReplies) (toBeDelNodes : List String) : Prop :=
  ∀ clusterNodes, q.clusterNodes = .ok clusterNodes →
    ∀ fuel sends, q.forgetDelNodes toBeDelNodes fuel = some ⟨none, sends⟩ →
      (∀ node deleted, Remaining clusterNodes toBeDelNodes node →
        ToBeForgotten clusterNodes toBeDelNodes deleted →
          ⟨node.addr, deleted.nodeID, .ok ()⟩ ∈ sends) ∧
        ∀ send ∈ sends, ∀ node, ToBeForgotten clusterNodes toBeDelNodes node →
          send.issuer ≠ node.addr

/-- Nothing stops the deletion: the cluster is up, the masters to be deleted get rid of their slots, not
after exactly 300 minutes, and each of them tells its slaves. -/
structure Passes (q : ForgetReplies) (toBeDelNodes : List String) : Prop where
  up : clusterState q.clusterInfo = .ok true
  waited : ∃ n, n ≠ 300 ∧ (∀ i < n, isMigrating (q.poll toBeDelNodes i) = true) ∧
    q.poll toBeDelNodes n = .ok none
  slaves : ∀ addr ∈ toBeDelNodes, q.newDstCli addr = .ok () ∧
    ∃ dstSlaves, q.slavesOf addr = .ok dstSlaves

theorem splitNodes_ok {clusterNodes : List Myredis.ClusterNodeData}
    (h : ∀ node ∈ clusterNodes, node.addr ∈ toBeDelNodes → node.slots = []) :
    ∃ split, splitNodes toBeDelNodes clusterNodes = .ok split := by
  induction clusterNodes with
  | nil => exact ⟨_, rfl⟩
  | cons node clusterNodes ih =>
    obtain ⟨hnode, hrest⟩ := List.forall_mem_cons.mp h
    obtain ⟨split, hsplit⟩ := ih hrest
    unfold splitNodes
    split
    case isTrue hmem =>
      rw [if_neg (by simp [hnode hmem]), hsplit]
      exact ⟨_, rfl⟩
    case isFalse =>
      rw [hsplit]
      exact ⟨_, rfl⟩

/-- The ids of the slaves are found just where every node to be deleted tells its slaves. -/
theorem slaveIds_ok : (∃ ids, q.slaveIds toBeDelNodes = .ok ids) ↔
    ∀ addr ∈ toBeDelNodes, q.newDstCli addr = .ok () ∧ ∃ dstSlaves, q.slavesOf addr = .ok dstSlaves := by
  induction toBeDelNodes with
  | nil => exact ⟨fun _ addr haddr => absurd haddr List.not_mem_nil, fun _ => ⟨_, rfl⟩⟩
  | cons addr toBeDelNodes ih =>
    apply Iff.trans _ List.forall_mem_cons.symm
    unfold slaveIds
    split
    case h_1 err hcli => simp [hcli]
    case h_2 hcli =>
      split
      case h_1 err hslaves => simp [hslaves]
      case h_2 dstSlaves hslaves =>
        have hrest : (∃ ids, (q.slaveIds toBeDelNodes).map (fun ids =>
            dstSlaves.map Myredis.ClusterNodeData.nodeID ++ ids) = .ok ids) ↔
              ∃ ids, q.slaveIds toBeDelNodes = .ok ids := by
          cases q.slaveIds toBeDelNodes with
          | error err => simp [Except.map]
          | ok ids => simp [Except.map]
        apply hrest.trans
        apply ih.trans
        exact ⟨fun h => ⟨⟨hcli, dstSlaves, hslaves⟩, h⟩, fun h => h.2⟩

theorem forgetNodes_none (hne : toBeDelNodes ≠ []) {sends : List Send}
    (h : q.forgetNodes toBeDelNodes = ⟨none, sends⟩) :
    sends = [] ∧ ∃ ids, q.slaveIds toBeDelNodes = .ok ids := by
  unfold forgetNodes at h
  split at h
  · cases h
  · rw [if_neg (by simp [hne])] at h
    split at h
    · cases h
    · cases h
    · rename_i hids
      have hnobody : Forgetting.mk none [] = ⟨none, sends⟩ := h
      cases hnobody
      exact ⟨rfl, _, hids⟩

theorem forgetNodes_ok {clusterNodes : List Myredis.ClusterNodeData} {ids : List String}
    (hlisting : q.clusterNodes = .ok clusterNodes)
    (hslots : ∀ node ∈ clusterNodes, node.addr ∈ toBeDelNodes → node.slots = [])
    (hids : q.slaveIds toBeDelNodes = .ok ids) : q.forgetNodes toBeDelNodes = ⟨none, []⟩ := by
  obtain ⟨⟨masterIds, finalAllNodeAddr⟩, hsplit⟩ := splitNodes_ok hslots
  unfold forgetNodes
  rw [hlisting]
  dsimp only
  split
  · rfl
  · rw [hsplit, hids]
    rfl

/-- A wait that ends well was a wait for some polls, and the one after found no slots on the way out. -/
theorem waitToBeDelMasters_ok {polls : ℕ → Except String (Option (String × List ℕ))}
    {timeLimit waits : ℕ} (h : waitToBeDelMasters polls fuel timeLimit = some (.ok waits)) :
    timeLimit ≤ waits ∧ (∀ i, timeLimit ≤ i → i < waits → isMigrating (polls i) = true) ∧
      polls waits = .ok none := by
  induction fuel generalizing timeLimit with
  | zero => cases h
  | succ fuel ih =>
    unfold waitToBeDelMasters at h
    split at h
    · cases h
    case h_2 found hreply =>
      obtain ⟨hle, hbefore, hlast⟩ := ih h
      refine ⟨by omega, fun i hfrom hlt => ?_, hlast⟩
      rcases Nat.eq_or_lt_of_le hfrom with rfl | hlater
      · rw [hreply]
        rfl
      · exact hbefore i hlater hlt
    case h_3 hreply =>
      cases h
      exact ⟨Nat.le_refl _, fun i hfrom hlt => absurd hfrom (by omega), hreply⟩

theorem waitToBeDelMasters_waited {polls : ℕ → Except String (Option (String × List ℕ))}
    {timeLimit waits : ℕ} (hle : timeLimit ≤ waits)
    (hbefore : ∀ i, timeLimit ≤ i → i < waits → isMigrating (polls i) = true)
    (hlast : polls waits = .ok none) :
    waitToBeDelMasters polls (waits - timeLimit + 1) timeLimit = some (.ok waits) := by
  generalize hleft : waits - timeLimit = left
  induction left generalizing timeLimit with
  | zero =>
    obtain rfl : timeLimit = waits := by omega
    unfold waitToBeDelMasters
    rw [hlast]
  | succ left ih =>
    have hnow := hbefore timeLimit (Nat.le_refl _) (by omega)
    unfold waitToBeDelMasters
    split
    case h_1 err hreply =>
      rw [hreply] at hnow
      cases hnow
    case h_2 found hreply => exact ih (by omega) (fun i hfrom hlt => hbefore i (by omega) hlt) (by omega)
    case h_3 hreply =>
      rw [hreply] at hnow
      cases hnow

/-- What it takes for the deletion to report success. -/
theorem passes_of_none (hne : toBeDelNodes ≠ []) {sends : List Send}
    (h : q.forgetDelNodes toBeDelNodes fuel = some ⟨none, sends⟩) :
    sends = [] ∧ q.Passes toBeDelNodes := by
  unfold forgetDelNodes at h
  split at h
  · cases h
  · cases h
  case h_3 hup =>
    obtain ⟨waited, hwaited, hend⟩ := Option.map_eq_some_iff.mp h
    cases waited with
    | error err => cases hend
    | ok waits =>
      unfold waitErr at hend
      dsimp only at hend
      split at hend
      · cases hend
      case h_2 hnone =>
        have hother : waits ≠ 300 := by
          rintro rfl
          cases hnone
        obtain ⟨hnil, ids, hids⟩ := forgetNodes_none hne hend
        obtain ⟨-, hbefore, hlast⟩ := waitToBeDelMasters_ok hwaited
        refine ⟨hnil, hup, ⟨waits, hother, fun i hlt => hbefore i (Nat.zero_le i) hlt, hlast⟩, ?_⟩
        exact slaveIds_ok.mp ⟨ids, hids⟩

theorem Passes.returns (h : q.Passes toBeDelNodes) {clusterNodes : List Myredis.ClusterNodeData}
    (hlisting : q.clusterNodes = .ok clusterNodes) (hempty : EmptyMasters clusterNodes toBeDelNodes) :
    ∃ fuel, q.forgetDelNodes toBeDelNodes fuel = some ⟨none, []⟩ := by
  obtain ⟨hup, ⟨waits, hother, hbefore, hlast⟩, hslaves⟩ := h
  obtain ⟨ids, hids⟩ := slaveIds_ok.mpr hslaves
  have hnodes := forgetNodes_ok hlisting (fun node hnode haddr => (hempty _ haddr).2 node hnode rfl) hids
  have hwaited := waitToBeDelMasters_waited (Nat.zero_le waits) (fun i _ hlt => hbefore i hlt) hlast
  refine ⟨waits - 0 + 1, ?_⟩
  unfold forgetDelNodes
  rw [hup, hwaited]
  dsimp only [Option.map, waitErr]
  rw [if_neg hother, hnodes]

/-- Forgetting is complete just where something stops it or no node stays. -/
theorem forgetComplete_iff (hne : toBeDelNodes ≠ [])
    (hempty : ∀ clusterNodes, q.clusterNodes = .ok clusterNodes →
      EmptyMasters clusterNodes toBeDelNodes) :
    q.ForgetComplete toBeDelNodes ↔ (q.Passes toBeDelNodes →
      ∀ clusterNodes, q.clusterNodes = .ok clusterNodes →
        ∀ node, ¬ Remaining clusterNodes toBeDelNodes node) := by
  constructor
  · intro hcomplete hpasses clusterNodes hlisting node hremaining
    obtain ⟨fuel, hreturns⟩ := hpasses.returns hlisting (hempty clusterNodes hlisting)
    obtain ⟨addr, haddr⟩ := List.exists_mem_of_ne_nil _ hne
    obtain ⟨⟨master, hmaster, rfl, -⟩, -⟩ := hempty clusterNodes hlisting addr haddr
    have hsent := (hcomplete clusterNodes hlisting fuel [] hreturns).1 node master hremaining
      ⟨hmaster, Or.inl haddr⟩
    exact absurd hsent List.not_mem_nil
  · intro h clusterNodes hlisting fuel sends hreturns
    obtain ⟨rfl, hpasses⟩ := passes_of_none hne hreturns
    refine ⟨fun node deleted hremaining _ => ?_, fun send hsend => absurd hsend List.not_mem_nil⟩
    exact absurd hremaining (h hpasses clusterNodes hlisting node)

def listed (nodeID addr role masterID : String) (slots : List ℤ) : Myredis.ClusterNodeData where
  nodeID := nodeID
  addr := addr
  ip := "127.0.0.1"
  port := 30001
  cPort := 31001
  role := role
  isMyself := false
  linkState := Myredis.redisLinkStateConnected
  masterID := masterID
  failStatus := []
  pingSent := 0
  pongRecv := 0
  configEpoch := 1
  slotSrcStr := ""
  slots := slots
  slotsMap := fun slot => decide (slot ∈ slots)
  migratingSlots := ∅
  importingSlots := ∅

/-- Two masters with a slave each; the second has no slots. -/
def twoMasters : List Myredis.ClusterNodeData :=
  [listed "kept" "127.0.0.1:30001" "master" "" [0, 1],
    listed "keptSlave" "127.0.0.1:30002" "slave" "kept" [],
    listed "gone" "127.0.0.1:30003" "master" "" [],
    listed "goneSlave" "127.0.0.1:30004" "slave" "gone" []]

/-- Everybody answers, in a cluster of the given state. -/
def answering (state : String) : ForgetReplies where
  srcNodeAddr := "127.0.0.1:30001"
  isRedisInstance := true
  clusterInfo := .ok ⟨state, if state = "ok" then totalSlots else 0⟩
  setSlotInfo := fun _ _ => .error "unknown command"
  clusterNodes := .ok twoMasters
  newDstCli := fun _ => .ok ()
  dstListing := fun _ => .ok twoMasters
  dstListingAgain := fun _ => .ok twoMasters
  slaveOrder := .still
  newAddrCli := fun _ _ => .ok ()
  clusterForget := fun _ _ _ => .ok ()

theorem twoMasters_empty (state : String) : ∀ clusterNodes,
    (answering state).clusterNodes = .ok clusterNodes →
      EmptyMasters clusterNodes ["127.0.0.1:30003"] := by
  intro clusterNodes hlisting
  cases hlisting
  intro addr haddr
  rw [List.mem_singleton.mp haddr]
  refine ⟨⟨listed "gone" "127.0.0.1:30003" "master" "" [], by simp [twoMasters], rfl, rfl⟩, ?_⟩
  intro node hnode haddr
  simp only [twoMasters, List.mem_cons, List.not_mem_nil, or_false] at hnode
  rcases hnode with rfl | rfl | rfl | rfl
  · exact absurd haddr (by decide)
  · rfl
  · rfl
  · rfl

/-- In a cluster that is down nothing is forgotten, and that is reported. -/
theorem down_forgetComplete : (answering "fail").ForgetComplete ["127.0.0.1:30003"] :=
  (forgetComplete_iff (List.cons_ne_nil _ _) (twoMasters_empty "fail")).mpr fun hpasses =>
    nomatch hpasses.up

/-- Success is reported, and the master that stays was not sent a command. -/
theorem success_without_forget : ¬ (answering "ok").ForgetComplete ["127.0.0.1:30003"] := by
  intro hcomplete
  have hreturns : (answering "ok").forgetDelNodes ["127.0.0.1:30003"] 1 = some ⟨none, []⟩ := by rfl
  have hkept : Remaining twoMasters ["127.0.0.1:30003"]
      (listed "kept" "127.0.0.1:30001" "master" "" [0, 1]) := by
    refine ⟨List.mem_cons_self, ?_⟩
    rintro ⟨-, haddr | ⟨hslave, -⟩⟩
    · exact absurd haddr (by decide)
    · exact absurd hslave (by decide)
  have hgone : ToBeForgotten twoMasters ["127.0.0.1:30003"]
      (listed "gone" "127.0.0.1:30003" "master" "" []) :=
    ⟨by simp [twoMasters], Or.inl List.mem_cons_self⟩
  have hsent := (hcomplete twoMasters rfl 1 [] hreturns).1 _ _ hkept hgone
  exact absurd hsent List.not_mem_nil

end ForgetReplies

end Migration
