import BluekingDbm.Failover.Window
import Mathlib.Data.List.Dedup

/-! From the failures popped for a business to the switch requests they lead to: grouping by cloud
and type, querying the metadata of the hosts, matching strategies, and one task for each match. -/
namespace Failover

inductive ActionType
  | notify
  | switch
  | other (name : String)
deriving DecidableEq

structure DbSwitchingStrategy where
  id : ℤ
  bkBizID : ℤ
  triggerEventName : DbEventName
  triggerCount : ℤ
  priority : ℤ
  action : ActionType
deriving DecidableEq

inductive DbmMetadataStatus
  | running
  | unavailable
  | available
deriving DecidableEq

structure DbInstMetadata where
  bkBizID : ℤ
  bkCloudID : ℤ
  ip : String
  port : ℤ
  clusterID : ℤ
  status : DbmMetadataStatus
deriving DecidableEq

structure FailureGroup where
  bkBizID : ℤ
  bkCloudID : ℤ
  dbType : DbType
  strategy : Option DbSwitchingStrategy
  instances : List Instance
  originInstances : List Instance
deriving DecidableEq

structure Request where
  dbType : DbType
  instData : List DbInstMetadata
deriving DecidableEq

def Request.hasDbInstMetadata (r : Request) : Bool := !r.instData.isEmpty

def FailureGroup.ips (g : FailureGroup) : List String := (g.instances.map Instance.ip).eraseDups

/-- `collectGroupInstanceKeys`. -/
def collectGroupInstanceKeys (g : FailureGroup) : List String := g.instances.map Instance.windowKey

/-- The key entries are grouped by. -/
def cloudTypeKey (bkCloudID : ℤ) (dbType : DbType) : String :=
  Text.decimal bkCloudID ++ ":" ++ dbType.string

def Instance.cloudTypeKey (i : Instance) : String := Failover.cloudTypeKey i.bkCloudID i.dbType

/-- The group of one key, with the cloud and type of its first entry. -/
def entryGroup (bizID : ℤ) (entries : List FailureWindowEntry) (k : String) : Option FailureGroup :=
  match entries.filter fun e => e.cloudTypeKey = k with
  | [] => none
  | e :: es => some {
      bkBizID := bizID
      bkCloudID := e.bkCloudID
      dbType := e.dbType
      strategy := none
      instances := (e :: es).map FailureWindowEntry.toInstance
      originInstances := [] }

/-- One group for each cloud and type, sorted by their key. -/
def groupEntriesByCloudAndDbType (bizID : ℤ) (entries : List FailureWindowEntry) :
    List FailureGroup :=
  let keys := (entries.map fun e => e.cloudTypeKey).dedup.mergeSort fun a b => a ≤ b
  keys.filterMap (entryGroup bizID entries)

/-- `metadatas` is the answer of DBM for the addresses of the group, none when it failed. -/
def createRequestWithGroup (group : FailureGroup) (metadatas : Option (List DbInstMetadata)) :
    Option Request :=
  if group.ips = [] then none
  else metadatas.map fun metas =>
    { dbType := group.dbType, instData := metas.filter fun m => m.status ≠ .unavailable }

def DbInstMetadata.key (m : DbInstMetadata) : String := instanceKey m.bkCloudID m.ip m.port

def DbInstMetadata.host (m : DbInstMetadata) : String := hostKey m.bkCloudID m.ip

def Instance.host (i : Instance) : String := hostKey i.bkCloudID i.ip

def excludeUnavailableInstances (groupInsts : List Instance) (req : Request) : List Instance :=
  groupInsts.filter fun i =>
    instanceKey i.bkCloudID i.ip i.port ∈ req.instData.map DbInstMetadata.key

/-! Matching strategies. -/

/-- Which of two strategies is tried first. -/
def SortCandidates.less (a b : DbSwitchingStrategy) : Bool :=
  let aBiz : Bool := a.bkBizID ≠ 0
  let bBiz : Bool := b.bkBizID ≠ 0
  if aBiz ≠ bBiz then aBiz
  else if a.priority ≠ b.priority then a.priority < b.priority
  else a.action = .switch && !(b.action = .switch)

def sortCandidates (candidates : List DbSwitchingStrategy) : List DbSwitchingStrategy :=
  candidates.mergeSort fun a b => !SortCandidates.less b a

def instanceEventKey (i : Instance) : String :=
  instanceKey i.bkCloudID i.ip i.port ++ ":" ++ i.eventName.string

def filterUnboundInstances (instances : List Instance) (bound : List String) : List Instance :=
  instances.filter fun i => instanceEventKey i ∉ bound

def filterInstancesByEventAndCount (instances : List Instance) (eventName : DbEventName)
    (threshold : ℤ) : List Instance :=
  instances.filter fun i => i.eventName = eventName && threshold ≤ i.count

/-- The instances of the clusters of one type in which a front machine fails together with a master
behind it; a cluster counts once. -/
def matchSimultaneous (clusterType front back role : String) (r : RangeOrder (List Instance))
    (instances : List Instance) (threshold : ℤ) : List Instance :=
  let clusterKey (i : Instance) := Text.decimal i.bkCloudID ++ ":" ++ Text.decimal i.clusterID
  let clusterGroups := (instances.map clusterKey).eraseDups.map fun k =>
    instances.filter fun i => clusterKey i = k
  let simultaneous (group : List Instance) : Bool :=
    (group.any fun i => i.clusterType = clusterType && i.machineType = front) &&
      group.any fun i =>
        i.clusterType = clusterType && i.machineType = back && i.instanceRole = role
  ((r.order clusterGroups).filter fun group => simultaneous group && threshold ≤ 1).flatten

def matchProxyBackendSimultaneous : RangeOrder (List Instance) → List Instance → ℤ → List Instance :=
  matchSimultaneous "tendbha" "proxy" "backend" "backend_master"

def matchSpiderRemoteMasterSimultaneous :
    RangeOrder (List Instance) → List Instance → ℤ → List Instance :=
  matchSimultaneous "tendbcluster" "spider" "remote" "remote_master"

/-- The matchers the providers register. -/
def getSpecialMatchFunc (r : RangeOrder (List Instance)) :
    DbEventName → Option (List Instance → ℤ → List Instance)
  | .tendbhaProxyBackendFailure => some (matchProxyBackendSimultaneous r)
  | .tendbclusterSpiderRemoteFailure => some (matchSpiderRemoteMasterSimultaneous r)
  | _ => none

def matchStrategy (r : RangeOrder (List Instance)) (s : DbSwitchingStrategy)
    (unbound : List Instance) : List Instance :=
  let threshold := if s.triggerCount ≤ 0 then 1 else s.triggerCount
  match getSpecialMatchFunc r s.triggerEventName with
  | some matchFunc => matchFunc unbound threshold
  | none => filterInstancesByEventAndCount unbound s.triggerEventName threshold

/-- The groups bound to the strategies in turn, and the events that are bound in the end. -/
def bindStrategies (r : RangeOrder (List Instance)) (group : FailureGroup) :
    List DbSwitchingStrategy → List String → List FailureGroup × List String
  | [], bound => ([], bound)
  | s :: strategies, bound =>
    let unbound := filterUnboundInstances group.instances bound
    if unbound = [] then ([], bound)
    else
      let matched := matchStrategy r s unbound
      if matched = [] then bindStrategies r group strategies bound
      else
        let (groups, bound) :=
          bindStrategies r group strategies (bound ++ matched.map instanceEventKey)
        ({ group with strategy := some s, instances := matched } :: groups, bound)

/-- `strategies` is what was read for the business, none when that failed. -/
def matchStrategies (r : RangeOrder (List Instance)) (group : FailureGroup)
    (strategies : Option (List DbSwitchingStrategy)) : Option (List FailureGroup) :=
  if group.instances = [] then none
  else strategies.map fun strategies =>
    let (groups, bound) := bindStrategies r group (sortCandidates strategies) []
    let unmatched := filterUnboundInstances group.instances bound
    if unmatched = [] then groups
    else groups ++ [{ group with strategy := none, instances := unmatched }]

/-! One task for each matched group. -/

inductive GroupTask
  | notify (group : FailureGroup)
  | switch (group : FailureGroup) (req : Request)
deriving DecidableEq

def filterHostsNotOccupied (instances : List Instance) (occupied : List String) : List Instance :=
  instances.filter fun i => i.host ∉ occupied

def filterRequestByHosts (req : Request) (instances : List Instance) : Request :=
  { req with instData := req.instData.filter fun m => m.host ∈ instances.map Instance.host }

def FailureGroup.switches (g : FailureGroup) : Bool := g.strategy.any fun s => s.action = .switch

/-- A host goes to the first group that switches it. -/
def buildGroupTasks (req : Request) : List FailureGroup → List String → List GroupTask
  | [], _ => []
  | group :: groups, occupiedHosts =>
    if !group.switches then .notify group :: buildGroupTasks req groups occupiedHosts
    else
      let remaining := filterHostsNotOccupied group.instances occupiedHosts
      if remaining = [] then buildGroupTasks req groups occupiedHosts
      else
        let groupReq := filterRequestByHosts req remaining
        if !groupReq.hasDbInstMetadata then buildGroupTasks req groups occupiedHosts
        else
          .switch { group with instances := remaining } groupReq ::
            buildGroupTasks req groups (occupiedHosts ++ groupReq.instData.map DbInstMetadata.host)

/-- What `handleFailureGroup` spawns; none when it returns before that. -/
def failureGroupTasks (r : RangeOrder (List Instance)) (group : FailureGroup)
    (metadatas : Option (List DbInstMetadata)) (strategies : Option (List DbSwitchingStrategy)) :
    Option (List GroupTask) := do
  let group := { group with originInstances := group.instances }
  let req ← createRequestWithGroup group metadatas
  if !req.hasDbInstMetadata then none
  else
    let availableInsts := excludeUnavailableInstances group.instances req
    if availableInsts = [] then none
    else
      let groups ← matchStrategies r { group with instances := availableInsts } strategies
      some (buildGroupTasks req groups [])

structure WorkflowConfig where
  enableWhiteList : Bool
  enableSwitching : Bool
  switchers : DbType → Bool

/-- `whiteList` holds the clusters listed for the business and cloud of the group, none when the
query failed. -/
def filterByWhitelistForSwitch (cfg : WorkflowConfig) (group : FailureGroup) (req : Request)
    (whiteList : Option (List ℤ)) : Option Request :=
  if !cfg.enableWhiteList || !cfg.enableSwitching || group.instances.isEmpty then some req
  else whiteList.map fun clusters =>
    { req with
      instData := req.instData.filter fun m =>
        m.bkBizID = group.bkBizID && m.bkCloudID = group.bkCloudID && m.clusterID ∈ clusters }

/-- `handleStrategySwitch` and `TriggerSwitching`: the request the switcher is run on, if any. -/
def handleStrategySwitch (cfg : WorkflowConfig) (group : FailureGroup) (req : Request)
    (whiteList : Option (List ℤ)) : Option Request := do
  if !group.switches then none
  else
    let req ← filterByWhitelistForSwitch cfg group req whiteList
    if req.hasDbInstMetadata && cfg.enableSwitching && cfg.switchers group.dbType then some req
    else none

variable {bizID : ℤ} {entries : List FailureWindowEntry} {k : String} {g : FailureGroup}
  {i : Instance} {e : FailureWindowEntry}

theorem entryGroup_instances (h : entryGroup bizID entries k = some g) :
    g.instances = (entries.filter fun e => e.cloudTypeKey = k).map FailureWindowEntry.toInstance := by
  unfold entryGroup at h
  split at h
  · cases h
  · rename_i e es heq
    cases h
    rw [heq]

/-- A group has entries of its key only. -/
theorem mem_entryGroup (h : entryGroup bizID entries k = some g) (hi : i ∈ g.instances) :
    i.cloudTypeKey = k ∧ ∃ e ∈ entries, e.toInstance = i := by
  rw [entryGroup_instances h] at hi
  obtain ⟨e, he, rfl⟩ := List.mem_map.mp hi
  obtain ⟨he, hk⟩ := List.mem_filter.mp he
  exact ⟨of_decide_eq_true hk, e, he, rfl⟩

theorem mem_groups (hg : g ∈ groupEntriesByCloudAndDbType bizID entries) (hi : i ∈ g.instances) :
    ∃ e ∈ entries, e.toInstance = i := by
  obtain ⟨k, -, hk⟩ := List.mem_filterMap.mp hg
  exact (mem_entryGroup hk hi).2

theorem exists_group (he : e ∈ entries) :
    ∃ g ∈ groupEntriesByCloudAndDbType bizID entries, e.toInstance ∈ g.instances := by
  have hin : e ∈ entries.filter fun e' => e'.cloudTypeKey = e.cloudTypeKey :=
    List.mem_filter.mpr ⟨he, decide_eq_true rfl⟩
  cases hg : entryGroup bizID entries e.cloudTypeKey with
  | none =>
    unfold entryGroup at hg
    split at hg
    · rename_i hnil
      rw [hnil] at hin
      cases hin
    · cases hg
  | some g =>
    refine ⟨g, List.mem_filterMap.mpr ⟨_, ?_, hg⟩, ?_⟩
    · rw [List.mem_mergeSort, List.mem_dedup]
      exact List.mem_map.mpr ⟨e, he, rfl⟩
    · rw [entryGroup_instances hg]
      exact List.mem_map.mpr ⟨e, hin, rfl⟩

/-- Two groups of one pass differ in cloud or type. -/
theorem groups_apart (bizID : ℤ) (entries : List FailureWindowEntry) :
    (groupEntriesByCloudAndDbType bizID entries).Pairwise fun g g' =>
      ∀ i ∈ g.instances, ∀ j ∈ g'.instances, i.cloudTypeKey ≠ j.cloudTypeKey := by
  have hnodup : ((entries.map fun e => e.cloudTypeKey).dedup.mergeSort fun a b => a ≤ b).Nodup :=
    (List.mergeSort_perm _ _).nodup_iff.mpr (List.nodup_dedup _)
  refine List.Pairwise.filterMap _ ?_ hnodup
  intro k k' hk g hg g' hg' i hi j hj
  rw [(mem_entryGroup hg hi).1, (mem_entryGroup hg' hj).1]
  exact hk

end Failover
