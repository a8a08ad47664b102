import BluekingDbm.Library.Grouping
import BluekingDbm.Library.Ranging

/-! The checks of a cluster's instances, merged to one list of statements and one log. -/
namespace Partition.Shards

structure InitSql where
  sql : String
  needSize : ℤ
  hasUniqueKey : Bool

structure PartitionSql where
  configId : ℤ
  dbLike : String
  tbLike : String
  initPartition : List InitSql
  addPartition : List String
  dropPartition : List String

structure IdLog where
  configId : ℤ
  log : String

structure PartitionObject where
  ip : String
  port : ℤ
  shardName : String
  executeObjects : List PartitionSql

structure PartitionCronLog where
  configId : ℤ
  scheduler : String
  cronDate : String
  checkInfo : String
  status : String
  deriving DecidableEq

/-- An instance, and what checking the rules on it has returned. -/
structure Check where
  ip : String
  port : ℤ
  serverName : String
  sqls : List PartitionSql
  nothingToDo : List IdLog
  fail : List IdLog

/-- What the checks of all instances have returned. -/
structure Collected where
  doSomething : AList fun _ : String => List PartitionObject
  nothing : List IdLog
  checkFail : List IdLog

def collectOne (s : Collected) (host : String) (check : Check) : Collected where
  doSomething :=
    if check.sqls.length > 0 then
      Grouping.add s.doSomething host ⟨check.ip, check.port, check.serverName, check.sqls⟩
    else s.doSomething
  nothing := s.nothing ++ check.nothingToDo
  checkFail := s.checkFail ++ check.fail

/-- The loops over the hosts, in any order, and over the instances of each. -/
def collect (hosts : List (String × List Check)) : Collected :=
  hosts.foldl (fun s host => host.2.foldl (fun s check => collectOne s host.1 check) s) ⟨∅, [], []⟩

/-- The orders in which the maps are ranged over. -/
structure Orders where
  fails : RangeOrder (Sigma fun _ : ℤ => List String)
  hosts : RangeOrder (Sigma fun _ : String => List PartitionObject)
  ids : RangeOrder ℤ

/-- The statements of an instance that are kept, if any are. -/
def keepObject (failIds : List ℤ) (object : PartitionObject) : Option PartitionObject :=
  let newsqls := object.executeObjects.filter fun sql => sql.configId ∉ failIds
  if newsqls.length > 0 then some { object with executeObjects := newsqls } else none

def noteId (uniqDo : List ℤ) (sql : PartitionSql) : List ℤ :=
  if sql.configId ∈ uniqDo then uniqDo else uniqDo ++ [sql.configId]

/-- The statements that are to be executed, and their rules. -/
structure DoList where
  doList : AList fun _ : String => List PartitionObject
  uniqDo : List ℤ

def keepHost (failIds : List ℤ) (s : DoList) (host : Sigma fun _ : String => List PartitionObject) :
    DoList :=
  let newobjects := host.2.filterMap (keepObject failIds)
  { doList := if newobjects.length > 0 then s.doList.insert host.1 newobjects else s.doList
    uniqDo := (newobjects.flatMap (·.executeObjects)).foldl noteId s.uniqDo }

def keepNothing (doIds failIds : List ℤ) (nothingList : List IdLog) (item : IdLog) : List IdLog :=
  if item.configId ∉ doIds ∧ item.configId ∉ failIds ∧ item.configId ∉ nothingList.map (·.configId)
  then nothingList ++ [⟨item.configId, ""⟩]
  else nothingList

/-- The entries of a batch; a failure of the database takes all of them back. -/
def addLogBatch (fails : PartitionCronLog → Bool) (configs : List IdLog)
    (date scheduler status sameLog : String) : List PartitionCronLog :=
  let logs := configs.map fun config =>
    { configId := config.configId, scheduler, cronDate := date, status
      checkInfo := if sameLog ≠ "" then sameLog else config.log : PartitionCronLog }
  if logs.any fails then [] else logs

def scheduler : String := "127.0.0.1"

/-- The statements by their hosts, and what is written to the table of the logs. -/
structure Merged where
  doList : AList fun _ : String => List PartitionObject
  table : String
  logs : List PartitionCronLog

def uniqCheckFail (s : Collected) : AList fun _ : ℤ => List String :=
  s.checkFail.foldl (fun m item => Grouping.add m item.configId item.log) ∅

def failIds (o : Orders) (s : Collected) : List ℤ :=
  (o.fails.order (uniqCheckFail s).entries).map (·.1)

def checkFailList (o : Orders) (s : Collected) : List IdLog :=
  (o.fails.order (uniqCheckFail s).entries).map fun e => ⟨e.1, "\n".intercalate e.2⟩

def kept (o : Orders) (s : Collected) : DoList :=
  (o.hosts.order s.doSomething.entries).foldl (keepHost (failIds o s)) ⟨∅, []⟩

def nothingList (o : Orders) (s : Collected) : List IdLog :=
  s.nothing.foldl (keepNothing (o.ids.order (kept o s).uniqDo) (failIds o s)) []

def needExecuteList (o : Orders) (fails : PartitionCronLog → Bool) (s : Collected)
    (vdate clusterType : String) : Merged where
  doList := (kept o s).doList
  table := if clusterType = "tendbcluster" then "spider_partition_cron_log"
    else "mysql_partition_cron_log"
  logs := addLogBatch fails (checkFailList o s) vdate scheduler "failed" "" ++
    addLogBatch fails (nothingList o s) vdate scheduler "succeeded" "nothing to do"

/-! The rules that occur, by what the instances have returned for them. -/

/-- The checks with their hosts. -/
def checks (hosts : List (String × List Check)) : List (String × Check) :=
  hosts.flatMap fun host => host.2.map fun check => (host.1, check)

/-- All messages of a rule. -/
def messages (hosts : List (String × List Check)) (id : ℤ) : List String :=
  (((checks hosts).flatMap (·.2.fail)).filter fun item => item.configId = id).map (·.log)

def Failed (hosts : List (String × List Check)) (id : ℤ) : Prop :=
  ∃ check ∈ checks hosts, ∃ item ∈ check.2.fail, item.configId = id

def ToExecute (hosts : List (String × List Check)) (id : ℤ) : Prop :=
  ¬ Failed hosts id ∧ ∃ check ∈ checks hosts, ∃ sql ∈ check.2.sqls, sql.configId = id

def NothingToDo (hosts : List (String × List Check)) (id : ℤ) : Prop :=
  ¬ Failed hosts id ∧ ¬ ToExecute hosts id ∧
    ∃ check ∈ checks hosts, ∃ item ∈ check.2.nothingToDo, item.configId = id

def Occurs (hosts : List (String × List Check)) (id : ℤ) : Prop :=
  ∃ check ∈ checks hosts, (∃ item ∈ check.2.fail, item.configId = id) ∨
    (∃ sql ∈ check.2.sqls, sql.configId = id) ∨ ∃ item ∈ check.2.nothingToDo, item.configId = id

section

variable {hosts : List (String × List Check)} {s : Collected} {o : Orders}
  {failIds ids : List ℤ} {id : ℤ} {sqls : List PartitionSql} {host : String} {d : DoList}

/-- What an instance is sent, if it has statements. -/
def Check.object (check : Check) : Option PartitionObject :=
  if check.sqls.length > 0 then some ⟨check.ip, check.port, check.serverName, check.sqls⟩ else none

/-- The objects with their hosts, in the order in which they are collected. -/
def objects (hosts : List (String × List Check)) : List (String × PartitionObject) :=
  (checks hosts).filterMap fun check => check.2.object.map fun object => (check.1, object)

theorem collect_eq : Grouping.Holds (collect hosts).doSomething (objects hosts) ∧
    (collect hosts).nothing = (checks hosts).flatMap (·.2.nothingToDo) ∧
    (collect hosts).checkFail = (checks hosts).flatMap (·.2.fail) := by
  have hflat : collect hosts =
      (checks hosts).foldl (fun s check => collectOne s check.1 check.2) ⟨∅, [], []⟩ := by
    rw [collect, checks, List.foldl_flatMap]
    congr 1
    funext s host
    rw [List.foldl_map]
  rw [hflat, objects]
  generalize checks hosts = l
  induction l using List.reverseRecOn with
  | nil => exact ⟨Grouping.holds_nil, rfl, rfl⟩
  | append_singleton l check ih =>
    obtain ⟨hobjects, hnothing, hfail⟩ := ih
    rw [List.foldl_append, List.foldl_cons, List.foldl_nil]
    generalize l.foldl (fun s check => collectOne s check.1 check.2) ⟨∅, [], []⟩ = s
      at hobjects hnothing hfail
    refine ⟨?_, ?_, ?_⟩
    · rw [List.filterMap_append, collectOne]
      by_cases hsqls : check.2.sqls.length > 0
      · simpa [Check.object, hsqls] using hobjects.add
      · simpa [Check.object, hsqls] using hobjects
    · simp [collectOne, hnothing]
    · simp [collectOne, hfail]

theorem mem_foldl_noteId : id ∈ sqls.foldl noteId ids ↔
    id ∈ ids ∨ ∃ sql ∈ sqls, sql.configId = id := by
  induction sqls generalizing ids with
  | nil => simp
  | cons sql sqls ih =>
    rw [List.foldl_cons, ih, noteId]
    split
    · grind
    · grind

/-- The hosts are ranged over in any order: each keeps what is left of its own objects. -/
theorem foldl_keepHost {l : List (Sigma fun _ : String => List PartitionObject)}
    (hl : l.NodupKeys) :
    ((l.foldl (keepHost failIds) d).doList.lookup host =
      (l.dlookup host).elim (d.doList.lookup host) fun objects =>
        if objects.filterMap (keepObject failIds) = [] then d.doList.lookup host
        else some (objects.filterMap (keepObject failIds))) ∧
    (id ∈ (l.foldl (keepHost failIds) d).uniqDo ↔ id ∈ d.uniqDo ∨ ∃ e ∈ l,
      ∃ object ∈ e.2.filterMap (keepObject failIds), ∃ sql ∈ object.executeObjects,
        sql.configId = id) := by
  induction l generalizing d with
  | nil => simp
  | cons e l ih =>
    obtain ⟨ip, objects⟩ := e
    obtain ⟨hnot, hl⟩ := List.nodupKeys_cons.mp hl
    obtain ⟨hlookup, hids⟩ := @ih (keepHost failIds d ⟨ip, objects⟩) hl
    constructor
    · rw [List.foldl_cons, hlookup]
      by_cases hip : host = ip
      · subst hip
        rw [List.dlookup_cons_eq, List.dlookup_eq_none.mpr hnot, Option.elim_none, Option.elim_some]
        by_cases hempty : objects.filterMap (keepObject failIds) = []
        · simp [keepHost, hempty]
        · have hpos : 0 < (objects.filterMap (keepObject failIds)).length :=
            List.length_pos_iff.mpr hempty
          rw [keepHost, if_pos hpos, AList.lookup_insert, if_neg hempty]
      · have hsame : (keepHost failIds d ⟨ip, objects⟩).doList.lookup host = d.doList.lookup host := by
          unfold keepHost
          dsimp only
          split
          · exact AList.lookup_insert_ne hip
          · rfl
        rw [List.dlookup_cons_ne _ _ hip, hsame]
    · rw [List.foldl_cons, hids, keepHost, mem_foldl_noteId]
      simp only [List.mem_flatMap, List.exists_mem_cons_iff]
      grind

theorem foldl_keepNothing {doIds : List ℤ} {items init : List IdLog}
    (hinit : (init.map (·.configId)).Nodup) :
    ((items.foldl (keepNothing doIds failIds) init).map (·.configId)).Nodup ∧
    (id ∈ (items.foldl (keepNothing doIds failIds) init).map (·.configId) ↔
      id ∈ init.map (·.configId) ∨
        id ∉ doIds ∧ id ∉ failIds ∧ ∃ item ∈ items, item.configId = id) := by
  induction items generalizing init with
  | nil => simp [hinit]
  | cons item items ih =>
    rw [List.foldl_cons, keepNothing]
    split
    · rename_i hnew
      have hinit' : ((init ++ [⟨item.configId, ""⟩] : List IdLog).map (·.configId)).Nodup := by
        rw [List.map_append, List.nodup_append]
        refine ⟨hinit, List.nodup_singleton _, ?_⟩
        intro a ha b hb hab
        obtain rfl : b = item.configId := List.mem_singleton.mp hb
        exact hnew.2.2 (hab ▸ ha)
      obtain ⟨hnodup, hmem⟩ := ih hinit'
      refine ⟨hnodup, hmem.trans ?_⟩
      simp only [List.map_append, List.mem_append, List.map_cons, List.map_nil, List.mem_singleton,
        List.exists_mem_cons_iff]
      grind
    · rename_i hold
      obtain ⟨hnodup, hmem⟩ := ih hinit
      refine ⟨hnodup, hmem.trans ?_⟩
      simp only [List.exists_mem_cons_iff]
      grind

theorem filter_of_nodup {α : Type} {key : α → ℤ} {l : List α} {a : α} (hl : (l.map key).Nodup)
    (ha : a ∈ l) : (l.filter fun b => key b = key a) = [a] := by
  induction l with
  | nil => cases ha
  | cons b l ih =>
    obtain ⟨hnot, hl⟩ := List.nodup_cons.mp hl
    rcases List.mem_cons.mp ha with rfl | ha
    · rw [List.filter_cons_of_pos (by simp)]
      congr 1
      apply List.filter_eq_nil_iff.mpr
      intro b hb heq
      exact hnot (of_decide_eq_true heq ▸ List.mem_map_of_mem hb)
    · have hne : key b ≠ key a := fun heq => hnot (heq ▸ List.mem_map_of_mem ha)
      rw [List.filter_cons_of_neg (by simpa using hne)]
      exact ih hl ha

end

instance (hosts : List (String × List Check)) (id : ℤ) : Decidable (Failed hosts id) :=
  inferInstanceAs (Decidable (∃ _ ∈ _, _))

instance (hosts : List (String × List Check)) (id : ℤ) : Decidable (ToExecute hosts id) :=
  inferInstanceAs (Decidable (_ ∧ ∃ _ ∈ _, _))

instance (hosts : List (String × List Check)) (id : ℤ) : Decidable (NothingToDo hosts id) :=
  inferInstanceAs (Decidable (_ ∧ _ ∧ ∃ _ ∈ _, _))

/-- The statements of an instance, less those of rules that failed somewhere. -/
def sentTo (hosts : List (String × List Check)) (check : Check) : Option PartitionObject :=
  let sqls := check.sqls.filter fun sql => ¬ Failed hosts sql.configId
  if sqls.length > 0 then some ⟨check.ip, check.port, check.serverName, sqls⟩ else none

/-- What the instances of a host are sent. -/
def sent (hosts : List (String × List Check)) (host : String) : List PartitionObject :=
  ((checks hosts).filter fun check => check.1 = host).filterMap fun check => sentTo hosts check.2

/-- The entries of a rule. -/
def entries (hosts : List (String × List Check)) (vdate : String) (id : ℤ) :
    List PartitionCronLog :=
  if Failed hosts id then
    [⟨id, scheduler, vdate, "\n".intercalate (messages hosts id), "failed"⟩]
  else if NothingToDo hosts id then [⟨id, scheduler, vdate, "nothing to do", "succeeded"⟩]
  else []

/-- The shards are merged: each rule that occurs is of one class, the rules to execute are those with
statements among the results, each instance is sent its own ones, and each rule that failed or has
nothing to do is logged once. -/
structure Consistent (hosts : List (String × List Check)) (vdate : String) (m : Merged) : Prop where
  classes : ∀ id, Occurs hosts id →
    (Failed hosts id ∧ ¬ ToExecute hosts id ∧ ¬ NothingToDo hosts id) ∨
    (¬ Failed hosts id ∧ ToExecute hosts id ∧ ¬ NothingToDo hosts id) ∨
    (¬ Failed hosts id ∧ ¬ ToExecute hosts id ∧ NothingToDo hosts id)
  executed : ∀ id, ToExecute hosts id ↔ ∃ host objects, m.doList.lookup host = some objects ∧
    ∃ object ∈ objects, ∃ sql ∈ object.executeObjects, sql.configId = id
  statements : ∀ host, m.doList.lookup host =
    if sent hosts host = [] then none else some (sent hosts host)
  logged : ∀ id, (m.logs.filter fun log => log.configId = id) = entries hosts vdate id

section

variable {hosts : List (String × List Check)} {o : Orders} {id : ℤ} {host vdate clusterType : String}
  {fails : PartitionCronLog → Bool}

theorem classes (h : Occurs hosts id) :
    (Failed hosts id ∧ ¬ ToExecute hosts id ∧ ¬ NothingToDo hosts id) ∨
    (¬ Failed hosts id ∧ ToExecute hosts id ∧ ¬ NothingToDo hosts id) ∨
    (¬ Failed hosts id ∧ ¬ ToExecute hosts id ∧ NothingToDo hosts id) := by
  by_cases hfailed : Failed hosts id
  · exact Or.inl ⟨hfailed, fun hdo => hdo.1 hfailed, fun hnothing => hnothing.1 hfailed⟩
  · by_cases hdo : ToExecute hosts id
    · exact Or.inr (Or.inl ⟨hfailed, hdo, fun hnothing => hnothing.2.1 hdo⟩)
    · refine Or.inr (Or.inr ⟨hfailed, hdo, hfailed, hdo, ?_⟩)
      obtain ⟨check, hcheck, hitem | hsql | hitem⟩ := h
      · exact absurd ⟨check, hcheck, hitem⟩ hfailed
      · exact absurd ⟨hfailed, check, hcheck, hsql⟩ hdo
      · exact ⟨check, hcheck, hitem⟩

theorem values_eq : Grouping.values ((collect hosts).checkFail.map fun item =>
    (item.configId, item.log)) id = messages hosts id := by
  rw [Grouping.values, List.filter_map, List.map_map, collect_eq.2.2]
  rfl

theorem messages_ne_nil : messages hosts id ≠ [] ↔ Failed hosts id := by
  constructor
  · intro h
    obtain ⟨log, hlog⟩ := List.exists_mem_of_ne_nil _ h
    obtain ⟨item, hitem, -⟩ := List.mem_map.mp hlog
    obtain ⟨hmem, hid⟩ := List.mem_filter.mp hitem
    obtain ⟨check, hcheck, hin⟩ := List.mem_flatMap.mp hmem
    exact ⟨check, hcheck, item, hin, of_decide_eq_true hid⟩
  · rintro ⟨check, hcheck, item, hin, hid⟩
    have hmem : item ∈ (checks hosts).flatMap (·.2.fail) :=
      List.mem_flatMap.mpr ⟨check, hcheck, hin⟩
    exact List.ne_nil_of_mem (List.mem_map_of_mem (List.mem_filter.mpr ⟨hmem, decide_eq_true hid⟩))

theorem mem_uniqCheckFail {e : Sigma fun _ : ℤ => List String} :
    e ∈ (uniqCheckFail (collect hosts)).entries ↔ e.2 = messages hosts e.1 ∧ Failed hosts e.1 := by
  have hholds := Grouping.holds_foldl IdLog.configId IdLog.log (collect hosts).checkFail
  rw [uniqCheckFail, hholds.mem_entries, values_eq, messages_ne_nil]

theorem mem_failIds : id ∈ failIds o (collect hosts) ↔ Failed hosts id := by
  rw [failIds, List.mem_map]
  constructor
  · rintro ⟨e, he, rfl⟩
    exact (mem_uniqCheckFail.mp (o.fails.mem_order.mp he)).2
  · intro h
    exact ⟨⟨id, messages hosts id⟩, o.fails.mem_order.mpr (mem_uniqCheckFail.mpr ⟨rfl, h⟩), rfl⟩

theorem nodup_checkFailList (s : Collected) :
    ((checkFailList o s).map (·.configId)).Nodup := by
  rw [checkFailList, List.map_map]
  exact ((o.fails.perm _).map Sigma.fst).nodup_iff.mpr (uniqCheckFail s).nodupKeys

theorem keepObject_eq (check : Check) :
    check.object.bind (keepObject (failIds o (collect hosts))) = sentTo hosts check := by
  have hfilter : (check.sqls.filter fun sql => sql.configId ∉ failIds o (collect hosts)) =
      check.sqls.filter fun sql => ¬ Failed hosts sql.configId := by
    apply List.filter_congr
    intro sql _
    simp only [mem_failIds]
  unfold Check.object sentTo
  split
  · rw [Option.bind_some, keepObject, hfilter]
  · rename_i hsqls
    have hempty : check.sqls = [] := List.length_eq_zero_iff.mp (by omega)
    simp [hempty]

theorem filterMap_keepObject : (Grouping.values (objects hosts) host).filterMap
    (keepObject (failIds o (collect hosts))) = sent hosts host := by
  rw [Grouping.values, objects, sent]
  generalize checks hosts = l
  induction l with
  | nil => rfl
  | cons check l ih =>
    have hone := @keepObject_eq hosts o check.2
    by_cases hhost : check.1 = host
    · rw [@List.filter_cons_of_pos _ _ check l (decide_eq_true hhost), List.filterMap_cons,
        List.filterMap_cons, ← hone]
      cases hobject : check.2.object with
      | none => simpa [hobject] using ih
      | some object =>
        simp only [Option.map_some, Option.bind_some]
        rw [List.filter_cons_of_pos (by simpa using hhost), List.map_cons, List.filterMap_cons, ih]
    · rw [@List.filter_cons_of_neg _ _ check l (by simpa using hhost), List.filterMap_cons]
      cases hobject : check.2.object with
      | none => exact ih
      | some object =>
        simp only [Option.map_some]
        rw [List.filter_cons_of_neg (by simpa using hhost)]
        exact ih

theorem lookup_kept : (kept o (collect hosts)).doList.lookup host =
    if sent hosts host = [] then none else some (sent hosts host) := by
  have hkeys : (o.hosts.order (collect hosts).doSomething.entries).NodupKeys :=
    (List.perm_nodupKeys (o.hosts.perm _)).mpr (collect hosts).doSomething.nodupKeys
  have hlookup : (o.hosts.order (collect hosts).doSomething.entries).dlookup host =
      (collect hosts).doSomething.lookup host := List.perm_dlookup host hkeys (o.hosts.perm _)
  rw [kept, (@foldl_keepHost _ 0 host ⟨∅, []⟩ _ hkeys).1, hlookup, collect_eq.1 host]
  by_cases hvalues : Grouping.values (objects hosts) host = []
  · have hsent : sent hosts host = [] := by rw [← @filterMap_keepObject hosts o, hvalues]; rfl
    rw [if_pos hvalues, if_pos hsent]
    rfl
  · rw [if_neg hvalues, Option.elim_some, filterMap_keepObject]
    rfl

/-- The rules of what is sent are those that are to be executed. -/
theorem toExecute_iff : ToExecute hosts id ↔ ∃ host, ∃ object ∈ sent hosts host,
    ∃ sql ∈ object.executeObjects, sql.configId = id := by
  constructor
  · rintro ⟨hfailed, ⟨host, check⟩, hcheck, sql, hsql, rfl⟩
    have hmem : sql ∈ check.sqls.filter fun sql => ¬ Failed hosts sql.configId :=
      List.mem_filter.mpr ⟨hsql, decide_eq_true hfailed⟩
    refine ⟨host, _, List.mem_filterMap.mpr ⟨(host, check), List.mem_filter.mpr
      ⟨hcheck, decide_eq_true rfl⟩, if_pos (List.length_pos_of_mem hmem)⟩, sql, hmem, rfl⟩
  · rintro ⟨host, object, hobject, sql, hsql, rfl⟩
    obtain ⟨check, hcheck, hsent⟩ := List.mem_filterMap.mp hobject
    obtain ⟨hcheck, -⟩ := List.mem_filter.mp hcheck
    unfold sentTo at hsent
    dsimp only at hsent
    split at hsent
    · obtain rfl := Option.some.inj hsent
      obtain ⟨hmem, hfailed⟩ := List.mem_filter.mp hsql
      exact ⟨of_decide_eq_true hfailed, check, hcheck, sql, hmem, rfl⟩
    · cases hsent

theorem mem_uniqDo : id ∈ (kept o (collect hosts)).uniqDo ↔ ToExecute hosts id := by
  have hkeys : (o.hosts.order (collect hosts).doSomething.entries).NodupKeys :=
    (List.perm_nodupKeys (o.hosts.perm _)).mpr (collect hosts).doSomething.nodupKeys
  rw [kept, (@foldl_keepHost _ id "" ⟨∅, []⟩ _ hkeys).2, toExecute_iff]
  constructor
  · rintro (h | ⟨⟨host, objects'⟩, he, hobject⟩)
    · cases h
    · have hvalues : objects' = Grouping.values (objects hosts) host :=
        (collect_eq.1.mem_entries.mp (o.hosts.mem_order.mp he)).1
      refine ⟨host, ?_⟩
      rw [← @filterMap_keepObject hosts o, ← hvalues]
      exact hobject
  · rintro ⟨host, object, hobject, hsql⟩
    right
    rw [← @filterMap_keepObject hosts o] at hobject
    have hne : Grouping.values (objects hosts) host ≠ [] := by
      intro hnil
      rw [hnil] at hobject
      cases hobject
    exact ⟨⟨host, _⟩, o.hosts.mem_order.mpr (collect_eq.1.mem_entries.mpr ⟨rfl, hne⟩), object,
      hobject, hsql⟩

theorem nothingList_spec : ((nothingList o (collect hosts)).map (·.configId)).Nodup ∧
    (id ∈ (nothingList o (collect hosts)).map (·.configId) ↔ NothingToDo hosts id) := by
  obtain ⟨hnodup, hmem⟩ := @foldl_keepNothing (failIds o (collect hosts)) id
    (o.ids.order (kept o (collect hosts)).uniqDo) (collect hosts).nothing [] List.nodup_nil
  refine ⟨hnodup, hmem.trans ?_⟩
  rw [o.ids.mem_order, mem_uniqDo, mem_failIds, collect_eq.2.1]
  constructor
  · rintro (h | ⟨hdo, hfailed, item, hitem, hid⟩)
    · cases h
    · obtain ⟨check, hcheck, hin⟩ := List.mem_flatMap.mp hitem
      exact ⟨hfailed, hdo, check, hcheck, item, hin, hid⟩
  · rintro ⟨hfailed, hdo, check, hcheck, item, hin, hid⟩
    exact Or.inr ⟨hdo, hfailed, item, List.mem_flatMap.mpr ⟨check, hcheck, hin⟩, hid⟩

theorem filter_addLogBatch {configs : List IdLog} {status sameLog : String}
    (hfails : ∀ log, fails log = false) (id : ℤ) :
    ((addLogBatch fails configs vdate scheduler status sameLog).filter fun log =>
      log.configId = id) =
    (configs.filter fun config => config.configId = id).map fun config =>
      ⟨id, scheduler, vdate, if sameLog ≠ "" then sameLog else config.log, status⟩ := by
  have hnone : ∀ logs : List PartitionCronLog, logs.any fails = false := by
    intro logs
    rw [List.any_eq_false]
    intro log _
    rw [hfails log]
    exact Bool.false_ne_true
  rw [addLogBatch, hnone, if_neg Bool.false_ne_true, List.filter_map]
  apply List.map_congr_left
  intro config hconfig
  obtain ⟨-, hid⟩ := List.mem_filter.mp hconfig
  obtain rfl : config.configId = id := of_decide_eq_true hid
  rfl

theorem filter_checkFailList : ((checkFailList o (collect hosts)).filter fun config =>
    config.configId = id) =
      if Failed hosts id then [⟨id, "\n".intercalate (messages hosts id)⟩] else [] := by
  split
  · rename_i hfailed
    have hmem : (⟨id, "\n".intercalate (messages hosts id)⟩ : IdLog) ∈
        checkFailList o (collect hosts) :=
      List.mem_map.mpr ⟨⟨id, messages hosts id⟩,
        o.fails.mem_order.mpr (mem_uniqCheckFail.mpr ⟨rfl, hfailed⟩), rfl⟩
    exact filter_of_nodup (nodup_checkFailList (collect hosts)) hmem
  · rename_i hfailed
    apply List.filter_eq_nil_iff.mpr
    intro config hconfig hid
    obtain ⟨e, he, rfl⟩ := List.mem_map.mp hconfig
    obtain ⟨-, hbad⟩ := mem_uniqCheckFail.mp (o.fails.mem_order.mp he)
    exact hfailed (of_decide_eq_true hid ▸ hbad)

theorem filter_nothingList (log : PartitionCronLog) :
    (((nothingList o (collect hosts)).filter fun config => config.configId = id).map fun _ => log) =
      if NothingToDo hosts id then [log] else [] := by
  obtain ⟨hnodup, hmem⟩ := @nothingList_spec hosts o id
  split
  · rename_i hnothing
    obtain ⟨config, hconfig, rfl⟩ := List.mem_map.mp (hmem.mpr hnothing)
    rw [filter_of_nodup hnodup hconfig]
    rfl
  · rename_i hnothing
    rw [List.map_eq_nil_iff]
    apply List.filter_eq_nil_iff.mpr
    intro config hconfig hid
    exact hnothing (hmem.mp (of_decide_eq_true hid ▸ List.mem_map_of_mem hconfig))

/-- Whatever the instances return, and however the maps are ranged over, the merge is consistent. -/
theorem merged_consistent (hfails : ∀ log, fails log = false) :
    Consistent hosts vdate (needExecuteList o fails (collect hosts) vdate clusterType) := by
  constructor
  case classes => exact fun id => classes
  case executed =>
    intro id
    rw [toExecute_iff]
    constructor
    · rintro ⟨host, object, hobject, hsql⟩
      exact ⟨host, sent hosts host, lookup_kept.trans (if_neg (List.ne_nil_of_mem hobject)), object,
        hobject, hsql⟩
    · rintro ⟨host, objects', hlookup, object, hobject, hsql⟩
      have hkept := (lookup_kept (o := o)).symm.trans hlookup
      split at hkept
      · cases hkept
      · obtain rfl := Option.some.inj hkept
        exact ⟨host, object, hobject, hsql⟩
  case statements => exact fun host => lookup_kept
  case logged =>
    intro id
    have hnothing := @filter_nothingList hosts o id
      ⟨id, scheduler, vdate, "nothing to do", "succeeded"⟩
    rw [needExecuteList, List.filter_append, filter_addLogBatch hfails, filter_addLogBatch hfails,
      filter_checkFailList, entries]
    simp only [ne_eq, String.reduceEq, not_false_eq_true, not_true_eq_false, if_true, if_false,
      hnothing]
    by_cases hfailed : Failed hosts id
    · have hclear : ¬ NothingToDo hosts id := fun hnothing => hnothing.1 hfailed
      rw [if_pos hfailed, if_neg hclear, if_pos hfailed, List.append_nil]
      rfl
    · rw [if_neg hfailed, if_neg hfailed]
      rfl

end

/-- A rule that fails on one instance, and one with statements on one and nothing to do on another. -/
def sampleHosts : List (String × List Check) :=
  [("host1|0", [⟨"host1", 20000, "s0", [⟨1, "d_0", "t", [], ["add"], []⟩, ⟨2, "d_0", "u", [], [], ["drop"]⟩],
      [], []⟩]),
    ("host2|0", [⟨"host2", 20000, "s1", [], [⟨1, ""⟩, ⟨3, ""⟩], [⟨2, "no table"⟩]⟩])]

def sampleOrders : Orders := ⟨RangeOrder.still, RangeOrder.still, RangeOrder.still⟩

theorem merged_consistent_sample : Consistent sampleHosts "20240101"
    (needExecuteList sampleOrders (fun _ => false) (collect sampleHosts) "20240101" "tendbcluster") :=
  merged_consistent fun _ => rfl

end Partition.Shards
