import BluekingDbm.Config.Encryption
import BluekingDbm.Library.Ranging
import BluekingDbm.Library.Table

/-! The effective configuration of a node: the platform's defaults and the items of every level above
the node are read and merged, the lowest level first. -/
namespace Config

open Base64 (Bytes)

inductive ConfigError
  | message (text : String)
  | item (e : ItemError)
deriving DecidableEq

def configLevelMap : List (String × ℕ) :=
  [("plat", 10), ("app", 20), ("bk_biz_id", 20), ("bk_cloud_id", 25), ("module", 30),
    ("db_module_id", 30), ("cluster", 50), ("cluster_domain", 50), ("role", 60), ("host", 70),
    ("instance", 80)]

/-- The priority of a level; lower levels have higher numbers. -/
def configLevel (levelName : String) : Option ℕ := configLevelMap.lookup levelName

def getConfigLevelsUp (r : RangeOrder (String × ℕ)) (levelName : String) : List String :=
  ((r.order configLevelMap).filter fun e => decide (e.2 < (configLevel levelName).getD 0)).map
    Prod.fst

structure BaseConfigNode where
  bkBizID : String
  nameSpace : String
  confType : String
  confFile : String
  levelName : String
  levelValue : String

/-- One value for each level named. -/
abbrev LevelInfo := AList fun _ : String => String

structure QueryConfigOptions where
  confName : String
  confValue : Bytes
  decrypt : Bool
  view : String

/-- The tables, and what the tables of files and of published versions answer: the levels a file
has (if it is defined), and the module of a cluster and the cluster of an instance (empty if there is
none). -/
structure Tables where
  nameDef : List ConfigNameDefModel
  namePlat : List ConfigNameDefModel
  node : List ConfigModel
  levelNameList : BaseConfigNode → Option (List String)
  moduleByCluster : BaseConfigNode → String
  clusterByInstance : BaseConfigNode → String

/-- The orders in which the maps are ranged over. -/
structure Orders where
  levelMap : RangeOrder (String × ℕ)
  levelInfo : RangeOrder (Sigma fun _ : String => String)
  merged : RangeOrder ConfigModel

/-- The row belongs to the file and to the names and values asked for. -/
def nameWhere (s : BaseConfigNode) (o : QueryConfigOptions) (d : ConfigNameDefModel) : Bool :=
  decide (d.nameSpace = s.nameSpace ∧ d.confType = s.confType ∧ d.confFile = s.confFile ∧
    (o.confName = "" ∨ d.confName = o.confName) ∧ (o.confValue = [] ∨ d.valueDefault = o.confValue))

/-- One override: it deletes the definition of its name, or takes its place, or adds a name. -/
def overlay (namesDef : List ConfigNameDefModel) (namePlat : ConfigNameDefModel) :
    List ConfigNameDefModel :=
  match namesDef.findIdx? fun d => decide (d.confName = namePlat.confName) with
  | some i =>
    if namePlat.deleted > 0 then namesDef.eraseIdx i
    else namesDef.set i { namePlat with id := 0, createFrom := "def" }
  | none =>
    if namePlat.deleted ≤ 0 then namesDef ++ [{ namePlat with id := 0, createFrom := "plat" }]
    else namesDef

def mergeConfNamePlat (confNamesDef confNamesPlat : List ConfigNameDefModel) :
    List ConfigNameDefModel := confNamesPlat.foldl overlay confNamesDef

def queryPlat (db : Tables) (s : BaseConfigNode) (o : QueryConfigOptions) :
    List ConfigNameDefModel :=
  mergeConfNamePlat (db.nameDef.filter (nameWhere s o)) (db.namePlat.filter (nameWhere s o))

def newConfigFromNameDef (nameDef : ConfigNameDefModel) : ConfigModel where
  id := 0
  bkBizID := "0"
  nameSpace := nameDef.nameSpace
  confType := nameDef.confType
  confFile := nameDef.confFile
  confName := nameDef.confName
  confValue := nameDef.valueDefault
  levelName := "plat"
  levelValue := "0"
  description := nameDef.confNameLC
  flagDisable := nameDef.flagDisable
  flagLocked := nameDef.flagLocked
  updatedRevision := ""
  upLevelValue := none

/-- Levels above the node that the file has must be named; the platform and the business need not. -/
def getUpLevelInfo (db : Tables) (r : RangeOrder (String × ℕ)) (s : BaseConfigNode)
    (up : LevelInfo) : Except ConfigError LevelInfo :=
  let upLevel := match db.levelNameList s with
    | none => []
    | some fileLevels => (getConfigLevelsUp r s.levelName).filter fun l => decide (l ∈ fileLevels)
  match upLevel.find? fun l => decide (l ≠ "plat" ∧ l ≠ "app" ∧ l ∉ up) with
  | some l => .error (.message ("level=" ++ s.levelName ++ " need up level_info " ++ l))
  | none => .ok up

def nodeWhere (s : BaseConfigNode) (o : QueryConfigOptions) (levelName levelValue : String)
    (c : ConfigModel) : Bool :=
  decide (c.nameSpace = s.nameSpace ∧ c.confType = s.confType ∧ c.confFile = s.confFile ∧
    c.bkBizID = s.bkBizID ∧ c.levelName = levelName ∧ c.levelValue = levelValue ∧
    (o.confName = "" ∨ c.confName = o.confName) ∧ (o.confValue = [] ∨ c.confValue = o.confValue))

/-- The items of one level. The column of the upper value is none of the table's. -/
def queryLevel (db : Tables) (s : BaseConfigNode) (o : QueryConfigOptions)
    (levelName levelValue : String) : List ConfigModel :=
  (db.node.filter (nodeWhere s o levelName levelValue)).map fun c => { c with upLevelValue := none }

/-- The levels that are read: those of the level information, the node's own and the business. -/
def levelPath (s : BaseConfigNode) (up : LevelInfo) : LevelInfo :=
  (up.insert s.levelName s.levelValue).insert "app" s.bkBizID

def getSimpleConfig (db : Tables) (K : Codec) (keyPrefix : Bytes) (rs : Orders)
    (s : BaseConfigNode) (up : LevelInfo) (o : QueryConfigOptions) :
    Except ConfigError (List ConfigModel × List ConfigNameDefModel) := do
  let up ← getUpLevelInfo db rs.levelMap s up
  let configsPlat := queryPlat db s o
  let platRows := (configsPlat.filter fun d => decide (d.flagVisible = 1)).map newConfigFromNameDef
  let levels := (rs.levelInfo.order (levelPath s up).entries).filter fun e => decide (e.1 ≠ "plat")
  let allLevelConfigs := platRows ++ levels.flatMap fun e => queryLevel db s o e.1 e.2
  if o.decrypt then
    match allLevelConfigs.mapM fun c => c.mayDecrypt K keyPrefix with
    | .ok allLevelConfigs => return (allLevelConfigs, configsPlat)
    | .error e => throw (.item e)
  else return (allLevelConfigs, configsPlat)

def configLevelCompare (a b : ConfigModel) : Except ConfigError ℤ :=
  match configLevel a.levelName with
  | some aLevel =>
    match configLevel b.levelName with
    | some bLevel =>
      if aLevel > bLevel then .ok 1
      else if aLevel < bLevel then .ok (-1)
      else .error (.message (a.confName ++ ": 出现重复level_name"))
    | none => .error (.message ("unknown configLevel1 " ++ b.levelName))
  | none => .error (.message ("unknown configLevel2 " ++ a.levelName))

def configKey (view : String) (c : ConfigModel) : Except ConfigError String :=
  if view = "raw" then
    .ok (c.bkBizID ++ "|" ++ c.nameSpace ++ "|" ++ c.confType ++ "|" ++ c.confFile ++ "|" ++
      c.confName ++ "|" ++ c.levelName ++ "|" ++ c.levelValue)
  else if "merge".toList <+: view.toList then
    .ok (c.nameSpace ++ "|" ++ c.confType ++ "|" ++ c.confFile ++ "|" ++ c.confName)
  else .error (.message "no view given")

def mergeOne (view : String) (configMergeMap : AList fun _ : String => ConfigModel)
    (config : ConfigModel) : Except ConfigError (AList fun _ : String => ConfigModel) := do
  let key ← configKey view config
  match configMergeMap.lookup key with
  | none => return configMergeMap.insert key config
  | some held =>
    let r ← configLevelCompare config held
    if r > 0 then return configMergeMap.insert key config else return configMergeMap

def mergeConfig (r : RangeOrder ConfigModel) (configs : List ConfigModel) (view : String) :
    Except ConfigError (List ConfigModel) := do
  let configMergeMap ← configs.foldlM (mergeOne view) ∅
  return r.order (Table.values configMergeMap)

/-- The same merge without the rows of one level. -/
def mergeConfigLevelUp (r : RangeOrder ConfigModel) (configs : List ConfigModel)
    (levelExclude view : String) : Except ConfigError (List ConfigModel) :=
  mergeConfig r (configs.filter fun c => decide (c.levelName ≠ levelExclude)) view

/-- The rows of the node's own level are told what they override. -/
def setUpLevelValue (upConfigs : List ConfigModel) (levelName : String) (c : ConfigModel) :
    ConfigModel :=
  if c.levelName = levelName then
    match upConfigs.reverse.find? fun u => decide (u.confName = c.confName) with
    | some u => { c with upLevelValue := some ⟨u.levelName, u.levelValue, u.confValue⟩ }
    | none => c
  else c

/-- Below the platform, the node's own rows carry what they override; a failed merge of the upper
levels is ignored. -/
def noteUpLevels (r : RangeOrder ConfigModel) (configs : List ConfigModel) (levelName view : String) :
    List ConfigModel :=
  if levelName ≠ "plat" then
    match mergeConfigLevelUp r configs levelName view with
    | .ok upConfigs => configs.map (setUpLevelValue upConfigs levelName)
    | .error _ => configs.map (setUpLevelValue [] levelName)
  else configs

/-- Blanks removed, split at commas and semicolons, each user once, joined by commas. -/
def uniqueUsers (confValue : Bytes) : Bytes :=
  let noBlank := confValue.filter fun b => decide (b ∉ ([9, 10, 12, 13, 32] : Bytes))
  let userList := (noBlank.splitOnP fun b => b == 44 || b == 59).filter fun u => !u.isEmpty
  List.intercalate [44] userList.eraseDups

def processConfig (c : ConfigModel) : ConfigModel :=
  if c.confType = "user" ∨ c.confFile = "notifier" then
    { c with confValue := uniqueUsers c.confValue }
  else c

/-- The definition that each name has on the platform. -/
def removeConfigsPlat (allPlat : List ConfigNameDefModel) : String → Option ConfigNameDefModel :=
  allPlat.foldl (fun newPlat d => Function.update newPlat d.confName (some d)) fun _ => none

def queryParentLevelValue (db : Tables) (s : BaseConfigNode) : Except ConfigError LevelInfo := do
  let (parentName, parentVal) ← match s.levelName with
    | "plat" => pure ("plat", "0")
    | "app" => pure ("plat", "0")
    | "module" => pure ("app", s.bkBizID)
    | "cluster" => pure ("module", db.moduleByCluster s)
    | "instance" => pure ("cluster", db.clusterByInstance s)
    | _ => throw (.message ("fail to get parent level for " ++ s.levelName ++ " " ++ s.levelValue))
  if parentVal = "" then
    throw (.message ("cannot find parent level for " ++ s.levelName ++ " " ++ s.levelValue))
  return AList.singleton parentName parentVal

/-- Clusters, instances and hosts need their upper levels; if none is given the parent is looked
up. -/
def parentFilled (db : Tables) (s : BaseConfigNode) (up : LevelInfo) :
    Except ConfigError LevelInfo :=
  if (s.levelName = "cluster" ∨ s.levelName = "instance" ∨ s.levelName = "host") ∧ up.entries = []
  then queryParentLevelValue db s
  else .ok up

def getMergedConfig (db : Tables) (K : Codec) (keyPrefix : Bytes) (rs : Orders)
    (s : BaseConfigNode) (up : LevelInfo) (o : QueryConfigOptions) :
    Except ConfigError (List ConfigModel × (String → Option ConfigNameDefModel)) := do
  let up ← parentFilled db s up
  let (configs, confNames) ← getSimpleConfig db K keyPrefix rs s up o
  let configs ← mergeConfig rs.merged (noteUpLevels rs.merged configs s.levelName o.view) o.view
  return (configs.map processConfig, removeConfigsPlat confNames)

end Config
