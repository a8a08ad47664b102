import BluekingDbm.Config.Merge

/-! Writing a batch of items, and the record of what each of them was before and is after. -/
namespace Config

open Base64 (Bytes)

inductive OPType
  | add
  | update
  | remove
  | upsert
  | removeRef
deriving DecidableEq

def OPType.text : OPType → String
  | add => "add"
  | update => "update"
  | remove => "remove"
  | upsert => "upsert"
  | removeRef => "remove_ref"

structure ConfigModelOp where
  config : ConfigModel
  opType : OPType

/-- What the record keeps of an item. -/
structure ConfItem where
  confValue : Bytes
  description : String
  flagDisable : ℤ
  flagLocked : ℤ
  levelFrom : String
deriving DecidableEq

def ConfItem.empty : ConfItem := ⟨[], "", 0, 0, ""⟩

def newConfItemFromModel (c : ConfigModel) : ConfItem :=
  ⟨c.confValue, c.description, c.flagDisable, c.flagLocked, c.levelName⟩

structure ConfItemChangesModel where
  bkBizID : String
  nameSpace : String
  confType : String
  confFile : String
  confName : String
  levelName : String
  levelValue : String
  beforeImage : ConfItem
  afterImage : ConfItem
  opUser : String
  opType : String
deriving DecidableEq

/-- The numbers that the table gives to new rows. -/
structure AutoIncrement where
  next : List ConfigModel → ℕ
  fresh : ∀ node, ∀ c ∈ node, c.id ≠ next node

/-- What the configuration centre runs on: the ciphers and their key, the names as they are cached,
the numbers of new rows, and the orders of its maps, which may differ from one query to the next. -/
structure Centre where
  codec : Codec
  keyPrefix : Bytes
  nameDef (nameSpace confType confFile confName : String) : NameLookup
  ids : AutoIncrement
  orders (confName : String) : Orders

namespace ConfigModel

def uniqueWhere (c : ConfigModel) : String × String × String × String × String × String × String :=
  (c.bkBizID, c.nameSpace, c.confType, c.confFile, c.confName, c.levelName, c.levelValue)

/-- The node that the item is set at. -/
def baseInfo (c : ConfigModel) : BaseConfigNode :=
  ⟨c.bkBizID, c.nameSpace, c.confType, c.confFile, c.levelName, c.levelValue⟩

end ConfigModel

/-- The number of the row that stands for the item, if there is one. -/
def recordExists (node : List ConfigModel) (c : ConfigModel) : Except ConfigError (Option ℕ) :=
  match node.find? fun r => decide (r.uniqueWhere = c.uniqueWhere) with
  | none => .ok none
  | some r =>
    if c.id > 0 ∧ c.id ≠ r.id then
      .error (.message ("id error id_1=" ++ toString c.id ++ ", id_2=" ++ toString r.id))
    else .ok (some r.id)

/-- Before an item is written, it gets the number of its row. -/
def identified (node : List ConfigModel) (op : ConfigModelOp) : Except ConfigError ConfigModel :=
  if op.opType = .removeRef ∨ op.opType = .remove then .ok op.config
  else do
    match ← recordExists node op.config with
    | none => return op.config
    | some id => return { op.config with id := id }

def baseOptions (confName : String) : QueryConfigOptions := ⟨confName, [], false, "merge"⟩

/-- What is looked up before anything is written. The level information is a map, and the queries
add to it. -/
structure Looked where
  upLevel : LevelInfo
  beforeImages : String → ConfItem
  upLevelConfItems : String → Option UpLevelValue
  configNamesDef : String → Option ConfigNameDefModel

def Looked.start (upLevel : LevelInfo) : Looked :=
  ⟨upLevel, fun _ => .empty, fun _ => none, fun _ => none⟩

/-- The map of the levels after the query of a node. -/
def levelsLeft (db : Tables) (s : BaseConfigNode) (up : LevelInfo) : LevelInfo :=
  match parentFilled db s up with
  | .ok up => levelPath s up
  | .error _ => up

def Looked.note (g : Looked) (confName : String) (before : ConfigModel)
    (nameDef : Option ConfigNameDefModel) : Looked :=
  { g with
    beforeImages := Function.update g.beforeImages confName (newConfItemFromModel before)
    upLevelConfItems :=
      if before.upLevelValue.isSome then
        Function.update g.upLevelConfItems confName before.upLevelValue
      else g.upLevelConfItems
    configNamesDef := Function.update g.configNamesDef confName nameDef }

def lookBefore (E : Centre) (db : Tables) (g : Looked) (c : ConfigModel) :
    Except ConfigError Looked := do
  let (beforeModels, namesDef) ← getMergedConfig db E.codec E.keyPrefix (E.orders c.confName)
    c.baseInfo g.upLevel (baseOptions c.confName)
  let g := { g with upLevel := levelsLeft db c.baseInfo g.upLevel }
  match beforeModels with
  | [] => return { g with beforeImages := Function.update g.beforeImages c.confName .empty }
  | [before] => return g.note c.confName before (namesDef c.confName)
  | _ => throw (.message ("beforeModels len:" ++ toString beforeModels.length ++ " != 1"))

/-- Updates and removals ask what is in force; other operations do not. -/
def lookFor (E : Centre) (db : Tables) (g : Looked) (op : ConfigModelOp) :
    Except ConfigError Looked :=
  if op.opType = .update ∨ op.opType = .remove ∨ op.opType = .removeRef then lookBefore E db g op.config
  else .ok g

/-- All operations are prepared before the first of them is carried out. -/
def prepare (E : Centre) (db : Tables) (revision : String) :
    Looked → List ConfigModelOp → Except ConfigError (Looked × List ConfigModelOp)
  | g, [] => .ok (g, [])
  | g, op :: configsOp => do
    let config ← identified db.node op
    let g ← lookFor E db g op
    let (g, prepared) ← prepare E db revision g configsOp
    return (g, ⟨{ config with updatedRevision := revision }, op.opType⟩ :: prepared)

/-- The items of one type of operation. -/
def ofType (t : OPType) (configsOp : List ConfigModelOp) : List ConfigModel :=
  (configsOp.filter fun op => decide (op.opType = t)).map ConfigModelOp.config

/-- An item as it is written: users are listed once, and flagged values are encrypted. -/
def stored (E : Centre) (c : ConfigModel) : Except ConfigError ConfigModel :=
  let c := processConfig c
  match c.handleFlagEncrypt E.codec E.keyPrefix
      (E.nameDef c.nameSpace c.confType c.confFile c.confName) with
  | .ok c => .ok c
  | .error e => .error (.item e)

/-- The items of one type are brought into the form in which they are written; the operations share
them. -/
def storeType (E : Centre) (t : OPType) (configsOp : List ConfigModelOp) :
    Except ConfigError (List ConfigModelOp) :=
  configsOp.mapM fun op =>
    if op.opType = t then (stored E op.config).map fun c => ⟨c, op.opType⟩ else .ok op

def numbered (E : Centre) (node : List ConfigModel) (c : ConfigModel) : ConfigModel :=
  { c with id := if c.id = 0 then E.ids.next node else c.id }

def create (E : Centre) (node : List ConfigModel) (c : ConfigModel) :
    Except ConfigError (List ConfigModel) :=
  if node.any fun r => decide (r.uniqueWhere = c.uniqueWhere ∨ r.id = (numbered E node c).id) then
    .error (.message "Duplicate entry")
  else .ok (node ++ [numbered E node c])

/-- `INSERT ... ON DUPLICATE KEY UPDATE`. -/
def insertOrUpdate (E : Centre) (node : List ConfigModel) (c : ConfigModel) : List ConfigModel :=
  if node.any fun r => decide (r.uniqueWhere = c.uniqueWhere) then
    node.map fun r => if r.uniqueWhere = c.uniqueWhere then { c with id := r.id } else r
  else node ++ [numbered E node c]

/-- A row that has a number is updated by it; without one, or if there is no such row, the item is
inserted. -/
def save (E : Centre) (node : List ConfigModel) (c : ConfigModel) :
    Except ConfigError (List ConfigModel) :=
  if c.id ≠ 0 ∧ c.id ∈ node.map ConfigModel.id then
    if node.any fun r => decide (r.id ≠ c.id ∧ r.uniqueWhere = c.uniqueWhere) then
      .error (.message "Duplicate entry")
    else .ok (node.map fun r => if r.id = c.id then c else r)
  else .ok (insertOrUpdate E node c)

def deleteByUnique (node : List ConfigModel) (c : ConfigModel) : List ConfigModel :=
  node.filter fun r => decide (r.uniqueWhere ≠ c.uniqueWhere)

def afterImage (g : Looked) (op : ConfigModelOp) : ConfItem :=
  if op.opType ≠ .remove then newConfItemFromModel op.config
  else
    { ConfItem.empty with
      confValue := (g.upLevelConfItems op.config.confName).elim [] UpLevelValue.confValue }

/-- A removal with nothing above it and no visible name takes the item out of the file. -/
def recordedType (g : Looked) (op : ConfigModelOp) : String :=
  if op.opType ≠ .remove then op.opType.text
  else if g.upLevelConfItems op.config.confName = none ∧
      ((g.configNamesDef op.config.confName).elim 0 ConfigNameDefModel.flagVisible) = 0 then
    "cancel_render"
  else "recover"

def changeOf (g : Looked) (opUser : String) (op : ConfigModelOp) : ConfItemChangesModel where
  bkBizID := op.config.bkBizID
  nameSpace := op.config.nameSpace
  confType := op.config.confType
  confFile := op.config.confFile
  confName := op.config.confName
  levelName := op.config.levelName
  levelValue := op.config.levelValue
  beforeImage := g.beforeImages op.config.confName
  afterImage := afterImage g op
  opUser := opUser
  opType := recordedType g op

structure Upserted where
  configsLocked : List ConfigModel
  db : Tables
  changes : List ConfItemChangesModel

def upsertConfigItems (E : Centre) (db : Tables) (configsOp : List ConfigModelOp)
    (revision opUser : String) (upLevel : LevelInfo) : Except ConfigError Upserted := do
  let (g, configsOp) ← prepare E db revision (.start upLevel) configsOp
  let configsOp ← storeType E .add configsOp
  let node ← (ofType .add configsOp).foldlM (create E) db.node
  let configsOp ← storeType E .update configsOp
  let node ← (ofType .update configsOp).foldlM (save E) node
  let node := (ofType .remove configsOp ++ ofType .removeRef configsOp).foldl deleteByUnique node
  return {
    configsLocked := (configsOp.filter fun op =>
      decide (op.config.flagLocked = 1 ∧ op.opType ≠ .remove)).map ConfigModelOp.config
    db := { db with node := node }
    changes := (configsOp.filter fun op => decide (op.opType ≠ .removeRef)).map (changeOf g opUser) }

structure UpsertConfItem where
  confName : String
  confValue : Bytes
  description : String
  flagDisable : ℤ
  flagLocked : ℤ
  opType : OPType

/-- The operation that an item of a request at a node stands for. -/
def newConfigModelsWithItemReq (s : BaseConfigNode) (cn : UpsertConfItem) : ConfigModelOp where
  config := {
    id := 0
    bkBizID := s.bkBizID
    nameSpace := s.nameSpace
    confType := s.confType
    confFile := s.confFile
    confName := cn.confName
    confValue := cn.confValue
    levelName := s.levelName
    levelValue := s.levelValue
    description := cn.description
    flagDisable := cn.flagDisable
    flagLocked := cn.flagLocked
    updatedRevision := ""
    upLevelValue := none }
  opType := cn.opType

section Rows

variable {E : Centre} {node node' : List ConfigModel} {c r : ConfigModel} {cs : List ConfigModel}

/-- The two keys of the table: the number and the names of a row. -/
structure Numbered (node : List ConfigModel) : Prop where
  ids : (node.map ConfigModel.id).Nodup
  keys : (node.map ConfigModel.uniqueWhere).Nodup

theorem Numbered.eq_of_id (h : Numbered node) (hc : c ∈ node) (hr : r ∈ node) (hid : c.id = r.id) :
    c = r := List.inj_on_of_nodup_map h.ids hc hr hid

theorem Numbered.eq_of_key (h : Numbered node) (hc : c ∈ node) (hr : r ∈ node)
    (hkey : c.uniqueWhere = r.uniqueWhere) : c = r := List.inj_on_of_nodup_map h.keys hc hr hkey

/-- The item stands in the table, under some number, and the rows of other items are as before. -/
structure Writes (node node' : List ConfigModel) (c : ConfigModel) : Prop where
  numbered : Numbered node'
  others : ∀ r, r.uniqueWhere ≠ c.uniqueWhere → (r ∈ node' ↔ r ∈ node)
  written : ∃ id, { c with id := id } ∈ node'

theorem replace_writes (h : Numbered node) (hr : r ∈ node) (hkey : r.uniqueWhere = c.uniqueWhere) :
    Writes node
      (node.map fun r => if r.uniqueWhere = c.uniqueWhere then { c with id := r.id } else r) c where
  numbered := by
    have hids : (node.map fun r =>
        if r.uniqueWhere = c.uniqueWhere then { c with id := r.id } else r).map ConfigModel.id =
          node.map ConfigModel.id := by
      rw [List.map_map]
      refine List.map_congr_left ?_
      intro x _
      simp only [Function.comp_apply]
      split
      · rfl
      · rfl
    have hkeys : (node.map fun r =>
        if r.uniqueWhere = c.uniqueWhere then { c with id := r.id } else r).map
          ConfigModel.uniqueWhere = node.map ConfigModel.uniqueWhere := by
      rw [List.map_map]
      refine List.map_congr_left ?_
      intro x _
      simp only [Function.comp_apply]
      split
      case isTrue hx => exact hx.symm
      case isFalse => rfl
    exact ⟨hids ▸ h.ids, hkeys ▸ h.keys⟩
  others := by
    intro x hx
    rw [List.mem_map]
    constructor
    · rintro ⟨y, hy, rfl⟩
      split at hx
      · exact absurd rfl hx
      case isFalse hy' => rwa [if_neg hy']
    · intro hmem
      exact ⟨x, hmem, if_neg hx⟩
  written := ⟨r.id, List.mem_map.mpr ⟨r, hr, if_pos hkey⟩⟩

theorem append_writes (h : Numbered node) (hkey : ∀ r ∈ node, r.uniqueWhere ≠ c.uniqueWhere)
    (hid : c.id = 0 ∨ c.id ∉ node.map ConfigModel.id) : Writes node (node ++ [numbered E node c]) c where
  numbered := by
    have hnew : (numbered E node c).id ∉ node.map ConfigModel.id := by
      intro hmem
      by_cases hzero : c.id = 0
      · have hnext : (numbered E node c).id = E.ids.next node := if_pos hzero
        obtain ⟨r, hr, heq⟩ := List.mem_map.mp hmem
        exact E.ids.fresh node r hr (heq.trans hnext)
      · have hown : (numbered E node c).id = c.id := if_neg hzero
        rw [hown] at hmem
        exact (hid.resolve_left hzero) hmem
    refine ⟨?_, ?_⟩
    · rw [List.map_append, List.map_singleton]
      exact List.nodup_append.mpr ⟨h.ids, List.nodup_singleton _, fun a ha b hb hab =>
        hnew (List.mem_singleton.mp hb ▸ hab ▸ ha)⟩
    · rw [List.map_append, List.map_singleton]
      refine List.nodup_append.mpr ⟨h.keys, List.nodup_singleton _, ?_⟩
      intro a ha b hb hab
      obtain ⟨r, hr, rfl⟩ := List.mem_map.mp ha
      exact hkey r hr (hab.trans (List.mem_singleton.mp hb))
  others := by
    intro x hx
    rw [List.mem_append, List.mem_singleton]
    constructor
    · rintro (hmem | rfl)
      · exact hmem
      · exact absurd rfl hx
    · exact Or.inl
  written := ⟨_, List.mem_append_right _ (List.mem_singleton.mpr rfl)⟩

/-- The item has no number yet, or that of the row that stands for it. -/
def Identifies (node : List ConfigModel) (c : ConfigModel) : Prop :=
  c.id = 0 ∨ ∃ r ∈ node, r.id = c.id ∧ r.uniqueWhere = c.uniqueWhere

theorem save_writes (h : Numbered node) (hc : Identifies node c)
    (hsave : save E node c = .ok node') : Writes node node' c := by
  rw [save] at hsave
  split at hsave
  case isTrue hfound =>
    split at hsave
    · cases hsave
    · obtain rfl := Except.ok.inj hsave
      obtain ⟨r, hr, hid, hkey⟩ := hc.resolve_left hfound.1
      have hsame : node.map (fun r => if r.id = c.id then c else r) =
          node.map fun r => if r.uniqueWhere = c.uniqueWhere then { c with id := r.id } else r := by
        refine List.map_congr_left ?_
        intro x hx
        by_cases hxid : x.id = c.id
        · obtain rfl := h.eq_of_id hx hr (hxid.trans hid.symm)
          rw [if_pos hid, if_pos hkey, hid]
        · have hxkey : x.uniqueWhere ≠ c.uniqueWhere := by
            intro heq
            obtain rfl := h.eq_of_key hx hr (heq.trans hkey.symm)
            exact hxid hid
          rw [if_neg hxid, if_neg hxkey]
      rw [hsame]
      exact replace_writes h hr hkey
  case isFalse hnone =>
    obtain rfl := Except.ok.inj hsave
    rw [insertOrUpdate]
    split
    case isTrue hany =>
      obtain ⟨r, hr, hkey⟩ := List.any_eq_true.mp hany
      exact replace_writes h hr (of_decide_eq_true hkey)
    case isFalse hany =>
      refine append_writes h ?_ ?_
      · intro r hr heq
        exact hany (List.any_eq_true.mpr ⟨r, hr, decide_eq_true heq⟩)
      · by_contra hboth
        rw [not_or, not_not] at hboth
        exact hnone hboth

/-- A batch of items with different names, each in the table afterwards. -/
theorem saveAll_writes (h : Numbered node) (hkeys : (cs.map ConfigModel.uniqueWhere).Nodup)
    (hc : ∀ c ∈ cs, Identifies node c) (hsave : cs.foldlM (save E) node = .ok node') :
    Numbered node' ∧
      (∀ r, (∀ c ∈ cs, r.uniqueWhere ≠ c.uniqueWhere) → (r ∈ node' ↔ r ∈ node)) ∧
      ∀ c ∈ cs, ∃ id, { c with id := id } ∈ node' := by
  induction cs generalizing node with
  | nil =>
    obtain rfl := Except.ok.inj hsave
    exact ⟨h, fun _ _ => Iff.rfl, fun c hc => absurd hc List.not_mem_nil⟩
  | cons c cs ih =>
    rw [List.foldlM_cons] at hsave
    cases hfirst : save E node c with
    | error e =>
      rw [hfirst] at hsave
      cases hsave
    | ok mid =>
      rw [hfirst] at hsave
      obtain ⟨hnew, hkeys⟩ := List.nodup_cons.mp hkeys
      have hw := save_writes h (hc c List.mem_cons_self) hfirst
      have hapart : ∀ d ∈ cs, d.uniqueWhere ≠ c.uniqueWhere :=
        fun d hd heq => hnew (heq ▸ List.mem_map_of_mem hd)
      have hrest : ∀ d ∈ cs, Identifies mid d := by
        intro d hd
        rcases hc d (List.mem_cons_of_mem _ hd) with hzero | ⟨r, hr, hid, hkey⟩
        · exact Or.inl hzero
        · exact Or.inr ⟨r, (hw.others r (hkey ▸ hapart d hd)).mpr hr, hid, hkey⟩
      obtain ⟨hnum, hothers, hwritten⟩ := ih hw.numbered hkeys hrest hsave
      refine ⟨hnum, ?_, ?_⟩
      · intro r hr
        rw [hothers r fun d hd => hr d (List.mem_cons_of_mem _ hd), hw.others r (hr c List.mem_cons_self)]
      · intro d hd
        rcases List.mem_cons.mp hd with rfl | hd
        · obtain ⟨id, hid⟩ := hw.written
          have hkeep := hothers { d with id := id } fun e he => (hapart e he).symm
          exact ⟨id, hkeep.mpr hid⟩
        · exact hwritten d hd

theorem mem_deleteAll : r ∈ cs.foldl deleteByUnique node ↔
    r ∈ node ∧ ∀ c ∈ cs, r.uniqueWhere ≠ c.uniqueWhere := by
  induction cs generalizing node with
  | nil => simp
  | cons c cs ih =>
    rw [List.foldl_cons, ih, deleteByUnique, List.mem_filter, decide_eq_true_iff, List.forall_mem_cons,
      and_assoc]

theorem deleteAll_sublist : (cs.foldl deleteByUnique node).Sublist node := by
  induction cs generalizing node with
  | nil => exact .refl _
  | cons c cs ih => exact ih.trans List.filter_sublist

theorem Numbered.sublist (h : Numbered node) (hsub : node'.Sublist node) : Numbered node' :=
  ⟨h.ids.sublist (hsub.map _), h.keys.sublist (hsub.map _)⟩

end Rows

section Phases

variable {E : Centre} {db : Tables} {revision opUser : String} {up : LevelInfo} {g g' : Looked}
  {op op' : ConfigModelOp} {configsOp prepared written : List ConfigModelOp} {c c' : ConfigModel}
  {out : Upserted}

theorem identified_cases (h : identified db.node op = .ok c) :
    ∃ id, c = { op.config with id := id } ∧ (id = op.config.id ∨
      ∃ r ∈ db.node, r.id = id ∧ r.uniqueWhere = op.config.uniqueWhere) := by
  rw [identified] at h
  split at h
  · obtain rfl := Except.ok.inj h
    exact ⟨op.config.id, rfl, Or.inl rfl⟩
  · rw [recordExists] at h
    cases hfind : db.node.find? fun r => decide (r.uniqueWhere = op.config.uniqueWhere) with
    | none =>
      rw [hfind] at h
      obtain rfl := Except.ok.inj h
      exact ⟨op.config.id, rfl, Or.inl rfl⟩
    | some r =>
      simp only [hfind] at h
      split at h
      · cases h
      · obtain rfl := Except.ok.inj h
        have hkey : r.uniqueWhere = op.config.uniqueWhere := by simpa using List.find?_some hfind
        exact ⟨r.id, rfl, Or.inr ⟨r, List.mem_of_find?_eq_some hfind, rfl, hkey⟩⟩

/-- A prepared operation is the one that was asked for, with a number and the revision. -/
def PreparedOp (db : Tables) (revision : String) (op op' : ConfigModelOp) : Prop :=
  ∃ id, op' = ⟨{ op.config with id := id, updatedRevision := revision }, op.opType⟩ ∧
    (id = op.config.id ∨ ∃ r ∈ db.node, r.id = id ∧ r.uniqueWhere = op.config.uniqueWhere)

theorem prepare_cons (h : prepare E db revision g (op :: configsOp) = .ok (g', prepared)) :
    ∃ op' rest mid, PreparedOp db revision op op' ∧ lookFor E db g op = .ok mid ∧
      prepare E db revision mid configsOp = .ok (g', rest) ∧ prepared = op' :: rest := by
  rw [prepare] at h
  cases hid : identified db.node op with
  | error e =>
    rw [hid] at h
    cases h
  | ok c =>
    cases hlook : lookFor E db g op with
    | error e =>
      rw [hid, hlook] at h
      cases h
    | ok mid =>
      cases hrest : prepare E db revision mid configsOp with
      | error e =>
        simp only [hid, hlook, bind, Except.bind, hrest] at h
        cases h
      | ok out =>
        simp only [hid, hlook, bind, Except.bind, hrest] at h
        obtain ⟨rfl, rfl⟩ := Prod.mk.inj (Except.ok.inj h)
        obtain ⟨id, rfl, horigin⟩ := identified_cases hid
        exact ⟨_, _, mid, ⟨id, rfl, horigin⟩, rfl, hrest, rfl⟩

theorem prepare_prepared (h : prepare E db revision g configsOp = .ok (g', prepared)) :
    List.Forall₂ (PreparedOp db revision) configsOp prepared := by
  induction configsOp generalizing g prepared with
  | nil =>
    obtain ⟨-, rfl⟩ := Prod.mk.inj (Except.ok.inj h)
    exact .nil
  | cons op configsOp ih =>
    obtain ⟨op', rest, mid, hop, -, hrest, rfl⟩ := prepare_cons h
    exact .cons hop (ih hrest)

/-- Only the value changes on the way into the table. -/
theorem stored_cases (h : stored E c = .ok c') : ∃ v, c' = { c with confValue := v } := by
  have hprocess : ∃ v, processConfig c = { c with confValue := v } := by
    rw [processConfig]
    split
    · exact ⟨_, rfl⟩
    · exact ⟨_, rfl⟩
  obtain ⟨v, hv⟩ := hprocess
  rw [stored, hv] at h
  dsimp only at h
  split at h
  case h_1 out hout =>
    obtain rfl := Except.ok.inj h
    unfold ConfigModel.handleFlagEncrypt at hout
    dsimp only at hout
    split at hout
    · exact ⟨v, (Except.ok.inj hout).symm⟩
    · split at hout
      · exact ⟨v, (Except.ok.inj hout).symm⟩
      · split at hout
        · exact ⟨v, (Except.ok.inj hout).symm⟩
        · cases hout
        · split at hout
          · split at hout
            · exact ⟨_, (Except.ok.inj hout).symm⟩
            · cases hout
          · exact ⟨v, (Except.ok.inj hout).symm⟩
  case h_2 => cases h

/-- Neither the number of a row nor the revision has a part in it. -/
theorem stored_numbered (id : ℕ) (c : ConfigModel) :
    stored E { c with id := id, updatedRevision := revision } =
      (stored E c).map fun c => { c with id := id, updatedRevision := revision } := by
  have hprocess : processConfig { c with id := id, updatedRevision := revision } =
      { processConfig c with id := id, updatedRevision := revision } := by
    rw [processConfig, processConfig]
    dsimp only
    split
    · rfl
    · rfl
  rw [stored, stored, hprocess]
  generalize processConfig c = d
  unfold ConfigModel.handleFlagEncrypt
  dsimp only
  generalize (isEncryptedString d.confValue).2 = encrypted
  generalize confValueIsPlaceHolder d.confValue = placeHolder
  generalize encryptString E.codec d.confValue E.keyPrefix encryptEnableZip = cipher
  cases encrypted with
  | true => rfl
  | false =>
    cases placeHolder with
    | true => rfl
    | false =>
      rcases E.nameDef d.nameSpace d.confType d.confFile d.confName with e | (_ | nameDef)
      · rfl
      · rfl
      · by_cases hflag : nameDef.flagEncrypt = 1
        · cases cipher with
          | error e => simp [hflag, Except.map]
          | ok v => simp [hflag, Except.map]
        · simp [hflag, Except.map]

/-- An operation whose item has been brought into the form in which it is written. -/
def StoredOp (E : Centre) (t : OPType) (op op' : ConfigModelOp) : Prop :=
  op'.opType = op.opType ∧ (op.opType = t → stored E op.config = .ok op'.config) ∧
    (op.opType ≠ t → op' = op)

theorem storeType_stored {t : OPType} (h : storeType E t configsOp = .ok written) :
    List.Forall₂ (StoredOp E t) configsOp written := by
  induction configsOp generalizing written with
  | nil =>
    obtain rfl := Except.ok.inj h
    exact .nil
  | cons op configsOp ih =>
    rw [storeType, List.mapM_cons] at h
    cases hrest : storeType E t configsOp with
    | error e =>
      rw [storeType] at hrest
      split at h
      · cases hop : stored E op.config with
        | error e =>
          rw [hop] at h
          cases h
        | ok c =>
          rw [hop, hrest] at h
          cases h
      · rw [hrest] at h
        cases h
    | ok rest =>
      have hall := ih hrest
      rw [storeType] at hrest
      split at h
      case isTrue ht =>
        cases hop : stored E op.config with
        | error e =>
          rw [hop] at h
          cases h
        | ok c =>
          rw [hop, hrest] at h
          obtain rfl := Except.ok.inj h
          exact .cons ⟨rfl, fun _ => hop, fun hne => absurd ht hne⟩ hall
      case isFalse ht =>
        rw [hrest] at h
        obtain rfl := Except.ok.inj h
        exact .cons ⟨rfl, fun heq => absurd heq ht, fun _ => rfl⟩ hall

theorem storeType_absent {t : OPType} (h : ∀ op ∈ configsOp, op.opType ≠ t) :
    storeType E t configsOp = .ok configsOp := by
  induction configsOp with
  | nil => rfl
  | cons op configsOp ih =>
    obtain ⟨hop, hrest⟩ := List.forall_mem_cons.mp h
    have hih := ih hrest
    rw [storeType] at hih
    rw [storeType, List.mapM_cons, if_neg hop, hih]
    rfl

theorem ofType_absent {t : OPType} (h : ∀ op ∈ configsOp, op.opType ≠ t) : ofType t configsOp = [] := by
  rw [ofType, List.filter_eq_nil_iff.mpr fun op hop => by simpa using h op hop]
  rfl

theorem mem_ofType {t : OPType} :
    c ∈ ofType t configsOp ↔ ∃ op ∈ configsOp, op.opType = t ∧ op.config = c := by
  simp [ofType, and_assoc]

end Phases

end Config
