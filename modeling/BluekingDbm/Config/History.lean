import BluekingDbm.Config.InForce
import BluekingDbm.Config.Users
import Mathlib.Algebra.Order.BigOperators.Group.List
import Mathlib.Algebra.Order.Group.Nat

/-! The change history of a batch of updates and removals at a node, held against what the node reads
before and after it. -/
namespace Config

open Base64 (Bytes)

/-- The value of the one item of a kind, empty if there is none. -/
def HasValue (P : ConfigModel → Prop) (value : ConfigModel → Bytes) (v : Bytes) : Prop :=
  (∃ c, P c ∧ value c = v) ∨ (∀ c, ¬ P c) ∧ v = []

def processedValue (c : ConfigModel) : Bytes := (processConfig c).confValue

def shownValue : List ConfigModel → Bytes
  | [] => []
  | c :: _ => c.confValue

/-- In whatever order the maps are ranged over, a query of the name at the node answers with the
value, or with no item if the value is empty. -/
def Reads (E : Centre) (db : Tables) (s : BaseConfigNode) (up : LevelInfo) (confName : String)
    (v : Bytes) : Prop :=
  ∀ rs, ∃ configs names, getMergedConfig db E.codec E.keyPrefix rs s up (baseOptions confName) =
    .ok (configs, names) ∧ configs.length ≤ 1 ∧ shownValue configs = v

/-- Each operation has one record, which tells what was and what is read. -/
structure HistoryTrue (E : Centre) (db : Tables) (s : BaseConfigNode) (up : LevelInfo)
    (items : List UpsertConfItem) (out : Upserted) : Prop where
  recorded : out.changes.map ConfItemChangesModel.confName = items.map UpsertConfItem.confName
  before : ∀ change ∈ out.changes, Reads E db s up change.confName change.beforeImage.confValue
  after : ∀ change ∈ out.changes, Reads E out.db s up change.confName change.afterImage.confValue

/-- The node's own items are among those that are read. -/
structure ReadsOwn (s : BaseConfigNode) : Prop where
  notPlat : s.levelName ≠ "plat"
  business : s.levelName = "app" → s.levelValue = s.bkBizID

def BaseConfigNode.rank (s : BaseConfigNode) : ℕ := (configLevel s.levelName).getD 0

/-- No level below the node hides what is written there, or the value is in force already. -/
def UpdateTold (db : Tables) (s : BaseConfigNode) (up : LevelInfo) (confName : String) (v : Bytes) :
    Prop :=
  (ReadsOwn s ∧ ∀ c, OnPath db s up (baseOptions confName) c → priority c ≤ s.rank) ∨
    HasValue (InForce db s up confName) processedValue v

def AtLevel (s : BaseConfigNode) (e : ConfigModel) : Prop :=
  e.levelName = s.levelName ∧ s.levelName ≠ "plat"

/-- When a removal is told as it is. If the node's own item is in force, what it inherits is in the
form in which users are read; if it is not, nothing changes, and the value in force is the empty one
that is recorded. A business that removes the item of another one is told what its own item
overrides. -/
structure RemovalTold (db : Tables) (s : BaseConfigNode) (up : LevelInfo) (confName : String) :
    Prop where
  own : ∀ e u, InForce db s up confName e → AtLevel s e → e.levelValue = s.levelValue →
    Inherited db s up confName u → processedValue u = u.confValue
  other : ∀ e, InForce db s up confName e → ¬ AtLevel s e → processedValue e = []
  astray : ∀ e, InForce db s up confName e → AtLevel s e → e.levelValue ≠ s.levelValue →
    HasValue (Inherited db s up confName) ConfigModel.confValue (processedValue e)

/-- The condition on one operation. -/
structure Told (E : Centre) (db : Tables) (s : BaseConfigNode) (up : LevelInfo)
    (item : UpsertConfItem) : Prop where
  update : item.opType = .update → ∀ c, stored E (newConfigModelsWithItemReq s item).config = .ok c →
    UpdateTold db s up item.confName c.confValue
  remove : item.opType = .remove → RemovalTold db s up item.confName

section Values

variable {P Q : ConfigModel → Prop} {value : ConfigModel → Bytes} {v : Bytes} {e : ConfigModel}

theorem hasValue_item (hone : ∀ c, P c → c = e) (he : P e) : HasValue P value v ↔ value e = v := by
  constructor
  · rintro (⟨c, hc, hv⟩ | ⟨hnone, -⟩)
    · exact hone c hc ▸ hv
    · exact absurd he (hnone e)
  · intro hv
    exact Or.inl ⟨e, he, hv⟩

theorem hasValue_nothing (hnone : ∀ c, ¬ P c) : HasValue P value v ↔ v = [] := by
  constructor
  · rintro (⟨c, hc, -⟩ | ⟨-, hv⟩)
    · exact absurd hc (hnone c)
    · exact hv
  · intro hv
    exact Or.inr ⟨hnone, hv⟩

theorem hasValue_congr (h : ∀ c, P c ↔ Q c) : HasValue P value v ↔ HasValue Q value v := by
  simp only [HasValue, h]

end Values

section Change

variable {E : Centre} {db db' : Tables} {s : BaseConfigNode} {up filled : LevelInfo}
  {confName : String} {c e : ConfigModel} {configs : List ConfigModel} {v : Bytes}

theorem Shows.hasValue (h : Shows db s up confName configs) :
    HasValue (InForce db s up confName) processedValue (shownValue configs) := by
  cases h with
  | nothing hnone => exact Or.inr ⟨hnone, rfl⟩
  | item e he note hnote => exact Or.inl ⟨e, he, rfl⟩

theorem Shows.length_le (h : Shows db s up confName configs) : configs.length ≤ 1 := by
  cases h with
  | nothing hnone => exact Nat.zero_le _
  | item e he note hnote => exact le_rfl

/-- What a query reads is the value in force. -/
theorem reads_iff (hdb : db.Keyed) (hfilled : parentFilled db s up = .ok filled)
    (hup : CompleteLevels db s filled) (hl : RankedLevels s filled) (hname : confName ≠ "") :
    Reads E db s up confName v ↔ HasValue (InForce db s filled confName) processedValue v := by
  have hsame : ∀ configs, Shows db s filled confName configs →
      (shownValue configs = v ↔ HasValue (InForce db s filled confName) processedValue v) := by
    intro configs hshows
    cases hshows with
    | nothing hnone => exact eq_comm.trans (hasValue_nothing hnone).symm
    | item e he note hnote =>
      have hvalue : shownValue [{ processConfig e with upLevelValue := note }] = processedValue e := rfl
      rw [hvalue]
      exact (hasValue_item (fun c hc => InForce.unique hdb hl hname hc he) he).symm
  constructor
  · intro hreads
    obtain ⟨configs, names, hok, -, hv⟩ := hreads ⟨.still, .still, .still⟩
    obtain ⟨configs', names', hok', hshows⟩ := getMergedConfig_shows hdb hfilled hup hl hname
      E.codec E.keyPrefix ⟨.still, .still, .still⟩
    obtain ⟨rfl, -⟩ := Prod.mk.inj (Except.ok.inj (hok.symm.trans hok'))
    exact (hsame configs hshows).mp hv
  · intro hv rs
    obtain ⟨configs, names, hok, hshows⟩ :=
      getMergedConfig_shows hdb hfilled hup hl hname E.codec E.keyPrefix rs
    exact ⟨configs, names, hok, hshows.length_le, (hsame configs hshows).mpr hv⟩

/-- The names of the node's own row. -/
def ownKey (s : BaseConfigNode) (confName : String) :
    String × String × String × String × String × String × String :=
  (s.bkBizID, s.nameSpace, s.confType, s.confFile, confName, s.levelName, s.levelValue)

/-- For one name, the tables differ in the node's own row only. -/
structure OwnOnly (db db' : Tables) (s : BaseConfigNode) (confName : String) : Prop where
  nameDef : db'.nameDef = db.nameDef
  namePlat : db'.namePlat = db.namePlat
  others : ∀ c, c.confName = confName → c.uniqueWhere ≠ ownKey s confName →
    (c ∈ db'.node ↔ c ∈ db.node)

theorem OwnOnly.symm (h : OwnOnly db db' s confName) : OwnOnly db' db s confName :=
  ⟨h.nameDef.symm, h.namePlat.symm, fun c hc hkey => (h.others c hc hkey).symm⟩

theorem OnPath.named (h : OnPath db s up (baseOptions confName) c) (hname : confName ≠ "") :
    c.confName = confName := h.inFile.2.2.2.resolve_left hname

theorem OnPath.in_of_mem (h : OnPath db s up (baseOptions confName) c) (hmem : c ∈ db'.node) :
    OnPath db' s up (baseOptions confName) c :=
  ⟨hmem, h.inFile, h.bkBizID, h.level, h.notPlat⟩

theorem OnPath.key_iff (h : OnPath db s up (baseOptions confName) c) (hname : confName ≠ "") :
    c.uniqueWhere = ownKey s confName ↔ c.levelName = s.levelName ∧ c.levelValue = s.levelValue := by
  obtain ⟨hns, htype, hfile, -⟩ := h.inFile
  simp [ConfigModel.uniqueWhere, ownKey, h.bkBizID, hns, htype, hfile, h.named hname]

theorem ReadsOwn.lookup (h : ReadsOwn s) (up : LevelInfo) :
    (levelPath s up).lookup s.levelName = some s.levelValue := by
  rw [levelPath]
  by_cases happ : s.levelName = "app"
  · rw [happ, AList.lookup_insert, h.business happ]
  · rw [AList.lookup_insert_ne happ, AList.lookup_insert]

theorem OnPath.readsOwn (h : OnPath db s up (baseOptions confName) c) (hname : confName ≠ "")
    (hkey : c.uniqueWhere = ownKey s confName) : ReadsOwn s where
  notPlat := ((h.key_iff hname).mp hkey).1 ▸ h.notPlat
  business := by
    intro happ
    obtain ⟨hlevel, hvalue⟩ := (h.key_iff hname).mp hkey
    have hlookup := h.level
    rw [hlevel, hvalue, happ, levelPath, AList.lookup_insert] at hlookup
    exact (Option.some.inj hlookup).symm

theorem OnPath.rank_own (h : OnPath db s up (baseOptions confName) c) (hname : confName ≠ "")
    (hkey : c.uniqueWhere = ownKey s confName) : priority c = s.rank := by
  rw [priority, ((h.key_iff hname).mp hkey).1]
  rfl

theorem Platform.keeps {o : QueryConfigOptions} {d : ConfigNameDefModel} (hdef : db'.nameDef = db.nameDef)
    (hplat : db'.namePlat = db.namePlat) (h : Platform db s o d) : Platform db' s o d := by
  cases h with
  | override hmem hin hkept => exact .override (hplat ▸ hmem) hin hkept
  | default hmem hin halone => exact .default (hdef ▸ hmem) hin (hplat ▸ halone)

/-- The same rows on the path, the same items in force. -/
theorem InForce.keeps (hdef : db'.nameDef = db.nameDef) (hplat : db'.namePlat = db.namePlat)
    (hpath : ∀ c, OnPath db s up (baseOptions confName) c ↔ OnPath db' s up (baseOptions confName) c)
    (h : InForce db s up confName e) : InForce db' s up confName e := by
  cases h with
  | node c hc hlow =>
    refine .node c ((hpath c).mp hc) ?_
    intro d hd hsame
    exact hlow d ((hpath d).mpr hd) hsame
  | platform d hd hvisible hunset =>
    refine .platform d (hd.keeps hdef hplat) hvisible ?_
    intro c hc
    exact hunset c ((hpath c).mpr hc)

/-- A write at the node does not show if its items are not read, or if a lower level sets the name. -/
def Hidden (db : Tables) (s : BaseConfigNode) (up : LevelInfo) (confName : String) : Prop :=
  ¬ ReadsOwn s ∨ ∃ c, OnPath db s up (baseOptions confName) c ∧ s.rank < priority c

theorem Hidden.keeps (ho : OwnOnly db db' s confName) (hname : confName ≠ "")
    (h : Hidden db s up confName) : Hidden db' s up confName := by
  rcases h with hnot | ⟨c, hc, hrank⟩
  · exact Or.inl hnot
  · refine Or.inr ⟨c, hc.in_of_mem ((ho.others c (hc.named hname) ?_).mpr hc.mem), hrank⟩
    intro hkey
    have hown := hc.rank_own hname hkey
    omega

theorem InForce.keeps_hidden (ho : OwnOnly db db' s confName) (hname : confName ≠ "")
    (hhidden : Hidden db s up confName) (h : InForce db s up confName e) :
    InForce db' s up confName e := by
  have hback : ∀ d, OnPath db' s up (baseOptions confName) d →
      d.uniqueWhere ≠ ownKey s confName → OnPath db s up (baseOptions confName) d :=
    fun d hd hkey => hd.in_of_mem ((ho.others d (hd.named hname) hkey).mp hd.mem)
  cases h with
  | node c hc hlow =>
    -- the row in force is not the node's own
    have habove : ∀ tables d, OnPath tables s up (baseOptions confName) d →
        d.uniqueWhere = ownKey s confName → priority d < priority c := by
      intro tables d hd hkey
      rcases hhidden with hnot | ⟨x, hx, hrank⟩
      · exact absurd (hd.readsOwn hname hkey) hnot
      · have hle := hlow x hx ((hx.named hname).trans (hc.named hname).symm)
        have hown := hd.rank_own hname hkey
        omega
    have hkey : c.uniqueWhere ≠ ownKey s confName := fun heq => lt_irrefl _ (habove db c hc heq)
    refine .node c (hc.in_of_mem ((ho.others c (hc.named hname) hkey).mpr hc.mem)) ?_
    intro d hd hsame
    by_cases hdkey : d.uniqueWhere = ownKey s confName
    · exact (habove db' d hd hdkey).le
    · exact hlow d (hback d hd hdkey) hsame
  | platform p hp hvisible hunset =>
    refine .platform p (hp.keeps ho.nameDef ho.namePlat) hvisible ?_
    intro d hd hsame
    by_cases hdkey : d.uniqueWhere = ownKey s confName
    · rcases hhidden with hnot | ⟨x, hx, -⟩
      · exact hnot (hd.readsOwn hname hdkey)
      · exact hunset x hx ((hx.named hname).trans ((hd.named hname).symm.trans hsame))
    · exact hunset d (hback d hd hdkey) hsame

/-- What is written at the lowest level is in force. -/
theorem InForce.written (ho : OwnOnly db db' s confName) (hname : confName ≠ "")
    (hown : ReadsOwn s)
    (hlow : ∀ d, OnPath db s up (baseOptions confName) d → priority d ≤ s.rank) (hc : c ∈ db'.node)
    (hkey : c.uniqueWhere = ownKey s confName) : InForce db' s up confName c.plain := by
  obtain ⟨hbiz, hns, htype, hfile, hcname, hlevel, hvalue⟩ :
      c.bkBizID = s.bkBizID ∧ c.nameSpace = s.nameSpace ∧ c.confType = s.confType ∧
        c.confFile = s.confFile ∧ c.confName = confName ∧ c.levelName = s.levelName ∧
        c.levelValue = s.levelValue := by
    simpa [ConfigModel.uniqueWhere, ownKey] using hkey
  have hpath : OnPath db' s up (baseOptions confName) c :=
    ⟨hc, ⟨hns, htype, hfile, Or.inr hcname⟩, hbiz, by rw [hlevel, hvalue]; exact hown.lookup up,
      hlevel ▸ hown.notPlat⟩
  refine .node c hpath ?_
  intro d hd _
  rw [hpath.rank_own hname hkey]
  by_cases hdkey : d.uniqueWhere = ownKey s confName
  · exact (hd.rank_own hname hdkey).le
  · exact hlow d (hd.in_of_mem ((ho.others d (hd.named hname) hdkey).mp hd.mem))

/-- The record of an update is true just if the update shows. -/
theorem update_iff (ho : OwnOnly db db' s confName) (hname : confName ≠ "") (hc : c ∈ db'.node)
    (hkey : c.uniqueWhere = ownKey s confName) (hprocessed : processConfig c = c) :
    HasValue (InForce db' s up confName) processedValue c.confValue ↔
      UpdateTold db s up confName c.confValue := by
  by_cases hlowest : ReadsOwn s ∧ ∀ d, OnPath db s up (baseOptions confName) d → priority d ≤ s.rank
  · have hin := InForce.written ho hname hlowest.1 hlowest.2 hc hkey
    have hvalue : processedValue c.plain = c.confValue := by
      rw [processedValue, ← plain_processConfig, hprocessed]
      rfl
    exact iff_of_true (Or.inl ⟨_, hin, hvalue⟩) (Or.inl hlowest)
  · have hhidden : Hidden db s up confName := by
      by_cases hown : ReadsOwn s
      · right
        by_contra hnone
        refine hlowest ⟨hown, ?_⟩
        intro d hd
        by_contra hlt
        exact hnone ⟨d, hd, by omega⟩
      · exact Or.inl hown
    have hsame : ∀ e, InForce db' s up confName e ↔ InForce db s up confName e :=
      fun e => ⟨InForce.keeps_hidden ho.symm hname (hhidden.keeps ho hname),
        InForce.keeps_hidden ho hname hhidden⟩
    rw [hasValue_congr hsame]
    exact ⟨Or.inr, fun h => h.resolve_left hlowest⟩

/-- Rows that a removal leaves were there before it. -/
theorem OnPath.of_removed (ho : OwnOnly db db' s confName) (hname : confName ≠ "")
    (hgone : ∀ d ∈ db'.node, d.uniqueWhere ≠ ownKey s confName)
    (h : OnPath db' s up (baseOptions confName) c) : OnPath db s up (baseOptions confName) c :=
  h.in_of_mem ((ho.others c (h.named hname) (hgone c h.mem)).mp h.mem)

/-- An item that is not the node's own outlasts the removal. -/
theorem InForce.outlasts (ho : OwnOnly db db' s confName) (hname : confName ≠ "")
    (hgone : ∀ d ∈ db'.node, d.uniqueWhere ≠ ownKey s confName) (h : InForce db s up confName e)
    (hother : ¬ (AtLevel s e ∧ e.levelValue = s.levelValue)) : InForce db' s up confName e := by
  cases h with
  | node c hc hlow =>
    have hkey : c.uniqueWhere ≠ ownKey s confName := by
      intro heq
      obtain ⟨hlevel, hvalue⟩ := (hc.key_iff hname).mp heq
      exact hother ⟨⟨hlevel, hlevel ▸ hc.notPlat⟩, hvalue⟩
    refine .node c (hc.in_of_mem ((ho.others c (hc.named hname) hkey).mpr hc.mem)) ?_
    intro d hd hsame
    exact hlow d (hd.of_removed ho hname hgone) hsame
  | platform p hp hvisible hunset =>
    refine .platform p (hp.keeps ho.nameDef ho.namePlat) hvisible ?_
    intro d hd hsame
    exact hunset d (hd.of_removed ho hname hgone) hsame

/-- Once the node's own row is gone, what it inherits is in force. -/
theorem inForce_iff_inherited (ho : OwnOnly db db' s confName) (hname : confName ≠ "")
    (hgone : ∀ d ∈ db'.node, d.uniqueWhere ≠ ownKey s confName) (hown : ReadsOwn s) :
    InForce db' s up confName e ↔ Inherited db s up confName e := by
  have hpath : ∀ d, OnPath db' s up (baseOptions confName) d ↔
      OnPath (db.without s.levelName) s up (baseOptions confName) d := by
    intro d
    constructor
    · intro hd
      have hbefore := hd.of_removed ho hname hgone
      refine hd.in_of_mem (List.mem_filter.mpr ⟨hbefore.mem, decide_eq_true ?_⟩)
      intro hlevel
      have hlookup := hd.level
      rw [hlevel, hown.lookup up] at hlookup
      exact hgone d hd.mem ((hd.key_iff hname).mpr ⟨hlevel, (Option.some.inj hlookup).symm⟩)
    · intro hd
      obtain ⟨hmem, hlevel⟩ := List.mem_filter.mp hd.mem
      have hkey : d.uniqueWhere ≠ ownKey s confName :=
        fun heq => of_decide_eq_true hlevel ((hd.key_iff hname).mp heq).1
      exact hd.in_of_mem ((ho.others d (hd.named hname) hkey).mpr hmem)
  constructor
  · exact InForce.keeps ho.nameDef.symm ho.namePlat.symm hpath
  · exact InForce.keeps ho.nameDef ho.namePlat fun d => (hpath d).symm

theorem InForce.readsOwn (hname : confName ≠ "") (h : InForce db s up confName e) (hlevel : AtLevel s e)
    (hvalue : e.levelValue = s.levelValue) : ReadsOwn s := by
  cases h with
  | node c hc _ => exact hc.readsOwn hname ((hc.key_iff hname).mpr ⟨hlevel.1, hvalue⟩)
  | platform d _ _ _ => exact absurd hlevel.1.symm hlevel.2

/-- What the record of a removal calls the value after it. -/
def notedValue (configs : List ConfigModel) : Bytes :=
  (configs.head?.bind ConfigModel.upLevelValue).elim [] UpLevelValue.confValue

/-- The record of a removal is true just under the condition. -/
theorem removal_iff (hdb : db.Keyed) (hdb' : db'.Keyed) (ho : OwnOnly db db' s confName)
    (hl : RankedLevels s up) (hname : confName ≠ "")
    (hgone : ∀ d ∈ db'.node, d.uniqueWhere ≠ ownKey s confName)
    (hshows : Shows db s up confName configs) :
    HasValue (InForce db' s up confName) processedValue (notedValue configs) ↔
      RemovalTold db s up confName := by
  cases hshows with
  | nothing hnone =>
    have hnone' : ∀ e, ¬ InForce db' s up confName e := by
      intro e he
      cases he with
      | node c hc _ =>
        obtain ⟨d, hd⟩ := exists_inForce hdb hl (hc.of_removed ho hname hgone)
        exact hnone d hd
      | platform d hd hvisible hunset =>
        by_cases hset : ∃ c, OnPath db s up (baseOptions confName) c
        · obtain ⟨c, hc⟩ := hset
          obtain ⟨d, hd⟩ := exists_inForce hdb hl hc
          exact hnone d hd
        · exact hnone _ (.platform d (hd.keeps ho.nameDef.symm ho.namePlat.symm) hvisible
            fun c hc => absurd ⟨c, hc⟩ hset)
    refine iff_of_true ((hasValue_nothing hnone').mpr rfl) ⟨?_, ?_, ?_⟩
    · intro e u he
      exact absurd he (hnone e)
    · intro e he
      exact absurd he (hnone e)
    · intro e he
      exact absurd he (hnone e)
  | item e he note hnotes =>
    have hone : ∀ d, InForce db s up confName d → d = e := fun d hd => hd.unique hdb hl hname he
    have hone' : ∀ {d}, InForce db' s up confName d → ∀ x, InForce db' s up confName x → x = d :=
      fun hd x hx => hx.unique hdb' hl hname hd
    have honeUp : ∀ {u}, Inherited db s up confName u → ∀ x, Inherited db s up confName x → x = u :=
      fun hu x hx => InForce.unique (hdb.without _) hl hname hx hu
    have hnoted : notedValue [{ processConfig e with upLevelValue := note }] =
        note.elim [] UpLevelValue.confValue := rfl
    rw [hnoted]
    by_cases hlevel : AtLevel s e
    · have hnotes : (∃ u, Inherited db s up confName u ∧
          note = some ⟨u.levelName, u.levelValue, u.confValue⟩) ∨
          (∀ u, ¬ Inherited db s up confName u) ∧ note = none := by
        have hboth : e.levelName = s.levelName ∧ s.levelName ≠ "plat" := hlevel
        rwa [Notes, if_pos hboth] at hnotes
      by_cases hvalue : e.levelValue = s.levelValue
      · have hiff := fun d => @inForce_iff_inherited _ _ _ up _ d ho hname hgone
          (he.readsOwn hname hlevel hvalue)
        rw [hasValue_congr hiff]
        have hvacuous : (∀ u, Inherited db s up confName u → processedValue u = u.confValue) ↔
            RemovalTold db s up confName := by
          constructor
          · intro h
            refine ⟨fun _ u _ _ _ hu => h u hu, ?_, ?_⟩
            · intro d hd hnot
              exact absurd (hone d hd ▸ hlevel) hnot
            · intro d hd _ hnot
              exact absurd (hone d hd ▸ hvalue) hnot
          · intro h u hu
            exact h.own e u he hlevel hvalue hu
        rw [← hvacuous]
        rcases hnotes with ⟨u, hu, rfl⟩ | ⟨hnone, rfl⟩
        · rw [hasValue_item (honeUp hu) hu]
          constructor
          · intro h x hx
            rw [honeUp hu x hx]
            exact h
          · intro h
            exact h u hu
        · exact iff_of_true ((hasValue_nothing hnone).mpr rfl) fun u hu => absurd hu (hnone u)
      · have hstays := he.outlasts ho hname hgone fun h => hvalue h.2
        rw [hasValue_item (hone' hstays) hstays]
        have hastray : HasValue (Inherited db s up confName) ConfigModel.confValue
            (processedValue e) ↔ RemovalTold db s up confName := by
          constructor
          · intro h
            refine ⟨?_, ?_, ?_⟩
            · intro d u hd _ hown
              exact absurd (hone d hd ▸ hown) hvalue
            · intro d hd hnot
              exact absurd (hone d hd ▸ hlevel) hnot
            · intro d hd _ _
              exact hone d hd ▸ h
          · intro h
            exact h.astray e he hlevel hvalue
        rw [← hastray]
        rcases hnotes with ⟨u, hu, rfl⟩ | ⟨hnone, rfl⟩
        · rw [hasValue_item (honeUp hu) hu]
          exact eq_comm
        · rw [hasValue_nothing hnone]
          exact Iff.rfl
    · have hnote : note = none := by
        have hnot : ¬ (e.levelName = s.levelName ∧ s.levelName ≠ "plat") := hlevel
        rwa [Notes, if_neg hnot] at hnotes
      have hstays := he.outlasts ho hname hgone fun h => hlevel h.1
      rw [hasValue_item (hone' hstays) hstays, hnote]
      constructor
      · intro h
        refine ⟨?_, ?_, ?_⟩
        · intro d u hd hown
          exact absurd (hone d hd ▸ hown) hlevel
        · intro d hd _
          exact hone d hd ▸ h
        · intro d hd hown
          exact absurd (hone d hd ▸ hown) hlevel
      · intro h
        exact h.other e he hlevel

end Change

section Levels

variable {E : Centre} {db : Tables} {s : BaseConfigNode} {up filled : LevelInfo} {g g' : Looked}
  {op : ConfigModelOp}

/-- To read the levels a second time changes nothing. -/
theorem levelPath_levelPath (s : BaseConfigNode) (up : LevelInfo) :
    levelPath s (levelPath s up) = levelPath s up := by
  by_cases happ : s.levelName = "app"
  · simp [levelPath, happ, AList.insert_insert]
  · have hentries : (levelPath s up).entries = ⟨"app", s.bkBizID⟩ :: ⟨s.levelName, s.levelValue⟩ ::
        List.kerase "app" (List.kerase s.levelName up.entries) := by
      rw [levelPath, AList.entries_insert, AList.entries_insert, List.kerase_cons_ne (Ne.symm happ)]
    refine AList.ext ?_
    rw [levelPath, AList.entries_insert, AList.entries_insert, hentries,
      List.kerase_cons_ne (Ne.symm happ), List.kerase_cons_ne happ]
    simp

theorem levelPath_entries (s : BaseConfigNode) (up : LevelInfo) : (levelPath s up).entries ≠ [] := by
  rw [levelPath, AList.entries_insert]
  exact List.cons_ne_nil _ _

theorem parentFilled_levelPath (db : Tables) (s : BaseConfigNode) (up : LevelInfo) :
    parentFilled db s (levelPath s up) = .ok (levelPath s up) :=
  if_neg fun h => levelPath_entries s up h.2

theorem CompleteLevels.levelPath (h : CompleteLevels db s filled) :
    CompleteLevels db s (Config.levelPath s filled) where
  named := by
    intro fileLevels hfile e he hlt hin hplat happ
    have hmem := h.named fileLevels hfile e he hlt hin hplat happ
    rw [Config.levelPath, AList.mem_insert, AList.mem_insert]
    exact Or.inr (Or.inr hmem)
  given := fun _ => levelPath_entries s filled

/-- A parent that is found is one level with a value. -/
theorem singleton_of_ok {found : Except ConfigError (String × String)} {err : ConfigError}
    {parent : LevelInfo}
    (h : (do
      let (parentName, parentVal) ← found
      if parentVal = "" then throw err
      return AList.singleton parentName parentVal) = Except.ok parent) :
    ∃ k v, parent = AList.singleton k v := by
  cases found with
  | error e => cases h
  | ok pair =>
    by_cases hempty : pair.2 = ""
    · simp only [bind, Except.bind, hempty, if_true] at h
      cases h
    · simp only [bind, Except.bind, hempty, if_false] at h
      exact ⟨_, _, (Except.ok.inj h).symm⟩

/-- A query that answers has been told all the levels. -/
theorem completeLevels_of_ok {K : Codec} {keyPrefix : Bytes} {rs : Orders} {o : QueryConfigOptions}
    {answer : List ConfigModel × (String → Option ConfigNameDefModel)}
    (hfilled : parentFilled db s up = .ok filled)
    (h : getMergedConfig db K keyPrefix rs s up o = .ok answer) : CompleteLevels db s filled where
  named := by
    intro fileLevels hfile e he hlt hin hplat happ
    by_contra hnot
    have hmissing : e.1 ∈ (getConfigLevelsUp rs.levelMap s.levelName).filter
        fun l => decide (l ∈ fileLevels) := by
      refine List.mem_filter.mpr ⟨List.mem_map.mpr ⟨e, ?_, rfl⟩, decide_eq_true hin⟩
      exact List.mem_filter.mpr ⟨rs.levelMap.mem_order.mpr he, decide_eq_true hlt⟩
    have herror : ∃ err, getUpLevelInfo db rs.levelMap s filled = .error err := by
      rw [getUpLevelInfo]
      simp only [hfile]
      cases hfind : ((getConfigLevelsUp rs.levelMap s.levelName).filter
          fun l => decide (l ∈ fileLevels)).find?
            fun l => decide (l ≠ "plat" ∧ l ≠ "app" ∧ l ∉ filled) with
      | none =>
        have hfound := List.find?_eq_none.mp hfind e.1 hmissing
        exact absurd (decide_eq_true ⟨hplat, happ, hnot⟩) hfound
      | some l => exact ⟨_, rfl⟩
    obtain ⟨err, herror⟩ := herror
    rw [getMergedConfig, hfilled] at h
    simp only [bind, Except.bind, getSimpleConfig, herror] at h
    cases h
  given := by
    intro hlevel hempty
    rw [parentFilled] at hfilled
    split at hfilled
    · cases hparent : queryParentLevelValue db s with
      | error err =>
        rw [hparent] at hfilled
        cases hfilled
      | ok parent =>
        rw [hparent] at hfilled
        obtain rfl := Except.ok.inj hfilled
        obtain ⟨k, v, rfl⟩ : ∃ k v, parent = AList.singleton k v := by
          rw [queryParentLevelValue] at hparent
          split at hparent
          · exact singleton_of_ok hparent
          · exact singleton_of_ok hparent
          · exact singleton_of_ok hparent
          · exact singleton_of_ok hparent
          · exact singleton_of_ok hparent
          · cases hparent
        exact List.cons_ne_nil _ _ hempty
    case isFalse hnot =>
      obtain rfl := Except.ok.inj hfilled
      exact hnot ⟨hlevel, hempty⟩

/-- The levels that the queries leave behind are read like those that were given. -/
theorem getMergedConfig_levelPath (hfilled : parentFilled db s up = .ok filled)
    (hup : CompleteLevels db s filled) {o : QueryConfigOptions} (ho : o.MergeView) (K : Codec)
    (keyPrefix : Bytes) (rs : Orders) :
    getMergedConfig db K keyPrefix rs s (levelPath s filled) o =
      getMergedConfig db K keyPrefix rs s up o := by
  have hrows : nodeRows db rs s (levelPath s filled) o = nodeRows db rs s filled o := by
    rw [nodeRows, nodeRows, levelPath_levelPath]
  rw [getMergedConfig, getMergedConfig, hfilled, parentFilled_levelPath]
  simp only [bind, Except.bind, getSimpleConfig_ok hup.levelPath ho, getSimpleConfig_ok hup ho, hrows]

/-- What one operation finds before anything is written. -/
structure Finds (E : Centre) (db : Tables) (s : BaseConfigNode) (up : LevelInfo) (g : Looked)
    (confName : String) (configs : List ConfigModel) : Prop where
  answer : ∃ names, getMergedConfig db E.codec E.keyPrefix (E.orders confName) s up
    (baseOptions confName) = .ok (configs, names)
  before : (g.beforeImages confName).confValue = shownValue configs
  noted : (g.upLevelConfItems confName).elim [] UpLevelValue.confValue = notedValue configs

/-- What is known of the levels while the operations are prepared. -/
def LevelsKnown (db : Tables) (s : BaseConfigNode) (up filled : LevelInfo) (g : Looked) : Prop :=
  g.upLevel = up ∨ g.upLevel = levelPath s filled ∧ CompleteLevels db s filled

theorem lookFor_finds (hop : op.opType = .update ∨ op.opType = .remove)
    (hnode : op.config.baseInfo = s) (hfilled : parentFilled db s up = .ok filled)
    (hg : LevelsKnown db s up filled g) (hfresh : g.upLevelConfItems op.config.confName = none)
    (h : lookFor E db g op = .ok g') :
    LevelsKnown db s up filled g' ∧ CompleteLevels db s filled ∧
      (∃ configs, Finds E db s up g' op.config.confName configs) ∧
      ∀ n, n ≠ op.config.confName → g'.beforeImages n = g.beforeImages n ∧
        g'.upLevelConfItems n = g.upLevelConfItems n := by
  have hasks : op.opType = .update ∨ op.opType = .remove ∨ op.opType = .removeRef := by tauto
  rw [lookFor, if_pos hasks, lookBefore, hnode] at h
  have hsame : getMergedConfig db E.codec E.keyPrefix (E.orders op.config.confName) s g.upLevel
      (baseOptions op.config.confName) = getMergedConfig db E.codec E.keyPrefix
        (E.orders op.config.confName) s up (baseOptions op.config.confName) := by
    rcases hg with hg | ⟨hg, hup⟩
    · rw [hg]
    · rw [hg, getMergedConfig_levelPath hfilled hup (baseOptions_mergeView _)]
  have hleft : levelsLeft db s g.upLevel = levelPath s filled := by
    rcases hg with hg | ⟨hg, -⟩
    · rw [hg, levelsLeft, hfilled]
    · rw [hg, levelsLeft, parentFilled_levelPath]
      exact levelPath_levelPath s filled
  rw [hsame] at h
  cases hanswer : getMergedConfig db E.codec E.keyPrefix (E.orders op.config.confName) s up
      (baseOptions op.config.confName) with
  | error err =>
    rw [hanswer] at h
    cases h
  | ok answer =>
    obtain ⟨configs, names⟩ := answer
    have hup := completeLevels_of_ok hfilled hanswer
    simp only [hanswer, bind, Except.bind, hleft] at h
    match configs, hanswer, h with
    | [], hanswer, h =>
      obtain rfl := Except.ok.inj h
      refine ⟨Or.inr ⟨rfl, hup⟩, hup, ⟨[], ⟨names, hanswer⟩, ?_, ?_⟩, ?_⟩
      · simp [ConfItem.empty, shownValue]
      · simp [hfresh, notedValue]
      · intro n hn
        exact ⟨Function.update_of_ne hn _ _, rfl⟩
    | [before], hanswer, h =>
      obtain rfl := Except.ok.inj h
      refine ⟨Or.inr ⟨rfl, hup⟩, hup, ⟨[before], ⟨names, hanswer⟩, ?_, ?_⟩, ?_⟩
      · simp [Looked.note, newConfItemFromModel, shownValue]
      · cases hnote : before.upLevelValue with
        | none => simp [Looked.note, hnote, hfresh, notedValue]
        | some u => simp [Looked.note, hnote, notedValue]
      · intro n hn
        refine ⟨Function.update_of_ne hn _ _, ?_⟩
        rw [Looked.note]
        dsimp only
        split
        · exact Function.update_of_ne hn _ _
        · rfl
    | _ :: _ :: _, _, h => cases h

theorem Finds.of_eq {confName : String} {configs : List ConfigModel}
    (h : Finds E db s up g confName configs) (hbefore : g'.beforeImages confName = g.beforeImages confName)
    (hnoted : g'.upLevelConfItems confName = g.upLevelConfItems confName) :
    Finds E db s up g' confName configs :=
  ⟨h.answer, hbefore ▸ h.before, hnoted ▸ h.noted⟩

/-- Every operation finds what a query of its name shows before anything is written. -/
theorem prepare_finds {revision : String} {configsOp prepared : List ConfigModelOp}
    (hop : ∀ op ∈ configsOp, op.opType = .update ∨ op.opType = .remove)
    (hnode : ∀ op ∈ configsOp, op.config.baseInfo = s)
    (hnames : (configsOp.map fun op => op.config.confName).Nodup)
    (hfilled : parentFilled db s up = .ok filled) (hg : LevelsKnown db s up filled g)
    (hfresh : ∀ op ∈ configsOp, g.upLevelConfItems op.config.confName = none)
    (h : prepare E db revision g configsOp = .ok (g', prepared)) :
    (∀ op ∈ configsOp, CompleteLevels db s filled ∧
        ∃ configs, Finds E db s up g' op.config.confName configs) ∧
      ∀ n, (∀ op ∈ configsOp, op.config.confName ≠ n) → g'.beforeImages n = g.beforeImages n ∧
        g'.upLevelConfItems n = g.upLevelConfItems n := by
  induction configsOp generalizing g prepared with
  | nil =>
    obtain ⟨rfl, -⟩ := Prod.mk.inj (Except.ok.inj h)
    exact ⟨fun op hop => absurd hop List.not_mem_nil, fun _ _ => ⟨rfl, rfl⟩⟩
  | cons op configsOp ih =>
    obtain ⟨op', rest, mid, -, hlook, hrest, -⟩ := prepare_cons h
    obtain ⟨hnew, hnames⟩ := List.nodup_cons.mp hnames
    have hother : ∀ d ∈ configsOp, d.config.confName ≠ op.config.confName :=
      fun d hd heq => hnew (List.mem_map.mpr ⟨d, hd, heq⟩)
    obtain ⟨hmid, hup, ⟨configs, hfinds⟩, hframe⟩ := lookFor_finds (hop op List.mem_cons_self)
      (hnode op List.mem_cons_self) hfilled hg (hfresh op List.mem_cons_self) hlook
    have hfresh' : ∀ d ∈ configsOp, mid.upLevelConfItems d.config.confName = none := by
      intro d hd
      rw [(hframe _ (hother d hd)).2]
      exact hfresh d (List.mem_cons_of_mem _ hd)
    obtain ⟨hall, hkeep⟩ := ih (fun d hd => hop d (List.mem_cons_of_mem _ hd))
      (fun d hd => hnode d (List.mem_cons_of_mem _ hd)) hnames hmid hfresh' hrest
    refine ⟨?_, ?_⟩
    · intro d hd
      rcases List.mem_cons.mp hd with rfl | hd
      · obtain ⟨hbefore, hnoted⟩ := hkeep _ hother
        exact ⟨hup, configs, hfinds.of_eq hbefore hnoted⟩
      · exact hall d hd
    · intro n hn
      obtain ⟨hbefore, hnoted⟩ := hkeep n fun d hd => hn d (List.mem_cons_of_mem _ hd)
      obtain ⟨hbefore', hnoted'⟩ := hframe n (hn op List.mem_cons_self).symm
      exact ⟨hbefore.trans hbefore', hnoted.trans hnoted'⟩

end Levels

section Batch

variable {E : Centre} {db : Tables} {s : BaseConfigNode} {up filled : LevelInfo}
  {items : List UpsertConfItem} {item : UpsertConfItem} {op op' : ConfigModelOp} {g : Looked}
  {configsOp prepared written : List ConfigModelOp} {out : Upserted} {revision opUser : String}
  {c c' : ConfigModel}

/-- Lists matched item by item. -/
theorem matched {α β : Type} {R : α → β → Prop} {l : List α} {l' : List β}
    (h : List.Forall₂ R l l') : (∀ a ∈ l, ∃ b ∈ l', R a b) ∧ ∀ b ∈ l', ∃ a ∈ l, R a b := by
  induction h with
  | nil => exact ⟨fun a ha => absurd ha List.not_mem_nil, fun b hb => absurd hb List.not_mem_nil⟩
  | @cons a b l l' hab _ ih =>
    refine ⟨List.forall_mem_cons.mpr ⟨⟨b, List.mem_cons_self, hab⟩, ?_⟩,
      List.forall_mem_cons.mpr ⟨⟨a, List.mem_cons_self, hab⟩, ?_⟩⟩
    · intro x hx
      obtain ⟨y, hy, hxy⟩ := ih.1 x hx
      exact ⟨y, List.mem_cons_of_mem _ hy, hxy⟩
    · intro y hy
      obtain ⟨x, hx, hxy⟩ := ih.2 y hy
      exact ⟨x, List.mem_cons_of_mem _ hx, hxy⟩

theorem stored_processed (h : stored E c = .ok c') : processConfig c' = c' := by
  rw [stored] at h
  split at h
  case h_1 hout =>
    obtain rfl := Except.ok.inj h
    exact processConfig_handleFlagEncrypt (processConfig_idem c) hout
  case h_2 => cases h

/-- The operation that is carried out for an item. -/
structure Carried (E : Centre) (db : Tables) (s : BaseConfigNode) (item : UpsertConfItem)
    (op : ConfigModelOp) : Prop where
  opType : op.opType = item.opType
  key : op.config.uniqueWhere = ownKey s item.confName
  identifies : Identifies db.node op.config
  value : item.opType = .update → processConfig op.config = op.config ∧
    ∃ c, stored E (newConfigModelsWithItemReq s item).config = .ok c ∧
      op.config.confValue = c.confValue

theorem Carried.named (h : Carried E db s item op) : op.config.confName = item.confName :=
  congrArg (fun k => k.2.2.2.2.1) h.key

theorem carried_of_stored (hprepared : PreparedOp db revision (newConfigModelsWithItemReq s item) op)
    (hstored : StoredOp E .update op op') : Carried E db s item op' := by
  obtain ⟨id, rfl, hid⟩ := hprepared
  obtain ⟨htype, hupdate, hkept⟩ := hstored
  have hidentifies : ∀ v, Identifies db.node { (newConfigModelsWithItemReq s item).config with
      id := id, updatedRevision := revision, confValue := v } := by
    intro v
    rcases hid with hzero | ⟨r, hr, hrid, hkey⟩
    · exact Or.inl hzero
    · exact Or.inr ⟨r, hr, hrid, hkey⟩
  by_cases hop : item.opType = .update
  · have hstore := hupdate hop
    obtain ⟨v, hv⟩ := stored_cases hstore
    refine ⟨htype, ?_, ?_, fun _ => ⟨stored_processed hstore, ?_⟩⟩
    · rw [hv]
      rfl
    · rw [hv]
      exact hidentifies v
    · rw [stored_numbered] at hstore
      cases hplain : stored E (newConfigModelsWithItemReq s item).config with
      | error e =>
        rw [hplain] at hstore
        cases hstore
      | ok c =>
        rw [hplain] at hstore
        refine ⟨c, rfl, ?_⟩
        rw [← Except.ok.inj hstore]
  · rw [hkept hop]
    exact ⟨rfl, rfl, hidentifies _, fun h => absurd h hop⟩

theorem carried_all
    (hprepared : List.Forall₂ (PreparedOp db revision) (items.map (newConfigModelsWithItemReq s)) prepared)
    (hstored : List.Forall₂ (StoredOp E .update) prepared written) :
    List.Forall₂ (Carried E db s) items written := by
  induction items generalizing prepared written with
  | nil =>
    cases hprepared
    cases hstored
    exact .nil
  | cons item items ih =>
    rw [List.map_cons] at hprepared
    cases hprepared with
    | cons hop hrest =>
      cases hstored with
      | cons hop' hrest' => exact .cons (carried_of_stored hop hop') (ih hrest hrest')

theorem carried_map {α : Type} {f : ConfigModelOp → α} {f' : UpsertConfItem → α}
    (hf : ∀ item op, Carried E db s item op → f op = f' item)
    (h : List.Forall₂ (Carried E db s) items written) : written.map f = items.map f' := by
  induction h with
  | nil => rfl
  | cons hop _ ih => rw [List.map_cons, List.map_cons, hf _ _ hop, ih]

/-- The phases of a batch of updates and removals. -/
theorem upsert_phases (hop : ∀ item ∈ items, item.opType = .update ∨ item.opType = .remove)
    (h : upsertConfigItems E db (items.map (newConfigModelsWithItemReq s)) revision opUser up =
      .ok out) :
    ∃ g prepared written node,
      prepare E db revision (.start up) (items.map (newConfigModelsWithItemReq s)) =
        .ok (g, prepared) ∧
      List.Forall₂ (Carried E db s) items written ∧
      (ofType .update written).foldlM (save E) db.node = .ok node ∧
      out.db = { db with node := (ofType .remove written).foldl deleteByUnique node } ∧
      out.changes = written.map (changeOf g opUser) := by
  rw [upsertConfigItems] at h
  cases hprepare : prepare E db revision (.start up) (items.map (newConfigModelsWithItemReq s)) with
  | error e =>
    rw [hprepare] at h
    cases h
  | ok pair =>
    obtain ⟨g, prepared⟩ := pair
    have hprepared := prepare_prepared hprepare
    have htypes : ∀ op ∈ prepared, op.opType = .update ∨ op.opType = .remove := by
      intro op hmem
      obtain ⟨asked, hasked, id, rfl, -⟩ := (matched hprepared).2 op hmem
      obtain ⟨item, hitem, rfl⟩ := List.mem_map.mp hasked
      exact hop item hitem
    have hadd : ∀ op ∈ prepared, op.opType ≠ .add := by
      intro op hmem heq
      rcases htypes op hmem with h | h
      · rw [heq] at h
        cases h
      · rw [heq] at h
        cases h
    simp only [hprepare, bind, Except.bind, storeType_absent hadd, ofType_absent hadd,
      List.foldlM_nil, pure, Except.pure] at h
    cases hstore : storeType E .update prepared with
    | error e =>
      rw [hstore] at h
      cases h
    | ok written =>
      cases hsave : (ofType .update written).foldlM (save E) db.node with
      | error e =>
        simp only [hstore, hsave] at h
        cases h
      | ok node =>
        have hstored := storeType_stored hstore
        have href : ∀ op ∈ written, op.opType ≠ .removeRef := by
          intro op hmem heq
          obtain ⟨before, hbefore, htype, -⟩ := (matched hstored).2 op hmem
          rcases htypes before hbefore with h | h
          · rw [← htype, heq] at h
            cases h
          · rw [← htype, heq] at h
            cases h
        have hall : written.filter (fun op => decide (op.opType ≠ .removeRef)) = written :=
          List.filter_eq_self.mpr fun op hmem => decide_eq_true (href op hmem)
        simp only [hstore, hsave, ofType_absent href, List.append_nil, hall] at h
        obtain rfl := Except.ok.inj h
        exact ⟨g, prepared, written, node, rfl, carried_all hprepared hstored, hsave, rfl, rfl⟩

/-- The batch as the queries after it see it. -/
structure Outcome (E : Centre) (db : Tables) (s : BaseConfigNode) (items : List UpsertConfItem)
    (written : List ConfigModelOp) (node : List ConfigModel) : Prop where
  numbered : Numbered node
  ownOnly : ∀ item ∈ items, OwnOnly db { db with node := node } s item.confName
  updated : ∀ op ∈ written, op.opType = .update → ∃ id, { op.config with id := id } ∈ node
  removed : ∀ item ∈ items, item.opType = .remove → ∀ d ∈ node, d.uniqueWhere ≠ ownKey s item.confName

theorem outcome_of_phases {node : List ConfigModel} (hnum : Numbered db.node)
    (hnames : (items.map UpsertConfItem.confName).Nodup)
    (hcarried : List.Forall₂ (Carried E db s) items written)
    (hsave : (ofType .update written).foldlM (save E) db.node = .ok node) :
    Outcome E db s items written ((ofType .remove written).foldl deleteByUnique node) := by
  have hkeysOf : written.map (fun op => op.config.uniqueWhere) =
      items.map fun item => ownKey s item.confName :=
    carried_map (fun _ _ hop => hop.key) hcarried
  have hkeys : (written.map fun op => op.config.uniqueWhere).Nodup := by
    rw [hkeysOf]
    have hmap : items.map (fun item => ownKey s item.confName) =
        (items.map UpsertConfItem.confName).map (ownKey s) := by rw [List.map_map]; rfl
    rw [hmap]
    refine hnames.map ?_
    intro n m hnm
    exact congrArg (fun k => k.2.2.2.2.1) hnm
  have hupdates : ((ofType .update written).map ConfigModel.uniqueWhere).Nodup := by
    rw [ofType, List.map_map]
    exact hkeys.sublist (List.filter_sublist.map _)
  have hcarrier : ∀ t, ∀ c ∈ ofType t written, ∃ op ∈ written, op.opType = t ∧ op.config = c ∧
      ∃ item ∈ items, Carried E db s item op := by
    intro t c hc
    obtain ⟨op, hmem, htype, hconfig⟩ := mem_ofType.mp hc
    obtain ⟨item, hitem, hop⟩ := (matched hcarried).2 op hmem
    exact ⟨op, hmem, htype, hconfig, item, hitem, hop⟩
  have hidentifies : ∀ c ∈ ofType .update written, Identifies db.node c := by
    intro c hc
    obtain ⟨op, -, -, rfl, item, -, hop⟩ := hcarrier _ c hc
    exact hop.identifies
  obtain ⟨hnum', hothers, hwritten⟩ := saveAll_writes hnum hupdates hidentifies hsave
  refine ⟨hnum'.sublist deleteAll_sublist, ?_, ?_, ?_⟩
  · intro item hitem
    refine ⟨rfl, rfl, ?_⟩
    intro d hd hkey
    have hapart : ∀ t, ∀ c ∈ ofType t written, d.uniqueWhere ≠ c.uniqueWhere := by
      intro t c hc heq
      obtain ⟨op, -, -, rfl, item', -, hop⟩ := hcarrier t c hc
      have hkey' := heq.trans hop.key
      have hname : d.confName = item'.confName := congrArg (fun k => k.2.2.2.2.1) hkey'
      rw [← hname, hd] at hkey'
      exact hkey hkey'
    show d ∈ (ofType .remove written).foldl deleteByUnique node ↔ d ∈ db.node
    rw [mem_deleteAll, hothers d (hapart _)]
    exact and_iff_left (hapart _)
  · intro op hmem htype
    obtain ⟨id, hid⟩ := hwritten op.config (mem_ofType.mpr ⟨op, hmem, htype, rfl⟩)
    refine ⟨id, mem_deleteAll.mpr ⟨hid, ?_⟩⟩
    intro c hc heq
    obtain ⟨removal, hremoval, hremove, rfl, -⟩ := hcarrier _ c hc
    have hsame : op = removal := List.inj_on_of_nodup_map hkeys hmem hremoval heq
    rw [← hsame, htype] at hremove
    cases hremove
  · intro item hitem htype d hd
    obtain ⟨op, hmem, hop⟩ := (matched hcarried).1 item hitem
    rw [← hop.key]
    exact (mem_deleteAll.mp hd).2 _ (mem_ofType.mpr ⟨op, hmem, hop.opType.trans htype, rfl⟩)

theorem keyed_of_numbered {node : List ConfigModel} (hdb : db.Keyed) (hnum : Numbered node) :
    Tables.Keyed { db with node := node } :=
  ⟨hdb.nameDef, hdb.namePlat, List.pairwise_map.mp hnum.keys⟩

/-- The record that is kept of one item is true just under the condition on it. -/
theorem after_iff {node configs : List ConfigModel} (hdb : db.Keyed)
    (hfilled : parentFilled db s up = .ok filled) (hup : CompleteLevels db s filled)
    (hl : RankedLevels s filled) (hname : item.confName ≠ "") (hitem : item ∈ items)
    (hop : item.opType = .update ∨ item.opType = .remove) (hmem : op ∈ written)
    (hcarried : Carried E db s item op) (hfinds : Finds E db s up g item.confName configs)
    (hout : Outcome E db s items written node) :
    Reads E { db with node := node } s up item.confName (afterImage g op).confValue ↔
      Told E db s filled item := by
  have hdb' := keyed_of_numbered hdb hout.numbered
  have hup' : CompleteLevels { db with node := node } s filled := ⟨hup.named, hup.given⟩
  rw [reads_iff hdb' hfilled hup' hl hname]
  have hown := hout.ownOnly item hitem
  rcases hop with htype | htype
  · have hopType : op.opType ≠ .remove := by
      rw [hcarried.opType, htype]
      decide
    obtain ⟨hprocessed, c, hstored, hvalue⟩ := hcarried.value htype
    obtain ⟨id, hid⟩ := hout.updated op hmem (hcarried.opType.trans htype)
    have himage : (afterImage g op).confValue = op.config.confValue := by
      rw [afterImage, if_pos hopType]
      rfl
    have hprocessed' : processConfig { op.config with id := id } = { op.config with id := id } := by
      have hconf := congrArg ConfigModel.confValue hprocessed
      rw [processConfig] at hconf ⊢
      split at hconf
      case isTrue hlisted =>
        rw [if_pos (by exact hlisted)]
        have hconf : uniqueUsers op.config.confValue = op.config.confValue := hconf
        simp only [hconf]
      case isFalse hlisted => rw [if_neg (by exact hlisted)]
    have hiff := @update_iff db _ s filled _ _ hown hname hid hcarried.key hprocessed'
    have hsame : { op.config with id := id }.confValue = c.confValue := hvalue
    rw [hsame] at hiff
    rw [himage, hvalue, hiff]
    constructor
    · intro htold
      refine ⟨?_, ?_⟩
      · intro _ c' hc'
        obtain rfl := Except.ok.inj (hstored.symm.trans hc')
        exact htold
      · intro hremove
        rw [htype] at hremove
        cases hremove
    · intro htold
      exact htold.update htype c hstored
  · have himage : (afterImage g op).confValue = notedValue configs := by
      rw [afterImage, if_neg (not_not.mpr (hcarried.opType.trans htype)), hcarried.named]
      exact hfinds.noted
    obtain ⟨names, hanswer⟩ := hfinds.answer
    obtain ⟨configs', names', hanswer', hshows⟩ := getMergedConfig_shows hdb hfilled hup hl hname
      E.codec E.keyPrefix (E.orders item.confName)
    obtain ⟨rfl, -⟩ := Prod.mk.inj (Except.ok.inj (hanswer.symm.trans hanswer'))
    rw [himage, removal_iff hdb hdb' hown hl hname (hout.removed item hitem htype) hshows]
    constructor
    · intro htold
      refine ⟨?_, fun _ => htold⟩
      intro hupdate
      rw [htype] at hupdate
      cases hupdate
    · intro htold
      exact htold.remove htype

end Batch

/-- The history of an accepted batch is true just if each of its operations is told as it is. -/
theorem historyTrue_iff {E : Centre} {db : Tables} {s : BaseConfigNode} {up filled : LevelInfo}
    {items : List UpsertConfItem} {revision opUser : String} {out : Upserted} (hdb : db.Keyed)
    (hids : (db.node.map ConfigModel.id).Nodup)
    (hop : ∀ item ∈ items, item.opType = .update ∨ item.opType = .remove)
    (hnamed : ∀ item ∈ items, item.confName ≠ "")
    (hnames : (items.map UpsertConfItem.confName).Nodup)
    (hfilled : parentFilled db s up = .ok filled) (hl : RankedLevels s filled)
    (h : upsertConfigItems E db (items.map (newConfigModelsWithItemReq s)) revision opUser up =
      .ok out) :
    HistoryTrue E db s up items out ↔ ∀ item ∈ items, Told E db s filled item := by
  obtain ⟨g, prepared, written, node, hprepare, hcarried, hsave, hdbout, hchanges⟩ :=
    upsert_phases hop h
  have hnum : Numbered db.node := ⟨hids, List.pairwise_map.mpr hdb.node⟩
  have hout := outcome_of_phases hnum hnames hcarried hsave
  have hopNames : (items.map (newConfigModelsWithItemReq s)).map (fun op => op.config.confName) =
      items.map UpsertConfItem.confName := by
    rw [List.map_map]
    rfl
  obtain ⟨hfinds, -⟩ := prepare_finds (s := s) (by simpa [newConfigModelsWithItemReq] using hop)
    (by simp [newConfigModelsWithItemReq, ConfigModel.baseInfo]) (hopNames ▸ hnames) hfilled
    (Or.inl rfl) (fun _ _ => rfl) hprepare
  have hfound : ∀ item ∈ items, CompleteLevels db s filled ∧
      ∃ configs, Finds E db s up g item.confName configs :=
    fun item hitem => hfinds _ (List.mem_map_of_mem hitem)
  have hiff : ∀ item ∈ items, ∀ op ∈ written, Carried E db s item op →
      (Reads E out.db s up item.confName (afterImage g op).confValue ↔ Told E db s filled item) := by
    intro item hitem op hmem hcarry
    obtain ⟨hup, configs, hone⟩ := hfound item hitem
    rw [hdbout]
    exact after_iff hdb hfilled hup hl (hnamed item hitem) hitem (hop item hitem) hmem hcarry hone hout
  constructor
  · intro htrue item hitem
    obtain ⟨op, hmem, hcarry⟩ := (matched hcarried).1 item hitem
    have hafter := htrue.after (changeOf g opUser op) (hchanges ▸ List.mem_map_of_mem hmem)
    refine (hiff item hitem op hmem hcarry).mp ?_
    rw [← hcarry.named]
    exact hafter
  · intro htold
    refine ⟨?_, ?_, ?_⟩
    · rw [hchanges, List.map_map]
      exact carried_map (fun _ _ hcarry => hcarry.named) hcarried
    · intro change hchange
      obtain ⟨op, hmem, rfl⟩ := List.mem_map.mp (hchanges ▸ hchange)
      obtain ⟨item, hitem, hcarry⟩ := (matched hcarried).2 op hmem
      obtain ⟨hup, configs, hone⟩ := hfound item hitem
      obtain ⟨names, hanswer⟩ := hone.answer
      obtain ⟨configs', names', hanswer', hshows⟩ := getMergedConfig_shows hdb hfilled hup hl
        (hnamed item hitem) E.codec E.keyPrefix (E.orders item.confName)
      obtain ⟨rfl, -⟩ := Prod.mk.inj (Except.ok.inj (hanswer.symm.trans hanswer'))
      show Reads E db s up op.config.confName (g.beforeImages op.config.confName).confValue
      rw [hcarry.named, hone.before, reads_iff hdb hfilled hup hl (hnamed item hitem)]
      exact hshows.hasValue
    · intro change hchange
      obtain ⟨op, hmem, rfl⟩ := List.mem_map.mp (hchanges ▸ hchange)
      obtain ⟨item, hitem, hcarry⟩ := (matched hcarried).2 op hmem
      show Reads E out.db s up op.config.confName (afterImage g op).confValue
      rw [hcarry.named]
      exact (hiff item hitem op hmem hcarry).mpr (htold item hitem)

/-- A business notifies two users, one of its modules another. -/
def rosterTables : Tables :=
  { notifierTables with
    node := [notifierItem "app" "3" "ann; tom", { notifierItem "module" "m10" "bob" with id := 2 }] }

def moduleNode : BaseConfigNode := ⟨"3", "tendbha", "user", "notifier", "module", "m10"⟩

/-- Rows are numbered behind all others. -/
def countedIds : AutoIncrement where
  next node := (node.map ConfigModel.id).sum + 1
  fresh := by
    intro node c hc heq
    have hle : c.id ≤ (node.map ConfigModel.id).sum := List.le_sum_of_mem (List.mem_map_of_mem hc)
    omega

def notifierCentre : Centre where
  codec := maskCodec
  keyPrefix := []
  nameDef _ _ _ _ := .ok (some notifierDef)
  ids := countedIds
  orders _ := stillOrders

/-- The module gives up its own notifier. -/
def backupRemoval : UpsertConfItem := ⟨"backup", [], "", 0, 0, .remove⟩

theorem moduleNode_ranked : RankedLevels moduleNode ∅ := by
  have hpath : ∀ l ∈ levelPath moduleNode ∅, l = "app" ∨ l = "module" := by
    intro l hl
    have hkeys : (levelPath moduleNode ∅).keys = ["app", "module"] := by decide
    have hmem : l ∈ (levelPath moduleNode ∅).keys := hl
    rw [hkeys] at hmem
    simpa using hmem
  constructor
  · intro l hl
    rcases hpath l hl with rfl | rfl
    · exact ⟨20, by decide⟩
    · exact ⟨30, by decide⟩
  · intro l hl l' hl'
    rcases hpath l hl with rfl | rfl <;> rcases hpath l' hl' with rfl | rfl <;> decide

theorem rosterTables_keyed : rosterTables.Keyed where
  nameDef := List.pairwise_singleton ..
  namePlat := List.Pairwise.nil
  node := List.pairwise_pair.mpr (by decide)

theorem historyTrue_iff_backup : ∃ out, upsertConfigItems notifierCentre rosterTables
      ([backupRemoval].map (newConfigModelsWithItemReq moduleNode)) "" "ann" ∅ = .ok out ∧
    (HistoryTrue notifierCentre rosterTables moduleNode ∅ [backupRemoval] out ↔
      ∀ item ∈ [backupRemoval], Told notifierCentre rosterTables moduleNode ∅ item) := by
  cases hrun : upsertConfigItems notifierCentre rosterTables
      ([backupRemoval].map (newConfigModelsWithItemReq moduleNode)) "" "ann" ∅ with
  | error e =>
    have hok : (upsertConfigItems notifierCentre rosterTables
        ([backupRemoval].map (newConfigModelsWithItemReq moduleNode)) "" "ann" ∅).isOk = true := by
      decide +kernel
    rw [hrun] at hok
    cases hok
  | ok out =>
    exact ⟨out, rfl, historyTrue_iff rosterTables_keyed (by decide) (by decide) (by decide) (by decide)
      rfl moduleNode_ranked hrun⟩

/-- After the removal the module reads the users of the business as a list without blanks, but the
record shows them as they were typed. -/
theorem removed_notifier_untold : ∃ out, upsertConfigItems notifierCentre rosterTables
      ([backupRemoval].map (newConfigModelsWithItemReq moduleNode)) "" "ann" ∅ = .ok out ∧
    ¬ HistoryTrue notifierCentre rosterTables moduleNode ∅ [backupRemoval] out := by
  have hresult : (upsertConfigItems notifierCentre rosterTables
      ([backupRemoval].map (newConfigModelsWithItemReq moduleNode)) "" "ann" ∅).map
        (fun out => (out.changes.map fun change => (change.confName, change.afterImage.confValue),
          (getMergedConfig out.db maskCodec [] stillOrders moduleNode ∅ (baseOptions "backup")).map
            fun answer => shownValue answer.1)) =
      .ok ([("backup", bytes "ann; tom")], .ok (bytes "ann,tom")) := by decide +kernel
  cases hrun : upsertConfigItems notifierCentre rosterTables
      ([backupRemoval].map (newConfigModelsWithItemReq moduleNode)) "" "ann" ∅ with
  | error e =>
    rw [hrun] at hresult
    cases hresult
  | ok out =>
    rw [hrun] at hresult
    obtain ⟨hchanges, hreads⟩ := Prod.mk.inj (Except.ok.inj hresult)
    refine ⟨out, rfl, ?_⟩
    intro htrue
    have hmem : ("backup", bytes "ann; tom") ∈
        out.changes.map fun change => (change.confName, change.afterImage.confValue) := by
      rw [hchanges]
      exact List.mem_cons_self
    obtain ⟨change, hchange, hrecord⟩ := List.mem_map.mp hmem
    obtain ⟨hname, hvalue⟩ := Prod.mk.inj hrecord
    have hafter := htrue.after change hchange
    rw [hname, hvalue] at hafter
    obtain ⟨configs, names, hanswer, -, hshown⟩ := hafter stillOrders
    have hfirst : notifierCentre.codec = maskCodec ∧ notifierCentre.keyPrefix = [] := ⟨rfl, rfl⟩
    rw [hfirst.1, hfirst.2] at hanswer
    rw [hanswer] at hreads
    have hread := Except.ok.inj hreads
    dsimp only at hread
    rw [hshown] at hread
    exact absurd hread (by decide +kernel)

end Config
