import BluekingDbm.Config.Overlay
import BluekingDbm.Library.Foremost

/-! What the effective configuration of a node is, and that the merge computes it. -/
namespace Config

open Foremost

/-- The unique keys of the tables. -/
structure Tables.Keyed (db : Tables) : Prop where
  nameDef : db.nameDef.Pairwise fun d d' =>
    (d.nameSpace, d.confType, d.confFile, d.confName) ≠
      (d'.nameSpace, d'.confType, d'.confFile, d'.confName)
  namePlat : db.namePlat.Pairwise fun d d' =>
    (d.nameSpace, d.confType, d.confFile, d.confName) ≠
      (d'.nameSpace, d'.confType, d'.confFile, d'.confName)
  node : db.node.Pairwise fun c c' =>
    (c.bkBizID, c.nameSpace, c.confType, c.confFile, c.confName, c.levelName, c.levelValue) ≠
      (c'.bkBizID, c'.nameSpace, c'.confType, c'.confFile, c'.confName, c'.levelName, c'.levelValue)

/-- A request for merged items, of all names or of one. -/
structure QueryConfigOptions.MergeView (o : QueryConfigOptions) : Prop where
  view : "merge".toList <+: o.view.toList
  confValue : o.confValue = []
  decrypt : o.decrypt = false

/-- A value is given for every level above the node that its file has, and for a cluster, an
instance or a host at least one. -/
structure CompleteLevels (db : Tables) (s : BaseConfigNode) (up : LevelInfo) : Prop where
  named : ∀ fileLevels, db.levelNameList s = some fileLevels → ∀ e ∈ configLevelMap,
    e.2 < (configLevel s.levelName).getD 0 → e.1 ∈ fileLevels → e.1 ≠ "plat" → e.1 ≠ "app" →
    e.1 ∈ up
  given : s.levelName = "cluster" ∨ s.levelName = "instance" ∨ s.levelName = "host" →
    up.entries ≠ []

/-- The levels on the path have priorities, all different. -/
structure RankedLevels (s : BaseConfigNode) (up : LevelInfo) : Prop where
  known : ∀ l ∈ levelPath s up, ∃ p, configLevel l = some p
  different : ∀ l ∈ levelPath s up, ∀ l' ∈ levelPath s up, configLevel l = configLevel l' → l = l'

def priority (c : ConfigModel) : ℕ := (configLevel c.levelName).getD 0

/-- A row of the node's file, of a name that is asked for. -/
def InFile (s : BaseConfigNode) (o : QueryConfigOptions) (nameSpace confType confFile confName : String) :
    Prop :=
  nameSpace = s.nameSpace ∧ confType = s.confType ∧ confFile = s.confFile ∧
    (o.confName = "" ∨ confName = o.confName)

/-- An item that a level on the path of the node sets. -/
structure OnPath (db : Tables) (s : BaseConfigNode) (up : LevelInfo) (o : QueryConfigOptions)
    (c : ConfigModel) : Prop where
  mem : c ∈ db.node
  inFile : InFile s o c.nameSpace c.confType c.confFile c.confName
  bkBizID : c.bkBizID = s.bkBizID
  level : (levelPath s up).lookup c.levelName = some c.levelValue
  notPlat : c.levelName ≠ "plat"

/-- The item without the note of what it overrides. -/
def ConfigModel.plain (c : ConfigModel) : ConfigModel := { c with upLevelValue := none }

/-- The item that the platform has for a name, shown or not: the override unless that deletes the
name, and the definition of a name without an override. -/
inductive Platform (db : Tables) (s : BaseConfigNode) (o : QueryConfigOptions)
    (d : ConfigNameDefModel) : Prop
  | override (mem : d ∈ db.namePlat)
      (inFile : InFile s o d.nameSpace d.confType d.confFile d.confName) (kept : d.deleted ≤ 0)
  | default (mem : d ∈ db.nameDef)
      (inFile : InFile s o d.nameSpace d.confType d.confFile d.confName)
      (alone : ∀ p ∈ db.namePlat, InFile s o p.nameSpace p.confType p.confFile p.confName →
        p.confName ≠ d.confName)

/-- The effective items: that of the lowest level which sets the name, else the platform's if it is
visible. -/
inductive Effective (db : Tables) (s : BaseConfigNode) (up : LevelInfo) (o : QueryConfigOptions) :
    ConfigModel → Prop
  | node (c : ConfigModel) (onPath : OnPath db s up o c)
      (low : ∀ c', OnPath db s up o c' → c'.confName = c.confName → priority c' ≤ priority c) :
      Effective db s up o c.plain
  | platform (d : ConfigNameDefModel) (plat : Platform db s o d) (visible : d.flagVisible = 1)
      (unset : ∀ c, OnPath db s up o c → c.confName ≠ d.confName) :
      Effective db s up o (newConfigFromNameDef d)

section Rows

variable {db : Tables} {s : BaseConfigNode} {up : LevelInfo} {o : QueryConfigOptions}
  {c c' : ConfigModel} {d : ConfigNameDefModel}

theorem nameWhere_iff (ho : o.MergeView) :
    nameWhere s o d = true ↔ InFile s o d.nameSpace d.confType d.confFile d.confName := by
  rw [nameWhere, decide_eq_true_iff]
  constructor
  · rintro ⟨hns, htype, hfile, hname, -⟩
    exact ⟨hns, htype, hfile, hname⟩
  · rintro ⟨hns, htype, hfile, hname⟩
    exact ⟨hns, htype, hfile, hname, Or.inl ho.confValue⟩

theorem distinctNames_filter {l : List ConfigNameDefModel} (ho : o.MergeView)
    (hl : l.Pairwise fun d d' => (d.nameSpace, d.confType, d.confFile, d.confName) ≠
      (d'.nameSpace, d'.confType, d'.confFile, d'.confName)) :
    DistinctNames (l.filter (nameWhere s o)) := by
  refine (hl.filter _).imp_of_mem ?_
  intro d d' hd hd' hne hname
  obtain ⟨hns, htype, hfile, -⟩ := (nameWhere_iff ho).mp (List.mem_filter.mp hd).2
  obtain ⟨hns', htype', hfile', -⟩ := (nameWhere_iff ho).mp (List.mem_filter.mp hd').2
  exact hne (by rw [hns, htype, hfile, hname, hns', htype', hfile'])

theorem queryPlat_overlaid (hdb : db.Keyed) (ho : o.MergeView) :
    Overlaid (db.nameDef.filter (nameWhere s o)) (db.namePlat.filter (nameWhere s o))
      (queryPlat db s o) :=
  mergeConfNamePlat_overlaid (distinctNames_filter ho hdb.nameDef)
    (distinctNames_filter ho hdb.namePlat)

theorem Platform.inFile (h : Platform db s o d) :
    InFile s o d.nameSpace d.confType d.confFile d.confName := by
  cases h with
  | override _ hin _ => exact hin
  | default _ hin _ => exact hin

/-- The visible items of the platform, as rows of the merge. -/
def platRows (db : Tables) (s : BaseConfigNode) (o : QueryConfigOptions) : List ConfigModel :=
  ((queryPlat db s o).filter fun d => decide (d.flagVisible = 1)).map newConfigFromNameDef

theorem mem_platRows (hdb : db.Keyed) (ho : o.MergeView) :
    c ∈ platRows db s o ↔ ∃ d, Platform db s o d ∧ d.flagVisible = 1 ∧ c = newConfigFromNameDef d := by
  have hq := queryPlat_overlaid (s := s) hdb ho
  rw [platRows, List.mem_map]
  constructor
  · rintro ⟨d, hd, rfl⟩
    obtain ⟨hd, hvisible⟩ := List.mem_filter.mp hd
    have hvisible := of_decide_eq_true hvisible
    rcases hq.origin d hd with ⟨hdef, halone⟩ | ⟨p, hp, hdel, createFrom, rfl⟩
    · obtain ⟨hdef, hin⟩ := List.mem_filter.mp hdef
      refine ⟨d, .default hdef ((nameWhere_iff ho).mp hin) ?_, hvisible, rfl⟩
      intro p hp hpin
      exact (halone p (List.mem_filter.mpr ⟨hp, (nameWhere_iff ho).mpr hpin⟩)).symm
    · obtain ⟨hp, hin⟩ := List.mem_filter.mp hp
      exact ⟨p, .override hp ((nameWhere_iff ho).mp hin) hdel, hvisible, rfl⟩
  · rintro ⟨d, hplat, hvisible, rfl⟩
    cases hplat with
    | override hd hin hdel =>
      obtain ⟨d', hd', createFrom, rfl⟩ :=
        hq.enters d (List.mem_filter.mpr ⟨hd, (nameWhere_iff ho).mpr hin⟩) hdel
      exact ⟨_, List.mem_filter.mpr ⟨hd', decide_eq_true hvisible⟩, rfl⟩
    | default hd hin halone =>
      refine ⟨d, List.mem_filter.mpr ⟨hq.keeps d ?_ ?_, decide_eq_true hvisible⟩, rfl⟩
      · exact List.mem_filter.mpr ⟨hd, (nameWhere_iff ho).mpr hin⟩
      · intro p hp
        obtain ⟨hp, hpin⟩ := List.mem_filter.mp hp
        exact (halone p hp ((nameWhere_iff ho).mp hpin)).symm

/-- The rows of the levels, in the order in which the levels are read. -/
def nodeRows (db : Tables) (rs : Orders) (s : BaseConfigNode) (up : LevelInfo)
    (o : QueryConfigOptions) : List ConfigModel :=
  ((rs.levelInfo.order (levelPath s up).entries).filter fun e => decide (e.1 ≠ "plat")).flatMap
    fun e => queryLevel db s o e.1 e.2

theorem mem_queryLevel (ho : o.MergeView) {levelName levelValue : String} :
    c ∈ queryLevel db s o levelName levelValue ↔ ∃ n ∈ db.node,
      InFile s o n.nameSpace n.confType n.confFile n.confName ∧ n.bkBizID = s.bkBizID ∧
        n.levelName = levelName ∧ n.levelValue = levelValue ∧ c = n.plain := by
  rw [queryLevel, List.mem_map]
  constructor
  · rintro ⟨n, hn, rfl⟩
    obtain ⟨hn, hwhere⟩ := List.mem_filter.mp hn
    obtain ⟨hns, htype, hfile, hbiz, hlevel, hvalue, hname, -⟩ := of_decide_eq_true hwhere
    exact ⟨n, hn, ⟨hns, htype, hfile, hname⟩, hbiz, hlevel, hvalue, rfl⟩
  · rintro ⟨n, hn, ⟨hns, htype, hfile, hname⟩, hbiz, hlevel, hvalue, rfl⟩
    refine ⟨n, List.mem_filter.mpr ⟨hn, decide_eq_true ?_⟩, rfl⟩
    exact ⟨hns, htype, hfile, hbiz, hlevel, hvalue, hname, Or.inl ho.confValue⟩

theorem mem_nodeRows (ho : o.MergeView) (rs : Orders) :
    c ∈ nodeRows db rs s up o ↔ ∃ n, OnPath db s up o n ∧ c = n.plain := by
  rw [nodeRows, List.mem_flatMap]
  constructor
  · rintro ⟨e, he, hc⟩
    obtain ⟨he, hplat⟩ := List.mem_filter.mp he
    obtain ⟨n, hn, hin, hbiz, hlevel, hvalue, rfl⟩ := (mem_queryLevel ho).mp hc
    refine ⟨n, ⟨hn, hin, hbiz, ?_, ?_⟩, rfl⟩
    · rw [hlevel, hvalue]
      exact AList.mem_lookup_iff.mpr (rs.levelInfo.mem_order.mp he)
    · rw [hlevel]
      exact of_decide_eq_true hplat
  · rintro ⟨n, hn, rfl⟩
    refine ⟨⟨n.levelName, n.levelValue⟩, List.mem_filter.mpr ⟨?_, decide_eq_true hn.notPlat⟩,
      (mem_queryLevel ho).mpr ⟨n, hn.mem, hn.inFile, hn.bkBizID, rfl, rfl, rfl⟩⟩
    exact rs.levelInfo.mem_order.mpr (AList.mem_lookup_iff.mp hn.level)

theorem getSimpleConfig_ok (hup : CompleteLevels db s up) (ho : o.MergeView) (K : Codec)
    (keyPrefix : Base64.Bytes) (rs : Orders) : getSimpleConfig db K keyPrefix rs s up o =
      .ok (platRows db s o ++ nodeRows db rs s up o, queryPlat db s o) := by
  have hnamed : getUpLevelInfo db rs.levelMap s up = .ok up := by
    rw [getUpLevelInfo]
    cases hfile : db.levelNameList s with
    | none => rfl
    | some fileLevels =>
      have hfind : ((getConfigLevelsUp rs.levelMap s.levelName).filter
          fun l => decide (l ∈ fileLevels)).find?
            (fun l => decide (l ≠ "plat" ∧ l ≠ "app" ∧ l ∉ up)) = none := by
        refine List.find?_eq_none.mpr ?_
        intro l hl hmissing
        obtain ⟨hplat, happ, hnot⟩ := of_decide_eq_true hmissing
        obtain ⟨hup', hin⟩ := List.mem_filter.mp hl
        obtain ⟨e, he, rfl⟩ := List.mem_map.mp hup'
        obtain ⟨he, hlt⟩ := List.mem_filter.mp he
        exact hnot (hup.named fileLevels hfile e (rs.levelMap.mem_order.mp he)
          (of_decide_eq_true hlt) (of_decide_eq_true hin) hplat happ)
      simp only [hfind]
  rw [getSimpleConfig, hnamed]
  simp only [bind, Except.bind, ho.decrypt, Bool.false_eq_true, if_false]
  rfl

end Rows

section Merging

variable {db : Tables} {s : BaseConfigNode} {up : LevelInfo} {o : QueryConfigOptions}
  {a b c : ConfigModel} {l : List ConfigModel}

/-- The key of a row in the merged view. -/
def mergeKey (c : ConfigModel) : String :=
  c.nameSpace ++ "|" ++ c.confType ++ "|" ++ c.confFile ++ "|" ++ c.confName

theorem configKey_merge (ho : o.MergeView) (c : ConfigModel) :
    configKey o.view c = .ok (mergeKey c) := by
  have hraw : o.view ≠ "raw" := by
    intro h
    have := ho.view
    rw [h] at this
    exact absurd this (by decide)
  rw [configKey, if_neg hraw, if_pos ho.view]
  rfl

theorem configLevelCompare_gt {p q : ℕ} (ha : configLevel a.levelName = some p)
    (hb : configLevel b.levelName = some q) (h : q < p) : configLevelCompare a b = .ok 1 := by
  rw [configLevelCompare, ha, hb]
  exact if_pos h

theorem configLevelCompare_lt {p q : ℕ} (ha : configLevel a.levelName = some p)
    (hb : configLevel b.levelName = some q) (h : p < q) : configLevelCompare a b = .ok (-1) := by
  rw [configLevelCompare, ha, hb]
  dsimp only
  rw [if_neg (by omega), if_pos h]

/-- Rows of known levels are merged by priority. -/
theorem mergeOne_admits (ho : o.MergeView) :
    Admits mergeKey priority (fun c => ∃ p, configLevel c.levelName = some p)
      (mergeOne o.view) where
  fresh := by
    intro m a _ hnone
    rw [mergeOne, configKey_merge ho]
    simp only [bind, Except.bind, hnone]
    rfl
  higher := by
    rintro m a b ⟨p, hp⟩ ⟨q, hq⟩ hsome hlt
    rw [priority, priority, hp, hq] at hlt
    rw [mergeOne, configKey_merge ho]
    simp only [bind, Except.bind, hsome, configLevelCompare_gt hp hq hlt]
    rfl
  lower := by
    rintro m a b ⟨p, hp⟩ ⟨q, hq⟩ hsome hlt
    rw [priority, priority, hp, hq] at hlt
    rw [mergeOne, configKey_merge ho]
    simp only [bind, Except.bind, hsome, configLevelCompare_lt hp hq hlt]
    rfl

/-- A ranked list of rows of known levels is merged into its top rows. -/
theorem mergeConfig_ok (ho : o.MergeView) (r : RangeOrder ConfigModel)
    (hknown : ∀ c ∈ l, ∃ p, configLevel c.levelName = some p) (hr : Ranked mergeKey priority l) :
    ∃ configs, mergeConfig r l o.view = .ok configs ∧ (configs.map mergeKey).Nodup ∧
      ∀ c, c ∈ configs ↔ Top mergeKey priority l c := by
  obtain ⟨m, hfold, hm⟩ := foldlM_holds (mergeOne_admits ho) hknown hr
  refine ⟨r.order (Table.values m), ?_, ?_, ?_⟩
  · rw [mergeConfig, hfold]
    rfl
  · exact ((r.perm _).map mergeKey).nodup_iff.mpr hm.nodup_keys
  · intro c
    rw [r.mem_order, hm.mem_values hr]

theorem plat_lowest : ∀ e ∈ configLevelMap, e.1 ≠ "plat" → 10 < e.2 := by decide

theorem configLevel_mem {levelName : String} {p : ℕ} (h : configLevel levelName = some p) :
    (levelName, p) ∈ configLevelMap := by
  obtain ⟨l₁, l₂, heq, -⟩ := List.lookup_eq_some_iff.mp h
  rw [heq]
  exact List.mem_append_right _ List.mem_cons_self

/-- The platform is above all other levels. -/
theorem priority_gt_plat {p : ℕ} (h : configLevel c.levelName = some p)
    (hplat : c.levelName ≠ "plat") : 10 < priority c := by
  rw [priority, h]
  exact plat_lowest _ (configLevel_mem h) hplat

theorem priority_newConfigFromNameDef (d : ConfigNameDefModel) :
    priority (newConfigFromNameDef d) = 10 :=
  (by decide : (configLevel "plat").getD 0 = 10)

theorem mergeKey_eq_iff (ha : InFile s o a.nameSpace a.confType a.confFile a.confName)
    (hb : InFile s o b.nameSpace b.confType b.confFile b.confName) :
    mergeKey a = mergeKey b ↔ a.confName = b.confName := by
  obtain ⟨hns, htype, hfile, -⟩ := ha
  obtain ⟨hns', htype', hfile', -⟩ := hb
  rw [mergeKey, mergeKey, hns, htype, hfile, hns', htype', hfile']
  exact String.append_right_inj _

theorem OnPath.known (h : OnPath db s up o c) (hl : RankedLevels s up) :
    ∃ p, configLevel c.levelName = some p := by
  refine hl.known _ ?_
  rw [← AList.lookup_isSome, h.level]
  rfl

/-- The rows read, each from its own place. -/
theorem rows_origin (hdb : db.Keyed) (ho : o.MergeView) (rs : Orders) :
    c ∈ platRows db s o ++ nodeRows db rs s up o ↔
      (∃ d, Platform db s o d ∧ d.flagVisible = 1 ∧ c = newConfigFromNameDef d) ∨
        ∃ n, OnPath db s up o n ∧ c = n.plain := by
  rw [List.mem_append, mem_platRows hdb ho, mem_nodeRows ho rs]

theorem rows_inFile (hdb : db.Keyed) (ho : o.MergeView) {rs : Orders}
    (hc : c ∈ platRows db s o ++ nodeRows db rs s up o) :
    InFile s o c.nameSpace c.confType c.confFile c.confName := by
  rcases (rows_origin hdb ho rs).mp hc with ⟨d, hd, -, rfl⟩ | ⟨n, hn, rfl⟩
  · exact hd.inFile
  · exact hn.inFile

theorem rows_known (hdb : db.Keyed) (ho : o.MergeView) (hl : RankedLevels s up) {rs : Orders}
    (hc : c ∈ platRows db s o ++ nodeRows db rs s up o) :
    ∃ p, configLevel c.levelName = some p := by
  rcases (rows_origin hdb ho rs).mp hc with ⟨d, -, -, rfl⟩ | ⟨n, hn, rfl⟩
  · exact ⟨10, (by decide : configLevel "plat" = some 10)⟩
  · exact hn.known hl

theorem platRows_ranked (hdb : db.Keyed) (ho : o.MergeView) :
    Ranked mergeKey priority (platRows db s o) := by
  have hdistinct := (queryPlat_overlaid (s := s) hdb ho).distinct
  have hnames : (platRows db s o).Pairwise fun a b => a.confName ≠ b.confName :=
    List.pairwise_map.mpr (hdistinct.filter _)
  refine hnames.imp_of_mem ?_
  intro a b ha hb hne hkey
  obtain ⟨d, hd, -, rfl⟩ := (mem_platRows hdb ho).mp ha
  obtain ⟨d', hd', -, rfl⟩ := (mem_platRows hdb ho).mp hb
  have hina : InFile s o (newConfigFromNameDef d).nameSpace (newConfigFromNameDef d).confType
      (newConfigFromNameDef d).confFile (newConfigFromNameDef d).confName := hd.inFile
  have hinb : InFile s o (newConfigFromNameDef d').nameSpace (newConfigFromNameDef d').confType
      (newConfigFromNameDef d').confFile (newConfigFromNameDef d').confName := hd'.inFile
  exact absurd ((mergeKey_eq_iff hina hinb).mp hkey) hne

theorem nodeRows_ranked (hdb : db.Keyed) (ho : o.MergeView) (hl : RankedLevels s up)
    (rs : Orders) : Ranked mergeKey priority (nodeRows db rs s up o) := by
  refine List.pairwise_flatMap.mpr ⟨?_, ?_⟩
  · -- within a level, rows of one name would have one unique key
    intro e _
    refine List.pairwise_map.mpr ((hdb.node.filter _).imp_of_mem ?_)
    intro a b ha hb hne hkey
    obtain ⟨hns, htype, hfile, hbiz, hlevel, hvalue, hname, -⟩ :=
      of_decide_eq_true (List.mem_filter.mp ha).2
    obtain ⟨hns', htype', hfile', hbiz', hlevel', hvalue', hname', -⟩ :=
      of_decide_eq_true (List.mem_filter.mp hb).2
    have hina : InFile s o a.plain.nameSpace a.plain.confType a.plain.confFile a.plain.confName :=
      ⟨hns, htype, hfile, hname⟩
    have hinb : InFile s o b.plain.nameSpace b.plain.confType b.plain.confFile b.plain.confName :=
      ⟨hns', htype', hfile', hname'⟩
    have hsame : a.confName = b.confName := (mergeKey_eq_iff hina hinb).mp hkey
    exact absurd (by rw [hbiz, hns, htype, hfile, hsame, hlevel, hvalue, hbiz', hns', htype',
      hfile', hlevel', hvalue']) hne
  · -- two levels have different priorities
    have hnodup : ((rs.levelInfo.order (levelPath s up).entries).filter
        fun e => decide (e.1 ≠ "plat")).Pairwise fun e e' => e.1 ≠ e'.1 := by
      refine List.Pairwise.filter _ ?_
      have hkeys : ((rs.levelInfo.order (levelPath s up).entries).map Sigma.fst).Nodup :=
        ((rs.levelInfo.perm _).map Sigma.fst).nodup_iff.mpr (levelPath s up).nodupKeys
      exact List.pairwise_map.mp hkeys
    refine hnodup.imp_of_mem ?_
    intro e e' he he' hne a ha b hb _ hrank
    obtain ⟨n, -, -, -, hlevel, -, rfl⟩ := (mem_queryLevel ho).mp ha
    obtain ⟨n', -, -, -, hlevel', -, rfl⟩ := (mem_queryLevel ho).mp hb
    have hmem : ∀ x ∈ (rs.levelInfo.order (levelPath s up).entries).filter
        fun e => decide (e.1 ≠ "plat"), x.1 ∈ levelPath s up := by
      intro x hx
      exact List.mem_keys_of_mem (rs.levelInfo.mem_order.mp (List.mem_filter.mp hx).1)
    obtain ⟨p, hp⟩ := hl.known _ (hmem e he)
    obtain ⟨p', hp'⟩ := hl.known _ (hmem e' he')
    have hpp : p = p' := by
      have h : (configLevel n.levelName).getD 0 = (configLevel n'.levelName).getD 0 := hrank
      rwa [hlevel, hlevel', hp, hp'] at h
    exact hne (hl.different _ (hmem e he) _ (hmem e' he') (by rw [hp, hp', hpp]))

theorem rows_ranked (hdb : db.Keyed) (ho : o.MergeView) (hl : RankedLevels s up) (rs : Orders) :
    Ranked mergeKey priority (platRows db s o ++ nodeRows db rs s up o) := by
  refine List.pairwise_append.mpr ⟨platRows_ranked hdb ho, nodeRows_ranked hdb ho hl rs, ?_⟩
  intro a ha b hb _ hrank
  obtain ⟨d, -, -, rfl⟩ := (mem_platRows hdb ho).mp ha
  obtain ⟨n, hn, rfl⟩ := (mem_nodeRows ho rs).mp hb
  obtain ⟨p, hp⟩ := hn.known hl
  have hgt : 10 < priority n := priority_gt_plat hp hn.notPlat
  have hplat : priority (newConfigFromNameDef d) = 10 := priority_newConfigFromNameDef d
  have hsame : priority n.plain = priority n := rfl
  omega

/-- The rows on top are the effective items. -/
theorem top_iff_effective (hdb : db.Keyed) (ho : o.MergeView) (hl : RankedLevels s up)
    (rs : Orders) : Top mergeKey priority (platRows db s o ++ nodeRows db rs s up o) c ↔
      Effective db s up o c := by
  have hrows : ∀ c, c ∈ platRows db s o ++ nodeRows db rs s up o ↔ _ :=
    fun c => rows_origin hdb ho rs
  have hin : ∀ c ∈ platRows db s o ++ nodeRows db rs s up o,
      InFile s o c.nameSpace c.confType c.confFile c.confName :=
    fun c hc => rows_inFile hdb ho hc
  constructor
  · rintro ⟨hc, htop⟩
    have hbeats : ∀ n, OnPath db s up o n → n.confName = c.confName →
        priority n ≤ priority c := by
      intro n hn hname
      have hmem : n.plain ∈ platRows db s o ++ nodeRows db rs s up o :=
        (hrows _).mpr (Or.inr ⟨n, hn, rfl⟩)
      exact htop n.plain hmem ((mergeKey_eq_iff (hin _ hmem) (hin _ hc)).mpr hname)
    rcases (hrows c).mp hc with ⟨d, hd, hvisible, rfl⟩ | ⟨n, hn, rfl⟩
    · refine .platform d hd hvisible ?_
      intro n hn hname
      obtain ⟨p, hp⟩ := hn.known hl
      have hgt := priority_gt_plat hp hn.notPlat
      have hle := hbeats n hn hname
      rw [priority_newConfigFromNameDef] at hle
      omega
    · exact .node n hn hbeats
  · intro heff
    cases heff with
    | node n hn hlow =>
      have hmem : n.plain ∈ platRows db s o ++ nodeRows db rs s up o :=
        (hrows _).mpr (Or.inr ⟨n, hn, rfl⟩)
      refine ⟨hmem, ?_⟩
      intro b hb hkey
      have hname := (mergeKey_eq_iff (hin _ hb) (hin _ hmem)).mp hkey
      rcases (hrows b).mp hb with ⟨d, -, -, rfl⟩ | ⟨n', hn', rfl⟩
      · obtain ⟨p, hp⟩ := hn.known hl
        rw [priority_newConfigFromNameDef]
        exact (priority_gt_plat hp hn.notPlat).le
      · exact hlow n' hn' hname
    | platform d hd hvisible hunset =>
      have hmem : newConfigFromNameDef d ∈ platRows db s o ++ nodeRows db rs s up o :=
        (hrows _).mpr (Or.inl ⟨d, hd, hvisible, rfl⟩)
      refine ⟨hmem, ?_⟩
      intro b hb hkey
      have hname := (mergeKey_eq_iff (hin _ hb) (hin _ hmem)).mp hkey
      rcases (hrows b).mp hb with ⟨d', -, -, rfl⟩ | ⟨n, hn, rfl⟩
      · rw [priority_newConfigFromNameDef, priority_newConfigFromNameDef]
      · exact absurd hname (hunset n hn)

/-- Only the note of the upper value is changed. -/
def NotesOnly (f : ConfigModel → ConfigModel) : Prop :=
  ∀ c, ∃ up, f c = { c with upLevelValue := up }

theorem setUpLevelValue_notesOnly (upConfigs : List ConfigModel) (levelName : String) :
    NotesOnly (setUpLevelValue upConfigs levelName) := by
  intro c
  rw [setUpLevelValue]
  split
  · split
    · exact ⟨_, rfl⟩
    · exact ⟨_, rfl⟩
  · exact ⟨_, rfl⟩

theorem noteUpLevels_notesOnly (r : RangeOrder ConfigModel) (configs : List ConfigModel)
    (levelName view : String) :
    ∃ f, NotesOnly f ∧ noteUpLevels r configs levelName view = configs.map f := by
  rw [noteUpLevels]
  split
  · split
    · exact ⟨_, setUpLevelValue_notesOnly _ _, rfl⟩
    · exact ⟨_, setUpLevelValue_notesOnly _ _, rfl⟩
  · exact ⟨id, fun _ => ⟨_, rfl⟩, List.map_id _ |>.symm⟩

theorem processConfig_confName (c : ConfigModel) : (processConfig c).confName = c.confName := by
  rw [processConfig]
  split
  · rfl
  · rfl

theorem plain_processConfig (c : ConfigModel) : (processConfig c).plain = processConfig c.plain := by
  by_cases h : c.confType = "user" ∨ c.confFile = "notifier"
  · have h' : c.plain.confType = "user" ∨ c.plain.confFile = "notifier" := h
    rw [processConfig, processConfig, if_pos h, if_pos h']
    rfl
  · have h' : ¬ (c.plain.confType = "user" ∨ c.plain.confFile = "notifier") := h
    rw [processConfig, processConfig, if_neg h, if_neg h']

theorem Effective.plain (h : Effective db s up o c) : c.plain = c := by
  cases h with
  | node n _ _ => rfl
  | platform d _ _ _ => rfl

/-- The merge of the rows with their notes, row by row. -/
theorem mergeConfig_rows (hdb : db.Keyed) (ho : o.MergeView) (hl : RankedLevels s up) (rs : Orders)
    {f : ConfigModel → ConfigModel} (hf : NotesOnly f) :
    ∃ configs, mergeConfig rs.merged ((platRows db s o ++ nodeRows db rs s up o).map f) o.view =
        .ok configs ∧ (configs.map ConfigModel.confName).Nodup ∧
      ∀ c, c ∈ configs ↔ ∃ e, Effective db s up o e ∧ f e = c := by
  have hkey : ∀ c, mergeKey (f c) = mergeKey c := by
    intro c
    obtain ⟨up, hup⟩ := hf c
    rw [hup]
    rfl
  have hrank : ∀ c, priority (f c) = priority c := by
    intro c
    obtain ⟨up, hup⟩ := hf c
    rw [hup]
    rfl
  have hknown : ∀ c ∈ (platRows db s o ++ nodeRows db rs s up o).map f,
      ∃ p, configLevel c.levelName = some p := by
    intro c hc
    obtain ⟨d, hd, rfl⟩ := List.mem_map.mp hc
    obtain ⟨up, hup⟩ := hf d
    have hlevel : (f d).levelName = d.levelName := by rw [hup]
    rw [hlevel]
    exact rows_known hdb ho hl hd
  obtain ⟨configs, hok, hnodup, hmem⟩ :=
    mergeConfig_ok ho rs.merged hknown ((rows_ranked hdb ho hl rs).map hkey hrank)
  have heffective : ∀ c, c ∈ configs ↔ ∃ e, Effective db s up o e ∧ f e = c := by
    intro c
    rw [hmem c, top_map hkey hrank]
    simp only [top_iff_effective hdb ho hl rs]
  refine ⟨configs, hok, ?_, heffective⟩
  refine List.pairwise_map.mpr ((List.pairwise_map.mp hnodup).imp_of_mem ?_)
  intro a b ha hb hne hname
  have hinFile : ∀ c ∈ configs, InFile s o c.nameSpace c.confType c.confFile c.confName := by
    intro c hc
    obtain ⟨e, he, rfl⟩ := (heffective c).mp hc
    obtain ⟨up, hup⟩ := hf e
    have hin := rows_inFile hdb ho ((top_iff_effective hdb ho hl rs).mpr he).1
    rw [hup]
    exact hin
  exact hne ((mergeKey_eq_iff (hinFile a ha) (hinFile b hb)).mpr hname)

end Merging

/-- The merge of a node is its effective configuration, one row for each name, with the users of user
lists counted once. -/
theorem getMergedConfig_effective {db : Tables} {s : BaseConfigNode} {up : LevelInfo}
    {o : QueryConfigOptions} (hdb : db.Keyed) (hup : CompleteLevels db s up)
    (hl : RankedLevels s up) (ho : o.MergeView) (K : Codec) (keyPrefix : Base64.Bytes)
    (rs : Orders) :
    ∃ configs names, getMergedConfig db K keyPrefix rs s up o = .ok (configs, names) ∧
      (configs.map ConfigModel.confName).Nodup ∧
      ∀ c, c ∈ configs.map ConfigModel.plain ↔
        ∃ e, Effective db s up o e ∧ c = processConfig e := by
  have hfilled : parentFilled db s up = .ok up := by
    refine if_neg ?_
    rintro ⟨hlevel, hempty⟩
    exact hup.given hlevel hempty
  obtain ⟨f, hf, hrows⟩ := noteUpLevels_notesOnly rs.merged
    (platRows db s o ++ nodeRows db rs s up o) s.levelName o.view
  obtain ⟨configs, hok, hnodup, hmem⟩ := mergeConfig_rows hdb ho hl rs hf
  refine ⟨configs.map processConfig, removeConfigsPlat (queryPlat db s o), ?_, ?_, ?_⟩
  · rw [getMergedConfig, hfilled]
    simp only [bind, Except.bind, getSimpleConfig_ok hup ho, hrows, hok]
    rfl
  · have hnames : (configs.map processConfig).map ConfigModel.confName =
        configs.map ConfigModel.confName := by
      rw [List.map_map]
      exact List.map_congr_left fun c _ => processConfig_confName c
    rwa [hnames]
  · have hplain : ∀ e, Effective db s up o e → (processConfig (f e)).plain = processConfig e := by
      intro e he
      obtain ⟨up, hup⟩ := hf e
      have hstrip : (f e).plain = e.plain := by
        rw [hup]
        rfl
      rw [plain_processConfig, hstrip, he.plain]
    intro c
    simp only [List.mem_map]
    constructor
    · rintro ⟨_, ⟨_, hd, rfl⟩, rfl⟩
      obtain ⟨e, he, rfl⟩ := (hmem _).mp hd
      exact ⟨e, he, hplain e he⟩
    · rintro ⟨e, he, rfl⟩
      exact ⟨_, ⟨_, (hmem _).mpr ⟨e, he, rfl⟩, rfl⟩, hplain e he⟩

/-- Who is notified: a default, and an item for the business and one for a module. -/
def notifierDef : ConfigNameDefModel where
  id := 1
  nameSpace := "tendbha"
  confType := "user"
  confFile := "notifier"
  confName := "backup"
  confNameLC := "backup"
  valueDefault := bytes "admin"
  flagVisible := 1
  flagLocked := 0
  flagEncrypt := 0
  flagDisable := 0
  deleted := 0
  createFrom := ""

def notifierItem (levelName levelValue confValue : String) : ConfigModel where
  id := 1
  bkBizID := "3"
  nameSpace := "tendbha"
  confType := "user"
  confFile := "notifier"
  confName := "backup"
  confValue := bytes confValue
  levelName := levelName
  levelValue := levelValue
  description := ""
  flagDisable := 0
  flagLocked := 0
  updatedRevision := ""
  upLevelValue := none

def notifierTables : Tables where
  nameDef := [notifierDef]
  namePlat := []
  node := [notifierItem "app" "3" "ann", notifierItem "module" "m10" "bob; ann; bob"]
  levelNameList _ := some ["plat", "app", "module", "cluster"]
  moduleByCluster _ := ""
  clusterByInstance _ := ""

def stillOrders : Orders := ⟨.still, .still, .still⟩

def clusterNode : BaseConfigNode := ⟨"3", "tendbha", "user", "notifier", "cluster", "c11"⟩

def clusterLevels : LevelInfo := AList.singleton "module" "m10"

def mergeRequest : QueryConfigOptions := ⟨"", [], false, "merge"⟩

theorem mergeRequest_mergeView : mergeRequest.MergeView := ⟨by decide, rfl, rfl⟩

theorem clusterLevels_path {l : String} (hl : l ∈ levelPath clusterNode clusterLevels) :
    l = "app" ∨ l = "cluster" ∨ l = "module" := by
  have hkeys : (levelPath clusterNode clusterLevels).keys = ["app", "cluster", "module"] := by decide
  have hmem : l ∈ (levelPath clusterNode clusterLevels).keys := hl
  rw [hkeys] at hmem
  simpa using hmem

theorem clusterLevels_ranked : RankedLevels clusterNode clusterLevels where
  known := by
    intro l hl
    rcases clusterLevels_path hl with rfl | rfl | rfl
    · exact ⟨20, by decide⟩
    · exact ⟨50, by decide⟩
    · exact ⟨30, by decide⟩
  different := by
    intro l hl l' hl'
    rcases clusterLevels_path hl with rfl | rfl | rfl <;>
      rcases clusterLevels_path hl' with rfl | rfl | rfl <;> decide

theorem clusterLevels_complete : CompleteLevels notifierTables clusterNode clusterLevels where
  named := by
    rintro fileLevels hfile
    obtain rfl := Option.some.inj hfile
    decide
  given := fun _ => by decide

theorem notifierTables_keyed : notifierTables.Keyed where
  nameDef := List.pairwise_singleton ..
  namePlat := List.Pairwise.nil
  node := List.pairwise_pair.mpr (by decide)

theorem getMergedConfig_notifier :
    ∃ configs names, getMergedConfig notifierTables maskCodec [] stillOrders clusterNode clusterLevels
        mergeRequest = .ok (configs, names) ∧ (configs.map ConfigModel.confName).Nodup ∧
      ∀ c, c ∈ configs.map ConfigModel.plain ↔
        ∃ e, Effective notifierTables clusterNode clusterLevels mergeRequest e ∧
          c = processConfig e :=
  getMergedConfig_effective notifierTables_keyed clusterLevels_complete clusterLevels_ranked
    mergeRequest_mergeView maskCodec [] stillOrders

/-- The item of the module is the effective one, but its users are listed in another way. -/
theorem notifier_value_rewritten :
    Effective notifierTables clusterNode clusterLevels mergeRequest
        (notifierItem "module" "m10" "bob; ann; bob") ∧
      (getMergedConfig notifierTables maskCodec [] stillOrders clusterNode clusterLevels
          mergeRequest).map Prod.fst = .ok [notifierItem "module" "m10" "bob,ann"] := by
  have hpath : OnPath notifierTables clusterNode clusterLevels mergeRequest
      (notifierItem "module" "m10" "bob; ann; bob") :=
    ⟨by decide, ⟨rfl, rfl, rfl, Or.inl rfl⟩, rfl, by decide, by decide⟩
  refine ⟨.node _ hpath ?_, by decide +kernel⟩
  intro c hc _
  have hmem : c = notifierItem "app" "3" "ann" ∨ c = notifierItem "module" "m10" "bob; ann; bob" := by
    simpa [notifierTables] using hc.mem
  rcases hmem with rfl | rfl
  · decide
  · exact le_rfl

end Config
