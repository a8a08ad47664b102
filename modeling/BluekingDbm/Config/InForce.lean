import BluekingDbm.Config.Effective
import BluekingDbm.Config.Upsert

/-! The item in force for one name at a node: there is at most one, the query of the name shows it, and
it tells what is in force above the node. -/
namespace Config

open Base64 (Bytes)
open Foremost

/-- The item that a query of the name at the node finds. -/
def InForce (db : Tables) (s : BaseConfigNode) (up : LevelInfo) (confName : String)
    (e : ConfigModel) : Prop := Effective db s up (baseOptions confName) e

/-- The tables without the items of one level. -/
def Tables.without (db : Tables) (levelName : String) : Tables :=
  { db with node := db.node.filter fun c => decide (c.levelName ≠ levelName) }

/-- The item in force without the items of the node's own level. -/
def Inherited (db : Tables) (s : BaseConfigNode) (up : LevelInfo) (confName : String) :
    ConfigModel → Prop := InForce (db.without s.levelName) s up confName

theorem baseOptions_mergeView (confName : String) : (baseOptions confName).MergeView :=
  ⟨List.prefix_rfl, rfl, rfl⟩

section One

variable {db : Tables} {s : BaseConfigNode} {up filled : LevelInfo} {confName : String}
  {e e' : ConfigModel}

theorem Tables.Keyed.without (hdb : db.Keyed) (levelName : String) : (db.without levelName).Keyed :=
  ⟨hdb.nameDef, hdb.namePlat, hdb.node.filter _⟩

theorem InForce.named (h : InForce db s up confName e) (hname : confName ≠ "") :
    e.confName = confName := by
  cases h with
  | node c hpath _ => exact hpath.inFile.2.2.2.resolve_left hname
  | platform d hd _ _ => exact hd.inFile.2.2.2.resolve_left hname

theorem InForce.unique (hdb : db.Keyed) (hl : RankedLevels s up) (hname : confName ≠ "")
    (h : InForce db s up confName e) (h' : InForce db s up confName e') : e = e' := by
  obtain ⟨configs, -, hnodup, hmem⟩ := mergeConfig_rows hdb (baseOptions_mergeView confName) hl
    ⟨.still, .still, .still⟩ (f := id) fun c => ⟨c.upLevelValue, rfl⟩
  have hin : ∀ d, InForce db s up confName d → d ∈ configs := fun d hd => (hmem d).mpr ⟨d, hd, rfl⟩
  exact List.inj_on_of_nodup_map hnodup (hin e h) (hin e' h')
    ((h.named hname).trans (h'.named hname).symm)

/-- If a level sets the name, something is in force. -/
theorem exists_inForce {c : ConfigModel} (hdb : db.Keyed) (hl : RankedLevels s up)
    (hc : OnPath db s up (baseOptions confName) c) : ∃ e, InForce db s up confName e := by
  have ho := baseOptions_mergeView confName
  have hrow : c.plain ∈ platRows db s (baseOptions confName) ++
      nodeRows db ⟨.still, .still, .still⟩ s up (baseOptions confName) :=
    List.mem_append_right _ ((mem_nodeRows ho _).mpr ⟨c, hc, rfl⟩)
  obtain ⟨e, htop, -⟩ := @exists_top _ _ mergeKey _ _ _ priority hrow
  exact ⟨e, (top_iff_effective hdb ho hl _).mp htop⟩

/-- The rows of the tables without a level below the platform. -/
theorem rows_without (rs : Orders) (o : QueryConfigOptions) (hlevel : s.levelName ≠ "plat") :
    (platRows db s o ++ nodeRows db rs s up o).filter (fun c => decide (c.levelName ≠ s.levelName)) =
      platRows (db.without s.levelName) s o ++ nodeRows (db.without s.levelName) rs s up o := by
  have hplat : (platRows db s o).filter (fun c => decide (c.levelName ≠ s.levelName)) =
      platRows (db.without s.levelName) s o := by
    refine List.filter_eq_self.mpr ?_
    intro c hc
    obtain ⟨d, -, rfl⟩ := List.mem_map.mp hc
    exact decide_eq_true hlevel.symm
  have hquery : ∀ levelName levelValue,
      (queryLevel db s o levelName levelValue).filter (fun c => decide (c.levelName ≠ s.levelName)) =
        queryLevel (db.without s.levelName) s o levelName levelValue := by
    intro levelName levelValue
    rw [queryLevel, queryLevel, List.filter_map, Tables.without]
    simp only [List.filter_filter, Function.comp_def]
    refine congrArg (List.map _) (List.filter_congr ?_)
    intro c _
    exact Bool.and_comm _ _
  rw [List.filter_append, hplat, nodeRows, nodeRows, List.filter_flatMap]
  simp only [hquery]

/-- What the row of the node's own level tells of the levels above it. -/
def Notes (db : Tables) (s : BaseConfigNode) (up : LevelInfo) (confName : String) (e : ConfigModel)
    (note : Option UpLevelValue) : Prop :=
  if e.levelName = s.levelName ∧ s.levelName ≠ "plat" then
    (∃ u, Inherited db s up confName u ∧ note = some ⟨u.levelName, u.levelValue, u.confValue⟩) ∨
      (∀ u, ¬ Inherited db s up confName u) ∧ note = none
  else note = none

/-- The answer to a query of one name. -/
inductive Shows (db : Tables) (s : BaseConfigNode) (up : LevelInfo) (confName : String) :
    List ConfigModel → Prop
  | nothing (none : ∀ e, ¬ InForce db s up confName e) : Shows db s up confName []
  | item (e : ConfigModel) (inForce : InForce db s up confName e) (note : Option UpLevelValue)
      (notes : Notes db s up confName e note) :
      Shows db s up confName [{ processConfig e with upLevelValue := note }]

/-- The rows are told what they override, or nothing on the platform. -/
theorem noteUpLevels_notes (hdb : db.Keyed) (hl : RankedLevels s up) (hname : confName ≠ "")
    (rs : Orders) :
    ∃ f, NotesOnly f ∧
      noteUpLevels rs.merged (platRows db s (baseOptions confName) ++
          nodeRows db rs s up (baseOptions confName)) s.levelName "merge" =
        (platRows db s (baseOptions confName) ++ nodeRows db rs s up (baseOptions confName)).map f ∧
      ∀ e, InForce db s up confName e → Notes db s up confName e (f e).upLevelValue := by
  have ho := baseOptions_mergeView confName
  by_cases hplat : s.levelName = "plat"
  · refine ⟨id, fun c => ⟨c.upLevelValue, rfl⟩, ?_, ?_⟩
    · rw [noteUpLevels, if_neg (not_not.mpr hplat), List.map_id]
    · intro e he
      have hnone : e.upLevelValue = none := congrArg ConfigModel.upLevelValue (Effective.plain he).symm
      rw [Notes, if_neg (fun h => h.2 hplat)]
      exact hnone
  · have hknown : ∀ c ∈ platRows (db.without s.levelName) s (baseOptions confName) ++
        nodeRows (db.without s.levelName) rs s up (baseOptions confName),
        ∃ p, configLevel c.levelName = some p :=
      fun c hc => rows_known (hdb.without _) ho hl hc
    obtain ⟨upConfigs, hmerge, -, hmem⟩ :=
      mergeConfig_ok ho rs.merged hknown (rows_ranked (hdb.without _) ho hl rs)
    have htop : ∀ u, u ∈ upConfigs ↔ Inherited db s up confName u :=
      fun u => (hmem u).trans (top_iff_effective (hdb.without _) ho hl rs)
    refine ⟨setUpLevelValue upConfigs s.levelName, setUpLevelValue_notesOnly _ _, ?_, ?_⟩
    · have hup : mergeConfigLevelUp rs.merged (platRows db s (baseOptions confName) ++
          nodeRows db rs s up (baseOptions confName)) s.levelName "merge" = .ok upConfigs := by
        rw [mergeConfigLevelUp, rows_without rs _ hplat]
        exact hmerge
      rw [noteUpLevels, if_pos hplat, hup]
    · intro e he
      have hnone : e.upLevelValue = none := congrArg ConfigModel.upLevelValue (Effective.plain he).symm
      by_cases hown : e.levelName = s.levelName
      · rw [Notes, if_pos ⟨hown, hplat⟩, setUpLevelValue, if_pos hown]
        cases hfind : upConfigs.reverse.find? fun u => decide (u.confName = e.confName) with
        | some u =>
          have hu := List.mem_reverse.mp (List.mem_of_find?_eq_some hfind)
          exact Or.inl ⟨u, (htop u).mp hu, rfl⟩
        | none =>
          refine Or.inr ⟨?_, hnone⟩
          intro u hu
          have hmiss := List.find?_eq_none.mp hfind u (List.mem_reverse.mpr ((htop u).mpr hu))
          exact hmiss (decide_eq_true ((InForce.named hu hname).trans (he.named hname).symm))
      · rw [Notes, if_neg (fun h => hown h.1), setUpLevelValue, if_neg hown]
        exact hnone

/-- The query of a name shows the item in force and what it overrides. -/
theorem getMergedConfig_shows (hdb : db.Keyed) (hfilled : parentFilled db s up = .ok filled)
    (hup : CompleteLevels db s filled) (hl : RankedLevels s filled) (hname : confName ≠ "")
    (K : Codec) (keyPrefix : Bytes) (rs : Orders) :
    ∃ configs names, getMergedConfig db K keyPrefix rs s up (baseOptions confName) =
        .ok (configs, names) ∧ Shows db s filled confName configs := by
  have ho := baseOptions_mergeView confName
  obtain ⟨f, hf, hrows, hnotes⟩ := noteUpLevels_notes hdb hl hname rs
  obtain ⟨configs, hok, hnodup, hmem⟩ := mergeConfig_rows hdb ho hl rs hf
  refine ⟨configs.map processConfig, removeConfigsPlat (queryPlat db s (baseOptions confName)), ?_, ?_⟩
  · have hview : (baseOptions confName).view = "merge" := rfl
    rw [getMergedConfig, hfilled]
    simp only [bind, Except.bind, getSimpleConfig_ok hup ho, hview, hrows]
    rw [hview] at hok
    rw [hok]
    rfl
  · have hshown : ∀ e, InForce db s filled confName e →
        processConfig (f e) = { processConfig e with upLevelValue := (f e).upLevelValue } := by
      intro e _
      obtain ⟨note, hnote⟩ := hf e
      rw [hnote, processConfig, processConfig]
      dsimp only
      split
      · rfl
      · rfl
    cases configs with
    | nil =>
      refine .nothing ?_
      intro e he
      exact List.not_mem_nil ((hmem (f e)).mpr ⟨e, he, rfl⟩)
    | cons c rest =>
      obtain ⟨e, he, rfl⟩ := (hmem c).mp List.mem_cons_self
      have hrest : rest = [] := by
        refine List.eq_nil_iff_forall_not_mem.mpr ?_
        intro d hd
        obtain ⟨e', he', rfl⟩ := (hmem d).mp (List.mem_cons_of_mem _ hd)
        obtain rfl := InForce.unique hdb hl hname he he'
        exact (List.nodup_cons.mp hnodup).1 (List.mem_map_of_mem hd)
      rw [hrest, List.map_singleton, hshown e he]
      exact .item e he _ (hnotes e he)

end One

end Config
