import BluekingDbm.Library.Run
import BluekingDbm.Rotate.Removal
import Mathlib.Data.List.Count

/-! Runs over one instance, one after another: what is registered, and what a later run does to it. -/
namespace Rotate

/-- The instance between the runs: the clock, its binlogs and their records. -/
structure Instance where
  clock : ℕ
  dir : List BinlogFile
  db : List BinlogFileModel

inductive Event
  | serve (dir : List BinlogFile)
  | backup (db : List BinlogFileModel)
  | run (env : Env)

/-- The server goes on behind the file in use, and may lose files. -/
def Grown (dir dir' : List BinlogFile) : Prop :=
  ∃ last ∈ dir.getLast?, ∃ last' ∈ dir'.getLast?, number last.filename ≤ number last'.filename ∧
    ∀ f ∈ dir', f ∈ dir.dropLast ∨ number last.filename ≤ number f.filename

/-- What the backup leaves of a record: it changes the task with its status, and the times that
were not read before. -/
def BinlogFileModel.registration (row : BinlogFileModel) : BinlogFileModel :=
  { row with startTime := "", stopTime := "", backupStatus := 0, backupTaskid := "" }

/-- A run; where it panics, nothing was written. -/
def ran (env : Env) (s : Instance) : Host := (run env ⟨s.dir, s.db, []⟩).getD ⟨s.dir, s.db, []⟩

/-- The steps of an instance that serves in one role. -/
inductive Step (port role : String) : Instance → Event → Instance → Prop
  | serve {s : Instance} {dir : List BinlogFile} (hfiles : Files port dir)
      (hgrown : Grown s.dir dir) : Step port role s (.serve dir) { s with dir }
  | backup {s : Instance} {db : List BinlogFileModel}
      (hrows : db.map BinlogFileModel.registration = s.db.map BinlogFileModel.registration) :
      Step port role s (.backup db) { s with db }
  | run {s : Instance} {env : Env} (hclock : s.clock ≤ env.now) (hrole : env.dbRole = role) :
      Step port role s (.run env) ⟨env.now, (ran env s).dir, (ran env s).db⟩

/-- An instance of which nothing was registered. -/
structure Initial (port : String) (s : Instance) : Prop where
  files : Files port s.dir
  nonempty : s.dir ≠ []
  db : s.db = []

/-- The records that are not deleted at the start of a run. -/
def kept (env : Env) (db : List BinlogFileModel) : List BinlogFileModel :=
  if env.maxKeepDuration = 0 ∨ env.hour ≠ 6 then db
  else deleteExpired (env.now - env.maxKeepDuration) db

/-- A record with the greatest start time. -/
def Latest (db : List BinlogFileModel) (row : BinlogFileModel) : Prop :=
  row ∈ db ∧ ∀ other ∈ db, ¬ row.startTime < other.startTime

/-- The listed files, as their numbers order them. -/
def recent (env : Env) (dir : List BinlogFile) : List BinlogFile :=
  dir.filter fun f => ¬ Old env.now f

/-- Where a run does what it is to do: all names have one length, no record of a listed file lies
behind a record with the greatest start time, and no record of the reserve is deleted. -/
structure Sound (env : Env) (s : Instance) : Prop where
  names : OneLength s.dir
  lengths : ∀ row, Latest (kept env s.db) row →
    ∀ f ∈ s.dir, row.filename.length = f.filename.length
  latest : ∀ row, Latest (kept env s.db) row → ∀ other ∈ kept env s.db,
    ∀ f ∈ recent env s.dir, other.filename = f.filename →
      number other.filename ≤ number row.filename
  reserve : ∀ f ∈ (recent env s.dir).drop ((recent env s.dir).length - 9), ∀ row ∈ s.db,
    row.filename = f.filename → row ∈ kept env s.db

/-- What a run is to do: each closed file that it keeps at its start has one record, records of
files that are there stay, those of other files keep their tasks, and the file in use is neither
registered nor removed. -/
structure Registered (env : Env) (s t : Instance) : Prop where
  once : ∀ u, flushLogs env ⟨s.dir, s.db, []⟩ = some u → ∀ f ∈ u.dir, f ∈ s.dir.dropLast →
    ¬ Old env.now f → (t.db.map BinlogFileModel.filename).count f.filename = 1
  same : ∀ row ∈ s.db, ∀ f ∈ t.dir, row.filename = f.filename → ¬ Old env.now f → row ∈ t.db
  tasks : ∀ row ∈ kept env s.db, ∃ row' ∈ t.db, row'.stable = row.stable
  current : ∀ last ∈ s.dir.getLast?, last ∈ t.dir ∧ ∀ row ∈ t.db, row.filename ≠ last.filename

/-- What holds between the runs. -/
structure Tracked (port role : String) (s : Instance) : Prop where
  files : Files port s.dir
  nonempty : s.dir ≠ []
  named : ∀ row ∈ s.db, row.filename = binlogName port (number row.filename)
  nodup : (s.db.map BinlogFileModel.filename).Nodup
  role : ∀ row ∈ s.db, row.dbRole = role
  behind : ∀ last ∈ s.dir.getLast?, ∀ row ∈ s.db, number row.filename < number last.filename
  mtime : ∀ f ∈ s.dir, ∀ row ∈ s.db, row.filename = f.filename → row.fileMtime = rfc3339 f.mtime
  registered : ∀ f ∈ s.dir, ∀ row ∈ s.db, number f.filename ≤ number row.filename →
    f.filename ∈ s.db.map BinlogFileModel.filename ∨ Old s.clock f

section

variable {port role : String} {env : Env} {s t : Instance} {u : Host} {f last : BinlogFile}
  {row before : BinlogFileModel} {models db : List BinlogFileModel}

/-- New records are put behind the old ones. -/
theorem batchSave_eq (hnew : ∀ model ∈ models, ∀ row ∈ db, row.filename ≠ model.filename)
    (hnodup : (models.map BinlogFileModel.filename).Nodup) :
    batchSave models db = db ++ models := by
  induction models generalizing db with
  | nil => simp [batchSave]
  | cons model models ih =>
    obtain ⟨hmodel, hmodels⟩ := List.forall_mem_cons.mp hnew
    rw [List.map_cons, List.nodup_cons] at hnodup
    obtain ⟨hnot, hnodup⟩ := hnodup
    have hall : db.filter (fun other => other.filename ≠ model.filename) = db := by
      apply List.filter_eq_self.mpr
      intro row hrow
      exact decide_eq_true (hmodel row hrow)
    have hrest : ∀ other ∈ models, ∀ row ∈ db ++ [model], row.filename ≠ other.filename := by
      intro other hother row hrow
      rcases List.mem_append.mp hrow with hrow | hrow
      · exact hmodels other hother row hrow
      · rw [List.mem_singleton.mp hrow]
        exact fun heq => hnot (heq ▸ List.mem_map_of_mem hother)
    have hstep : batchSave (model :: models) db = batchSave models
        (db.filter (fun other => other.filename ≠ model.filename) ++ [model]) := rfl
    rw [hstep, hall, ih hrest hnodup, List.append_assoc, List.singleton_append]

theorem queryLastFileReport_cases (env : Env) (db : List BinlogFileModel) :
    db = [] ∧ queryLastFileReport env db = emptyModel ∨ Latest db (queryLastFileReport env db) := by
  have hsorted : (env.rows.sortSlice (fun a b => b.startTime < a.startTime) db).Pairwise
      fun a b => decide (a.startTime < b.startTime) = false := by
    apply RangeOrder.pairwise_sortSlice
    · intro a b c hab hbc
      rw [decide_eq_false_iff_not, not_lt] at hab hbc ⊢
      exact le_trans hbc hab
    · intro a b
      rw [decide_eq_false_iff_not, decide_eq_false_iff_not, not_lt, not_lt]
      exact le_total _ _
  have hmem : ∀ row, row ∈ env.rows.sortSlice (fun a b => b.startTime < a.startTime) db ↔ row ∈ db :=
    fun row => RangeOrder.mem_sortSlice env.rows
  unfold queryLastFileReport
  generalize env.rows.sortSlice (fun a b => b.startTime < a.startTime) db = rows at hsorted hmem
  cases rows with
  | nil =>
    left
    refine ⟨List.eq_nil_iff_forall_not_mem.mpr ?_, rfl⟩
    intro row hrow
    cases (hmem row).mpr hrow
  | cons first rows =>
    right
    refine ⟨(hmem first).mp List.mem_cons_self, ?_⟩
    intro other hother hlt
    rcases List.mem_cons.mp ((hmem other).mpr hother) with rfl | hin
    · exact lt_irrefl _ hlt
    · exact of_decide_eq_false ((List.pairwise_cons.mp hsorted).1 other hin) hlt

theorem kept_sublist (env : Env) (db : List BinlogFileModel) : (kept env db).Sublist db := by
  unfold kept
  split
  · exact .refl _
  · exact List.filter_sublist

theorem tracked_initial (h : Initial port s) : Tracked port role s := by
  have hnone : ∀ row, row ∉ s.db := by
    intro row hrow
    rw [h.db] at hrow
    cases hrow
  constructor
  case files => exact h.files
  case nonempty => exact h.nonempty
  case nodup => simp [h.db]
  all_goals grind

theorem tracked_serve {dir : List BinlogFile} (h : Tracked port role s) (hfiles : Files port dir)
    (hgrown : Grown s.dir dir) : Tracked port role { s with dir } := by
  obtain ⟨last, hlast, last', hlast', hle, hold⟩ := hgrown
  -- a file that reaches up to a record is an old one
  have hclosed : ∀ f ∈ dir, ∀ row ∈ s.db, number f.filename ≤ number row.filename → f ∈ s.dir := by
    intro f hf row hrow hnumber
    have hlt := h.behind last hlast row hrow
    rcases hold f hf with hin | hnew
    · exact List.dropLast_subset _ hin
    · omega
  constructor
  case files => exact hfiles
  case nonempty => exact List.ne_nil_of_mem (List.mem_of_getLast? hlast')
  case named => exact h.named
  case nodup => exact h.nodup
  case role => exact h.role
  case behind =>
    intro other hother row hrow
    obtain rfl := Option.some.inj (hlast'.symm.trans hother)
    have hlt := h.behind last hlast row hrow
    omega
  case mtime =>
    intro f hf row hrow heq
    exact h.mtime f (hclosed f hf row hrow (by rw [heq])) row hrow heq
  case registered =>
    intro f hf row hrow hnumber
    exact h.registered f (hclosed f hf row hrow hnumber) row hrow hnumber

theorem tracked_backup (h : Tracked port role s)
    (hrows : db.map BinlogFileModel.registration = s.db.map BinlogFileModel.registration) :
    Tracked port role { s with db } := by
  have hnames : db.map BinlogFileModel.filename = s.db.map BinlogFileModel.filename := by
    have hmap := congrArg (List.map BinlogFileModel.filename) hrows
    rwa [List.map_map, List.map_map] at hmap
  have hold : ∀ row ∈ db, ∃ row' ∈ s.db, row'.registration = row.registration := by
    intro row hrow
    have hin := List.mem_map_of_mem (f := BinlogFileModel.registration) hrow
    rw [hrows] at hin
    exact List.mem_map.mp hin
  have hfields : ∀ row row' : BinlogFileModel, row'.registration = row.registration →
      row'.filename = row.filename ∧ row'.fileMtime = row.fileMtime ∧ row'.dbRole = row.dbRole := by
    intro row row' heq
    simp only [BinlogFileModel.registration, BinlogFileModel.mk.injEq] at heq
    exact ⟨heq.1, heq.2.2.1, heq.2.2.2.2.2.1⟩
  constructor
  case files => exact h.files
  case nonempty => exact h.nonempty
  case nodup => exact hnames ▸ h.nodup
  case registered =>
    intro f hf row hrow hnumber
    obtain ⟨row', hrow', heq⟩ := hold row hrow
    rw [hnames]
    exact h.registered f hf row' hrow' ((hfields row row' heq).1 ▸ hnumber)
  all_goals grind [Tracked]

theorem registerBinlog_eq (hswitch : ¬ (env.dbRole = "master" ∧ before.dbRole = "slave"))
    (hlast : u.binlogFiles.getLast? = some last)
    (hreset : ¬ last.filename < filepathBase before.filename) :
    registerBinlog env before u =
      { u with
        db := batchSave ((filesToRegister before u.binlogFiles).map (newModel env)) u.db } := by
  rw [registerBinlog, if_neg hswitch, hlast]
  dsimp only
  rw [if_neg hreset]

theorem mem_filesToRegister {files : List BinlogFile} : f ∈ filesToRegister before files ↔
    f ∈ files.dropLast ∧ (before.filename = "" ∨ before.filename < f.filename) := by
  rw [filesToRegister, List.mem_filter, decide_eq_true_iff]
  refine and_congr_right fun _ => ?_
  by_cases hempty : before.filename = ""
  · simp [hempty]
  · simp [hempty, filepathBase]

/-- Where the names have one length, the last record is compared by its number. -/
theorem lt_file_iff (h : Tracked port role s) (hsound : Sound env s)
    (hbefore : Latest (kept env s.db) before) (hf : f ∈ s.dir) :
    before.filename < f.filename ↔ number before.filename < number f.filename := by
  have hsame := hsound.lengths before hbefore f hf
  have hrow := (kept_sublist env s.db).subset hbefore.1
  rw [h.named before hrow, h.files.named f hf] at hsame ⊢
  rw [binlogName_lt hsame, number_binlogName, number_binlogName]

theorem named_ne_empty (h : Tracked port role s) (hrow : row ∈ s.db) : row.filename ≠ "" := by
  intro hempty
  have hname := h.named row hrow
  rw [hempty] at hname
  have hlt := dot_lt_binlogName port (number "")
  rw [← hname] at hlt
  exact absurd hlt (by decide)

/-- The records behind the start of a run are followed by those of the files that have none. -/
structure Added (env : Env) (u : Host) (models : List BinlogFileModel) : Prop where
  eq : registerBinlog env (queryLastFileReport env u.db) u = { u with db := u.db ++ models }
  closed : ∀ model ∈ models, ∃ f ∈ u.binlogFiles.dropLast, model = newModel env f
  nodup : ((u.db ++ models).map BinlogFileModel.filename).Nodup
  all : ∀ f ∈ u.binlogFiles.dropLast, f.filename ∈ (u.db ++ models).map BinlogFileModel.filename

theorem registerBinlog_added (h : Tracked port role s) (hsound : Sound env s)
    (hclock : s.clock ≤ env.now) (hrole : env.dbRole = role)
    (hflush : flushLogs env ⟨s.dir, s.db, []⟩ = some u) : ∃ models, Added env u models := by
  have hflushed := @flushLogs_flushed port env ⟨s.dir, s.db, []⟩ u h.files hsound.names hflush
  have hdb : u.db = kept env s.db := (flushLogs_eq hflush).2.2.2
  obtain ⟨last, hlast⟩ : ∃ last, s.dir.getLast? = some last :=
    ⟨_, List.getLast?_eq_some_getLast h.nonempty⟩
  obtain ⟨hlastDir, hlastListed, -⟩ := hflushed.last last hlast
  have hfiles : Files port u.binlogFiles :=
    h.files.sublist (hflushed.listed.trans hflushed.dir)
  have hdir : ∀ f ∈ u.binlogFiles, f ∈ s.dir :=
    fun f hf => hflushed.dir.subset (hflushed.listed.subset hf)
  have hrecent : ∀ f ∈ u.binlogFiles, f ∈ recent env s.dir := by
    intro f hf
    refine List.mem_filter.mpr ⟨hdir f hf, decide_eq_true ?_⟩
    exact (hflushed.mem f (hflushed.listed.subset hf)).mp hf
  have hold : ∀ row ∈ u.db, row ∈ s.db := by
    intro row hrow
    exact (kept_sublist env s.db).subset (hdb ▸ hrow)
  obtain ⟨before, hbefore⟩ : ∃ before, queryLastFileReport env u.db = before := ⟨_, rfl⟩
  have hcases := queryLastFileReport_cases env u.db
  rw [hbefore] at hcases
  have hlatest : Latest u.db before → Latest (kept env s.db) before := fun hin => hdb ▸ hin
  have hnoSwitch : ¬ (env.dbRole = "master" ∧ before.dbRole = "slave") := by
    rintro ⟨hmaster, hslave⟩
    rcases hcases with ⟨-, rfl⟩ | hin
    · exact absurd hslave (by decide)
    · rw [h.role before (hold before hin.1), ← hrole, hmaster] at hslave
      exact absurd hslave (by decide)
  have hnoReset : ¬ last.filename < filepathBase before.filename := by
    rcases hcases with ⟨-, rfl⟩ | hin
    · have hdot := dot_lt_binlogName port (number last.filename)
      rw [← h.files.named last (List.mem_of_getLast? hlast)] at hdot
      exact lt_asymm hdot
    · have hne := named_ne_empty h (hold before hin.1)
      have hlt := (lt_file_iff h hsound (hlatest hin) (List.mem_of_getLast? hlast)).mpr
        (h.behind last hlast before (hold before hin.1))
      rw [filepathBase, if_neg hne]
      exact lt_asymm hlt
  -- a file to be registered has no record
  have hnew : ∀ f ∈ filesToRegister before u.binlogFiles, ∀ row ∈ u.db,
      row.filename ≠ f.filename := by
    intro f hf row hrow heq
    obtain ⟨hclosed, hbehind⟩ := mem_filesToRegister.mp hf
    have hfin := List.dropLast_subset _ hclosed
    rcases hcases with ⟨hnil, -⟩ | hin
    · rw [hnil] at hrow
      cases hrow
    · have hlt := (lt_file_iff h hsound (hlatest hin) (hdir f hfin)).mp
        (hbehind.resolve_left (named_ne_empty h (hold before hin.1)))
      have hle := hsound.latest before (hlatest hin) row (hdb ▸ hrow) f (hrecent f hfin) heq
      rw [heq] at hle
      omega
  have hsub : (filesToRegister before u.binlogFiles).Sublist u.binlogFiles :=
    List.filter_sublist.trans (List.dropLast_sublist _)
  have hnames : ((filesToRegister before u.binlogFiles).map (newModel env)).map
      BinlogFileModel.filename =
        (filesToRegister before u.binlogFiles).map BinlogFile.filename := by
    rw [List.map_map]
    rfl
  have hnodup := (hfiles.sublist hsub).names_nodup
  rw [← hnames] at hnodup
  have hnewModels : ∀ model ∈ (filesToRegister before u.binlogFiles).map (newModel env),
      ∀ row ∈ u.db, row.filename ≠ model.filename := by
    intro model hmodel row hrow
    obtain ⟨f, hf, rfl⟩ := List.mem_map.mp hmodel
    exact hnew f hf row hrow
  refine ⟨(filesToRegister before u.binlogFiles).map (newModel env), ?_, ?_, ?_, ?_⟩
  · rw [hbefore, registerBinlog_eq hnoSwitch hlastListed hnoReset, batchSave_eq hnewModels hnodup]
  · intro model hmodel
    obtain ⟨f, hf, rfl⟩ := List.mem_map.mp hmodel
    exact ⟨f, (mem_filesToRegister.mp hf).1, rfl⟩
  · rw [List.map_append, List.nodup_append]
    refine ⟨h.nodup.sublist ((hdb ▸ kept_sublist env s.db).map _), hnodup, ?_⟩
    rintro name hname other hother rfl
    obtain ⟨row, hrow, heq⟩ := List.mem_map.mp hname
    obtain ⟨model, hmodel, heq'⟩ := List.mem_map.mp hother
    exact hnewModels model hmodel row hrow (heq.trans heq'.symm)
  · intro f hf
    rw [List.map_append, hnames]
    by_cases hreg : f ∈ filesToRegister before u.binlogFiles
    · exact List.mem_append_right _ (List.mem_map_of_mem hreg)
    · apply List.mem_append_left
      have hfin := List.dropLast_subset _ hf
      have hnot : ¬ (before.filename = "" ∨ before.filename < f.filename) :=
        fun hbehind => hreg (mem_filesToRegister.mpr ⟨hf, hbehind⟩)
      rcases hcases with ⟨-, rfl⟩ | hin
      · exact absurd (Or.inl rfl) hnot
      · have hle : number f.filename ≤ number before.filename := by
          by_contra hlt
          exact hnot (Or.inr ((lt_file_iff h hsound (hlatest hin) (hdir f hfin)).mpr (by omega)))
        rcases h.registered f (hdir f hfin) before (hold before hin.1) hle with hown | holder
        · -- its record is not deleted, as the file would have been removed
          obtain ⟨own, hown, hname⟩ := List.mem_map.mp hown
          rcases hflushed.rows own hown with hstay | ⟨hclear, hexpired⟩
          · exact hname ▸ List.mem_map_of_mem hstay
          · have hfexpired : Expired env f := by
              rw [h.mtime f (hdir f hfin) own hown hname] at hexpired
              unfold rfc3339 at hexpired
              unfold Expired
              omega
            have hreserve := hflushed.reserve f hfin hclear hfexpired
            have hlisting : getBinlogFilesLocal env s.dir = recent env s.dir :=
              getBinlogFilesLocal_eq h.files hsound.names
            rw [hlisting] at hreserve
            have hkept := hsound.reserve f hreserve own hown hname
            exact hname ▸ List.mem_map_of_mem (hdb ▸ hkept)
        · have hlisted := (hflushed.mem f (hflushed.listed.subset hfin)).mp hfin
          unfold Old at holder hlisted
          omega

/-- What a run does with an instance that is tracked. -/
structure Processed (env : Env) (s : Instance) (u : Host) (models : List BinlogFileModel) (t : Host) :
    Prop where
  flushed : Flushed env ⟨s.dir, s.db, []⟩ u
  db : u.db = kept env s.db
  added : Added env u models
  freed : Freed { u with db := u.db ++ models } t
  last : ∀ last ∈ s.dir.getLast?, last ∈ t.dir ∧ ∀ row ∈ t.db, row.filename ≠ last.filename

theorem exists_stable {db db' : List BinlogFileModel}
    (h : db'.map BinlogFileModel.stable = db.map BinlogFileModel.stable) (hrow : row ∈ db) :
    ∃ row' ∈ db', row'.stable = row.stable := by
  have hin := List.mem_map_of_mem (f := BinlogFileModel.stable) hrow
  rw [← h] at hin
  exact List.mem_map.mp hin

theorem stable_fields {row' : BinlogFileModel} (h : row'.stable = row.stable) :
    row'.filename = row.filename ∧ row'.fileMtime = row.fileMtime ∧ row'.dbRole = row.dbRole := by
  simp only [BinlogFileModel.stable, BinlogFileModel.mk.injEq] at h
  exact ⟨h.1, h.2.2.1, h.2.2.2.2.2.1⟩

theorem map_filename_of_stable {db db' : List BinlogFileModel}
    (h : db'.map BinlogFileModel.stable = db.map BinlogFileModel.stable) :
    db'.map BinlogFileModel.filename = db.map BinlogFileModel.filename := by
  have hmap := congrArg (List.map BinlogFileModel.filename) h
  rwa [List.map_map, List.map_map] at hmap

theorem ran_cases (h : Tracked port role s) (hsound : Sound env s) (hclock : s.clock ≤ env.now)
    (hrole : env.dbRole = role) :
    flushLogs env ⟨s.dir, s.db, []⟩ = none ∧ ran env s = ⟨s.dir, s.db, []⟩ ∨
      ∃ u models, flushLogs env ⟨s.dir, s.db, []⟩ = some u ∧ Processed env s u models (ran env s) := by
  cases hflush : flushLogs env ⟨s.dir, s.db, []⟩ with
  | none =>
    left
    refine ⟨rfl, ?_⟩
    rw [ran, run, hflush]
    rfl
  | some u =>
    right
    obtain ⟨models, hadded⟩ := registerBinlog_added h hsound hclock hrole hflush
    have hflushed := @flushLogs_flushed port env ⟨s.dir, s.db, []⟩ u h.files hsound.names hflush
    have hdb : u.db = kept env s.db := (flushLogs_eq hflush).2.2.2
    have hran : ran env s = freeSpace env { u with db := u.db ++ models } := by
      rw [ran, run, hflush, Option.map_some, hadded.eq]
      rfl
    have hfiles : Files port u.binlogFiles := h.files.sublist (hflushed.listed.trans hflushed.dir)
    have hfreed := @freeSpace_freed env { u with db := u.db ++ models } port hfiles
      hflushed.listed.subset
    have hcurrent : ∀ last ∈ s.dir.getLast?, ∀ row ∈ u.db ++ models,
        row.filename ≠ last.filename := by
      intro last hlast row hrow heq
      rcases List.mem_append.mp hrow with hrow | hrow
      · have hlt := h.behind last hlast row ((kept_sublist env s.db).subset (hdb ▸ hrow))
        rw [heq] at hlt
        omega
      · obtain ⟨f, hf, rfl⟩ := hadded.closed row hrow
        have hlt := ((hfiles.mem_dropLast (hflushed.last last hlast).2.1).mp hf).2
        have hname : f.filename = last.filename := heq
        rw [hname] at hlt
        omega
    refine ⟨u, models, rfl, hflushed, hdb, hadded, hran ▸ hfreed, ?_⟩
    intro last hlast
    constructor
    · rw [hran]
      exact freeSpace_last hfiles hflushed.listed.subset (hflushed.last last hlast).2.1
        (hcurrent last hlast)
    · intro row hrow heq
      obtain ⟨row', hrow', hsame⟩ := exists_stable (hran ▸ hfreed).stable.symm hrow
      exact hcurrent last hlast row' hrow' ((stable_fields hsame).1.trans heq)

theorem Processed.rows {models : List BinlogFileModel} (h : Tracked port role s)
    (hrole : env.dbRole = role) {v : Host} (hran : Processed env s u models v)
    (hrow : row ∈ v.db) :
    row.filename = binlogName port (number row.filename) ∧ row.dbRole = role ∧
      (∀ last ∈ s.dir.getLast?, number row.filename < number last.filename) ∧
      ∀ f ∈ s.dir, row.filename = f.filename → row.fileMtime = rfc3339 f.mtime := by
  obtain ⟨row', hrow', hsame⟩ := exists_stable hran.freed.stable.symm hrow
  obtain ⟨hname, hmtime, hrowRole⟩ := stable_fields hsame
  rw [← hname, ← hmtime, ← hrowRole]
  rcases List.mem_append.mp hrow' with hrow' | hrow'
  · have hin := (kept_sublist env s.db).subset (hran.db ▸ hrow')
    exact ⟨h.named row' hin, h.role row' hin, fun last hlast => h.behind last hlast row' hin,
      fun f hf => h.mtime f hf row' hin⟩
  · obtain ⟨f, hf, rfl⟩ := hran.added.closed row' hrow'
    have hfiles := h.files.sublist (hran.flushed.listed.trans hran.flushed.dir)
    have hfdir : f ∈ s.dir := hran.flushed.dir.subset
      (hran.flushed.listed.subset (List.dropLast_subset _ hf))
    refine ⟨h.files.named f hfdir, hrole, ?_, ?_⟩
    · intro last hlast
      exact ((hfiles.mem_dropLast (hran.flushed.last last hlast).2.1).mp hf).2
    · intro g hg heq
      have hsameFile : f = g := h.files.filename_inj hfdir hg heq
      rw [← hsameFile]
      rfl

/-- A closed file that is kept at the start of a run has a record behind it. -/
theorem Processed.closed {models : List BinlogFileModel} (h : Tracked port role s) {v : Host}
    (hran : Processed env s u models v) (hf : f ∈ u.dir) (hclosed : f ∈ s.dir.dropLast)
    (hnew : ¬ Old env.now f) : (v.db.map BinlogFileModel.filename).count f.filename = 1 := by
  have hnames := map_filename_of_stable hran.freed.stable
  rw [hnames]
  apply List.count_eq_one_of_mem hran.added.nodup
  apply hran.added.all
  obtain ⟨last, hlast⟩ : ∃ last, s.dir.getLast? = some last :=
    ⟨_, List.getLast?_eq_some_getLast h.nonempty⟩
  have hfiles := h.files.sublist (hran.flushed.listed.trans hran.flushed.dir)
  exact (hfiles.mem_dropLast (hran.flushed.last last hlast).2.1).mpr
    ⟨(hran.flushed.mem f hf).mpr hnew, ((h.files.mem_dropLast hlast).mp hclosed).2⟩

theorem tracked_run (h : Tracked port role s) (hsound : Sound env s) (hclock : s.clock ≤ env.now)
    (hrole : env.dbRole = role) :
    Tracked port role ⟨env.now, (ran env s).dir, (ran env s).db⟩ := by
  have holder : ∀ f, Old s.clock f → Old env.now f := by
    intro f hold
    unfold Old at hold ⊢
    omega
  rcases ran_cases h hsound hclock hrole with ⟨-, hran⟩ | ⟨u, models, -, hran⟩
  · rw [hran]
    refine ⟨h.files, h.nonempty, h.named, h.nodup, h.role, h.behind, h.mtime, ?_⟩
    intro f hf row hrow hle
    exact (h.registered f hf row hrow hle).imp id (holder f)
  · have hdir : (ran env s).dir.Sublist s.dir := hran.freed.dir.trans hran.flushed.dir
    obtain ⟨last, hlast⟩ : ∃ last, s.dir.getLast? = some last :=
      ⟨_, List.getLast?_eq_some_getLast h.nonempty⟩
    have hthere := (hran.last last hlast).1
    have hlast' := h.files.getLast?_sublist hlast hdir hthere
    constructor
    case files => exact h.files.sublist hdir
    case nonempty => exact List.ne_nil_of_mem hthere
    case named => exact fun row hrow => (hran.rows h hrole hrow).1
    case nodup =>
      have hnames := map_filename_of_stable hran.freed.stable
      rw [hnames]
      exact hran.added.nodup
    case role => exact fun row hrow => (hran.rows h hrole hrow).2.1
    case behind =>
      intro other hother row hrow
      obtain rfl := Option.some.inj (hlast'.symm.trans hother)
      exact (hran.rows h hrole hrow).2.2.1 last hlast
    case mtime =>
      intro f hf row hrow
      exact (hran.rows h hrole hrow).2.2.2 f (hdir.subset hf)
    case registered =>
      intro f hf row hrow hle
      by_cases hold : Old env.now f
      · exact Or.inr hold
      · left
        have hlt := (hran.rows h hrole hrow).2.2.1 last hlast
        have hclosed := (h.files.mem_dropLast hlast).mpr ⟨hdir.subset hf, by omega⟩
        have hone := hran.closed h (hran.freed.dir.subset hf) hclosed hold
        exact List.one_le_count_iff.mp (Nat.le_of_eq hone.symm)

theorem registered_run (h : Tracked port role s) (hsound : Sound env s) (hclock : s.clock ≤ env.now)
    (hrole : env.dbRole = role) :
    Registered env s ⟨env.now, (ran env s).dir, (ran env s).db⟩ := by
  rcases ran_cases h hsound hclock hrole with ⟨hnone, hran⟩ | ⟨u, models, hflush, hran⟩
  · rw [hran]
    constructor
    case once =>
      intro u hflush
      cases hnone.symm.trans hflush
    case same => exact fun row hrow _ _ _ _ => hrow
    case tasks => exact fun row hrow => ⟨row, (kept_sublist env s.db).subset hrow, rfl⟩
    case current =>
      intro last hlast
      refine ⟨List.mem_of_getLast? hlast, ?_⟩
      intro row hrow heq
      have hlt := h.behind last hlast row hrow
      rw [heq] at hlt
      omega
  · constructor
    case once =>
      intro u' hflush'
      obtain rfl := Option.some.inj (hflush.symm.trans hflush')
      exact fun f hf hclosed hnew => hran.closed h hf hclosed hnew
    case same =>
      intro row hrow f hf hname hnew
      refine (hran.freed.kept f hf row hname).mpr (List.mem_append_left _ ?_)
      rcases hran.flushed.rows row hrow with hstay | ⟨hclear, hexpired⟩
      · exact hstay
      · -- a listed file whose record is deleted would be of the reserve
        have hfdir : f ∈ u.dir := hran.freed.dir.subset hf
        have hfs : f ∈ s.dir := hran.flushed.dir.subset hfdir
        have hfexpired : Expired env f := by
          rw [h.mtime f hfs row hrow hname] at hexpired
          unfold rfc3339 at hexpired
          unfold Expired
          omega
        have hreserve := hran.flushed.reserve f ((hran.flushed.mem f hfdir).mpr hnew) hclear
          hfexpired
        have hlisting : getBinlogFilesLocal env s.dir = recent env s.dir :=
          getBinlogFilesLocal_eq h.files hsound.names
        rw [hlisting] at hreserve
        rw [hran.db]
        exact hsound.reserve f hreserve row hrow hname
    case tasks =>
      intro row hrow
      exact exists_stable hran.freed.stable (List.mem_append_left _ (hran.db ▸ hrow))
    case current => exact hran.last

/-- What a step of a run needs. -/
def SoundAt (s : Instance) (e : Event) : Prop := ∀ env, e = .run env → Sound env s

theorem tracked_reachable {es : List Event} (h : Initial port s)
    (hrun : Transition.Run (Transition.Guarded SoundAt (Step port role)) s es t) :
    Tracked port role t := by
  apply hrun.invariant (Tracked port role) (tracked_initial h)
  rintro s e t hs ⟨hsound, hstep⟩
  cases hstep with
  | serve hfiles hgrown => exact tracked_serve hs hfiles hgrown
  | backup hrows => exact tracked_backup hs hrows
  | run hclock hrole => exact tracked_run hs (hsound _ rfl) hclock hrole

/-- After each run each closed file of the last sixty days has one record, what was registered
keeps its status and its task, and the file in use is neither registered nor removed, as long as
the runs find names of one length, the last registered file by its start time, and a reserve whose
records are not too old. -/
theorem run_registers_once {es : List Event} {v : Instance} (h : Initial port s)
    (hrun : Transition.Run (Transition.Guarded SoundAt (Step port role)) s es t)
    (hstep : Transition.Guarded SoundAt (Step port role) t (.run env) v) : Registered env t v := by
  obtain ⟨hsound, hstep⟩ := hstep
  cases hstep with
  | run hclock hrole => exact registered_run (tracked_reachable h hrun) (hsound _ rfl) hclock hrole

end

/-- A run that can read the first binlog only. -/
def damagedEnv : Env :=
  { sampleEnv with
    sizeToFree := 0
    parse := fun name =>
      if number name = 1 then some ("2024-01-01 00:00:00", "2024-01-01 00:05:00") else none }

def sampleInstance : Instance := ⟨0, sampleDir 3, []⟩

theorem initial_sampleInstance : Initial "20000" sampleInstance :=
  ⟨files_sampleDir 3, by decide, rfl⟩

theorem sound_sampleInstance : Sound damagedEnv sampleInstance := by
  refine ⟨oneLength_sampleDir (by omega), ?_, ?_, ?_⟩
  · rintro row ⟨hrow, -⟩
    cases hrow
  · rintro row ⟨hrow, -⟩
    cases hrow
  · intro f _ row hrow
    cases hrow

theorem run_registers_once_sample : Registered damagedEnv sampleInstance
    ⟨0, (ran damagedEnv sampleInstance).dir, (ran damagedEnv sampleInstance).db⟩ :=
  run_registers_once initial_sampleInstance .refl
    ⟨fun env heq => by cases heq; exact sound_sampleInstance, .run (Nat.le_refl _) rfl⟩

def damagedModel (n : ℕ) : BinlogFileModel :=
  newModel damagedEnv ⟨binlogName "20000" n, 0, 100, true⟩

/-- The second binlog, uploaded by task 7. -/
def uploadedModel : BinlogFileModel :=
  { damagedModel 2 with backupStatus := ibStatusSuccess, backupTaskid := "7" }

theorem ran_damagedEnv (db : List BinlogFileModel) : ran damagedEnv ⟨0, sampleDir 3, db⟩ =
    registerBinlog damagedEnv (queryLastFileReport damagedEnv db)
      ⟨sampleDir 3, db, sampleDir 3⟩ := by
  have hflush : flushLogs damagedEnv ⟨sampleDir 3, db, []⟩ =
      some ⟨sampleDir 3, db, sampleDir 3⟩ := by
    unfold flushLogs
    rw [listing_sampleDir damagedEnv rfl (by omega)]
    rfl
  have hfree : ∀ t, freeSpace damagedEnv t = t := fun _ => rfl
  rw [ran, run, hflush, Option.map_some, hfree]
  rfl

theorem name_lt_sampleDir {m n : ℕ} (hm : 1 ≤ m ∧ m ≤ 3) (hn : 1 ≤ n ∧ n ≤ 3) :
    binlogName "20000" m < binlogName "20000" n ↔ m < n := by
  apply binlogName_lt
  have hmem : ∀ k : ℕ, 1 ≤ k ∧ k ≤ 3 →
      (⟨binlogName "20000" k, 0, 100, true⟩ : BinlogFile) ∈ sampleDir 3 := by
    intro k hk
    refine List.mem_map.mpr ⟨k, List.mem_range'_1.mpr ?_, rfl⟩
    omega
  have hsame := @oneLength_sampleDir 3 (by omega) _ (hmem m hm) _ (hmem n hn)
  exact hsame

theorem ran_sampleInstance : ran damagedEnv sampleInstance =
    ⟨sampleDir 3, [damagedModel 1, damagedModel 2], sampleDir 3⟩ := by
  have hbefore : queryLastFileReport damagedEnv [] = emptyModel := by
    rcases queryLastFileReport_cases damagedEnv [] with ⟨-, heq⟩ | ⟨hin, -⟩
    · exact heq
    · cases hin
  have hlast : (sampleDir 3).getLast? = some ⟨binlogName "20000" 3, 0, 100, true⟩ := rfl
  have hreset : ¬ binlogName "20000" 3 < filepathBase emptyModel.filename :=
    lt_asymm (dot_lt_binlogName "20000" 3)
  rw [sampleInstance, ran_damagedEnv, hbefore, registerBinlog_eq (by decide) hlast hreset]
  rfl

/-- The second binlog cannot be read, so the first one counts as the last that was registered, and
the second is registered again when it has been uploaded. -/
theorem run_registers_again : ¬ ∀ (s t v : Instance) (es : List Event) (env : Env),
    Initial "20000" s → Transition.Run (Step "20000" "master") s es t →
      Step "20000" "master" t (.run env) v → Registered env t v := by
  intro honce
  have hrun : Step "20000" "master" sampleInstance (.run damagedEnv) ⟨0,
      (ran damagedEnv sampleInstance).dir, (ran damagedEnv sampleInstance).db⟩ :=
    .run (Nat.le_refl _) rfl
  rw [ran_sampleInstance] at hrun
  have hbackup : Step "20000" "master" ⟨0, sampleDir 3, [damagedModel 1, damagedModel 2]⟩
      (.backup [damagedModel 1, uploadedModel]) ⟨0, sampleDir 3, [damagedModel 1, uploadedModel]⟩ :=
    .backup rfl
  have hagain : ran damagedEnv ⟨0, sampleDir 3, [damagedModel 1, uploadedModel]⟩ =
      ⟨sampleDir 3, [damagedModel 1, damagedModel 2], sampleDir 3⟩ := by
    have hbefore : queryLastFileReport damagedEnv [damagedModel 1, uploadedModel] =
        damagedModel 1 := by
      rcases queryLastFileReport_cases damagedEnv [damagedModel 1, uploadedModel] with
        ⟨hnil, -⟩ | ⟨hin, hgreatest⟩
      · cases hnil
      · rcases List.mem_pair.mp hin with heq | heq
        · exact heq
        · have hnot := hgreatest (damagedModel 1) List.mem_cons_self
          rw [heq] at hnot
          have hempty : uploadedModel.startTime = "" := by
            have hnumber : number (binlogName "20000" 2) ≠ 1 := by
              rw [number_binlogName]
              omega
            simp [uploadedModel, damagedModel, newModel, damagedEnv, hnumber]
          have hread : (damagedModel 1).startTime = "2024-01-01 00:00:00" := by
            simp [damagedModel, newModel, damagedEnv, number_binlogName]
          rw [hempty, hread] at hnot
          exact absurd (by decide) hnot
    have hlast : (sampleDir 3).getLast? = some ⟨binlogName "20000" 3, 0, 100, true⟩ := rfl
    have hbase : filepathBase (damagedModel 1).filename = binlogName "20000" 1 := rfl
    have hreset : ¬ binlogName "20000" 3 < filepathBase (damagedModel 1).filename := by
      rw [hbase, name_lt_sampleDir (by omega) (by omega)]
      omega
    have hfirst : ¬ binlogName "20000" 1 < binlogName "20000" 1 := lt_irrefl _
    have hsecond : binlogName "20000" 1 < binlogName "20000" 2 :=
      (name_lt_sampleDir (by omega) (by omega)).mpr (by omega)
    have hfiles : filesToRegister (damagedModel 1) (sampleDir 3) =
        [⟨binlogName "20000" 2, 0, 100, true⟩] := by
      have hclosed : (sampleDir 3).dropLast =
          [⟨binlogName "20000" 1, 0, 100, true⟩, ⟨binlogName "20000" 2, 0, 100, true⟩] := rfl
      have hnonempty : (damagedModel 1).filename ≠ "" := by decide
      have hpass : ∀ name, ¬ ((damagedModel 1).filename ≠ "" ∧
          ¬ filepathBase (damagedModel 1).filename < name) ↔ binlogName "20000" 1 < name := by
        intro name
        rw [hbase]
        exact ⟨fun hnot => by_contra fun hlt => hnot ⟨hnonempty, hlt⟩, fun hlt hboth => hboth.2 hlt⟩
      rw [filesToRegister, hclosed, List.filter_cons_of_neg, List.filter_cons_of_pos, List.filter_nil]
      · exact decide_eq_true ((hpass _).mpr hsecond)
      · exact fun hin => hfirst ((hpass _).mp (of_decide_eq_true hin))
    rw [ran_damagedEnv, hbefore, registerBinlog_eq (by decide) hlast hreset, hfiles]
    have hother : (damagedModel 1).filename ≠ (damagedModel 2).filename := ne_of_lt hsecond
    have hsave : batchSave [damagedModel 2] [damagedModel 1, uploadedModel] =
        [damagedModel 1, uploadedModel].filter (fun other => other.filename ≠
          (damagedModel 2).filename) ++ [damagedModel 2] := rfl
    have hkept : [damagedModel 1, uploadedModel].filter (fun other => other.filename ≠
          (damagedModel 2).filename) = [damagedModel 1] := by
      rw [List.filter_cons_of_pos, List.filter_cons_of_neg, List.filter_nil]
      · exact fun hin => of_decide_eq_true hin rfl
      · exact decide_eq_true hother
    rw [hkept] at hsave
    exact congrArg (fun db => (⟨sampleDir 3, db, sampleDir 3⟩ : Host)) hsave
  have hreg := honce sampleInstance _ _ _ damagedEnv initial_sampleInstance
    ((Transition.Run.snoc .refl hrun).snoc hbackup) (.run (Nat.le_refl _) rfl)
  have hsame := hreg.same uploadedModel (List.mem_cons_of_mem _ List.mem_cons_self)
    ⟨binlogName "20000" 2, 0, 100, true⟩
  rw [hagain] at hsame
  have hin := hsame (List.mem_map_of_mem (List.mem_range'_1.mpr (by omega))) rfl
    (Nat.not_lt_zero _)
  rcases List.mem_pair.mp hin with heq | heq
  · have htask := congrArg BinlogFileModel.backupTaskid heq
    exact absurd htask (by decide)
  · have htask := congrArg BinlogFileModel.backupTaskid heq
    exact absurd htask (by decide)

end Rotate
