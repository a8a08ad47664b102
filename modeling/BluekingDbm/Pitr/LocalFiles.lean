import BluekingDbm.Pitr.BackupFile
import Mathlib.Logic.Function.Basic
import Mathlib.Order.Basic
import Mathlib.Data.Int.Order.Basic

/-! The local backup files of an instance: which of those in the meta file are removed, by their
uploads, their ages and the use of the disk. -/
namespace Pitr

/-- A task of the backup system: the upload of one file. -/
structure TaskInfo where
  taskId : String
  filePath : String
  status : String
  deriving DecidableEq, Repr

def TaskStatusDone : String := "4"

/-- Two days, in nanoseconds. -/
def MaxSaveTime : ℤ := 48 * 3600 * 1000000000

/-- The backup directory: when each file was written last, and beside it the id and the status of
its task. An info file is named after the path in it, so it always speaks of its own file. -/
structure LocalDir where
  modTime : String → Option ℤ
  infoFile : String → Option (String × String)

namespace LocalDir

def loadInfoFile (d : LocalDir) (fullPath : String) : Option TaskInfo :=
  (d.infoFile fullPath).map fun info => ⟨info.1, fullPath, info.2⟩

def saveToFile (d : LocalDir) (t : TaskInfo) : LocalDir :=
  { d with infoFile := Function.update d.infoFile t.filePath (some (t.taskId, t.status)) }

def doRemoveFile (d : LocalDir) (fullPath : String) : LocalDir :=
  { d with modTime := Function.update d.modTime fullPath none }

def doRemoveInfoFile (d : LocalDir) (t : Option TaskInfo) : LocalDir :=
  match t with
  | none => d
  | some t => { d with infoFile := Function.update d.infoFile t.filePath none }

end LocalDir

inductive DiskState
  | emergency
  | warning
  | normal
  deriving DecidableEq, Repr

inductive DeleteReasonFlag
  | none
  | yes
  | no
  deriving DecidableEq, Repr

def getDiskState (diskUsage maxDiskUsage minDiskUsage : ℤ) : DiskState :=
  if maxDiskUsage < diskUsage then .emergency
  else if diskUsage < minDiskUsage then .normal
  else .warning

/-- The backup system's answer about a task, none where it fails; it names the task's own file. -/
def getTaskInfo (answer : String → Option String) (t : TaskInfo) : Option TaskInfo :=
  (answer t.taskId).map fun status => { t with status }

/-- Whether the upload is done, and the info file to be written when this is news. A task that
is not done gives the flag of a file without a task. -/
def getTaskDoneReason (answer : String → Option String) (taskInfo : Option TaskInfo) :
    DeleteReasonFlag × Option TaskInfo :=
  match taskInfo with
  | none => (.none, none)
  | some info =>
    if info.status = TaskStatusDone then (.yes, none)
    else
      match getTaskInfo answer info with
      | none => (.none, none)
      | some backupInfo =>
        if backupInfo.status = TaskStatusDone then (.yes, some backupInfo) else (.none, none)

def getModTimeReason (now modTime : ℤ) : DeleteReasonFlag :=
  if modTime < now - MaxSaveTime then .yes else .no

/-- The switch over the state of the disk: it has no case for the warning state. -/
def doDelete (diskState : DiskState) (taskDone modTime : DeleteReasonFlag) : Bool :=
  match diskState with
  | .emergency => taskDone = .yes || taskDone = .none
  | .normal => modTime = .yes && taskDone = .yes
  | .warning => false

/-- What one look at a record finds; `saved` is the info file it writes. -/
structure Verdict where
  fullPath : String
  taskInfo : Option TaskInfo
  doDelete : Bool
  saved : Option TaskInfo

/-- What a run is told from outside, the disk use as measured for each file. -/
structure Retention where
  metaDir : String
  now : ℤ
  answer : String → Option String
  maxDiskUsage : ℤ
  minDiskUsage : ℤ

namespace Retention

variable (ret : Retention) (usage usage' : String → ℤ)

def fullPath (r : BackupFileName) : String := ret.metaDir ++ "/" ++ r.fileName

def canDelete (d : LocalDir) (r : BackupFileName) : Verdict :=
  let fullPath := ret.fullPath r
  match d.modTime fullPath with
  | none => ⟨fullPath, none, false, none⟩
  | some modTime =>
    let taskInfo := d.loadInfoFile fullPath
    let taskDoneReason := getTaskDoneReason ret.answer taskInfo
    let modTimeReason := getModTimeReason ret.now modTime
    let diskState := getDiskState (usage fullPath) ret.maxDiskUsage ret.minDiskUsage
    ⟨fullPath, taskInfo, Pitr.doDelete diskState taskDoneReason.1 modTimeReason, taskDoneReason.2⟩

/-- The directory after one record was looked at. -/
def settle (d : LocalDir) (v : Verdict) : LocalDir :=
  let d := v.saved.elim d d.saveToFile
  if v.doDelete then (d.doRemoveFile v.fullPath).doRemoveInfoFile v.taskInfo else d

/-- The files removed, in the order of the records, and the directory left. -/
def removeOldFileFirst : List BackupFileName → LocalDir → List String × LocalDir
  | [], d => ([], d)
  | r :: records, d =>
    let v := ret.canDelete usage d r
    let rest := removeOldFileFirst records (settle d v)
    (if v.doDelete then v.fullPath :: rest.1 else rest.1, rest.2)

/-- The files that go at a given use of the disk. -/
def deleted (records : List BackupFileName) (d : LocalDir) : List String :=
  (ret.removeOldFileFirst usage records d).1


/-- The file is there and its verdicts let it go. -/
def Removable (d : LocalDir) (p : String) : Prop :=
  ∃ modTime, d.modTime p = some modTime ∧
    Pitr.doDelete (getDiskState (usage p) ret.maxDiskUsage ret.minDiskUsage)
      (getTaskDoneReason ret.answer (d.loadInfoFile p)).1 (getModTimeReason ret.now modTime) = true

/-- An upload is done by the info file or by the backup system's answer. -/
def Done (d : LocalDir) (p : String) : Prop :=
  ∃ info, d.loadInfoFile p = some info ∧
    (info.status = TaskStatusDone ∨
      ∃ answered, getTaskInfo ret.answer info = some answered ∧ answered.status = TaskStatusDone)

/-- There is an upload task and nothing says that it is done. -/
def Unfinished (d : LocalDir) (p : String) : Prop :=
  (d.loadInfoFile p).isSome ∧ ¬ ret.Done d p

def Old (d : LocalDir) (p : String) : Prop :=
  ∃ modTime, d.modTime p = some modTime ∧ modTime < ret.now - MaxSaveTime

def Present (d : LocalDir) (p : String) : Prop := (d.modTime p).isSome

theorem taskDone_iff (d : LocalDir) (p : String) :
    (getTaskDoneReason ret.answer (d.loadInfoFile p)).1 = .yes ↔ ret.Done d p := by
  unfold getTaskDoneReason Done
  cases d.loadInfoFile p with
  | none => simp
  | some info =>
    by_cases hs : info.status = TaskStatusDone
    · simp [hs]
    · cases ha : getTaskInfo ret.answer info with
      | none => simp [hs, ha]
      | some answered => by_cases hd : answered.status = TaskStatusDone <;> simp [hs, ha, hd]

/-- The verdict on the upload is never a refusal: the switch asks for one that cannot come. -/
theorem taskDone_ne_no (answer : String → Option String) (taskInfo : Option TaskInfo) :
    (getTaskDoneReason answer taskInfo).1 = .yes ∨ (getTaskDoneReason answer taskInfo).1 = .none := by
  unfold getTaskDoneReason
  cases taskInfo with
  | none => exact Or.inr rfl
  | some info =>
    by_cases hs : info.status = TaskStatusDone
    · simp [hs]
    · cases ha : getTaskInfo answer info with
      | none => simp [hs, ha]
      | some answered => by_cases hd : answered.status = TaskStatusDone <;> simp [hs, ha, hd]

theorem modTime_iff (now modTime : ℤ) :
    getModTimeReason now modTime = .yes ↔ modTime < now - MaxSaveTime := by
  unfold getModTimeReason
  split <;> simp_all

theorem old_present {d : LocalDir} {p : String} (h : ret.Old d p) : Present d p := by
  obtain ⟨modTime, ht, -⟩ := h
  simp [Present, ht]

/-- Above the upper threshold every file that is there goes. -/
theorem removable_emergency {d : LocalDir} {p : String} (hu : ret.maxDiskUsage < usage p) :
    ret.Removable usage d p ↔ Present d p := by
  constructor
  · rintro ⟨modTime, ht, -⟩
    simp [Present, ht]
  · intro h
    obtain ⟨modTime, ht⟩ := Option.isSome_iff_exists.mp h
    refine ⟨modTime, ht, ?_⟩
    rcases taskDone_ne_no ret.answer (d.loadInfoFile p) with hd | hd <;>
      simp [getDiskState, hu, doDelete, hd]

/-- Below the lower threshold the files that are done and old go. -/
theorem removable_normal {d : LocalDir} {p : String} (hu : ¬ ret.maxDiskUsage < usage p)
    (hl : usage p < ret.minDiskUsage) :
    ret.Removable usage d p ↔ ret.Done d p ∧ ret.Old d p := by
  constructor
  · rintro ⟨modTime, ht, h⟩
    simp only [getDiskState, hu, hl, if_false, if_true, doDelete, Bool.and_eq_true,
      decide_eq_true_eq] at h
    exact ⟨(ret.taskDone_iff d p).mp h.2, modTime, ht, (modTime_iff _ _).mp h.1⟩
  · rintro ⟨hd, modTime, ht, ho⟩
    refine ⟨modTime, ht, ?_⟩
    simp [getDiskState, hu, hl, doDelete, (ret.taskDone_iff d p).mpr hd, (modTime_iff _ _).mpr ho]

/-- Between the thresholds nothing goes. -/
theorem not_removable_warning {d : LocalDir} {p : String} (hu : ¬ ret.maxDiskUsage < usage p)
    (hl : ¬ usage p < ret.minDiskUsage) : ¬ ret.Removable usage d p := by
  rintro ⟨modTime, -, h⟩
  simp [getDiskState, hu, hl, doDelete] at h

theorem canDelete_missing {d : LocalDir} {r : BackupFileName}
    (h : d.modTime (ret.fullPath r) = none) :
    ret.canDelete usage d r = ⟨ret.fullPath r, none, false, none⟩ := by
  simp only [canDelete, h]

theorem canDelete_present {d : LocalDir} {r : BackupFileName} {modTime : ℤ}
    (h : d.modTime (ret.fullPath r) = some modTime) :
    ret.canDelete usage d r =
      ⟨ret.fullPath r, d.loadInfoFile (ret.fullPath r),
        Pitr.doDelete
          (getDiskState (usage (ret.fullPath r)) ret.maxDiskUsage ret.minDiskUsage)
          (getTaskDoneReason ret.answer (d.loadInfoFile (ret.fullPath r))).1
          (getModTimeReason ret.now modTime),
        (getTaskDoneReason ret.answer (d.loadInfoFile (ret.fullPath r))).2⟩ := by
  simp only [canDelete, h]

theorem canDelete_fullPath (d : LocalDir) (r : BackupFileName) :
    (ret.canDelete usage d r).fullPath = ret.fullPath r := by
  cases h : d.modTime (ret.fullPath r) with
  | none => rw [ret.canDelete_missing usage h]
  | some modTime => rw [ret.canDelete_present usage h]

theorem canDelete_iff (d : LocalDir) (r : BackupFileName) :
    (ret.canDelete usage d r).doDelete = true ↔ ret.Removable usage d (ret.fullPath r) := by
  cases h : d.modTime (ret.fullPath r) with
  | none => simp [ret.canDelete_missing usage h, Removable, h]
  | some modTime => simp [ret.canDelete_present usage h, Removable, h]

/-- What a look writes is the file's own task, done. -/
theorem canDelete_saved {d : LocalDir} {r : BackupFileName} {t : TaskInfo}
    (h : (ret.canDelete usage d r).saved = some t) :
    t.filePath = ret.fullPath r ∧ t.status = TaskStatusDone ∧ ret.Done d (ret.fullPath r) := by
  cases hm : d.modTime (ret.fullPath r) with
  | none => simp [ret.canDelete_missing usage hm] at h
  | some modTime =>
    simp only [ret.canDelete_present usage hm] at h
    have hdone := ret.taskDone_iff d (ret.fullPath r)
    cases hi : d.loadInfoFile (ret.fullPath r) with
    | none => simp [hi, getTaskDoneReason] at h
    | some info =>
      have hpath : info.filePath = ret.fullPath r := by
        obtain ⟨recorded, -, rfl⟩ := Option.map_eq_some_iff.mp hi
        rfl
      rw [hi] at hdone
      simp only [hi] at h
      unfold getTaskDoneReason at h hdone
      by_cases hs : info.status = TaskStatusDone
      · simp [hs] at h
      · cases ha : getTaskInfo ret.answer info with
        | none => simp [hs, ha] at h
        | some answered =>
          by_cases hd : answered.status = TaskStatusDone
          · simp only [hs, ha, hd, if_false, if_true, true_iff, Option.some.injEq] at h hdone
            subst h
            obtain ⟨status, -, rfl⟩ := Option.map_eq_some_iff.mp ha
            exact ⟨hpath, hd, hdone⟩
          · simp [hs, ha, hd] at h

theorem canDelete_taskInfo {d : LocalDir} {r : BackupFileName} {t : TaskInfo}
    (h : (ret.canDelete usage d r).taskInfo = some t) : t.filePath = ret.fullPath r := by
  cases hm : d.modTime (ret.fullPath r) with
  | none => simp [ret.canDelete_missing usage hm] at h
  | some modTime =>
    simp only [ret.canDelete_present usage hm] at h
    obtain ⟨recorded, -, rfl⟩ := Option.map_eq_some_iff.mp h
    rfl

section Settling

variable {ret usage} {d : LocalDir} {r : BackupFileName} {p : String}

theorem modTime_settle :
    (settle d (ret.canDelete usage d r)).modTime p =
      if (ret.canDelete usage d r).doDelete ∧ p = ret.fullPath r then none else d.modTime p := by
  have hpath := ret.canDelete_fullPath usage d r
  have hsaved : ∀ o : Option TaskInfo, (o.elim d d.saveToFile).modTime = d.modTime := by
    intro o
    cases o <;> rfl
  have hinfo : ∀ (e : LocalDir) (o : Option TaskInfo), (e.doRemoveInfoFile o).modTime = e.modTime := by
    intro e o
    cases o <;> rfl
  unfold settle
  by_cases hd : (ret.canDelete usage d r).doDelete = true
  · simp [hd, hinfo, LocalDir.doRemoveFile, hsaved, hpath, Function.update_apply]
  · simp [hd, hsaved]

/-- A look at one file touches no other file's task. -/
theorem infoFile_settle_other (hp : p ≠ ret.fullPath r) :
    (settle d (ret.canDelete usage d r)).infoFile p = d.infoFile p := by
  have hsaved : ((ret.canDelete usage d r).saved.elim d d.saveToFile).infoFile p = d.infoFile p := by
    cases hs : (ret.canDelete usage d r).saved with
    | none => rfl
    | some t =>
      obtain ⟨hpath, -⟩ := ret.canDelete_saved usage hs
      exact Function.update_of_ne (fun h => hp (h.trans hpath)) _ _
  unfold settle
  by_cases hd : (ret.canDelete usage d r).doDelete = true
  · rw [if_pos hd]
    cases ht : (ret.canDelete usage d r).taskInfo with
    | none => exact hsaved
    | some t =>
      have hpath := ret.canDelete_taskInfo usage ht
      exact (Function.update_of_ne (fun h => hp (h.trans hpath)) _ _).trans hsaved
  · rw [if_neg hd]
    exact hsaved

/-- The verdict on an upload outlasts the look at its file, unless the file went. -/
theorem taskDone_settle (h : ¬ ((ret.canDelete usage d r).doDelete ∧ p = ret.fullPath r)) :
    (getTaskDoneReason ret.answer
        ((settle d (ret.canDelete usage d r)).loadInfoFile p)).1 =
      (getTaskDoneReason ret.answer (d.loadInfoFile p)).1 := by
  by_cases hp : p = ret.fullPath r
  · have hd : ¬ (ret.canDelete usage d r).doDelete = true := fun hd => h ⟨hd, hp⟩
    simp only [settle, if_neg hd]
    cases hs : (ret.canDelete usage d r).saved with
    | none => rfl
    | some t =>
      -- what was saved is the news that the upload is done
      obtain ⟨hpath, hstatus, hdone⟩ := ret.canDelete_saved usage hs
      rw [hp, (ret.taskDone_iff d _).mpr hdone, ret.taskDone_iff]
      refine ⟨⟨t.taskId, ret.fullPath r, t.status⟩, ?_, Or.inl hstatus⟩
      simp [LocalDir.loadInfoFile, LocalDir.saveToFile, hpath]
  · simp only [LocalDir.loadInfoFile, infoFile_settle_other hp]

theorem removable_settle :
    ret.Removable usage (settle d (ret.canDelete usage d r)) p ↔
      ret.Removable usage d p ∧ ¬ (ret.Removable usage d (ret.fullPath r) ∧ p = ret.fullPath r) := by
  by_cases h : (ret.canDelete usage d r).doDelete ∧ p = ret.fullPath r
  · simp [Removable, modTime_settle, h]
  · have hr : ¬ (ret.Removable usage d (ret.fullPath r) ∧ p = ret.fullPath r) := by
      rw [← canDelete_iff]
      exact h
    unfold Removable at hr ⊢
    rw [modTime_settle, if_neg h, taskDone_settle h]
    exact (and_iff_left hr).symm

end Settling

/-- A run removes the listed files that its verdicts let go at its start. -/
theorem mem_deleted {records : List BackupFileName} {d : LocalDir} {p : String} :
    p ∈ ret.deleted usage records d ↔
      ret.Removable usage d p ∧ ∃ r ∈ records, ret.fullPath r = p := by
  unfold deleted
  induction records generalizing d with
  | nil => simp [removeOldFileFirst]
  | cons r records ih =>
    have hrest := @ih (settle d (ret.canDelete usage d r))
    rw [removable_settle] at hrest
    have hpath := ret.canDelete_fullPath usage d r
    simp only [removeOldFileFirst]
    by_cases hd : (ret.canDelete usage d r).doDelete = true
    · have hr := (ret.canDelete_iff usage d r).mp hd
      rw [if_pos hd, List.mem_cons, hrest, hpath]
      by_cases hp : p = ret.fullPath r
      · simp [hp, hr]
      · simp [hp, Ne.symm hp]
    · have hr : ¬ ret.Removable usage d (ret.fullPath r) := fun h =>
        hd ((ret.canDelete_iff usage d r).mpr h)
      rw [if_neg hd, hrest]
      constructor
      · rintro ⟨⟨hp, -⟩, r', hm, he⟩
        exact ⟨hp, r', List.mem_cons_of_mem _ hm, he⟩
      · rintro ⟨hp, r', hm, rfl⟩
        rcases List.mem_cons.mp hm with rfl | hm
        · exact absurd hp hr
        · exact ⟨⟨hp, fun h => hr h.1⟩, r', hm, rfl⟩

/-- What is asked of a run, beside a run at a higher use of the disk. -/
structure Careful (records : List BackupFileName) (d : LocalDir) : Prop where
  safe : ∀ p ∈ ret.deleted usage records d, ¬ ret.Unfinished d p
  complete : ∀ r ∈ records, ret.Done d (ret.fullPath r) → ret.Old d (ret.fullPath r) →
    ret.fullPath r ∈ ret.deleted usage records d
  monotone : ret.deleted usage records d ⊆ ret.deleted usage' records d

def InWarning (diskUsage : ℤ) : Prop :=
  ret.minDiskUsage ≤ diskUsage ∧ diskUsage ≤ ret.maxDiskUsage

/-- No unfinished upload is met above the thresholds, and no file that is done and old between
them, at the one use of the disk or the other. -/
structure Spared (records : List BackupFileName) (d : LocalDir) : Prop where
  emergency : ∀ r ∈ records, ret.maxDiskUsage < usage (ret.fullPath r) →
    Present d (ret.fullPath r) → ¬ ret.Unfinished d (ret.fullPath r)
  warning : ∀ r ∈ records, ret.Done d (ret.fullPath r) → ret.Old d (ret.fullPath r) →
    ¬ ret.InWarning (usage (ret.fullPath r))
  raised : ∀ r ∈ records, ret.Done d (ret.fullPath r) → ret.Old d (ret.fullPath r) →
    ¬ ret.InWarning (usage' (ret.fullPath r))

/-- A run is careful exactly where the three states of the disk meet no file they treat wrongly. -/
theorem careful_iff (records : List BackupFileName) (d : LocalDir)
    (hu : ∀ p, usage p ≤ usage' p) :
    ret.Careful usage usage' records d ↔ ret.Spared usage usage' records d := by
  constructor
  · intro h
    refine ⟨?_, ?_, ?_⟩
    · intro r hr hmax hp
      exact h.safe _ ((ret.mem_deleted usage).mpr
        ⟨(ret.removable_emergency usage hmax).mpr hp, r, hr, rfl⟩)
    · intro r hr hd ho hw
      have hm := ((ret.mem_deleted usage).mp (h.complete r hr hd ho)).1
      exact ret.not_removable_warning usage (not_lt.mpr hw.2) (not_lt.mpr hw.1) hm
    · intro r hr hd ho hw
      have hm := ((ret.mem_deleted usage').mp (h.monotone (h.complete r hr hd ho))).1
      exact ret.not_removable_warning usage' (not_lt.mpr hw.2) (not_lt.mpr hw.1) hm
  · intro h
    refine ⟨?_, ?_, ?_⟩
    · intro p hp hunfinished
      obtain ⟨hm, r, hr, rfl⟩ := (ret.mem_deleted usage).mp hp
      by_cases hmax : ret.maxDiskUsage < usage (ret.fullPath r)
      · exact h.emergency r hr hmax ((ret.removable_emergency usage hmax).mp hm) hunfinished
      · by_cases hmin : usage (ret.fullPath r) < ret.minDiskUsage
        · exact hunfinished.2 ((ret.removable_normal usage hmax hmin).mp hm).1
        · exact ret.not_removable_warning usage hmax hmin hm
    · intro r hr hd ho
      refine (ret.mem_deleted usage).mpr ⟨?_, r, hr, rfl⟩
      by_cases hmax : ret.maxDiskUsage < usage (ret.fullPath r)
      · exact (ret.removable_emergency usage hmax).mpr (ret.old_present ho)
      · by_cases hmin : usage (ret.fullPath r) < ret.minDiskUsage
        · exact (ret.removable_normal usage hmax hmin).mpr ⟨hd, ho⟩
        · exact absurd ⟨not_lt.mp hmin, not_lt.mp hmax⟩ (h.warning r hr hd ho)
    · intro p hp
      obtain ⟨hm, r, hr, rfl⟩ := (ret.mem_deleted usage).mp hp
      have hle := hu (ret.fullPath r)
      refine (ret.mem_deleted usage').mpr ⟨?_, r, hr, rfl⟩
      by_cases hmax : ret.maxDiskUsage < usage (ret.fullPath r)
      · exact (ret.removable_emergency usage' (lt_of_lt_of_le hmax hle)).mpr
          ((ret.removable_emergency usage hmax).mp hm)
      · by_cases hmin : usage (ret.fullPath r) < ret.minDiskUsage
        · obtain ⟨hd, ho⟩ := (ret.removable_normal usage hmax hmin).mp hm
          by_cases hmax' : ret.maxDiskUsage < usage' (ret.fullPath r)
          · exact (ret.removable_emergency usage' hmax').mpr (ret.old_present ho)
          · by_cases hmin' : usage' (ret.fullPath r) < ret.minDiskUsage
            · exact (ret.removable_normal usage' hmax' hmin').mpr ⟨hd, ho⟩
            · exact absurd ⟨not_lt.mp hmin', not_lt.mp hmax'⟩ (h.raised r hr hd ho)
        · exact absurd hm (ret.not_removable_warning usage hmax hmin)

/-- A directory with one file, three days old, whose task has the given status. -/
def oneFile (status : String) : LocalDir :=
  { modTime := fun p => if p = "/data/a.tar" then some (-3 * 86400 * 1000000000) else none
    infoFile := fun p => if p = "/data/a.tar" then some ("1", status) else none }

def oneRecord : BackupFileName :=
  { version := .v0, fileName := "a.tar", type := .full, startTime := 0, firstTs := ⟨0, 0⟩
    lastTs := ⟨0, 0⟩, v0FullStr := "", v0IncrSeq := 0 }

/-- The thresholds of the source's comment, with a backup system that is down. -/
def retentionDown : Retention :=
  { metaDir := "/data", now := 0, answer := fun _ => none, maxDiskUsage := 50, minDiskUsage := 25 }

theorem fullPath_oneRecord : retentionDown.fullPath oneRecord = "/data/a.tar" := by
  decide +kernel

/-- A file whose upload is under way goes in an emergency; one that is done and old goes at twenty
per cent and stays at thirty. -/
theorem unfinished_deleted_done_kept :
    ¬ retentionDown.Careful (fun _ => 60) (fun _ => 60) [oneRecord] (oneFile "1") ∧
      ¬ retentionDown.Careful (fun _ => 20) (fun _ => 30) [oneRecord] (oneFile "4") := by
  constructor
  · intro h
    refine h.safe "/data/a.tar" ((mem_deleted _ _).mpr ⟨?_, oneRecord, by simp, fullPath_oneRecord⟩) ?_
    · exact (removable_emergency _ _ (by decide)).mpr (by simp [Present, oneFile])
    · simp [Unfinished, Done, LocalDir.loadInfoFile, oneFile, TaskStatusDone, getTaskInfo,
        retentionDown]
  · intro h
    have hgone := h.complete oneRecord (by simp)
    rw [fullPath_oneRecord] at hgone
    have hmem := h.monotone (hgone ?_ ?_)
    · exact not_removable_warning _ _ (by decide) (by decide) ((mem_deleted _ _).mp hmem).1
    · exact ⟨_, rfl, Or.inl rfl⟩
    · exact ⟨_, rfl, by decide⟩

theorem careful_iff_done :
    retentionDown.Careful (fun _ => 20) (fun _ => 60) [oneRecord] (oneFile "4") ↔
      retentionDown.Spared (fun _ => 20) (fun _ => 60) [oneRecord] (oneFile "4") :=
  careful_iff retentionDown (fun _ => 20) (fun _ => 60) [oneRecord] (oneFile "4") fun _ => by decide

end Retention
end Pitr
