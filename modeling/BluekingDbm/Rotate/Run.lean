import BluekingDbm.Library.Ranging
import BluekingDbm.Rotate.Binlog

/-! One run over an instance: its listing, what is registered, and what is removed. -/
namespace Rotate

/-- What a run works on: the directory, the records, and the listing that it made. -/
structure Host where
  dir : List BinlogFile
  db : List BinlogFileModel
  binlogFiles : List BinlogFile

/-- What a run finds beside the files: the clock, its configuration, what is read from a binlog,
and what the backup system says of a task. -/
structure Env where
  now : ℕ
  hour : ℕ
  todayZero : String
  dbRole : String
  backupEnable : Bool
  maxOldDaysToUpload : ℕ
  maxKeepDuration : ℕ
  parse : String → Option (String × String)
  query : String → ℤ
  sizeToFree : ℤ
  hardSizeToFree : ℤ
  purge : Bool
  files : RangeOrder BinlogFile
  rows : RangeOrder BinlogFileModel

def day : ℕ := 24 * 3600 * 10 ^ 9

/-- `os.ReadDir`. -/
def readDir (dir : List BinlogFile) : List BinlogFile :=
  dir.mergeSort fun a b => ¬ b.filename < a.filename

/-- The local binlogs of the last sixty days; the sort compares the places of the dots. -/
def getBinlogFilesLocal (env : Env) (dir : List BinlogFile) : List BinlogFile :=
  env.files.pdqsort (fun a b => lastIndexDot a.filename < lastIndexDot b.filename)
    ((readDir dir).filter fun f => ¬ f.mtime + 60 * day < env.now)

/-- `os.Remove`. -/
def removeFile (filename : String) (dir : List BinlogFile) : List BinlogFile :=
  dir.filter fun f => f.filename ≠ filename

def fileExists (dir : List BinlogFile) (filename : String) : Bool :=
  dir.any fun f => f.filename = filename

/-- The files that have been kept for too long, but for the last ones of the listing. -/
def overdue (env : Env) (files : List BinlogFile) : List BinlogFile :=
  (files.zipIdx.filter fun p =>
    p.1.mtime < env.now - env.maxKeepDuration ∧ ¬ files.length < p.2 + reserveMinBinlogNum).map Prod.fst

def deleteExpired (mTime : ℕ) (db : List BinlogFileModel) : List BinlogFileModel :=
  db.filter fun row => ¬ row.fileMtime < rfc3339 mTime

/-- Removes what has been kept for too long, with its records, at six in the morning. -/
def removeMaxKeepDuration (env : Env) (s : Host) : Host :=
  if env.maxKeepDuration = 0 ∨ env.hour ≠ 6 then s
  else
    let gone := overdue env s.binlogFiles
    { dir := s.dir.filter fun f => f.filename ∉ gone.map BinlogFile.filename
      db := deleteExpired (env.now - env.maxKeepDuration) s.db
      binlogFiles := s.binlogFiles.filter fun f => f ∉ gone }

/-- The start of a run; it panics where no file is listed. -/
def flushLogs (env : Env) (s : Host) : Option Host :=
  let files := getBinlogFilesLocal env s.dir
  if files = [] then none else some (removeMaxKeepDuration env { s with binlogFiles := files })

def emptyModel : BinlogFileModel := ⟨"", 0, 0, "", "", "", false, 0, ""⟩

/-- The record with the greatest start time. -/
def queryLastFileReport (env : Env) (db : List BinlogFileModel) : BinlogFileModel :=
  (env.rows.sortSlice (fun a b => b.startTime < a.startTime) db).head?.getD emptyModel

/-- `filepath.Base` of a name without a slash. -/
def filepathBase (name : String) : String := if name = "" then "." else name

/-- A slave that has become a master uploads what it wrote today. -/
def handleSwitchRole (env : Env) (db : List BinlogFileModel) : List BinlogFileModel :=
  db.map fun row =>
    if row.dbRole = "slave" ∧ env.todayZero < row.startTime ∧ row.backupStatus ≠ ibStatusSuccess then
      { row with backupEnable := env.backupEnable, backupStatus := ibStatusNew, dbRole := "master" }
    else row

def newStatus (env : Env) (f : BinlogFile) : ℤ :=
  if env.backupEnable then
    if 0 < env.maxOldDaysToUpload ∧ f.mtime < env.now - day * env.maxOldDaysToUpload then
      fileStatusTooOldToRegister
    else ibStatusNew
  else fileStatusNoNeedUpload

def newModel (env : Env) (f : BinlogFile) : BinlogFileModel where
  filename := f.filename
  filesize := f.size
  fileMtime := rfc3339 f.mtime
  startTime := ((env.parse f.filename).map Prod.fst).getD ""
  stopTime := ((env.parse f.filename).map Prod.snd).getD ""
  dbRole := env.dbRole
  backupEnable := env.backupEnable
  backupStatus := newStatus env f
  backupTaskid := ""

/-- `REPLACE`, for each record. -/
def batchSave (models db : List BinlogFileModel) : List BinlogFileModel :=
  models.foldl (fun db row => db.filter (fun other => other.filename ≠ row.filename) ++ [row]) db

/-- The listed files behind the last one that was registered, without the one in use. -/
def filesToRegister (lastFileBefore : BinlogFileModel) (files : List BinlogFile) : List BinlogFile :=
  files.dropLast.filter fun f =>
    ¬ (lastFileBefore.filename ≠ "" ∧ ¬ filepathBase lastFileBefore.filename < f.filename)

def registerBinlog (env : Env) (lastFileBefore : BinlogFileModel) (s : Host) : Host :=
  let db :=
    if env.dbRole = "master" ∧ lastFileBefore.dbRole = "slave" then handleSwitchRole env s.db
    else s.db
  match s.binlogFiles.getLast? with
  | none => { s with db }
  | some lastFile =>
    -- the greatest file should not lie before the last one registered
    if lastFile.filename < filepathBase lastFileBefore.filename then { s with db := [] }
    else
      { s with db := batchSave ((filesToRegister lastFileBefore s.binlogFiles).map (newModel env)) db }

/-- An update of the record of one file. -/
def setStatus (filename : String) (status : ℤ) (db : List BinlogFileModel) : List BinlogFileModel :=
  db.map fun row => if row.filename = filename then { row with backupStatus := status } else row

/-- The record of a file removed by force: what was not uploaded is lost, unless the backup system
knows better. -/
def forceRemoved (env : Env) (filename : String) (db : List BinlogFileModel) :
    List BinlogFileModel :=
  match db.filter fun row => row.filename = filename with
  | [row] =>
    if row.backupTaskid ≠ "" ∧ row.backupStatus ≠ ibStatusSuccess ∨ row.backupStatus = ibStatusNew then
      let backupStatus := if row.backupTaskid ≠ "" then env.query row.backupTaskid else 0
      setStatus filename
        (if backupStatus = ibStatusSuccess then ibStatusSuccess else fileStatusForceRemoved) db
    else db
  | _ => db

/-- The loop of the hard limit, from the listing's front on; `i` counts its files. -/
def hardLoop (env : Env) (num : ℕ) : ℕ → List BinlogFile → ℤ → Host → ℤ × Host
  | _, [], sizeDeleted, s => (sizeDeleted, s)
  | i, f :: files, sizeDeleted, s =>
    if num < i + reserveMinBinlogNum then (sizeDeleted, s)
    else if fileExists s.dir f.filename then
      let s := { s with dir := removeFile f.filename s.dir, db := forceRemoved env f.filename s.db }
      let sizeDeleted := sizeDeleted + f.size
      if env.hardSizeToFree ≤ sizeDeleted then (sizeDeleted, s)
      else hardLoop env num (i + 1) files sizeDeleted s
    else if ¬ f.hasExecPerm then hardLoop env num (i + 1) files sizeDeleted s
    else
      -- the removal fails, and the loop passes over all files behind it
      (sizeDeleted, { s with db := forceRemoved env f.filename s.db })

def removeToHardLimit (env : Env) (s : Host) : ℤ × Host :=
  if env.hardSizeToFree ≤ 0 then (0, s)
  else hardLoop env s.binlogFiles.length 0 s.binlogFiles 0 s

/-- The records of files that may be removed or that wait, by their start times. -/
def queryToRemove (env : Env) (db : List BinlogFileModel) : List BinlogFileModel :=
  env.rows.sortSlice (fun a b => a.startTime < b.startTime)
    (db.filter fun row => row.backupStatus ∈ statusSuccess ∨ row.backupStatus < ibStatusSuccess)

/-- The loop of the soft limit over records; `i` counts them. -/
def softLoop (free : ℤ) (num : ℕ) : ℕ → List BinlogFileModel → ℤ → Host → Host
  | _, [], _, s => s
  | i, row :: rows, sizeDeleted, s =>
    if num < i + reserveMinBinlogNum then s
    else if fileExists s.dir row.filename then
      if row.backupStatus ∈ statusSuccess then
        let s :=
          { s with
            dir := removeFile row.filename s.dir
            db := setStatus row.filename fileStatusRemoved s.db }
        let sizeDeleted := sizeDeleted + row.filesize
        if free ≤ sizeDeleted then s else softLoop free num (i + 1) rows sizeDeleted s
      else if free ≤ sizeDeleted then s
      else softLoop free num (i + 1) rows sizeDeleted s
    else
      let s := { s with db := setStatus row.filename fileStatusRemoved s.db }
      if free ≤ sizeDeleted then s else softLoop free num (i + 1) rows sizeDeleted s

def removeToSoftLimit (env : Env) (free : ℤ) (s : Host) : Host :=
  if free ≤ 0 then s
  else
    let rows := queryToRemove env s.db
    softLoop free rows.length 0 rows 0 s

def remove (env : Env) (s : Host) : Host :=
  if env.sizeToFree ≤ 0 then s
  else
    let hard := removeToHardLimit env s
    removeToSoftLimit env (env.sizeToFree - hard.1) hard.2

/-- `PURGE BINARY LOGS TO` the first listed file that is still there. -/
def purgeIndex (env : Env) (s : Host) : Host :=
  match env.purge, s.binlogFiles.find? fun f => fileExists s.dir f.filename with
  | true, some first =>
    { s with dir := s.dir.filter fun f => number first.filename ≤ number f.filename }
  | _, _ => s

def freeSpace (env : Env) (s : Host) : Host := purgeIndex env (remove env s)

/-- One run over the instance. -/
def run (env : Env) (s : Host) : Option Host :=
  (flushLogs env s).map fun s =>
    freeSpace env (registerBinlog env (queryLastFileReport env s.db) s)

end Rotate
