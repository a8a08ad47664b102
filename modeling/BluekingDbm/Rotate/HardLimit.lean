import BluekingDbm.Rotate.Run
import Mathlib.Algebra.Ring.Int.Defs
import Mathlib.Data.List.Nodup

/-! The hard limit of one instance where removals, records and queries may fail. -/
namespace Rotate.HardLimit

/-- What the loop meets outside: which removals fail, which records cannot be read or written, the
backup client with what its query gives, and what the backup system really has. -/
structure Outside where
  removeFails : String → Bool
  recordFails : String → Bool
  updateFails : String → Bool
  backupClient : Bool
  query : String → ℤ
  uploaded : String → Bool

/-- `os.Remove` of a file that may be gone. -/
def removes (out : Outside) (dir : List BinlogFile) (filename : String) : Bool :=
  fileExists dir filename && !out.removeFails filename

/-- The one record of a file. -/
def queryByFileName (out : Outside) (filename : String) (db : List BinlogFileModel) :
    Option BinlogFileModel :=
  if filename = "" ∨ out.recordFails filename then none
  else
    match db.filter fun row => row.filename = filename with
    | [row] => some row
    | _ => none

/-- The status that the loop writes to a record, if it writes one. -/
def newStatus (out : Outside) (fileObj : BinlogFileModel) : Option ℤ :=
  if fileObj.backupTaskid ≠ "" ∧ fileObj.backupStatus ≠ ibStatusSuccess ∨
      fileObj.backupStatus = ibStatusNew then
    let backupStatus :=
      if fileObj.backupTaskid ≠ "" ∧ out.backupClient then out.query fileObj.backupTaskid else 0
    some (if backupStatus = ibStatusSuccess then ibStatusSuccess else fileStatusForceRemoved)
  else none

/-- What is written about a file that the loop has tried to remove. -/
def written (out : Outside) (filename : String) (db : List BinlogFileModel) : Option ℤ :=
  if out.updateFails filename then none else (queryByFileName out filename db).bind (newStatus out)

def maintain (out : Outside) (db : List BinlogFileModel) (filename : String) :
    List BinlogFileModel :=
  match written out filename db with
  | some status => setStatus filename status db
  | none => db

/-- The loop from the listing's front on; `i` counts its files, and `failed` is the error that an
earlier removal has left. -/
def loop (out : Outside) (sizeBytesToFreeHard : ℤ) (num : ℕ) :
    ℕ → List BinlogFile → Bool → ℤ → Host → ℤ × Host
  | _, [], _, sizeDeleted, s => (sizeDeleted, s)
  | i, f :: files, failed, sizeDeleted, s =>
    if num < i + reserveMinBinlogNum then (sizeDeleted, s)
    else if failed then loop out sizeBytesToFreeHard num (i + 1) files failed sizeDeleted s
    else if ¬ fileExists s.dir f.filename ∧ ¬ f.hasExecPerm then
      loop out sizeBytesToFreeHard num (i + 1) files failed sizeDeleted s
    else
      let removed := removes out s.dir f.filename
      let sizeDeleted := if removed then sizeDeleted + f.size else sizeDeleted
      let s :=
        { s with
          dir := if removed then removeFile f.filename s.dir else s.dir
          db := maintain out s.db f.filename }
      if sizeBytesToFreeHard ≤ sizeDeleted then (sizeDeleted, s)
      else loop out sizeBytesToFreeHard num (i + 1) files (!removed) sizeDeleted s

def removeToHardLimit (out : Outside) (sizeBytesToFreeHard : ℤ) (s : Host) : ℤ × Host :=
  if sizeBytesToFreeHard ≤ 0 then (0, s)
  else loop out sizeBytesToFreeHard s.binlogFiles.length 0 s.binlogFiles false 0 s

/-- The files of the listing that the loop's guard lets through. -/
def outsideReserve (files : List BinlogFile) : List BinlogFile :=
  files.take (files.length + 1 - reserveMinBinlogNum)

/-- What the hard limit may remove: a file that is there, has been handled, and can be removed. -/
def removable (out : Outside) (dir : List BinlogFile) (f : BinlogFile) : Bool :=
  removes out dir f.filename && f.hasExecPerm

def names (files : List BinlogFile) : List String := files.map BinlogFile.filename

def sizeOf (files : List BinlogFile) : ℤ := (files.map BinlogFile.size).sum

/-- The hard limit is met, and the records tell the truth about what is gone. -/
structure Met (out : Outside) (hard : ℤ) (s : Host) (result : ℤ × Host) : Prop where
  /-- The oldest removable files go, until the size is reached or none is left. -/
  cleaned : ∃ removed,
    removed <+: (outsideReserve s.binlogFiles).filter (removable out s.dir) ∧
    result.2.dir = s.dir.filter (fun f => f.filename ∉ names removed) ∧
    result.1 = sizeOf removed ∧
    (hard ≤ sizeOf removed ∨
      removed = (outsideReserve s.binlogFiles).filter (removable out s.dir)) ∧
    ∀ front, front <+: removed → front ≠ removed → sizeOf front < hard
  /-- What is newly marked is gone, and was not uploaded. -/
  marked : ∀ row ∈ result.2.db, row.backupStatus = fileStatusForceRemoved → row ∉ s.db →
    fileExists result.2.dir row.filename = false ∧
      ¬ (row.backupTaskid ≠ "" ∧ out.uploaded row.backupTaskid = true)

/-- The loop tries a file that is there, and one that seems to have been handled. -/
def tried (dir : List BinlogFile) (f : BinlogFile) : Bool :=
  fileExists dir f.filename || f.hasExecPerm

/-- What of some files a removal takes. -/
def removed (out : Outside) (dir files : List BinlogFile) : List BinlogFile :=
  files.filter fun f => removes out dir f.filename

/-- The loop, with `size` bytes removed before, gets through these files: what it tries of them
goes, and the size is not reached. -/
def Passed (out : Outside) (hard size : ℤ) (dir pre : List BinlogFile) : Prop :=
  (∀ g ∈ pre, tried dir g = true → removes out dir g.filename = true) ∧
    ∀ front, front <+: removed out dir pre → size + sizeOf front < hard

/-- If the record of `f` is marked, then `f` is gone after the attempt, and was not uploaded. -/
def Truthful (out : Outside) (s : Host) (f : BinlogFile) : Prop :=
  ∀ row ∈ s.db, row.filename = f.filename → row.backupStatus ≠ fileStatusForceRemoved →
    written out f.filename s.db = some fileStatusForceRemoved →
    (fileExists s.dir f.filename = true → removes out s.dir f.filename = true) ∧
      ¬ (row.backupTaskid ≠ "" ∧ out.uploaded row.backupTaskid = true)

/-- No file that the loop comes to leads it astray. -/
def Harmless (out : Outside) (hard : ℤ) (s : Host) : Prop :=
  ∀ pre f post, outsideReserve s.binlogFiles = pre ++ f :: post → tried s.dir f = true →
    Passed out hard 0 s.dir pre →
    (removes out s.dir f.filename = true → f.hasExecPerm = true) ∧
      (removes out s.dir f.filename = false → ∀ g ∈ post, removable out s.dir g = false) ∧
      Truthful out s f

section Records

variable {out : Outside} {db : List BinlogFileModel} {filename other : String} {status : ℤ}

/-- A record after the loop has tried its file. -/
def rewritten (out : Outside) (db : List BinlogFileModel) (row : BinlogFileModel) :
    BinlogFileModel :=
  { row with backupStatus := (written out row.filename db).getD row.backupStatus }

theorem rewritten_same {row : BinlogFileModel}
    (h : (rewritten out db row).backupStatus = row.backupStatus) : rewritten out db row = row := by
  cases row
  simp_all [rewritten]

theorem filter_setStatus (h : other ≠ filename) :
    ((setStatus filename status db).filter fun row => row.filename = other) =
      db.filter fun row => row.filename = other := by
  induction db with
  | nil => rfl
  | cons row db ih =>
    unfold setStatus at ih ⊢
    by_cases hname : row.filename = filename
    · have hother : filename ≠ other := fun heq => h heq.symm
      simp_all
    · simp_all [List.filter_cons]

theorem maintain_eq : maintain out db filename =
    db.map fun row => if row.filename = filename then rewritten out db row else row := by
  unfold maintain
  cases hwritten : written out filename db with
  | none =>
    symm
    apply List.map_id''
    intro row
    split
    · rename_i hname
      subst hname
      simp [rewritten, hwritten]
    · rfl
  | some status =>
    apply List.map_congr_left
    intro row _
    split
    · rename_i hname
      simp [rewritten, hname, hwritten]
    · rfl

/-- An attempt leaves alone what would be written about another file. -/
theorem written_maintain (h : other ≠ filename) :
    written out other (maintain out db filename) = written out other db := by
  have hfilter : ((maintain out db filename).filter fun row => row.filename = other) =
      db.filter fun row => row.filename = other := by
    unfold maintain
    split
    · exact filter_setStatus h
    · rfl
  simp only [written, queryByFileName, hfilter]

/-- The records after the attempts on some files. -/
theorem maintain_foldl {filenames : List String} (hnodup : filenames.Nodup) :
    filenames.foldl (maintain out) db =
      db.map fun row => if row.filename ∈ filenames then rewritten out db row else row := by
  induction filenames generalizing db with
  | nil => simp
  | cons filename filenames ih =>
    obtain ⟨hnot, hnodup⟩ := List.nodup_cons.mp hnodup
    have hkept : ∀ row, (row : BinlogFileModel).filename ∈ filenames →
        rewritten out (maintain out db filename) row = rewritten out db row := by
      intro row hrow
      have hne : row.filename ≠ filename := fun heq => hnot (heq ▸ hrow)
      simp only [rewritten, written_maintain hne]
    rw [List.foldl_cons, ih hnodup]
    conv_lhs => rw [maintain_eq, List.map_map]
    apply List.map_congr_left
    intro row _
    have hname : (rewritten out db row).filename = row.filename := rfl
    by_cases hrow : row.filename = filename
    · simp [hrow, hname, hnot]
    · by_cases hmem : row.filename ∈ filenames
      · simp [hrow, hmem, ← maintain_eq, hkept row hmem]
      · simp [hrow, hmem]

end Records

section Attempts

variable {out : Outside} {hard size : ℤ} {dir : List BinlogFile} {files pre post : List BinlogFile}
  {f : BinlogFile}

/-- The files that the loop tries. -/
def attempts (out : Outside) (hard : ℤ) (dir : List BinlogFile) :
    List BinlogFile → ℤ → List BinlogFile
  | [], _ => []
  | f :: files, size =>
    if tried dir f = false then attempts out hard dir files size
    else if removes out dir f.filename = false ∨ hard ≤ size + f.size then [f]
    else f :: attempts out hard dir files (size + f.size)

theorem tried_of_removes (h : removes out dir f.filename = true) : tried dir f = true := by
  simp_all [removes, tried]

theorem sizeOf_cons : sizeOf (f :: files) = f.size + sizeOf files := by
  simp [sizeOf]

theorem passed_nil : Passed out hard size dir [] ↔ size < hard := by
  simp [Passed, removed, sizeOf]

theorem Passed.size_lt (h : Passed out hard size dir pre) : size < hard := by
  simpa [sizeOf] using h.2 [] List.nil_prefix

theorem passed_cons : Passed out hard size dir (f :: pre) ↔
    (tried dir f = false ∧ Passed out hard size dir pre) ∨
      (removes out dir f.filename = true ∧ size < hard ∧
        Passed out hard (size + f.size) dir pre) := by
  cases hf : removes out dir f.filename with
  | false =>
    have hcons : removed out dir (f :: pre) = removed out dir pre := by simp [removed, hf]
    cases htried : tried dir f <;> simp [Passed, hcons, hf, htried]
  | true =>
    have hcons : removed out dir (f :: pre) = f :: removed out dir pre := by simp [removed, hf]
    have htried : tried dir f = true := tried_of_removes hf
    simp only [Passed, hcons, htried, List.forall_mem_cons, hf]
    constructor
    · rintro ⟨⟨-, hgoes⟩, hsize⟩
      refine Or.inr ⟨trivial, ?_, hgoes, ?_⟩
      · simpa [sizeOf] using hsize [] List.nil_prefix
      · intro front hfront
        have := hsize (f :: front) (List.cons_prefix_cons.mpr ⟨rfl, hfront⟩)
        rw [sizeOf_cons] at this
        omega
    · rintro (⟨habsurd, -⟩ | ⟨-, h0, hgoes, hsize⟩)
      · cases habsurd
      · refine ⟨⟨fun _ => trivial, hgoes⟩, ?_⟩
        intro front hfront
        cases front with
        | nil => simpa [sizeOf] using h0
        | cons g front =>
          obtain ⟨rfl, hrest⟩ := List.cons_prefix_cons.mp hfront
          have := hsize front hrest
          rw [sizeOf_cons]
          omega

/-- The files that are tried are those that the loop comes to, and has a reason to remove. -/
theorem mem_attempts (h : size < hard) : f ∈ attempts out hard dir files size ↔
    ∃ pre post, files = pre ++ f :: post ∧ tried dir f = true ∧
      Passed out hard size dir pre := by
  induction files generalizing size with
  | nil => simp [attempts]
  | cons g files ih =>
    have hcons : (∃ pre post, g :: files = pre ++ f :: post ∧ tried dir f = true ∧
        Passed out hard size dir pre) ↔ (g = f ∧ tried dir f = true) ∨
          ∃ pre post, files = pre ++ f :: post ∧ tried dir f = true ∧
            Passed out hard size dir (g :: pre) := by
      constructor
      · rintro ⟨pre, post, hfiles, htried, hpassed⟩
        cases pre with
        | nil => exact Or.inl ⟨(List.cons.inj hfiles).1, htried⟩
        | cons g' pre =>
          obtain ⟨rfl, hrest⟩ := List.cons.inj hfiles
          exact Or.inr ⟨pre, post, hrest, htried, hpassed⟩
      · rintro (⟨rfl, htried⟩ | ⟨pre, post, rfl, htried, hpassed⟩)
        · exact ⟨[], files, rfl, htried, passed_nil.mpr h⟩
        · exact ⟨g :: pre, post, rfl, htried, hpassed⟩
    rw [hcons]
    simp only [attempts, passed_cons]
    split
    · rename_i hg
      rw [ih h]
      constructor
      · rintro ⟨pre, post, hfiles, htried, hpassed⟩
        exact Or.inr ⟨pre, post, hfiles, htried, Or.inl ⟨hg, hpassed⟩⟩
      · rintro (⟨rfl, htried⟩ | ⟨pre, post, hfiles, htried, ⟨-, hpassed⟩ | ⟨hgoes, -⟩⟩)
        · simp_all
        · exact ⟨pre, post, hfiles, htried, hpassed⟩
        · simp [tried_of_removes hgoes] at hg
    · rename_i hg
      have htriedg : tried dir g = true := by simpa using hg
      split
      · rename_i hstop
        have hnone : ∀ pre, ¬ ((tried dir g = false ∧ Passed out hard size dir pre) ∨
            (removes out dir g.filename = true ∧ size < hard ∧
              Passed out hard (size + g.size) dir pre)) := by
          rintro pre (⟨hnot, -⟩ | ⟨hgoes, -, hpassed⟩)
          · exact hg hnot
          · have := hpassed.size_lt
            rcases hstop with hfails | hreached
            · simp [hgoes] at hfails
            · omega
        constructor
        · intro hf
          exact Or.inl ⟨(List.mem_singleton.mp hf).symm, List.mem_singleton.mp hf ▸ htriedg⟩
        · rintro (⟨rfl, -⟩ | ⟨pre, post, -, -, hpassed⟩)
          · simp
          · exact absurd hpassed (hnone pre)
      · rename_i hgo
        obtain ⟨hgoes, hsize⟩ := not_or.mp hgo
        rw [List.mem_cons, ih (by omega)]
        constructor
        · rintro (rfl | ⟨pre, post, hfiles, htried, hpassed⟩)
          · exact Or.inl ⟨rfl, htriedg⟩
          · exact Or.inr ⟨pre, post, hfiles, htried, Or.inr ⟨by simpa using hgoes, h, hpassed⟩⟩
        · rintro (⟨rfl, -⟩ | ⟨pre, post, hfiles, htried, ⟨hnot, -⟩ | ⟨-, -, hpassed⟩⟩)
          · exact Or.inl rfl
          · exact absurd hnot hg
          · exact Or.inr ⟨pre, post, hfiles, htried, hpassed⟩

theorem attempts_sublist : (attempts out hard dir files size).Sublist files := by
  induction files generalizing size with
  | nil => exact List.Sublist.slnil
  | cons g files ih =>
    unfold attempts
    split
    · exact List.Sublist.cons g ih
    · split
      · exact List.Sublist.cons_cons g (List.nil_sublist files)
      · exact List.Sublist.cons_cons g ih

/-- Where a removal fails, only what was passed before it is gone. -/
theorem removed_attempts_failed (hfails : removes out dir f.filename = false)
    (htried : tried dir f = true) (h : size < hard) (hpassed : Passed out hard size dir pre) :
    removed out dir (attempts out hard dir (pre ++ f :: post) size) = removed out dir pre := by
  induction pre generalizing size with
  | nil => simp [attempts, removed, hfails, htried]
  | cons g pre ih =>
    rcases passed_cons.mp hpassed with ⟨hnot, hpassed⟩ | ⟨hgoes, h, hpassed⟩
    · have hkept : removes out dir g.filename = false := by
        cases hg : removes out dir g.filename with
        | false => rfl
        | true => simp [tried_of_removes hg] at hnot
      have := ih h hpassed
      simp_all [attempts, removed]
    · have hsize := hpassed.size_lt
      have hgo : ¬ hard ≤ size + g.size := by omega
      have hrest := ih hsize hpassed
      simp only [removed] at hrest
      simp [attempts, removed, hgoes, tried_of_removes hgoes, hgo, hrest]

/-- The loop takes the front of what it can take; it stops at the size, at the end, or where a
removal fails. -/
theorem removed_attempts (h : size < hard) :
    removed out dir (attempts out hard dir files size) <+: removed out dir files ∧
    (∀ front, front <+: removed out dir (attempts out hard dir files size) →
      front ≠ removed out dir (attempts out hard dir files size) → size + sizeOf front < hard) ∧
    (hard ≤ size + sizeOf (removed out dir (attempts out hard dir files size)) ∨
      removed out dir (attempts out hard dir files size) = removed out dir files ∨
      ∃ pre f post, files = pre ++ f :: post ∧ tried dir f = true ∧
        removes out dir f.filename = false ∧ Passed out hard size dir pre ∧
        removed out dir (attempts out hard dir files size) = removed out dir pre) := by
  induction files generalizing size with
  | nil => simp [attempts, removed, sizeOf, h]
  | cons g files ih =>
    cases hgoes : removes out dir g.filename with
    | false =>
      cases htried : tried dir g with
      | false =>
        have heq : removed out dir (attempts out hard dir (g :: files) size) =
            removed out dir (attempts out hard dir files size) := by simp [attempts, htried]
        have hcons : ∀ files, removed out dir (g :: files) = removed out dir files := by
          intro files
          simp [removed, hgoes]
        rw [heq, hcons]
        obtain ⟨hfront, hmin, hend⟩ := ih h
        refine ⟨hfront, hmin, ?_⟩
        rcases hend with hreached | hall | ⟨pre, f, post, rfl, hf, hfails, hpassed, hremoved⟩
        · exact Or.inl hreached
        · exact Or.inr (Or.inl hall)
        · refine Or.inr (Or.inr ⟨g :: pre, f, post, rfl, hf, hfails, ?_, ?_⟩)
          · exact passed_cons.mpr (Or.inl ⟨htried, hpassed⟩)
          · rw [hremoved, hcons]
      | true =>
        have hnone : removed out dir (attempts out hard dir (g :: files) size) = [] := by
          simp [attempts, removed, hgoes, htried]
        rw [hnone]
        refine ⟨List.nil_prefix, fun front hfront hne => ?_, Or.inr (Or.inr ?_)⟩
        · exact absurd (List.prefix_nil.mp hfront) hne
        · exact ⟨[], g, files, rfl, htried, hgoes, passed_nil.mpr h, rfl⟩
    | true =>
      have htried : tried dir g = true := tried_of_removes hgoes
      have hcons : ∀ files, removed out dir (g :: files) = g :: removed out dir files := by
        intro files
        simp [removed, hgoes]
      by_cases hstop : hard ≤ size + g.size
      · have hone : removed out dir (attempts out hard dir (g :: files) size) = [g] := by
          simp [attempts, removed, hgoes, htried, hstop]
        rw [hone, hcons]
        refine ⟨List.cons_prefix_cons.mpr ⟨rfl, List.nil_prefix⟩, fun front hfront hne => ?_, ?_⟩
        · cases front with
          | nil => simpa [sizeOf] using h
          | cons g' front =>
            obtain ⟨rfl, hrest⟩ := List.cons_prefix_cons.mp hfront
            rw [List.prefix_nil.mp hrest] at hne
            exact absurd rfl hne
        · exact Or.inl (by simpa [sizeOf] using hstop)
      · have heq : removed out dir (attempts out hard dir (g :: files) size) =
            g :: removed out dir (attempts out hard dir files (size + g.size)) := by
          simp [attempts, htried, hgoes, hstop, hcons]
        obtain ⟨hfront, hmin, hend⟩ := @ih (size + g.size) (by omega)
        rw [heq, hcons]
        refine ⟨List.cons_prefix_cons.mpr ⟨rfl, hfront⟩, fun front hle hne => ?_, ?_⟩
        · cases front with
          | nil => simpa [sizeOf] using h
          | cons g' front =>
            obtain ⟨rfl, hrest⟩ := List.cons_prefix_cons.mp hle
            have := hmin front hrest fun heq => hne (heq ▸ rfl)
            rw [sizeOf_cons]
            omega
        · rcases hend with hreached | hall | ⟨pre, f, post, rfl, hf, hfails, hpassed, hremoved⟩
          · rw [sizeOf_cons]
            exact Or.inl (by omega)
          · exact Or.inr (Or.inl (hall ▸ rfl))
          · refine Or.inr (Or.inr ⟨g :: pre, f, post, rfl, hf, hfails, ?_, ?_⟩)
            · exact passed_cons.mpr (Or.inr ⟨hgoes, h, hpassed⟩)
            · rw [hremoved, hcons]

end Attempts

section Loop

variable {out : Outside} {hard size : ℤ} {dir files : List BinlogFile} {f g : BinlogFile} {s : Host}
  {filename : String}

theorem fileExists_removeFile (h : f.filename ≠ filename) :
    fileExists (removeFile filename dir) f.filename = fileExists dir f.filename := by
  apply Bool.eq_iff_iff.mpr
  simp only [fileExists, removeFile, List.any_filter, List.any_eq_true]
  constructor
  · rintro ⟨g, hg, hname⟩
    exact ⟨g, hg, by simp_all⟩
  · rintro ⟨g, hg, hname⟩
    have heq : g.filename = f.filename := by simpa using hname
    exact ⟨g, hg, by simp [heq, h]⟩

theorem removes_removeFile (h : f.filename ≠ filename) :
    removes out (removeFile filename dir) f.filename = removes out dir f.filename := by
  simp only [removes, fileExists_removeFile h]

theorem attempts_removeFile (h : ∀ f ∈ files, f.filename ≠ filename) :
    attempts out hard (removeFile filename dir) files size = attempts out hard dir files size := by
  induction files generalizing size with
  | nil => rfl
  | cons f files ih =>
    obtain ⟨hf, hfiles⟩ := List.forall_mem_cons.mp h
    have htried : tried (removeFile filename dir) f = tried dir f := by
      simp only [tried, fileExists_removeFile hf]
    unfold attempts
    rw [htried, removes_removeFile hf, ih hfiles, ih hfiles]

theorem removed_removeFile (h : ∀ f ∈ files, f.filename ≠ filename) :
    removed out (removeFile filename dir) files = removed out dir files := by
  apply List.filter_congr
  intro f hf
  exact removes_removeFile (h f hf)

/-- Behind a failed removal the loop does nothing any more. -/
theorem loop_failed {num i : ℕ} : loop out hard num i files true size s = (size, s) := by
  induction files generalizing i with
  | nil => rfl
  | cons f files ih =>
    unfold loop
    split
    · rfl
    · exact ih

/-- What the loop leaves: the directory without what it removed, and the records of what it
tried. -/
def left (out : Outside) (s : Host) (attempted : List BinlogFile) : Host :=
  { s with
    dir := s.dir.filter fun f => f.filename ∉ names (removed out s.dir attempted)
    db := (names attempted).foldl (maintain out) s.db }

theorem left_nil : left out s [] = s := by
  simp [left, names, removed]

/-- An attempt that fails leaves its mark in the records only. -/
theorem left_failed (h : removes out s.dir f.filename = false) :
    left out s [f] = { s with db := maintain out s.db f.filename } := by
  simp [left, names, removed, h]

/-- What the files behind a removed one leave. -/
theorem left_cons (h : removes out s.dir f.filename = true)
    (hother : ∀ g ∈ files, g.filename ≠ f.filename) :
    left out s (f :: files) =
      left out { s with dir := removeFile f.filename s.dir, db := maintain out s.db f.filename }
        files := by
  have hcons : removed out s.dir (f :: files) = f :: removed out s.dir files := by
    simp [removed, h]
  have hrest : removed out (removeFile f.filename s.dir) files = removed out s.dir files :=
    removed_removeFile hother
  simp only [left, hrest, hcons, names, List.map_cons, List.foldl_cons]
  congr 1
  rw [removeFile, List.filter_filter]
  apply List.filter_congr
  intro g _
  by_cases hg : g.filename = f.filename <;> simp [hg]

theorem loop_eq {num i : ℕ} (hnum : num = i + files.length) (hsize : size < hard)
    (hnodup : (names files).Nodup) :
    loop out hard num i files false size s =
      (size + sizeOf (removed out s.dir
          (attempts out hard s.dir (files.take (num + 1 - (i + reserveMinBinlogNum))) size)),
        left out s
          (attempts out hard s.dir (files.take (num + 1 - (i + reserveMinBinlogNum))) size)) := by
  induction files generalizing i size s with
  | nil => simp [loop, attempts, left_nil, removed, sizeOf]
  | cons f files ih =>
    obtain ⟨hnot, hnodup⟩ := List.nodup_cons.mp hnodup
    rw [List.length_cons] at hnum
    unfold loop
    by_cases hreserve : num < i + reserveMinBinlogNum
    · have hzero : num + 1 - (i + reserveMinBinlogNum) = 0 := by omega
      simp [hreserve, hzero, attempts, left_nil, removed, sizeOf]
    · obtain ⟨k, hk⟩ : ∃ k, num + 1 - (i + reserveMinBinlogNum) = k + 1 :=
        ⟨num - (i + reserveMinBinlogNum), by omega⟩
      have hk' : num + 1 - (i + 1 + reserveMinBinlogNum) = k := by omega
      have hother : ∀ g ∈ files.take k, g.filename ≠ f.filename := by
        intro g hg heq
        exact hnot (heq ▸ List.mem_map_of_mem (List.mem_of_mem_take hg))
      rw [if_neg hreserve, if_neg Bool.false_ne_true, hk, List.take_succ_cons]
      cases htried : tried s.dir f with
      | false =>
        have hskip : ¬ fileExists s.dir f.filename ∧ ¬ f.hasExecPerm := by
          simpa [tried] using htried
        rw [if_pos hskip, ih (by omega) hsize hnodup, hk']
        simp only [attempts, htried, if_true]
      | true =>
        have hskip : ¬ (¬ fileExists s.dir f.filename ∧ ¬ f.hasExecPerm) := by
          intro h
          simp_all [tried]
        rw [if_neg hskip]
        cases hgoes : removes out s.dir f.filename with
        | false =>
          have hgo : ¬ hard ≤ size := by omega
          simp [attempts, htried, hgoes, hgo, loop_failed, left_failed, removed, sizeOf]
        | true =>
          by_cases hstop : hard ≤ size + f.size
          · have hone := @left_cons out [] f s hgoes (by simp)
            rw [left_nil] at hone
            simp [attempts, htried, hgoes, hstop, hone, removed, sizeOf]
          · have hsub : (attempts out hard s.dir (files.take k) (size + f.size)).Sublist
                (files.take k) := attempts_sublist
            have hothers : ∀ g ∈ attempts out hard s.dir (files.take k) (size + f.size),
                g.filename ≠ f.filename := fun g hg => hother g (hsub.subset hg)
            simp only [if_true, hstop, if_false, Bool.not_true]
            rw [ih (by omega) (by omega) hnodup, hk', attempts_removeFile hother,
              removed_removeFile hothers]
            have hremoved : ∀ files, removed out s.dir (f :: files) =
                f :: removed out s.dir files := by
              intro files
              simp [removed, hgoes]
            have hattempts : attempts out hard s.dir (f :: files.take k) size =
                f :: attempts out hard s.dir (files.take k) (size + f.size) := by
              simp [attempts, htried, hgoes, hstop]
            rw [hattempts, left_cons hgoes hothers, hremoved, sizeOf_cons, Int.add_assoc]

end Loop

section Limit

variable {out : Outside} {hard : ℤ} {s : Host} {f g : BinlogFile} {files : List BinlogFile}

/-- The files that a call tries. -/
def attempted (out : Outside) (hard : ℤ) (s : Host) : List BinlogFile :=
  attempts out hard s.dir (outsideReserve s.binlogFiles) 0

theorem removeToHardLimit_eq (hpos : 0 < hard) (hnodup : (names s.binlogFiles).Nodup) :
    removeToHardLimit out hard s =
      (sizeOf (removed out s.dir (attempted out hard s)), left out s (attempted out hard s)) := by
  have hreserve : s.binlogFiles.length + 1 - (0 + reserveMinBinlogNum) =
      s.binlogFiles.length + 1 - reserveMinBinlogNum := by omega
  rw [removeToHardLimit, if_neg (by omega), loop_eq (by omega) hpos hnodup, hreserve, Int.zero_add]
  rfl

theorem names_sublist {part : List BinlogFile} (h : part.Sublist files) :
    (names part).Sublist (names files) :=
  h.map BinlogFile.filename

theorem mem_attempted (hpos : 0 < hard) : f ∈ attempted out hard s ↔
    ∃ pre post, outsideReserve s.binlogFiles = pre ++ f :: post ∧ tried s.dir f = true ∧
      Passed out hard 0 s.dir pre :=
  mem_attempts hpos

theorem attempted_sublist : (attempted out hard s).Sublist (outsideReserve s.binlogFiles) :=
  attempts_sublist

theorem removed_sublist : (removed out s.dir files).Sublist files :=
  List.filter_sublist

theorem filter_removable :
    files.filter (removable out s.dir) = (removed out s.dir files).filter BinlogFile.hasExecPerm := by
  rw [removed, List.filter_filter]
  apply List.filter_congr
  intro f _
  simp [removable, Bool.and_comm]

theorem fileExists_filter {dir : List BinlogFile} {gone : List String} {name : String} :
    fileExists (dir.filter fun f => f.filename ∉ gone) name = false ↔
      (fileExists dir name = true → name ∈ gone) := by
  simp only [fileExists, List.any_filter]
  constructor
  · intro h hthere
    obtain ⟨g, hg, hname⟩ := List.any_eq_true.mp hthere
    have := List.any_eq_false.mp h g hg
    simp_all
  · intro h
    apply List.any_eq_false.mpr
    intro g hg
    by_cases hname : g.filename = name
    · have := h (List.any_eq_true.mpr ⟨g, hg, by simpa using hname⟩)
      simp_all
    · simp_all

/-- A listed file among others of the listing is found by its name. -/
theorem mem_of_mem_names {part : List BinlogFile} (hnodup : (names files).Nodup) (hf : f ∈ files)
    (hpart : ∀ g ∈ part, g ∈ files) (h : f.filename ∈ names part) : f ∈ part := by
  obtain ⟨g, hg, hname⟩ := List.mem_map.mp h
  have heq : f = g := List.inj_on_of_nodup_map hnodup hf (hpart g hg) hname.symm
  exact heq ▸ hg

/-- A record that is not rewritten was there before. -/
theorem mem_left_db (hnodup : (names files).Nodup) {row : BinlogFileModel} :
    row ∈ (left out s files).db ↔ ∃ old ∈ s.db,
      row = if old.filename ∈ names files then rewritten out s.db old else old := by
  simp only [left, maintain_foldl hnodup, List.mem_map]
  constructor <;> rintro ⟨old, hold, h⟩ <;> exact ⟨old, hold, h.symm⟩

/-- What is written is written about the only record of its file. -/
theorem written_unique {row other : BinlogFileModel} {status : ℤ}
    (h : written out f.filename s.db = some status) (hrow : row ∈ s.db)
    (hname : row.filename = f.filename) (hother : other ∈ s.db)
    (hothername : other.filename = f.filename) : other = row := by
  have hmem : ∀ r ∈ s.db, r.filename = f.filename →
      r ∈ s.db.filter fun row => row.filename = f.filename := by
    intro r hr hrname
    exact List.mem_filter.mpr ⟨hr, by simpa using hrname⟩
  have hone := hmem row hrow hname
  have htwo := hmem other hother hothername
  simp only [written, queryByFileName] at h
  split at h
  · cases h
  · split at h
    · cases h
    · split at h
      · rename_i only heq
        rw [heq, List.mem_singleton] at hone htwo
        rw [hone, htwo]
      · cases h

theorem met_nonpos (hpos : hard ≤ 0) : Met out hard s (0, s) := by
  constructor
  · refine ⟨[], List.nil_prefix, ?_, rfl, Or.inl ?_, fun front hfront hne => ?_⟩
    · simp [names]
    · simpa [sizeOf] using hpos
    · exact absurd (List.prefix_nil.mp hfront) hne
  · exact fun row hrow _ hnot => absurd hrow hnot

theorem met_of_harmless (hpos : 0 < hard) (hnodup : (names (outsideReserve s.binlogFiles)).Nodup)
    (h : Harmless out hard s) :
    Met out hard s
      (sizeOf (removed out s.dir (attempted out hard s)), left out s (attempted out hard s)) := by
  have hexec : ∀ f ∈ removed out s.dir (attempted out hard s), f.hasExecPerm = true := by
    intro f hf
    obtain ⟨hmem, hgoes⟩ := List.mem_filter.mp hf
    obtain ⟨pre, post, hsplit, htried, hpassed⟩ := (mem_attempted hpos).mp hmem
    exact (h pre f post hsplit htried hpassed).1 hgoes
  have hself := List.filter_eq_self.mpr hexec
  obtain ⟨hfront, hmin, hend⟩ := @removed_attempts out hard 0 s.dir
    (outsideReserve s.binlogFiles) hpos
  constructor
  · refine ⟨removed out s.dir (attempted out hard s), ?_, rfl, rfl, ?_, ?_⟩
    · rw [filter_removable, ← hself]
      exact hfront.filter _
    · rcases hend with hreached | hall | ⟨pre, f, post, hsplit, htried, hfails, hpassed, hremoved⟩
      · rw [Int.zero_add] at hreached
        exact Or.inl hreached
      · refine Or.inr ?_
        rw [filter_removable, ← hall]
        exact hself.symm
      · -- behind the failed removal nothing is left to remove
        refine Or.inr ?_
        have hpost := (h pre f post hsplit htried hpassed).2.1 hfails
        have hself' : (removed out s.dir pre).filter BinlogFile.hasExecPerm =
            removed out s.dir pre := hremoved ▸ hself
        have hrest : post.filter (removable out s.dir) = [] := by
          apply List.filter_eq_nil_iff.mpr
          intro g hg
          simp [hpost g hg]
        have hf : removable out s.dir f = false := by simp [removable, hfails]
        have hall : (outsideReserve s.binlogFiles).filter (removable out s.dir) =
            pre.filter (removable out s.dir) := by
          simp [hsplit, List.filter_append, hf, hrest]
        rw [hall, filter_removable, hself']
        exact hremoved
    · intro front hle hne
      have := hmin front hle hne
      rwa [Int.zero_add] at this
  · intro row hrow hforced hnew
    obtain ⟨old, hold, hrewritten⟩ :=
      (mem_left_db ((names_sublist attempted_sublist).nodup hnodup)).mp hrow
    split at hrewritten
    · rename_i hname
      obtain ⟨f, hf, hfname⟩ := List.mem_map.mp hname
      obtain ⟨pre, post, hsplit, htried, hpassed⟩ := (mem_attempted hpos).mp hf
      have hlisted : row.filename = f.filename := by
        rw [hrewritten, hfname]
        rfl
      have hchanged : row.backupStatus ≠ old.backupStatus := by
        intro hsame
        rw [hrewritten] at hsame hnew
        rw [rewritten_same hsame] at hnew
        exact hnew hold
      have hold' : old.backupStatus ≠ fileStatusForceRemoved :=
        fun hsame => hchanged (hforced.trans hsame.symm)
      have hwritten : written out f.filename s.db = some fileStatusForceRemoved := by
        rw [hfname]
        cases hw : written out old.filename s.db with
        | none => simp [hrewritten, rewritten, hw] at hchanged
        | some status =>
          rw [← hforced, hrewritten]
          simp [rewritten, hw]
      obtain ⟨hgone, htruth⟩ :=
        (h pre f post hsplit htried hpassed).2.2 old hold hfname.symm hold' hwritten
      constructor
      · apply fileExists_filter.mpr
        intro hthere
        rw [hlisted] at hthere ⊢
        exact List.mem_map_of_mem (List.mem_filter.mpr ⟨hf, hgone hthere⟩)
      · rw [hrewritten]
        exact htruth
    · exact absurd (hrewritten ▸ hold) hnew

theorem harmless_of_met (hpos : 0 < hard) (hnodup : (names (outsideReserve s.binlogFiles)).Nodup)
    (h : Met out hard s
      (sizeOf (removed out s.dir (attempted out hard s)), left out s (attempted out hard s))) :
    Harmless out hard s := by
  intro pre f post hsplit htried hpassed
  obtain ⟨taken, htaken, hdir, hsize, hall, -⟩ := h.cleaned
  have hf : f ∈ attempted out hard s := (mem_attempted hpos).mpr ⟨pre, post, hsplit, htried, hpassed⟩
  have hlisted : f ∈ outsideReserve s.binlogFiles := attempted_sublist.subset hf
  have htakensub : taken.Sublist (outsideReserve s.binlogFiles) :=
    htaken.sublist.trans List.filter_sublist
  have htakenmem : ∀ g ∈ taken, g ∈ outsideReserve s.binlogFiles := fun g hg => htakensub.subset hg
  refine ⟨fun hgoes => ?_, fun hfails g hg => ?_, ?_⟩
  · -- the file is gone, so it is one of those that may go
    have hgone : fileExists (left out s (attempted out hard s)).dir f.filename = false :=
      fileExists_filter.mpr fun _ => List.mem_map_of_mem (List.mem_filter.mpr ⟨hf, hgoes⟩)
    have hthere : fileExists s.dir f.filename = true := by simp_all [removes]
    rw [hdir] at hgone
    have hmem := mem_of_mem_names hnodup hlisted htakenmem (fileExists_filter.mp hgone hthere)
    have := (List.mem_filter.mp (htaken.subset hmem)).2
    simp_all [removable]
  · -- the size is not reached, so nothing may be left, but only what lies before `f` is gone
    have hremoved : removed out s.dir (attempted out hard s) = removed out s.dir pre := by
      rw [attempted, hsplit]
      exact removed_attempts_failed hfails (by simp_all) hpos hpassed
    have hless := hpassed.2 _ List.prefix_rfl
    rw [← hremoved, Int.zero_add] at hless
    by_contra hg'
    rw [Bool.not_eq_false] at hg'
    have hgmem : g ∈ outsideReserve s.binlogFiles := by simp [hsplit, hg]
    have hgtaken : g ∈ taken := by
      dsimp only at hsize
      rcases hall with hreached | hall
      · omega
      · rw [hall]
        exact List.mem_filter.mpr ⟨hgmem, hg'⟩
    have hgone : fileExists (left out s (attempted out hard s)).dir g.filename = false := by
      rw [hdir]
      exact fileExists_filter.mpr fun _ => List.mem_map_of_mem hgtaken
    have hthere : fileExists s.dir g.filename = true := by simp_all [removable, removes]
    have hname := fileExists_filter.mp hgone hthere
    rw [hremoved] at hname
    have hpre : g ∈ pre := by
      refine removed_sublist.subset (mem_of_mem_names hnodup hgmem ?_ hname)
      intro g' hg'
      simp [hsplit, removed_sublist.subset hg']
    rw [hsplit] at hnodup
    have hdisjoint := (List.nodup_append.mp (List.Nodup.of_map _ hnodup)).2.2
    exact hdisjoint g hpre g (List.mem_cons_of_mem f hg) rfl
  · intro row hrow hname hold hwritten
    have hrewritten : rewritten out s.db row ∈ (left out s (attempted out hard s)).db := by
      refine (mem_left_db ((names_sublist attempted_sublist).nodup hnodup)).mpr ⟨row, hrow, ?_⟩
      rw [if_pos (hname ▸ List.mem_map_of_mem hf)]
    have hstatus : (rewritten out s.db row).backupStatus = fileStatusForceRemoved := by
      simp [rewritten, hname, hwritten]
    have hnew : rewritten out s.db row ∉ s.db := by
      intro hmem
      have hsame := written_unique hwritten hrow hname hmem hname
      exact hold (hsame ▸ hstatus)
    obtain ⟨hgone, hupload⟩ := h.marked _ hrewritten hstatus hnew
    refine ⟨fun hthere => ?_, hupload⟩
    have hnames : f.filename ∈ names (removed out s.dir (attempted out hard s)) :=
      fileExists_filter.mp (hname ▸ hgone) hthere
    have hmem := mem_of_mem_names hnodup hlisted
      (fun g hg => attempted_sublist.subset (removed_sublist.subset hg)) hnames
    exact (List.mem_filter.mp hmem).2

end Limit

section Sample

def sampleNames : List String :=
  ["f01", "f02", "f03", "f04", "f05", "f06", "f07", "f08", "f09", "f10", "f11", "f12"]

/-- Twelve binlogs; the first one waits for its upload. -/
def sampleHost : Host where
  dir := sampleNames.map fun name => ⟨name, 0, 100, true⟩
  db := [⟨"f01", 100, 0, "", "", "master", true, ibStatusNew, ""⟩]
  binlogFiles := sampleNames.map fun name => ⟨name, 0, 100, true⟩

/-- The first file cannot be removed. -/
def sampleOutside : Outside where
  removeFails name := name = "f01"
  recordFails _ := false
  updateFails _ := false
  backupClient := true
  query _ := 0
  uploaded _ := false

end Sample

section Run

variable {env : Env} {s : Host} {files : List BinlogFile} {filename : String}

/-- Where nothing fails and the backup system answers. -/
def noFailures (env : Env) : Outside where
  removeFails _ := false
  recordFails _ := false
  updateFails _ := false
  backupClient := true
  query := env.query
  uploaded taskid := env.query taskid = ibStatusSuccess

theorem maintain_noFailures {db : List BinlogFileModel} (h : filename ≠ "") :
    maintain (noFailures env) db filename = forceRemoved env filename db := by
  rcases hrows : db.filter fun row => row.filename = filename with _ | ⟨row, _ | ⟨other, rows⟩⟩
  · simp [maintain, written, queryByFileName, forceRemoved, hrows, noFailures]
  · by_cases hneeds : row.backupTaskid ≠ "" ∧ row.backupStatus ≠ ibStatusSuccess ∨
        row.backupStatus = ibStatusNew
    · simp [maintain, written, queryByFileName, forceRemoved, hrows, h, newStatus, hneeds,
        noFailures]
    · simp [maintain, written, queryByFileName, forceRemoved, hrows, h, newStatus, hneeds,
        noFailures]
  · simp [maintain, written, queryByFileName, forceRemoved, hrows, noFailures]

theorem loop_noFailures {num i : ℕ} {sizeDeleted : ℤ} (h : ∀ f ∈ files, f.filename ≠ "")
    (hsize : sizeDeleted < env.hardSizeToFree) :
    loop (noFailures env) env.hardSizeToFree num i files false sizeDeleted s =
      hardLoop env num i files sizeDeleted s := by
  induction files generalizing i sizeDeleted s with
  | nil => rfl
  | cons f files ih =>
    obtain ⟨hf, hfiles⟩ := List.forall_mem_cons.mp h
    unfold loop hardLoop
    by_cases hreserve : num < i + reserveMinBinlogNum
    · rw [if_pos hreserve, if_pos hreserve]
    · rw [if_neg hreserve, if_neg hreserve, if_neg Bool.false_ne_true, maintain_noFailures hf]
      have hremoves : removes (noFailures env) s.dir f.filename = fileExists s.dir f.filename := by
        simp [removes, noFailures]
      rw [hremoves]
      cases hthere : fileExists s.dir f.filename with
      | true =>
        by_cases hreached : env.hardSizeToFree ≤ sizeDeleted + f.size
        · simp [hreached]
        · simp only [hreached]
          simpa [hreached] using ih hfiles (by omega)
      | false =>
        cases hexec : f.hasExecPerm with
        | false => simpa using ih hfiles hsize
        | true =>
          have hgo : ¬ env.hardSizeToFree ≤ sizeDeleted := by omega
          simp [hgo, loop_failed]

/-- The loop of a whole run is this one without failures. -/
theorem removeToHardLimit_noFailures (h : ∀ f ∈ s.binlogFiles, f.filename ≠ "") :
    removeToHardLimit (noFailures env) env.hardSizeToFree s = Rotate.removeToHardLimit env s := by
  unfold removeToHardLimit Rotate.removeToHardLimit
  split
  · rfl
  · exact loop_noFailures h (by omega)

end Run

end Rotate.HardLimit
