import BluekingDbm.Rotate.Listing
import Mathlib.Data.List.Chain

/-! What is removed to free space: the hard limit takes files from the front, the soft limit takes
files that need not be kept. -/
namespace Rotate

/-- A record without its status. -/
def BinlogFileModel.stable (row : BinlogFileModel) : BinlogFileModel := { row with backupStatus := 0 }

/-- Freeing space takes files away and changes the status of records whose files are away. -/
structure Freed (s t : Host) : Prop where
  dir : t.dir.Sublist s.dir
  stable : t.db.map BinlogFileModel.stable = s.db.map BinlogFileModel.stable
  kept : ∀ f ∈ t.dir, ∀ row, row.filename = f.filename → (row ∈ t.db ↔ row ∈ s.db)
  listing : t.binlogFiles = s.binlogFiles

section

variable {env : Env} {s t u : Host} {filename : String} {status : ℤ} {db : List BinlogFileModel}
  {f : BinlogFile} {row : BinlogFileModel} {files dir : List BinlogFile}

theorem mem_removeFile : f ∈ removeFile filename dir ↔ f ∈ dir ∧ f.filename ≠ filename := by
  rw [removeFile, List.mem_filter, decide_eq_true_iff]

theorem filter_removeFile (names : List String) :
    (removeFile filename dir).filter (fun g => g.filename ∉ names) =
      dir.filter fun g => g.filename ∉ filename :: names := by
  rw [removeFile, List.filter_filter]
  apply List.filter_congr
  intro g _
  simp [Bool.and_comm]

theorem fileExists_iff : fileExists dir filename = true ↔ ∃ f ∈ dir, f.filename = filename := by
  simp [fileExists]

namespace Freed

theorem refl (s : Host) : Freed s s := ⟨.refl _, rfl, fun _ _ _ _ => Iff.rfl, rfl⟩

theorem trans (h : Freed s t) (h' : Freed t u) : Freed s u := by
  refine ⟨h'.dir.trans h.dir, h'.stable.trans h.stable, ?_, h'.listing.trans h.listing⟩
  intro f hf row hrow
  exact (h'.kept f hf row hrow).trans (h.kept f (h'.dir.subset hf) row hrow)

/-- A new status for a file that is not there. -/
theorem setStatus (hdir : dir.Sublist s.dir) (hgone : ∀ f ∈ dir, f.filename ≠ filename) :
    Freed s { s with dir, db := setStatus filename status s.db } := by
  refine ⟨hdir, ?_, ?_, rfl⟩
  · rw [Rotate.setStatus, List.map_map]
    apply List.map_congr_left
    intro row hrow
    simp only [Function.comp_apply]
    split <;> rfl
  · intro f hf row hrow
    have hother : row.filename ≠ filename := hrow ▸ hgone f hf
    simp only [Rotate.setStatus, List.mem_map]
    constructor
    · rintro ⟨other, hmem, heq⟩
      split at heq
      · rename_i hsame
        rw [← heq] at hother
        exact absurd hsame hother
      · exact heq ▸ hmem
    · exact fun hmem => ⟨row, hmem, if_neg hother⟩

theorem forceRemoved (hdir : dir.Sublist s.dir) (hgone : ∀ f ∈ dir, f.filename ≠ filename) :
    Freed s { s with dir, db := forceRemoved env filename s.db } := by
  have hsame : Freed s { s with dir } :=
    ⟨hdir, rfl, fun _ _ _ _ => Iff.rfl, rfl⟩
  unfold Rotate.forceRemoved
  split
  · split
    · exact setStatus hdir hgone
    · exact hsame
  · exact hsame

end Freed

/-- The hard limit removes files from the front of the listing, and none of the last nine. -/
theorem hardLoop_front {num i : ℕ} {sizeDeleted : ℤ} (hnum : num = i + files.length)
    (hexists : ∀ f ∈ files, f ∈ s.dir) (hnodup : (files.map BinlogFile.filename).Nodup) :
    ∃ k, (k = 0 ∨ i + k + 9 ≤ num) ∧ Freed s (hardLoop env num i files sizeDeleted s).2 ∧
      (hardLoop env num i files sizeDeleted s).2.dir =
        s.dir.filter fun g => g.filename ∉ (files.take k).map BinlogFile.filename := by
  induction files generalizing i sizeDeleted s with
  | nil => exact ⟨0, Or.inl rfl, .refl s, by simp [hardLoop]⟩
  | cons f files ih =>
    rw [List.length_cons] at hnum
    obtain ⟨hf, hfiles⟩ := List.forall_mem_cons.mp hexists
    rw [List.map_cons, List.nodup_cons] at hnodup
    obtain ⟨hnot, hnodup⟩ := hnodup
    have hthere : fileExists s.dir f.filename = true := fileExists_iff.mpr ⟨f, hf, rfl⟩
    have hone : Freed s { s with
        dir := removeFile f.filename s.dir, db := forceRemoved env f.filename s.db } :=
      Freed.forceRemoved List.filter_sublist fun g hg => (mem_removeFile.mp hg).2
    unfold hardLoop
    split
    · exact ⟨0, Or.inl rfl, .refl s, by simp⟩
    · rename_i hreserve
      dsimp only
      unfold reserveMinBinlogNum at hreserve
      split
      · exact ⟨1, Or.inr (by omega), hone, by simp [removeFile]⟩
      · have hrest : ∀ g ∈ files, g ∈ removeFile f.filename s.dir := by
          intro g hg
          refine mem_removeFile.mpr ⟨hfiles g hg, ?_⟩
          exact fun heq => hnot (heq ▸ List.mem_map_of_mem hg)
        obtain ⟨k, hk, hfreed, hdir⟩ := @ih { s with
            dir := removeFile f.filename s.dir, db := forceRemoved env f.filename s.db }
          (i + 1) (sizeDeleted + f.size) (by omega) hrest hnodup
        refine ⟨k + 1, Or.inr (by omega), hone.trans hfreed, ?_⟩
        rw [hdir]
        exact filter_removeFile _

/-- The soft limit removes files whose records say that they need not be kept. -/
theorem softLoop_freed {free sizeDeleted : ℤ} {num i : ℕ} {rows : List BinlogFileModel} :
    Freed s (softLoop free num i rows sizeDeleted s) ∧
      ∀ f ∈ s.dir, f ∉ (softLoop free num i rows sizeDeleted s).dir →
        ∃ row ∈ rows, row.filename = f.filename ∧ row.backupStatus ∈ statusSuccess := by
  induction rows generalizing i sizeDeleted s with
  | nil => exact ⟨.refl s, fun f hf hgone => absurd hf hgone⟩
  | cons row rows ih =>
    have hbehind : ∀ {t : Host} {sizeDeleted : ℤ}, Freed s t →
        (∀ f ∈ s.dir, f ∉ t.dir → row.filename = f.filename ∧ row.backupStatus ∈ statusSuccess) →
        Freed s (softLoop free num (i + 1) rows sizeDeleted t) ∧
          ∀ f ∈ s.dir, f ∉ (softLoop free num (i + 1) rows sizeDeleted t).dir →
            ∃ row' ∈ row :: rows, row'.filename = f.filename ∧
              row'.backupStatus ∈ statusSuccess := by
      intro t sizeDeleted hfreed hremoved
      obtain ⟨hfreed', hremoved'⟩ := @ih t sizeDeleted (i + 1)
      refine ⟨hfreed.trans hfreed', ?_⟩
      intro f hf hgone
      by_cases hthere : f ∈ t.dir
      · obtain ⟨row', hrow', hsame⟩ := hremoved' f hthere hgone
        exact ⟨row', List.mem_cons_of_mem _ hrow', hsame⟩
      · exact ⟨row, List.mem_cons_self, hremoved f hf hthere⟩
    have hstay : ∀ {t : Host}, Freed s t → t.dir = s.dir →
        Freed s t ∧ ∀ f ∈ s.dir, f ∉ t.dir →
          ∃ row' ∈ row :: rows, row'.filename = f.filename ∧ row'.backupStatus ∈ statusSuccess := by
      intro t hfreed hdir
      exact ⟨hfreed, fun f hf hgone => absurd (hdir ▸ hf) hgone⟩
    unfold softLoop
    split
    · exact hstay (.refl s) rfl
    · split
      · split
        · rename_i hsuccess
          have hfreed : Freed s { s with
              dir := removeFile row.filename s.dir
              db := setStatus row.filename fileStatusRemoved s.db } :=
            Freed.setStatus List.filter_sublist fun g hg => (mem_removeFile.mp hg).2
          have hremoved : ∀ f ∈ s.dir, f ∉ removeFile row.filename s.dir →
              row.filename = f.filename ∧ row.backupStatus ∈ statusSuccess := by
            intro f hf hgone
            refine ⟨?_, hsuccess⟩
            by_contra hne
            exact hgone (mem_removeFile.mpr ⟨hf, Ne.symm hne⟩)
          dsimp only
          split
          · exact ⟨hfreed, fun f hf hgone => ⟨row, List.mem_cons_self, hremoved f hf hgone⟩⟩
          · exact hbehind hfreed hremoved
        · split
          · exact hstay (.refl s) rfl
          · exact hbehind (.refl s) fun f hf hgone => absurd hf hgone
      · rename_i hnot
        have hfreed : Freed s { s with db := setStatus row.filename fileStatusRemoved s.db } := by
          refine Freed.setStatus (.refl _) ?_
          intro g hg heq
          exact hnot (fileExists_iff.mpr ⟨g, hg, heq⟩)
        dsimp only
        split
        · exact hstay hfreed rfl
        · exact hbehind hfreed fun f hf hgone => absurd hf hgone

theorem softLoop_pass {free sizeDeleted : ℤ} {num i : ℕ} {rows : List BinlogFileModel}
    (hreserve : ¬ num < i + reserveMinBinlogNum) (hthere : fileExists s.dir row.filename = true)
    (hwait : row.backupStatus ∉ statusSuccess) (hmore : ¬ free ≤ sizeDeleted) :
    softLoop free num i (row :: rows) sizeDeleted s = softLoop free num (i + 1) rows sizeDeleted s := by
  rw [softLoop, if_neg hreserve, if_pos hthere, if_neg hwait, if_neg hmore]

theorem softLoop_take {free sizeDeleted : ℤ} {num i : ℕ} {rows : List BinlogFileModel}
    (hreserve : ¬ num < i + reserveMinBinlogNum) (hthere : fileExists s.dir row.filename = true)
    (hsuccess : row.backupStatus ∈ statusSuccess) (hdone : free ≤ sizeDeleted + row.filesize) :
    (softLoop free num i (row :: rows) sizeDeleted s).dir = removeFile row.filename s.dir := by
  rw [softLoop, if_neg hreserve, if_pos hthere, if_pos hsuccess]
  dsimp only
  rw [if_pos hdone]

/-- Where every record is of a file that need not be kept, the soft limit takes them in turn. -/
theorem softLoop_front {free sizeDeleted : ℤ} {num i : ℕ} {rows : List BinlogFileModel}
    (h : ∀ row ∈ rows, row.backupStatus ∈ statusSuccess ∨ fileExists s.dir row.filename = false) :
    ∃ k, (softLoop free num i rows sizeDeleted s).dir =
      s.dir.filter fun g => g.filename ∉ (rows.take k).map BinlogFileModel.filename := by
  induction rows generalizing i sizeDeleted s with
  | nil => exact ⟨0, by simp [softLoop]⟩
  | cons row rows ih =>
    obtain ⟨hrow, hrows⟩ := List.forall_mem_cons.mp h
    have hzero : ∃ k, s.dir = s.dir.filter fun g =>
        g.filename ∉ ((row :: rows).take k).map BinlogFileModel.filename := ⟨0, by simp⟩
    have hnext : ∀ (t : Host) (sizeDeleted : ℤ), t.dir = removeFile row.filename s.dir →
        ∃ k, (softLoop free num (i + 1) rows sizeDeleted t).dir = s.dir.filter fun g =>
          g.filename ∉ ((row :: rows).take k).map BinlogFileModel.filename := by
      intro t sizeDeleted hdir
      have hsub : ∀ row' ∈ rows, row'.backupStatus ∈ statusSuccess ∨
          fileExists t.dir row'.filename = false := by
        intro row' hrow'
        refine (hrows row' hrow').imp id fun hnot => ?_
        rw [← Bool.not_eq_true, fileExists_iff] at hnot ⊢
        rintro ⟨g, hg, heq⟩
        rw [hdir] at hg
        exact hnot ⟨g, (mem_removeFile.mp hg).1, heq⟩
      obtain ⟨k, hk⟩ := @ih t sizeDeleted (i + 1) hsub
      refine ⟨k + 1, ?_⟩
      rw [hk, hdir]
      exact filter_removeFile _
    have hone : ∃ k, removeFile row.filename s.dir = s.dir.filter fun g =>
        g.filename ∉ ((row :: rows).take k).map BinlogFileModel.filename :=
      ⟨1, by simp [removeFile]⟩
    unfold softLoop
    split
    · exact hzero
    · split
      · rename_i hthere
        have hsuccess : row.backupStatus ∈ statusSuccess := by
          refine hrow.resolve_right ?_
          rw [hthere]
          decide
        rw [if_pos hsuccess]
        dsimp only
        split
        · exact hone
        · exact hnext _ _ rfl
      · rename_i hnot
        have hsame : removeFile row.filename s.dir = s.dir := by
          apply List.filter_eq_self.mpr
          intro g hg
          refine decide_eq_true fun heq => hnot (fileExists_iff.mpr ⟨g, hg, heq⟩)
        dsimp only
        split
        · exact hzero
        · exact hnext _ _ hsame.symm

/-- Consecutive numbers. -/
def Consecutive (files : List BinlogFile) : Prop :=
  files.IsChain fun a b => number b.filename = number a.filename + 1

/-- The files of a listing that are still there. -/
def left (files dir : List BinlogFile) : List BinlogFile := files.filter fun f => f ∈ dir

/-- The state in which the soft limit finds the files. -/
def afterHardLimit (env : Env) (s : Host) : Host :=
  if env.sizeToFree ≤ 0 then s else (removeToHardLimit env s).2

/-- Every local binlog that is closed has its record, none of them waits, and the binlogs began in
the order of their numbers. -/
structure NoneWaiting (dir : List BinlogFile) (db : List BinlogFileModel) : Prop where
  records : ∀ f ∈ dir.dropLast, ∃ row ∈ db, row.filename = f.filename
  success : ∀ f ∈ dir, ∀ row ∈ db, row.filename = f.filename → row.backupStatus ∈ statusSuccess
  startTimes : ∀ row ∈ db, ∀ row' ∈ db, number row.filename < number row'.filename →
    row.startTime < row'.startTime

variable {port : String} {last : BinlogFile}

theorem mem_left : f ∈ left files dir ↔ f ∈ files ∧ f ∈ dir := by
  rw [left, List.mem_filter, decide_eq_true_iff]

/-- What stays behind the hard limit. -/
theorem afterHardLimit_front (h : Files port s.binlogFiles) (hlisted : s.binlogFiles ⊆ s.dir) :
    ∃ k, (k = 0 ∨ k < s.binlogFiles.length) ∧ Freed s (afterHardLimit env s) ∧
      (afterHardLimit env s).dir =
        s.dir.filter fun g => g.filename ∉ (s.binlogFiles.take k).map BinlogFile.filename := by
  have hnone : ∃ k, (k = 0 ∨ k < s.binlogFiles.length) ∧ Freed s s ∧
      s.dir = s.dir.filter fun g =>
        g.filename ∉ (s.binlogFiles.take k).map BinlogFile.filename :=
    ⟨0, Or.inl rfl, .refl s, by simp⟩
  unfold afterHardLimit
  split
  · exact hnone
  · unfold removeToHardLimit
    split
    · exact hnone
    · obtain ⟨k, hk, hfreed, hdir⟩ := @hardLoop_front env s s.binlogFiles s.binlogFiles.length 0 0
        (Nat.zero_add _).symm hlisted h.names_nodup
      exact ⟨k, by omega, hfreed, hdir⟩

/-- What the soft limit does behind the hard limit. -/
theorem remove_soft : ∃ free : ℤ, remove env s = afterHardLimit env s ∨
    remove env s = softLoop free (queryToRemove env (afterHardLimit env s).db).length 0
      (queryToRemove env (afterHardLimit env s).db) 0 (afterHardLimit env s) := by
  unfold remove afterHardLimit
  split
  · exact ⟨0, Or.inl rfl⟩
  · refine ⟨env.sizeToFree - (removeToHardLimit env s).1, ?_⟩
    dsimp only
    unfold removeToSoftLimit
    split
    · exact Or.inl rfl
    · exact Or.inr rfl

theorem mem_queryToRemove : row ∈ queryToRemove env db ↔
    row ∈ db ∧ (row.backupStatus ∈ statusSuccess ∨ row.backupStatus < ibStatusSuccess) := by
  rw [queryToRemove, RangeOrder.mem_sortSlice, List.mem_filter, decide_eq_true_iff]

theorem purgeIndex_sublist (s : Host) : (purgeIndex env s).dir.Sublist s.dir := by
  unfold purgeIndex
  split
  · exact List.filter_sublist
  · exact .refl _

/-- Purging the index leaves the listed files that are still there. -/
theorem purgeIndex_listed (h : Files port s.binlogFiles) (hf : f ∈ s.binlogFiles) :
    f ∈ (purgeIndex env s).dir ↔ f ∈ s.dir := by
  unfold purgeIndex
  split
  · rename_i first hpurge hfirst
    rw [List.mem_filter, decide_eq_true_iff]
    refine ⟨fun hboth => hboth.1, fun hdir => ⟨hdir, ?_⟩⟩
    obtain ⟨-, before, behind, hsplit, hbefore⟩ := List.find?_eq_some_iff_append.mp hfirst
    rw [hsplit] at hf
    rcases List.mem_append.mp hf with hf | hf
    · have hnot := hbefore f hf
      have hthere : fileExists s.dir f.filename = true := fileExists_iff.mpr ⟨f, hdir, rfl⟩
      rw [hthere] at hnot
      cases hnot
    · rcases List.mem_cons.mp hf with rfl | hf
      · exact Nat.le_refl _
      · have hnumbers := h.numbers
        rw [hsplit] at hnumbers
        have hlt := (List.pairwise_cons.mp (List.pairwise_append.mp hnumbers).2.1).1 f hf
        omega
  · exact Iff.rfl

/-- What the soft limit takes behind the hard limit has a record that says so. -/
theorem remove_freed (h : Files port s.binlogFiles) (hlisted : s.binlogFiles ⊆ s.dir) :
    Freed s (remove env s) ∧
      ∀ f ∈ (afterHardLimit env s).dir, f ∉ (remove env s).dir →
        ∃ row ∈ s.db, row.filename = f.filename ∧ row.backupStatus ∈ statusSuccess := by
  obtain ⟨-, -, hfreed, -⟩ := @afterHardLimit_front env s port h hlisted
  obtain ⟨free, heq | heq⟩ := @remove_soft env s
  · rw [heq]
    exact ⟨hfreed, fun f hf hgone => absurd hf hgone⟩
  · obtain ⟨hsoft, hremoved⟩ := @softLoop_freed (afterHardLimit env s) free 0
      (queryToRemove env (afterHardLimit env s).db).length 0
      (queryToRemove env (afterHardLimit env s).db)
    rw [heq]
    refine ⟨hfreed.trans hsoft, ?_⟩
    intro f hf hgone
    obtain ⟨row, hrow, hname, hstatus⟩ := hremoved f hf hgone
    exact ⟨row, (hfreed.kept f hf row hname).mp (mem_queryToRemove.mp hrow).1, hname, hstatus⟩

theorem purgeIndex_freed (s : Host) : Freed s (purgeIndex env s) := by
  refine ⟨purgeIndex_sublist s, ?_, ?_, ?_⟩ <;> unfold purgeIndex <;> split <;> simp

theorem freeSpace_freed (h : Files port s.binlogFiles) (hlisted : s.binlogFiles ⊆ s.dir) :
    Freed s (freeSpace env s) :=
  (remove_freed h hlisted).1.trans (purgeIndex_freed _)

/-- The last file of the listing stays behind the hard limit. -/
theorem afterHardLimit_last (h : Files port s.binlogFiles) (hlisted : s.binlogFiles ⊆ s.dir)
    (hlast : last ∈ s.binlogFiles.getLast?) : last ∈ (afterHardLimit env s).dir := by
  obtain ⟨k, hk, -, hdir⟩ := @afterHardLimit_front env s port h hlisted
  have hmem := List.mem_of_getLast? hlast
  rw [hdir, List.mem_filter, decide_eq_true_iff]
  refine ⟨hlisted hmem, ?_⟩
  intro hname
  obtain ⟨g, hg, heq⟩ := List.mem_map.mp hname
  obtain rfl := h.filename_inj (List.take_subset _ _ hg) hmem heq
  rcases hk with rfl | hk
  · cases hg
  · exact h.last_notMem_take hlast hk hg

/-- The file in use has no record, and stays. -/
theorem freeSpace_last (h : Files port s.binlogFiles) (hlisted : s.binlogFiles ⊆ s.dir)
    (hlast : last ∈ s.binlogFiles.getLast?) (hcurrent : ∀ row ∈ s.db, row.filename ≠ last.filename) :
    last ∈ (freeSpace env s).dir := by
  obtain ⟨hfreed, hremoved⟩ := @remove_freed env s port h hlisted
  have hmem := List.mem_of_getLast? hlast
  have hstays : last ∈ (remove env s).dir := by
    by_contra hgone
    obtain ⟨row, hrow, hname, -⟩ := hremoved last (afterHardLimit_last h hlisted hlast) hgone
    exact hcurrent row hrow hname
  exact (purgeIndex_listed (hfreed.listing.symm ▸ h) (hfreed.listing.symm ▸ hmem)).mpr hstays

theorem pairwise_queryToRemove (env : Env) (db : List BinlogFileModel) :
    (queryToRemove env db).Pairwise fun a b => ¬ b.startTime < a.startTime := by
  have hsorted : (queryToRemove env db).Pairwise fun a b =>
      decide (b.startTime < a.startTime) = false := by
    apply RangeOrder.pairwise_sortSlice
    · intro a b c hab hbc
      rw [decide_eq_false_iff_not, not_lt] at hab hbc ⊢
      exact le_trans hab hbc
    · intro a b
      rw [decide_eq_false_iff_not, decide_eq_false_iff_not, not_lt, not_lt]
      exact le_total _ _
  refine hsorted.imp ?_
  intro a b hab
  exact of_decide_eq_false hab

/-- A part of consecutive files that goes on to their end. -/
theorem Consecutive.left (h : Consecutive files) (hfiles : Files port files)
    (hlast : last ∈ files.getLast?) (hthere : last ∈ dir)
    (hfront : files.Pairwise fun a b => a ∈ dir → b ∈ dir) :
    Consecutive (left files dir) ∧ (Rotate.left files dir).getLast? = some last := by
  constructor
  · refine List.IsChain.suffix h (Ends.filter_suffix ?_)
    refine hfront.imp ?_
    intro a b hab ha
    rw [decide_eq_true_iff] at ha ⊢
    exact hab ha
  · exact hfiles.getLast?_sublist hlast List.filter_sublist
      (mem_left.mpr ⟨List.mem_of_getLast? hlast, hthere⟩)

/-- What the soft limit leaves of the files behind the hard limit, where none waits. -/
theorem softLimit_front (h : Files port s.dir) (hdone : NoneWaiting s.dir s.db)
    (hfreed : Freed s t) (hdir : u = t ∨ ∃ free, u = softLoop free
      (queryToRemove env t.db).length 0 (queryToRemove env t.db) 0 t)
    (hfiles : Files port files) (hfront : files.Pairwise fun a b => a ∈ t.dir → b ∈ t.dir) :
    files.Pairwise fun a b => a ∈ u.dir → b ∈ u.dir := by
  rcases hdir with rfl | ⟨free, rfl⟩
  · exact hfront
  have hall : ∀ row ∈ queryToRemove env t.db, row.backupStatus ∈ statusSuccess ∨
      fileExists t.dir row.filename = false := by
    intro row hrow
    by_cases hthere : fileExists t.dir row.filename = true
    · obtain ⟨f, hf, hname⟩ := fileExists_iff.mp hthere
      have hmem := (hfreed.kept f hf row hname.symm).mp (mem_queryToRemove.mp hrow).1
      exact Or.inl (hdone.success f (hfreed.dir.subset hf) row hmem hname.symm)
    · exact Or.inr (by simpa using hthere)
  obtain ⟨k, hk⟩ := @softLoop_front t free 0 (queryToRemove env t.db).length 0 _ hall
  rw [hk]
  refine (hfiles.numbers.and hfront).imp ?_
  rintro a b ⟨hlt, hstay⟩ hkept
  rw [List.mem_filter, decide_eq_true_iff] at hkept ⊢
  have hadir := hkept.1
  have hbdir := hstay hadir
  refine ⟨hbdir, ?_⟩
  intro hgone
  apply hkept.2
  -- the record of the earlier file comes before the one of the later file
  obtain ⟨row, hrow, hname⟩ := List.mem_map.mp hgone
  have hrowDb := (hfreed.kept b hbdir row hname).mp
    (mem_queryToRemove.mp (List.take_subset _ _ hrow)).1
  have hclosed : a ∈ s.dir.dropLast := by
    obtain ⟨last, hlast⟩ : ∃ last, last ∈ s.dir.getLast? :=
      ⟨_, List.getLast?_eq_some_getLast (List.ne_nil_of_mem (hfreed.dir.subset hadir))⟩
    refine (h.mem_dropLast hlast).mpr ⟨hfreed.dir.subset hadir, ?_⟩
    rcases h.le_last hlast (hfreed.dir.subset hbdir) with rfl | ⟨hle, -⟩
    · exact hlt
    · omega
  obtain ⟨row', hrow', hname'⟩ := hdone.records a hclosed
  have hstart := hdone.startTimes row' hrow' row hrowDb (by rw [hname, hname']; exact hlt)
  have hquery : row' ∈ queryToRemove env t.db := mem_queryToRemove.mpr
    ⟨(hfreed.kept a hadir row' hname').mpr hrow',
      Or.inl (hdone.success a (hfreed.dir.subset hadir) row' hrow' hname')⟩
  have htake := Ends.mem_take_of_before (pairwise_queryToRemove env t.db) hrow hquery hstart
  exact hname' ▸ List.mem_map_of_mem htake

/-- For local binlogs with consecutive numbers of one length, written one after another, all
records of the closed ones and all sizes to free: what has been kept for too long and what the
hard limit takes leave consecutive binlogs that end with the one in use. The soft limit takes only
files whose records say that they were uploaded or need not be, never the one in use; where none
of the files waits, what it leaves is consecutive again. -/
theorem freeSpace_tail (h : Files port s.dir) (hlength : OneLength s.dir)
    (hconsecutive : Consecutive (getBinlogFilesLocal env s.dir)) (hflush : flushLogs env s = some t)
    (db : List BinlogFileModel)
    (hcurrent : ∀ last ∈ s.dir.getLast?, ∀ row ∈ db, row.filename ≠ last.filename) :
    let files := getBinlogFilesLocal env s.dir
    let hard := afterHardLimit env { t with db }
    let free := freeSpace env { t with db }
    (∀ dir ∈ [t.dir, hard.dir],
      Consecutive (left files dir) ∧ (left files dir).getLast? = s.dir.getLast?) ∧
    (left files free.dir).getLast? = s.dir.getLast? ∧
    (∀ f ∈ left files hard.dir, f ∉ free.dir →
      ∃ row ∈ db, row.filename = f.filename ∧ row.backupStatus ∈ statusSuccess) ∧
    (NoneWaiting t.dir db → Consecutive (left files free.dir)) := by
  intro files hard free
  have hflushed := flushLogs_flushed h hlength hflush
  have hne := (flushLogs_eq hflush).1
  have hfilesEq : files = s.dir.filter fun f => ¬ Old env.now f := getBinlogFilesLocal_eq h hlength
  have hfiles : Files port files := by
    rw [hfilesEq]
    exact h.sublist List.filter_sublist
  have htdir : Files port t.dir := h.sublist hflushed.dir
  have htfiles : Files port t.binlogFiles := htdir.sublist hflushed.listed
  obtain ⟨last, hlast⟩ : ∃ last, s.dir.getLast? = some last := by
    refine ⟨_, List.getLast?_eq_some_getLast ?_⟩
    intro hnil
    rw [show getBinlogFilesLocal env s.dir = files from rfl, hfilesEq, hnil] at hne
    exact hne rfl
  obtain ⟨hlastDir, hlastListed, hlastFiles⟩ := hflushed.last last hlast
  have hmem : ∀ f ∈ files, f ∈ t.dir → f ∈ t.binlogFiles := by
    intro f hf hdir
    rw [hfilesEq, List.mem_filter, decide_eq_true_iff] at hf
    exact (hflushed.mem f hdir).mpr hf.2
  obtain ⟨k, hk, hfreed, hhard⟩ := @afterHardLimit_front env { t with db } port htfiles
    hflushed.listed.subset
  have hmemHard : ∀ f ∈ files, f ∈ hard.dir ↔ f ∈ t.dir ∧ f ∉ t.binlogFiles.take k := by
    intro f hf
    rw [hhard, List.mem_filter, decide_eq_true_iff]
    refine and_congr_right fun hdir => not_congr ?_
    constructor
    · intro hname
      obtain ⟨g, hg, heq⟩ := List.mem_map.mp hname
      have hgdir := hflushed.listed.subset (List.take_subset _ _ hg)
      exact htdir.filename_inj hgdir hdir heq ▸ hg
    · exact fun htake => List.mem_map_of_mem htake
  have hlastHard : last ∈ hard.dir :=
    afterHardLimit_last htfiles hflushed.listed.subset hlastListed
  have hkeepFront : files.Pairwise fun a b => a ∈ t.dir → b ∈ t.dir := by
    refine hfiles.numbers.imp_of_mem ?_
    intro a b ha hb hlt hadir
    have hain := hmem a ha hadir
    obtain ⟨front, hsplit⟩ := hflushed.rest
    have hbin : b ∈ front ++ t.binlogFiles := hsplit ▸ hb
    rcases List.mem_append.mp hbin with hb | hb
    · have hnumbers := hfiles.numbers
      rw [show files = front ++ t.binlogFiles from hsplit.symm] at hnumbers
      have hgt := (List.pairwise_append.mp hnumbers).2.2 b hb a hain
      omega
    · exact hflushed.listed.subset hb
  have hhardFront : files.Pairwise fun a b => a ∈ hard.dir → b ∈ hard.dir := by
    refine (hfiles.numbers.and hkeepFront).imp_of_mem ?_
    rintro a b ha hb ⟨hlt, hkeep⟩ hahard
    obtain ⟨hadir, hanot⟩ := (hmemHard a ha).mp hahard
    refine (hmemHard b hb).mpr ⟨hkeep hadir, fun htake => hanot ?_⟩
    have hsorted : t.binlogFiles.Pairwise fun a b => ¬ number b.filename < number a.filename :=
      htfiles.numbers.imp fun hlt => Nat.lt_asymm hlt
    exact Ends.mem_take_of_before hsorted htake (hmem a ha hadir) hlt
  obtain ⟨hrestFreed, hrecord⟩ := @remove_freed env { t with db } port htfiles
    hflushed.listed.subset
  have hmemFree : ∀ f ∈ files, f ∈ free.dir ↔ f ∈ (remove env { t with db }).dir := by
    intro f hf
    by_cases hdir : f ∈ t.dir
    · have hin : f ∈ (remove env { t with db }).binlogFiles := by
        rw [hrestFreed.listing]
        exact hmem f hf hdir
      exact purgeIndex_listed (hrestFreed.listing.symm ▸ htfiles) hin
    · refine ⟨fun hfree => absurd ?_ hdir, fun hrest => absurd (hrestFreed.dir.subset hrest) hdir⟩
      exact hrestFreed.dir.subset ((purgeIndex_sublist (remove env { t with db })).subset hfree)
  have hlastIn := List.mem_of_getLast? hlastFiles
  have hlastFree : last ∈ free.dir :=
    freeSpace_last htfiles hflushed.listed.subset hlastListed (hcurrent last hlast)
  rw [hlast]
  refine ⟨?_, ?_, ?_, ?_⟩
  · intro dir hdir
    rcases List.mem_cons.mp hdir with rfl | hdir
    · exact hconsecutive.left hfiles hlastFiles hlastDir hkeepFront
    · rw [List.mem_singleton.mp hdir]
      exact hconsecutive.left hfiles hlastFiles hlastHard hhardFront
  · exact hfiles.getLast?_sublist hlastFiles List.filter_sublist
      (mem_left.mpr ⟨hlastIn, hlastFree⟩)
  · intro f hf hgone
    obtain ⟨hfin, hfhard⟩ := mem_left.mp hf
    exact hrecord f hfhard fun hrest => hgone ((hmemFree f hfin).mpr hrest)
  · intro hdone
    obtain ⟨size, hremove⟩ := @remove_soft env { t with db }
    have hfront : files.Pairwise fun a b => a ∈ (remove env { t with db }).dir →
        b ∈ (remove env { t with db }).dir :=
      @softLimit_front env { t with db } hard _ files port htdir hdone hfreed
        (hremove.imp id fun heq => ⟨size, heq⟩) hfiles hhardFront
    refine (hconsecutive.left hfiles hlastFiles hlastFree ?_).1
    refine hfront.imp_of_mem ?_
    intro a b ha hb hstay hafree
    exact (hmemFree b hb).mpr (hstay ((hmemFree a ha).mp hafree))

end

/-- Binlogs 1 to `count` of port 20000. -/
def sampleDir (count : ℕ) : List BinlogFile :=
  (List.range' 1 count).map fun n => ⟨binlogName "20000" n, 0, 100, true⟩

def sampleRow (n : ℕ) (status : ℤ) : BinlogFileModel :=
  ⟨binlogName "20000" n, 100, 0, "2024-01-01 00:00:" ++ (n + 10).repr, "", "master", true, status,
    "task"⟩

/-- The first file waits for its upload; the others were uploaded, but for the one in use. -/
def sampleRows : List BinlogFileModel :=
  sampleRow 1 1 :: (List.range' 2 10).map fun n => sampleRow n ibStatusSuccess

/-- A run that is to free the size of one file. -/
def sampleEnv : Env :=
  ⟨0, 0, "", "master", true, 7, 1, fun _ => none, fun _ => 0, 100, 0, false, .still, .still⟩

theorem files_sampleDir (count : ℕ) : Files "20000" (sampleDir count) := by
  constructor
  · intro f hf
    obtain ⟨n, -, rfl⟩ := List.mem_map.mp hf
    rw [number_binlogName]
  · apply List.pairwise_map.mpr
    refine (List.pairwise_lt_range' 1).imp ?_
    intro a b hab
    rwa [number_binlogName, number_binlogName]
  · apply List.pairwise_map.mpr
    exact List.pairwise_of_forall fun _ _ => Nat.le_refl _

theorem oneLength_sampleDir {count : ℕ} (h : count ≤ 12) : OneLength (sampleDir count) := by
  have hlength : ∀ n ∈ List.range' 1 12, n.repr.length ≤ 6 := by decide
  have hsub : List.range' 1 count ⊆ List.range' 1 12 := by
    intro n hn
    rw [List.mem_range'_1] at hn ⊢
    omega
  intro f hf g hg
  obtain ⟨m, hm, rfl⟩ := List.mem_map.mp hf
  obtain ⟨n, hn, rfl⟩ := List.mem_map.mp hg
  have hmlength := hlength m (hsub hm)
  have hnlength := hlength n (hsub hn)
  simp only [binlogName, String.length_append, String.length_ofList, List.length_append,
    List.length_replicate, String.length_toList]
  omega

theorem listing_sampleDir (env : Env) (hnow : env.now = 0) {count : ℕ} (hcount : count ≤ 12) :
    getBinlogFilesLocal env (sampleDir count) = sampleDir count := by
  rw [getBinlogFilesLocal_eq (files_sampleDir count) (oneLength_sampleDir hcount),
    List.filter_eq_self]
  intro f _
  refine decide_eq_true ?_
  rw [hnow]
  exact Nat.not_lt_zero _

theorem consecutive_sampleDir (count : ℕ) : Consecutive (sampleDir count) := by
  apply (List.isChain_map _).mpr
  refine (List.isChain_range' 1 count 1).imp ?_
  intro a b hab
  rw [number_binlogName, number_binlogName, hab]

theorem flushLogs_sampleDir : flushLogs sampleEnv ⟨sampleDir 12, sampleRows, []⟩ =
    some ⟨sampleDir 12, sampleRows, sampleDir 12⟩ := by
  unfold flushLogs
  rw [listing_sampleDir sampleEnv rfl (le_refl 12)]
  rfl

theorem name_sampleRows {row : BinlogFileModel} (h : row ∈ sampleRows) :
    ∃ n, n < 12 ∧ row.filename = binlogName "20000" n := by
  rcases List.mem_cons.mp h with rfl | h
  · exact ⟨1, by omega, rfl⟩
  · obtain ⟨n, hn, rfl⟩ := List.mem_map.mp h
    rw [List.mem_range'_1] at hn
    exact ⟨n, by omega, rfl⟩

theorem current_sampleDir : ∀ last ∈ (sampleDir 12).getLast?, ∀ row ∈ sampleRows,
    row.filename ≠ last.filename := by
  rintro last hlast row hrow heq
  have hlast : last.filename = binlogName "20000" 12 := by
    rw [← Option.mem_some.mp hlast]
    rfl
  obtain ⟨n, hn, hname⟩ := name_sampleRows hrow
  have hsame := binlogName_injective (hname.symm.trans (heq.trans hlast))
  omega

theorem queryToRemove_sampleRows : queryToRemove sampleEnv sampleRows = sampleRows := by
  have hall : sampleRows.filter (fun row => row.backupStatus ∈ statusSuccess ∨
      row.backupStatus < ibStatusSuccess) = sampleRows := by
    apply List.filter_eq_self.mpr
    intro row hrow
    rcases List.mem_cons.mp hrow with rfl | hrow
    · rfl
    · obtain ⟨n, -, rfl⟩ := List.mem_map.mp hrow
      rfl
  rw [queryToRemove, hall]
  apply List.mergeSort_of_pairwise
  decide +kernel

theorem freeSpace_tail_sample :
    (left (getBinlogFilesLocal sampleEnv (sampleDir 12))
      (freeSpace sampleEnv ⟨sampleDir 12, sampleRows, sampleDir 12⟩).dir).getLast? =
        (sampleDir 12).getLast? :=
  (freeSpace_tail (files_sampleDir 12) (oneLength_sampleDir (le_refl 12))
    ((listing_sampleDir sampleEnv rfl (le_refl 12)).symm ▸ consecutive_sampleDir 12) flushLogs_sampleDir sampleRows
    current_sampleDir).2.1

/-- The soft limit passes over the first file, which waits, and takes the second one. -/
theorem freeSpace_leaves_hole : ¬ ∀ (env : Env) (s t : Host), Files "20000" s.dir →
    OneLength s.dir → Consecutive (getBinlogFilesLocal env s.dir) → flushLogs env s = some t →
    s.db.map BinlogFileModel.filename = s.dir.dropLast.map BinlogFile.filename →
      Consecutive (left (getBinlogFilesLocal env s.dir) (freeSpace env t).dir) := by
  intro htail
  have hnames : sampleRows.map BinlogFileModel.filename =
      (sampleDir 12).dropLast.map BinlogFile.filename := rfl
  have hleft := htail sampleEnv _ _ (files_sampleDir 12) (oneLength_sampleDir (le_refl 12))
    ((listing_sampleDir sampleEnv rfl (le_refl 12)).symm ▸ consecutive_sampleDir 12) flushLogs_sampleDir hnames
  dsimp only at hleft
  rw [listing_sampleDir sampleEnv rfl (le_refl 12)] at hleft
  have hthere : ∀ n, 1 ≤ n → n ≤ 12 → fileExists (sampleDir 12) (binlogName "20000" n) = true := by
    intro n hn hle
    refine fileExists_iff.mpr ⟨_, List.mem_map_of_mem (List.mem_range'_1.mpr ⟨hn, ?_⟩), rfl⟩
    omega
  have hdir : (freeSpace sampleEnv ⟨sampleDir 12, sampleRows, sampleDir 12⟩).dir =
      removeFile (binlogName "20000" 2) (sampleDir 12) := by
    have hhard : removeToHardLimit sampleEnv ⟨sampleDir 12, sampleRows, sampleDir 12⟩ =
        (0, ⟨sampleDir 12, sampleRows, sampleDir 12⟩) := if_pos (by decide)
    have hrows : sampleRows = sampleRow 1 1 :: sampleRow 2 ibStatusSuccess ::
        (List.range' 3 9).map fun n => sampleRow n ibStatusSuccess := rfl
    have hsoft : remove sampleEnv ⟨sampleDir 12, sampleRows, sampleDir 12⟩ =
        softLoop 100 11 0 sampleRows 0 ⟨sampleDir 12, sampleRows, sampleDir 12⟩ := by
      rw [remove, if_neg (by decide), hhard]
      dsimp only
      rw [removeToSoftLimit, if_neg (by decide), queryToRemove_sampleRows]
      rfl
    have hpurge : ∀ s, purgeIndex sampleEnv s = s := fun s => rfl
    rw [freeSpace, hpurge, hsoft, hrows, softLoop_pass (by decide) (hthere 1 (by omega) (by omega))
      (by decide) (by decide)]
    exact softLoop_take (by decide) (hthere 2 (by omega) (by omega)) (by decide) (by decide)
  -- the file behind the first one is now the third
  have hrest : ∃ rest, left (sampleDir 12) (removeFile (binlogName "20000" 2) (sampleDir 12)) =
      ⟨binlogName "20000" 1, 0, 100, true⟩ :: ⟨binlogName "20000" 3, 0, 100, true⟩ :: rest := by
    have hother : ∀ n : ℕ, n ≠ 2 → binlogName "20000" n ≠ binlogName "20000" 2 :=
      fun n hn heq => hn (binlogName_injective heq)
    have hfiles : sampleDir 12 = ⟨binlogName "20000" 1, 0, 100, true⟩ ::
        ⟨binlogName "20000" 2, 0, 100, true⟩ :: ⟨binlogName "20000" 3, 0, 100, true⟩ ::
          (List.range' 4 9).map fun n => ⟨binlogName "20000" n, 0, 100, true⟩ := rfl
    have hfirst : (⟨binlogName "20000" 1, 0, 100, true⟩ : BinlogFile) ∈
        removeFile (binlogName "20000" 2) (sampleDir 12) :=
      mem_removeFile.mpr ⟨hfiles ▸ List.mem_cons_self, hother 1 (by omega)⟩
    have hsecond : (⟨binlogName "20000" 2, 0, 100, true⟩ : BinlogFile) ∉
        removeFile (binlogName "20000" 2) (sampleDir 12) := fun hin => (mem_removeFile.mp hin).2 rfl
    have hthird : (⟨binlogName "20000" 3, 0, 100, true⟩ : BinlogFile) ∈
        removeFile (binlogName "20000" 2) (sampleDir 12) := by
      refine mem_removeFile.mpr ⟨?_, hother 3 (by omega)⟩
      rw [hfiles]
      exact List.mem_cons_of_mem _ (List.mem_cons_of_mem _ List.mem_cons_self)
    refine ⟨((List.range' 4 9).map fun n => (⟨binlogName "20000" n, 0, 100, true⟩ : BinlogFile)).filter
      fun f => f ∈ removeFile (binlogName "20000" 2) (sampleDir 12), ?_⟩
    generalize removeFile (binlogName "20000" 2) (sampleDir 12) = dir at hfirst hsecond hthird ⊢
    rw [hfiles, left]
    simp [hfirst, hsecond, hthird]
  rw [hdir] at hleft
  obtain ⟨rest, hrest⟩ := hrest
  rw [hrest] at hleft
  have hnext := (List.isChain_cons_cons.mp hleft).1
  rw [number_binlogName, number_binlogName] at hnext
  omega

end Rotate
