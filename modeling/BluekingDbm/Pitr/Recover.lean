import BluekingDbm.Pitr.BackupFile
import BluekingDbm.Library.Ranging

/-! The files of a point-in-time restore: a full backup and the incrementals that follow it. -/
namespace Pitr

variable (r : RangeOrder BackupFileName)

/-- The incrementals tied to a full backup. -/
def incrsOf (fileObjList : List BackupFileName) (full : BackupFileName) : List BackupFileName :=
  fileObjList.filter fun file =>
    file.type = .incr ∧ file.version = .v0 ∧ file.v0FullStr = full.v0FullStr

def byLastTs (incrList : List BackupFileName) : List BackupFileName :=
  r.sortSlice (fun a b => a.lastTs.sec < b.lastTs.sec) incrList

/-- The numbers of a list of incrementals are 1, 2, ... in its order. -/
def Numbered (incrList : List BackupFileName) : Prop :=
  ∀ i, ∀ h : i < incrList.length, incrList[i].v0IncrSeq = UInt32.ofNat (i + 1)

instance (incrList : List BackupFileName) : Decidable (Numbered incrList) :=
  Nat.decidableBallLT _ _

def findIncrListV0 (full : BackupFileName) (recoverTime : ℕ) (fileObjList : List BackupFileName) :
    Except String (List BackupFileName) :=
  let incrList := byLastTs r (incrsOf fileObjList full)
  -- a restore to the second in which the full backup ends needs no incremental
  if full.lastTs.sec = recoverTime then .ok []
  else
    match incrList.getLast? with
    | none => .error "INCR_NOT_FOUND"
    | some lastIncr =>
      let checkTsOk := recoverTime ≤ lastIncr.lastTs.sec
      let checkSeqOk := lastIncr.v0IncrSeq = UInt32.ofNat incrList.length ∧ Numbered incrList
      if ¬ checkSeqOk then .error "bad oplog file list"
      else if ¬ checkTsOk then .error "recoverTime gt lastIncr.LastTs"
      else
        -- the first one before the last that reaches the time, or else the last
        let last := incrList.dropLast.findIdx fun prev => recoverTime ≤ prev.lastTs.sec
        .ok (incrList.take (last + 1))

def findIncrListV1 (full : BackupFileName) (recoverTime : ℕ) (fileObjList : List BackupFileName) :
    Except String (List BackupFileName) :=
  let incrList := byLastTs r (fileObjList.filter fun file =>
    file.type = .incr ∧ file.version = .v1 ∧ full.lastTs.sec ≤ file.lastTs.sec ∧
      file.firstTs.sec ≤ recoverTime)
  match incrList.head?, incrList.getLast? with
  | some firstIncr, some lastIncr =>
    let checkFirstTsOk := firstIncr.firstTs.sec ≤ full.lastTs.sec ∧
      full.lastTs.sec ≤ firstIncr.lastTs.sec
    let checkLastTsOk := lastIncr.firstTs.sec ≤ recoverTime ∧ recoverTime ≤ lastIncr.lastTs.sec
    let checkSeqOk := ∀ p ∈ incrList.zip incrList.tail, p.1.lastTs = p.2.firstTs
    if ¬ checkFirstTsOk then .error "BadFirstTs"
    else if ¬ checkLastTsOk then .error "BadLastTs"
    else if ¬ checkSeqOk then .error "BadOplogList"
    else .ok incrList
  | _, _ =>
    if full.lastTs.sec = recoverTime then .ok []
    else .error "INCR_NOT_FOUND"

def findIncrList (full : BackupFileName) (recoverTime : ℕ) (fileObjList : List BackupFileName) :
    Except String (List BackupFileName) :=
  match full.version with
  | .v0 => findIncrListV0 r full recoverTime fileObjList
  | .v1 => findIncrListV1 r full recoverTime fileObjList

/-- The full backups that end no later than the time, the latest ones first. -/
def fullsBefore (recoverTime : ℕ) (fileObjList : List BackupFileName) : List BackupFileName :=
  r.sortSlice (fun a b => b.lastTs.sec < a.lastTs.sec)
    (fileObjList.filter fun file => file.type = .full ∧ file.lastTs.sec ≤ recoverTime)

/-- The first full backup, from the latest on, that has the incrementals it needs. -/
def findNeedFiles (fileObjList : List BackupFileName) (recoverTime : ℕ) :
    Except String (BackupFileName × List BackupFileName) :=
  let fullList := fullsBefore r recoverTime fileObjList
  if fullList = [] then .error "no-full-file-found"
  else
    match fullList.findSome? fun file =>
      match findIncrList r file recoverTime fileObjList with
      | .ok incrList => some (file, incrList)
      | .error _ => none with
    | some found => .ok found
    | none => .error "no-incr-file-found"

/-- A full backup from which the time can be restored: it ends in that second, or all its
incrementals, in the order of their last seconds, are numbered from 1 on and the last reaches the
time. -/
structure Usable (files : List BackupFileName) (recoverTime : ℕ) (full : BackupFileName) : Prop where
  type : full.type = .full
  before : full.lastTs.sec ≤ recoverTime
  reaches : full.lastTs.sec = recoverTime ∨
    Numbered (byLastTs r (incrsOf files full)) ∧
      ∃ last ∈ (byLastTs r (incrsOf files full)).getLast?, recoverTime ≤ last.lastTs.sec

/-- The incrementals from the first one up to the first one that reaches the time, in the order
of their numbers. -/
structure UpTo (incrList : List BackupFileName) (recoverTime : ℕ) (needed : List BackupFileName) :
    Prop where
  front : needed <+: incrList
  numbered : Numbered needed
  reaches : ∃ last ∈ needed.getLast?, recoverTime ≤ last.lastTs.sec
  fewest : ∀ file ∈ needed.dropLast, file.lastTs.sec < recoverTime

section

variable {r} {files incrList needed l : List BackupFileName} {full lastIncr : BackupFileName}
  {recoverTime : ℕ}

theorem Numbered.front (h : Numbered incrList) (hneeded : needed <+: incrList) :
    Numbered needed := by
  intro i hi
  have hlen : i < incrList.length := Nat.lt_of_lt_of_le hi hneeded.length_le
  rw [hneeded.getElem hi]
  exact h i hlen

/-- Cutting a list behind the first hit before its last item, or behind the last item. -/
theorem take_findIdx (p : BackupFileName → Bool) (init : List BackupFileName) (h : p lastIncr = true) :
    ∃ before hit, (init ++ [lastIncr]).take (init.findIdx p + 1) = before ++ [hit] ∧ p hit = true ∧
      ∀ file ∈ before, p file = false := by
  induction init with
  | nil => exact ⟨[], lastIncr, rfl, h, by simp⟩
  | cons file init ih =>
    cases hfile : p file with
    | true => exact ⟨[], file, by simp [List.findIdx_cons, hfile], hfile, by simp⟩
    | false =>
      obtain ⟨before, hit, htake, hhit, hbefore⟩ := ih
      refine ⟨file :: before, hit, ?_, hhit, ?_⟩
      · simpa [List.findIdx_cons, hfile] using htake
      · intro other hother
        rcases List.mem_cons.mp hother with rfl | hother
        · exact hfile
        · exact hbefore other hother

theorem upTo_take (hnumbered : Numbered incrList) (hlast : lastIncr ∈ incrList.getLast?)
    (hreaches : recoverTime ≤ lastIncr.lastTs.sec) :
    UpTo incrList recoverTime (incrList.take
      ((incrList.dropLast.findIdx fun prev => recoverTime ≤ prev.lastTs.sec) + 1)) := by
  have hfront := List.take_prefix
    ((incrList.dropLast.findIdx fun prev => recoverTime ≤ prev.lastTs.sec) + 1) incrList
  obtain ⟨init, rfl⟩ := List.getLast?_eq_some_iff.mp hlast
  obtain ⟨before, hit, htake, hhit, hbefore⟩ :=
    take_findIdx (fun prev => decide (recoverTime ≤ prev.lastTs.sec)) init (by simpa using hreaches)
  rw [List.dropLast_concat] at hfront ⊢
  refine ⟨hfront, hnumbered.front hfront, ?_, ?_⟩
  · exact ⟨hit, by rw [htake]; simp, by simpa using hhit⟩
  · intro file hfile
    rw [htake, List.dropLast_concat] at hfile
    simpa using hbefore file hfile

theorem Numbered.last (h : Numbered incrList) (hlast : lastIncr ∈ incrList.getLast?) :
    lastIncr.v0IncrSeq = UInt32.ofNat incrList.length := by
  obtain ⟨init, rfl⟩ := List.getLast?_eq_some_iff.mp hlast
  have hinit := h init.length (by simp)
  simpa using hinit

/-- What the search among the incrementals of one full backup finds. -/
theorem findIncrListV0_cases (r : RangeOrder BackupFileName) (full : BackupFileName)
    (recoverTime : ℕ) (files : List BackupFileName) :
    full.lastTs.sec = recoverTime ∧ findIncrListV0 r full recoverTime files = .ok [] ∨
    full.lastTs.sec ≠ recoverTime ∧
      ((∃ last ∈ (byLastTs r (incrsOf files full)).getLast?,
        Numbered (byLastTs r (incrsOf files full)) ∧ recoverTime ≤ last.lastTs.sec ∧
        ∃ needed, findIncrListV0 r full recoverTime files = .ok needed ∧
          UpTo (byLastTs r (incrsOf files full)) recoverTime needed) ∨
      (∀ last ∈ (byLastTs r (incrsOf files full)).getLast?,
        Numbered (byLastTs r (incrsOf files full)) → last.lastTs.sec < recoverTime) ∧
        ∃ message, findIncrListV0 r full recoverTime files = .error message) := by
  by_cases hexact : full.lastTs.sec = recoverTime
  · exact Or.inl ⟨hexact, if_pos hexact⟩
  right
  refine ⟨hexact, ?_⟩
  simp only [findIncrListV0, hexact, if_false]
  cases hlast : (byLastTs r (incrsOf files full)).getLast? with
  | none => exact Or.inr ⟨by simp, _, rfl⟩
  | some last =>
    by_cases hseq : Numbered (byLastTs r (incrsOf files full))
    · have hcount := hseq.last hlast
      by_cases hts : recoverTime ≤ last.lastTs.sec
      · left
        refine ⟨last, rfl, hseq, hts, _, ?_, upTo_take hseq hlast hts⟩
        simp [hcount, hseq, hts]
      · right
        refine ⟨?_, "recoverTime gt lastIncr.LastTs", by simp [hcount, hseq, hts]⟩
        intro other hother _
        obtain rfl := Option.mem_some_iff.mp hother
        omega
    · right
      exact ⟨fun _ _ h => absurd h hseq, "bad oplog file list", by simp [hseq]⟩

theorem mem_fullsBefore : full ∈ fullsBefore r recoverTime files ↔
    full ∈ files ∧ full.type = .full ∧ full.lastTs.sec ≤ recoverTime := by
  rw [fullsBefore, RangeOrder.mem_sortSlice, List.mem_filter, decide_eq_true_iff]

/-- Among full backups of version 0 the search succeeds exactly at the usable ones. -/
theorem findIncrList_ok_iff (hfull : full ∈ fullsBefore r recoverTime files)
    (hversion : full.version = .v0) :
    (∃ needed, findIncrList r full recoverTime files = .ok needed) ↔
      Usable r files recoverTime full := by
  obtain ⟨-, htype, hbefore⟩ := mem_fullsBefore.mp hfull
  have hsame : findIncrList r full recoverTime files = findIncrListV0 r full recoverTime files := by
    simp [findIncrList, hversion]
  rw [hsame]
  rcases findIncrListV0_cases r full recoverTime files with
    ⟨hexact, hok⟩ | ⟨hexact, ⟨last, hlast, hseq, hts, needed, hok, -⟩ | ⟨hnot, message, herror⟩⟩
  · exact ⟨fun _ => ⟨htype, hbefore, Or.inl hexact⟩, fun _ => ⟨_, hok⟩⟩
  · exact ⟨fun _ => ⟨htype, hbefore, Or.inr ⟨hseq, last, hlast, hts⟩⟩, fun _ => ⟨_, hok⟩⟩
  · constructor
    · rintro ⟨needed, hok⟩
      rw [hok] at herror
      cases herror
    · intro husable
      rcases husable.reaches with hsec | ⟨hseq, last, hlast, hts⟩
      · exact absurd hsec hexact
      · have hlt := hnot last hlast hseq
        omega

/-- Incrementals with different last seconds can be sorted in one way only. -/
theorem byLastTs_eq (hperm : incrList.Perm l)
    (hsorted : incrList.Pairwise fun a b => a.lastTs.sec < b.lastTs.sec) :
    byLastTs r l = incrList := by
  have hby : (byLastTs r l).Pairwise fun a b => decide (b.lastTs.sec < a.lastTs.sec) = false := by
    apply r.pairwise_sortSlice
    · intro a b c hab hbc
      simp only [decide_eq_false_iff_not] at hab hbc ⊢
      omega
    · intro a b
      simp only [decide_eq_false_iff_not]
      omega
  have hsame : (byLastTs r l).Perm incrList := (r.perm_sortSlice _).trans hperm.symm
  have hstrict : (byLastTs r l).Pairwise fun a b => a.lastTs.sec ≠ b.lastTs.sec := by
    refine (hsame.pairwise_iff fun hab => Ne.symm hab).mpr (hsorted.imp ?_)
    intro a b hab
    omega
  have hlt : (byLastTs r l).Pairwise fun a b => a.lastTs.sec < b.lastTs.sec := by
    refine (hby.and hstrict).imp ?_
    rintro a b ⟨hle, hne⟩
    simp only [decide_eq_false_iff_not] at hle
    omega
  apply hsame.eq_of_pairwise ?_ hlt hsorted
  intro a b _ _ hab hba
  exact absurd hab (Nat.lt_asymm hba)

theorem pairwise_fullsBefore :
    (fullsBefore r recoverTime files).Pairwise fun a b => b.lastTs.sec ≤ a.lastTs.sec := by
  have hsorted : (fullsBefore r recoverTime files).Pairwise fun a b =>
      decide (a.lastTs.sec < b.lastTs.sec) = false := by
    apply r.pairwise_sortSlice
    · intro a b c hab hbc
      simp only [decide_eq_false_iff_not] at hab hbc ⊢
      omega
    · intro a b
      simp only [decide_eq_false_iff_not]
      omega
  refine hsorted.imp ?_
  intro a b hab
  simpa using hab

/-- The scan returns the first full backup whose search succeeds. -/
theorem findNeedFiles_cases (r : RangeOrder BackupFileName) (files : List BackupFileName)
    (recoverTime : ℕ) :
    (∃ before full after needed,
      fullsBefore r recoverTime files = before ++ full :: after ∧
      findNeedFiles r files recoverTime = .ok (full, needed) ∧
      findIncrList r full recoverTime files = .ok needed ∧
      ∀ other ∈ before, ∀ found, findIncrList r other recoverTime files ≠ .ok found) ∨
    (∃ message, findNeedFiles r files recoverTime = .error message) ∧
      ∀ full ∈ fullsBefore r recoverTime files, ∀ found,
        findIncrList r full recoverTime files ≠ .ok found := by
  have hnone : ∀ file, (match findIncrList r file recoverTime files with
      | .ok incrList => some (file, incrList)
      | .error _ => none) = none ↔ ∀ found, findIncrList r file recoverTime files ≠ .ok found := by
    intro file
    cases findIncrList r file recoverTime files <;> simp
  simp only [findNeedFiles]
  by_cases hempty : fullsBefore r recoverTime files = []
  · right
    simp [hempty]
  rw [if_neg hempty]
  split
  · rename_i found hfound
    left
    obtain ⟨before, full, after, hsplit, hfull, hbefore⟩ := List.findSome?_eq_some_iff.mp hfound
    cases hsearch : findIncrList r full recoverTime files with
    | error message => simp [hsearch] at hfull
    | ok needed =>
      simp only [hsearch, Option.some_inj] at hfull
      subst hfull
      refine ⟨before, full, after, needed, hsplit, rfl, hsearch, ?_⟩
      intro other hother
      exact (hnone other).mp (hbefore other hother)
  · rename_i hfound
    right
    refine ⟨⟨_, rfl⟩, ?_⟩
    intro full hfull
    exact (hnone full).mp (List.findSome?_eq_none_iff.mp hfound full hfull)

/-- For the files of one instance and every time: the selection succeeds exactly if some full
backup is usable, it takes the latest one of these, and with it the incrementals from the first
one up to the first one that reaches the time. Incrementals with different last seconds are
sorted in one way only, so that then being usable does not depend on the sort. -/
theorem findNeedFiles_selects (r : RangeOrder BackupFileName) (files : List BackupFileName)
    (recoverTime : ℕ) (hversion : ∀ file ∈ files, file.version = .v0) :
    ((∃ found, findNeedFiles r files recoverTime = .ok found) ↔
      ∃ full ∈ files, Usable r files recoverTime full) ∧
    (∀ full needed, findNeedFiles r files recoverTime = .ok (full, needed) →
      (full ∈ files ∧ Usable r files recoverTime full) ∧
      (∀ other ∈ files, Usable r files recoverTime other → other.lastTs.sec ≤ full.lastTs.sec) ∧
      (full.lastTs.sec = recoverTime → needed = []) ∧
      (full.lastTs.sec ≠ recoverTime →
        UpTo (byLastTs r (incrsOf files full)) recoverTime needed)) ∧
    ∀ full incrList, incrList.Perm (incrsOf files full) →
      (incrList.Pairwise fun a b => a.lastTs.sec < b.lastTs.sec) →
      byLastTs r (incrsOf files full) = incrList := by
  have hok : ∀ full ∈ fullsBefore r recoverTime files,
      (∃ needed, findIncrList r full recoverTime files = .ok needed) ↔
        Usable r files recoverTime full := by
    intro full hfull
    exact findIncrList_ok_iff hfull (hversion full (mem_fullsBefore.mp hfull).1)
  have hmem : ∀ full ∈ files, Usable r files recoverTime full →
      full ∈ fullsBefore r recoverTime files := by
    intro full hfull husable
    exact mem_fullsBefore.mpr ⟨hfull, husable.type, husable.before⟩
  refine ⟨?_, ?_, ?_⟩
  · rcases findNeedFiles_cases r files recoverTime with
      ⟨before, full, after, needed, hsplit, hfound, hsearch, -⟩ | ⟨⟨message, herror⟩, hnone⟩
    · have hfull : full ∈ fullsBefore r recoverTime files := by simp [hsplit]
      exact ⟨fun _ => ⟨full, (mem_fullsBefore.mp hfull).1, (hok full hfull).mp ⟨_, hsearch⟩⟩,
        fun _ => ⟨_, hfound⟩⟩
    · constructor
      · rintro ⟨found, hfound⟩
        rw [herror] at hfound
        cases hfound
      · rintro ⟨full, hfull, husable⟩
        have hbefore := hmem full hfull husable
        obtain ⟨needed, hsearch⟩ := (hok full hbefore).mpr husable
        exact absurd hsearch (hnone full hbefore needed)
  · intro full needed hfound
    rcases findNeedFiles_cases r files recoverTime with
      ⟨before, full', after, needed', hsplit, hfound', hsearch, hbefore⟩ | ⟨⟨message, herror⟩, -⟩
    · rw [hfound] at hfound'
      obtain ⟨rfl, rfl⟩ := Prod.mk.inj (Except.ok.inj hfound')
      have hfull : full ∈ fullsBefore r recoverTime files := by simp [hsplit]
      have husable := (hok full hfull).mp ⟨_, hsearch⟩
      have hv0 : findIncrListV0 r full recoverTime files = .ok needed := by
        simpa [findIncrList, hversion full (mem_fullsBefore.mp hfull).1] using hsearch
      refine ⟨⟨(mem_fullsBefore.mp hfull).1, husable⟩, ?_, ?_, ?_⟩
      · intro other hother hother'
        have hplace := hmem other hother hother'
        obtain ⟨found, hfound⟩ := (hok other hplace).mpr hother'
        have hsorted := @pairwise_fullsBefore r files recoverTime
        rw [hsplit] at hplace hsorted
        rcases List.mem_append.mp hplace with hfirst | hrest
        · exact absurd hfound (hbefore other hfirst found)
        · rcases List.mem_cons.mp hrest with rfl | hafter
          · exact Nat.le_refl _
          · exact (List.pairwise_cons.mp (List.pairwise_append.mp hsorted).2.1).1 other hafter
      · intro hexact
        rw [findIncrListV0, if_pos hexact] at hv0
        exact (Except.ok.inj hv0).symm
      · intro hexact
        rcases findIncrListV0_cases r full recoverTime files with
          ⟨hsec, -⟩ | ⟨-, ⟨_, _, _, _, needed', hok', hupTo⟩ | ⟨-, message, herror⟩⟩
        · exact absurd hsec hexact
        · rw [hv0] at hok'
          obtain rfl := Except.ok.inj hok'
          exact hupTo
        · rw [hv0] at herror
          cases herror
    · rw [hfound] at herror
      cases herror
  · intro full incrList hperm hsorted
    exact byLastTs_eq hperm hsorted

end

private def backup (type : BackupType) (seq : UInt32) (sec : ℕ) : BackupFileName :=
  ⟨.v0, "", type, 0, ⟨0, 0⟩, ⟨sec, 0⟩, "2018031304", seq⟩

/-- The incrementals 1 to 3 of a full backup lead to a time in the second of them. -/
theorem findNeedFiles_selects_second :
    ∃ found, findNeedFiles .still
      [backup .incr 3 400, backup .incr 1 200, backup .full 0 100, backup .incr 2 300] 250 =
        .ok found := by
  have horder : byLastTs .still (incrsOf
      [backup .incr 3 400, backup .incr 1 200, backup .full 0 100, backup .incr 2 300]
      (backup .full 0 100)) = [backup .incr 1 200, backup .incr 2 300, backup .incr 3 400] :=
    byLastTs_eq (by decide) (by decide)
  refine (findNeedFiles_selects .still _ 250 (by decide)).1.mpr
    ⟨backup .full 0 100, by decide, rfl, by decide, Or.inr ?_⟩
  rw [horder]
  exact ⟨by decide, backup .incr 3 400, by decide, by decide⟩

/-- A full backup from which a time can be restored when nothing but the incrementals that are
needed counts: the first `k` numbers are there without a hole and the last of them reaches the
time. -/
def Restorable (files : List BackupFileName) (recoverTime : ℕ) (full : BackupFileName) : Prop :=
  full.type = .full ∧ full.lastTs.sec ≤ recoverTime ∧
    (full.lastTs.sec = recoverTime ∨ ∃ chain : List BackupFileName, chain ⊆ incrsOf files full ∧
      Numbered chain ∧ ∃ last ∈ chain.getLast?, recoverTime ≤ last.lastTs.sec)

/-- The incremental after a hole is not needed, and still the restore fails. -/
theorem findNeedFiles_fails_past_hole :
    let files := [backup .full 0 100, backup .incr 1 200, backup .incr 3 400]
    ¬ ((∃ found, findNeedFiles .still files 150 = .ok found) ↔
      ∃ full ∈ files, Restorable files 150 full) := by
  intro files h
  have hchain : Restorable files 150 (backup .full 0 100) :=
    ⟨rfl, by decide, Or.inr ⟨[backup .incr 1 200], by decide, by decide, backup .incr 1 200,
      by decide⟩⟩
  obtain ⟨found, hfound⟩ := h.mpr ⟨_, List.mem_cons_self, hchain⟩
  rcases findNeedFiles_cases .still files 150 with
    ⟨before, full, after, needed, hsplit, -, hsearch, -⟩ | ⟨⟨message, herror⟩, -⟩
  · have hplace : full ∈ fullsBefore .still 150 files := by simp [hsplit]
    obtain ⟨hmem, htype, hsec⟩ := mem_fullsBefore.mp hplace
    obtain rfl : full = backup .full 0 100 := by
      rcases List.mem_cons.mp hmem with rfl | hmem
      · rfl
      · have hincr : ∀ file ∈ [backup .incr 1 200, backup .incr 3 400], file.type = .incr := by
          decide
        rw [hincr full hmem] at htype
        cases htype
    have horder : byLastTs .still (incrsOf files (backup .full 0 100)) =
        [backup .incr 1 200, backup .incr 3 400] := byLastTs_eq (by decide) (by decide)
    have husable := (findIncrList_ok_iff hplace rfl).mp ⟨needed, hsearch⟩
    rcases husable.reaches with hexact | ⟨hnumbered, -⟩
    · cases hexact
    · rw [horder] at hnumbered
      have hsecond := hnumbered 1 (by decide)
      exact absurd hsecond (by decide)
  · rw [hfound] at herror
    cases herror

end Pitr
