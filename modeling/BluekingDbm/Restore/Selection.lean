import BluekingDbm.Library.Lists
import BluekingDbm.Restore.Binlogs

/-! Which binlogs the two implementations select. -/
namespace Restore

open Timestamp

/-- Files that a scan goes past. -/
def Scan.past (base : String) (s : Scan) (front : List Binlog) : Scan :=
  match front.getLast? with
  | none => s
  | some binlog => s.remember (binlog.filename base) binlog.fileSize

/-- The binlog is the start file, or behind it. -/
def FromStart (p : BinlogParam) (binlog : Binlog) : Prop :=
  p.binlogStartFile = "" ∨ numSuffix p.binlogStartFile ≤ binlog.number

instance (p : BinlogParam) (binlog : Binlog) : Decidable (FromStart p binlog) :=
  inferInstanceAs (Decidable (_ ∨ _))

section

variable {base : String} {binlogs front rest : List Binlog} {a b : Binlog} {read : String → Read}
  {verdict : ℕ → ℕ → Verdict} {s : Scan} {p : BinlogParam}

/-- All files are there and can be parsed. -/
def Readable (base : String) (read : String → Read) (binlogs : List Binlog) : Prop :=
  ∀ binlog ∈ binlogs,
    read (binlog.filename base) = .events binlog.startTime binlog.stopTime binlog.fileSize

theorem Readable.of_append (h : Readable base read (front ++ rest)) :
    Readable base read front ∧ Readable base read rest :=
  ⟨fun binlog hin => h binlog (List.mem_append_left _ hin),
    fun binlog hin => h binlog (List.mem_append_right _ hin)⟩

theorem scan_skip (hread : Readable base read (front ++ rest))
    (h : ∀ binlog ∈ front, verdict binlog.startTime binlog.stopTime = .skip) :
    scan read verdict ((front ++ rest).map (Binlog.filename base)) s =
      scan read verdict (rest.map (Binlog.filename base)) s := by
  induction front with
  | nil => rfl
  | cons a front ih =>
    have ha := hread a List.mem_cons_self
    rw [List.cons_append, List.map_cons, scan, ha]
    dsimp only
    rw [h a List.mem_cons_self]
    exact ih (fun binlog hin => hread binlog (List.mem_cons_of_mem _ hin))
      (fun binlog hin => h binlog (List.mem_cons_of_mem _ hin))

theorem scan_pass (hread : Readable base read (front ++ rest))
    (h : ∀ binlog ∈ front, verdict binlog.startTime binlog.stopTime = .pass) :
    scan read verdict ((front ++ rest).map (Binlog.filename base)) s =
      scan read verdict (rest.map (Binlog.filename base)) (s.past base front) := by
  induction front generalizing s with
  | nil => rfl
  | cons a front ih =>
    have ha := hread a List.mem_cons_self
    rw [List.cons_append, List.map_cons, scan, ha]
    dsimp only
    rw [h a List.mem_cons_self]
    dsimp only
    rw [ih (fun binlog hin => hread binlog (List.mem_cons_of_mem _ hin))
      (fun binlog hin => h binlog (List.mem_cons_of_mem _ hin))]
    congr 1
    unfold Scan.past
    rw [List.getLast?_cons]
    cases front.getLast? <;> rfl

/-- Files that are taken, the first one having been found before or not being looked for. -/
theorem scan_take (hread : Readable base read (front ++ rest))
    (h : ∀ binlog ∈ front, verdict binlog.startTime binlog.stopTime = .keep ∨
      verdict binlog.startTime binlog.stopTime = .find ∧ s.firstBinlogFound = true) :
    ∃ t, scan read verdict ((front ++ rest).map (Binlog.filename base)) s =
        scan read verdict (rest.map (Binlog.filename base)) t ∧
      t.binlogFiles = s.binlogFiles ++ front.map (Binlog.filename base) ∧
      t.firstBinlogFile = s.firstBinlogFile := by
  induction front generalizing s with
  | nil => exact ⟨s, rfl, (List.append_nil _).symm, rfl⟩
  | cons a front ih =>
    have ha := hread a List.mem_cons_self
    obtain ⟨t, ht, hfiles, hfirst⟩ := @ih
      ((s.take (a.filename base) a.fileSize).remember (a.filename base) a.fileSize)
      (fun binlog hin => hread binlog (List.mem_cons_of_mem _ hin))
      (fun binlog hin => h binlog (List.mem_cons_of_mem _ hin))
    refine ⟨t, ?_, ?_, hfirst⟩
    · rw [List.cons_append, List.map_cons, scan, ha]
      dsimp only
      rcases h a List.mem_cons_self with hkeep | ⟨hfind, hfound⟩
      · rw [hkeep]
        exact ht
      · rw [hfind, Scan.first, if_pos hfound]
        exact ht
    · rw [hfiles, List.map_cons]
      exact List.append_assoc ..

/-- Files that are taken, the first one being found. -/
theorem scan_find (hread : Readable base read (a :: front ++ rest))
    (h : ∀ binlog ∈ a :: front, verdict binlog.startTime binlog.stopTime = .find)
    (hfound : s.firstBinlogFound = false) :
    ∃ t, scan read verdict ((a :: front ++ rest).map (Binlog.filename base)) s =
        scan read verdict (rest.map (Binlog.filename base)) t ∧
      t.binlogFiles = s.binlogFiles ++ (a :: front).map (Binlog.filename base) ∧
      t.firstBinlogFile = s.lastBinlogFile := by
  have ha := hread a List.mem_cons_self
  have hfirst : s.first = { s with
      firstBinlogFound := true
      firstBinlogFile := s.lastBinlogFile
      firstBinlogSize := s.lastBinlogSize } := by
    rw [Scan.first, hfound]
    rfl
  obtain ⟨t, ht, hfiles, hlast⟩ := @scan_take base front rest read verdict
    ((s.first.take (a.filename base) a.fileSize).remember (a.filename base) a.fileSize)
    (fun binlog hin => hread binlog (List.mem_cons_of_mem _ hin))
    (fun binlog hin => Or.inr ⟨h binlog (List.mem_cons_of_mem _ hin), by rw [hfirst]; rfl⟩)
  refine ⟨t, ?_, ?_, ?_⟩
  · rw [List.cons_append, List.map_cons, scan, ha]
    dsimp only
    rw [h a List.mem_cons_self]
    exact ht
  · rw [hfiles, hfirst, List.map_cons]
    exact List.append_assoc ..
  · rw [hlast, hfirst]
    rfl

theorem scan_stop (hread : Readable base read rest)
    (h : ∀ binlog ∈ rest, verdict binlog.startTime binlog.stopTime = .stop) :
    scan read verdict (rest.map (Binlog.filename base)) s = .ok s := by
  cases rest with
  | nil => rfl
  | cons a rest =>
    have ha := hread a List.mem_cons_self
    rw [List.map_cons, scan, ha]
    dsimp only
    rw [h a List.mem_cons_self]

/-- The files from the start file on. -/
theorem fromStartFile_eq (h : Consecutive binlogs)
    (hnames : p.binlogFiles.Perm (binlogs.map (Binlog.filename base)))
    (hfile : p.binlogStartFile = "" ∨ p.binlogStartFile ∈ binlogs.map (Binlog.filename base)) :
    fromStartFile p =
      .ok ((binlogs.filter fun binlog => FromStart p binlog).map (Binlog.filename base)) := by
  unfold fromStartFile
  rw [sort_names h hnames]
  dsimp only
  by_cases hempty : p.binlogStartFile = ""
  · have hall : binlogs.filter (fun binlog => FromStart p binlog) = binlogs :=
      List.filter_eq_self.mpr fun binlog _ => decide_eq_true (Or.inl hempty)
    rw [if_pos hempty, hall]
  · rw [if_neg hempty]
    have hin := hfile.resolve_left hempty
    rw [if_neg (not_not_intro hin)]
    obtain ⟨start, hstart, hname⟩ := List.mem_map.mp hin
    have hfrom : ∀ binlog ∈ binlogs, FromStart p binlog ↔ start.number ≤ binlog.number := by
      intro binlog _
      unfold FromStart
      rw [← hname, numSuffix_filename (h.fits start hstart), Int.ofNat_le]
      exact or_iff_right (filename_ne_empty base start)
    have hnonempty : ∀ name ∈ binlogs.map (Binlog.filename base), decide (name ≠ "") = true := by
      intro name hmem
      obtain ⟨binlog, -, rfl⟩ := List.mem_map.mp hmem
      exact decide_eq_true (filename_ne_empty base binlog)
    obtain ⟨before, behind, rfl⟩ := List.append_of_mem hstart
    have hincreasing := h.increasing
    obtain ⟨-, hbehind, hacross⟩ := List.pairwise_append.mp hincreasing
    have hbefore : ∀ binlog ∈ before, ¬ FromStart p binlog := by
      intro binlog hbinlog
      have hlt := hacross binlog hbinlog start List.mem_cons_self
      rw [hfrom binlog (List.mem_append_left _ hbinlog)]
      omega
    have hlater : ∀ binlog ∈ start :: behind, FromStart p binlog := by
      intro binlog hbinlog
      rw [hfrom binlog (List.mem_append_right _ hbinlog)]
      rcases List.mem_cons.mp hbinlog with rfl | hmem
      · exact Nat.le_refl _
      · exact Nat.le_of_lt ((List.pairwise_cons.mp hbehind).1 binlog hmem)
    have hpass : ∀ name ∈ before.map (Binlog.filename base),
        decide (name ≠ p.binlogStartFile) = true := by
      intro name hmem
      obtain ⟨binlog, hbinlog, rfl⟩ := List.mem_map.mp hmem
      refine decide_eq_true fun heq => ?_
      have hlt := hacross binlog hbinlog start List.mem_cons_self
      have hsame := filename_injective (heq.trans hname.symm)
      omega
    have hsplit : (before ++ start :: behind).filter (fun binlog => FromStart p binlog) =
        start :: behind := by
      rw [List.filter_append, List.filter_eq_nil_iff.mpr fun binlog hmem => by
        simpa using hbefore binlog hmem, List.nil_append]
      exact List.filter_eq_self.mpr fun binlog hmem => decide_eq_true (hlater binlog hmem)
    rw [hsplit, List.map_append, List.map_cons, List.dropWhile_append_of_pos hpass,
      List.dropWhile_cons_of_neg (by rw [hname]; simp), ← List.map_cons,
      List.filter_eq_self.mpr fun name hmem => hnonempty name (by
        rw [List.map_append]
        exact List.mem_append_right _ hmem)]

theorem Consecutive.suffix (h : Consecutive binlogs) (hrest : rest <:+ binlogs) : Consecutive rest :=
  ⟨h.numbers.suffix hrest, h.apart.suffix hrest,
    fun binlog hin => h.fits binlog (hrest.subset hin)⟩

theorem fromStart_suffix (h : Consecutive binlogs) :
    binlogs.filter (fun binlog => FromStart p binlog) <:+ binlogs := by
  apply Ends.filter_suffix
  refine h.increasing.imp ?_
  intro a b hlt hfrom
  refine decide_eq_true ((of_decide_eq_true hfrom).imp id ?_)
  omega

end

namespace RecoverBinlog

variable {base : String} {binlogs : List Binlog} {a b : Binlog} {read : String → Read}
  {p : BinlogParam} {zone : Offset} {start stop : Moment}

/-- The text of a binlog's end is greater than that of the stop time and its slack. -/
def EndsLate (zone : Offset) (stop : Moment) (binlog : Binlog) : Prop :=
  rfc3339 stop.offset (stop.seconds + slack) < rfc3339 zone binlog.stopTime

/-- The text of its beginning is greater than that of the start time less the slack. -/
def BeginsLate (zone : Offset) (start : Moment) (binlog : Binlog) : Prop :=
  rfc3339 start.offset (start.seconds - slack) < rfc3339 zone binlog.startTime

instance (zone : Offset) (stop : Moment) (binlog : Binlog) : Decidable (EndsLate zone stop binlog) :=
  inferInstanceAs (Decidable (_ < _))

instance (zone : Offset) (start : Moment) (binlog : Binlog) :
    Decidable (BeginsLate zone start binlog) := inferInstanceAs (Decidable (_ < _))

theorem dated_timestamp (zone : Offset) {timestamp : ℕ} (h : timestamp < 2 ^ 32) :
    Calendar.Dated (wallDay zone timestamp) := by
  obtain ⟨hlow, hhigh⟩ := zone.2
  unfold wallDay epoch
  have hfirst : Calendar.firstDay = 366 := rfl
  have hlast : Calendar.lastDay = 3652424 := rfl
  exact ⟨by omega, by omega⟩

/-- Both texts go up with the numbers. -/
theorem endsLate_pairwise (h : Consecutive binlogs) :
    binlogs.Pairwise fun a b => EndsLate zone stop a → EndsLate zone stop b := by
  refine h.later.imp ?_
  intro a b hlater hlate
  have horder := b.order
  have hle := rfc3339_le (dated_timestamp zone a.timestamp) (dated_timestamp zone b.timestamp)
    (show (a.stopTime : ℤ) ≤ b.stopTime by omega)
  exact lt_of_lt_of_le hlate hle

theorem beginsLate_pairwise (h : Consecutive binlogs) :
    binlogs.Pairwise fun a b => BeginsLate zone start a → BeginsLate zone start b := by
  refine h.later.imp ?_
  intro a b hlater hlate
  have horder := a.order
  have htimestamp := a.timestamp
  have htimestamp' := b.timestamp
  have horder' := b.order
  have hle := rfc3339_le (dated_timestamp zone (show a.startTime < 2 ^ 32 by omega))
    (dated_timestamp zone (show b.startTime < 2 ^ 32 by omega))
    (show (a.startTime : ℤ) ≤ b.startTime by omega)
  exact lt_of_lt_of_le hlate hle

/-- The files that are not too late, those of them that begin too early, and the others. -/
def inTime (zone : Offset) (stop : Moment) (binlogs : List Binlog) : List Binlog :=
  binlogs.filter fun binlog => ¬ EndsLate zone stop binlog

def early (zone : Offset) (start stop : Moment) (binlogs : List Binlog) : List Binlog :=
  (inTime zone stop binlogs).filter fun binlog => ¬ BeginsLate zone start binlog

def found (zone : Offset) (start stop : Moment) (binlogs : List Binlog) : List Binlog :=
  (inTime zone stop binlogs).filter fun binlog => BeginsLate zone start binlog

theorem early_append_found (h : Consecutive binlogs) :
    early zone start stop binlogs ++ found zone start stop binlogs = inTime zone stop binlogs :=
  Ends.filter_append_filter ((beginsLate_pairwise h).sublist List.filter_sublist)

theorem inTime_append (h : Consecutive binlogs) : inTime zone stop binlogs ++
    binlogs.filter (fun binlog => EndsLate zone stop binlog) = binlogs :=
  Ends.filter_append_filter (endsLate_pairwise h)

/-- With a start file, all files that are not too late are selected. -/
theorem scan_file (h : Consecutive binlogs) (hread : Readable base read binlogs)
    (hfile : p.binlogStartFile ≠ "") :
    ∃ t, scan read (verdict zone p stop) (binlogs.map (Binlog.filename base)) .begin = .ok t ∧
      (t.result p).1 = (inTime zone stop binlogs).map (Binlog.filename base) := by
  have hsplit := @inTime_append binlogs zone stop h
  rw [← hsplit] at hread
  obtain ⟨t, ht, hfiles, -⟩ := @scan_take base _ _ read (verdict zone p stop) .begin hread (by
    intro binlog hin
    left
    have hnot := of_decide_eq_true (List.mem_filter.mp hin).2
    exact (if_neg hnot).trans (if_pos hfile))
  refine ⟨t, ?_, ?_⟩
  · rw [hsplit] at ht
    rw [ht]
    apply scan_stop hread.of_append.2
    intro binlog hin
    exact if_pos (of_decide_eq_true (List.mem_filter.mp hin).2)
  · rw [Scan.result, if_neg (fun hboth => hfile hboth.1), hfiles]
    rfl

/-- With a start time, those that begin behind it are, and the file in front of them. -/
theorem scan_time (h : Consecutive binlogs) (hread : Readable base read binlogs)
    (hfile : p.binlogStartFile = "") (hstart : p.startTime = some start) :
    ∃ t, scan read (verdict zone p stop) (binlogs.map (Binlog.filename base)) .begin = .ok t ∧
      (t.result p).1 = (if found zone start stop binlogs = [] then []
        else (early zone start stop binlogs).getLast?.toList ++ found zone start stop binlogs).map
          (Binlog.filename base) := by
  have hsplit := @inTime_append binlogs zone stop h
  have hfound := @early_append_found binlogs zone start stop h
  have hverdict : ∀ binlog ∈ inTime zone stop binlogs,
      verdict zone p stop binlog.startTime binlog.stopTime =
        if BeginsLate zone start binlog then .find else .pass := by
    intro binlog hin
    have hnot := of_decide_eq_true (List.mem_filter.mp hin).2
    refine (if_neg hnot).trans ((if_neg fun hne => hne hfile).trans ?_)
    rw [hstart]
    rfl
  have hearly : ∀ binlog ∈ early zone start stop binlogs,
      verdict zone p stop binlog.startTime binlog.stopTime = .pass := by
    intro binlog hin
    obtain ⟨hmem, hnot⟩ := List.mem_filter.mp hin
    rw [hverdict binlog hmem, if_neg (of_decide_eq_true hnot)]
  have hlate : ∀ binlog ∈ found zone start stop binlogs,
      verdict zone p stop binlog.startTime binlog.stopTime = .find := by
    intro binlog hin
    obtain ⟨hmem, hbegins⟩ := List.mem_filter.mp hin
    rw [hverdict binlog hmem, if_pos (of_decide_eq_true hbegins)]
  have hstop : ∀ s, scan read (verdict zone p stop)
      ((binlogs.filter fun binlog => EndsLate zone stop binlog).map (Binlog.filename base)) s =
        .ok s := by
    intro s
    apply scan_stop
    · intro binlog hin
      exact hread binlog (List.mem_of_mem_filter hin)
    · intro binlog hin
      exact if_pos (of_decide_eq_true (List.mem_filter.mp hin).2)
  rw [← hsplit, ← hfound, List.append_assoc] at hread
  have hscan := @scan_pass base _ _ read (verdict zone p stop) .begin hread hearly
  rw [← List.append_assoc, hfound, hsplit] at hscan
  rw [hscan]
  rcases hlist : found zone start stop binlogs with _ | ⟨first, others⟩
  · rw [List.nil_append, hstop]
    refine ⟨_, rfl, ?_⟩
    unfold Scan.past Scan.result
    cases (early zone start stop binlogs).getLast? <;> simp [Scan.begin, Scan.remember]
  · rw [hlist] at hlate hread
    obtain ⟨t, ht, hfiles, hfirst⟩ := @scan_find base others _ first read (verdict zone p stop)
      (Scan.begin.past base (early zone start stop binlogs)) hread.of_append.2 hlate (by
        unfold Scan.past
        split <;> rfl)
    rw [ht, hstop]
    refine ⟨t, rfl, ?_⟩
    rw [if_neg (by simp)]
    unfold Scan.result
    rw [hfirst, hfiles]
    unfold Scan.past
    cases (early zone start stop binlogs).getLast? with
    | none => simp [Scan.begin]
    | some last =>
      have hne := filename_ne_empty base last
      simp [Scan.begin, Scan.remember, hfile, hne, stringsInsertIndex]

end RecoverBinlog

namespace GoApplyBinlog

variable {base : String} {binlogs : List Binlog} {read : String → Read} {p : BinlogParam}
  {start stop : Moment}

/-- A binlog ends more than the slack behind the stop time. -/
def EndsLate (stop : Moment) (binlog : Binlog) : Prop := stop.seconds + slack < binlog.stopTime

/-- It begins more than the slack behind the stop time. -/
def BeginsLate (stop : Moment) (binlog : Binlog) : Prop := stop.seconds + slack < binlog.startTime

/-- It ends within the slack before the start time, or later. -/
def Reaches (start : Moment) (binlog : Binlog) : Prop := start.seconds - slack ≤ binlog.stopTime

instance (stop : Moment) (binlog : Binlog) : Decidable (EndsLate stop binlog) :=
  inferInstanceAs (Decidable (_ < _))

instance (stop : Moment) (binlog : Binlog) : Decidable (BeginsLate stop binlog) :=
  inferInstanceAs (Decidable (_ < _))

instance (start : Moment) (binlog : Binlog) : Decidable (Reaches start binlog) :=
  inferInstanceAs (Decidable (_ ≤ _))

theorem endsLate_append (h : Consecutive binlogs) :
    binlogs.filter (fun binlog => ¬ EndsLate stop binlog) ++
      binlogs.filter (fun binlog => EndsLate stop binlog) = binlogs := by
  apply Ends.filter_append_filter
  refine h.later.imp ?_
  intro a b hlater hlate
  have horder := b.order
  unfold EndsLate at *
  omega

theorem beginsLate_append (h : Consecutive binlogs) :
    binlogs.filter (fun binlog => ¬ BeginsLate stop binlog) ++
      binlogs.filter (fun binlog => BeginsLate stop binlog) = binlogs := by
  apply Ends.filter_append_filter
  refine h.later.imp ?_
  intro a b hlater hlate
  have horder := a.order
  unfold BeginsLate at *
  omega

/-- The files that begin in time, and those of them that reach the start time. -/
def inTime (stop : Moment) (binlogs : List Binlog) : List Binlog :=
  binlogs.filter fun binlog => ¬ BeginsLate stop binlog

def kept (start stop : Moment) (binlogs : List Binlog) : List Binlog :=
  (inTime stop binlogs).filter fun binlog => Reaches start binlog

theorem reaches_append (h : Consecutive binlogs) :
    (inTime stop binlogs).filter (fun binlog => ¬ Reaches start binlog) ++ kept start stop binlogs =
      inTime stop binlogs := by
  apply Ends.filter_append_filter
  refine (h.later.sublist List.filter_sublist).imp ?_
  intro a b hlater hreaches
  have horder := b.order
  unfold Reaches at *
  omega

/-- With a start file alone, all files that end in time are selected. -/
theorem scan_file (h : Consecutive binlogs) (hread : Readable base read binlogs)
    (hfile : p.binlogStartFile ≠ "") (hstart : p.startTime = none) :
    ∃ t, scan read (verdict p stop) (binlogs.map (Binlog.filename base)) .begin = .ok t ∧
      (t.result p).1 =
        (binlogs.filter fun binlog => ¬ EndsLate stop binlog).map (Binlog.filename base) := by
  have hsplit := @endsLate_append binlogs stop h
  have hverdict : ∀ binlog, verdict p stop binlog.startTime binlog.stopTime =
      if EndsLate stop binlog then .stop else .keep := by
    intro binlog
    unfold verdict
    rw [hstart]
    dsimp only
    rw [if_pos hfile]
    rfl
  rw [← hsplit] at hread
  obtain ⟨t, ht, hfiles, -⟩ := @scan_take base _ _ read (verdict p stop) .begin hread (by
    intro binlog hin
    left
    rw [hverdict, if_neg (of_decide_eq_true (List.mem_filter.mp hin).2)])
  refine ⟨t, ?_, ?_⟩
  · rw [hsplit] at ht
    rw [ht]
    apply scan_stop hread.of_append.2
    intro binlog hin
    rw [hverdict, if_pos (of_decide_eq_true (List.mem_filter.mp hin).2)]
  · rw [Scan.result, if_neg (fun hboth => hfile hboth.1), hfiles]
    rfl

/-- With a start time, all files that begin in time and reach it are. -/
theorem scan_time (h : Consecutive binlogs) (hread : Readable base read binlogs)
    (hstart : p.startTime = some start) :
    ∃ t, scan read (verdict p stop) (binlogs.map (Binlog.filename base)) .begin = .ok t ∧
      (t.result p).1 = (kept start stop binlogs).map (Binlog.filename base) := by
  have hsplit := @beginsLate_append binlogs stop h
  have hreaches := @reaches_append binlogs start stop h
  have hverdict : ∀ binlog : Binlog, verdict p stop binlog.startTime binlog.stopTime =
      if BeginsLate stop binlog then .stop
      else if ¬ Reaches start binlog then .skip
      else if p.binlogStartFile ≠ "" then .keep else .find := by
    intro binlog
    have horder := binlog.order
    unfold verdict
    rw [hstart]
    dsimp only
    by_cases hlate : BeginsLate stop binlog
    · have hbegins : stop.seconds + slack < binlog.startTime := hlate
      rw [if_pos ⟨by omega, hbegins⟩, if_pos hlate]
    · rw [if_neg fun hboth => hlate hboth.2, if_neg hlate]
      by_cases hreach : Reaches start binlog
      · have hends : start.seconds - slack ≤ binlog.stopTime := hreach
        rw [if_neg (by omega), if_neg (not_not_intro hreach), if_pos (Or.inr hends)]
      · have hends : ¬ start.seconds - slack ≤ binlog.stopTime := hreach
        rw [if_pos ⟨by omega, by omega⟩, if_pos hreach]
  have hstop : ∀ s, scan read (verdict p stop)
      ((binlogs.filter fun binlog => BeginsLate stop binlog).map (Binlog.filename base)) s =
        .ok s := by
    intro s
    apply scan_stop
    · intro binlog hin
      exact hread binlog (List.mem_of_mem_filter hin)
    · intro binlog hin
      rw [hverdict, if_pos (of_decide_eq_true (List.mem_filter.mp hin).2)]
  have htaken : ∀ binlog ∈ kept start stop binlogs,
      verdict p stop binlog.startTime binlog.stopTime =
        if p.binlogStartFile ≠ "" then .keep else .find := by
    intro binlog hin
    obtain ⟨hmem, hkept⟩ := List.mem_filter.mp hin
    rw [hverdict, if_neg (of_decide_eq_true (List.mem_filter.mp hmem).2),
      if_neg (not_not_intro (of_decide_eq_true hkept))]
  rw [← hsplit] at hread
  change Readable base read (inTime stop binlogs ++ _) at hread
  rw [← hreaches, List.append_assoc] at hread
  have hscan := @scan_skip base _ _ read (verdict p stop) .begin hread (by
    intro binlog hin
    obtain ⟨hmem, hnot⟩ := List.mem_filter.mp hin
    rw [hverdict, if_neg (of_decide_eq_true (List.mem_filter.mp hmem).2),
      if_pos (of_decide_eq_true hnot)])
  rw [← List.append_assoc, hreaches] at hscan
  change scan read _ (List.map _ (binlogs.filter _ ++ _)) _ = _ at hscan
  rw [hsplit] at hscan
  rw [hscan]
  rcases hlist : kept start stop binlogs with _ | ⟨first, others⟩
  · rw [List.nil_append, hstop]
    refine ⟨_, rfl, ?_⟩
    simp [Scan.result, Scan.begin]
  · rw [hlist] at htaken hread
    by_cases hfile : p.binlogStartFile = ""
    · obtain ⟨t, ht, hfiles, hfirst⟩ := @scan_find base others _ first read (verdict p stop) .begin
        hread.of_append.2 (by
          intro binlog hin
          rw [htaken binlog hin, if_neg (not_not_intro hfile)]) rfl
      rw [ht, hstop]
      refine ⟨t, rfl, ?_⟩
      rw [Scan.result, hfirst, if_neg (fun hboth => hboth.2 rfl), hfiles]
      rfl
    · obtain ⟨t, ht, hfiles, -⟩ := @scan_take base (first :: others) _ read (verdict p stop) .begin
        hread.of_append.2 (by
          intro binlog hin
          left
          rw [htaken binlog hin, if_pos hfile])
      rw [ht, hstop]
      refine ⟨t, rfl, ?_⟩
      rw [Scan.result, if_neg (fun hboth => hfile hboth.1), hfiles]
      rfl

end GoApplyBinlog

end Restore
