import BluekingDbm.Restore.Selection

/-! Whether all binlogs that a rollback needs are selected. -/
namespace Restore

open Timestamp

/-- A binlog is able to hold an event between the start and the stop time. -/
structure Needed (p : BinlogParam) (stop : Moment) (binlog : Binlog) : Prop where
  begun : binlog.startTime ≤ stop.seconds
  file : FromStart p binlog
  time : ∀ start ∈ p.startTime, start.seconds ≤ binlog.stopTime

/-- The result is a list of binlogs without a hole, and has all that are needed. -/
def Complete (base : String) (binlogs : List Binlog) (p : BinlogParam) (stop : Moment)
    (result : Except FilterError (List String × ℕ)) : Prop :=
  ∃ selected, (∃ total, result = .ok (selected.map (Binlog.filename base), total)) ∧
    selected <:+: binlogs ∧ ∀ binlog ∈ binlogs, Needed p stop binlog → binlog ∈ selected

/-- No binlog that is needed is too late as a text; and where the start is a time, it or the next
one, which is not too late either, begins late enough as a text. -/
def RecoverBinlog.Reaching (zone : Offset) (binlogs : List Binlog) (p : BinlogParam) (stop : Moment) :
    Prop :=
  ∀ binlog ∈ binlogs, Needed p stop binlog → ¬ EndsLate zone stop binlog ∧
    (p.binlogStartFile = "" → ∀ start ∈ p.startTime, BeginsLate zone start binlog ∨
      ∃ next ∈ binlogs, next.number = binlog.number + 1 ∧ ¬ EndsLate zone stop next ∧
        BeginsLate zone start next)

/-- Where the start is a file alone, no binlog that is needed ends too late. -/
def GoApplyBinlog.Reaching (binlogs : List Binlog) (p : BinlogParam) (stop : Moment) : Prop :=
  p.startTime = none → ∀ binlog ∈ binlogs, Needed p stop binlog → ¬ EndsLate stop binlog

section

variable {base : String} {binlogs selected : List Binlog} {binlog : Binlog} {read : String → Read}
  {p : BinlogParam} {zone : Offset} {start stop : Moment} {total : ℕ}
  {result : Except FilterError (List String × ℕ)}

theorem complete_iff (h : Consecutive binlogs) (hpart : selected <:+: binlogs)
    (hresult : result = .ok (selected.map (Binlog.filename base), total)) :
    Complete base binlogs p stop result ↔
      ∀ binlog ∈ binlogs, Needed p stop binlog → binlog ∈ selected := by
  constructor
  · rintro ⟨other, ⟨size, hother⟩, -, hall⟩ binlog hin hneeded
    rw [hresult] at hother
    have hnames := (Prod.mk.inj (Except.ok.inj hother)).1
    have hmem := List.mem_map_of_mem (f := Binlog.filename base) (hall binlog hin hneeded)
    rw [← hnames] at hmem
    obtain ⟨same, hsame, hname⟩ := List.mem_map.mp hmem
    rwa [← h.number_inj (hpart.subset hsame) hin (filename_injective hname)]
  · intro hall
    exact ⟨selected, ⟨total, hresult⟩, hpart, hall⟩

end

namespace RecoverBinlog

variable {base : String} {binlogs : List Binlog} {binlog : Binlog} {read : String → Read}
  {p : BinlogParam} {zone : Offset} {start stop : Moment}

theorem mem_found : binlog ∈ found zone start stop binlogs ↔
    binlog ∈ binlogs ∧ ¬ EndsLate zone stop binlog ∧ BeginsLate zone start binlog := by
  rw [found, inTime, List.mem_filter, List.mem_filter, decide_eq_true_iff, decide_eq_true_iff, and_assoc]

theorem mem_early : binlog ∈ early zone start stop binlogs ↔
    binlog ∈ binlogs ∧ ¬ EndsLate zone stop binlog ∧ ¬ BeginsLate zone start binlog := by
  rw [early, inTime, List.mem_filter, List.mem_filter, decide_eq_true_iff, decide_eq_true_iff, and_assoc]

/-- What is selected behind a start time. -/
def chosen (zone : Offset) (start stop : Moment) (binlogs : List Binlog) : List Binlog :=
  if found zone start stop binlogs = [] then []
  else (early zone start stop binlogs).getLast?.toList ++ found zone start stop binlogs

theorem chosen_contiguous (h : Consecutive binlogs) : chosen zone start stop binlogs <:+: binlogs := by
  have hsplit := @inTime_append binlogs zone stop h
  have hfound := @early_append_found binlogs zone start stop h
  have hfront : inTime zone stop binlogs <+: binlogs := ⟨_, hsplit⟩
  unfold chosen
  split
  · exact ⟨[], binlogs, rfl⟩
  · refine List.IsInfix.trans ?_ hfront.isInfix
    rw [← hfound]
    cases hlast : (early zone start stop binlogs).getLast? with
    | none => exact (List.suffix_append _ _).isInfix
    | some last =>
      obtain ⟨front, hfront⟩ := List.getLast?_eq_some_iff.mp hlast
      rw [hfront, List.append_assoc]
      exact (List.suffix_append _ _).isInfix

theorem mem_chosen (h : Consecutive binlogs) (hin : binlog ∈ binlogs) :
    binlog ∈ chosen zone start stop binlogs ↔ ¬ EndsLate zone stop binlog ∧
      (BeginsLate zone start binlog ∨ ∃ next ∈ binlogs, next.number = binlog.number + 1 ∧
        ¬ EndsLate zone stop next ∧ BeginsLate zone start next) := by
  have hsplit := @inTime_append binlogs zone stop h
  have hfound := @early_append_found binlogs zone start stop h
  constructor
  · intro hmem
    unfold chosen at hmem
    split at hmem
    · cases hmem
    · rename_i hne
      rcases List.mem_append.mp hmem with hlast | hlate
      · rw [Option.mem_toList] at hlast
        have hearly := mem_early.mp (List.mem_of_getLast? hlast)
        refine ⟨hearly.2.1, Or.inr ?_⟩
        obtain ⟨next, others, hnext⟩ := List.exists_cons_of_ne_nil hne
        have hnextIn : next ∈ found zone start stop binlogs := by
          rw [hnext]
          exact List.mem_cons_self
        obtain ⟨hmemNext, hinTime, hbegins⟩ := mem_found.mp hnextIn
        refine ⟨next, hmemNext, ?_, hinTime, hbegins⟩
        -- the last early binlog and the first of the others stand side by side
        have hnumbers := h.numbers
        rw [← hsplit, ← hfound, List.append_assoc] at hnumbers
        refine (List.isChain_append.mp hnumbers).2.2 binlog hlast next ?_
        rw [hnext]
        rfl
      · obtain ⟨-, hinTime, hbegins⟩ := mem_found.mp hlate
        exact ⟨hinTime, Or.inl hbegins⟩
  · rintro ⟨hinTime, hbegins⟩
    by_cases hlate : BeginsLate zone start binlog
    · have hmem : binlog ∈ found zone start stop binlogs := mem_found.mpr ⟨hin, hinTime, hlate⟩
      unfold chosen
      rw [if_neg (List.ne_nil_of_mem hmem)]
      exact List.mem_append_right _ hmem
    · obtain ⟨next, hnext, hnumber, hnextTime, hnextBegins⟩ := hbegins.resolve_left hlate
      have hnextIn : next ∈ found zone start stop binlogs := mem_found.mpr ⟨hnext, hnextTime, hnextBegins⟩
      have hearly : binlog ∈ early zone start stop binlogs := mem_early.mpr ⟨hin, hinTime, hlate⟩
      obtain ⟨front, last, hfront⟩ :=
        (List.eq_nil_or_concat _).resolve_left (List.ne_nil_of_mem hearly)
      rw [List.concat_eq_append] at hfront
      have hincreasing := h.increasing
      rw [← hsplit, ← hfound, hfront] at hincreasing
      have hboth := (List.pairwise_append.mp hincreasing).1
      obtain ⟨hbefore, -, hacross⟩ := List.pairwise_append.mp hboth
      have hlast : last ∈ front ++ [last] := List.mem_append_right _ List.mem_cons_self
      have hless := hacross last hlast next hnextIn
      have hsame : binlog = last := by
        rw [hfront] at hearly
        rcases List.mem_append.mp hearly with hmem | hmem
        · have hlt := (List.pairwise_append.mp hbefore).2.2 binlog hmem last List.mem_cons_self
          omega
        · exact List.mem_singleton.mp hmem
      unfold chosen
      rw [if_neg (List.ne_nil_of_mem hnextIn), hfront, hsame]
      simp

theorem complete_iff_reaching (h : Consecutive binlogs) (hread : Readable base read binlogs)
    (hnames : p.binlogFiles.Perm (binlogs.map (Binlog.filename base)))
    (hfile : p.binlogStartFile = "" ∨ p.binlogStartFile ∈ binlogs.map (Binlog.filename base))
    (hstart : p.binlogStartFile ≠ "" ∨ p.startTime.isSome = true) (hstop : p.stopTime = some stop) :
    Complete base binlogs p stop (filterBinlogFiles zone read p) ↔
      Reaching zone binlogs p stop := by
  have hfrom := fromStartFile_eq h hnames hfile
  have hsuffix := @fromStart_suffix binlogs p h
  have hconsecutive := h.suffix hsuffix
  have hreadFrom : Readable base read (binlogs.filter fun binlog => FromStart p binlog) :=
    fun binlog hin => hread binlog (List.mem_of_mem_filter hin)
  have hresult : ∀ t, scan read (verdict zone p stop)
      ((binlogs.filter fun binlog => FromStart p binlog).map (Binlog.filename base)) .begin = .ok t →
        filterBinlogFiles zone read p = .ok (t.result p) := by
    intro t ht
    unfold filterBinlogFiles
    rw [hfrom, hstop]
    show (scan _ _ _ _ >>= _) = _
    rw [ht]
    rfl
  by_cases hempty : p.binlogStartFile = ""
  · obtain ⟨start, hsome⟩ := Option.isSome_iff_exists.mp (hstart.resolve_left (not_not_intro hempty))
    have hall : binlogs.filter (fun binlog => FromStart p binlog) = binlogs :=
      List.filter_eq_self.mpr fun binlog _ => decide_eq_true (Or.inl hempty)
    obtain ⟨t, ht, hfiles⟩ := @scan_time base _ read p zone start stop hconsecutive hreadFrom hempty hsome
    have heq := hresult t ht
    rw [hall] at hfiles
    change (t.result p).1 = (chosen zone start stop binlogs).map _ at hfiles
    rw [complete_iff h (chosen_contiguous h) (heq.trans (by rw [← hfiles]))]
    refine forall_congr' fun binlog => forall_congr' fun hin => forall_congr' fun _ => ?_
    rw [mem_chosen h hin]
    refine and_congr_right fun _ => ?_
    constructor
    · intro hbegins _ other hother
      rw [hsome] at hother
      obtain rfl := Option.some.inj hother
      exact hbegins
    · exact fun hbegins => hbegins hempty start hsome
  · obtain ⟨t, ht, hfiles⟩ := @scan_file base _ read p zone stop hconsecutive hreadFrom hempty
    have heq := hresult t ht
    have hpart : inTime zone stop (binlogs.filter fun binlog => FromStart p binlog) <:+: binlogs := by
      refine List.IsInfix.trans ?_ hsuffix.isInfix
      exact List.IsPrefix.isInfix ⟨_, inTime_append hconsecutive⟩
    rw [complete_iff h hpart (heq.trans (by rw [← hfiles]))]
    refine forall_congr' fun binlog => forall_congr' fun hin => forall_congr' fun hneeded => ?_
    rw [inTime, List.mem_filter, List.mem_filter, decide_eq_true_iff, decide_eq_true_iff]
    constructor
    · rintro ⟨-, hinTime⟩
      exact ⟨hinTime, fun heq => absurd heq hempty⟩
    · rintro ⟨hinTime, -⟩
      exact ⟨⟨hin, hneeded.file⟩, hinTime⟩

end RecoverBinlog

namespace GoApplyBinlog

variable {base : String} {binlogs : List Binlog} {read : String → Read} {p : BinlogParam}
  {start stop : Moment}

theorem kept_contiguous (h : Consecutive binlogs) : kept start stop binlogs <:+: binlogs := by
  have hsplit := @beginsLate_append binlogs stop h
  have hfront : inTime stop binlogs <+: binlogs := ⟨_, hsplit⟩
  have hsuffix : kept start stop binlogs <:+ inTime stop binlogs := ⟨_, reaches_append h⟩
  exact hsuffix.isInfix.trans hfront.isInfix

/-- What is needed begins in time and reaches the start time. -/
theorem mem_kept {binlog : Binlog} (hin : binlog ∈ binlogs) (hneeded : Needed p stop binlog)
    (hstart : p.startTime = some start) :
    binlog ∈ kept start stop (binlogs.filter fun binlog => FromStart p binlog) := by
  have hbegun := hneeded.begun
  have htime := hneeded.time start hstart
  have hslack : slack = 1200 := rfl
  refine List.mem_filter.mpr ⟨List.mem_filter.mpr ⟨List.mem_filter.mpr ⟨hin, ?_⟩, ?_⟩, ?_⟩
  · exact decide_eq_true hneeded.file
  · refine decide_eq_true ?_
    unfold BeginsLate
    omega
  · refine decide_eq_true ?_
    unfold Reaches
    omega

theorem complete_iff_reaching (h : Consecutive binlogs) (hread : Readable base read binlogs)
    (hnames : p.binlogFiles.Perm (binlogs.map (Binlog.filename base)))
    (hfile : p.binlogStartFile = "" ∨ p.binlogStartFile ∈ binlogs.map (Binlog.filename base))
    (hstart : p.binlogStartFile ≠ "" ∨ p.startTime.isSome = true) (hstop : p.stopTime = some stop) :
    Complete base binlogs p stop (filterBinlogFiles read p) ↔ Reaching binlogs p stop := by
  have hfrom := fromStartFile_eq h hnames hfile
  have hsuffix := @fromStart_suffix binlogs p h
  have hconsecutive := h.suffix hsuffix
  have hreadFrom : Readable base read (binlogs.filter fun binlog => FromStart p binlog) :=
    fun binlog hin => hread binlog (List.mem_of_mem_filter hin)
  have hresult : ∀ t, scan read (verdict p stop)
      ((binlogs.filter fun binlog => FromStart p binlog).map (Binlog.filename base)) .begin = .ok t →
        filterBinlogFiles read p = .ok (t.result p) := by
    intro t ht
    unfold filterBinlogFiles
    rw [hfrom, hstop]
    show (scan _ _ _ _ >>= _) = _
    rw [ht]
    rfl
  cases hsome : p.startTime with
  | some start =>
    obtain ⟨t, ht, hfiles⟩ := @scan_time base _ read p start stop hconsecutive hreadFrom hsome
    have heq := hresult t ht
    have hpart := (@kept_contiguous _ start stop hconsecutive).trans hsuffix.isInfix
    rw [complete_iff h hpart (heq.trans (by rw [← hfiles]))]
    constructor
    · intro _ hnone
      rw [hsome] at hnone
      cases hnone
    · exact fun _ binlog hin hneeded => mem_kept hin hneeded hsome
  | none =>
    have hne : p.binlogStartFile ≠ "" := by
      refine hstart.resolve_right ?_
      rw [hsome]
      exact Bool.false_ne_true
    obtain ⟨t, ht, hfiles⟩ := @scan_file base _ read p stop hconsecutive hreadFrom hne hsome
    have heq := hresult t ht
    have hpart : (binlogs.filter fun binlog => FromStart p binlog).filter
        (fun binlog => ¬ EndsLate stop binlog) <:+: binlogs := by
      refine List.IsInfix.trans ?_ hsuffix.isInfix
      exact List.IsPrefix.isInfix ⟨_, endsLate_append hconsecutive⟩
    rw [complete_iff h hpart (heq.trans (by rw [← hfiles]))]
    constructor
    · intro hall _ binlog hin hneeded
      exact of_decide_eq_true (List.mem_filter.mp (hall binlog hin hneeded)).2
    · intro hall binlog hin hneeded
      exact List.mem_filter.mpr ⟨List.mem_filter.mpr ⟨hin, decide_eq_true hneeded.file⟩,
        decide_eq_true (hall hsome binlog hin hneeded)⟩

end GoApplyBinlog

/-- The files that are selected have no hole and none is missing that a rollback needs, exactly where
no such file ends too late: for one implementation compared as texts and also beginning late enough,
for the other one only where the start is a file alone. -/
theorem filterBinlogFiles_complete_iff {base : String} {binlogs : List Binlog}
    {read : String → Read} {p : BinlogParam} {stop : Moment} (zone : Offset) (h : Consecutive binlogs)
    (hread : Readable base read binlogs)
    (hnames : p.binlogFiles.Perm (binlogs.map (Binlog.filename base)))
    (hfile : p.binlogStartFile = "" ∨ p.binlogStartFile ∈ binlogs.map (Binlog.filename base))
    (hstart : p.binlogStartFile ≠ "" ∨ p.startTime.isSome = true) (hstop : p.stopTime = some stop) :
    (Complete base binlogs p stop (RecoverBinlog.filterBinlogFiles zone read p) ↔
        RecoverBinlog.Reaching zone binlogs p stop) ∧
      (Complete base binlogs p stop (GoApplyBinlog.filterBinlogFiles read p) ↔
        GoApplyBinlog.Reaching binlogs p stop) :=
  ⟨RecoverBinlog.complete_iff_reaching h hread hnames hfile hstart hstop,
    GoApplyBinlog.complete_iff_reaching h hread hnames hfile hstart hstop⟩

/-- A directory that holds these binlogs. -/
def readAll (base : String) (binlogs : List Binlog) (name : String) : Read :=
  match binlogs.find? fun binlog => binlog.filename base = name with
  | none => .noSuchFile
  | some binlog => .events binlog.startTime binlog.stopTime binlog.fileSize

theorem readable_readAll {base : String} {binlogs : List Binlog} (h : Consecutive binlogs) :
    Readable base (readAll base binlogs) binlogs := by
  intro binlog hin
  unfold readAll
  cases hfind : binlogs.find? fun other => other.filename base = binlog.filename base with
  | none =>
    have hnot := List.find?_eq_none.mp hfind binlog hin
    exact absurd (decide_eq_true rfl) hnot
  | some other =>
    have hname := List.find?_some hfind
    rw [decide_eq_true_iff] at hname
    rw [h.number_inj (List.mem_of_find?_eq_some hfind) hin (filename_injective hname)]

/-- A binlog of two hours, and a stop time in the middle of it. -/
def longBinlog : Binlog := ⟨1, 1700000000, 1700007200, 4096, by decide, by decide⟩

theorem consecutive_longBinlog : Consecutive [longBinlog] :=
  ⟨.singleton _, .singleton _, by decide⟩

def localZone : Offset := ⟨32400, by decide⟩

def middle : Moment := ⟨1700003600, localZone, by decide⟩

theorem filterBinlogFiles_complete_iff_long :
    Complete "binlog20000" [longBinlog]
      ⟨[longBinlog.filename "binlog20000"], "", some middle, some middle⟩ middle
      (GoApplyBinlog.filterBinlogFiles (readAll "binlog20000" [longBinlog])
        ⟨[longBinlog.filename "binlog20000"], "", some middle, some middle⟩) :=
  (filterBinlogFiles_complete_iff localZone consecutive_longBinlog
    (readable_readAll consecutive_longBinlog) (.refl _) (Or.inl rfl) (Or.inr rfl) rfl).2.mpr
      fun hnone => by cases hnone

/-- Neither implementation selects the start file if it goes on for more than the slack. -/
theorem long_file_lost : ¬ ∀ (zone : Offset) (base : String) (binlogs : List Binlog)
    (read : String → Read) (p : BinlogParam) (stop : Moment),
    Consecutive binlogs → Readable base read binlogs →
      p.binlogFiles.Perm (binlogs.map (Binlog.filename base)) →
        (p.binlogStartFile = "" ∨ p.binlogStartFile ∈ binlogs.map (Binlog.filename base)) →
          (p.binlogStartFile ≠ "" ∨ p.startTime.isSome = true) → p.stopTime = some stop →
            Complete base binlogs p stop (RecoverBinlog.filterBinlogFiles zone read p) ∨
              Complete base binlogs p stop (GoApplyBinlog.filterBinlogFiles read p) := by
  intro hall
  have hread := @readable_readAll "binlog20000" _ consecutive_longBinlog
  have hstart := filename_ne_empty "binlog20000" longBinlog
  have hin : longBinlog ∈ [longBinlog] := List.mem_cons_self
  have hmem : longBinlog.filename "binlog20000" ∈ [longBinlog].map (Binlog.filename "binlog20000") :=
    List.mem_map_of_mem hin
  have hneeded : Needed ⟨[longBinlog.filename "binlog20000"], longBinlog.filename "binlog20000", none,
      some middle⟩ middle longBinlog := by
    refine ⟨by decide, Or.inr ?_, fun _ hsome => by cases hsome⟩
    exact le_of_eq (numSuffix_filename (by decide))
  rcases hall localZone "binlog20000" [longBinlog] _ ⟨_, _, none, some middle⟩ middle
    consecutive_longBinlog hread (.refl _) (Or.inr hmem) (Or.inl hstart) rfl with hfound | hfound
  · rw [RecoverBinlog.complete_iff_reaching consecutive_longBinlog hread (.refl _) (Or.inr hmem)
      (Or.inl hstart) rfl] at hfound
    apply (hfound longBinlog hin hneeded).1
    exact (rfc3339_lt_iff (by decide) (by decide)).mpr (by decide)
  · rw [GoApplyBinlog.complete_iff_reaching consecutive_longBinlog hread (.refl _) (Or.inr hmem)
      (Or.inl hstart) rfl] at hfound
    exact hfound rfl longBinlog hin hneeded (by decide)

end Restore
