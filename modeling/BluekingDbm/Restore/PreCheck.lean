import BluekingDbm.Library.Lists
import BluekingDbm.Restore.Filter
import Mathlib.Data.List.Dedup
import Mathlib.Data.List.Sort
import Mathlib.Data.List.TakeWhile
import Mathlib.Data.Finset.Card
import Mathlib.Order.Interval.Finset.Nat
import Mathlib.Data.Int.Interval

/-! The check of the binlogs that are to be applied, before they are. Both components have it. -/
namespace Restore.PreCheck

open Timestamp

/-- A binlog in the directory: the seconds of its first event and of its rotate event, where they
can be read. -/
structure BinlogFile where
  startTime : Option ℕ
  rotateTime : Option ℕ

/-- `GetTimeIgnoreStopErr` of the end: without a rotate event, the start. -/
def BinlogFile.stopTime (file : BinlogFile) : Option ℕ := file.rotateTime.or file.startTime

/-- A time as it is given, and the second that it means. -/
structure Given where
  text : String
  seconds : ℤ

/-- What the check is told; a time that is not given is none. -/
structure CheckParam where
  binlogFiles : List String
  binlogStartFile : String
  startTime : Option Given
  stopTime : Option Given

inductive CheckError
  | noBinlogFiles
  | notExist (files : List String)
  | leak (leakInts : List ℤ) (files : List String)
  | panicked
  | startFileMissing
  | timeOrder
  | getTime
  | firstLate
  | lastEarly
  deriving DecidableEq

/-- `GetSuffixWithLenAndSep`, for a length of zero. -/
def getSuffix (names : List String) : List String :=
  names.map fun name => String.ofList (Rotate.afterDot name)

/-- `CheckConsecutiveInts`: the numbers that are missing, where some are. -/
def checkConsecutiveInts (ints : List ℤ) : Option (List ℤ) :=
  if ints.length ≤ 1 then none
  else
    let uniq := ints.dedup.insertionSort (· ≤ ·)
    let first := uniq.headD 0
    let last := uniq.getLastD 0
    if last - first + 1 = uniq.length then none
    else
      let targetList := (List.range (last - first + 1).toNat).map fun i : ℕ => first + (i : ℤ)
      some (targetList.filter fun i => i ∉ uniq)

/-- `IsConsecutiveStrings` of numbers: an error comes with the missing numbers, but a text that is no
number comes with none. -/
def isConsecutiveStrings (strList : List String) : Option (List ℤ) :=
  match strList.mapM Numeral.atoi with
  | none => some []
  | some intList => checkConsecutiveInts intList

/-- `%0[w]d`. -/
def padded (w : ℕ) : ℤ → List Char
  | .ofNat n => Padded.digits w n
  | .negSucc n => '-' :: Padded.digits (w - 1) (n + 1)

/-- The name with another number, as wide as the one between its first two dots; without a dot it
panics. -/
def constructBinlogFilename (fileNameTmpl : String) (sequenceSuffix : ℤ) : Option String :=
  match fileNameTmpl.toList.dropWhile (· ≠ '.') with
  | [] => none
  | _ :: rest =>
    let width := ((rest.takeWhile (· ≠ '.')).map Char.utf8Size).sum
    some (String.ofList (fileNameTmpl.toList.takeWhile (· ≠ '.')) ++ "." ++
      String.ofList (padded width sequenceSuffix))

/-- The sorted files, with those of the missing numbers where the directory has them all. -/
def fillHoles (dir : String → Option BinlogFile) (sorted : List String) :
    Except CheckError (List String) :=
  match isConsecutiveStrings (getSuffix sorted) with
  | none => .ok sorted
  | some leakInts =>
    match leakInts.mapM (constructBinlogFilename (sorted.headD "")) with
    | none => .error .panicked
    | some leakFiles =>
      let missing := leakFiles.filter fun file => (dir file).isNone
      if missing = [] then .ok (sortStringWithSuffixAsc (sorted ++ leakFiles))
      else .error (.leak leakInts missing)

/-- The files from the start file on, if there is one. -/
def fromStart (p : CheckParam) (files : List String) : Except CheckError (List String) :=
  if p.binlogStartFile = "" then .ok files
  else if p.binlogStartFile ∉ files then .error .startFileMissing
  else .ok ((files.dropWhile (· ≠ p.binlogStartFile)).filter (· ≠ ""))

def checkOrder (p : CheckParam) : Except CheckError Unit :=
  match p.startTime, p.stopTime with
  | some start, some stop => if stop.text ≤ start.text then .error .timeOrder else .ok ()
  | _, _ => .ok ()

/-- The first file, unless the start is a file. -/
def checkFirst (zone : ℕ → Offset) (dir : String → Option BinlogFile) (p : CheckParam)
    (files : List String) : Except CheckError Unit :=
  match p.startTime with
  | none => .ok ()
  | some start =>
    if p.binlogStartFile ≠ "" then .ok ()
    else
      match (dir (files.headD "")).bind (·.startTime) with
      | none => .error .getTime
      | some evStartTime =>
        if start.text < rfc3339 (zone evStartTime) evStartTime then .error .firstLate else .ok ()

def checkLast (zone : ℕ → Offset) (dir : String → Option BinlogFile) (p : CheckParam)
    (files : List String) : Except CheckError Unit :=
  match p.stopTime with
  | none => .ok ()
  | some stop =>
    match (dir (files.getLastD "")).bind (·.stopTime) with
    | none => .error .getTime
    | some evStopTime =>
      if rfc3339 (zone evStopTime) evStopTime < stop.text then .error .lastEarly else .ok ()

def checkTimeRange (zone : ℕ → Offset) (dir : String → Option BinlogFile) (p : CheckParam)
    (files : List String) : Except CheckError Unit := do
  checkOrder p
  checkFirst zone dir p files
  checkLast zone dir p files

/-- The files that are left, where the check returns no error. -/
def checkBinlogFiles (zone : ℕ → Offset) (dir : String → Option BinlogFile) (p : CheckParam) :
    Except CheckError (List String) := do
  let missing := p.binlogFiles.filter fun file => (dir file).isNone
  if p.binlogFiles = [] then throw .noBinlogFiles
  if missing ≠ [] then throw (.notExist missing)
  let filled ← fillHoles dir (sortStringWithSuffixAsc p.binlogFiles)
  let files ← fromStart p filled
  checkTimeRange zone dir p files
  return files

/-- `base.number`, the number with any zeros in front. -/
def Named (base name : String) : Prop :=
  ∃ ds : List Char, ds ≠ [] ∧ (∀ c ∈ ds, c.isDigit = true) ∧ name = base ++ "." ++ String.ofList ds

/-- A number that none of the names has, between those of two of them. -/
def Missing (names : List String) (n : ℕ) : Prop :=
  (∃ a ∈ names, Rotate.number a < n) ∧ (∃ b ∈ names, n < Rotate.number b) ∧
    ∀ c ∈ names, Rotate.number c ≠ n

/-- The name that the server gives to a number: at least six digits. -/
def serverName (base : String) (n : ℕ) : String := base ++ "." ++ String.ofList (Padded.digits 6 n)

/-- The given files that are left: those from the start file on, or from where it is put in. -/
def kept (p : CheckParam) : List String :=
  let sorted := sortStringWithSuffixAsc p.binlogFiles
  if p.binlogStartFile = "" then sorted
  else sorted.dropWhile fun name =>
    name ≠ p.binlogStartFile ∧ numSuffix name ≤ numSuffix p.binlogStartFile

/-- What the check is there for. -/
structure Sound (base : String) (dir : String → Option BinlogFile) (p : CheckParam)
    (files : List String) : Prop where
  exist : ∀ f ∈ files, dir f ≠ none
  rising : files.IsChain fun a b => Rotate.number b = Rotate.number a + 1
  begins : if p.binlogStartFile = "" then
      ∀ start, p.startTime = some start →
        ∃ t : ℕ, (dir (files.headD "")).bind (·.startTime) = some t ∧ t ≤ start.seconds
    else files.head? = some p.binlogStartFile
  ends : ∀ stop, p.stopTime = some stop →
    ∃ t : ℕ, (dir (files.getLastD "")).bind (·.stopTime) = some t ∧ stop.seconds ≤ t
  filled : ∀ f ∈ files, f ∉ p.binlogFiles → f = serverName base (Rotate.number f)

/-- Nothing that is left is repeated, and what is filled in is written as wide as the first file. A
number that is no int is not checked. -/
def Numbered (base : String) (p : CheckParam) : Prop :=
  if ∀ name ∈ p.binlogFiles, Rotate.number name < 2 ^ 63 then
    ((kept p).map Rotate.number).Nodup ∧
      ∀ n : ℕ, Missing p.binlogFiles n →
        (p.binlogStartFile ≠ "" → numSuffix p.binlogStartFile ≤ n) →
        '.' ∉ base.toList ∧ Padded.digits (Rotate.afterDot
          ((sortStringWithSuffixAsc p.binlogFiles).headD "")).length n = Padded.digits 6 n
  else (kept p).IsChain fun a b => Rotate.number b = Rotate.number a + 1

/-- The texts of the times are in the order of the times. -/
structure Fit (zone : ℕ → Offset) (base : String) (dir : String → Option BinlogFile)
    (p : CheckParam) : Prop where
  numbered : Numbered base p
  begins : p.binlogStartFile = "" → ∀ start, p.startTime = some start →
    ∀ t : ℕ, (dir ((sortStringWithSuffixAsc p.binlogFiles).headD "")).bind (·.startTime) = some t →
      (rfc3339 (zone t) t ≤ start.text ↔ t ≤ start.seconds)
  ends : ∀ stop, p.stopTime = some stop →
    ∀ t : ℕ, (dir ((sortStringWithSuffixAsc p.binlogFiles).getLastD "")).bind (·.stopTime) = some t →
      (stop.text ≤ rfc3339 (zone t) t ↔ stop.seconds ≤ t)

section

variable {base name : String} {names : List String} {ints : List ℤ} {i : ℤ} {n : ℕ}
  {ds : List Char}

theorem passes (h : '.' ∉ ds) : ∀ c ∈ ds, decide (c ≠ '.') = true := by
  intro c hc
  have hne : c ≠ '.' := fun heq => h (heq ▸ hc)
  exact decide_eq_true hne

theorem no_dot (hds : ∀ c ∈ ds, c.isDigit = true) : '.' ∉ ds :=
  fun hmem => absurd (hds '.' hmem) (by decide)

theorem afterDot_named (hds : ∀ c ∈ ds, c.isDigit = true) :
    Rotate.afterDot (base ++ "." ++ String.ofList ds) = ds := by
  have hdots : '.' ∉ ds.reverse := fun hmem => no_dot hds (List.mem_reverse.mp hmem)
  have hlist : (base ++ "." ++ String.ofList ds).toList.reverse =
      ds.reverse ++ '.' :: base.toList.reverse := by
    simp
  rw [Rotate.afterDot, hlist, List.takeWhile_append_of_pos (passes hdots),
    List.takeWhile_cons_of_neg (by simp), List.append_nil, List.reverse_reverse]

theorem Named.digits (h : Named base name) : Rotate.afterDot name ≠ [] ∧
    (∀ c ∈ Rotate.afterDot name, c.isDigit = true) ∧
    name = base ++ "." ++ String.ofList (Rotate.afterDot name) := by
  obtain ⟨ds, hne, hdigits, rfl⟩ := h
  rw [afterDot_named hdigits]
  exact ⟨hne, hdigits, rfl⟩

theorem named_digits (base : String) (w n : ℕ) :
    Named base (base ++ "." ++ String.ofList (Padded.digits w n)) ∧
      Rotate.number (base ++ "." ++ String.ofList (Padded.digits w n)) = n := by
  refine ⟨⟨_, Padded.digits_ne_nil w n, fun c => Padded.digits_isDigit, rfl⟩, ?_⟩
  rw [Rotate.number, afterDot_named fun c => Padded.digits_isDigit, Padded.ofDigitChars_digits]

theorem ofList_ne_empty (hne : ds ≠ []) : String.ofList ds ≠ "" := by
  intro hempty
  apply hne
  have hlist := congrArg String.toList hempty
  rwa [String.toList_ofList] at hlist

theorem atoi_named (h : Named base name) : Numeral.atoi (String.ofList (Rotate.afterDot name)) =
    if Rotate.number name < 2 ^ 63 then some (Rotate.number name : ℤ) else none := by
  obtain ⟨hne, hdigits, -⟩ := h.digits
  rw [Numeral.atoi_digits (ofList_ne_empty hne) (by rwa [String.toList_ofList]),
    String.toList_ofList]
  rfl

/-- A number that is no int is sorted as zero. -/
theorem numSuffix_named (h : Named base name) :
    numSuffix name = if Rotate.number name < 2 ^ 63 then (Rotate.number name : ℤ) else 0 := by
  obtain ⟨hne, hdigits, -⟩ := h.digits
  rw [numSuffix, stringToInt, String.toList_ofList, Rotate.number]
  generalize Rotate.afterDot name = ds at hdigits
  rw [← Padded.ofDigitChars_dropWhile ds]
  have hrest : ∀ c ∈ ds.dropWhile (· = '0'), c.isDigit = true :=
    fun c hc => hdigits c ((List.dropWhile_sublist _).subset hc)
  generalize ds.dropWhile (· = '0') = cs at hrest
  rcases cs with _ | ⟨c, cs⟩
  · rfl
  · rw [Numeral.atoi_digits (ofList_ne_empty (List.cons_ne_nil c cs)) (by rwa [String.toList_ofList]),
      String.toList_ofList]
    split <;> rfl

theorem utf8Size_digit {c : Char} (h : c.isDigit = true) : c.utf8Size = 1 := by
  simp only [Char.isDigit, Bool.and_eq_true, decide_eq_true_eq, ge_iff_le] at h
  have hle : c.val ≤ 0x7F := UInt32.le_trans h.2 (by decide)
  rw [Char.utf8Size]
  exact if_pos hle

theorem sum_utf8Size (hds : ∀ c ∈ ds, c.isDigit = true) :
    (ds.map Char.utf8Size).sum = ds.length := by
  induction ds with
  | nil => rfl
  | cons d ds ih =>
    have hd := utf8Size_digit (hds d List.mem_cons_self)
    have hrest := ih fun c hc => hds c (List.mem_cons_of_mem d hc)
    rw [List.map_cons, List.sum_cons, List.length_cons]
    omega

/-- The text up to the first dot, and the digits as wide as what stands behind it. -/
theorem construct_split {front rest : List Char} (hlist : name.toList = front ++ '.' :: rest)
    (hfront : '.' ∉ front) (n : ℕ) : constructBinlogFilename name n =
      some (String.ofList front ++ "." ++ String.ofList
        (Padded.digits ((rest.takeWhile (· ≠ '.')).map Char.utf8Size).sum n)) := by
  rw [constructBinlogFilename, hlist, List.dropWhile_append_of_pos (passes hfront),
    List.takeWhile_append_of_pos (passes hfront), List.dropWhile_cons_of_neg (by simp),
    List.takeWhile_cons_of_neg (by simp), List.append_nil]
  rfl

/-- What is filled in has the number, and the server's name for it only where the base has no dot
and the digits are as many. -/
theorem construct_named (h : Named base name) : ∃ (front : String) (w : ℕ),
    (∀ n : ℕ, constructBinlogFilename name n =
      some (front ++ "." ++ String.ofList (Padded.digits w n))) ∧
    ∀ n : ℕ, front ++ "." ++ String.ofList (Padded.digits w n) = serverName base n ↔
      '.' ∉ base.toList ∧
        Padded.digits (Rotate.afterDot name).length n = Padded.digits 6 n := by
  obtain ⟨-, hdigits, heq⟩ := h.digits
  generalize Rotate.afterDot name = ds at hdigits heq
  subst heq
  have hlist : (base ++ "." ++ String.ofList ds).toList = base.toList ++ '.' :: ds := by
    simp
  by_cases hbase : '.' ∈ base.toList
  · obtain ⟨front, rest, hsplit, hfront⟩ := List.eq_append_cons_of_mem hbase
    rw [hsplit, List.append_assoc, List.cons_append] at hlist
    refine ⟨String.ofList front, _, construct_split hlist hfront, fun n => ?_⟩
    constructor
    · intro heq
      -- one dot in the one name, and at least two in the other
      have hcount := congrArg (fun s => s.toList.count '.') heq
      have hdots := List.count_eq_zero.mpr hfront
      simp only [serverName, String.toList_append, String.toList_ofList, List.count_append, hdots,
        hsplit, List.count_cons_self, List.count_eq_zero.mpr
          (no_dot fun c => Padded.digits_isDigit)] at hcount
      have hone : ".".toList.count '.' = 1 := rfl
      omega
    · rintro ⟨hdot, -⟩
      exact absurd hbase hdot
  · refine ⟨base, ds.length, fun n => ?_, fun n => ?_⟩
    · rw [construct_split hlist hbase,
        List.takeWhile_eq_self_iff.mpr (passes (no_dot hdigits)), sum_utf8Size hdigits,
        String.ofList_toList]
    · rw [serverName]
      constructor
      · intro heq
        refine ⟨hbase, ?_⟩
        have hds := congrArg Rotate.afterDot heq
        rwa [afterDot_named fun c => Padded.digits_isDigit,
          afterDot_named fun c => Padded.digits_isDigit] at hds
      · rintro ⟨-, heq⟩
        rw [heq]

/-! The numbers that are missing. -/

theorem headD_le (h : ints.Pairwise (· ≤ ·)) (hi : i ∈ ints) : ints.headD 0 ≤ i := by
  cases ints with
  | nil => cases hi
  | cons a ints =>
    rcases List.mem_cons.mp hi with rfl | hi
    · exact le_refl _
    · exact (List.pairwise_cons.mp h).1 i hi

theorem le_getLastD (h : ints.Pairwise (· ≤ ·)) (hi : i ∈ ints) : i ≤ ints.getLastD 0 := by
  induction ints using List.reverseRecOn with
  | nil => cases hi
  | append_singleton ints a _ =>
    rw [List.getLastD_concat]
    rcases List.mem_append.mp hi with hi | hi
    · exact (List.pairwise_append.mp h).2.2 i hi a (List.mem_singleton_self a)
    · exact le_of_eq (List.mem_singleton.mp hi)

theorem headD_mem (h : ints ≠ []) : ints.headD 0 ∈ ints := by
  cases ints with
  | nil => exact absurd rfl h
  | cons a ints => exact List.mem_cons_self

theorem getLastD_mem (h : ints ≠ []) : ints.getLastD 0 ∈ ints := by
  induction ints using List.reverseRecOn with
  | nil => exact absurd rfl h
  | append_singleton ints a _ =>
    rw [List.getLastD_concat]
    exact List.mem_append_right ints (List.mem_singleton_self a)

/-- As many different numbers as there are from the first to the last are all of them. -/
theorem mem_of_full (hnodup : ints.Nodup) (hsort : ints.Pairwise (· ≤ ·))
    (hfull : ints.getLastD 0 - ints.headD 0 + 1 = ints.length)
    (hlow : ints.headD 0 ≤ i) (hhigh : i ≤ ints.getLastD 0) : i ∈ ints := by
  have hsubset : ints.toFinset ⊆ Finset.Icc (ints.headD 0) (ints.getLastD 0) := by
    intro j hj
    have hj := List.mem_toFinset.mp hj
    exact Finset.mem_Icc.mpr ⟨headD_le hsort hj, le_getLastD hsort hj⟩
  have heq := Finset.eq_of_subset_of_card_le hsubset (by
    rw [Int.card_Icc, List.toFinset_card_of_nodup hnodup]
    omega)
  rw [← List.mem_toFinset, heq]
  exact Finset.mem_Icc.mpr ⟨hlow, hhigh⟩

/-- What is missing is what lies between two numbers and is none of them. -/
theorem mem_leakInts : i ∈ (checkConsecutiveInts ints).getD [] ↔
    i ∉ ints ∧ (∃ a ∈ ints, a ≤ i) ∧ ∃ b ∈ ints, i ≤ b := by
  unfold checkConsecutiveInts
  split
  case isTrue hlength =>
    constructor
    · exact fun hi => absurd hi List.not_mem_nil
    · rintro ⟨hi, ⟨a, ha, hai⟩, b, hb, hib⟩
      rcases ints with _ | ⟨c, _ | ⟨d, ints⟩⟩
      · cases ha
      · rw [List.mem_singleton] at ha hb hi
        omega
      · rw [List.length_cons, List.length_cons] at hlength
        omega
  case isFalse hlength =>
    have hmem : ∀ j, j ∈ ints.dedup.insertionSort (· ≤ ·) ↔ j ∈ ints := fun j => by
      rw [List.mem_insertionSort, List.mem_dedup]
    have hsort := List.pairwise_insertionSort (· ≤ ·) ints.dedup
    have hnodup := (List.perm_insertionSort (· ≤ ·) ints.dedup).nodup_iff.mpr (List.nodup_dedup ints)
    have hne : ints.dedup.insertionSort (· ≤ ·) ≠ [] := by
      cases ints with
      | nil => exact absurd (Nat.zero_le 1) hlength
      | cons a ints => exact List.ne_nil_of_mem ((hmem a).mpr List.mem_cons_self)
    generalize ints.dedup.insertionSort (· ≤ ·) = uniq at hmem hsort hnodup hne
    have hbetween : ((∃ a ∈ ints, a ≤ i) ∧ ∃ b ∈ ints, i ≤ b) ↔
        uniq.headD 0 ≤ i ∧ i ≤ uniq.getLastD 0 := by
      constructor
      · rintro ⟨⟨a, ha, hai⟩, b, hb, hib⟩
        exact ⟨(headD_le hsort ((hmem a).mpr ha)).trans hai,
          hib.trans (le_getLastD hsort ((hmem b).mpr hb))⟩
      · rintro ⟨hlow, hhigh⟩
        exact ⟨⟨_, (hmem _).mp (headD_mem hne), hlow⟩, _, (hmem _).mp (getLastD_mem hne), hhigh⟩
    rw [hbetween, ← hmem]
    dsimp only
    split
    case isTrue hfull =>
      constructor
      · exact fun hi => absurd hi List.not_mem_nil
      · rintro ⟨hi, hlow, hhigh⟩
        exact absurd (mem_of_full hnodup hsort hfull hlow hhigh) hi
    case isFalse hfull =>
      rw [Option.getD_some, List.mem_filter, List.mem_map, decide_eq_true_eq]
      constructor
      · rintro ⟨⟨k, hk, rfl⟩, hi⟩
        rw [List.mem_range] at hk
        exact ⟨hi, by omega, by omega⟩
      · rintro ⟨hi, hlow, hhigh⟩
        exact ⟨⟨(i - uniq.headD 0).toNat, List.mem_range.mpr (by omega), by omega⟩, hi⟩

theorem leakInts_nodup (ints : List ℤ) : ((checkConsecutiveInts ints).getD []).Nodup := by
  unfold checkConsecutiveInts
  split
  · exact List.nodup_nil
  · dsimp only
    split
    · exact List.nodup_nil
    · apply List.Nodup.filter
      apply List.Nodup.map _ List.nodup_range
      intro a b hab
      dsimp only at hab
      omega

/-! The files, with what is filled in. -/

theorem le_trans_suffix (a b c : String) (hab : decide (numSuffix a ≤ numSuffix b) = true)
    (hbc : decide (numSuffix b ≤ numSuffix c) = true) :
    decide (numSuffix a ≤ numSuffix c) = true := by
  rw [decide_eq_true_eq] at hab hbc ⊢
  omega

theorem le_total_suffix (a b : String) :
    (decide (numSuffix a ≤ numSuffix b) || decide (numSuffix b ≤ numSuffix a)) = true := by
  rw [Bool.or_eq_true, decide_eq_true_eq, decide_eq_true_eq]
  omega

theorem pairwise_sort (names : List String) :
    (sortStringWithSuffixAsc names).Pairwise fun a b => numSuffix a ≤ numSuffix b :=
  (List.pairwise_mergeSort le_trans_suffix le_total_suffix names).imp of_decide_eq_true

theorem perm_sort (names : List String) : (sortStringWithSuffixAsc names).Perm names :=
  List.mergeSort_perm _ _

theorem sort_sorted (h : names.Pairwise fun a b => numSuffix a ≤ numSuffix b) :
    sortStringWithSuffixAsc names = names :=
  List.mergeSort_of_pairwise (h.imp decide_eq_true)

/-- What is sorted keeps its order between others that are sorted into it. -/
theorem filter_sort_append {p : String → Bool} {fills : List String}
    (hsort : names.Pairwise fun a b => numSuffix a ≤ numSuffix b) (hnames : ∀ a ∈ names, p a = true)
    (hfills : ∀ a ∈ fills, p a = false) :
    (sortStringWithSuffixAsc (names ++ fills)).filter p = names := by
  have hsub : names.Sublist (sortStringWithSuffixAsc (names ++ fills)) :=
    List.sublist_mergeSort le_trans_suffix le_total_suffix (hsort.imp decide_eq_true)
      (List.sublist_append_left names fills)
  have hself : names.filter p = names := List.filter_eq_self.mpr hnames
  have hnone : fills.filter p = [] := by
    apply List.filter_eq_nil_iff.mpr
    intro a ha
    rw [hfills a ha]
    exact Bool.false_ne_true
  have hlength := ((perm_sort (names ++ fills)).filter p).length_eq
  rw [List.filter_append, hself, hnone, List.append_nil] at hlength
  have hkept := hsub.filter p
  rw [hself] at hkept
  exact (hkept.eq_of_length hlength.symm).symm

theorem mapM_eq_map {α β : Type*} {f : α → Option β} {g : α → β} {l : List α}
    (h : ∀ a ∈ l, f a = some (g a)) : l.mapM f = some (l.map g) := by
  induction l with
  | nil => rfl
  | cons a l ih =>
    rw [List.mapM_cons, h a List.mem_cons_self, ih fun b hb => h b (List.mem_cons_of_mem a hb)]
    rfl

theorem mapM_eq_none {α β : Type*} {f : α → Option β} {l : List α} {a : α} (ha : a ∈ l)
    (h : f a = none) : l.mapM f = none := by
  induction l with
  | nil => cases ha
  | cons b l ih =>
    rw [List.mapM_cons]
    rcases List.mem_cons.mp ha with rfl | ha
    · rw [h]
      rfl
    · rw [ih ha]
      cases f b <;> rfl

theorem atoi_suffixes (hnames : ∀ name ∈ names, Named base name) :
    isConsecutiveStrings (getSuffix names) =
      if ∀ name ∈ names, Rotate.number name < 2 ^ 63 then
        checkConsecutiveInts (names.map fun name => (Rotate.number name : ℤ))
      else some [] := by
  rw [isConsecutiveStrings, getSuffix, List.mapM_map]
  split_ifs with hbound
  · rw [mapM_eq_map (g := fun name => (Rotate.number name : ℤ)) fun name hname => ?_]
    rw [Function.comp_apply, atoi_named (hnames name hname), if_pos (hbound name hname)]
  · push Not at hbound
    obtain ⟨name, hname, hlarge⟩ := hbound
    rw [mapM_eq_none hname]
    rw [Function.comp_apply, atoi_named (hnames name hname), if_neg (by omega)]

/-- The files are the given ones and one for each number that is missing. -/
structure Filled (base : String) (dir : String → Option BinlogFile) (names files : List String) :
    Prop where
  suffix : ∀ f ∈ files, numSuffix f = Rotate.number f
  sorted : files.Pairwise fun a b => Rotate.number a ≤ Rotate.number b
  given : files.filter (· ∈ names) = sortStringWithSuffixAsc names
  fill : ∀ f ∈ files, f ∉ names → f ≠ "" ∧ dir f ≠ none ∧ Missing names (Rotate.number f) ∧
    (f = serverName base (Rotate.number f) ↔ '.' ∉ base.toList ∧
      Padded.digits (Rotate.afterDot ((sortStringWithSuffixAsc names).headD "")).length
        (Rotate.number f) = Padded.digits 6 (Rotate.number f))
  full : ∀ n, Missing names n → ∃ f ∈ files, f ∉ names ∧ Rotate.number f = n
  unique : ((files.filter (· ∉ names)).map Rotate.number).Nodup

theorem mem_leakInts_numbers {sorted : List String} (hmem : ∀ f, f ∈ sorted ↔ f ∈ names) :
    i ∈ (checkConsecutiveInts (sorted.map fun name => (Rotate.number name : ℤ))).getD [] ↔
      ∃ n : ℕ, i = (n : ℤ) ∧ Missing names n := by
  rw [mem_leakInts]
  constructor
  · rintro ⟨hi, ⟨a, ha, hai⟩, b, hb, hib⟩
    obtain ⟨f, hf, rfl⟩ := List.mem_map.mp ha
    obtain ⟨g, hg, rfl⟩ := List.mem_map.mp hb
    have hne : ∀ c ∈ names, (Rotate.number c : ℤ) ≠ i := by
      rintro c hc rfl
      exact hi (List.mem_map.mpr ⟨c, (hmem c).mpr hc, rfl⟩)
    have hf' := hne f ((hmem f).mp hf)
    have hg' := hne g ((hmem g).mp hg)
    refine ⟨i.toNat, by omega, ⟨f, (hmem f).mp hf, by omega⟩, ⟨g, (hmem g).mp hg, by omega⟩, ?_⟩
    intro c hc heq
    have hc' := hne c hc
    omega
  · rintro ⟨n, rfl, ⟨a, ha, han⟩, ⟨b, hb, hnb⟩, hne⟩
    refine ⟨fun hn => ?_, ⟨_, List.mem_map.mpr ⟨a, (hmem a).mpr ha, rfl⟩, by omega⟩,
      _, List.mem_map.mpr ⟨b, (hmem b).mpr hb, rfl⟩, by omega⟩
    obtain ⟨c, hc, heq⟩ := List.mem_map.mp hn
    exact hne c ((hmem c).mp hc) (by omega)

/-- What the numbers that are missing are filled with is found, or the files are refused. -/
theorem fillHoles_eq {dir : String → Option BinlogFile} {sorted files : List String}
    (hsort : sorted.Pairwise fun a b => numSuffix a ≤ numSuffix b)
    (h : fillHoles dir sorted = .ok files) : ∃ leakFiles,
    ((isConsecutiveStrings (getSuffix sorted)).getD []).mapM
      (constructBinlogFilename (sorted.headD "")) = some leakFiles ∧
    (∀ f ∈ leakFiles, dir f ≠ none) ∧ files = sortStringWithSuffixAsc (sorted ++ leakFiles) := by
  unfold fillHoles at h
  cases hleak : isConsecutiveStrings (getSuffix sorted) with
  | none =>
    rw [hleak] at h
    refine ⟨[], rfl, fun f hf => absurd hf List.not_mem_nil, ?_⟩
    rw [List.append_nil, sort_sorted hsort]
    exact (Except.ok.inj h).symm
  | some leakInts =>
    rw [hleak] at h
    dsimp only at h
    cases hfiles : leakInts.mapM (constructBinlogFilename (sorted.headD "")) with
    | none =>
      rw [hfiles] at h
      cases h
    | some leakFiles =>
      rw [hfiles] at h
      dsimp only at h
      split at h
      case isFalse => cases h
      case isTrue hexist =>
        refine ⟨leakFiles, hfiles, fun f hf hnone => ?_, (Except.ok.inj h).symm⟩
        have hmissing := List.filter_eq_nil_iff.mp hexist f hf
        rw [hnone] at hmissing
        exact hmissing rfl

/-- There is one for each number that is missing. -/
theorem leakFiles_numbers {leakInts : List ℤ} {leakFiles : List String}
    (hleak : ∀ i, i ∈ leakInts ↔ ∃ n : ℕ, i = (n : ℤ) ∧ Missing names n) (hnodup : leakInts.Nodup)
    (hname : Named base name)
    (hmap : leakInts.mapM (constructBinlogFilename name) = some leakFiles) :
    (∀ f ∈ leakFiles, (∃ front, Named front f) ∧ Missing names (Rotate.number f) ∧
      (f = serverName base (Rotate.number f) ↔ '.' ∉ base.toList ∧
        Padded.digits (Rotate.afterDot name).length (Rotate.number f) =
          Padded.digits 6 (Rotate.number f))) ∧
    (∀ n, Missing names n → ∃ f ∈ leakFiles, Rotate.number f = n) ∧
    (leakFiles.map Rotate.number).Nodup := by
  obtain ⟨front, w, hconstruct, hserver⟩ := construct_named hname
  rw [mapM_eq_map (g := fun i => front ++ "." ++ String.ofList (Padded.digits w i.toNat))
    fun i hi => ?construct] at hmap
  case construct =>
    obtain ⟨n, rfl, -⟩ := (hleak i).mp hi
    exact hconstruct n
  obtain rfl := (Option.some.inj hmap).symm
  have hnumber := fun n => (named_digits front w n).2
  refine ⟨fun f hf => ?_, fun n hn => ?_, ?_⟩
  · obtain ⟨i, hi, rfl⟩ := List.mem_map.mp hf
    obtain ⟨n, rfl, hn⟩ := (hleak i).mp hi
    rw [Int.toNat_natCast, hnumber]
    exact ⟨⟨front, (named_digits front w n).1⟩, hn, hserver n⟩
  · exact ⟨_, List.mem_map.mpr ⟨n, (hleak n).mpr ⟨n, rfl, hn⟩, rfl⟩, hnumber n⟩
  · rw [List.map_map]
    apply hnodup.map_on
    intro i hi j hj hij
    obtain ⟨n, rfl, -⟩ := (hleak i).mp hi
    obtain ⟨m, rfl, -⟩ := (hleak j).mp hj
    rw [Function.comp_apply, Function.comp_apply, hnumber, hnumber] at hij
    omega

theorem headD_mem_of_ne {sorted : List String} (h : sorted ≠ []) : sorted.headD "" ∈ sorted := by
  cases sorted with
  | nil => exact absurd rfl h
  | cons a sorted => exact List.mem_cons_self

theorem Named.ne_empty (h : Named base name) : name ≠ "" := by
  obtain ⟨ds, -, -, rfl⟩ := h
  intro hempty
  have hlist := congrArg String.toList hempty
  rw [String.toList_append, String.toList_append] at hlist
  simp at hlist

theorem filled_of_bound {dir : String → Option BinlogFile} {files : List String}
    (hne : names ≠ []) (hnames : ∀ name ∈ names, Named base name)
    (hbound : ∀ name ∈ names, Rotate.number name < 2 ^ 63)
    (h : fillHoles dir (sortStringWithSuffixAsc names) = .ok files) :
    Filled base dir names files := by
  have hmem : ∀ f, f ∈ sortStringWithSuffixAsc names ↔ f ∈ names :=
    fun f => (perm_sort names).mem_iff
  obtain ⟨a, ha⟩ := List.exists_mem_of_ne_nil names hne
  have hfirst := headD_mem_of_ne (List.ne_nil_of_mem ((hmem a).mpr ha))
  obtain ⟨leakFiles, hmap, hexist, rfl⟩ := fillHoles_eq (pairwise_sort names) h
  rw [atoi_suffixes fun f hf => hnames f ((hmem f).mp hf),
    if_pos fun f hf => hbound f ((hmem f).mp hf)] at hmap
  obtain ⟨hleak, hfull, hunique⟩ := leakFiles_numbers (fun i => mem_leakInts_numbers hmem)
    (leakInts_nodup _) (hnames _ ((hmem _).mp hfirst)) hmap
  have hapart : ∀ f ∈ leakFiles, f ∉ names :=
    fun f hf hgiven => (hleak f hf).2.1.2.2 f hgiven rfl
  have hfiles : ∀ f, f ∈ sortStringWithSuffixAsc (sortStringWithSuffixAsc names ++ leakFiles) ↔
      f ∈ names ∨ f ∈ leakFiles := fun f => by
    rw [(perm_sort _).mem_iff, List.mem_append, hmem]
  have hsuffix : ∀ f, f ∈ names ∨ f ∈ leakFiles → numSuffix f = Rotate.number f := by
    rintro f (hf | hf)
    · rw [numSuffix_named (hnames f hf), if_pos (hbound f hf)]
    · obtain ⟨⟨front, hnamed⟩, ⟨-, ⟨b, hb, hlt⟩, -⟩, -⟩ := hleak f hf
      rw [numSuffix_named hnamed, if_pos (hlt.trans (hbound b hb))]
  refine ⟨fun f hf => hsuffix f ((hfiles f).mp hf), ?_, ?_, fun f hf hnew => ?_, fun n hn => ?_, ?_⟩
  · apply (pairwise_sort _).imp_of_mem
    intro f g hf hg hle
    have hf' := hsuffix f ((hfiles f).mp hf)
    have hg' := hsuffix g ((hfiles g).mp hg)
    omega
  · apply filter_sort_append (pairwise_sort names)
    · exact fun f hf => decide_eq_true ((hmem f).mp hf)
    · exact fun f hf => decide_eq_false (hapart f hf)
  · have hleakFile := ((hfiles f).mp hf).resolve_left hnew
    obtain ⟨⟨front, hnamed⟩, hmissing, hserver⟩ := hleak f hleakFile
    exact ⟨hnamed.ne_empty, hexist f hleakFile, hmissing, hserver⟩
  · obtain ⟨f, hf, heq⟩ := hfull n hn
    exact ⟨f, (hfiles f).mpr (Or.inr hf), hapart f hf, heq⟩
  · have hperm := (perm_sort (sortStringWithSuffixAsc names ++ leakFiles)).filter (· ∉ names)
    have hnone : (sortStringWithSuffixAsc names).filter (· ∉ names) = [] := by
      apply List.filter_eq_nil_iff.mpr
      intro f hf
      simpa using (hmem f).mp hf
    have hself : leakFiles.filter (· ∉ names) = leakFiles :=
      List.filter_eq_self.mpr fun f hf => decide_eq_true (hapart f hf)
    rw [List.filter_append, hnone, hself, List.nil_append] at hperm
    exact (hperm.map Rotate.number).nodup_iff.mpr hunique

section Filled

variable {dir : String → Option BinlogFile} {files front rest : List String}

theorem Filled.mem_of_given (h : Filled base dir names files) (hname : name ∈ names) :
    name ∈ files := by
  have hmem := (perm_sort names).mem_iff.mpr hname
  rw [← h.given] at hmem
  exact (List.mem_filter.mp hmem).1

/-- Every number from that of one file to that of another has a file. -/
theorem Filled.between (h : Filled base dir names files) {a b : String} (ha : a ∈ files)
    (hb : b ∈ files) (hlow : Rotate.number a ≤ n) (hhigh : n ≤ Rotate.number b) :
    ∃ c ∈ files, Rotate.number c = n := by
  by_cases hn : ∃ c ∈ names, Rotate.number c = n
  · obtain ⟨c, hc, heq⟩ := hn
    exact ⟨c, h.mem_of_given hc, heq⟩
  · push Not at hn
    have hfirst : ∃ a ∈ names, Rotate.number a < n := by
      by_cases hgiven : a ∈ names
      · have hne := hn a hgiven
        exact ⟨a, hgiven, by omega⟩
      · obtain ⟨-, -, ⟨⟨a', ha', hlt⟩, -, -⟩, -⟩ := h.fill a ha hgiven
        exact ⟨a', ha', by omega⟩
    have hlast : ∃ b ∈ names, n < Rotate.number b := by
      by_cases hgiven : b ∈ names
      · have hne := hn b hgiven
        exact ⟨b, hgiven, by omega⟩
      · obtain ⟨-, -, ⟨-, ⟨b', hb', hlt⟩, -⟩, -⟩ := h.fill b hb hgiven
        exact ⟨b', hb', by omega⟩
    obtain ⟨f, hf, -, heq⟩ := h.full n ⟨hfirst, hlast, hn⟩
    exact ⟨f, hf, heq⟩

/-- From one file on, the numbers rise by one exactly where none is repeated. -/
theorem Filled.rising_iff (h : Filled base dir names files) (hrest : rest <:+ files) :
    (rest.IsChain fun a b => Rotate.number b = Rotate.number a + 1) ↔
      (rest.map Rotate.number).Nodup := by
  have hchain := Ends.isChain_of_full h.sorted fun a ha b hb n hlow hhigh =>
    h.between ha hb hlow hhigh
  exact Ends.rising_iff_nodup (h.sorted.sublist hrest.sublist) (hchain.suffix hrest)

theorem Filled.nodup_iff (h : Filled base dir names files) (hrest : rest <:+ files) :
    (rest.map Rotate.number).Nodup ↔
      ((rest.filter (· ∈ names)).map Rotate.number).Nodup := by
  have hperm := (List.filter_append_perm (· ∈ names) rest).map Rotate.number
  have hnew : ((rest.filter fun f => !decide (f ∈ names)).map Rotate.number).Nodup := by
    refine h.unique.sublist (List.Sublist.map _ ?_)
    have hsub := hrest.sublist.filter (· ∉ names)
    simpa using hsub
  rw [← hperm.nodup_iff, List.map_append, List.nodup_append]
  constructor
  · exact fun hall => hall.1
  · intro hgiven
    refine ⟨hgiven, hnew, ?_⟩
    rintro m hm k hk rfl
    obtain ⟨a, ha, rfl⟩ := List.mem_map.mp hm
    obtain ⟨f, hf, heq⟩ := List.mem_map.mp hk
    obtain ⟨hf, hfnew⟩ := List.mem_filter.mp hf
    obtain ⟨-, -, ⟨-, -, hne⟩, -⟩ := h.fill f (hrest.subset hf) (by simpa using hfnew)
    exact hne a (by simpa using (List.mem_filter.mp ha).2) heq.symm

/-- The first file is a given one, and so is the last. -/
theorem Filled.ends (h : Filled base dir names files) :
    files.headD "" = (sortStringWithSuffixAsc names).headD "" ∧
      files.getLastD "" = (sortStringWithSuffixAsc names).getLastD "" := by
  rw [← h.given]
  constructor
  · cases files with
    | nil => rfl
    | cons f files =>
      have hgiven : f ∈ names := by
        by_contra hnew
        obtain ⟨-, -, ⟨⟨a, ha, hlt⟩, -, -⟩, -⟩ := h.fill f List.mem_cons_self hnew
        rcases List.mem_cons.mp (h.mem_of_given ha) with rfl | hmem
        · exact hnew ha
        · have hle := (List.pairwise_cons.mp h.sorted).1 a hmem
          omega
      have hkeep : (f :: files).filter (· ∈ names) = f :: files.filter (· ∈ names) :=
        List.filter_cons_of_pos (by simpa using hgiven)
      rw [hkeep]
      rfl
  · induction files using List.reverseRecOn with
    | nil => rfl
    | append_singleton files f _ =>
      have hgiven : f ∈ names := by
        by_contra hnew
        obtain ⟨-, -, ⟨-, ⟨b, hb, hlt⟩, -⟩, -⟩ := h.fill f (by simp) hnew
        rcases List.mem_append.mp (h.mem_of_given hb) with hmem | hmem
        · have hle := (List.pairwise_append.mp h.sorted).2.2 b hmem f (List.mem_singleton_self f)
          omega
        · exact hnew (List.mem_singleton.mp hmem ▸ hb)
      have hkeep : [f].filter (· ∈ names) = [f] :=
        List.filter_eq_self.mpr fun g hg => decide_eq_true (List.mem_singleton.mp hg ▸ hgiven)
      rw [List.filter_append, hkeep, List.getLastD_concat, List.getLastD_concat]

end Filled

section

variable {dir : String → Option BinlogFile} {p : CheckParam} {files front rest : List String}

theorem fromStart_ok (hne : ∀ f ∈ files, f ≠ "") (h : fromStart p files = .ok rest) :
    if p.binlogStartFile = "" then rest = files
    else ∃ front, files = front ++ rest ∧ p.binlogStartFile ∉ front ∧
      rest.head? = some p.binlogStartFile := by
  unfold fromStart at h
  split_ifs at h with hstart hmem
  · rw [if_pos hstart]
    exact (Except.ok.inj h).symm
  · rw [if_neg hstart]
    obtain ⟨front, after, rfl, hfront⟩ := List.eq_append_cons_of_mem hmem
    have hpass : ∀ f ∈ front, decide (f ≠ p.binlogStartFile) = true := by
      intro f hf
      have hf' : f ≠ p.binlogStartFile := fun heq => hfront (heq ▸ hf)
      exact decide_eq_true hf'
    rw [List.dropWhile_append_of_pos hpass, List.dropWhile_cons_of_neg (by simp),
      List.filter_eq_self.mpr fun f hf => decide_eq_true
        (hne f (List.mem_append_right front hf))] at h
    obtain rfl := Except.ok.inj h
    exact ⟨front, rfl, hfront, rfl⟩

theorem dropWhile_eq_self {q : String → Bool} (h : ∀ f, rest.head? = some f → q f = false) :
    rest.dropWhile q = rest := by
  cases rest with
  | nil => rfl
  | cons f rest => rw [List.dropWhile_cons_of_neg (by rw [h f rfl]; exact Bool.false_ne_true)]

/-- What is filled in leaves the given files as they are. -/
theorem filter_fromStart (hsort : files.Pairwise fun a b => numSuffix a ≤ numSuffix b)
    (hgiven : files.filter (· ∈ p.binlogFiles) = sortStringWithSuffixAsc p.binlogFiles)
    (hnew : ∀ f ∈ files, f ∉ p.binlogFiles → ∀ g ∈ p.binlogFiles, numSuffix g ≠ numSuffix f)
    (hstart : if p.binlogStartFile = "" then rest = files
      else ∃ front, files = front ++ rest ∧ p.binlogStartFile ∉ front ∧
        rest.head? = some p.binlogStartFile) :
    rest.filter (· ∈ p.binlogFiles) = kept p := by
  unfold kept
  dsimp only
  split_ifs at hstart ⊢ with hempty
  · rw [hstart, hgiven]
  · obtain ⟨front, rfl, hfront, hhead⟩ := hstart
    obtain ⟨-, hrest, hacross⟩ := List.pairwise_append.mp hsort
    rcases rest with _ | ⟨start, after⟩
    · cases hhead
    obtain rfl : start = p.binlogStartFile := Option.some.inj hhead
    have hdrop : ∀ f ∈ front.filter (· ∈ p.binlogFiles), decide
        (f ≠ p.binlogStartFile ∧ numSuffix f ≤ numSuffix p.binlogStartFile) = true := by
      intro f hf
      have hf := (List.mem_filter.mp hf).1
      have hne : f ≠ p.binlogStartFile := fun heq => hfront (heq ▸ hf)
      exact decide_eq_true ⟨hne, hacross f hf _ List.mem_cons_self⟩
    rw [← hgiven, List.filter_append, List.dropWhile_append_of_pos hdrop]
    symm
    apply dropWhile_eq_self
    intro f hf
    apply decide_eq_false
    rintro ⟨hne, hle⟩
    by_cases hmem : p.binlogStartFile ∈ p.binlogFiles
    · rw [List.filter_cons_of_pos (by simpa using hmem)] at hf
      exact hne (Option.some.inj hf).symm
    · rw [List.filter_cons_of_neg (by simpa using hmem)] at hf
      obtain ⟨hafter, hf⟩ := List.mem_filter.mp (List.mem_of_head? hf)
      have hge := (List.pairwise_cons.mp hrest).1 f hafter
      exact hnew _ (List.mem_append_right front List.mem_cons_self) hmem f (by simpa using hf)
        (by omega)

theorem bind_ok {α β : Type} {x : Except CheckError α} {f : α → Except CheckError β} {b : β}
    (h : x >>= f = .ok b) : ∃ a, x = .ok a ∧ f a = .ok b := by
  cases x with
  | error e => cases h
  | ok a => exact ⟨a, rfl, h⟩

/-- Where the times are in order, the text of a file's time is not behind that of the start, and not
before that of the stop. -/
theorem checkTimeRange_ok {zone : ℕ → Offset} (h : checkTimeRange zone dir p files = .ok ()) :
    (p.binlogStartFile = "" → ∀ start, p.startTime = some start →
      ∃ t : ℕ, (dir (files.headD "")).bind (·.startTime) = some t ∧
        rfc3339 (zone t) t ≤ start.text) ∧
    ∀ stop, p.stopTime = some stop →
      ∃ t : ℕ, (dir (files.getLastD "")).bind (·.stopTime) = some t ∧
        stop.text ≤ rfc3339 (zone t) t := by
  obtain ⟨_, -, h⟩ := bind_ok h
  obtain ⟨_, hfirst, hlast⟩ := bind_ok h
  constructor
  · intro hempty start hstart
    unfold checkFirst at hfirst
    simp only [hstart, hempty, ne_eq, not_true_eq_false, if_false] at hfirst
    cases ht : (dir (files.headD "")).bind (·.startTime) with
    | none =>
      rw [ht] at hfirst
      cases hfirst
    | some t =>
      rw [ht] at hfirst
      dsimp only at hfirst
      split at hfirst
      · cases hfirst
      case isFalse hle => exact ⟨t, rfl, not_lt.mp hle⟩
  · intro stop hstop
    unfold checkLast at hlast
    simp only [hstop] at hlast
    cases ht : (dir (files.getLastD "")).bind (·.stopTime) with
    | none =>
      rw [ht] at hlast
      cases hlast
    | some t =>
      rw [ht] at hlast
      dsimp only at hlast
      split at hlast
      · cases hlast
      case isFalse hle => exact ⟨t, rfl, not_lt.mp hle⟩

theorem checkBinlogFiles_ok {zone : ℕ → Offset} (h : checkBinlogFiles zone dir p = .ok files) :
    p.binlogFiles ≠ [] ∧ (∀ f ∈ p.binlogFiles, dir f ≠ none) ∧
    ∃ filled, fillHoles dir (sortStringWithSuffixAsc p.binlogFiles) = .ok filled ∧
      fromStart p filled = .ok files ∧ checkTimeRange zone dir p files = .ok () := by
  unfold checkBinlogFiles at h
  dsimp only at h
  split at h
  · cases h
  case isFalse hne =>
    split at h
    · cases h
    case isFalse hmissing =>
      have hexist : ∀ f ∈ p.binlogFiles, dir f ≠ none := by
        intro f hf hnone
        have hall := List.filter_eq_nil_iff.mp (not_not.mp hmissing) f hf
        rw [hnone] at hall
        exact hall rfl
      refine ⟨hne, hexist, ?_⟩
      obtain ⟨filled, hfill, h⟩ := bind_ok h
      obtain ⟨rest, hfrom, h⟩ := bind_ok h
      obtain ⟨_, htime, h⟩ := bind_ok h
      obtain rfl : rest = files := Except.ok.inj h
      exact ⟨filled, hfill, hfrom, htime⟩

/-- The files that are left are the last ones, with the last of them all. -/
theorem suffix_of_start (hne : files ≠ [])
    (hstart : if p.binlogStartFile = "" then rest = files
      else ∃ front, files = front ++ rest ∧ p.binlogStartFile ∉ front ∧
        rest.head? = some p.binlogStartFile) :
    rest <:+ files ∧ rest.getLastD "" = files.getLastD "" := by
  split_ifs at hstart
  · subst hstart
    exact ⟨List.suffix_refl _, rfl⟩
  · obtain ⟨front, rfl, -, hhead⟩ := hstart
    refine ⟨List.suffix_append front rest, ?_⟩
    induction rest using List.reverseRecOn with
    | nil => cases hhead
    | append_singleton rest f _ =>
      rw [← List.append_assoc, List.getLastD_concat, List.getLastD_concat]

theorem Filled.numbered_iff (h : Filled base dir p.binlogFiles files)
    (hbound : ∀ name ∈ p.binlogFiles, Rotate.number name < 2 ^ 63)
    (hne : files ≠ [])
    (hstart : if p.binlogStartFile = "" then rest = files
      else ∃ front, files = front ++ rest ∧ p.binlogStartFile ∉ front ∧
        rest.head? = some p.binlogStartFile) :
    ((rest.IsChain fun a b => Rotate.number b = Rotate.number a + 1) ∧
      ∀ f ∈ rest, f ∉ p.binlogFiles → f = serverName base (Rotate.number f)) ↔
      Numbered base p := by
  have hsuffix := (suffix_of_start hne hstart).1
  have hkept : rest.filter (· ∈ p.binlogFiles) = kept p := by
    refine filter_fromStart (h.sorted.imp_of_mem fun {f g} hf hg hle => ?_) h.given
      (fun f hf hnew g hg => ?_) hstart
    · rw [h.suffix f hf, h.suffix g hg]
      omega
    · obtain ⟨-, -, ⟨-, -, hapart⟩, -⟩ := h.fill f hf hnew
      have hg' := hapart g hg
      rw [h.suffix f hf, h.suffix g (h.mem_of_given hg)]
      omega
  rw [h.rising_iff hsuffix, h.nodup_iff hsuffix, hkept, Numbered, if_pos hbound]
  refine and_congr_right fun _ => ⟨fun hserver n hn hlow => ?_, fun hwide f hf hnew => ?_⟩
  · obtain ⟨f, hf, hnew, rfl⟩ := h.full n hn
    refine (h.fill f hf hnew).2.2.2.mp (hserver f ?_ hnew)
    split_ifs at hstart with hempty
    · rwa [hstart]
    · obtain ⟨front, rfl, hfront, hhead⟩ := hstart
      rcases List.mem_append.mp hf with hbefore | hf'
      · -- a file before the start file has a smaller number, for no number is filled in twice
        exfalso
        have hmem := List.mem_append_right front (List.mem_of_head? hhead)
        have hle := (List.pairwise_append.mp h.sorted).2.2 f hbefore _ (List.mem_of_head? hhead)
        have hge := hlow hempty
        rw [h.suffix _ hmem] at hge
        have heq : Rotate.number f = Rotate.number p.binlogStartFile := by omega
        by_cases hgiven : p.binlogStartFile ∈ p.binlogFiles
        · exact hn.2.2 _ hgiven heq.symm
        · have hsame := List.inj_on_of_nodup_map h.unique
            (List.mem_filter.mpr ⟨hf, decide_eq_true hnew⟩)
            (List.mem_filter.mpr ⟨hmem, decide_eq_true hgiven⟩) heq
          exact hfront (hsame ▸ hbefore)
      · exact hf'
  · obtain ⟨-, -, hmissing, hserver⟩ := h.fill f (hsuffix.subset hf) hnew
    refine hserver.mpr (hwide _ hmissing fun hnonempty => ?_)
    rw [if_neg hnonempty] at hstart
    obtain ⟨front, rfl, -, hhead⟩ := hstart
    rw [h.suffix _ (List.mem_append_right front (List.mem_of_head? hhead))]
    rcases rest with _ | ⟨start, after⟩
    · cases hhead
    obtain rfl := Option.some.inj hhead
    rcases List.mem_cons.mp hf with rfl | hf
    · exact le_refl _
    · have hle := (List.pairwise_cons.mp (List.pairwise_append.mp h.sorted).2.1).1 f hf
      omega

/-- The time that is read is before the other as its text is. -/
theorem exists_iff {o : Option ℕ} {q r : ℕ → Prop} (h : ∃ t, o = some t ∧ q t) :
    (∃ t, o = some t ∧ r t) ↔ ∀ t, o = some t → (q t ↔ r t) := by
  obtain ⟨t, rfl, hq⟩ := h
  constructor
  · rintro ⟨_, ⟨⟩, hr⟩ _ ⟨⟩
    exact iff_of_true hq hr
  · intro hiff
    exact ⟨t, rfl, (hiff t rfl).mp hq⟩

/-- Where a number is no int, nothing is filled in. -/
theorem fillHoles_unchecked (hnames : ∀ name ∈ names, Named base name)
    (hbound : ¬ ∀ name ∈ names, Rotate.number name < 2 ^ 63)
    (h : fillHoles dir (sortStringWithSuffixAsc names) = .ok files) :
    files = sortStringWithSuffixAsc names := by
  have hmem : ∀ f, f ∈ sortStringWithSuffixAsc names ↔ f ∈ names :=
    fun f => (perm_sort names).mem_iff
  obtain ⟨leakFiles, hmap, -, rfl⟩ := fillHoles_eq (pairwise_sort names) h
  rw [atoi_suffixes fun f hf => hnames f ((hmem f).mp hf),
    if_neg fun hall => hbound fun f hf => hall f ((hmem f).mpr hf)] at hmap
  obtain rfl : [] = leakFiles := Option.some.inj hmap
  rw [List.append_nil, sort_sorted (pairwise_sort names)]

theorem unchecked_numbered_iff
    (hbound : ¬ ∀ name ∈ p.binlogFiles, Rotate.number name < 2 ^ 63)
    (hstart : if p.binlogStartFile = "" then rest = sortStringWithSuffixAsc p.binlogFiles
      else ∃ front, sortStringWithSuffixAsc p.binlogFiles = front ++ rest ∧
        p.binlogStartFile ∉ front ∧ rest.head? = some p.binlogStartFile)
    (hsuffix : rest <:+ sortStringWithSuffixAsc p.binlogFiles) :
    ((rest.IsChain fun a b => Rotate.number b = Rotate.number a + 1) ∧
      ∀ f ∈ rest, f ∉ p.binlogFiles → f = serverName base (Rotate.number f)) ↔
      Numbered base p := by
  have hmem : ∀ f ∈ sortStringWithSuffixAsc p.binlogFiles, f ∈ p.binlogFiles :=
    fun f hf => (perm_sort p.binlogFiles).mem_iff.mp hf
  have hself : ∀ l, l <:+ sortStringWithSuffixAsc p.binlogFiles →
      l.filter (· ∈ p.binlogFiles) = l := fun l hl =>
    List.filter_eq_self.mpr fun f hf => decide_eq_true (hmem f (hl.subset hf))
  have hkept := filter_fromStart (pairwise_sort p.binlogFiles) (hself _ (List.suffix_refl _))
    (fun f hf hnew => absurd (hmem f hf) hnew) hstart
  rw [hself rest hsuffix] at hkept
  rw [Numbered, if_neg hbound, ← hkept]
  exact and_iff_left fun f hf hnew => absurd (hmem f (hsuffix.subset hf)) hnew

end

end

end Restore.PreCheck
