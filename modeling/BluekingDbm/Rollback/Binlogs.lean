import BluekingDbm.Library.Numeral
import Mathlib.Data.Finset.Max
import Mathlib.Data.List.Dedup
import Mathlib.Data.List.Pairwise
import Mathlib.Data.List.Sort
import Mathlib.Data.Int.Order.Basic

/-! The binlogs of a source instance, and the chain of them that the planner selects. -/
namespace Rollback

open Numeral

/-- `\d{1,3}(?:\.\d{1,3}){3}`. -/
def isIp (digit : Char → Bool) (s : String) : Bool :=
  let parts := Text.split s '.'
  parts.length == 4 && parts.all fun part =>
    1 ≤ part.toList.length && part.toList.length ≤ 3 && part.toList.all digit

def isNumber (digit : Char → Bool) (s : String) : Bool := s ≠ "" && s.toList.all digit

/-- `\d{14}\.log\.(?:zst|lzo)`. -/
def isTimeAndSuffix (digit : Char → Bool) (s : String) : Bool :=
  (s.toList.take 14).length == 14 && (s.toList.take 14).all digit &&
    (String.ofList (s.toList.drop 14) == ".log.zst" ||
      String.ofList (s.toList.drop 14) == ".log.lzo")

/-- What the pattern asks of the fields behind the ip: so many numbers, then the time. -/
def matchFields (digit : Char → Bool) (count : ℕ) (ip : String) (fields : List String) :
    Option (String × List String) :=
  if fields.length = count + 1 ∧ (fields.take count).all (isNumber digit) ∧
      isTimeAndSuffix digit (fields.getLastD "") then some (ip, fields.take count)
  else none

/-- The ip of a binlog name, empty if it has none, and the numbers behind it: the port and the
index, with the kvstore between them for Tendisplus. No field can hold a dash. -/
def matchBinlogName (digit : Char → Bool) (count : ℕ) (name : String) :
    Option (String × List String) :=
  match Text.split name '-' with
  | "binlog" :: first :: fields =>
    if isIp digit first then matchFields digit count first fields
    else matchFields digit count "" (first :: fields)
  | _ => none

/-- The last component of a path. -/
def baseName (path : String) : String := (Text.split path '/').getLastD ""

/-- `$` also matches before a line end that closes the text. -/
def withoutLineEnd (name : String) : String :=
  if name.toList.getLast? = some '\n' then String.ofList name.toList.dropLast else name

def isPyDigit (c : Char) : Bool := (Py.digitValue c).isSome

def binlogIndex (fileName : String) : Option ℤ :=
  (matchBinlogName isPyDigit 2 (withoutLineEnd (baseName fileName))).bind fun m =>
    Py.int (m.2.getD 1 "")

/-- The kvstore and the index of a Tendisplus binlog. -/
def plusBinlogPosition (fileName : String) : Option (ℤ × ℤ) :=
  (matchBinlogName isPyDigit 3 (withoutLineEnd (baseName fileName))).bind fun m =>
    (Py.int (m.2.getD 1 "")).bind fun kvstore =>
      (Py.int (m.2.getD 2 "")).map fun index => (kvstore, index)

/-- A binlog that the locator found; its time is the one in its name. -/
structure BinlogRecord where
  fileName : String
  beginTime : ℤ
  kvstore : ℤ
  index : ℤ
  deriving DecidableEq, Repr

/-- The record of a file of the engine; a name that is not a binlog of it gives none. -/
def binlogRecord (plus : Bool) (file : String) (beginTime : ℤ) : Option BinlogRecord :=
  let fileName := baseName file
  if plus then
    (plusBinlogPosition fileName).map fun p => ⟨fileName, beginTime, p.1, p.2⟩
  else
    (binlogIndex fileName).map fun index => ⟨fileName, beginTime, 0, index⟩

/-- The records that the locator hands to the planner, each file with the time in its name. -/
def binlogRecords (plus : Bool) (files : List (String × ℤ)) : List BinlogRecord :=
  files.filterMap fun f => binlogRecord plus f.1 f.2

/-- One record for each name: the last one, in the place of the first. -/
def uniqueByName (binlogs : List BinlogRecord) : List BinlogRecord :=
  binlogs.foldl (fun unique b =>
    if unique.any fun u => u.fileName == b.fileName then
      unique.map fun u => if u.fileName = b.fileName then b else u
    else unique ++ [b]) []

/-- The order by index and name. -/
def binlogLe (a b : BinlogRecord) : Bool :=
  a.index < b.index || (a.index == b.index && a.fileName ≤ b.fileName)

def timeLe (a b : BinlogRecord) : Bool :=
  a.beginTime < b.beginTime || (a.beginTime == b.beginTime && a.index ≤ b.index)

/-- The indexes between the ends of a chain that are not in it. -/
def missingIndexes (chain : List BinlogRecord) : List ℤ :=
  match chain.head?, chain.getLast? with
  | some first, some last =>
    ((List.range (last.index + 1 - first.index).toNat).map fun n => first.index + Int.ofNat n).filter
      fun index => index ∉ chain.map BinlogRecord.index
  | _, _ => []

inductive ChainError
  | head
  | tail
  | few
  | duplicated (indexes : List ℤ)
  | backwards (missing : List ℤ)
  | gaps (missing : List ℤ)
  deriving DecidableEq

structure Gaps where
  missingCount : ℕ
  missing : List ℤ
  deriving DecidableEq

def GAP_SAMPLE_SIZE : ℕ := 10

def selectBinlogChain (binlogs : List BinlogRecord) (fullStart recoverAt : ℤ)
    (allowNonconsecutive : Bool) : Except ChainError (List BinlogRecord × Option Gaps) :=
  let unique := uniqueByName binlogs
  let heads := (unique.filter fun b => b.beginTime ≤ fullStart).map BinlogRecord.beginTime
  let tails := (unique.filter fun b => recoverAt ≤ b.beginTime).map BinlogRecord.beginTime
  match heads.max?, tails.min? with
  | none, _ => .error .head
  | some _, none => .error .tail
  | some headTime, some tailTime =>
    let chain := (unique.filter fun b =>
      headTime ≤ b.beginTime ∧ b.beginTime ≤ tailTime).mergeSort binlogLe
    let indexes := chain.map BinlogRecord.index
    if chain.length < 2 then .error .few
    else if ¬ indexes.Nodup then
      .error (.duplicated (indexes.dedup.filter fun index => 1 < indexes.count index))
    else
      let missing := missingIndexes chain
      if missing = [] then .ok (chain, none)
      else if (chain.mergeSort timeLe).map BinlogRecord.index ≠ indexes then
        .error (.backwards missing)
      else if !allowNonconsecutive then .error (.gaps missing)
      else .ok (chain, some ⟨missing.length, missing.take GAP_SAMPLE_SIZE⟩)

/-- What is wrong with the binlogs of a Tendisplus instance. -/
inductive KvstoreProblem
  | extra (kvstores : List ℤ)
  | chain (kvstore : ℕ) (error : ChainError)
  deriving DecidableEq

/-- The chains of all kvstores of the source, one after the other, the gaps let through and what is
wrong. -/
def selectKvstoreChains (binlogs : List BinlogRecord) (kvstoreCount : ℕ) (fullStart recoverAt : ℤ)
    (allowNonconsecutive : Bool) : List BinlogRecord × List (ℕ × Gaps) × List KvstoreProblem :=
  let extra := ((binlogs.map BinlogRecord.kvstore).dedup.filter fun kvstore =>
    (kvstoreCount : ℤ) ≤ kvstore).mergeSort
  let selected := (List.range kvstoreCount).map fun (kvstore : ℕ) =>
    (kvstore, selectBinlogChain (binlogs.filter fun b => b.kvstore = (kvstore : ℤ)) fullStart
      recoverAt allowNonconsecutive)
  let chain := selected.flatMap fun p =>
    match p.2 with
    | .ok (chain, _) => chain
    | .error _ => []
  let gaps := selected.filterMap fun p =>
    match p.2 with
    | .ok (_, some gaps) => some (p.1, gaps)
    | _ => none
  let errors := selected.filterMap fun p =>
    match p.2 with
    | .ok _ => none
    | .error e => some (KvstoreProblem.chain p.1 e)
  (chain, gaps, (if extra = [] then [] else [KvstoreProblem.extra extra]) ++ errors)

/-- The binlogs that the planner plans for a shard; none when its gate does not pass. -/
def plannedBinlogs (plus : Bool) (binlogs : List BinlogRecord) (kvstoreCount : ℕ)
    (fullStart recoverAt : ℤ) (allowNonconsecutive : Bool) : Option (List BinlogRecord) :=
  if plus then
    match selectKvstoreChains binlogs kvstoreCount fullStart recoverAt allowNonconsecutive with
    | (chain, _, []) => some chain
    | _ => none
  else
    match selectBinlogChain binlogs fullStart recoverAt allowNonconsecutive with
    | .ok (chain, _) => some chain
    | .error _ => none

/-- The digest of a text in hexadecimal digits is a parameter. -/
def binlogFingerprint (sha256 : String → String) (fileNames : List String) : String :=
  sha256 ("\n".intercalate (fileNames.map baseName))

structure BinlogRange where
  firstIndex : ℤ
  lastIndex : ℤ
  deriving DecidableEq

/-- What the actuator is told of a chain. -/
structure BinlogPayload where
  binlogRange : BinlogRange
  binlogCount : ℕ
  binlogFingerprint : String
  deriving DecidableEq

def binlogPayload (sha256 : String → String) (binlogs : List BinlogRecord) : BinlogPayload where
  binlogRange :=
    { firstIndex := (binlogs.head?.map BinlogRecord.index).getD 0
      lastIndex := (binlogs.getLast?.map BinlogRecord.index).getD 0 }
  binlogCount := binlogs.length
  binlogFingerprint :=
    if binlogs = [] then "" else binlogFingerprint sha256 (binlogs.map BinlogRecord.fileName)

/-- The order by kvstore and index. -/
def kvstoreLe (a b : BinlogRecord) : Bool :=
  a.kvstore < b.kvstore || (a.kvstore == b.kvstore && a.index ≤ b.index)

/-- Tendisplus binlogs per kvstore, each in index order; a kvstore is one run of the sorted list. -/
def kvstoreBinlogs (binlogFiles : List BinlogRecord) : List (ℤ × List BinlogRecord) :=
  let sorted := binlogFiles.mergeSort kvstoreLe
  (sorted.map BinlogRecord.kvstore).dedup.map fun kvstore =>
    (kvstore, sorted.filter fun b => b.kvstore = kvstore)

section Names

variable {digit digit' : Char → Bool} {count : ℕ} {ip name s : String} {fields : List String}
  {r : String × List String} {x : Char}

theorem isNumber_iff : isNumber digit s = true ↔ s ≠ "" ∧ ∀ c ∈ s.toList, digit c = true := by
  simp [isNumber]

theorem isNumber_imp (himp : ∀ c, digit c = true → digit' c = true) (h : isNumber digit s = true) :
    isNumber digit' s = true := by
  obtain ⟨hne, hall⟩ := isNumber_iff.mp h
  exact isNumber_iff.mpr ⟨hne, fun c hc => himp c (hall c hc)⟩

/-- An ip has dots, a number has none. -/
theorem not_isIp_of_isNumber (hdot : digit '.' = false) (h : isNumber digit s = true) :
    isIp digit' s = false := by
  obtain ⟨-, hall⟩ := isNumber_iff.mp h
  have hno : ∀ c ∈ s.toList, (c == '.') = false := by
    intro c hc
    rw [beq_eq_false_iff_ne]
    rintro rfl
    rw [hall _ hc] at hdot
    cases hdot
  have hsplit : Text.split s '.' = [s] := by
    rw [Text.split, List.splitOn_eq_splitOnP, List.splitOnP_eq_singleton hno]
    simp
  simp [isIp, hsplit]

theorem isIp_imp (himp : ∀ c, digit c = true → digit' c = true) (h : isIp digit s = true) :
    isIp digit' s = true := by
  simp only [isIp, Bool.and_eq_true, List.all_eq_true] at h ⊢
  exact ⟨h.1, fun part hpart => ⟨(h.2 part hpart).1, fun c hc => himp c ((h.2 part hpart).2 c hc)⟩⟩

theorem isTimeAndSuffix_imp (himp : ∀ c, digit c = true → digit' c = true)
    (h : isTimeAndSuffix digit s = true) : isTimeAndSuffix digit' s = true := by
  simp only [isTimeAndSuffix, Bool.and_eq_true, List.all_eq_true] at h ⊢
  exact ⟨⟨h.1.1, fun c hc => himp c (h.1.2 c hc)⟩, h.2⟩

theorem matchFields_imp (himp : ∀ c, digit c = true → digit' c = true)
    (h : matchFields digit count ip fields = some r) :
    matchFields digit' count ip fields = some r := by
  unfold matchFields at h ⊢
  split at h
  · rename_i hfields
    obtain ⟨hlength, hnumbers, htime⟩ := hfields
    have hnumbers' : (fields.take count).all (isNumber digit') = true := by
      rw [List.all_eq_true] at hnumbers ⊢
      exact fun s hs => isNumber_imp himp (hnumbers s hs)
    rw [if_pos ⟨hlength, hnumbers', isTimeAndSuffix_imp himp htime⟩]
    exact h
  · cases h

theorem matchFields_first (hcount : 0 < count) {first : String}
    (h : matchFields digit count ip (first :: fields) = some r) : isNumber digit first = true := by
  unfold matchFields at h
  split at h
  · rename_i hfields
    apply List.all_eq_true.mp hfields.2.1
    rw [← Nat.succ_pred_eq_of_pos hcount]
    exact List.mem_cons_self
  · cases h

theorem matchFields_numbers (h : matchFields digit count ip fields = some r) :
    ∀ s ∈ r.2, isNumber digit s = true := by
  unfold matchFields at h
  split at h
  · rename_i hfields
    obtain rfl := Option.some_inj.mp h
    exact List.all_eq_true.mp hfields.2.1
  · cases h

theorem matchBinlogName_numbers (h : matchBinlogName digit count name = some r) :
    ∀ s ∈ r.2, isNumber digit s = true := by
  unfold matchBinlogName at h
  split at h
  · split at h
    · exact matchFields_numbers h
    · exact matchFields_numbers h
  · cases h

/-- A pattern with more digits takes what a pattern with fewer takes, and reads the same of it. -/
theorem matchBinlogName_imp (himp : ∀ c, digit c = true → digit' c = true)
    (hdot : digit '.' = false) (hcount : 0 < count)
    (h : matchBinlogName digit count name = some r) : matchBinlogName digit' count name = some r := by
  unfold matchBinlogName at h ⊢
  split at h
  · rename_i first fields hsplit
    split at h
    · rename_i hip
      rw [if_pos (isIp_imp himp hip)]
      exact matchFields_imp himp h
    · have hnot := @not_isIp_of_isNumber digit digit' first hdot (matchFields_first hcount h)
      rw [if_neg (by simp [hnot])]
      exact matchFields_imp himp h
  · cases h

theorem matchFields_chars (hdigit : digit x = false) (hx : x ∉ ".logzst".toList)
    (h : matchFields digit count ip fields = some r) : ∀ s ∈ fields, x ∉ s.toList := by
  have hdigits : ∀ cs : List Char, (∀ c ∈ cs, digit c = true) → x ∉ cs := by
    intro cs hall hmem
    rw [hall _ hmem] at hdigit
    cases hdigit
  unfold matchFields at h
  split at h
  · rename_i hfields
    obtain ⟨hlength, hnumbers, htime⟩ := hfields
    intro s hs
    rw [← List.take_append_drop count fields] at hs
    rcases List.mem_append.mp hs with hs | hs
    · exact hdigits _ (isNumber_iff.mp (List.all_eq_true.mp hnumbers s hs)).2
    · obtain ⟨last, hlast⟩ : ∃ last, fields.drop count = [last] := by
        apply List.length_eq_one_iff.mp
        rw [List.length_drop, hlength]
        omega
      have hgetLast : fields.getLastD "" = last := by
        rw [← List.take_append_drop count fields, hlast, List.getLastD_concat]
      rw [hlast, List.mem_singleton] at hs
      rw [hgetLast, ← hs] at htime
      simp only [isTimeAndSuffix, Bool.and_eq_true, List.all_eq_true, Bool.or_eq_true,
        beq_iff_eq] at htime
      intro hmem
      rw [← List.take_append_drop 14 s.toList] at hmem
      rcases List.mem_append.mp hmem with hmem | hmem
      · exact hdigits _ htime.1.2 hmem
      · rw [← @String.toList_ofList (s.toList.drop 14)] at hmem
        have hzst : ".log.zst".toList ⊆ ".logzst".toList := by decide
        have hlzo : ".log.lzo".toList ⊆ ".logzst".toList := by decide
        rcases htime.2 with hsuffix | hsuffix
        · rw [hsuffix] at hmem
          exact hx (hzst hmem)
        · rw [hsuffix] at hmem
          exact hx (hlzo hmem)
  · cases h

/-- What a binlog's name is written with. -/
theorem matchBinlogName_chars (hdigit : digit x = false) (hx : x ∉ "-.binlogzst".toList)
    (h : matchBinlogName digit count name = some r) : x ∉ name.toList := by
  have hsubset : ∀ s : String, s.toList ⊆ "-.binlogzst".toList → x ∉ s.toList :=
    fun s hs hmem => hx (hs hmem)
  intro hmem
  rcases @Text.mem_of_split name '-' x hmem with rfl | ⟨part, hpart, hmem⟩
  · exact hx (by decide)
  · unfold matchBinlogName at h
    split at h
    · rename_i first fields hsplit
      rw [hsplit] at hpart
      rcases List.mem_cons.mp hpart with rfl | hpart
      · exact hsubset "binlog" (by decide) hmem
      · split at h
        · rename_i hip
          rcases List.mem_cons.mp hpart with rfl | hpart
          · rcases @Text.mem_of_split part '.' x hmem with rfl | ⟨piece, hpiece, hmem⟩
            · exact hx (by decide)
            · simp only [isIp, Bool.and_eq_true, List.all_eq_true] at hip
              rw [(hip.2 piece hpiece).2 _ hmem] at hdigit
              cases hdigit
          · exact matchFields_chars hdigit (hsubset ".logzst" (by decide)) h part hpart hmem
        · exact matchFields_chars hdigit (hsubset ".logzst" (by decide)) h part hpart hmem
    · cases h

theorem matchBinlogName_prefix (h : matchBinlogName digit count name = some r) :
    "binlog-".toList.isPrefixOf name.toList = true := by
  unfold matchBinlogName at h
  split at h
  · rename_i first fields hsplit
    have hlists : name.toList.splitOn '-' = "binlog".toList :: first.toList ::
        fields.map String.toList := by
      have hmap := congrArg (List.map String.toList) hsplit
      simpa [Text.split, Function.comp_def] using hmap
    have hjoin : ['-'].intercalate (name.toList.splitOn '-') = name.toList :=
      List.intercalate_splitOn '-'
    rw [hlists, List.intercalate_cons_cons] at hjoin
    rw [← hjoin, List.isPrefixOf_iff_prefix, List.append_assoc]
    exact List.prefix_append _ _
  · cases h

end Names

section Selection

variable {binlogs chain : List BinlogRecord} {fullStart recoverAt : ℤ} {allow : Bool}
  {gaps : Option Gaps} {b : BinlogRecord}

theorem uniqueByName_subset : uniqueByName binlogs ⊆ binlogs := by
  have hfold : ∀ (rest unique : List BinlogRecord), unique ⊆ binlogs → rest ⊆ binlogs →
      rest.foldl (fun unique b =>
        if unique.any fun u => u.fileName == b.fileName then
          unique.map fun u => if u.fileName = b.fileName then b else u
        else unique ++ [b]) unique ⊆ binlogs := by
    intro rest
    induction rest with
    | nil => exact fun unique hunique _ => hunique
    | cons b rest ih =>
      intro unique hunique hrest
      obtain ⟨hb, hrest⟩ := List.cons_subset.mp hrest
      refine ih _ ?_ hrest
      dsimp only
      split
      · intro x hx
        obtain ⟨u, hu, rfl⟩ := List.mem_map.mp hx
        split
        · exact hb
        · exact hunique hu
      · exact List.append_subset.mpr ⟨hunique, by simpa using hb⟩
  exact hfold binlogs [] (List.nil_subset _) (List.Subset.refl _)

theorem binlogLe_sorted (l : List BinlogRecord) :
    ((l.mergeSort binlogLe).map BinlogRecord.index).Pairwise (· ≤ ·) := by
  have hsorted : (l.mergeSort binlogLe).Pairwise fun a b => binlogLe a b = true := by
    apply List.pairwise_mergeSort
    · intro a b c hab hbc
      simp only [binlogLe, Bool.or_eq_true, Bool.and_eq_true, decide_eq_true_eq,
        beq_iff_eq] at hab hbc ⊢
      rcases hab with hab | ⟨hab, hname⟩
      · left
        rcases hbc with hbc | ⟨hbc, -⟩ <;> omega
      · rcases hbc with hbc | ⟨hbc, hname'⟩
        · left
          omega
        · exact Or.inr ⟨hab.trans hbc, String.le_trans hname hname'⟩
    · intro a b
      simp only [binlogLe, Bool.or_eq_true, Bool.and_eq_true, decide_eq_true_eq, beq_iff_eq]
      rcases lt_trichotomy a.index b.index with hlt | heq | hgt
      · exact Or.inl (Or.inl hlt)
      · rcases String.le_total a.fileName b.fileName with hname | hname
        · exact Or.inl (Or.inr ⟨heq, hname⟩)
        · exact Or.inr (Or.inr ⟨heq.symm, hname⟩)
      · exact Or.inr (Or.inl hgt)
  rw [List.pairwise_map]
  refine hsorted.imp ?_
  intro a b hab
  simp only [binlogLe, Bool.or_eq_true, Bool.and_eq_true, decide_eq_true_eq, beq_iff_eq] at hab
  omega

/-- A chain that passes holds two or more binlogs, and no index stands in it twice. -/
theorem selectBinlogChain_spec
    (h : selectBinlogChain binlogs fullStart recoverAt allow = .ok (chain, gaps)) :
    chain ⊆ binlogs ∧ 2 ≤ chain.length ∧ (chain.map BinlogRecord.index).Pairwise (· < ·) := by
  unfold selectBinlogChain at h
  dsimp only at h
  split at h
  · cases h
  · cases h
  · rename_i headTime tailTime _ _
    generalize hkept : (uniqueByName binlogs).filter (fun b =>
      headTime ≤ b.beginTime ∧ b.beginTime ≤ tailTime) = kept at h
    have hspec : kept.mergeSort binlogLe ⊆ binlogs := by
      intro b hb
      have hb := (List.mergeSort_perm kept binlogLe).subset hb
      rw [← hkept] at hb
      exact uniqueByName_subset (List.mem_of_mem_filter hb)
    have hsorted := binlogLe_sorted kept
    split at h
    · cases h
    · rename_i hlong
      split at h
      · cases h
      · rename_i hnodup
        have hok : kept.mergeSort binlogLe = chain := by
          split at h
          · exact (Prod.mk.inj (Except.ok.inj h)).1
          · split at h
            · cases h
            · split at h
              · cases h
              · exact (Prod.mk.inj (Except.ok.inj h)).1
        rw [hok] at hspec hsorted hlong hnodup
        refine ⟨hspec, by omega, ?_⟩
        have hnodup := List.nodup_iff_pairwise_ne.mp (not_not.mp hnodup)
        exact (hsorted.and hnodup).imp fun hpair => lt_of_le_of_ne hpair.1 hpair.2

theorem binlogRecords_spec {plus : Bool} {files : List (String × ℤ)}
    (h : b ∈ binlogRecords plus files) :
    ∃ file, b.fileName = baseName file ∧ if plus then
      plusBinlogPosition b.fileName = some (b.kvstore, b.index)
    else b.kvstore = 0 ∧ binlogIndex b.fileName = some b.index := by
  obtain ⟨⟨file, beginTime⟩, -, hb⟩ := List.mem_filterMap.mp h
  rw [binlogRecord] at hb
  dsimp only at hb
  cases plus with
  | true =>
    rw [if_pos rfl] at hb
    obtain ⟨p, hp, rfl⟩ := Option.map_eq_some_iff.mp hb
    exact ⟨file, rfl, (if_pos rfl).mpr hp⟩
  | false =>
    rw [if_neg Bool.false_ne_true] at hb
    obtain ⟨index, hindex, rfl⟩ := Option.map_eq_some_iff.mp hb
    exact ⟨file, rfl, (if_neg Bool.false_ne_true).mpr ⟨rfl, hindex⟩⟩

/-- When nothing is wrong with any kvstore, the chain is those of the kvstores one after the
other. -/
theorem selectKvstoreChains_spec {kvstoreCount : ℕ} {kvstoreGaps : List (ℕ × Gaps)}
    (h : selectKvstoreChains binlogs kvstoreCount fullStart recoverAt allow =
      (chain, kvstoreGaps, [])) :
    ∃ chains : ℕ → List BinlogRecord, chain = (List.range kvstoreCount).flatMap chains ∧
      ∀ k < kvstoreCount, ∃ gaps, selectBinlogChain
        (binlogs.filter fun b => b.kvstore = (k : ℤ)) fullStart recoverAt allow =
          .ok (chains k, gaps) := by
  unfold selectKvstoreChains at h
  dsimp only at h
  obtain ⟨hchain, hrest⟩ := Prod.mk.inj h
  obtain ⟨-, herrors⟩ := Prod.mk.inj hrest
  have herrors := (List.append_eq_nil_iff.mp herrors).2
  rw [List.flatMap_map] at hchain
  refine ⟨_, hchain.symm, ?_⟩
  intro k hk
  have hnone := List.filterMap_eq_nil_iff.mp herrors _
    (List.mem_map_of_mem (List.mem_range.mpr hk))
  dsimp only at hnone ⊢
  split at hnone
  · rename_i r hr
    obtain ⟨selected, gaps⟩ := r
    exact ⟨gaps, by rw [hr]⟩
  · cases hnone

variable {chains : ℕ → List BinlogRecord} {n : ℕ}

theorem filter_chains (hkvstore : ∀ k < n, ∀ b ∈ chains k, b.kvstore = (k : ℤ)) {k : ℕ} (hk : k < n) :
    ((List.range n).flatMap chains).filter (fun b => b.kvstore = (k : ℤ)) = chains k := by
  induction n with
  | zero => omega
  | succ n ih =>
    have hlast : ∀ b ∈ chains n, b.kvstore = (n : ℤ) := hkvstore n (Nat.lt_succ_self n)
    rw [List.range_succ, List.flatMap_append, List.filter_append, List.flatMap_singleton]
    by_cases hkn : k = n
    · subst hkn
      have hnone : ((List.range k).flatMap chains).filter (fun b => b.kvstore = (k : ℤ)) = [] := by
        apply List.filter_eq_nil_iff.mpr
        intro b hb
        obtain ⟨j, hj, hb⟩ := List.mem_flatMap.mp hb
        have hjk := List.mem_range.mp hj
        have hb := hkvstore j (by omega) b hb
        simp only [decide_eq_true_eq]
        omega
      rw [hnone, List.nil_append]
      apply List.filter_eq_self.mpr
      intro b hb
      simpa using hlast b hb
    · have hnone : (chains n).filter (fun b => b.kvstore = (k : ℤ)) = [] := by
        apply List.filter_eq_nil_iff.mpr
        intro b hb
        have hb := hlast b hb
        simp only [decide_eq_true_eq]
        omega
      rw [hnone, List.append_nil]
      exact ih (fun j hj => hkvstore j (by omega)) (by omega)

/-- The planner groups the chains of the kvstores as they were selected. -/
theorem kvstoreBinlogs_chains (hkvstore : ∀ k < n, ∀ b ∈ chains k, b.kvstore = (k : ℤ))
    (hne : ∀ k < n, chains k ≠ [])
    (hindex : ∀ k < n, ((chains k).map BinlogRecord.index).Pairwise (· < ·)) :
    kvstoreBinlogs ((List.range n).flatMap chains) =
      (List.range n).map fun (k : ℕ) => ((k : ℤ), chains k) := by
  have hsorted : ((List.range n).flatMap chains).Pairwise fun a b => kvstoreLe a b = true := by
    apply List.pairwise_flatMap.mpr
    constructor
    · intro k hk
      have hk := List.mem_range.mp hk
      refine (List.pairwise_map.mp (hindex k hk)).imp_of_mem ?_
      intro a b ha hb hab
      have ha := hkvstore k hk a ha
      have hb := hkvstore k hk b hb
      simp only [kvstoreLe, Bool.or_eq_true, Bool.and_eq_true, decide_eq_true_eq, beq_iff_eq]
      omega
    · refine List.pairwise_lt_range.imp_of_mem ?_
      intro j k hj hk hjk a ha b hb
      have ha := hkvstore j (List.mem_range.mp hj) a ha
      have hb := hkvstore k (List.mem_range.mp hk) b hb
      simp only [kvstoreLe, Bool.or_eq_true, Bool.and_eq_true, decide_eq_true_eq, beq_iff_eq]
      omega
  have hkeys : (((List.range n).flatMap chains).map BinlogRecord.kvstore).dedup =
      (List.range n).map fun (k : ℕ) => (k : ℤ) := by
    have hle : (((List.range n).flatMap chains).map BinlogRecord.kvstore).dedup.Pairwise
        (· ≤ ·) := by
      refine List.Pairwise.sublist (List.dedup_sublist _) (List.pairwise_map.mpr (hsorted.imp ?_))
      intro a b hab
      simp only [kvstoreLe, Bool.or_eq_true, Bool.and_eq_true, decide_eq_true_eq, beq_iff_eq] at hab
      omega
    have hrange : ((List.range n).map fun (k : ℕ) => (k : ℤ)).Pairwise (· < ·) := by
      refine List.pairwise_map.mpr (List.pairwise_lt_range.imp ?_)
      intro j k hjk
      omega
    apply List.Perm.eq_of_pairwise (fun a b _ _ hab hba => Int.le_antisymm hab hba) hle
      (hrange.imp fun hab => Int.le_of_lt hab)
    apply (List.perm_ext_iff_of_nodup (List.nodup_dedup _) (hrange.imp fun hab => Int.ne_of_lt hab)).mpr
    intro kvstore
    simp only [List.mem_dedup, List.mem_map, List.mem_flatMap, List.mem_range]
    constructor
    · rintro ⟨b, ⟨k, hk, hb⟩, rfl⟩
      exact ⟨k, hk, (hkvstore k hk b hb).symm⟩
    · rintro ⟨k, hk, rfl⟩
      obtain ⟨b, hb⟩ := List.exists_mem_of_ne_nil _ (hne k hk)
      exact ⟨b, ⟨k, hk, hb⟩, hkvstore k hk b hb⟩
  unfold kvstoreBinlogs
  dsimp only
  rw [List.mergeSort_of_pairwise hsorted, hkeys, List.map_map]
  apply List.map_congr_left
  intro k hk
  exact congrArg (Prod.mk (k : ℤ)) (filter_chains hkvstore (List.mem_range.mp hk))

end Selection

section Ordering

variable {binlogs chain : List BinlogRecord} {fullStart recoverAt : ℤ} {allow : Bool}
  {gaps : Option Gaps} {b first last : BinlogRecord}

/-- No two binlogs have a name, an index or a begin time in common. -/
structure Apart (binlogs : List BinlogRecord) : Prop where
  names : (binlogs.map BinlogRecord.fileName).Nodup
  indexes : (binlogs.map BinlogRecord.index).Nodup
  times : (binlogs.map BinlogRecord.beginTime).Nodup

/-- A given file that begins no earlier than those begun by the full backup and no later than those
begun from the target on. -/
structure Spanned (binlogs : List BinlogRecord) (fullStart recoverAt : ℤ) (b : BinlogRecord) :
    Prop where
  mem : b ∈ binlogs
  heads : ∀ h ∈ binlogs, h.beginTime ≤ fullStart → h.beginTime ≤ b.beginTime
  tails : ∀ t ∈ binlogs, recoverAt ≤ t.beginTime → b.beginTime ≤ t.beginTime

/-- The missing indexes are none, or they were allowed and are counted. -/
def GapsCounted (allow : Bool) (gaps : Option Gaps) (missing : List ℤ) : Prop :=
  match gaps with
  | none => missing = []
  | some g => allow = true ∧ g.missingCount = missing.length ∧
      g.missing = missing.take GAP_SAMPLE_SIZE

/-- What the selection promises of a chain and of the gaps let through. -/
structure RightChain (binlogs : List BinlogRecord) (fullStart recoverAt : ℤ) (allow : Bool)
    (chain : List BinlogRecord) (gaps : Option Gaps) (first last : BinlogRecord) : Prop where
  head : chain.head? = some first
  getLast : chain.getLast? = some last
  first_begun : first.beginTime ≤ fullStart
  first_latest : ∀ b ∈ binlogs, b.beginTime ≤ fullStart → b.beginTime ≤ first.beginTime
  last_begun : recoverAt ≤ last.beginTime
  last_earliest : ∀ b ∈ binlogs, recoverAt ≤ b.beginTime → last.beginTime ≤ b.beginTime
  members : ∀ b, b ∈ chain ↔
    b ∈ binlogs ∧ first.beginTime ≤ b.beginTime ∧ b.beginTime ≤ last.beginTime
  increasing : chain.Pairwise fun a b => a.index < b.index ∧ a.beginTime < b.beginTime
  counted : ∃ missing : List ℤ, missing.Nodup ∧
    (∀ i, i ∈ missing ↔ first.index ≤ i ∧ i ≤ last.index ∧ i ∉ chain.map BinlogRecord.index) ∧
    GapsCounted allow gaps missing

/-- An index between those of the span that no file of it has. -/
def IndexMissing (binlogs : List BinlogRecord) (fullStart recoverAt : ℤ) : Prop :=
  ∃ i, (∃ a, Spanned binlogs fullStart recoverAt a ∧ a.index < i) ∧
    (∃ b, Spanned binlogs fullStart recoverAt b ∧ i < b.index) ∧
    ∀ c, Spanned binlogs fullStart recoverAt c → c.index ≠ i

def TimesFollow (binlogs : List BinlogRecord) (fullStart recoverAt : ℤ) : Prop :=
  ∀ a b, Spanned binlogs fullStart recoverAt a → Spanned binlogs fullStart recoverAt b →
    a.index < b.index → a.beginTime < b.beginTime

/-- The binlogs reach from the full backup to the target. -/
def Reaching (binlogs : List BinlogRecord) (fullStart recoverAt : ℤ) : Prop :=
  (∃ b ∈ binlogs, b.beginTime ≤ fullStart) ∧ ∃ b ∈ binlogs, recoverAt ≤ b.beginTime

theorem uniqueByName_of_nodup (h : (binlogs.map BinlogRecord.fileName).Nodup) :
    uniqueByName binlogs = binlogs := by
  have hfold : ∀ rest unique : List BinlogRecord,
      ((unique ++ rest).map BinlogRecord.fileName).Nodup →
      rest.foldl (fun unique b =>
        if unique.any fun u => u.fileName == b.fileName then
          unique.map fun u => if u.fileName = b.fileName then b else u
        else unique ++ [b]) unique = unique ++ rest := by
    intro rest
    induction rest with
    | nil => exact fun unique _ => (List.append_nil unique).symm
    | cons b rest ih =>
      intro unique hnodup
      have hnew : (unique.any fun u => u.fileName == b.fileName) = false := by
        rw [List.any_eq_false]
        intro u hu heq
        rw [List.map_append, List.nodup_append] at hnodup
        exact hnodup.2.2 _ (List.mem_map_of_mem hu) _ (List.mem_map_of_mem List.mem_cons_self)
          (beq_iff_eq.mp heq)
      rw [List.foldl_cons, hnew, if_neg Bool.false_ne_true]
      rw [List.append_cons] at hnodup
      rw [ih _ hnodup, List.append_assoc, List.singleton_append]
  exact hfold binlogs [] h

/-- The index of a chain sorted by index that has the same indexes sorted by time: the times
increase too. -/
theorem times_increase (hindex : (chain.map BinlogRecord.index).Nodup)
    (h : (chain.mergeSort timeLe).map BinlogRecord.index = chain.map BinlogRecord.index) :
    chain.Pairwise fun a b => a.beginTime ≤ b.beginTime := by
  have hperm := List.mergeSort_perm chain timeLe
  have hsame : chain.mergeSort timeLe = chain := by
    apply List.ext_getElem hperm.length_eq
    intro i hi hj
    apply List.inj_on_of_nodup_map hindex (hperm.subset (List.getElem_mem hi)) (List.getElem_mem hj)
    have hget := congrArg (fun l => l[i]?) h
    simpa [hi, hj] using hget
  have hsorted : (chain.mergeSort timeLe).Pairwise fun a b => timeLe a b = true := by
    apply List.pairwise_mergeSort
    · intro a b c hab hbc
      simp only [timeLe, Bool.or_eq_true, Bool.and_eq_true, decide_eq_true_eq, beq_iff_eq] at hab hbc ⊢
      omega
    · intro a b
      simp only [timeLe, Bool.or_eq_true, Bool.and_eq_true, decide_eq_true_eq, beq_iff_eq]
      omega
  rw [hsame] at hsorted
  refine hsorted.imp ?_
  intro a b hab
  simp only [timeLe, Bool.or_eq_true, Bool.and_eq_true, decide_eq_true_eq, beq_iff_eq] at hab
  omega

theorem mem_missingIndexes (hhead : chain.head? = some first) (hlast : chain.getLast? = some last)
    (i : ℤ) : i ∈ missingIndexes chain ↔
      first.index ≤ i ∧ i ≤ last.index ∧ i ∉ chain.map BinlogRecord.index := by
  unfold missingIndexes
  simp only [hhead, hlast, List.mem_filter, List.mem_map, List.mem_range, decide_eq_true_eq]
  constructor
  · rintro ⟨⟨n, hn, rfl⟩, hnot⟩
    refine ⟨?_, ?_, hnot⟩ <;> simp only [Int.ofNat_eq_natCast] <;> omega
  · rintro ⟨hfirst, hle, hnot⟩
    refine ⟨⟨(i - first.index).toNat, ?_, ?_⟩, hnot⟩
    · omega
    · simp only [Int.ofNat_eq_natCast]
      omega

theorem missingIndexes_nodup (chain : List BinlogRecord) : (missingIndexes chain).Nodup := by
  unfold missingIndexes
  split
  · refine (List.Nodup.map ?_ List.nodup_range).filter _
    intro m n h
    simp only [Int.ofNat_eq_natCast] at h
    omega
  · exact List.nodup_nil

/-- What the selection comes to where names, indexes and times are distinct and the binlogs reach
from the full backup to the target: its chain is the span, sorted by index. -/
theorem selectBinlogChain_reaching (hapart : Apart binlogs)
    (hreach : Reaching binlogs fullStart recoverAt) :
    ∃ chain : List BinlogRecord, (∀ b, b ∈ chain ↔ Spanned binlogs fullStart recoverAt b) ∧
      (chain.map BinlogRecord.index).Pairwise (· < ·) ∧
      selectBinlogChain binlogs fullStart recoverAt allow =
        if chain.length < 2 then .error .few
        else if missingIndexes chain = [] then .ok (chain, none)
        else if (chain.mergeSort timeLe).map BinlogRecord.index ≠ chain.map BinlogRecord.index then
          .error (.backwards (missingIndexes chain))
        else if !allow then .error (.gaps (missingIndexes chain))
        else .ok (chain, some ⟨(missingIndexes chain).length,
          (missingIndexes chain).take GAP_SAMPLE_SIZE⟩) := by
  obtain ⟨⟨h, hh, hfull⟩, t, ht, htarget⟩ := hreach
  have hheads : h.beginTime ∈
      (binlogs.filter fun b => b.beginTime ≤ fullStart).map BinlogRecord.beginTime :=
    List.mem_map_of_mem (List.mem_filter.mpr ⟨hh, decide_eq_true hfull⟩)
  have htails : t.beginTime ∈
      (binlogs.filter fun b => recoverAt ≤ b.beginTime).map BinlogRecord.beginTime :=
    List.mem_map_of_mem (List.mem_filter.mpr ⟨ht, decide_eq_true htarget⟩)
  obtain ⟨headTime, hmax⟩ := Option.isSome_iff_exists.mp (List.isSome_max?_of_mem hheads)
  obtain ⟨tailTime, hmin⟩ := Option.isSome_iff_exists.mp (List.isSome_min?_of_mem htails)
  obtain ⟨hmaxmem, hmaxle⟩ := List.max?_eq_some_iff.mp hmax
  obtain ⟨hminmem, hminle⟩ := List.min?_eq_some_iff.mp hmin
  obtain ⟨head, hhead, hheadTime⟩ := List.mem_map.mp hmaxmem
  obtain ⟨tail, htail, htailTime⟩ := List.mem_map.mp hminmem
  have hspan : ∀ b, b ∈ (binlogs.filter fun b =>
      headTime ≤ b.beginTime ∧ b.beginTime ≤ tailTime).mergeSort binlogLe ↔
        Spanned binlogs fullStart recoverAt b := by
    intro b
    rw [List.mem_mergeSort, List.mem_filter, decide_eq_true_eq]
    constructor
    · rintro ⟨hb, hlow, hhigh⟩
      refine ⟨hb, ?_, ?_⟩
      · intro h hh hfull
        exact (hmaxle _ (List.mem_map_of_mem (List.mem_filter.mpr
          ⟨hh, decide_eq_true hfull⟩))).trans hlow
      · intro t ht htarget
        exact hhigh.trans (hminle _ (List.mem_map_of_mem (List.mem_filter.mpr
          ⟨ht, decide_eq_true htarget⟩)))
    · intro hb
      obtain ⟨hheadmem, hheadle⟩ := List.mem_filter.mp hhead
      obtain ⟨htailmem, htaille⟩ := List.mem_filter.mp htail
      refine ⟨hb.mem, ?_, ?_⟩
      · rw [← hheadTime]
        exact hb.heads head hheadmem (of_decide_eq_true hheadle)
      · rw [← htailTime]
        exact hb.tails tail htailmem (of_decide_eq_true htaille)
  have hnodup : (((binlogs.filter fun b =>
      headTime ≤ b.beginTime ∧ b.beginTime ≤ tailTime).mergeSort binlogLe).map
        BinlogRecord.index).Nodup := by
    refine ((List.mergeSort_perm _ _).map _).nodup_iff.mpr ?_
    exact hapart.indexes.sublist (List.filter_sublist.map _)
  refine ⟨_, hspan, ?_, ?_⟩
  · have hle := binlogLe_sorted (binlogs.filter fun b =>
      headTime ≤ b.beginTime ∧ b.beginTime ≤ tailTime)
    exact (hle.and hnodup).imp fun hpair => lt_of_le_of_ne hpair.1 hpair.2
  · unfold selectBinlogChain
    rw [uniqueByName_of_nodup hapart.names]
    simp only [hmax, hmin]
    rw [if_neg (not_not.mpr hnodup)]

theorem selectBinlogChain_not_reaching (hapart : Apart binlogs)
    (hreach : ¬ Reaching binlogs fullStart recoverAt) :
    ∃ e, selectBinlogChain binlogs fullStart recoverAt allow = .error e := by
  unfold selectBinlogChain
  rw [uniqueByName_of_nodup hapart.names]
  cases hmax : ((binlogs.filter fun b => b.beginTime ≤ fullStart).map
      BinlogRecord.beginTime).max? with
  | none => exact ⟨.head, by simp only [hmax]⟩
  | some headTime =>
    cases hmin : ((binlogs.filter fun b => recoverAt ≤ b.beginTime).map
        BinlogRecord.beginTime).min? with
    | none => exact ⟨.tail, by simp only [hmax, hmin]⟩
    | some tailTime =>
      obtain ⟨h, hh, -⟩ := List.mem_map.mp (List.max?_eq_some_iff.mp hmax).1
      obtain ⟨t, ht, -⟩ := List.mem_map.mp (List.min?_eq_some_iff.mp hmin).1
      obtain ⟨hh, hfull⟩ := List.mem_filter.mp hh
      obtain ⟨ht, htarget⟩ := List.mem_filter.mp ht
      exact absurd ⟨⟨h, hh, of_decide_eq_true hfull⟩, t, ht, of_decide_eq_true htarget⟩ hreach

theorem exists_latest (h : ∃ b ∈ binlogs, b.beginTime ≤ fullStart) :
    ∃ head ∈ binlogs, head.beginTime ≤ fullStart ∧
      ∀ b ∈ binlogs, b.beginTime ≤ fullStart → b.beginTime ≤ head.beginTime := by
  obtain ⟨b, hb, hfull⟩ := h
  have hne : (binlogs.toFinset.filter fun b => b.beginTime ≤ fullStart).Nonempty :=
    ⟨b, Finset.mem_filter.mpr ⟨List.mem_toFinset.mpr hb, hfull⟩⟩
  obtain ⟨head, hhead, hmax⟩ := Finset.exists_max_image _ BinlogRecord.beginTime hne
  obtain ⟨hmem, hbegun⟩ := Finset.mem_filter.mp hhead
  refine ⟨head, List.mem_toFinset.mp hmem, hbegun, ?_⟩
  intro c hc hcfull
  exact hmax c (Finset.mem_filter.mpr ⟨List.mem_toFinset.mpr hc, hcfull⟩)

theorem exists_earliest (h : ∃ b ∈ binlogs, recoverAt ≤ b.beginTime) :
    ∃ tail ∈ binlogs, recoverAt ≤ tail.beginTime ∧
      ∀ b ∈ binlogs, recoverAt ≤ b.beginTime → tail.beginTime ≤ b.beginTime := by
  obtain ⟨b, hb, htarget⟩ := h
  have hne : (binlogs.toFinset.filter fun b => recoverAt ≤ b.beginTime).Nonempty :=
    ⟨b, Finset.mem_filter.mpr ⟨List.mem_toFinset.mpr hb, htarget⟩⟩
  obtain ⟨tail, htail, hmin⟩ := Finset.exists_min_image _ BinlogRecord.beginTime hne
  obtain ⟨hmem, hbegun⟩ := Finset.mem_filter.mp htail
  refine ⟨tail, List.mem_toFinset.mp hmem, hbegun, ?_⟩
  intro c hc hctarget
  exact hmin c (Finset.mem_filter.mpr ⟨List.mem_toFinset.mpr hc, hctarget⟩)

section Ends

variable {R : BinlogRecord → BinlogRecord → Prop}

theorem exists_ends (hne : chain ≠ []) :
    ∃ first last, chain.head? = some first ∧ chain.getLast? = some last :=
  ⟨chain.head hne, chain.getLast hne, List.head?_eq_some_head hne, List.getLast?_eq_some_getLast hne⟩

theorem eq_or_head (h : chain.Pairwise R) (hfirst : chain.head? = some first) (hb : b ∈ chain) :
    b = first ∨ R first b := by
  obtain ⟨rest, rfl⟩ := List.head?_eq_some_iff.mp hfirst
  rcases List.mem_cons.mp hb with rfl | hb
  · exact Or.inl rfl
  · exact Or.inr ((List.pairwise_cons.mp h).1 b hb)

theorem eq_or_last (h : chain.Pairwise R) (hlast : chain.getLast? = some last) (hb : b ∈ chain) :
    b = last ∨ R b last := by
  obtain ⟨rest, rfl⟩ := List.getLast?_eq_some_iff.mp hlast
  rcases List.mem_append.mp hb with hb | hb
  · exact Or.inr ((List.pairwise_append.mp h).2.2 b hb last List.mem_cons_self)
  · exact Or.inl (List.mem_singleton.mp hb)

end Ends

/-- A chain that is the span, with its times increasing, begins and ends where it should. -/
theorem rightChain_of_increasing (hreach : Reaching binlogs fullStart recoverAt)
    (hle : fullStart ≤ recoverAt)
    (hmembers : ∀ b, b ∈ chain ↔ Spanned binlogs fullStart recoverAt b)
    (hincreasing : chain.Pairwise fun a b => a.index < b.index ∧ a.beginTime < b.beginTime)
    (hgaps : GapsCounted allow gaps (missingIndexes chain)) :
    ∃ first last, RightChain binlogs fullStart recoverAt allow chain gaps first last := by
  obtain ⟨head, hhead, hheadfull, hheadmax⟩ := exists_latest hreach.1
  obtain ⟨tail, htail, htailtarget, htailmin⟩ := exists_earliest hreach.2
  have hheadmem : head ∈ chain := (hmembers head).mpr
    ⟨hhead, hheadmax, fun t _ ht => (hheadfull.trans hle).trans ht⟩
  have htailmem : tail ∈ chain := (hmembers tail).mpr
    ⟨htail, fun h _ hh => (hh.trans hle).trans htailtarget, htailmin⟩
  obtain ⟨first, last, hfirst, hlast⟩ := exists_ends (List.ne_nil_of_mem hheadmem)
  have hfirstle : ∀ b ∈ chain, first.beginTime ≤ b.beginTime := by
    intro b hb
    rcases eq_or_head hincreasing hfirst hb with rfl | hlt
    · exact le_rfl
    · exact hlt.2.le
  have hlelast : ∀ b ∈ chain, b.beginTime ≤ last.beginTime := by
    intro b hb
    rcases eq_or_last hincreasing hlast hb with rfl | hlt
    · exact le_rfl
    · exact hlt.2.le
  have hfirstspan := (hmembers first).mp (List.mem_of_head? hfirst)
  have hlastspan := (hmembers last).mp (List.mem_of_getLast? hlast)
  refine ⟨first, last, hfirst, hlast, ?_, hfirstspan.heads, ?_, hlastspan.tails, ?_, hincreasing,
    missingIndexes chain, missingIndexes_nodup chain, mem_missingIndexes hfirst hlast, hgaps⟩
  · exact (hfirstle head hheadmem).trans hheadfull
  · exact htailtarget.trans (hlelast tail htailmem)
  · intro b
    constructor
    · intro hb
      exact ⟨((hmembers b).mp hb).mem, hfirstle b hb, hlelast b hb⟩
    · rintro ⟨hb, hlow, hhigh⟩
      refine (hmembers b).mpr ⟨hb, ?_, ?_⟩
      · intro h hh hfull
        exact (hfirstspan.heads h hh hfull).trans hlow
      · intro t ht htarget
        exact hhigh.trans (hlastspan.tails t ht htarget)

/-- The indexes missing from the span are those missing from its chain. -/
theorem missingIndexes_eq_nil_iff
    (hmembers : ∀ b, b ∈ chain ↔ Spanned binlogs fullStart recoverAt b)
    (hindexes : chain.Pairwise fun a b => a.index < b.index) :
    missingIndexes chain = [] ↔ ¬ IndexMissing binlogs fullStart recoverAt := by
  constructor
  · rintro hnil ⟨i, ⟨a, ha, hai⟩, ⟨b, hb, hib⟩, habsent⟩
    have ha := (hmembers a).mpr ha
    have hb := (hmembers b).mpr hb
    obtain ⟨first, last, hfirst, hlast⟩ := exists_ends (List.ne_nil_of_mem ha)
    have hlow : first.index ≤ a.index := by
      rcases eq_or_head hindexes hfirst ha with rfl | hlt
      · exact le_rfl
      · exact hlt.le
    have hhigh : b.index ≤ last.index := by
      rcases eq_or_last hindexes hlast hb with rfl | hlt
      · exact le_rfl
      · exact hlt.le
    have hmem : i ∈ missingIndexes chain := by
      refine (mem_missingIndexes hfirst hlast i).mpr ⟨by omega, by omega, ?_⟩
      intro hi
      obtain ⟨c, hc, heq⟩ := List.mem_map.mp hi
      exact habsent c ((hmembers c).mp hc) heq
    rw [hnil] at hmem
    cases hmem
  · intro hnone
    by_contra hne
    obtain ⟨i, hi⟩ := List.exists_mem_of_ne_nil _ hne
    have hchain : chain ≠ [] := by
      rintro rfl
      cases hi
    obtain ⟨first, last, hfirst, hlast⟩ := exists_ends hchain
    obtain ⟨hlow, hhigh, hnot⟩ := (mem_missingIndexes hfirst hlast i).mp hi
    have habsent : ∀ c ∈ chain, c.index ≠ i := fun c hc h => hnot (List.mem_map.mpr ⟨c, hc, h⟩)
    have hfirstmem := List.mem_of_head? hfirst
    have hlastmem := List.mem_of_getLast? hlast
    have hfirstne := habsent first hfirstmem
    have hlastne := habsent last hlastmem
    refine hnone ⟨i, ⟨first, (hmembers first).mp hfirstmem, by omega⟩,
      ⟨last, (hmembers last).mp hlastmem, by omega⟩, ?_⟩
    intro c hc
    exact habsent c ((hmembers c).mpr hc)

theorem timesFollow_iff (hmembers : ∀ b, b ∈ chain ↔ Spanned binlogs fullStart recoverAt b)
    (hindexes : chain.Pairwise fun a b => a.index < b.index) :
    TimesFollow binlogs fullStart recoverAt ↔
      chain.Pairwise fun a b => a.index < b.index ∧ a.beginTime < b.beginTime := by
  constructor
  · intro hfollow
    refine hindexes.imp_of_mem ?_
    intro a b ha hb hab
    exact ⟨hab, hfollow a b ((hmembers a).mp ha) ((hmembers b).mp hb) hab⟩
  · intro hincreasing a b ha hb hab
    have ha := (hmembers a).mpr ha
    have hb := (hmembers b).mpr hb
    have hne : a ≠ b := by
      rintro rfl
      omega
    -- either way round, the one with the lesser index is the earlier one
    have hsymm : Std.Symm fun a b : BinlogRecord =>
        (a.index < b.index → a.beginTime < b.beginTime) ∧
          (b.index < a.index → b.beginTime < a.beginTime) := ⟨fun _ _ h => h.symm⟩
    have hboth : chain.Pairwise fun a b =>
        (a.index < b.index → a.beginTime < b.beginTime) ∧
          (b.index < a.index → b.beginTime < a.beginTime) :=
      hincreasing.imp fun h => ⟨fun _ => h.2, fun hlt => absurd h.1 (by omega)⟩
    exact (hboth.forall ha hb hne).1 hab

/-- The order of the times is looked at only where an index is missing. -/
theorem selectBinlogChain_right_iff (hapart : Apart binlogs) (hle : fullStart ≤ recoverAt) :
    (∀ chain gaps, selectBinlogChain binlogs fullStart recoverAt allow = .ok (chain, gaps) →
      ∃ first last, RightChain binlogs fullStart recoverAt allow chain gaps first last) ↔
    (Reaching binlogs fullStart recoverAt →
      IndexMissing binlogs fullStart recoverAt ∨ TimesFollow binlogs fullStart recoverAt) := by
  by_cases hreach : Reaching binlogs fullStart recoverAt
  · obtain ⟨chain, hmembers, hindexes, hselect⟩ :=
      @selectBinlogChain_reaching binlogs fullStart recoverAt allow hapart hreach
    have hpairwise := List.pairwise_map.mp hindexes
    constructor
    · intro hright _
      by_cases hpresent : IndexMissing binlogs fullStart recoverAt
      · exact Or.inl hpresent
      · refine Or.inr ((timesFollow_iff hmembers hpairwise).mpr ?_)
        by_cases hfew : chain.length < 2
        · match chain, hfew with
          | [], _ => exact List.Pairwise.nil
          | [b], _ => exact List.pairwise_singleton _ b
        · rw [if_neg hfew, if_pos ((missingIndexes_eq_nil_iff hmembers hpairwise).mpr hpresent)]
            at hselect
          obtain ⟨first, last, hchain⟩ := hright chain none hselect
          exact hchain.increasing
    · intro hcond chain' gaps hok
      rw [hselect] at hok
      split at hok
      · cases hok
      · split at hok
        · rename_i hmissing
          obtain ⟨rfl, rfl⟩ := Prod.mk.inj (Except.ok.inj hok)
          have hnone := (missingIndexes_eq_nil_iff hmembers hpairwise).mp hmissing
          have hfollow := (hcond hreach).resolve_left hnone
          exact rightChain_of_increasing hreach hle hmembers
            ((timesFollow_iff hmembers hpairwise).mp hfollow) hmissing
        · split at hok
          · cases hok
          · rename_i hsame
            split at hok
            · cases hok
            · rename_i hallow
              obtain ⟨rfl, rfl⟩ := Prod.mk.inj (Except.ok.inj hok)
              have hnodup := hindexes.imp fun hlt => ne_of_lt hlt
              have htimes := times_increase hnodup (not_not.mp hsame)
              have hdistinct : chain.Pairwise fun a b => a.beginTime ≠ b.beginTime := by
                refine hpairwise.imp_of_mem ?_
                intro a b ha hb hab heq
                have hone := List.inj_on_of_nodup_map hapart.times ((hmembers a).mp ha).mem
                  ((hmembers b).mp hb).mem heq
                rw [hone] at hab
                exact lt_irrefl _ hab
              refine rightChain_of_increasing hreach hle hmembers ?_ ⟨by simpa using hallow, rfl, rfl⟩
              exact (hpairwise.and (htimes.and hdistinct)).imp
                fun h => ⟨h.1, lt_of_le_of_ne h.2.1 h.2.2⟩
  · constructor
    · intro _ h
      exact absurd h hreach
    · intro _ chain gaps hok
      obtain ⟨e, he⟩ := @selectBinlogChain_not_reaching binlogs fullStart recoverAt allow hapart hreach
      cases he.symm.trans hok

/-- Three binlogs in a row by index, of which the last is begun before the second. -/
def crossed : List BinlogRecord := [⟨"a", 10, 0, 1⟩, ⟨"b", 30, 0, 2⟩, ⟨"c", 20, 0, 3⟩]

theorem crossed_apart : Apart crossed := ⟨by decide, by decide, by decide⟩

/-- No index is missing, so the chain is taken as it is: it ends on a file begun before the
target. -/
theorem crossed_selected_not_right :
    selectBinlogChain crossed 10 25 false = .ok (crossed, none) ∧
      ¬ ∃ first last, RightChain crossed 10 25 false crossed none first last := by
  constructor
  · simp [selectBinlogChain, crossed, uniqueByName, List.mergeSort, missingIndexes, binlogLe,
      List.range, List.range.loop]
  · rintro ⟨first, last, h⟩
    have hincreasing := h.increasing
    simp [crossed] at hincreasing

theorem selectBinlogChain_right_iff_crossed :
    (∀ chain gaps, selectBinlogChain crossed 10 25 true = .ok (chain, gaps) →
      ∃ first last, RightChain crossed 10 25 true chain gaps first last) ↔
    (Reaching crossed 10 25 → IndexMissing crossed 10 25 ∨ TimesFollow crossed 10 25) :=
  selectBinlogChain_right_iff crossed_apart (by decide)

end Ordering

end Rollback
