import BluekingDbm.Library.Numeral
import Mathlib.Data.Int.Order.Basic
import Mathlib.Data.List.Nodup

/-! The slots that the shards of a backup batch hold, and the planner's check of their layout. -/
namespace Rollback

open Numeral

def SWITCHED_SHARD_VALUE : String := "switched-0"

def CLUSTER_SLOT_TOTAL : ℤ := 16384

structure ShardParseResult where
  ranges : List (ℤ × ℤ)
  parseable : Bool
  reason : String
  deriving DecidableEq

/-- `range(start, stop + 1)`. -/
def slotRange (p : ℤ × ℤ) : List ℤ :=
  (List.range (p.2 + 1 - p.1).toNat).map fun n => p.1 + Int.ofNat n

def ShardParseResult.slots (parsed : ShardParseResult) : List ℤ := parsed.ranges.flatMap slotRange

def unparseable (reason : String) : ShardParseResult := ⟨[], false, reason⟩

/-- `_RANGE_SEPARATOR.split`, with an empty token for each further separator of a run: these are
skipped like the empty tokens at the ends. -/
def rangeTokens (raw : String) : List String :=
  (raw.toList.splitOnP fun c => Py.isSpace c || c == ',').map String.ofList

/-- One token: a slot, a range of slots, or an error. -/
def parseToken (raw token : String) : Except String (ℤ × ℤ) :=
  match Text.split token '-' with
  | [slot] =>
    match Py.int slot with
    | some n => .ok (n, n)
    | none => .error ("shard_value 含非数字段: " ++ raw)
  | [start, stop] =>
    match Py.int start, Py.int stop with
    | some a, some b =>
      if b < a then .error ("shard_value 范围起止颠倒: " ++ raw) else .ok (a, b)
    | _, _ => .error ("shard_value 含非数字段: " ++ raw)
  | _ => .error ("shard_value 格式不可解析: " ++ raw)

/-- The loop over the tokens; migrating and importing markers are skipped. -/
def parseTokens (raw : String) : List String → List (ℤ × ℤ) → ShardParseResult
  | [], ranges =>
    if ranges = [] then unparseable ("shard_value 无可解析区间: " ++ raw) else ⟨ranges, true, ""⟩
  | token :: rest, ranges =>
    if token = "" then parseTokens raw rest ranges
    else if token.toList.head? = some '[' ∧ token.toList.getLast? = some ']' then
      parseTokens raw rest ranges
    else
      match parseToken raw token with
      | .error reason => unparseable reason
      | .ok range => parseTokens raw rest (ranges ++ [range])

def parseShardValue (shardValue : String) : ShardParseResult :=
  let raw := Py.strip shardValue
  if raw = "" then unparseable "shard_value 为空"
  else if raw = SWITCHED_SHARD_VALUE then unparseable "shard_value 为 switched-0，无法参与分片匹配"
  else parseTokens raw (rangeTokens raw) []

/-- A range that begins no later than one past the last merged range extends it. -/
def mergeRange (merged : List (ℤ × ℤ)) (range : ℤ × ℤ) : List (ℤ × ℤ) :=
  match merged.getLast? with
  | none => [range]
  | some last =>
    if range.1 ≤ last.2 + 1 then merged.dropLast ++ [(last.1, max last.2 range.2)]
    else merged ++ [range]

/-- The order of pairs. -/
def pairLe (p q : ℤ × ℤ) : Bool := p.1 < q.1 || (p.1 == q.1 && p.2 ≤ q.2)

def mergedRanges (ranges : List (ℤ × ℤ)) : List (ℤ × ℤ) :=
  (ranges.mergeSort pairLe).foldl mergeRange []

def renderRange (range : ℤ × ℤ) : String :=
  if range.1 = range.2 then Text.decimal range.1
  else Text.decimal range.1 ++ "-" ++ Text.decimal range.2

def slotRanges (shardValue : String) : String :=
  let parsed := parseShardValue shardValue
  if !parsed.parseable then ""
  else ",".intercalate ((mergedRanges parsed.ranges).map renderRange)

def coverageGaps (shardValues : List String) (total start : ℤ) : List ℤ :=
  let covered := shardValues.flatMap fun value =>
    let parsed := parseShardValue value
    if parsed.parseable then parsed.slots else []
  (slotRange (start, total - 1)).filter fun slot => slot ∉ covered

def rangesIntersect (left right : List (ℤ × ℤ)) : Bool :=
  left.any fun l => right.any fun r => l.1 ≤ r.2 && r.1 ≤ l.2

/-- Each value paired with the later ones that it intersects. -/
def conflictsAmong : List (String × List (ℤ × ℤ)) → List (String × String)
  | [] => []
  | left :: rest =>
    (rest.filter fun right => rangesIntersect left.2 right.2).map (fun right => (left.1, right.1)) ++
      conflictsAmong rest

def overlappingShards (shardValues : List String) : List (String × String) :=
  conflictsAmong (shardValues.filterMap fun value =>
    let parsed := parseShardValue value
    if parsed.parseable then some (value, parsed.ranges) else none)

/-- Why the planner refuses a layout. -/
inductive LayoutError
  | shard (shardValue : String)
  | overlap (conflicts : List (String × String))
  | gaps (missing : List ℤ)
  deriving DecidableEq

/-- What the evaluation of a selected shard finds in its value. -/
def evaluateShard (shardValue : String) : List LayoutError :=
  if (parseShardValue shardValue).parseable then [] else [.shard shardValue]

/-- `_check_layout` for a cluster whose nodes hold slots. -/
def checkLayout (shards placeholders : List String) : List LayoutError :=
  let covered := shards.filter (fun value => (evaluateShard value).isEmpty) ++ placeholders
  let conflicts := overlappingShards covered
  if conflicts ≠ [] then [.overlap conflicts]
  else
    let gaps := coverageGaps (shards ++ placeholders) CLUSTER_SLOT_TOTAL 0
    if gaps ≠ [] then [.gaps gaps] else []

/-- The evaluation reports no error about the layout of the selected and the placeholder shards. -/
def layoutOk (shards placeholders : List String) : Bool :=
  (shards.flatMap evaluateShard ++ checkLayout shards placeholders).isEmpty

section Ranges

variable {p range : ℤ × ℤ} {ranges merged : List (ℤ × ℤ)} {slot : ℤ}

theorem mem_slotRange : slot ∈ slotRange p ↔ p.1 ≤ slot ∧ slot ≤ p.2 := by
  constructor
  · intro h
    obtain ⟨n, hn, rfl⟩ := List.mem_map.mp h
    have hlt := List.mem_range.mp hn
    simp only [Int.ofNat_eq_natCast]
    omega
  · rintro ⟨hstart, hstop⟩
    refine List.mem_map.mpr ⟨(slot - p.1).toNat, List.mem_range.mpr (by omega), ?_⟩
    simp only [Int.ofNat_eq_natCast]
    omega

theorem slotRange_nodup : (slotRange p).Nodup := by
  apply List.Nodup.map ?_ List.nodup_range
  intro m n h
  simp only [Int.ofNat_eq_natCast] at h
  omega

theorem slotRange_length : (slotRange p).length = (p.2 + 1 - p.1).toNat := by
  simp [slotRange]

/-- A range that a value can name. -/
def ValidRange (p : ℤ × ℤ) : Prop := 0 ≤ p.1 ∧ p.1 ≤ p.2

theorem mergeRange_slots (hlast : ∀ last ∈ merged.getLast?, last.1 ≤ range.1) :
    slot ∈ (mergeRange merged range).flatMap slotRange ↔
      slot ∈ merged.flatMap slotRange ∨ slot ∈ slotRange range := by
  unfold mergeRange
  cases hm : merged.getLast? with
  | none =>
    obtain rfl := List.getLast?_eq_none_iff.mp hm
    simp
  | some last =>
    obtain ⟨init, rfl⟩ := List.getLast?_eq_some_iff.mp hm
    have hle : last.1 ≤ range.1 := hlast last hm
    dsimp only
    by_cases htouch : range.1 ≤ last.2 + 1
    · rw [if_pos htouch]
      simp only [List.dropLast_concat, List.flatMap_append, List.mem_append, List.flatMap_singleton,
        mem_slotRange, or_assoc]
      refine or_congr_right ?_
      omega
    · rw [if_neg htouch]
      simp only [List.flatMap_append, List.mem_append, List.flatMap_singleton]

theorem mergeRange_last (hlast : ∀ last ∈ merged.getLast?, last.1 ≤ range.1) :
    ∀ last ∈ (mergeRange merged range).getLast?, last.1 ≤ range.1 := by
  intro last h
  unfold mergeRange at h
  cases hm : merged.getLast? with
  | none =>
    rw [hm] at h
    obtain rfl : range = last := by simpa using h
    exact le_rfl
  | some old =>
    rw [hm] at h
    dsimp only at h
    by_cases htouch : range.1 ≤ old.2 + 1
    · rw [if_pos htouch] at h
      obtain rfl : (old.1, max old.2 range.2) = last := by simpa using h
      exact hlast old hm
    · rw [if_neg htouch] at h
      obtain rfl : range = last := by simpa using h
      exact le_rfl

theorem mergeRange_valid (hmerged : ∀ p ∈ merged, ValidRange p) (hrange : ValidRange range) :
    ∀ p ∈ mergeRange merged range, ValidRange p := by
  intro p hp
  unfold mergeRange at hp
  cases hm : merged.getLast? with
  | none =>
    rw [hm] at hp
    obtain rfl := List.mem_singleton.mp hp
    exact hrange
  | some last =>
    rw [hm] at hp
    dsimp only at hp
    have hlast : ValidRange last := hmerged last (List.mem_of_getLast? hm)
    by_cases htouch : range.1 ≤ last.2 + 1
    · rw [if_pos htouch] at hp
      rcases List.mem_append.mp hp with hp | hp
      · exact hmerged p (List.mem_of_mem_dropLast hp)
      · obtain rfl := List.mem_singleton.mp hp
        exact ⟨hlast.1, hlast.2.trans (le_max_left _ _)⟩
    · rw [if_neg htouch] at hp
      rcases List.mem_append.mp hp with hp | hp
      · exact hmerged p hp
      · obtain rfl := List.mem_singleton.mp hp
        exact hrange

theorem foldl_mergeRange_slots (hsorted : ranges.Pairwise fun a b => a.1 ≤ b.1)
    (hlast : ∀ last ∈ merged.getLast?, ∀ p ∈ ranges, last.1 ≤ p.1) :
    slot ∈ (ranges.foldl mergeRange merged).flatMap slotRange ↔
      slot ∈ merged.flatMap slotRange ∨ slot ∈ ranges.flatMap slotRange := by
  induction ranges generalizing merged with
  | nil => simp
  | cons range ranges ih =>
    obtain ⟨hfirst, hrest⟩ := List.pairwise_cons.mp hsorted
    have hstart : ∀ last ∈ merged.getLast?, last.1 ≤ range.1 :=
      fun last hm => hlast last hm range List.mem_cons_self
    rw [List.foldl_cons, ih hrest ?_, mergeRange_slots hstart, List.flatMap_cons, List.mem_append,
      or_assoc]
    intro last hm p hp
    exact (mergeRange_last hstart last hm).trans (hfirst p hp)

theorem foldl_mergeRange_valid (hmerged : ∀ p ∈ merged, ValidRange p)
    (hranges : ∀ p ∈ ranges, ValidRange p) :
    ∀ p ∈ ranges.foldl mergeRange merged, ValidRange p := by
  induction ranges generalizing merged with
  | nil => exact hmerged
  | cons range ranges ih =>
    obtain ⟨hrange, hrest⟩ := List.forall_mem_cons.mp hranges
    exact ih (mergeRange_valid hmerged hrange) hrest

theorem sorted_pairs : (ranges.mergeSort pairLe).Pairwise fun a b => a.1 ≤ b.1 := by
  have hsorted : (ranges.mergeSort pairLe).Pairwise fun a b => pairLe a b = true := by
    apply List.pairwise_mergeSort
    · intro a b c hab hbc
      simp only [pairLe, Bool.or_eq_true, Bool.and_eq_true, decide_eq_true_eq, beq_iff_eq] at *
      omega
    · intro a b
      simp only [pairLe, Bool.or_eq_true, Bool.and_eq_true, decide_eq_true_eq, beq_iff_eq]
      omega
  refine hsorted.imp ?_
  intro a b hab
  simp only [pairLe, Bool.or_eq_true, Bool.and_eq_true, decide_eq_true_eq, beq_iff_eq] at hab
  omega

/-- Merging keeps the slots. -/
theorem mergedRanges_slots :
    slot ∈ (mergedRanges ranges).flatMap slotRange ↔ slot ∈ ranges.flatMap slotRange := by
  rw [mergedRanges, foldl_mergeRange_slots sorted_pairs (by simp)]
  simp [List.mem_flatMap]

theorem mergedRanges_valid (h : ∀ p ∈ ranges, ValidRange p) :
    ∀ p ∈ mergedRanges ranges, ValidRange p := by
  apply foldl_mergeRange_valid (by simp)
  intro p hp
  exact h p (List.mem_mergeSort.mp hp)

theorem rangesIntersect_iff {left right : List (ℤ × ℤ)} (hleft : ∀ p ∈ left, ValidRange p)
    (hright : ∀ p ∈ right, ValidRange p) : rangesIntersect left right = true ↔
      ∃ slot, slot ∈ left.flatMap slotRange ∧ slot ∈ right.flatMap slotRange := by
  simp only [rangesIntersect, List.any_eq_true, Bool.and_eq_true, decide_eq_true_eq,
    List.mem_flatMap, mem_slotRange]
  constructor
  · rintro ⟨l, hl, r, hr, hlr, hrl⟩
    have hvl := (hleft l hl).2
    have hvr := (hright r hr).2
    exact ⟨max l.1 r.1, ⟨l, hl, by omega⟩, r, hr, by omega⟩
  · rintro ⟨slot, ⟨l, hl, hsl⟩, r, hr, hsr⟩
    exact ⟨l, hl, r, hr, by omega⟩

end Ranges

section Parsing

variable {raw token shardValue : String} {ranges : List (ℤ × ℤ)}

theorem parseToken_valid {range : ℤ × ℤ} (h : parseToken raw token = .ok range) :
    ValidRange range := by
  unfold parseToken at h
  have hpart : ∀ part ∈ Text.split token '-', '-' ∉ part.toList :=
    fun part hpart => Text.mem_split_no_sep hpart
  split at h
  · rename_i slot hsplit
    have hslot := hpart slot (by simp [hsplit])
    cases hint : Py.int slot with
    | none => simp [hint] at h
    | some n =>
      obtain rfl : (n, n) = range := by simpa [hint] using h
      exact ⟨Py.int_nonneg hslot hint, le_rfl⟩
  · rename_i start stop hsplit
    have hstart := hpart start (by simp [hsplit])
    cases ha : Py.int start with
    | none => simp [ha] at h
    | some a =>
      cases hb : Py.int stop with
      | none => simp [ha, hb] at h
      | some b =>
        by_cases hlt : b < a
        · simp [ha, hb, hlt] at h
        · obtain rfl : (a, b) = range := by simpa [ha, hb, hlt] using h
          exact ⟨Py.int_nonneg hstart ha, by simpa using hlt⟩
  · cases h

theorem parseTokens_valid {tokens : List String} (h : ∀ p ∈ ranges, ValidRange p) :
    ∀ p ∈ (parseTokens raw tokens ranges).ranges, ValidRange p := by
  induction tokens generalizing ranges with
  | nil =>
    unfold parseTokens
    split
    · simp [unparseable]
    · exact h
  | cons token rest ih =>
    unfold parseTokens
    split
    · exact ih h
    · split
      · exact ih h
      · split
        · simp [unparseable]
        · rename_i range hrange
          apply ih
          intro p hp
          rcases List.mem_append.mp hp with hp | hp
          · exact h p hp
          · obtain rfl := List.mem_singleton.mp hp
            exact parseToken_valid hrange

theorem parseShardValue_valid (shardValue : String) : ∀ p ∈ (parseShardValue shardValue).ranges, ValidRange p := by
  unfold parseShardValue
  dsimp only
  split
  · simp [unparseable]
  · split
    · simp [unparseable]
    · exact parseTokens_valid (by simp)

theorem parseTokens_unparseable {tokens : List String}
    (h : (parseTokens raw tokens ranges).parseable = false) :
    (parseTokens raw tokens ranges).ranges = [] := by
  induction tokens generalizing ranges with
  | nil =>
    unfold parseTokens at h ⊢
    split
    · rfl
    · rename_i hne
      rw [if_neg hne] at h
      cases h
  | cons token rest ih =>
    unfold parseTokens at h ⊢
    split
    · rename_i hempty
      rw [if_pos hempty] at h
      exact ih h
    · rename_i hempty
      rw [if_neg hempty] at h
      split
      · rename_i hmarker
        rw [if_pos hmarker] at h
        exact ih h
      · rename_i hmarker
        rw [if_neg hmarker] at h
        cases hparse : parseToken raw token with
        | error reason => rfl
        | ok range =>
          rw [hparse] at h
          exact ih h

/-- A value that cannot be parsed has no slots. -/
theorem parseShardValue_unparseable (h : (parseShardValue shardValue).parseable = false) :
    (parseShardValue shardValue).ranges = [] := by
  unfold parseShardValue at h ⊢
  dsimp only at h ⊢
  split
  · rfl
  · rename_i hempty
    rw [if_neg hempty] at h
    split
    · rfl
    · rename_i hswitched
      rw [if_neg hswitched] at h
      exact parseTokens_unparseable h

end Parsing

/-- The slots that a value stands for. -/
def slotsOf (shardValue : String) : List ℤ := (parseShardValue shardValue).slots

section Layout

variable {shards placeholders layout : List String} {shardValue : String} {slot : ℤ}

theorem slotsOf_unparseable (h : (parseShardValue shardValue).parseable = false) :
    slotsOf shardValue = [] := by
  rw [slotsOf, ShardParseResult.slots, parseShardValue_unparseable h]
  rfl

theorem conflictsAmong_eq_nil {parsed : List (String × List (ℤ × ℤ))} :
    conflictsAmong parsed = [] ↔
      parsed.Pairwise fun left right => rangesIntersect left.2 right.2 = false := by
  induction parsed with
  | nil => simp [conflictsAmong]
  | cons left rest ih =>
    rw [conflictsAmong, List.append_eq_nil_iff, ih, List.pairwise_cons, List.map_eq_nil_iff,
      List.filter_eq_nil_iff]
    simp only [Bool.not_eq_true]

/-- No two values of the layout claim a slot together. -/
def Disjoint (layout : List String) : Prop :=
  layout.Pairwise fun left right => ∀ slot, slot ∈ slotsOf left → slot ∉ slotsOf right

theorem overlappingShards_eq_nil : overlappingShards layout = [] ↔ Disjoint layout := by
  rw [overlappingShards, conflictsAmong_eq_nil, List.pairwise_filterMap, Disjoint]
  apply iff_of_eq
  congr 1
  funext left right
  apply propext
  dsimp only
  cases hleft : (parseShardValue left).parseable with
  | false => simp [slotsOf_unparseable hleft]
  | true =>
    cases hright : (parseShardValue right).parseable with
    | false => simp [slotsOf_unparseable hright]
    | true =>
      have hsame := rangesIntersect_iff (parseShardValue_valid left) (parseShardValue_valid right)
      simp only [if_true, Option.some_inj]
      constructor
      · intro h slot hl hr
        have hnot := h _ rfl _ rfl
        have hcommon := hsame.mpr ⟨slot, hl, hr⟩
        rw [hcommon] at hnot
        cases hnot
      · rintro h _ rfl _ rfl
        apply Bool.eq_false_iff.mpr
        intro hcommon
        obtain ⟨slot, hl, hr⟩ := hsame.mp hcommon
        exact h slot hl hr

theorem coverageGaps_eq_nil {total : ℤ} : coverageGaps layout total 0 = [] ↔
    ∀ slot, 0 ≤ slot → slot < total → ∃ value ∈ layout, slot ∈ slotsOf value := by
  have hcovered : ∀ value, (if (parseShardValue value).parseable then (parseShardValue value).slots
      else []) = slotsOf value := by
    intro value
    cases hvalue : (parseShardValue value).parseable with
    | false => simp [slotsOf_unparseable hvalue]
    | true => rfl
  simp only [coverageGaps, hcovered, List.filter_eq_nil_iff, mem_slotRange, List.mem_flatMap,
    decide_eq_true_eq, not_not]
  constructor
  · intro h slot hstart hstop
    exact h slot ⟨hstart, by omega⟩
  · rintro h slot ⟨hstart, hstop⟩
    exact h slot hstart (by omega)

/-- What the planner's check of a layout says. -/
theorem layoutOk_iff : layoutOk shards placeholders = true ↔
    (∀ value ∈ shards, (parseShardValue value).parseable = true) ∧
      Disjoint (shards ++ placeholders) ∧
      ∀ slot, 0 ≤ slot → slot < CLUSTER_SLOT_TOTAL →
        ∃ value ∈ shards ++ placeholders, slot ∈ slotsOf value := by
  have hshard : ∀ value, evaluateShard value = [] ↔ (parseShardValue value).parseable = true := by
    intro value
    unfold evaluateShard
    split <;> simp_all
  rw [layoutOk, List.isEmpty_iff, List.append_eq_nil_iff, List.flatMap_eq_nil_iff]
  simp only [hshard]
  refine and_congr_right ?_
  intro hshards
  have hall : shards.filter (fun value => (evaluateShard value).isEmpty) = shards := by
    rw [List.filter_eq_self]
    intro value hvalue
    rw [(hshard value).mpr (hshards value hvalue)]
    rfl
  rw [← overlappingShards_eq_nil, ← coverageGaps_eq_nil, checkLayout, hall]
  dsimp only
  by_cases hconflicts : overlappingShards (shards ++ placeholders) = []
  · rw [if_neg (by simpa using hconflicts)]
    by_cases hgaps : coverageGaps (shards ++ placeholders) CLUSTER_SLOT_TOTAL 0 = []
    · simp [hconflicts, hgaps]
    · simp [hgaps]
  · simp [hconflicts]

end Layout

end Rollback
