import BluekingDbm.Rollback.Shards

/-! The segments that shard values name, and the parts of a route that a backup batch does not
cover. -/
namespace Rollback

open Numeral

/-- A key's route: the range of the shard it lies in, and its slot where there are slots. -/
structure KeyRoute where
  range : String
  slot : Option ℤ
  deriving DecidableEq, Repr

/-- What is left of the positions from the cursor to the end of a range. -/
def restOf (cursor stop : ℤ) : List (ℤ × ℤ) := if cursor ≤ stop then [(cursor, stop)] else []

/-- The loop over the covering ranges, in their order. -/
def uncoveredFrom (stop : ℤ) : ℤ → List (ℤ × ℤ) → List (ℤ × ℤ)
  | cursor, [] => restOf cursor stop
  | cursor, cover :: covering =>
    if cover.2 < cursor then uncoveredFrom stop cursor covering
    else if stop < cover.1 then restOf cursor stop
    else
      let gap := if cursor < cover.1 then [(cursor, cover.1 - 1)] else []
      let next := cover.2 + 1
      if stop < next then gap ++ restOf next stop else gap ++ uncoveredFrom stop next covering

/-- The parts of the target outside every covering range. -/
def uncovered (target covering : List (ℤ × ℤ)) : List (ℤ × ℤ) :=
  target.flatMap fun range => uncoveredFrom range.2 range.1 (covering.mergeSort pairLe)

/-- The shards of the batch that a route needs, and what of it they do not cover. The only shard of
a cluster holds every key. -/
def expand (hit : KeyRoute) (batch : List (String × List (ℤ × ℤ))) (singleShard : Bool) :
    List String × List String :=
  let target :=
    if singleShard then []
    else
      match hit.slot with
      | some slot => [(slot, slot)]
      | none =>
        let parsed := parseShardValue hit.range
        if parsed.parseable then parsed.ranges else []
  let selected :=
    if singleShard then batch else batch.filter fun shard => rangesIntersect shard.2 target
  (selected.map Prod.fst, (uncovered target (selected.flatMap Prod.snd)).map renderRange)

/-- A position in one of the ranges. -/
def InRanges (n : ℤ) (ranges : List (ℤ × ℤ)) : Prop := ∃ p ∈ ranges, p.1 ≤ n ∧ n ≤ p.2

section Sweeping

variable {n cursor stop : ℤ} {target covering : List (ℤ × ℤ)} {p : ℤ × ℤ}

theorem not_inRanges_nil : ¬ InRanges n [] := fun ⟨_, hp, _⟩ => List.not_mem_nil hp

theorem inRanges_cons : InRanges n (p :: covering) ↔ p.1 ≤ n ∧ n ≤ p.2 ∨ InRanges n covering := by
  simp [InRanges]

theorem inRanges_append :
    InRanges n (target ++ covering) ↔ InRanges n target ∨ InRanges n covering := by
  simp only [InRanges, List.mem_append, or_and_right, exists_or]

theorem inRanges_restOf : InRanges n (restOf cursor stop) ↔ cursor ≤ n ∧ n ≤ stop := by
  unfold restOf
  split
  · simp [InRanges]
  · simp only [InRanges, List.not_mem_nil, false_and, exists_false, false_iff]
    omega

theorem not_inRanges_of_lt (h : ∀ c ∈ covering, n < c.1) : ¬ InRanges n covering := by
  rintro ⟨c, hc, hlow, -⟩
  have := h c hc
  omega

/-- What lies before the cursor was dealt with; what lies from it on is left where no range behind
covers it. -/
theorem inRanges_uncoveredFrom (hsorted : covering.Pairwise fun a b => a.1 ≤ b.1) :
    InRanges n (uncoveredFrom stop cursor covering) ↔
      (cursor ≤ n ∧ n ≤ stop) ∧ ¬ InRanges n covering := by
  induction covering generalizing cursor with
  | nil =>
    rw [uncoveredFrom, inRanges_restOf]
    exact (and_iff_left not_inRanges_nil).symm
  | cons cover covering ih =>
    obtain ⟨hfirst, hrest⟩ := List.pairwise_cons.mp hsorted
    have hafter : n < cover.1 → ¬ InRanges n covering := by
      intro hn
      refine not_inRanges_of_lt fun c hc => ?_
      have := hfirst c hc
      omega
    rw [inRanges_cons]
    unfold uncoveredFrom
    by_cases hpassed : cover.2 < cursor
    · rw [if_pos hpassed, ih hrest]
      constructor
      · rintro ⟨hn, hnot⟩
        refine ⟨hn, ?_⟩
        rintro (hcover | hcover)
        · omega
        · exact hnot hcover
      · rintro ⟨hn, hnot⟩
        exact ⟨hn, fun h => hnot (Or.inr h)⟩
    · rw [if_neg hpassed]
      by_cases hbeyond : stop < cover.1
      · rw [if_pos hbeyond, inRanges_restOf]
        refine ⟨fun hn => ⟨hn, ?_⟩, fun h => h.1⟩
        rintro (hcover | hcover)
        · omega
        · exact hafter (by omega) hcover
      · have hgap : InRanges n (if cursor < cover.1 then [(cursor, cover.1 - 1)] else []) ↔
            cursor ≤ n ∧ n < cover.1 := by
          split
          · simp only [InRanges, List.mem_singleton, exists_eq_left]
            omega
          · simp only [InRanges, List.not_mem_nil, false_and, exists_false, false_iff]
            omega
        rw [if_neg hbeyond]
        dsimp only
        split
        · rw [inRanges_append, hgap, inRanges_restOf]
          constructor
          · rintro (hn | hn)
            · refine ⟨by omega, ?_⟩
              rintro (hcover | hcover)
              · omega
              · exact hafter hn.2 hcover
            · omega
          · rintro ⟨hn, hnot⟩
            by_cases hlt : n < cover.1
            · exact Or.inl ⟨hn.1, hlt⟩
            · exact absurd (Or.inl ⟨by omega, by omega⟩) hnot
        · rw [inRanges_append, hgap, ih hrest]
          constructor
          · rintro (hn | ⟨hn, hnot⟩)
            · refine ⟨by omega, ?_⟩
              rintro (hcover | hcover)
              · omega
              · exact hafter hn.2 hcover
            · refine ⟨by omega, ?_⟩
              rintro (hcover | hcover)
              · omega
              · exact hnot hcover
          · rintro ⟨hn, hnot⟩
            by_cases hlt : n < cover.1
            · exact Or.inl ⟨hn.1, hlt⟩
            · refine Or.inr ⟨⟨?_, hn.2⟩, fun h => hnot (Or.inr h)⟩
              by_contra hcovered
              exact hnot (Or.inl ⟨by omega, by omega⟩)

theorem inRanges_uncovered :
    InRanges n (uncovered target covering) ↔ InRanges n target ∧ ¬ InRanges n covering := by
  have hsame : InRanges n (covering.mergeSort pairLe) ↔ InRanges n covering := by
    simp [InRanges, List.mem_mergeSort]
  have hone : ∀ range : ℤ × ℤ,
      InRanges n (uncoveredFrom range.2 range.1 (covering.mergeSort pairLe)) ↔
        (range.1 ≤ n ∧ n ≤ range.2) ∧ ¬ InRanges n covering := by
    intro range
    rw [inRanges_uncoveredFrom sorted_pairs, hsame]
  constructor
  · rintro ⟨p, hp, hn⟩
    obtain ⟨range, hrange, hp⟩ := List.mem_flatMap.mp hp
    obtain ⟨hin, hnot⟩ := (hone range).mp ⟨p, hp, hn⟩
    exact ⟨⟨range, hrange, hin⟩, hnot⟩
  · rintro ⟨⟨range, hrange, hin⟩, hnot⟩
    obtain ⟨p, hp, hn⟩ := (hone range).mpr ⟨hin, hnot⟩
    exact ⟨p, List.mem_flatMap.mpr ⟨range, hrange, hp⟩, hn⟩

/-- A shard that is not selected covers nothing of the target, so leaving it out loses nothing. -/
theorem inRanges_uncovered_selected (batch : List (String × List (ℤ × ℤ))) :
    InRanges n (uncovered target
        ((batch.filter fun shard => rangesIntersect shard.2 target).flatMap Prod.snd)) ↔
      InRanges n target ∧ ∀ shard ∈ batch, ¬ InRanges n shard.2 := by
  rw [inRanges_uncovered]
  refine and_congr_right fun htarget => ?_
  constructor
  · rintro hnot shard hshard ⟨p, hp, hin⟩
    obtain ⟨range, hrange, hn⟩ := htarget
    refine hnot ⟨p, List.mem_flatMap.mpr ⟨shard, List.mem_filter.mpr ⟨hshard, ?_⟩, hp⟩, hin⟩
    simp only [rangesIntersect, List.any_eq_true, Bool.and_eq_true, decide_eq_true_eq]
    exact ⟨p, hp, range, hrange, by omega, by omega⟩
  · rintro hall ⟨p, hp, hin⟩
    obtain ⟨shard, hshard, hp⟩ := List.mem_flatMap.mp hp
    exact hall shard (List.mem_filter.mp hshard).1 ⟨p, hp, hin⟩

theorem uncoveredFrom_valid (h : p ∈ uncoveredFrom stop cursor covering) : p.1 ≤ p.2 := by
  have hrest : ∀ {cursor : ℤ}, p ∈ restOf cursor stop → p.1 ≤ p.2 := by
    intro cursor hp
    unfold restOf at hp
    split at hp
    · rw [List.mem_singleton.mp hp]
      assumption
    · cases hp
  induction covering generalizing cursor with
  | nil => exact hrest h
  | cons cover covering ih =>
    have hgap : p ∈ (if cursor < cover.1 then [(cursor, cover.1 - 1)] else []) → p.1 ≤ p.2 := by
      intro hp
      split at hp
      · rw [List.mem_singleton.mp hp]
        dsimp only
        omega
      · cases hp
    unfold uncoveredFrom at h
    split at h
    · exact ih h
    · split at h
      · exact hrest h
      · dsimp only at h
        split at h
        · rcases List.mem_append.mp h with h | h
          · exact hgap h
          · exact hrest h
        · rcases List.mem_append.mp h with h | h
          · exact hgap h
          · exact ih h

/-- Nothing of a route is reported as uncovered just where the batch holds all of its target. -/
theorem expand_covered (hit : KeyRoute) (batch : List (String × List (ℤ × ℤ))) :
    (expand hit batch false).2 = [] ↔
      ∀ n, (match hit.slot with
        | some slot => n = slot
        | none => n ∈ slotsOf hit.range) → ∃ shard ∈ batch, InRanges n shard.2 := by
  have htarget : ∀ n, InRanges n (match hit.slot with
      | some slot => [(slot, slot)]
      | none => if (parseShardValue hit.range).parseable then (parseShardValue hit.range).ranges
          else []) ↔
      (match hit.slot with
        | some slot => n = slot
        | none => n ∈ slotsOf hit.range) := by
    intro n
    cases hit.slot with
    | some slot =>
      simp only [InRanges, List.mem_singleton, exists_eq_left]
      omega
    | none =>
      simp only [slotsOf, ShardParseResult.slots, List.mem_flatMap, mem_slotRange]
      split
      · rfl
      · rename_i h
        rw [parseShardValue_unparseable (by simpa using h)]
        rfl
  simp only [expand, Bool.false_eq_true, if_false, List.map_eq_nil_iff]
  constructor
  · intro hnil n hn
    by_contra hnone
    have hleft := (inRanges_uncovered_selected batch).mpr
      ⟨(htarget n).mpr hn, fun shard hshard hin => hnone ⟨shard, hshard, hin⟩⟩
    rw [hnil] at hleft
    exact not_inRanges_nil hleft
  · intro hall
    by_contra hne
    obtain ⟨p, hp⟩ := List.exists_mem_of_ne_nil _ hne
    obtain ⟨range, -, hvalid⟩ := List.mem_flatMap.mp hp
    obtain ⟨hn, hnot⟩ := (inRanges_uncovered_selected batch).mp
      ⟨p, hp, le_refl p.1, uncoveredFrom_valid hvalid⟩
    obtain ⟨shard, hshard, hin⟩ := hall p.1 ((htarget p.1).mp hn)
    exact hnot shard hshard hin

end Sweeping

/-- The tokens of a text: its longest runs without a space or a comma. -/
def rangeWords (text : String) : List String := (rangeTokens text).filter fun token => token ≠ ""

/-- A migrating or importing marker. -/
def IsMarker (token : String) : Prop :=
  token.toList.head? = some '[' ∧ token.toList.getLast? = some ']'

/-- The segments from `a` to `b` that a token names. -/
inductive TokenNames : String → ℤ → ℤ → Prop
  | slot {s : String} {n : ℤ} (hs : '-' ∉ s.toList) (hn : Py.int s = some n) : TokenNames s n n
  | range {s e : String} {a b : ℤ} (hs : '-' ∉ s.toList) (he : '-' ∉ e.toList)
      (ha : Py.int s = some a) (hb : Py.int e = some b) (hle : a ≤ b) :
      TokenNames (s ++ "-" ++ e) a b

/-- Every token is a marker or names segments, and one at least names some. -/
def NamesSegments (text : String) : Prop :=
  (∀ token ∈ rangeWords text, IsMarker token ∨ ∃ a b, TokenNames token a b) ∧
    ∃ token ∈ rangeWords text, ¬ IsMarker token

/-- A segment that a text names. -/
def NamesSegment (text : String) (n : ℤ) : Prop :=
  ∃ token ∈ rangeWords text, ¬ IsMarker token ∧ ∃ a b, TokenNames token a b ∧ a ≤ n ∧ n ≤ b

section Words

variable {cs xs ys : List Char} {c : Char}

/-- What separates the tokens. -/
def isRangeSeparator (c : Char) : Bool := Py.isSpace c || c == ','

def charWords (cs : List Char) : List String :=
  ((cs.splitOnP isRangeSeparator).map String.ofList).filter fun token => token ≠ ""

theorem rangeWords_eq (text : String) : rangeWords text = charWords text.toList := rfl

theorem charWords_append_cons (hc : isRangeSeparator c = true) :
    charWords (xs ++ c :: ys) = charWords xs ++ charWords ys := by
  rw [charWords, List.splitOnP_append_cons xs ys hc, List.map_append, List.filter_append]
  rfl

theorem charWords_spaces (h : ∀ c ∈ xs, isRangeSeparator c = true) (ys : List Char) :
    charWords (xs ++ ys) = charWords ys := by
  induction xs with
  | nil => rfl
  | cons c xs ih =>
    obtain ⟨hc, hxs⟩ := List.forall_mem_cons.mp h
    have hsplit := @charWords_append_cons [] (xs ++ ys) c hc
    rw [List.nil_append] at hsplit
    rw [List.cons_append, hsplit, ih hxs]
    rfl

theorem charWords_append_spaces (h : ∀ c ∈ ys, isRangeSeparator c = true) (xs : List Char) :
    charWords (xs ++ ys) = charWords xs := by
  cases ys with
  | nil => rw [List.append_nil]
  | cons c ys =>
    obtain ⟨hc, hys⟩ := List.forall_mem_cons.mp h
    have hnone := charWords_spaces hys []
    rw [List.append_nil] at hnone
    have hempty : charWords [] = [] := rfl
    rw [charWords_append_cons hc, hnone, hempty, List.append_nil]

/-- Spaces at the ends make no tokens. -/
theorem rangeWords_strip (text : String) : rangeWords (Py.strip text) = rangeWords text := by
  have hspace : ∀ {xs : List Char}, ∀ c ∈ xs.takeWhile Py.isSpace, isRangeSeparator c = true := by
    intro xs c hc
    have hall := List.all_eq_true.mp (List.all_takeWhile (p := Py.isSpace) (l := xs)) c hc
    simp [isRangeSeparator, hall]
  have hback : ∀ xs : List Char,
      charWords ((xs.reverse.dropWhile Py.isSpace).reverse) = charWords xs := by
    intro xs
    have hsplit : xs = (xs.reverse.dropWhile Py.isSpace).reverse ++
        (xs.reverse.takeWhile Py.isSpace).reverse := by
      rw [← List.reverse_append, List.takeWhile_append_dropWhile, List.reverse_reverse]
    have hends := @charWords_append_spaces (xs.reverse.takeWhile Py.isSpace).reverse
      (fun c hc => hspace c (List.mem_reverse.mp hc)) (xs.reverse.dropWhile Py.isSpace).reverse
    rw [← hsplit] at hends
    exact hends.symm
  have hfront := @charWords_spaces (text.toList.takeWhile Py.isSpace) hspace
    (text.toList.dropWhile Py.isSpace)
  rw [List.takeWhile_append_dropWhile] at hfront
  rw [rangeWords_eq, rangeWords_eq, hfront, Py.strip, String.toList_ofList]
  exact hback _

end Words

section Tokens

variable {raw token : String} {tokens : List String} {ranges : List (ℤ × ℤ)} {range : ℤ × ℤ}

theorem parseToken_ok_iff :
    parseToken raw token = .ok range ↔ TokenNames token range.1 range.2 := by
  constructor
  · intro h
    have hjoin : "-".intercalate (Text.split token '-') = token := Text.intercalate_split rfl
    have hpart : ∀ part ∈ Text.split token '-', '-' ∉ part.toList :=
      fun part hpart => Text.mem_split_no_sep hpart
    unfold parseToken at h
    split at h
    · rename_i slot hsplit
      rw [hsplit] at hjoin hpart
      cases hint : Py.int slot with
      | none => simp [hint] at h
      | some n =>
        obtain rfl : (n, n) = range := by simpa [hint] using h
        obtain rfl : slot = token := by simpa using hjoin
        exact .slot (hpart slot List.mem_cons_self) hint
    · rename_i start stop hsplit
      rw [hsplit] at hjoin hpart
      cases ha : Py.int start with
      | none => simp [ha] at h
      | some a =>
        cases hb : Py.int stop with
        | none => simp [ha, hb] at h
        | some b =>
          by_cases hlt : b < a
          · simp [ha, hb, hlt] at h
          · obtain rfl : (a, b) = range := by simpa [ha, hb, hlt] using h
            rw [← hjoin]
            exact .range (hpart start (by simp)) (hpart stop (by simp)) ha hb (by simpa using hlt)
    · cases h
  · intro h
    obtain ⟨a, b⟩ := range
    dsimp only at h
    cases h with
    | slot hs hn =>
      have hsplit : Text.split token '-' = [token] := by
        have hitems := @Text.split_intercalate '-' [token] "-" rfl (List.cons_ne_nil _ _) (by simpa)
        simpa using hitems
      simp [parseToken, hsplit, hn]
    | @range s e _ _ hs he ha hb hle =>
      have hsplit : Text.split (s ++ "-" ++ e) '-' = [s, e] :=
        @Text.split_intercalate '-' [s, e] "-" rfl (List.cons_ne_nil _ _) (by simp [hs, he])
      simp [parseToken, hsplit, ha, hb, not_lt.mpr hle]

theorem parseTokens_empty :
    parseTokens raw ("" :: tokens) ranges = parseTokens raw tokens ranges := by
  rw [parseTokens, if_pos rfl]

theorem parseTokens_marker (hne : token ≠ "") (h : IsMarker token) :
    parseTokens raw (token :: tokens) ranges = parseTokens raw tokens ranges := by
  rw [parseTokens, if_neg hne]
  exact if_pos h

theorem parseTokens_error {reason : String} (hne : token ≠ "") (h : ¬ IsMarker token)
    (herror : parseToken raw token = .error reason) :
    parseTokens raw (token :: tokens) ranges = unparseable reason := by
  rw [parseTokens, if_neg hne, herror]
  exact if_neg h

theorem parseTokens_ok (hne : token ≠ "") (h : ¬ IsMarker token)
    (hok : parseToken raw token = .ok range) :
    parseTokens raw (token :: tokens) ranges = parseTokens raw tokens (ranges ++ [range]) := by
  rw [parseTokens, if_neg hne, hok]
  exact if_neg h

/-- The loop takes the tokens if every one is a marker or names segments, and then has a range for
each that names some. -/
theorem parseTokens_spec :
    ((parseTokens raw tokens ranges).parseable = true ↔
      (∀ token ∈ tokens, token ≠ "" → ¬ IsMarker token → ∃ a b, TokenNames token a b) ∧
        (ranges ≠ [] ∨ ∃ token ∈ tokens, token ≠ "" ∧ ¬ IsMarker token)) ∧
    ((parseTokens raw tokens ranges).parseable = true → ∀ p,
      p ∈ (parseTokens raw tokens ranges).ranges ↔
        p ∈ ranges ∨ ∃ token ∈ tokens, token ≠ "" ∧ ¬ IsMarker token ∧ TokenNames token p.1 p.2) := by
  induction tokens generalizing ranges with
  | nil =>
    unfold parseTokens
    by_cases hranges : ranges = []
    · simp [hranges, unparseable]
    · simp [hranges]
  | cons token rest ih =>
    by_cases hempty : token = ""
    · subst hempty
      rw [parseTokens_empty]
      simpa using @ih ranges
    · by_cases hmarker : IsMarker token
      · rw [parseTokens_marker hempty hmarker]
        simpa [hempty, hmarker] using @ih ranges
      · cases hparse : parseToken raw token with
        | error reason =>
          have hnone : ¬ ∃ a b, TokenNames token a b := by
            rintro ⟨a, b, h⟩
            have hok := (@parseToken_ok_iff raw token (a, b)).mpr h
            cases hparse.symm.trans hok
          rw [parseTokens_error hempty hmarker hparse]
          constructor
          · constructor
            · intro h
              cases h
            · rintro ⟨hall, -⟩
              exact absurd (hall token List.mem_cons_self hempty hmarker) hnone
          · intro h
            cases h
        | ok range =>
          have hnames : ∀ a b, TokenNames token a b ↔ (a, b) = range := by
            intro a b
            rw [← @parseToken_ok_iff raw token (a, b), hparse]
            exact ⟨fun h => (Except.ok.inj h).symm, fun h => by rw [h]⟩
          obtain ⟨hok, hmem⟩ := @ih (ranges ++ [range])
          rw [parseTokens_ok hempty hmarker hparse]
          constructor
          · rw [hok]
            constructor
            · rintro ⟨hall, -⟩
              refine ⟨?_, Or.inr ⟨token, List.mem_cons_self, hempty, hmarker⟩⟩
              intro other hother hne hnot
              rcases List.mem_cons.mp hother with rfl | hother
              · exact ⟨range.1, range.2, (hnames _ _).mpr rfl⟩
              · exact hall other hother hne hnot
            · rintro ⟨hall, -⟩
              exact ⟨fun other hother => hall other (List.mem_cons_of_mem _ hother),
                Or.inl (by simp)⟩
          · intro hparseable p
            rw [hmem hparseable p, List.mem_append, List.mem_singleton]
            constructor
            · rintro ((hp | rfl) | ⟨other, hother, h⟩)
              · exact Or.inl hp
              · exact Or.inr ⟨token, List.mem_cons_self, hempty, hmarker, (hnames _ _).mpr rfl⟩
              · exact Or.inr ⟨other, List.mem_cons_of_mem _ hother, h⟩
            · rintro (hp | ⟨other, hother, hne, hnot, h⟩)
              · exact Or.inl (Or.inl hp)
              · rcases List.mem_cons.mp hother with rfl | hother
                · exact Or.inl (Or.inr ((hnames _ _).mp h))
                · exact Or.inr ⟨other, hother, hne, hnot, h⟩

theorem not_names_switched (a b : ℤ) : ¬ TokenNames SWITCHED_SHARD_VALUE a b := by
  intro h
  have hok := (@parseToken_ok_iff "" SWITCHED_SHARD_VALUE (a, b)).mpr h
  have herror : parseToken "" SWITCHED_SHARD_VALUE = .error ("shard_value 含非数字段: " ++ "") := by
    decide +kernel
  cases herror.symm.trans hok

/-- A value is taken just where its text names segments, each token in full, and then stands for
these segments. -/
theorem parseShardValue_iff (text : String) :
    ((parseShardValue text).parseable = true ↔ NamesSegments text) ∧
      ((parseShardValue text).parseable = true →
        ∀ n, n ∈ slotsOf text ↔ NamesSegment text n) := by
  have hwords : ∀ token, token ∈ rangeWords text ↔
      token ∈ rangeTokens (Py.strip text) ∧ token ≠ "" := by
    intro token
    rw [← rangeWords_strip, rangeWords, List.mem_filter, decide_eq_true_eq]
  have hrefused : ¬ NamesSegments text → (parseShardValue text).parseable = false →
      ((parseShardValue text).parseable = true ↔ NamesSegments text) ∧
        ((parseShardValue text).parseable = true →
          ∀ n, n ∈ slotsOf text ↔ NamesSegment text n) := by
    intro hnot hfalse
    rw [hfalse]
    constructor
    · constructor
      · intro h
        cases h
      · intro h
        exact absurd h hnot
    · intro h
      cases h
  by_cases hempty : Py.strip text = ""
  · refine hrefused ?_ (by rw [parseShardValue, if_pos hempty]; rfl)
    rintro ⟨-, token, htoken, -⟩
    obtain ⟨hmem, hne⟩ := (hwords token).mp htoken
    rw [hempty] at hmem
    exact hne (List.mem_singleton.mp hmem)
  · by_cases hswitched : Py.strip text = SWITCHED_SHARD_VALUE
    · refine hrefused ?_ (by rw [parseShardValue, if_neg hempty, if_pos hswitched]; rfl)
      rintro ⟨hall, token, htoken, hmarker⟩
      have hmem := ((hwords token).mp htoken).1
      have hone : rangeTokens SWITCHED_SHARD_VALUE = [SWITCHED_SHARD_VALUE] := by decide +kernel
      rw [hswitched, hone, List.mem_singleton] at hmem
      obtain ⟨a, b, hnames⟩ := (hall token htoken).resolve_left hmarker
      rw [hmem] at hnames
      exact not_names_switched a b hnames
    · have hparse : parseShardValue text =
          parseTokens (Py.strip text) (rangeTokens (Py.strip text)) [] := by
        rw [parseShardValue, if_neg hempty, if_neg hswitched]
      obtain ⟨hok, hmem⟩ :=
        @parseTokens_spec (Py.strip text) (rangeTokens (Py.strip text)) []
      rw [← hparse] at hok hmem
      constructor
      · rw [hok]
        constructor
        · rintro ⟨hall, hsome⟩
          obtain ⟨token, htoken, hne, hmarker⟩ := hsome.resolve_left fun h => h rfl
          refine ⟨?_, token, (hwords token).mpr ⟨htoken, hne⟩, hmarker⟩
          intro other hother
          obtain ⟨hother, hne⟩ := (hwords other).mp hother
          by_cases hmarker : IsMarker other
          · exact Or.inl hmarker
          · exact Or.inr (hall other hother hne hmarker)
        · rintro ⟨hall, token, htoken, hmarker⟩
          obtain ⟨hmem, hne⟩ := (hwords token).mp htoken
          refine ⟨?_, Or.inr ⟨token, hmem, hne, hmarker⟩⟩
          intro other hother hne hnot
          exact (hall other ((hwords other).mpr ⟨hother, hne⟩)).resolve_left hnot
      · intro hparseable n
        simp only [slotsOf, ShardParseResult.slots, List.mem_flatMap, mem_slotRange]
        constructor
        · rintro ⟨p, hp, hn⟩
          rcases (hmem hparseable p).mp hp with hp | ⟨token, htoken, hne, hmarker, hnames⟩
          · cases hp
          · exact ⟨token, (hwords token).mpr ⟨htoken, hne⟩, hmarker, p.1, p.2, hnames, hn⟩
        · rintro ⟨token, htoken, hmarker, a, b, hnames, hn⟩
          obtain ⟨htoken, hne⟩ := (hwords token).mp htoken
          exact ⟨(a, b), (hmem hparseable (a, b)).mpr
            (Or.inr ⟨token, htoken, hne, hmarker, hnames⟩), hn⟩

end Tokens

section Sets

variable {values : List String} {left right : String} {n total : ℤ}

theorem mem_coverageGaps :
    n ∈ coverageGaps values total 0 ↔ 0 ≤ n ∧ n < total ∧ ∀ value ∈ values, n ∉ slotsOf value := by
  have hcovered : ∀ value, (if (parseShardValue value).parseable then (parseShardValue value).slots
      else []) = slotsOf value := by
    intro value
    cases hvalue : (parseShardValue value).parseable with
    | false => simp [slotsOf_unparseable hvalue]
    | true => rfl
  simp only [coverageGaps, hcovered, List.mem_filter, mem_slotRange, List.mem_flatMap,
    decide_eq_true_eq, not_exists, not_and]
  constructor
  · rintro ⟨hn, hnot⟩
    exact ⟨hn.1, by omega, hnot⟩
  · rintro ⟨hlow, hhigh, hnot⟩
    exact ⟨⟨hlow, by omega⟩, hnot⟩

theorem slotRange_sorted (p : ℤ × ℤ) : (slotRange p).Pairwise (· < ·) := by
  refine List.pairwise_map.mpr (List.pairwise_lt_range.imp ?_)
  intro a b hab
  simp only [Int.ofNat_eq_natCast]
  omega

/-- Two values share a slot. -/
def Intersect (left right : String) : Prop := ∃ slot, slot ∈ slotsOf left ∧ slot ∈ slotsOf right

theorem mem_conflictsAmong {parsed : List (String × List (ℤ × ℤ))} :
    (left, right) ∈ conflictsAmong parsed ↔
      ∃ l r, [(left, l), (right, r)].Sublist parsed ∧ rangesIntersect l r = true := by
  induction parsed with
  | nil => simp [conflictsAmong]
  | cons first rest ih =>
    rw [conflictsAmong, List.mem_append, ih]
    constructor
    · rintro (h | ⟨l, r, hsub, hboth⟩)
      · obtain ⟨second, hsecond, heq⟩ := List.mem_map.mp h
        obtain ⟨hmem, hboth⟩ := List.mem_filter.mp hsecond
        cases heq
        exact ⟨first.2, second.2, (List.singleton_sublist.mpr hmem).cons_cons first, hboth⟩
      · exact ⟨l, r, hsub.cons first, hboth⟩
    · rintro ⟨l, r, hsub, hboth⟩
      rcases List.sublist_cons_iff.mp hsub with hsub | ⟨tail, heq, hsub⟩
      · exact Or.inr ⟨l, r, hsub, hboth⟩
      · cases heq
        refine Or.inl (List.mem_map.mpr ⟨(right, r), List.mem_filter.mpr ⟨?_, hboth⟩, rfl⟩)
        exact List.singleton_sublist.mp hsub

theorem parsedValues_eq (values : List String) :
    (values.filterMap fun value => if (parseShardValue value).parseable then
      some (value, (parseShardValue value).ranges) else none) =
      (values.filter fun value => (parseShardValue value).parseable).map
        fun value => (value, (parseShardValue value).ranges) := by
  induction values with
  | nil => rfl
  | cons value rest ih =>
    cases hvalue : (parseShardValue value).parseable with
    | false => simp [hvalue, ih]
    | true => simp [hvalue, ih]

/-- The pairs named are the pairs of values, one before the other, that intersect. -/
theorem mem_overlappingShards :
    (left, right) ∈ overlappingShards values ↔
      [left, right].Sublist values ∧ Intersect left right := by
  have hsame := rangesIntersect_iff (parseShardValue_valid left) (parseShardValue_valid right)
  rw [overlappingShards, mem_conflictsAmong, parsedValues_eq]
  constructor
  · rintro ⟨l, r, hsub, hboth⟩
    obtain ⟨pair, hpair, heq⟩ := List.sublist_map_iff.mp hsub
    cases pair with
    | nil => cases heq
    | cons first rest =>
      cases rest with
      | nil => cases heq
      | cons second rest =>
        cases rest with
        | nil =>
          cases heq
          exact ⟨hpair.trans List.filter_sublist, hsame.mp hboth⟩
        | cons third rest => cases heq
  · rintro ⟨hsub, slot, hl, hr⟩
    -- a value that cannot be parsed has no slot to share
    have hleft : (parseShardValue left).parseable = true := by
      by_contra h
      rw [slotsOf_unparseable (by simpa using h)] at hl
      cases hl
    have hright : (parseShardValue right).parseable = true := by
      by_contra h
      rw [slotsOf_unparseable (by simpa using h)] at hr
      cases hr
    refine ⟨_, _, List.sublist_map_iff.mpr ⟨[left, right], ?_, rfl⟩, hsame.mpr ⟨slot, hl, hr⟩⟩
    have hkept := hsub.filter fun value => (parseShardValue value).parseable
    simpa [hleft, hright] using hkept

/-- Reading, gaps, overlaps and the uncovered rest are those of the sets of slots. -/
theorem shard_values_as_sets (values : List String) (total : ℤ) (target covering : List (ℤ × ℤ)) :
    (∀ text, ((parseShardValue text).parseable = true ↔ NamesSegments text) ∧
      (∀ n, n ∈ slotsOf text ↔ NamesSegments text ∧ NamesSegment text n)) ∧
    (∀ n, n ∈ coverageGaps values total 0 ↔
      0 ≤ n ∧ n < total ∧ ∀ value ∈ values, n ∉ slotsOf value) ∧
    (coverageGaps values total 0).Pairwise (· < ·) ∧
    (∀ left right, (left, right) ∈ overlappingShards values ↔
      [left, right].Sublist values ∧ ∃ slot, slot ∈ slotsOf left ∧ slot ∈ slotsOf right) ∧
    (∀ n, InRanges n (uncovered target covering) ↔
      InRanges n target ∧ ¬ InRanges n covering) := by
  refine ⟨?_, fun n => mem_coverageGaps, ?_, fun left right => mem_overlappingShards,
    fun n => inRanges_uncovered⟩
  · intro text
    obtain ⟨hparse, hslots⟩ := parseShardValue_iff text
    refine ⟨hparse, ?_⟩
    intro n
    constructor
    · intro hn
      have hok : (parseShardValue text).parseable = true := by
        by_contra h
        rw [slotsOf_unparseable (by simpa using h)] at hn
        cases hn
      exact ⟨hparse.mp hok, (hslots hok n).mp hn⟩
    · rintro ⟨hnames, hn⟩
      exact (hslots (hparse.mpr hnames) n).mpr hn
  · exact (slotRange_sorted (0, total - 1)).filter _

end Sets

end Rollback
