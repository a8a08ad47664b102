import Mathlib.Data.List.AList
import BluekingDbm.Library.Loop
import BluekingDbm.Library.Numeral
import BluekingDbm.Library.Pieces

/-! Lists of slots as text: the decoder, which also takes the items of slots on the move, and the
encoder. -/
namespace Myredis

open Numeral Text

def defaultMinSlots : ℤ := 0

def defaultMaxSlots : ℤ := 16383

def slotSeparator : String := "-"

def importingSeparator : String := "-<-"

def migratingSeparator : String := "->-"

inductive SlotsError
  | atoi (slotItem : String)
  | undecodable (slotItem : String)
  | notCorrect (slot : ℤ) (slotStr : String)
  deriving DecidableEq

/-- The five values that are returned. With an error come the slots of the items before it. -/
structure Decoded where
  slots : List ℤ
  slotMap : ℤ → Bool
  migratingSlots : AList fun _ : ℤ => String
  importingSlots : AList fun _ : ℤ => String
  err : Option SlotsError

namespace Decoded

def empty : Decoded := ⟨[], fun _ => false, ∅, ∅, none⟩

def fail (d : Decoded) (err : SlotsError) : Decoded := { d with err := some err }

def addSlots (d : Decoded) (slots : List ℤ) : Decoded :=
  { d with
    slots := d.slots ++ slots
    slotMap := slots.foldl (fun m slot => Function.update m slot true) d.slotMap }

end Decoded

/-- `strings.TrimPrefix` of one character. -/
def trimPrefix (s : String) (c : Char) : String :=
  if s.toList.head? = some c then String.ofList s.toList.tail else s

/-- `strings.TrimSuffix` of one character. -/
def trimSuffix (s : String) (c : Char) : String :=
  if s.toList.getLast? = some c then String.ofList s.toList.dropLast else s

/-- The loop from the first slot of a range to the last. -/
def slotsBetween (first last : ℤ) : List ℤ :=
  (List.range (last + 1 - first).toNat).map fun i : ℕ => first + i

def inRange (slot : ℤ) : Bool := decide (defaultMinSlots ≤ slot ∧ slot ≤ defaultMaxSlots)

/-- One item, trimmed. The slot of an item with two dashes is not compared with the limits, and an item
with more dashes than that is passed over. -/
def readItem (slotStr slotItem : String) (d : Decoded) : Decoded :=
  match split slotItem '-' with
  | [num01] =>
    if inRange (atoiValue num01) then d.addSlots [atoiValue num01]
    else d.fail (.notCorrect (atoiValue num01) slotStr)
  | [first, last] =>
    if !inRange (atoiValue first) then d.fail (.notCorrect (atoiValue first) slotStr)
    else if !inRange (atoiValue last) then d.fail (.notCorrect (atoiValue last) slotStr)
    else d.addSlots (slotsBetween (atoiValue first) (atoiValue last))
  | [num01, mark, node] =>
    match atoi (trimPrefix num01 '[') with
    | none => d.fail (.atoi slotItem)
    | some slot =>
      let separator := slotSeparator ++ mark ++ slotSeparator
      let nodeID := trimSuffix node ']'
      if separator = importingSeparator then
        { d with importingSlots := d.importingSlots.insert slot nodeID }
      else if separator = migratingSeparator then
        { d with migratingSlots := d.migratingSlots.insert slot nodeID }
      else d.fail (.undecodable slotItem)
  | _ => d

/-- The items are read up to the first that is refused. -/
def readItems (slotStr : String) : List String → Decoded → Decoded
  | [], d => d
  | item :: items, d =>
    let d := readItem slotStr (trimSpace item) d
    if d.err.isSome then d else readItems slotStr items d

/-- A blank separator stands for any white space. -/
def slotItems (slotStr seq : String) : List String :=
  if seq = "" ∨ seq = " " ∨ seq = "\t" ∨ seq = "\n" then fields slotStr
  else (Pieces.cuts seq.toList 0 slotStr.toList).map String.ofList

def decodeSlotsFromStr (slotStr seq : String) : Decoded :=
  readItems slotStr (slotItems slotStr seq) Decoded.empty

/-- The text so far, and the run of slots that is being folded. -/
structure Folding where
  str01 : String
  start : ℤ
  curr : ℤ

def runText (start curr : ℤ) : String :=
  if start = curr then decimal start else decimal start ++ "-" ++ decimal curr

def Folding.next (s : Folding) (next : ℤ) : Folding :=
  if next = s.curr then s
  else if s.curr = next - 1 then { s with curr := next }
  else ⟨s.str01 ++ "," ++ runText s.start s.curr, next, next⟩

/-- `strings.Trim` of commas. -/
def trimCommas (s : String) : String :=
  String.ofList (((s.toList.dropWhile (· = ',')).reverse.dropWhile (· = ',')).reverse)

def convertSlotToStr : List ℤ → String
  | [] => ""
  | first :: rest =>
    let s := (first :: rest).foldl Folding.next ⟨"", first, first⟩
    trimCommas (s.str01 ++ "," ++ runText s.start s.curr)

section Dashes

variable {a b mark node : String}

theorem split_one (ha : '-' ∉ a.toList) : split a '-' = [a] :=
  @split_intercalate '-' [a] "-" rfl (List.cons_ne_nil _ _) (List.forall_mem_singleton.mpr ha)

theorem split_pair {c : Char} {sep : String} (hsep : sep.toList = [c]) (ha : c ∉ a.toList)
    (hb : c ∉ b.toList) : split (a ++ sep ++ b) c = [a, b] :=
  @split_intercalate c [a, b] sep hsep (List.cons_ne_nil _ _)
    (List.forall_mem_cons.mpr ⟨ha, List.forall_mem_singleton.mpr hb⟩)

theorem split_three (ha : '-' ∉ a.toList) (hmark : '-' ∉ mark.toList) (hnode : '-' ∉ node.toList) :
    split (a ++ "-" ++ mark ++ "-" ++ node) '-' = [a, mark, node] :=
  @split_intercalate '-' [a, mark, node] "-" rfl (List.cons_ne_nil _ _)
    (List.forall_mem_cons.mpr ⟨ha, List.forall_mem_cons.mpr ⟨hmark,
      List.forall_mem_singleton.mpr hnode⟩⟩)

/-- An item is its pieces with dashes between them. -/
theorem intercalate_split (item : String) : "-".intercalate (split item '-') = item := by
  apply String.toList_injective
  have hsep : "-".toList = ['-'] := rfl
  rw [String.toList_intercalate, hsep, split, List.map_map]
  have hid : (String.toList ∘ String.ofList) = id := by
    funext cs
    exact String.toList_ofList
  rw [hid, List.map_id]
  exact List.intercalate_splitOn '-'

end Dashes

section Runs

variable {a b : ℤ} {l : List ℤ} {d : Decoded} {run : ℤ × ℤ} {runs : List (ℤ × ℤ)}

/-- First and last slot of a run. -/
def IsRun (run : ℤ × ℤ) : Prop :=
  defaultMinSlots ≤ run.1 ∧ run.1 ≤ run.2 ∧ run.2 ≤ defaultMaxSlots

def runSlots (run : ℤ × ℤ) : List ℤ := slotsBetween run.1 run.2

theorem mem_slotsBetween {slot : ℤ} : slot ∈ slotsBetween a b ↔ a ≤ slot ∧ slot ≤ b := by
  constructor
  · intro h
    obtain ⟨i, hi, rfl⟩ := List.mem_map.mp h
    have hlt := List.mem_range.mp hi
    omega
  · rintro ⟨ha, hb⟩
    refine List.mem_map.mpr ⟨(slot - a).toNat, List.mem_range.mpr (by omega), by omega⟩

theorem slotsBetween_self (a : ℤ) : slotsBetween a a = [a] := by
  have hlen : (a + 1 - a).toNat = 1 := by omega
  rw [slotsBetween, hlen]
  simp

theorem slotsBetween_succ (h : a ≤ b) : slotsBetween a (b + 1) = slotsBetween a b ++ [b + 1] := by
  have hlen : (b + 1 + 1 - a).toNat = (b + 1 - a).toNat + 1 := by omega
  rw [slotsBetween, hlen, List.range_succ, List.map_append]
  refine congrArg (slotsBetween a b ++ ·) ?_
  rw [List.map_singleton]
  refine congrArg (fun x => [x]) ?_
  omega

theorem Decoded.slotMap_addSlots (d : Decoded) (l : List ℤ) (slot : ℤ) :
    (d.addSlots l).slotMap slot = true ↔ d.slotMap slot = true ∨ slot ∈ l := by
  have hfold : ∀ m : ℤ → Bool, (l.foldl (fun m slot => Function.update m slot true) m) slot = true ↔
      m slot = true ∨ slot ∈ l := by
    induction l with
    | nil => simp
    | cons x l ih =>
      intro m
      rw [List.foldl_cons, ih, List.mem_cons]
      rcases eq_or_ne slot x with rfl | hne
      · simp
      · simp [hne]
  exact hfold d.slotMap

theorem Decoded.addSlots_nil (d : Decoded) : d.addSlots [] = d := by
  simp [addSlots]

theorem Decoded.addSlots_append (d : Decoded) (l l' : List ℤ) :
    d.addSlots (l ++ l') = (d.addSlots l).addSlots l' := by
  simp [addSlots, List.foldl_append]

/-- The ends of a run are natural numbers. -/
theorem IsRun.cast (h : IsRun run) : ∃ m n : ℕ, run = (↑m, ↑n) ∧ m ≤ n ∧ n ≤ 16383 := by
  obtain ⟨a, b⟩ := run
  obtain ⟨hmin, hle, hmax⟩ := h
  unfold defaultMinSlots at hmin
  unfold defaultMaxSlots at hmax
  dsimp only at hmin hle hmax
  have ha := Int.toNat_of_nonneg hmin
  have hb : (b.toNat : ℤ) = b := Int.toNat_of_nonneg (by omega)
  exact ⟨a.toNat, b.toNat, by rw [ha, hb], by omega, by omega⟩

theorem runText_chars : ∀ c ∈ (runText a b).toList, c.isDigit = true ∨ c = '-' := by
  intro c hc
  unfold runText at hc
  split at hc
  · exact mem_decimal hc
  · rw [String.toList_append, String.toList_append] at hc
    rcases List.mem_append.mp hc with hc | hc
    · rcases List.mem_append.mp hc with hc | hc
      · exact mem_decimal hc
      · exact Or.inr (List.mem_singleton.mp hc)
    · exact mem_decimal hc

theorem runText_ne_nil (a b : ℤ) : (runText a b).toList ≠ [] := by
  unfold runText
  split
  · exact decimal_ne_nil a
  · rw [String.toList_append]
    exact List.append_ne_nil_of_left_ne_nil (by simp) _

/-- What stands for a run is no comma and no white space. -/
theorem runText_plain : ∀ c ∈ (runText a b).toList, c ≠ ',' ∧ isSpace c = false := by
  intro c hc
  rcases runText_chars c hc with hdigit | rfl
  · refine ⟨?_, isSpace_of_isDigit hdigit⟩
    rintro rfl
    exact absurd hdigit (by decide)
  · exact ⟨by decide, by decide⟩

/-- The text of a run is read back as its slots. -/
theorem readItem_runText (h : IsRun run) (slotStr : String) (d : Decoded) :
    readItem slotStr (runText run.1 run.2) d = d.addSlots (runSlots run) := by
  obtain ⟨m, n, rfl, hle, hmax⟩ := h.cast
  have hvalue : ∀ k : ℕ, k ≤ 16383 → atoiValue k.repr = k ∧ inRange k = true := by
    intro k hk
    refine ⟨atoiValue_repr (by omega), decide_eq_true ⟨?_, ?_⟩⟩
    · exact Int.natCast_nonneg k
    · unfold defaultMaxSlots
      omega
  obtain ⟨hmvalue, hmrange⟩ := hvalue m (hle.trans hmax)
  obtain ⟨hnvalue, hnrange⟩ := hvalue n hmax
  unfold readItem runText runSlots
  dsimp only
  by_cases hsame : (m : ℤ) = n
  · have hsplit : split (decimal (m : ℤ)) '-' = [m.repr] := split_one (repr_no_sign m)
    rw [if_pos hsame, hsplit, hsame, slotsBetween_self, ← hsame]
    dsimp only
    rw [hmvalue, if_pos hmrange]
  · have hsplit : split (decimal (m : ℤ) ++ "-" ++ decimal (n : ℤ)) '-' = [m.repr, n.repr] :=
      split_pair rfl (repr_no_sign m) (repr_no_sign n)
    rw [if_neg hsame, hsplit]
    dsimp only
    rw [hmvalue, hnvalue, hmrange, hnrange]
    rfl

end Runs

section Encoding

variable {s : Folding} {next : ℤ} {done l : List ℤ} {runs : List (ℤ × ℤ)} {slotStr : String}
  {d : Decoded} {us : List (List Char)}

/-- The slots so far are those of the runs in the text and of the run that is being folded. -/
structure Folded (done : List ℤ) (s : Folding) (runs : List (ℤ × ℤ)) : Prop where
  text : s.str01.toList = runs.flatMap fun run => ',' :: (runText run.1 run.2).toList
  isRun : ∀ run ∈ runs, IsRun run
  last : IsRun (s.start, s.curr)
  slots : runs.flatMap runSlots ++ slotsBetween s.start s.curr = done

theorem Folding.curr_next (s : Folding) (next : ℤ) : (s.next next).curr = next := by
  unfold Folding.next
  split
  case isTrue h => exact h.symm
  case isFalse =>
    split
    · rfl
    · rfl

theorem isRun_single (h : inRange next = true) : IsRun (next, next) := by
  obtain ⟨hmin, hmax⟩ := of_decide_eq_true h
  exact ⟨hmin, Int.le_refl _, hmax⟩

/-- A slot that is not repeated lengthens the run or begins another one. -/
theorem Folded.step (h : Folded done s runs) (hnext : inRange next = true) (hne : s.curr ≠ next) :
    ∃ runs', Folded (done ++ [next]) (s.next next) runs' := by
  unfold Folding.next
  rw [if_neg (Ne.symm hne)]
  split
  case isTrue hgoes =>
    obtain rfl : next = s.curr + 1 := by omega
    obtain ⟨hmin, hle, -⟩ := h.last
    obtain ⟨-, hmax⟩ := of_decide_eq_true hnext
    dsimp only at hmin hle
    refine ⟨runs, h.text, h.isRun, ⟨hmin, by dsimp only; omega, hmax⟩, ?_⟩
    rw [slotsBetween_succ hle, ← List.append_assoc, h.slots]
  case isFalse =>
    refine ⟨runs ++ [(s.start, s.curr)], ?_, ?_, isRun_single hnext, ?_⟩
    · rw [List.flatMap_append, ← h.text]
      simp
    · intro run hrun
      rcases List.mem_append.mp hrun with hrun | hrun
      · exact h.isRun run hrun
      · rw [List.mem_singleton.mp hrun]
        exact h.last
    · rw [List.flatMap_append, List.flatMap_singleton, slotsBetween_self]
      exact congrArg (· ++ [next]) h.slots

theorem Folded.run (h : Folded done s runs) (hl : ∀ slot ∈ l, inRange slot = true)
    (hchain : (s.curr :: l).IsChain (· ≠ ·)) :
    ∃ runs', Folded (done ++ l) (l.foldl Folding.next s) runs' := by
  induction l generalizing done s runs with
  | nil =>
    rw [List.append_nil]
    exact ⟨runs, h⟩
  | cons next l ih =>
    obtain ⟨hnext, hl⟩ := List.forall_mem_cons.mp hl
    obtain ⟨hne, hrest⟩ := List.isChain_cons_cons.mp hchain
    obtain ⟨runs', hstep⟩ := h.step hnext hne
    rw [← s.curr_next next] at hrest
    obtain ⟨runs'', hrun⟩ := ih hstep hl hrest
    refine ⟨runs'', ?_⟩
    rw [List.append_assoc] at hrun
    exact hrun

theorem flatMap_comma (hne : us ≠ []) :
    us.flatMap (',' :: ·) = ',' :: List.intercalate [','] us := by
  induction us with
  | nil => exact absurd rfl hne
  | cons u us ih =>
    cases us with
    | nil => simp [List.intercalate]
    | cons v vs =>
      rw [List.flatMap_cons, ih (List.cons_ne_nil _ _)]
      simp [List.intercalate]

/-- Pieces joined begin as the first piece does and end as the last. -/
theorem intercalate_ends (hne : us ≠ []) (h : ∀ u ∈ us, u ≠ [] ∧ ',' ∉ u) :
    List.intercalate [','] us ≠ [] ∧ (List.intercalate [','] us).head? ≠ some ',' ∧
      (List.intercalate [','] us).getLast? ≠ some ',' := by
  induction us with
  | nil => exact absurd rfl hne
  | cons u us ih =>
    obtain ⟨⟨hu, hcomma⟩, hus⟩ := List.forall_mem_cons.mp h
    cases us with
    | nil =>
      rw [List.intercalate_singleton]
      exact ⟨hu, fun hhead => hcomma (List.mem_of_head? hhead),
        fun hlast => hcomma (List.mem_of_getLast? hlast)⟩
    | cons v vs =>
      obtain ⟨hsome, -, hlast⟩ := ih (List.cons_ne_nil _ _) hus
      rw [List.intercalate_cons_cons]
      refine ⟨List.append_ne_nil_of_right_ne_nil _ hsome, fun hhead => hcomma ?_,
        fun hend => hlast ?_⟩
      · rw [List.append_assoc, List.head?_append_of_ne_nil _ hu] at hhead
        exact List.mem_of_head? hhead
      · rw [List.getLast?_append_of_ne_nil _ hsome] at hend
        exact hend

theorem trimCommas_intercalate (hne : us ≠ []) (h : ∀ u ∈ us, u ≠ [] ∧ ',' ∉ u) :
    trimCommas (String.ofList (us.flatMap (',' :: ·))) =
      String.ofList (List.intercalate [','] us) := by
  obtain ⟨-, hhead, hlast⟩ := intercalate_ends hne h
  have hdrop : ∀ cs : List Char, cs.head? ≠ some ',' → cs.dropWhile (· = ',') = cs := by
    intro cs hcs
    cases cs with
    | nil => rfl
    | cons c cs =>
      have hc : c ≠ ',' := by simpa using hcs
      rw [List.dropWhile_cons_of_neg (by simpa using hc)]
  rw [trimCommas, String.toList_ofList, flatMap_comma hne, List.dropWhile_cons_of_pos (by simp),
    hdrop _ hhead, hdrop _ (by simpa using hlast), List.reverse_reverse]

/-- The texts of the runs. -/
def runTexts (runs : List (ℤ × ℤ)) : List (List Char) :=
  runs.map fun run => (runText run.1 run.2).toList

theorem runTexts_plain : ∀ u ∈ runTexts runs, u ≠ [] ∧ ',' ∉ u := by
  intro u hu
  obtain ⟨run, -, rfl⟩ := List.mem_map.mp hu
  exact ⟨runText_ne_nil _ _, fun hcomma => (runText_plain ',' hcomma).1 rfl⟩

/-- The encoder writes the runs of the list with commas between them. -/
theorem convertSlotToStr_runs (hne : l ≠ []) (hl : ∀ slot ∈ l, inRange slot = true)
    (hchain : l.IsChain (· ≠ ·)) :
    ∃ runs, runs ≠ [] ∧ (∀ run ∈ runs, IsRun run) ∧ runs.flatMap runSlots = l ∧
      convertSlotToStr l = String.ofList (List.intercalate [','] (runTexts runs)) := by
  cases l with
  | nil => exact absurd rfl hne
  | cons first rest =>
    obtain ⟨hfirst, hrest⟩ := List.forall_mem_cons.mp hl
    have hstart : Folded [first] ⟨"", first, first⟩ [] :=
      ⟨rfl, fun run hrun => absurd hrun List.not_mem_nil, isRun_single hfirst,
        slotsBetween_self first⟩
    obtain ⟨runs, hfolded⟩ := hstart.run hrest hchain
    -- the first slot is met again in the loop, and nothing happens
    have hloop : (first :: rest).foldl Folding.next ⟨"", first, first⟩ =
        rest.foldl Folding.next ⟨"", first, first⟩ := by
      rw [List.foldl_cons, Folding.next, if_pos rfl]
    generalize hs : rest.foldl Folding.next ⟨"", first, first⟩ = s at hfolded hloop
    have htext : (s.str01 ++ "," ++ runText s.start s.curr) =
        String.ofList ((runTexts (runs ++ [(s.start, s.curr)])).flatMap (',' :: ·)) := by
      apply String.toList_injective
      rw [String.toList_append, String.toList_append, hfolded.text, String.toList_ofList]
      simp [runTexts, List.flatMap_map]
    refine ⟨runs ++ [(s.start, s.curr)], by simp, ?_, ?_, ?_⟩
    · intro run hrun
      rcases List.mem_append.mp hrun with hrun | hrun
      · exact hfolded.isRun run hrun
      · rw [List.mem_singleton.mp hrun]
        exact hfolded.last
    · rw [List.flatMap_append, List.flatMap_singleton]
      exact hfolded.slots
    · rw [convertSlotToStr, hloop, htext]
      exact trimCommas_intercalate (by simp [runTexts]) runTexts_plain

/-- The texts of runs are read one after the other. -/
theorem readItems_runs (hruns : ∀ run ∈ runs, IsRun run) (hd : d.err = none) :
    readItems slotStr ((runTexts runs).map String.ofList) d = d.addSlots (runs.flatMap runSlots) := by
  induction runs generalizing d with
  | nil => exact d.addSlots_nil.symm
  | cons run runs ih =>
    obtain ⟨hrun, hruns⟩ := List.forall_mem_cons.mp hruns
    have htrim : trimSpace (runText run.1 run.2) = runText run.1 run.2 :=
      trimSpace_eq fun c hc => (runText_plain c hc).2
    have hnone : (d.addSlots (runSlots run)).err = none := hd
    rw [runTexts, List.map_cons, List.map_cons, String.ofList_toList, readItems, htrim,
      readItem_runText hrun, hnone]
    dsimp only [Option.isSome_none]
    rw [if_neg Bool.false_ne_true, List.flatMap_cons, Decoded.addSlots_append]
    exact ih hruns hnone

/-- What is decoded is the list that was encoded, and a map of its members. -/
def RoundTrips (slots : List ℤ) : Prop :=
  let d := decodeSlotsFromStr (convertSlotToStr slots) ","
  d.err = none ∧ d.slots = slots ∧ ∀ slot, d.slotMap slot = true ↔ slot ∈ slots

theorem roundTrips_iff (slots : List ℤ)
    (h : ∀ slot ∈ slots, defaultMinSlots ≤ slot ∧ slot ≤ defaultMaxSlots)
    (hchain : slots.IsChain (· ≠ ·)) : RoundTrips slots ↔ slots ≠ [] := by
  constructor
  · rintro ⟨-, hslots, -⟩ rfl
    exact absurd hslots (by decide)
  · intro hne
    obtain ⟨runs, hsome, hruns, hslots, htext⟩ :=
      convertSlotToStr_runs hne (fun slot hslot => decide_eq_true (h slot hslot)) hchain
    have hplain : ∀ u ∈ runTexts runs, ',' ∉ u := fun u hu => (runTexts_plain u hu).2
    have hitems : slotItems (convertSlotToStr slots) "," = (runTexts runs).map String.ofList := by
      have hsep : ",".toList = [','] := rfl
      rw [slotItems, if_neg (by decide), hsep, Pieces.cuts_singleton, htext, String.toList_ofList,
        List.splitOn_intercalate _ hplain (by simpa [runTexts] using hsome)]
    have hread : decodeSlotsFromStr (convertSlotToStr slots) "," = Decoded.empty.addSlots slots := by
      rw [decodeSlotsFromStr, hitems, readItems_runs hruns rfl, hslots]
    unfold RoundTrips
    rw [hread]
    refine ⟨rfl, List.nil_append slots, fun slot => ?_⟩
    rw [Decoded.slotMap_addSlots]
    simp [Decoded.empty]

theorem roundTrips_iff_runs : RoundTrips [0, 1, 2, 10, 11, 17, 16, 16383] ↔
    [0, 1, 2, 10, 11, 17, 16, 16383] ≠ ([] : List ℤ) :=
  roundTrips_iff [0, 1, 2, 10, 11, 17, 16, 16383] (by decide) (by decide)

/-- The empty list is encoded as the empty text, which has one item, and that is read as slot 0. -/
theorem empty_not_roundTrips : ¬ RoundTrips [] := by
  rintro ⟨-, hslots, -⟩
  exact absurd hslots (by decide)

end Encoding

end Myredis
