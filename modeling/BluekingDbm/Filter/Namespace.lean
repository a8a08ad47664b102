import BluekingDbm.Filter.DbTable
import Mathlib.Data.List.TakeWhile

/-! The collections that are backed up or dropped, by white and black lists of databases and of
collections. -/
namespace Filter

structure NsFilter where
  whiteDbList : List String
  blackDbList : List String
  whiteTbList : List String
  blackTbList : List String

/-- An item with a star is a regular expression; one that is no expression matches nothing. -/
def itemMatches (re : Regexp.Engine false) (item name : String) : Bool :=
  if '*' ∈ item.toList then (re.compile ("^" ++ replace item '*' ".*")).any fun m => m name
  else item = name

/-- The loop of `isMatch`, which ends at an empty item. -/
def matchItems (re : Regexp.Engine false) (name : String) (defaultVal : Bool) : List String → Bool
  | [] => false
  | item :: list =>
    if item = "" then defaultVal
    else if itemMatches re item name then true
    else matchItems re name defaultVal list

def isMatch (re : Regexp.Engine false) (list : List String) (name : String) (defaultVal : Bool) :
    Bool :=
  if list = [] then defaultVal else matchItems re name defaultVal list

namespace NsFilter

def isDbMatched (re : Regexp.Engine false) (f : NsFilter) (db : String) : Bool :=
  if !isMatch re f.whiteDbList db true then false
  else if isMatch re f.blackDbList db false then false
  else true

def isTbMatched (re : Regexp.Engine false) (f : NsFilter) (tb : String) : Bool :=
  if f.whiteTbList.length > 0 && !isMatch re f.whiteTbList tb true then false
  else if f.blackTbList.length > 0 && isMatch re f.blackTbList tb false then false
  else true

/-- What is matched, and what is not. -/
def filterTbV2 (re : Regexp.Engine false) (f : NsFilter) (db : String) (tbList : List String) :
    List String × List String :=
  if !f.isDbMatched re db then ([], tbList)
  else tbList.foldl (fun lists tb =>
    if f.isTbMatched re tb then (lists.1 ++ [tb], lists.2) else (lists.1, lists.2 ++ [tb])) ([], [])

end NsFilter

/-! What the lists say. -/

/-- All, where nothing is given. -/
def White (re : Regexp.Engine false) (list : List String) (name : String) : Prop :=
  list = [] ∨ ∃ item ∈ list, item = "" ∨ itemMatches re item name = true

/-- What stands behind an empty item does not count. -/
def Black (re : Regexp.Engine false) (list : List String) (name : String) : Prop :=
  ∃ item ∈ list.takeWhile (· ≠ ""), itemMatches re item name = true

def nsTokens (item : String) : List Glob.Token :=
  item.toList.map fun c => if c = '*' then .many else .lit c

/-- Characters that an expression reads as themselves, and stars only behind them. -/
def PlainItem (item : String) : Prop :=
  ∃ (front : List Char) (k : ℕ), item.toList = front ++ List.replicate k '*' ∧
    ∀ c ∈ front, c ∉ Regexp.metachars

namespace NsFilter

def Selected (re : Regexp.Engine false) (f : NsFilter) (db tb : String) : Prop :=
  (White re f.whiteDbList db ∧ ¬ Black re f.blackDbList db) ∧
    White re f.whiteTbList tb ∧ ¬ Black re f.blackTbList tb

instance (re : Regexp.Engine false) (f : NsFilter) (db tb : String) :
    Decidable (f.Selected re db tb) := by
  unfold Selected White Black
  infer_instance

/-- The items of a list in another order: a black list with an empty item stays as it is. -/
structure Reordered (f f' : NsFilter) : Prop where
  whiteDb : f.whiteDbList.Perm f'.whiteDbList
  whiteTb : f.whiteTbList.Perm f'.whiteTbList
  blackDb : f.blackDbList = f'.blackDbList ∨
    "" ∉ f.blackDbList ∧ f.blackDbList.Perm f'.blackDbList
  blackTb : f.blackTbList = f'.blackTbList ∨
    "" ∉ f.blackTbList ∧ f.blackTbList.Perm f'.blackTbList

end NsFilter

section

variable {re : Regexp.Engine false} {f f' : NsFilter} {list list' tbList : List String}
  {item name db tb : String}

theorem isMatch_white : isMatch re list name true = true ↔ White re list name := by
  unfold isMatch White
  split_ifs with hempty
  · exact iff_of_true rfl (Or.inl hempty)
  · rw [or_iff_right hempty]
    clear hempty
    induction list with
    | nil => simp [matchItems]
    | cons item list ih =>
      rw [matchItems, List.exists_mem_cons_iff, ← ih]
      by_cases hblank : item = ""
      · simp [hblank]
      · by_cases hitem : itemMatches re item name = true
        · simp [hblank, hitem]
        · simp [hblank, hitem]

theorem isMatch_black : isMatch re list name false = true ↔ Black re list name := by
  unfold isMatch Black
  split_ifs with hempty
  · simp [hempty]
  · clear hempty
    induction list with
    | nil => simp [matchItems]
    | cons item list ih =>
      rw [matchItems]
      by_cases hblank : item = ""
      · simp [hblank]
      · rw [List.takeWhile_cons_of_pos (by simpa using hblank), List.exists_mem_cons_iff, ← ih]
        by_cases hitem : itemMatches re item name = true
        · simp [hblank, hitem]
        · simp [hblank, hitem]

theorem isDbMatched_iff : f.isDbMatched re db = true ↔
    White re f.whiteDbList db ∧ ¬ Black re f.blackDbList db := by
  rw [← isMatch_white, ← isMatch_black, NsFilter.isDbMatched]
  cases isMatch re f.whiteDbList db true <;> cases isMatch re f.blackDbList db false <;> simp

/-- The tests of the lengths change nothing: an empty list is what its default says. -/
theorem isTbMatched_iff : f.isTbMatched re tb = true ↔
    White re f.whiteTbList tb ∧ ¬ Black re f.blackTbList tb := by
  rw [← isMatch_white, ← isMatch_black, NsFilter.isTbMatched]
  have hwhite : f.whiteTbList = [] → isMatch re f.whiteTbList tb true = true :=
    fun hempty => if_pos hempty
  have hblack : f.blackTbList = [] → isMatch re f.blackTbList tb false = false :=
    fun hempty => if_pos hempty
  by_cases hw : f.whiteTbList = []
  · by_cases hb : f.blackTbList = []
    · simp [hwhite hw, hblack hb]
    · simp [hwhite hw, List.length_pos_iff.mpr hb]
  · by_cases hb : f.blackTbList = []
    · simp [hblack hb, List.length_pos_iff.mpr hw]
    · simp [List.length_pos_iff.mpr hb, List.length_pos_iff.mpr hw]

theorem foldl_lists (p : String → Bool) (lists : List String × List String) :
    tbList.foldl (fun lists tb =>
      if p tb then (lists.1 ++ [tb], lists.2) else (lists.1, lists.2 ++ [tb])) lists =
      (lists.1 ++ tbList.filter p, lists.2 ++ tbList.filter fun tb => !p tb) := by
  induction tbList generalizing lists with
  | nil => simp
  | cons tb tbList ih =>
    rw [List.foldl_cons, ih]
    cases hp : p tb <;> simp [hp]

theorem filterTbV2_eq (db : String) (tbList : List String) : f.filterTbV2 re db tbList =
    (tbList.filter fun tb => f.Selected re db tb, tbList.filter fun tb => ¬ f.Selected re db tb) := by
  unfold NsFilter.filterTbV2
  by_cases hdb : f.isDbMatched re db = true
  · have hselected : ∀ tb, f.isTbMatched re tb = decide (f.Selected re db tb) := by
      intro tb
      apply Bool.eq_iff_iff.mpr
      rw [isTbMatched_iff, decide_eq_true_eq]
      exact (and_iff_right (isDbMatched_iff.mp hdb)).symm
    rw [hdb, Bool.not_true, if_neg Bool.false_ne_true, foldl_lists]
    simp [funext hselected]
  · have hnone : ∀ tb, ¬ f.Selected re db tb := fun tb hs => hdb (isDbMatched_iff.mpr hs.1)
    simp [hdb, hnone]

theorem White.perm (h : list.Perm list') : White re list name ↔ White re list' name := by
  unfold White
  refine or_congr ⟨fun hnil => ?_, fun hnil => ?_⟩ (exists_congr fun item => and_congr_left fun _ =>
    h.mem_iff)
  · exact List.Perm.nil_eq (hnil ▸ h) ▸ rfl
  · exact List.Perm.eq_nil (hnil ▸ h)

theorem Black.perm (h : list = list' ∨ "" ∉ list ∧ list.Perm list') :
    Black re list name ↔ Black re list' name := by
  rcases h with rfl | ⟨hne, h⟩
  · exact Iff.rfl
  · have hwhole : ∀ l : List String, "" ∉ l → l.takeWhile (· ≠ "") = l := by
      intro l hl
      apply List.takeWhile_eq_self_iff.mpr
      intro item hitem
      have hitem' : item ≠ "" := fun heq => hl (heq ▸ hitem)
      exact decide_eq_true hitem'
    unfold Black
    rw [hwhole list hne, hwhole list' fun hmem => hne (h.mem_iff.mpr hmem)]
    exact exists_congr fun item => and_congr_left fun _ => h.mem_iff

theorem Reordered.selected (h : f.Reordered f') :
    f'.Selected re db tb ↔ f.Selected re db tb := by
  unfold NsFilter.Selected
  rw [White.perm h.whiteDb, White.perm h.whiteTb, Black.perm h.blackDb, Black.perm h.blackTb]

theorem nsTokens_plain {front : List Char} {k : ℕ} (hitem : item.toList = front ++ List.replicate k '*')
    (hfront : ∀ c ∈ front, c ∉ Regexp.metachars) :
    nsTokens item = front.map .lit ++ List.replicate k .many := by
  rw [nsTokens, hitem, List.map_append, List.map_replicate, if_pos rfl]
  congr 1
  apply List.map_congr_left
  intro c hc
  have hne : c ≠ '*' := fun heq => hfront c hc (heq ▸ by decide)
  exact if_neg hne

/-- The text of the expression is that of the glob. -/
theorem replace_star (h : PlainItem item) :
    (replace item '*' ".*").toList = (nsTokens item).flatMap Glob.Token.text := by
  obtain ⟨front, k, hitem, hfront⟩ := h
  have hmeta : ∀ c ∈ item.toList, c ∈ Regexp.metachars → c = '*' := by
    intro c hc hmem
    rw [hitem] at hc
    rcases List.mem_append.mp hc with hc | hc
    · exact absurd hmem (hfront c hc)
    · exact (List.mem_replicate.mp hc).2
  rw [replace, String.toList_ofList, nsTokens, List.flatMap_map]
  apply List.flatMap_congr
  intro c hc
  by_cases hstar : c = '*'
  · rw [if_pos hstar, if_pos hstar]
    rfl
  · have hplain : c ∉ Regexp.metachars := fun hmem => hstar (hmeta c hc hmem)
    rw [if_neg hstar, if_neg hstar]
    simp [Glob.Token.text, hplain]

theorem matchesAll_lits {front cs : List Char} {ts : List Glob.Token} :
    Glob.matchesAll (front.map .lit ++ ts) cs = true ↔
      ∃ rest, cs = front ++ rest ∧ Glob.matchesAll ts rest = true := by
  induction front generalizing cs with
  | nil => simp
  | cons c front ih =>
    rw [List.map_cons, List.cons_append, Glob.matchesAll_lit]
    constructor
    · rintro ⟨ds, rfl, h⟩
      obtain ⟨rest, rfl, hrest⟩ := ih.mp h
      exact ⟨rest, rfl, hrest⟩
    · rintro ⟨rest, rfl, hrest⟩
      exact ⟨front ++ rest, rfl, ih.mpr ⟨rest, rfl, hrest⟩⟩

theorem exists_ends_lits {text front cs : List Char} {items : List Regexp} :
    (∃ m, m ∈ Regexp.ends text (Regexp.sequence (front.map .lit ++ items)) cs) ↔
      ∃ rest, cs = front ++ rest ∧ ∃ m, m ∈ Regexp.ends text (Regexp.sequence items) rest := by
  induction front generalizing cs with
  | nil => simp
  | cons c front ih =>
    constructor
    · rintro ⟨m, hm⟩
      obtain ⟨ds, hc, hds⟩ := Regexp.mem_ends_seq.mp hm
      obtain rfl := Regexp.mem_ends_lit.mp hc
      obtain ⟨rest, rfl, hrest⟩ := ih.mp ⟨m, hds⟩
      exact ⟨rest, rfl, hrest⟩
    · rintro ⟨rest, rfl, hrest⟩
      obtain ⟨m, hm⟩ := ih.mpr ⟨rest, rfl, hrest⟩
      exact ⟨m, Regexp.mem_ends_seq.mpr ⟨front ++ rest, Regexp.mem_ends_lit.mpr rfl, hm⟩⟩

/-- Any text is matched by stars, and a star needs to take none of it. -/
theorem matchesAll_stars (k : ℕ) (cs : List Char) :
    Glob.matchesAll (List.replicate (k + 1) .many) cs = true := by
  induction k with
  | zero => exact Glob.matchesAll_many.mpr ⟨cs, [], by rw [List.append_nil], rfl⟩
  | succ k ih => exact Glob.matchesAll_many.mpr ⟨[], cs, rfl, ih⟩

theorem mem_ends_stars (text cs : List Char) (k : ℕ) :
    cs ∈ Regexp.ends text (Regexp.sequence (List.replicate k (.star .dot))) cs := by
  induction k with
  | zero => exact Regexp.mem_ends_empty.mpr rfl
  | succ k ih =>
    refine Regexp.mem_ends_seq.mpr ⟨cs, ?_, ih⟩
    exact Regexp.mem_ends_star_dot.mpr ⟨[], rfl, List.not_mem_nil⟩

/-- An item with stars at its end, or with none, matches whole names. -/
theorem itemMatches_plain (h : PlainItem item) : itemMatches re item name = true ↔
    Glob.matchesAll (nsTokens item) name.toList = true := by
  have htext : "^" ++ replace item '*' ".*" =
      String.ofList ('^' :: (nsTokens item).flatMap Glob.Token.text) := by
    apply String.toList_inj.mp
    rw [String.toList_append, replace_star h]
    exact String.toList_ofList.symm
  obtain ⟨front, k, hitem, hfront⟩ := h
  have hnone : '*' ∉ front := fun hmem => hfront '*' hmem (by decide)
  have htokens := nsTokens_plain hitem hfront
  unfold itemMatches
  cases k with
  | zero =>
    rw [List.replicate_zero, List.append_nil] at hitem
    rw [if_neg (hitem ▸ hnone), htokens, matchesAll_lits, decide_eq_true_eq, ← String.toList_inj,
      hitem]
    constructor
    · exact fun heq => ⟨[], by rw [List.append_nil, heq], rfl⟩
    · rintro ⟨rest, hname, hrest⟩
      rw [hname, Glob.matchesAll_nil.mp hrest, List.append_nil]
  | succ k =>
    obtain ⟨run, hrun, hagrees⟩ := re.agrees _ _ (@Glob.compile_bot_text (nsTokens item) false)
    have hstar : '*' ∈ item.toList := by
      rw [hitem, List.replicate_succ]
      exact List.mem_append_right front List.mem_cons_self
    rw [if_pos hstar, htext, hrun, Option.any_some,
      hagrees name fun hfalse => absurd hfalse Bool.false_ne_true, Glob.matchString_bot, htokens,
      List.map_append, List.map_map, List.map_replicate, matchesAll_lits]
    refine exists_ends_lits.trans (exists_congr fun rest => and_congr_right fun _ => ?_)
    exact iff_of_true ⟨rest, mem_ends_stars _ rest (k + 1)⟩ (matchesAll_stars k rest)

/-- The tables that the lists select are matched, in their order, and all others are not; items stand
in any order, less black ones with an empty one among them. -/
theorem filterTbV2_exact (re : Regexp.Engine false) (f : NsFilter) (db : String)
    (tbList : List String) :
    f.filterTbV2 re db tbList = (tbList.filter fun tb => f.Selected re db tb,
      tbList.filter fun tb => ¬ f.Selected re db tb) ∧
    (∀ item name : String, PlainItem item → (itemMatches re item name = true ↔
      Glob.matchesAll (nsTokens item) name.toList = true)) ∧
    ∀ f' : NsFilter, f.Reordered f' → f'.filterTbV2 re db tbList = f.filterTbV2 re db tbList := by
  refine ⟨filterTbV2_eq db tbList, fun item name h => itemMatches_plain h, fun f' h => ?_⟩
  rw [filterTbV2_eq, filterTbV2_eq]
  simp only [Reordered.selected h]

/-- A pattern matches a front of a name, and an empty item hides the black ones behind it. -/
theorem filterTbV2_front : (⟨["*a"], [], [], []⟩ : NsFilter).filterTbV2 (Regexp.engine false) "ab"
      ["t"] = (["t"], []) ∧
    Glob.matchesAll (nsTokens "*a") "ab".toList = false ∧
    (⟨[], [], [], ["", "t"]⟩ : NsFilter).filterTbV2 (Regexp.engine false) "d" ["t"] =
      (["t"], []) ∧
    (⟨[], [], [], ["t", ""]⟩ : NsFilter).filterTbV2 (Regexp.engine false) "d" ["t"] =
      ([], ["t"]) := by
  decide +kernel

end

end Filter
