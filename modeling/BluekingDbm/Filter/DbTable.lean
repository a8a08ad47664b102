import BluekingDbm.Library.Regexp
import BluekingDbm.Library.Text

/-! The databases and the tables that are dumped, dropped or flashed back: globs, as one regular
expression. -/
namespace Filter

structure DbTableFilter where
  includeDbPatterns : List String
  excludeDbPatterns : List String
  includeTablePatterns : List String
  excludeTablePatterns : List String
  dbFilterIncludeRegex : String
  dbFilterExcludeRegex : String
  tableFilterIncludeRegex : String
  tableFilterExcludeRegex : String

/-- `strings.Replace` of a character, wherever it stands. -/
def replace (s : String) (old : Char) (new : String) : String :=
  String.ofList (s.toList.flatMap fun c => if c = old then new.toList else [c])

def replaceGlob (p : String) : String :=
  let p1 := replace p '.' "\\."
  let p2 := replace p1 '*' ".*"
  let p3 := replace p2 '%' ".*"
  replace p3 '?' "."

def replaceGlobs (ps : List String) : List String := ps.map replaceGlob

def buildRegexp (parts : List String) (template : String → String) : String :=
  if parts ≠ [] then template ("|".intercalate (parts.map fun part => part ++ "$")) else ""

def buildIncludeRegexp (parts : List String) : String :=
  buildRegexp parts fun s => "(?=(?:(" ++ s ++ ")))"

def buildExcludeRegexp (parts : List String) : String :=
  buildRegexp parts fun s => "(?!(?:(" ++ s ++ ")))"

namespace DbTableFilter

def dbIncludeRegex (c : DbTableFilter) : DbTableFilter :=
  { c with dbFilterIncludeRegex := buildIncludeRegexp (replaceGlobs c.includeDbPatterns) }

def dbExcludeRegex (c : DbTableFilter) : DbTableFilter :=
  { c with dbFilterExcludeRegex := buildExcludeRegexp (replaceGlobs c.excludeDbPatterns) }

/-- A part for each table of each database. -/
def parts (dbs tables : List String) : List String :=
  (replaceGlobs dbs).flatMap fun db => (replaceGlobs tables).map fun table => db ++ "\\." ++ table

def tableIncludeRegex (c : DbTableFilter) : DbTableFilter :=
  { c with tableFilterIncludeRegex :=
      buildIncludeRegexp (parts c.includeDbPatterns c.includeTablePatterns) }

/-- All the tables of what is excluded, and the excluded tables of what is included. -/
def tableExcludeRegex (c : DbTableFilter) : DbTableFilter :=
  { c with tableFilterExcludeRegex :=
      buildExcludeRegexp ((replaceGlobs c.excludeDbPatterns).map (fun db => db ++ "\\..*") ++
        parts c.includeDbPatterns c.excludeTablePatterns) }

def buildFilter (c : DbTableFilter) : DbTableFilter :=
  c.dbIncludeRegex.dbExcludeRegex.tableIncludeRegex.tableExcludeRegex

def dbFilterRegex (c : DbTableFilter) : String :=
  "^" ++ c.dbFilterIncludeRegex ++ c.dbFilterExcludeRegex

def tableFilterRegex (c : DbTableFilter) : String :=
  "^" ++ c.tableFilterIncludeRegex ++ c.tableFilterExcludeRegex

end DbTableFilter

def containGlob (p : String) : Bool :=
  p.toList.any fun c => c = '*' || c = '?' || c = '%'

/-- `^[chars]+$`, whose end may stand before a last line feed. -/
def onlyOf (chars : List Char) (p : String) : Bool :=
  let cs := if p.toList.getLast? = some '\n' then p.toList.dropLast else p.toList
  cs ≠ [] && cs.all (· ∈ chars)

def globError (p : String) : Option String :=
  if containGlob p then
    if ('%' ∈ p.toList ∨ '?' ∈ p.toList) ∧ onlyOf ['%', '?'] p then some "% ? can't be used alone"
    else if '*' ∈ p.toList ∧ ¬ onlyOf ['*'] p then some "* must used alone"
    else none
  else none

def globCheck (patterns : List String) : Except String Unit :=
  match patterns.findSome? globError with
  | none => .ok ()
  | some err => .error ("[" ++ " ".intercalate patterns ++ "]: " ++ err)

namespace DbTableFilter

def validate (c : DbTableFilter) : Except String Unit :=
  if c.includeDbPatterns = [] then .error "include databases patterns can't be empty"
  else if c.includeTablePatterns = [] then .error "include tables patterns can't be empty"
  else if "*" ∈ c.excludeDbPatterns then .error "exclude databases patterns can't be *"
  else if "*" ∈ c.excludeTablePatterns then .error "exclude tables patterns can't be *"
  else do
    globCheck c.includeDbPatterns
    globCheck c.includeTablePatterns
    globCheck c.excludeDbPatterns
    globCheck c.excludeTablePatterns

def trimEle (s : List String) : List String := (s.map Text.trimSpace).filter (· ≠ "")

def newFilter (includeDbPatterns includeTablePatterns excludeDbPatterns excludeTablePatterns :
    List String) : Except String DbTableFilter := do
  let tf : DbTableFilter :=
    { includeDbPatterns := (trimEle includeDbPatterns).eraseDups
      includeTablePatterns := (trimEle includeTablePatterns).eraseDups
      excludeDbPatterns := (trimEle excludeDbPatterns).eraseDups
      excludeTablePatterns := (trimEle excludeTablePatterns).eraseDups
      dbFilterIncludeRegex := ""
      dbFilterExcludeRegex := ""
      tableFilterIncludeRegex := ""
      tableFilterExcludeRegex := "" }
  tf.validate
  return tf.buildFilter

end DbTableFilter

/-! What the globs say. -/

def token (c : Char) : Glob.Token :=
  if c = '*' ∨ c = '%' then .many else if c = '?' then .one else .lit c

def tokens (p : String) : List Glob.Token := p.toList.map token

def globMatches (p name : String) : Bool := Glob.matchesAll (tokens p) name.toList

/-- The characters of a name that needs no quotes. -/
def Unquoted (name : String) : Prop :=
  ∀ c ∈ name.toList, c.isAlphanum ∨ c = '$' ∨ c = '_' ∨ (0x80 ≤ c.toNat ∧ c.toNat ≤ 0xFFFF)

instance (name : String) : Decidable (Unquoted name) :=
  List.decidableBAll
    (fun c : Char => c.isAlphanum ∨ c = '$' ∨ c = '_' ∨ (0x80 ≤ c.toNat ∧ c.toNat ≤ 0xFFFF))
    name.toList

/-- What an expression would read otherwise is not in the pattern, but for what is replaced. -/
def Plain (p : String) : Prop :=
  ∀ c ∈ p.toList, c ∈ Regexp.metachars → c = '.' ∨ c = '*' ∨ c = '?'

instance (p : String) : Decidable (Plain p) :=
  List.decidableBAll (fun c => c ∈ Regexp.metachars → c = '.' ∨ c = '*' ∨ c = '?') p.toList

namespace DbTableFilter

/-- Every pattern of the four lists. -/
def patterns (c : DbTableFilter) : List String :=
  c.includeDbPatterns ++ c.excludeDbPatterns ++ (c.includeTablePatterns ++ c.excludeTablePatterns)

def MeansDb (c : DbTableFilter) (d : String) : Prop :=
  (∃ p ∈ c.includeDbPatterns, globMatches p d) ∧ ¬ ∃ p ∈ c.excludeDbPatterns, globMatches p d

instance (c : DbTableFilter) (d : String) : Decidable (c.MeansDb d) :=
  inferInstanceAs (Decidable (_ ∧ _))

def MeansTable (c : DbTableFilter) (d t : String) : Prop :=
  (∃ p ∈ c.includeDbPatterns, globMatches p d) ∧ (∃ q ∈ c.includeTablePatterns, globMatches q t) ∧
    (¬ ∃ p ∈ c.excludeDbPatterns, globMatches p d) ∧
    ¬ ∃ q ∈ c.excludeTablePatterns, globMatches q t

/-- The expressions match what the globs say. -/
def Exact (re : Regexp.Engine true) (c : DbTableFilter) : Prop :=
  ∃ db table, re.compile c.dbFilterRegex = some db ∧ re.compile c.tableFilterRegex = some table ∧
    (∀ d, Unquoted d → (db d = true ↔ c.MeansDb d)) ∧
    ∀ d t, Unquoted d → Unquoted t → (table (d ++ "." ++ t) = true ↔ c.MeansTable d t)

end DbTableFilter

section

variable {p q d t name : String} {ps : List String} {cs ds a b : List Char} {c : DbTableFilter}
  {tss : List (List Glob.Token)}

theorem replaceGlob_toList (p : String) : (replaceGlob p).toList = p.toList.flatMap fun c =>
    if c = '.' then ['\\', '.'] else if c = '*' ∨ c = '%' then ['.', '*']
    else if c = '?' then ['.'] else [c] := by
  simp only [replaceGlob, replace, String.toList_ofList, List.flatMap_assoc]
  congr 1
  funext c
  by_cases hdot : c = '.'
  · subst hdot
    rfl
  · by_cases hstar : c = '*'
    · subst hstar
      rfl
    · by_cases hpercent : c = '%'
      · subst hpercent
        rfl
      · simp [hdot, hstar, hpercent]

theorem replaceGlob_plain (h : Plain p) :
    (replaceGlob p).toList = (tokens p).flatMap Glob.Token.text := by
  rw [replaceGlob_toList, tokens, List.flatMap_map]
  apply List.flatMap_congr
  intro c hc
  by_cases hdot : c = '.'
  · subst hdot
    rfl
  · by_cases hmany : c = '*' ∨ c = '%'
    · rw [if_neg hdot, if_pos hmany, token, if_pos hmany]
      rfl
    · by_cases hone : c = '?'
      · subst hone
        rfl
      · have hmeta : c ∉ Regexp.metachars := by
          intro hmem
          rcases h c hc hmem with heq | heq | heq
          · exact hdot heq
          · exact hmany (Or.inl heq)
          · exact hone heq
        rw [if_neg hdot, if_neg hmany, if_neg hone, token, if_neg hmany, if_neg hone]
        simp [Glob.Token.text, hmeta]

/-- The parts are the texts of the globs. -/
def Texts (parts : List String) (tss : List (List Glob.Token)) : Prop :=
  parts.map String.toList = tss.map fun ts => ts.flatMap Glob.Token.text

theorem texts_globs (h : ∀ p ∈ ps, Plain p) : Texts (replaceGlobs ps) (ps.map tokens) := by
  rw [Texts, replaceGlobs, List.map_map, List.map_map]
  exact List.map_congr_left fun p hp => replaceGlob_plain (h p hp)

theorem texts_parts {qs : List String} (hps : ∀ p ∈ ps, Plain p) (hqs : ∀ q ∈ qs, Plain q) :
    Texts (DbTableFilter.parts ps qs)
      (ps.flatMap fun p => qs.map fun q => tokens p ++ .lit '.' :: tokens q) := by
  rw [Texts, DbTableFilter.parts, @replaceGlobs.eq_def ps, List.flatMap_map, List.map_flatMap,
    List.map_flatMap]
  apply List.flatMap_congr
  intro p hp
  rw [replaceGlobs, List.map_map, List.map_map, List.map_map]
  apply List.map_congr_left
  intro q hq
  simp only [Function.comp_apply, String.toList_append, replaceGlob_plain (hps p hp),
    replaceGlob_plain (hqs q hq), List.flatMap_append, List.flatMap_cons, List.append_assoc]
  rfl

/-- All the tables of a database. -/
theorem texts_all (h : ∀ p ∈ ps, Plain p) :
    Texts ((replaceGlobs ps).map fun db => db ++ "\\..*")
      (ps.map fun p => tokens p ++ [.lit '.', .many]) := by
  rw [Texts, replaceGlobs, List.map_map, List.map_map, List.map_map]
  apply List.map_congr_left
  intro p hp
  simp only [Function.comp_apply, String.toList_append, replaceGlob_plain (h p hp),
    List.flatMap_append]
  rfl

theorem Texts.append {parts parts' : List String} {tss tss' : List (List Glob.Token)}
    (h : Texts parts tss) (h' : Texts parts' tss') : Texts (parts ++ parts') (tss ++ tss') := by
  rw [Texts, List.map_append, List.map_append, h, h']

theorem Texts.eq_nil_iff {parts : List String} (h : Texts parts tss) : parts = [] ↔ tss = [] := by
  rw [← List.map_eq_nil_iff (f := String.toList), h, List.map_eq_nil_iff]

theorem Texts.joined {parts : List String} (h : Texts parts tss) :
    ("|".intercalate (parts.map fun part => part ++ "$")).toList = Glob.alternativesText tss := by
  have hends := congrArg (List.map fun cs => cs ++ ['$']) h
  rw [List.map_map, List.map_map] at hends
  rw [String.toList_intercalate, List.map_map, Glob.alternativesText]
  refine congrArg (['|'].intercalate ·) (Eq.trans ?_ hends)
  apply List.map_congr_left
  intro part _
  rw [Function.comp_apply, String.toList_append]
  rfl

/-- Of a text without line feeds, one of the globs of the one list matches all, and none of the
other's. -/
theorem compile_build {include_ exclude : List String} {tss tss' : List (List Glob.Token)}
    (hinclude : Texts include_ tss) (hexclude : Texts exclude tss') (hne : tss ≠ []) : ∃ r,
    Regexp.compile true ("^" ++ buildIncludeRegexp include_ ++ buildExcludeRegexp exclude) = some r ∧
    ∀ text : String, '\n' ∉ text.toList → (r.matchString text = true ↔
      (∃ ts ∈ tss, Glob.matchesAll ts text.toList = true) ∧
        ¬ ∃ ts ∈ tss', Glob.matchesAll ts text.toList = true) := by
  have htext : ∀ rest : List Char, Regexp.parse true
      ('^' :: (("(?=(?:(" ++ "|".intercalate (include_.map fun part => part ++ "$") ++
        ")))").toList ++ rest)) (.new .plain) [] =
      Regexp.parse true rest (((Regexp.Frame.new .plain).push .bot false).push
        (.ahead (Glob.nested tss)) false) [] := by
    intro rest
    rw [String.toList_append, String.toList_append, hinclude.joined, List.append_assoc,
      List.append_assoc]
    change Regexp.parse true ('^' :: '(' :: '?' :: '=' :: ("(?:(".toList ++
      (Glob.alternativesText tss ++ (")))".toList ++ rest)))) _ _ = _
    rw [Regexp.parse, Regexp.parse, if_pos rfl, Glob.parse_nested hne]
    rfl
  rw [Regexp.compile, buildIncludeRegexp, buildRegexp, if_pos (mt hinclude.eq_nil_iff.mp hne),
    String.toList_append, String.toList_append]
  by_cases hnone : tss' = []
  · refine ⟨Regexp.sequence [.bot, .ahead (Glob.nested tss)], ?_, fun text hn => ?_⟩
    · rw [buildExcludeRegexp, buildRegexp, if_neg (not_not.mpr (hexclude.eq_nil_iff.mpr hnone)),
        List.append_assoc]
      exact htext []
    · rw [Glob.matchString_bot, ← Glob.mem_ends_nested hne hn, hnone]
      refine Regexp.exists_ends_ahead.trans (and_congr_right fun _ => ?_)
      exact iff_of_true ⟨_, Regexp.mem_ends_empty.mpr rfl⟩ (by simp)
  · refine ⟨Regexp.sequence [.bot, .ahead (Glob.nested tss), .notAhead (Glob.nested tss')], ?_,
      fun text hn => ?_⟩
    · rw [buildExcludeRegexp, buildRegexp, if_pos (mt hexclude.eq_nil_iff.mp hnone),
        List.append_assoc]
      refine (htext _).trans ?_
      rw [String.toList_append, String.toList_append, hexclude.joined, List.append_assoc]
      change Regexp.parse true ('(' :: '?' :: '!' :: ("(?:(".toList ++
        (Glob.alternativesText tss' ++ (")))".toList ++ [])))) _ _ = _
      rw [Regexp.parse, if_pos rfl, Glob.parse_nested hnone]
      rfl
    · rw [Glob.matchString_bot, ← Glob.mem_ends_nested hne hn, ← Glob.mem_ends_nested hnone hn]
      refine Regexp.exists_ends_ahead.trans (and_congr_right fun _ => ?_)
      refine Regexp.exists_ends_notAhead.trans (and_iff_left ?_)
      exact ⟨_, Regexp.mem_ends_empty.mpr rfl⟩

/-- A text with one dot is split there by two globs. -/
theorem matches_dotted {ts us : List Glob.Token} (hd : '.' ∉ cs) (ht : '.' ∉ ds) :
    Glob.matchesAll (ts ++ .lit '.' :: us) (cs ++ '.' :: ds) = true ↔
      Glob.matchesAll ts cs = true ∧ Glob.matchesAll us ds = true := by
  rw [Glob.matchesAll_append]
  constructor
  · rintro ⟨front, rest, hsplit, hfront, hrest⟩
    obtain ⟨after, rfl, hafter⟩ := Glob.matchesAll_lit.mp hrest
    have hcount := congrArg (List.count '.') hsplit
    rw [List.count_append, List.count_append, List.count_cons_self, List.count_cons_self,
      List.count_eq_zero.mpr hd, List.count_eq_zero.mpr ht] at hcount
    have hnone : '.' ∉ front := List.count_eq_zero.mp (by omega)
    obtain ⟨rfl, rfl⟩ := Text.cut_front hd hnone hsplit
    exact ⟨hfront, hafter⟩
  · rintro ⟨hts, hus⟩
    exact ⟨cs, '.' :: ds, rfl, hts, Glob.matchesAll_lit.mpr ⟨ds, rfl, hus⟩⟩

theorem Unquoted.not_mem {x : Char} (h : Unquoted name) (hx : x = '.' ∨ x = '\n') :
    x ∉ name.toList := by
  intro hmem
  have hc := h x hmem
  rcases hx with rfl | rfl <;> revert hc <;> decide

theorem validate_ok (h : c.validate = .ok ()) :
    c.includeDbPatterns ≠ [] ∧ c.includeTablePatterns ≠ [] := by
  unfold DbTableFilter.validate at h
  split_ifs at h with hdb htable
  exact ⟨hdb, htable⟩

/-- A filter is made of patterns that are valid. -/
theorem newFilter_ok {includeDbs includeTables excludeDbs excludeTables : List String}
    (h : DbTableFilter.newFilter includeDbs includeTables excludeDbs excludeTables = .ok c) :
    ∃ tf : DbTableFilter, tf.validate = .ok () ∧ c = tf.buildFilter := by
  unfold DbTableFilter.newFilter at h
  generalize DbTableFilter.mk _ _ _ _ _ _ _ _ = tf at h
  refine ⟨tf, ?_⟩
  dsimp only at h
  cases hvalid : tf.validate with
  | error e =>
    rw [hvalid] at h
    cases h
  | ok _ =>
    rw [hvalid] at h
    exact ⟨rfl, (Except.ok.inj h).symm⟩

/-- What is read of the expressions is what the implementation runs. -/
theorem exists_run (re : Regexp.Engine true) {pattern : String} {r : Regexp}
    (h : Regexp.compile true pattern = some r) : ∃ run, re.compile pattern = some run ∧
      ∀ text : String, '\n' ∉ text.toList → run text = r.matchString text := by
  obtain ⟨run, hrun, hagrees⟩ := re.agrees pattern r h
  exact ⟨run, hrun, fun text hn => hagrees text fun _ => hn⟩

/-- The example of the source: the databases of a prefix but one, their tables likewise. -/
def byPrefix : DbTableFilter := ⟨["db%"], ["db1"], ["tb%"], ["tb1%"], "", "", "", ""⟩

/-- A dollar sign in a pattern is the end of the text to the expression. -/
def withDollar : DbTableFilter := ⟨["a$b"], [], ["*"], [], "", "", "", ""⟩

end

end Filter
