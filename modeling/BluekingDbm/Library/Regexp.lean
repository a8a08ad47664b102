import Mathlib.Data.List.Infix
import Mathlib.Logic.Relation

/-! Regular expressions: their syntax, what they match, and how they are read from text. -/

/-- A regular expression without captures; `bot` and `eot` are the ends of the text. -/
inductive Regexp where
  | empty
  | lit (c : Char)
  | dot
  | bot
  | eot
  | seq (r s : Regexp)
  | alt (r s : Regexp)
  | star (r : Regexp)
  | ahead (r : Regexp)
  | notAhead (r : Regexp)
  deriving DecidableEq

namespace Regexp

/-- What is reached from `s` by any number of rounds, each of which goes forward. -/
def closure (f : List Char → List (List Char)) : ℕ → List Char → List (List Char)
  | 0, s => [s]
  | n + 1, s => s :: ((f s).filter fun m => m.length < s.length).flatMap (closure f n)

/-- What may remain of `s`, the rest of a text, behind a match that begins there. -/
def ends (text : List Char) : Regexp → List Char → List (List Char)
  | empty, s => [s]
  | lit c, s => if s.head? = some c then [s.tail] else []
  | dot, s => if s ≠ [] ∧ s.head? ≠ some '\n' then [s.tail] else []
  | bot, s => if s = text then [s] else []
  | eot, s => if s = [] then [s] else []
  | seq r q, s => (ends text r s).flatMap (ends text q)
  | alt r q, s => ends text r s ++ ends text q s
  | star r, s => closure (ends text r) s.length s
  | ahead r, s => if ends text r s ≠ [] then [s] else []
  | notAhead r, s => if ends text r s = [] then [s] else []

/-- A match begins somewhere in the text. -/
def matchString (r : Regexp) (text : String) : Bool :=
  text.toList.tails.any fun s => ends text.toList r s ≠ []

section Ends

variable {text s s' m : List Char} {r q : Regexp} {c : Char} {f : List Char → List (List Char)}
  {n : ℕ}

@[simp] theorem mem_ends_empty : s' ∈ ends text empty s ↔ s' = s := List.mem_singleton

@[simp] theorem mem_ends_lit : s' ∈ ends text (lit c) s ↔ s = c :: s' := by
  change s' ∈ (if s.head? = some c then [s.tail] else []) ↔ _
  cases s with
  | nil => simp
  | cons d s => by_cases h : d = c <;> simp [h, eq_comm]

@[simp] theorem mem_ends_dot : s' ∈ ends text dot s ↔ ∃ c, c ≠ '\n' ∧ s = c :: s' := by
  change s' ∈ (if s ≠ [] ∧ s.head? ≠ some '\n' then [s.tail] else []) ↔ _
  cases s with
  | nil => simp
  | cons d s => by_cases h : d = '\n' <;> simp [h, eq_comm]

@[simp] theorem mem_ends_bot : s' ∈ ends text bot s ↔ s = text ∧ s' = s := by
  change s' ∈ (if s = text then [s] else []) ↔ _
  by_cases h : s = text <;> simp [h]

@[simp] theorem mem_ends_eot : s' ∈ ends text eot s ↔ s = [] ∧ s' = [] := by
  change s' ∈ (if s = [] then [s] else []) ↔ _
  by_cases h : s = [] <;> simp [h]

@[simp] theorem mem_ends_seq :
    s' ∈ ends text (seq r q) s ↔ ∃ m, m ∈ ends text r s ∧ s' ∈ ends text q m := List.mem_flatMap

@[simp] theorem mem_ends_alt :
    s' ∈ ends text (alt r q) s ↔ s' ∈ ends text r s ∨ s' ∈ ends text q s := List.mem_append

@[simp] theorem mem_ends_ahead :
    s' ∈ ends text (ahead r) s ↔ s' = s ∧ ∃ m, m ∈ ends text r s := by
  change s' ∈ (if ends text r s ≠ [] then [s] else []) ↔ _
  by_cases h : ends text r s = []
  · simp [h]
  · have := List.exists_mem_of_ne_nil _ h
    simp [h, this]

@[simp] theorem mem_ends_unless :
    s' ∈ ends text (notAhead r) s ↔ s' = s ∧ ¬ ∃ m, m ∈ ends text r s := by
  change s' ∈ (if ends text r s = [] then [s] else []) ↔ _
  by_cases h : ends text r s = []
  · simp [h]
  · have := List.exists_mem_of_ne_nil _ h
    simp [h, this]

/-- What looks ahead takes nothing of the text. -/
theorem exists_ends_ahead : (∃ m, m ∈ ends text (seq (ahead r) q) s) ↔
    (∃ m, m ∈ ends text r s) ∧ ∃ m, m ∈ ends text q s := by
  constructor
  · rintro ⟨m, hm⟩
    obtain ⟨m', hm', hq⟩ := mem_ends_seq.mp hm
    obtain ⟨rfl, hr⟩ := mem_ends_ahead.mp hm'
    exact ⟨hr, m, hq⟩
  · rintro ⟨hr, m, hm⟩
    exact ⟨m, mem_ends_seq.mpr ⟨s, mem_ends_ahead.mpr ⟨rfl, hr⟩, hm⟩⟩

theorem exists_ends_notAhead : (∃ m, m ∈ ends text (seq (notAhead r) q) s) ↔
    (¬ ∃ m, m ∈ ends text r s) ∧ ∃ m, m ∈ ends text q s := by
  constructor
  · rintro ⟨m, hm⟩
    obtain ⟨m', hm', hq⟩ := mem_ends_seq.mp hm
    obtain ⟨rfl, hr⟩ := mem_ends_unless.mp hm'
    exact ⟨hr, m, hq⟩
  · rintro ⟨hr, m, hm⟩
    exact ⟨m, mem_ends_seq.mpr ⟨s, mem_ends_unless.mpr ⟨rfl, hr⟩, hm⟩⟩

/-- A closure of rounds that do not go back reaches what finitely many rounds reach. -/
theorem mem_closure (hf : ∀ s, ∀ m ∈ f s, m <:+ s) (hn : s.length ≤ n) :
    s' ∈ closure f n s ↔ Relation.ReflTransGen (fun a b => b ∈ f a) s s' := by
  constructor
  · intro h
    induction n generalizing s with
    | zero => rw [List.mem_singleton.mp h]
    | succ n ih =>
      rcases List.mem_cons.mp h with rfl | h
      · exact .refl
      · obtain ⟨m, hm, h⟩ := List.mem_flatMap.mp h
        obtain ⟨hm, hless⟩ := List.mem_filter.mp hm
        have hlength : m.length ≤ n := by
          have := of_decide_eq_true hless
          omega
        exact .head hm (ih hlength h)
  · intro h
    induction h using Relation.ReflTransGen.head_induction_on generalizing n with
    | refl => cases n <;> exact List.mem_cons_self
    | @head s m hm _ ih =>
      have hsuffix := hf s m hm
      rcases Nat.lt_or_ge m.length s.length with hless | hge
      · cases n with
        | zero => omega
        | succ n =>
          refine List.mem_cons_of_mem s (List.mem_flatMap.mpr ⟨m, ?_, ih (by omega)⟩)
          exact List.mem_filter.mpr ⟨hm, by simpa using hless⟩
      · -- a round that does not go forward stays where it is
        rw [← hsuffix.eq_of_length_le hge]
        exact ih (by rw [hsuffix.eq_of_length_le hge]; exact hn)

theorem suffix_of_mem_ends (h : s' ∈ ends text r s) : s' <:+ s := by
  induction r generalizing s s' with
  | empty => exact mem_ends_empty.mp h ▸ List.suffix_rfl
  | lit c => exact mem_ends_lit.mp h ▸ List.suffix_cons c s'
  | dot =>
    obtain ⟨c, -, rfl⟩ := mem_ends_dot.mp h
    exact List.suffix_cons c s'
  | bot => exact (mem_ends_bot.mp h).2 ▸ List.suffix_rfl
  | eot =>
    obtain ⟨rfl, rfl⟩ := mem_ends_eot.mp h
    exact List.suffix_rfl
  | seq r q ihr ihq =>
    obtain ⟨m, hm, hq⟩ := mem_ends_seq.mp h
    exact (ihq hq).trans (ihr hm)
  | alt r q ihr ihq =>
    rcases mem_ends_alt.mp h with h | h
    · exact ihr h
    · exact ihq h
  | star r ih =>
    have hrounds := (mem_closure (fun s m hm => ih hm) (le_refl s.length)).mp h
    clear h
    induction hrounds with
    | refl => exact List.suffix_rfl
    | tail _ hround hbefore => exact (ih hround).trans hbefore
  | ahead r _ => exact (mem_ends_ahead.mp h).1 ▸ List.suffix_rfl
  | notAhead r _ => exact (mem_ends_unless.mp h).1 ▸ List.suffix_rfl

theorem mem_ends_star :
    s' ∈ ends text (star r) s ↔ Relation.ReflTransGen (fun a b => b ∈ ends text r a) s s' :=
  mem_closure (fun _ _ => suffix_of_mem_ends) (le_refl s.length)

/-- `.*` passes over any front without a line feed. -/
@[simp] theorem mem_ends_star_dot :
    s' ∈ ends text (star dot) s ↔ ∃ front, s = front ++ s' ∧ '\n' ∉ front := by
  rw [mem_ends_star]
  constructor
  · intro h
    induction h using Relation.ReflTransGen.head_induction_on with
    | refl => exact ⟨[], rfl, List.not_mem_nil⟩
    | head hround _ ih =>
      obtain ⟨c, hc, rfl⟩ := mem_ends_dot.mp hround
      obtain ⟨front, rfl, hfront⟩ := ih
      refine ⟨c :: front, rfl, ?_⟩
      simp [hfront, hc.symm]
  · rintro ⟨front, rfl, hfront⟩
    induction front with
    | nil => exact .refl
    | cons c front ih =>
      obtain ⟨hc, hfront⟩ := not_or.mp (mt List.mem_cons.mpr hfront)
      exact .head (mem_ends_dot.mpr ⟨c, fun heq => hc heq.symm, rfl⟩) (ih hfront)

theorem matchString_iff {text : String} :
    matchString r text = true ↔ ∃ s m, s <:+ text.toList ∧ m ∈ ends text.toList r s := by
  simp only [matchString, List.any_eq_true, List.mem_tails, decide_eq_true_eq]
  constructor
  · rintro ⟨s, hs, h⟩
    obtain ⟨m, hm⟩ := List.exists_mem_of_ne_nil _ h
    exact ⟨s, m, hs, hm⟩
  · rintro ⟨s, m, hs, hm⟩
    exact ⟨s, hs, List.ne_nil_of_mem hm⟩

end Ends

/-- Characters with a meaning of their own in the text of an expression. -/
def metachars : List Char := "\\.+*?()[]\x7b\x7d^$|".toList

inductive Group where
  | plain
  | ahead
  | notAhead

def Group.close : Group → Regexp → Regexp
  | plain, r => r
  | .ahead, r => .ahead r
  | .notAhead, r => .notAhead r

/-- An open group: the alternatives that are complete, and the items of the one that is read.
A repetition may follow where the last item is one that can be repeated. -/
structure Frame where
  group : Group
  alts : List Regexp
  items : List Regexp
  repeatable : Bool

def sequence (items : List Regexp) : Regexp := items.foldr seq empty

namespace Frame

def new (group : Group) : Frame := ⟨group, [], [], false⟩

def push (f : Frame) (r : Regexp) (repeatable : Bool) : Frame :=
  { f with items := f.items ++ [r], repeatable }

def next (f : Frame) : Frame :=
  { f with alts := f.alts ++ [sequence f.items], items := [], repeatable := false }

def body (f : Frame) : Regexp := f.alts.foldr alt (sequence f.items)

/-- Repeats the last item. -/
def quantify (f : Frame) (repetition : Regexp → Regexp) : Option Frame :=
  if f.repeatable then
    f.items.getLast?.map fun r =>
      { f with items := f.items.dropLast ++ [repetition r], repeatable := false }
  else none

end Frame

/-- Reads an expression; the flag allows looking ahead. Classes, counted repetitions, flags, and
escapes of letters and digits are not read, nor is what is no expression. -/
def parse (lookaround : Bool) : List Char → Frame → List Frame → Option Regexp
  | [], f, [] => some f.body
  | [], _, _ :: _ => none
  | '\\' :: c :: cs, f, fs =>
    if c ∈ metachars then parse lookaround cs (f.push (lit c) true) fs else none
  | '(' :: '?' :: ':' :: cs, f, fs => parse lookaround cs (.new .plain) (f :: fs)
  | '(' :: '?' :: '=' :: cs, f, fs =>
    if lookaround then parse lookaround cs (.new .ahead) (f :: fs) else none
  | '(' :: '?' :: '!' :: cs, f, fs =>
    if lookaround then parse lookaround cs (.new .notAhead) (f :: fs) else none
  | '(' :: '?' :: _, _, _ => none
  | '(' :: cs, f, fs => parse lookaround cs (.new .plain) (f :: fs)
  | ')' :: _, _, [] => none
  | ')' :: cs, f, g :: fs =>
    parse lookaround cs (g.push (f.group.close f.body) (f.group matches .plain)) fs
  | '|' :: cs, f, fs => parse lookaround cs f.next fs
  | '.' :: cs, f, fs => parse lookaround cs (f.push dot true) fs
  | '^' :: cs, f, fs => parse lookaround cs (f.push bot false) fs
  | '$' :: cs, f, fs => parse lookaround cs (f.push eot false) fs
  | '*' :: cs, f, fs => (f.quantify star).bind fun f => parse lookaround cs f fs
  | '+' :: cs, f, fs => (f.quantify fun r => seq r (star r)).bind fun f => parse lookaround cs f fs
  | '?' :: cs, f, fs => (f.quantify fun r => alt r empty).bind fun f => parse lookaround cs f fs
  | c :: cs, f, fs =>
    if c ∈ metachars then none else parse lookaround cs (f.push (lit c) true) fs

/-- What is read of a text, if it is within what is read here. -/
def compile (lookaround : Bool) (text : String) : Option Regexp :=
  parse lookaround text.toList (.new .plain) []

/-- An implementation: it is known on what is read here. A text with a line feed is left out where
looking ahead is allowed, since implementations differ in what its end is. -/
structure Engine (lookaround : Bool) where
  compile : String → Option (String → Bool)
  agrees : ∀ pattern r, Regexp.compile lookaround pattern = some r →
    ∃ run, compile pattern = some run ∧ ∀ text,
      (lookaround = true → '\n' ∉ text.toList) → run text = r.matchString text

/-- The implementation that refuses what is not read here. -/
def engine (lookaround : Bool) : Engine lookaround where
  compile pattern := (Regexp.compile lookaround pattern).map matchString
  agrees := by
    intro pattern r h
    refine ⟨r.matchString, ?_, fun text _ => rfl⟩
    rw [h]
    rfl

end Regexp

/-! Globs: one character, any character, or any text. -/
namespace Glob

inductive Token where
  | lit (c : Char)
  | one
  | many
  deriving DecidableEq

/-- A glob matches a whole text. -/
def matchesAll : List Token → List Char → Bool
  | [], cs => cs = []
  | .lit c :: ts, cs => cs.head? = some c && matchesAll ts cs.tail
  | .one :: ts, cs => cs ≠ [] && matchesAll ts cs.tail
  | .many :: ts, cs => cs.tails.any (matchesAll ts)

def Token.regexp : Token → Regexp
  | lit c => .lit c
  | one => .dot
  | many => .star .dot

/-- A token as the text of an expression. -/
def Token.text : Token → List Char
  | lit c => if c ∈ Regexp.metachars then ['\\', c] else [c]
  | one => ['.']
  | many => ['.', '*']

/-- A frame with a token behind its items. -/
def pushToken (f : Regexp.Frame) (token : Token) : Regexp.Frame :=
  f.push token.regexp (token ≠ .many)

section Matching

variable {ts : List Token} {cs text s s' : List Char} {c : Char} {lookaround : Bool}
  {f : Regexp.Frame} {fs : List Regexp.Frame}

@[simp] theorem matchesAll_nil : matchesAll [] cs = true ↔ cs = [] := by
  simp [matchesAll]

@[simp] theorem matchesAll_lit :
    matchesAll (.lit c :: ts) cs = true ↔ ∃ ds, cs = c :: ds ∧ matchesAll ts ds = true := by
  cases cs with
  | nil => simp [matchesAll]
  | cons d ds => simp [matchesAll, and_assoc]

@[simp] theorem matchesAll_one :
    matchesAll (.one :: ts) cs = true ↔ ∃ d ds, cs = d :: ds ∧ matchesAll ts ds = true := by
  cases cs with
  | nil => simp [matchesAll]
  | cons d ds => simp [matchesAll]

@[simp] theorem matchesAll_many :
    matchesAll (.many :: ts) cs = true ↔ ∃ front ds, cs = front ++ ds ∧ matchesAll ts ds = true := by
  simp only [matchesAll, List.any_eq_true, List.mem_tails]
  constructor
  · rintro ⟨ds, ⟨front, rfl⟩, h⟩
    exact ⟨front, ds, rfl, h⟩
  · rintro ⟨front, ds, rfl, h⟩
    exact ⟨ds, List.suffix_append front ds, h⟩

theorem parse_lit (hc : c ∉ Regexp.metachars) :
    Regexp.parse lookaround (c :: cs) f fs = Regexp.parse lookaround cs (f.push (.lit c) true) fs := by
  have hne : ∀ d ∈ Regexp.metachars, c ≠ d := fun d hd heq => hc (heq ▸ hd)
  rw [Regexp.parse, if_neg hc] <;> intros <;> subst_vars <;> exact absurd rfl (hne _ (by decide))

/-- The text of a glob is read token by token. -/
theorem parse_text (rest : List Char) :
    Regexp.parse lookaround (ts.flatMap Token.text ++ rest) f fs =
      Regexp.parse lookaround rest (ts.foldl pushToken f) fs := by
  induction ts generalizing f with
  | nil => rfl
  | cons token ts ih =>
    rw [List.flatMap_cons, List.append_assoc, List.foldl_cons, ← ih]
    cases token with
    | lit c =>
      by_cases hc : c ∈ Regexp.metachars
      · simp [Token.text, hc, Regexp.parse, pushToken, Token.regexp]
      · simp [Token.text, hc, parse_lit hc, pushToken, Token.regexp]
    | one => simp [Token.text, Regexp.parse, pushToken, Token.regexp]
    | many =>
      simp [Token.text, Regexp.parse, pushToken, Token.regexp, Regexp.Frame.quantify,
        Regexp.Frame.push]

theorem items_foldl : (ts.foldl pushToken f).items = f.items ++ ts.map Token.regexp ∧
    (ts.foldl pushToken f).alts = f.alts ∧ (ts.foldl pushToken f).group = f.group := by
  induction ts generalizing f with
  | nil => simp
  | cons token ts ih =>
    rw [List.foldl_cons]
    simp [ih, pushToken, Regexp.Frame.push]

/-- In a text without line feeds the expression of a glob goes as far as the glob matches. -/
theorem mem_ends_sequence {items : List Regexp} (hs : '\n' ∉ s) :
    s' ∈ Regexp.ends text (Regexp.sequence (ts.map Token.regexp ++ items)) s ↔
      ∃ front rest, s = front ++ rest ∧ matchesAll ts front = true ∧
        s' ∈ Regexp.ends text (Regexp.sequence items) rest := by
  induction ts generalizing s with
  | nil => simp
  | cons token ts ih =>
    rw [List.map_cons, List.cons_append]
    change s' ∈ Regexp.ends text (.seq token.regexp (Regexp.sequence _)) s ↔ _
    rw [Regexp.mem_ends_seq]
    constructor
    · rintro ⟨m, hm, h⟩
      have hsuffix := Regexp.suffix_of_mem_ends hm
      obtain ⟨front, rest, rfl, hfront, hrest⟩ := (ih fun hn => hs (hsuffix.subset hn)).mp h
      cases token with
      | lit c =>
        obtain rfl := Regexp.mem_ends_lit.mp hm
        exact ⟨c :: front, rest, rfl, matchesAll_lit.mpr ⟨front, rfl, hfront⟩, hrest⟩
      | one =>
        obtain ⟨c, -, rfl⟩ := Regexp.mem_ends_dot.mp hm
        exact ⟨c :: front, rest, rfl, matchesAll_one.mpr ⟨c, front, rfl, hfront⟩, hrest⟩
      | many =>
        obtain ⟨skipped, rfl, -⟩ := Regexp.mem_ends_star_dot.mp hm
        refine ⟨skipped ++ front, rest, by rw [List.append_assoc], ?_, hrest⟩
        exact matchesAll_many.mpr ⟨skipped, front, rfl, hfront⟩
    · rintro ⟨front, rest, rfl, hfront, hrest⟩
      cases token with
      | lit c =>
        obtain ⟨ds, rfl, hds⟩ := matchesAll_lit.mp hfront
        refine ⟨ds ++ rest, Regexp.mem_ends_lit.mpr rfl, ?_⟩
        exact (ih fun hn => hs (List.mem_cons_of_mem c hn)).mpr ⟨ds, rest, rfl, hds, hrest⟩
      | one =>
        obtain ⟨c, ds, rfl, hds⟩ := matchesAll_one.mp hfront
        obtain ⟨hc, hn⟩ := not_or.mp (mt List.mem_cons.mpr hs)
        refine ⟨ds ++ rest, Regexp.mem_ends_dot.mpr ⟨c, fun heq => hc heq.symm, rfl⟩, ?_⟩
        exact (ih hn).mpr ⟨ds, rest, rfl, hds, hrest⟩
      | many =>
        obtain ⟨skipped, ds, rfl, hds⟩ := matchesAll_many.mp hfront
        rw [List.append_assoc] at hs ⊢
        have hn : '\n' ∉ ds ++ rest := fun hn => hs (List.mem_append_right _ hn)
        refine ⟨ds ++ rest, Regexp.mem_ends_star_dot.mpr ⟨skipped, rfl, ?_⟩, ?_⟩
        · exact fun hn => hs (List.mem_append_left _ hn)
        · exact (ih hn).mpr ⟨ds, rest, rfl, hds, hrest⟩

theorem body_push_foldl {group : Regexp.Group} {r : Regexp} {repeatable : Bool} :
    ((ts.foldl pushToken (.new group)).push r repeatable).body =
      Regexp.sequence (ts.map Token.regexp ++ [r]) := by
  obtain ⟨hitems, halts, -⟩ := @items_foldl ts (.new group)
  rw [Regexp.Frame.body, Regexp.Frame.push, hitems, halts]
  rfl

/-- The expression of a glob, up to the end of the text. -/
theorem compile_text_eot :
    Regexp.compile lookaround (String.ofList (ts.flatMap Token.text ++ ['$'])) =
      some (Regexp.sequence (ts.map Token.regexp ++ [.eot])) := by
  rw [Regexp.compile, String.toList_ofList, parse_text, ← body_push_foldl]
  rfl

/-- It is found where the glob matches an end of the text. -/
theorem matchString_text_eot {text : String} (htext : '\n' ∉ text.toList) :
    (Regexp.sequence (ts.map Token.regexp ++ [.eot])).matchString text = true ↔
      ∃ s, s <:+ text.toList ∧ matchesAll ts s = true := by
  rw [Regexp.matchString_iff]
  constructor
  · rintro ⟨s, m, hs, hm⟩
    obtain ⟨front, rest, rfl, hfront, hrest⟩ :=
      (mem_ends_sequence fun hn => htext (hs.subset hn)).mp hm
    obtain ⟨rfl, -⟩ : rest = [] ∧ m = [] := by simpa [Regexp.sequence] using hrest
    refine ⟨front, ?_, hfront⟩
    rwa [List.append_nil] at hs
  · rintro ⟨s, hs, h⟩
    refine ⟨s, [], hs, (mem_ends_sequence fun hn => htext (hs.subset hn)).mpr ?_⟩
    exact ⟨s, [], by rw [List.append_nil], h, by simp [Regexp.sequence]⟩

theorem matchesAll_append {us : List Token} : matchesAll (ts ++ us) cs = true ↔
    ∃ front rest, cs = front ++ rest ∧ matchesAll ts front = true ∧ matchesAll us rest = true := by
  induction ts generalizing cs with
  | nil => simp
  | cons token ts ih =>
    rw [List.cons_append]
    cases token with
    | lit c =>
      rw [matchesAll_lit]
      constructor
      · rintro ⟨ds, rfl, h⟩
        obtain ⟨front, rest, rfl, hfront, hrest⟩ := ih.mp h
        exact ⟨c :: front, rest, rfl, matchesAll_lit.mpr ⟨front, rfl, hfront⟩, hrest⟩
      · rintro ⟨front, rest, rfl, hfront, hrest⟩
        obtain ⟨ds, rfl, hds⟩ := matchesAll_lit.mp hfront
        exact ⟨ds ++ rest, rfl, ih.mpr ⟨ds, rest, rfl, hds, hrest⟩⟩
    | one =>
      rw [matchesAll_one]
      constructor
      · rintro ⟨d, ds, rfl, h⟩
        obtain ⟨front, rest, rfl, hfront, hrest⟩ := ih.mp h
        exact ⟨d :: front, rest, rfl, matchesAll_one.mpr ⟨d, front, rfl, hfront⟩, hrest⟩
      · rintro ⟨front, rest, rfl, hfront, hrest⟩
        obtain ⟨d, ds, rfl, hds⟩ := matchesAll_one.mp hfront
        exact ⟨d, ds ++ rest, rfl, ih.mpr ⟨ds, rest, rfl, hds, hrest⟩⟩
    | many =>
      rw [matchesAll_many]
      constructor
      · rintro ⟨skipped, ds, rfl, h⟩
        obtain ⟨front, rest, rfl, hfront, hrest⟩ := ih.mp h
        refine ⟨skipped ++ front, rest, by rw [List.append_assoc], ?_, hrest⟩
        exact matchesAll_many.mpr ⟨skipped, front, rfl, hfront⟩
      · rintro ⟨front, rest, rfl, hfront, hrest⟩
        obtain ⟨skipped, ds, rfl, hds⟩ := matchesAll_many.mp hfront
        exact ⟨skipped, ds ++ rest, by rw [List.append_assoc], ih.mpr ⟨ds, rest, rfl, hds, hrest⟩⟩

/-- What begins at the front of a text. -/
theorem matchString_bot {items : List Regexp} {text : String} :
    (Regexp.sequence (.bot :: items)).matchString text = true ↔
      ∃ m, m ∈ Regexp.ends text.toList (Regexp.sequence items) text.toList := by
  rw [Regexp.matchString_iff]
  constructor
  · rintro ⟨s, m, -, hm⟩
    obtain ⟨m', hm', hm⟩ := Regexp.mem_ends_seq.mp hm
    obtain ⟨rfl, rfl⟩ := Regexp.mem_ends_bot.mp hm'
    exact ⟨m, hm⟩
  · rintro ⟨m, hm⟩
    refine ⟨text.toList, m, List.suffix_rfl, Regexp.mem_ends_seq.mpr ⟨text.toList, ?_, hm⟩⟩
    exact Regexp.mem_ends_bot.mpr ⟨rfl, rfl⟩

/-- The expression of a glob at the front of a text. -/
theorem compile_bot_text :
    Regexp.compile lookaround (String.ofList ('^' :: ts.flatMap Token.text)) =
      some (Regexp.sequence (.bot :: ts.map Token.regexp)) := by
  obtain ⟨hitems, halts, -⟩ := @items_foldl ts ((Regexp.Frame.new .plain).push .bot false)
  have hread := @parse_text ts lookaround ((Regexp.Frame.new .plain).push .bot false) [] []
  rw [List.append_nil] at hread
  rw [Regexp.compile, String.toList_ofList, Regexp.parse, hread, Regexp.parse, Regexp.Frame.body,
    hitems, halts]
  rfl

/-! Several globs, each up to the end of the text. -/

/-- One of them. -/
def alternatives : List (List Token) → Regexp
  | [] => .empty
  | [ts] => Regexp.sequence (ts.map Token.regexp ++ [.eot])
  | ts :: tss => .alt (Regexp.sequence (ts.map Token.regexp ++ [.eot])) (alternatives tss)

def alternativesText (tss : List (List Token)) : List Char :=
  ['|'].intercalate (tss.map fun ts => ts.flatMap Token.text ++ ['$'])

theorem mem_ends_alternatives {tss : List (List Token)} (hne : tss ≠ []) (hs : '\n' ∉ s) :
    s' ∈ Regexp.ends text (alternatives tss) s ↔
      s' = [] ∧ ∃ ts ∈ tss, matchesAll ts s = true := by
  have hone : ∀ ts : List Token,
      s' ∈ Regexp.ends text (Regexp.sequence (ts.map Token.regexp ++ [.eot])) s ↔
        s' = [] ∧ matchesAll ts s = true := by
    intro ts
    rw [mem_ends_sequence hs]
    constructor
    · rintro ⟨front, rest, rfl, hfront, hrest⟩
      obtain ⟨rfl, rfl⟩ : rest = [] ∧ s' = [] := by simpa [Regexp.sequence] using hrest
      exact ⟨rfl, by rwa [List.append_nil]⟩
    · rintro ⟨rfl, h⟩
      exact ⟨s, [], by rw [List.append_nil], h, by simp [Regexp.sequence]⟩
  induction tss with
  | nil => exact absurd rfl hne
  | cons ts tss ih =>
    cases tss with
    | nil => simpa [alternatives] using hone ts
    | cons us tss =>
      have hrest : s' ∈ Regexp.ends text (alternatives (us :: tss)) s ↔
          s' = [] ∧ ∃ ts ∈ us :: tss, matchesAll ts s = true := ih (List.cons_ne_nil us tss)
      have hsplit : (∃ vs ∈ ts :: us :: tss, matchesAll vs s = true) ↔
          matchesAll ts s = true ∨ ∃ vs ∈ us :: tss, matchesAll vs s = true :=
        List.exists_mem_cons_iff _ ts (us :: tss)
      change s' ∈ Regexp.ends text (.alt _ (alternatives (us :: tss))) s ↔ _
      rw [Regexp.mem_ends_alt, hone, hrest, ← and_or_left, hsplit]

theorem parse_alternatives {tss : List (List Token)} {g : Regexp.Frame} (hne : tss ≠ [])
    (hitems : f.items = []) (rest : List Char) :
    Regexp.parse lookaround (alternativesText tss ++ ')' :: rest) f (g :: fs) =
      Regexp.parse lookaround rest (g.push
        (f.group.close (f.alts.foldr Regexp.alt (alternatives tss))) (f.group matches .plain)) fs := by
  induction tss generalizing f with
  | nil => exact absurd rfl hne
  | cons ts tss ih =>
    obtain ⟨hfold, halts, hgroup⟩ := @items_foldl ts f
    rw [hitems, List.nil_append] at hfold
    cases tss with
    | nil =>
      have htext : alternativesText [ts] ++ ')' :: rest =
          ts.flatMap Token.text ++ '$' :: ')' :: rest := by
        simp [alternativesText, List.intercalate]
      rw [htext, parse_text]
      simp only [Regexp.parse, Regexp.Frame.body, Regexp.Frame.push, hfold, halts, hgroup]
      rfl
    | cons us tss =>
      have htext : alternativesText (ts :: us :: tss) ++ ')' :: rest =
          ts.flatMap Token.text ++ '$' :: '|' :: (alternativesText (us :: tss) ++ ')' :: rest) := by
        simp [alternativesText, List.intercalate]
      rw [htext, parse_text]
      simp only [Regexp.parse]
      rw [ih (List.cons_ne_nil us tss) rfl]
      simp only [Regexp.Frame.next, Regexp.Frame.push, hfold, halts, hgroup, List.foldr_append]
      rfl

theorem parse_paren (h : cs.head? ≠ some '?') :
    Regexp.parse lookaround ('(' :: cs) f fs =
      Regexp.parse lookaround cs (.new .plain) (f :: fs) := by
  rw [Regexp.parse] <;> intros <;> subst_vars <;> exact h rfl

theorem head_alternativesText {tss : List (List Token)} (hne : tss ≠ []) (rest : List Char) :
    (alternativesText tss ++ rest).head? ≠ some '?' := by
  have hone : ∀ (ts : List Token) (more : List Char),
      (ts.flatMap Token.text ++ '$' :: more).head? ≠ some '?' := by
    intro ts more
    rcases ts with _ | ⟨token, ts⟩
    · simp
    · rw [List.flatMap_cons]
      cases token with
      | lit c =>
        by_cases hc : c ∈ Regexp.metachars
        · simp [Token.text, hc]
        · have hne : c ≠ '?' := fun heq => hc (heq ▸ by decide)
          simpa [Token.text, hc] using hne
      | one => simp [Token.text]
      | many => simp [Token.text]
  rcases tss with _ | ⟨ts, _ | ⟨us, tss⟩⟩
  · exact absurd rfl hne
  · simpa [alternativesText, List.intercalate] using hone ts rest
  · have htext : alternativesText (ts :: us :: tss) ++ rest =
        ts.flatMap Token.text ++ '$' :: '|' :: (alternativesText (us :: tss) ++ rest) := by
      simp [alternativesText, List.intercalate]
    rw [htext]
    exact hone ts _

/-- What is in a group that looks ahead for one of several globs. -/
def nested (tss : List (List Token)) : Regexp :=
  Regexp.sequence [Regexp.sequence [alternatives tss]]

theorem parse_nested {tss : List (List Token)} {group : Regexp.Group} (hne : tss ≠ [])
    (rest : List Char) :
    Regexp.parse lookaround ("(?:(".toList ++ (alternativesText tss ++ (")))".toList ++ rest)))
        (.new group) (f :: fs) =
      Regexp.parse lookaround rest (f.push (group.close (nested tss)) (group matches .plain)) fs := by
  change Regexp.parse lookaround ('(' :: '?' :: ':' :: '(' ::
    (alternativesText tss ++ ')' :: ')' :: ')' :: rest)) _ _ = _
  rw [Regexp.parse, parse_paren (head_alternativesText hne _), parse_alternatives hne rfl]
  rfl

theorem mem_ends_nested {tss : List (List Token)} (hne : tss ≠ []) (hs : '\n' ∉ s) :
    (∃ m, m ∈ Regexp.ends text (nested tss) s) ↔ ∃ ts ∈ tss, matchesAll ts s = true := by
  simp only [nested, Regexp.sequence, List.foldr_cons, List.foldr_nil, Regexp.mem_ends_seq,
    Regexp.mem_ends_empty]
  constructor
  · rintro ⟨m, m', ⟨m'', hm, -⟩, -⟩
    exact ((mem_ends_alternatives hne hs).mp hm).2
  · intro h
    exact ⟨[], [], ⟨[], (mem_ends_alternatives hne hs).mpr ⟨rfl, h⟩, rfl⟩, rfl⟩

end Matching

end Glob
