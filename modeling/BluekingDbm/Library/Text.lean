import Mathlib.Data.List.Infix
import Mathlib.Data.Int.Basic

/-! White space and blank text. -/
namespace Text

/-- `unicode.IsSpace`. -/
def isSpace (c : Char) : Bool :=
  c.toNat ∈ [0x09, 0x0A, 0x0B, 0x0C, 0x0D, 0x20, 0x85, 0xA0, 0x1680, 0x2028, 0x2029, 0x202F, 0x205F,
    0x3000] || (0x2000 ≤ c.toNat && c.toNat ≤ 0x200A)

/-- `strings.TrimSpace`. -/
def trimSpace (s : String) : String :=
  String.ofList (((s.toList.dropWhile isSpace).reverse.dropWhile isSpace).reverse)

/-- Nothing but white space. -/
def isEmpty (s : String) : Bool := trimSpace s = ""

/-- `strings.Split` at one character. -/
def split (s : String) (sep : Char) : List String := (s.toList.splitOn sep).map String.ofList

/-- `strings.SplitN` in two: what stands before the first separator, and the rest if there is one. -/
def splitN2 (s : String) (sep : Char) : List String :=
  match s.toList.dropWhile (· ≠ sep) with
  | [] => [s]
  | _ :: rest => [String.ofList (s.toList.takeWhile (· ≠ sep)), String.ofList rest]

def cutChars (sep : List Char) : List Char → Option (List Char × List Char)
  | [] => if sep = [] then some ([], []) else none
  | c :: cs =>
    if sep <+: c :: cs then some ([], (c :: cs).drop sep.length)
    else (cutChars sep cs).map fun p => (c :: p.1, p.2)

/-- The text before and after the first separator, if there is one. -/
def cut (s sep : String) : Option (String × String) :=
  (cutChars sep.toList s.toList).map fun p => (String.ofList p.1, String.ofList p.2)

/-- `strings.Fields`: the words between white space. -/
def fields (s : String) : List String :=
  ((s.toList.splitOnP isSpace).filter (· ≠ [])).map String.ofList

/-- Each line with its end. -/
def unlines (lines : List String) : String := String.join (lines.map fun line => line ++ "\n")

/-- `strings.Contains`. -/
def contains (s sub : String) : Bool := decide (sub.toList <:+: s.toList)

/-- `%d`. -/
def decimal (n : ℤ) : String := n.repr

section Separators

variable {α : Type*} {c : α} {xs xs' ys ys' : List α}

/-- What stands before the first separator can be read back. -/
theorem cut_front (hx : c ∉ xs) (hx' : c ∉ xs') (h : xs ++ c :: ys = xs' ++ c :: ys') :
    xs = xs' ∧ ys = ys' := by
  induction xs generalizing xs' with
  | nil =>
    cases xs' with
    | nil => exact ⟨rfl, (List.cons.inj h).2⟩
    | cons x' xs' =>
      obtain ⟨rfl, -⟩ := List.cons.inj h
      exact absurd List.mem_cons_self hx'
  | cons x xs ih =>
    cases xs' with
    | nil =>
      obtain ⟨rfl, -⟩ := List.cons.inj h
      exact absurd List.mem_cons_self hx
    | cons x' xs' =>
      obtain ⟨rfl, htail⟩ := List.cons.inj h
      obtain ⟨rfl, rfl⟩ := ih (fun hc => hx (List.mem_cons_of_mem _ hc))
        (fun hc => hx' (List.mem_cons_of_mem _ hc)) htail
      exact ⟨rfl, rfl⟩

/-- What stands behind the last separator can be read back. -/
theorem cut_back (hy : c ∉ ys) (hy' : c ∉ ys') (h : xs ++ c :: ys = xs' ++ c :: ys') :
    xs = xs' ∧ ys = ys' := by
  have hrev : ys.reverse ++ c :: xs.reverse = ys'.reverse ++ c :: xs'.reverse := by
    simpa using congrArg List.reverse h
  obtain ⟨hys, hxs⟩ := cut_front (by simpa using hy) (by simpa using hy') hrev
  exact ⟨List.reverse_injective hxs, List.reverse_injective hys⟩

end Separators

section Pieces

variable {s : String} {c : Char} {items : List String}

theorem mem_split_no_sep {part : String} (h : part ∈ split s c) : c ∉ part.toList := by
  obtain ⟨cs, hcs, rfl⟩ := List.mem_map.mp h
  rw [String.toList_ofList]
  have hall : ∀ xs : List Char, ∀ ys ∈ xs.splitOn c, c ∉ ys := by
    intro xs
    induction xs with
    | nil => simp
    | cons x xs ih =>
      intro ys hys
      rw [List.splitOn_cons_eq_if_modifyHead] at hys
      by_cases hx : x = c
      · rw [if_pos (beq_iff_eq.mpr hx)] at hys
        rcases List.mem_cons.mp hys with rfl | hys
        · simp
        · exact ih ys hys
      · rw [if_neg (by simpa using hx)] at hys
        cases hsplit : xs.splitOn c with
        | nil => exact absurd hsplit (List.splitOn_ne_nil c xs)
        | cons first rest =>
          rw [hsplit] at hys ih
          rcases List.mem_cons.mp hys with rfl | hys
          · simpa [Ne.symm hx] using ih first List.mem_cons_self
          · exact ih ys (List.mem_cons_of_mem _ hys)
  exact hall _ cs hcs

/-- A character of a text is the separator or stands in one of the pieces. -/
theorem mem_of_split {x : Char} (h : x ∈ s.toList) : x = c ∨ ∃ part ∈ split s c, x ∈ part.toList := by
  by_contra hnot
  obtain ⟨hne, hparts⟩ := not_or.mp hnot
  have hjoin : [c].intercalate (s.toList.splitOn c) = s.toList := List.intercalate_splitOn c
  rw [← hjoin] at h
  have hmem : ∀ parts : List (List Char), x ∈ [c].intercalate parts →
      x = c ∨ ∃ part ∈ parts, x ∈ part := by
    intro parts
    induction parts with
    | nil => simp
    | cons part parts ih =>
      cases parts with
      | nil =>
        intro hx
        exact Or.inr ⟨part, List.mem_cons_self, by simpa using hx⟩
      | cons part' parts =>
        intro hx
        rw [List.intercalate_cons_cons] at hx
        rcases List.mem_append.mp hx with hx | hx
        · rcases List.mem_append.mp hx with hx | hx
          · exact Or.inr ⟨part, List.mem_cons_self, hx⟩
          · exact Or.inl (List.mem_singleton.mp hx)
        · rcases ih hx with hx | ⟨q, hq, hx⟩
          · exact Or.inl hx
          · exact Or.inr ⟨q, List.mem_cons_of_mem _ hq, hx⟩
  rcases hmem _ h with hx | ⟨part, hpart, hx⟩
  · exact hne hx
  · exact hparts ⟨String.ofList part, List.mem_map_of_mem hpart, by simpa using hx⟩

/-- A text that splitting leaves in one piece is that piece. -/
theorem eq_of_mem_split {part : String} (hlen : ¬ 1 < (split s c).length) (h : part ∈ split s c) :
    part = s := by
  have hjoin : [c].intercalate (s.toList.splitOn c) = s.toList := List.intercalate_splitOn c
  unfold split at hlen h
  cases hparts : s.toList.splitOn c with
  | nil => exact absurd hparts (List.splitOn_ne_nil c _)
  | cons cs rest =>
    rw [hparts] at hlen h hjoin
    cases rest with
    | nil =>
      obtain rfl := List.mem_singleton.mp h
      have hcs : cs = s.toList := by simpa using hjoin
      rw [hcs, String.ofList_toList]
    | cons cs' rest => simp at hlen

/-- The pieces of a text join up to it. -/
theorem intercalate_split {sep : String} (hsep : sep.toList = [c]) :
    sep.intercalate (split s c) = s := by
  apply String.toList_inj.mp
  have hjoin : [c].intercalate (s.toList.splitOn c) = s.toList := List.intercalate_splitOn c
  rw [String.toList_intercalate, hsep, split, List.map_map]
  simpa [Function.comp_def] using hjoin

/-- Joined items are read back by splitting. -/
theorem split_intercalate {sep : String} (hsep : sep.toList = [c]) (hne : items ≠ [])
    (h : ∀ item ∈ items, c ∉ item.toList) : split (sep.intercalate items) c = items := by
  have hlists : (sep.intercalate items).toList.splitOn c = items.map String.toList := by
    rw [String.toList_intercalate, hsep]
    apply List.splitOn_intercalate
    · intro cs hcs
      obtain ⟨item, hitem, rfl⟩ := List.mem_map.mp hcs
      exact h item hitem
    · simpa using hne
  rw [split, hlists, List.map_map]
  simp [Function.comp_def]

theorem cutChars_eq_some {sep cs before after : List Char}
    (h : cutChars sep cs = some (before, after)) : before ++ (sep ++ after) = cs := by
  induction cs generalizing before with
  | nil =>
    simp only [cutChars] at h
    split at h
    · rename_i hsep
      cases h
      simp [hsep]
    · cases h
  | cons c cs ih =>
    simp only [cutChars] at h
    split at h
    · rename_i hsep
      cases h
      obtain ⟨after, hafter⟩ := hsep
      rw [← hafter]
      simp
    · obtain ⟨p, hp, hpair⟩ := Option.map_eq_some_iff.mp h
      cases hpair
      rw [List.cons_append, ih hp]

theorem cutChars_single {c : Char} {before after : List Char} (h : c ∉ before) :
    cutChars [c] (before ++ c :: after) = some (before, after) := by
  induction before with
  | nil => simp [cutChars]
  | cons x before ih =>
    obtain ⟨hx, hbefore⟩ : c ≠ x ∧ c ∉ before := by simpa using h
    rw [List.cons_append, cutChars, ih hbefore, if_neg]
    · rfl
    · rintro ⟨rest, hrest⟩
      exact hx (List.cons.inj hrest).1

theorem cutChars_append {sep before after : List Char} :
    cutChars sep (before ++ (sep ++ after)) ≠ none := by
  induction before with
  | nil =>
    rw [List.nil_append]
    cases hcs : sep ++ after with
    | nil => simp [cutChars, (List.append_eq_nil_iff.mp hcs).1]
    | cons c cs =>
      rw [cutChars, if_pos ⟨after, hcs⟩]
      simp
  | cons c before ih =>
    rw [List.cons_append, cutChars]
    split
    · simp
    · simpa using ih

theorem cut_eq_some {s sep before after : String} (h : cut s sep = some (before, after)) :
    before ++ sep ++ after = s := by
  obtain ⟨p, hp, hpair⟩ := Option.map_eq_some_iff.mp h
  cases hpair
  have hchars := cutChars_eq_some hp
  apply String.toList_injective
  simpa using hchars

theorem cut_append (before sep after : String) : cut (before ++ sep ++ after) sep ≠ none := by
  unfold cut
  simp only [String.toList_append, List.append_assoc]
  simpa using cutChars_append

/-- Nothing is trimmed off a text that does not begin or end with white space. -/
theorem trimSpace_ends (hfirst : ∀ x ∈ s.toList.head?, isSpace x = false)
    (hlast : ∀ x ∈ s.toList.getLast?, isSpace x = false) : trimSpace s = s := by
  have hdrop : ∀ cs : List Char, (∀ x ∈ cs.head?, isSpace x = false) →
      cs.dropWhile isSpace = cs := by
    intro cs hcs
    cases cs with
    | nil => rfl
    | cons c cs => simp [hcs c rfl]
  rw [trimSpace, hdrop _ hfirst, hdrop _ (by simpa using hlast), List.reverse_reverse,
    String.ofList_toList]

theorem trimSpace_eq (h : ∀ x ∈ s.toList, isSpace x = false) : trimSpace s = s :=
  trimSpace_ends (fun x hx => h x (List.mem_of_head? hx))
    fun x hx => h x (List.mem_of_getLast? hx)

theorem splitN2_eq_self (h : c ∉ s.toList) : splitN2 s c = [s] := by
  have hdrop : s.toList.dropWhile (· ≠ c) = [] := by
    have hpass : ∀ x ∈ s.toList, decide (x ≠ c) = true := by
      intro x hx
      have hne : x ≠ c := fun hxc => h (hxc ▸ hx)
      simpa using hne
    simpa using @List.dropWhile_append_of_pos _ _ s.toList [] hpass
  rw [splitN2, hdrop]

theorem splitN2_append {a b : String} {sep : String} (hsep : sep.toList = [c])
    (h : c ∉ a.toList) : splitN2 (a ++ sep ++ b) c = [a, b] := by
  have hpass : ∀ x ∈ a.toList, decide (x ≠ c) = true := by
    intro x hx
    have hne : x ≠ c := fun hxc => h (hxc ▸ hx)
    simpa using hne
  have hlist : (a ++ sep ++ b).toList = a.toList ++ c :: b.toList := by simp [hsep]
  rw [splitN2, hlist, List.dropWhile_append_of_pos hpass, List.takeWhile_append_of_pos hpass]
  simp

/-- A word: something, and no white space in it. -/
def IsWord (s : String) : Prop := s ≠ "" ∧ ∀ x ∈ s.toList, isSpace x = false

theorem isWord_of_all (hne : s ≠ "") (h : s.toList.all (fun x => !isSpace x) = true) : IsWord s := by
  refine ⟨hne, ?_⟩
  intro x hx
  simpa using List.all_eq_true.mp h x hx

theorem newline_notMem (h : ∀ x ∈ s.toList, isSpace x = false) : '\n' ∉ s.toList := by
  intro hmem
  exact absurd (h _ hmem) (by decide)

theorem fields_word (h : IsWord s) : fields s = [s] := by
  have hne : s.toList ≠ [] := by simpa using h.1
  rw [fields, List.splitOnP_eq_singleton h.2]
  simp [hne]

theorem fields_append {rest : String} (h : IsWord s) :
    fields (s ++ " " ++ rest) = s :: fields rest := by
  have hne : s.toList ≠ [] := by simpa using h.1
  have hlist : (s ++ " " ++ rest).toList = s.toList ++ ' ' :: rest.toList := by simp
  rw [fields, hlist, List.splitOnP_append_cons_of_forall_mem h.2 ' ' (by decide)]
  simp [fields, hne]

theorem unlines_cons (line : String) (lines : List String) :
    unlines (line :: lines) = line ++ "\n" ++ unlines lines := by
  simp [unlines]

theorem toList_unlines (lines : List String) :
    (unlines lines).toList = lines.flatMap fun line => line.toList ++ ['\n'] := by
  induction lines with
  | nil => rfl
  | cons line lines ih =>
    rw [List.flatMap_cons, ← ih]
    simp [unlines]

/-- Lines are read back by splitting; nothing follows the end of the last one. -/
theorem split_unlines {lines : List String} (h : ∀ line ∈ lines, '\n' ∉ line.toList) :
    split (unlines lines) '\n' = lines ++ [""] := by
  have hsplit : (unlines lines).toList.splitOn '\n' = lines.map String.toList ++ [[]] := by
    rw [toList_unlines]
    induction lines with
    | nil => rfl
    | cons line lines ih =>
      obtain ⟨hline, hlines⟩ := List.forall_mem_cons.mp h
      rw [List.flatMap_cons, List.append_assoc, List.singleton_append,
        List.splitOn_append_cons_self_of_not_mem hline, ih hlines]
      rfl
  rw [split, hsplit, List.map_append, List.map_map]
  simp [Function.comp_def]

theorem unlines_injective {lines lines' : List String} (h : ∀ line ∈ lines, '\n' ∉ line.toList)
    (h' : ∀ line ∈ lines', '\n' ∉ line.toList) (heq : unlines lines = unlines lines') :
    lines = lines' := by
  have hsplit := congrArg (fun s => split s '\n') heq
  simp only [split_unlines h, split_unlines h'] at hsplit
  exact List.append_cancel_right hsplit

end Pieces

/-- Decimal digits are all there is in a rendered number. -/
theorem repr_isDigit {n : ℕ} {c : Char} (h : c ∈ n.repr.toList) : c.isDigit = true := by
  rw [Nat.toList_repr] at h
  exact Nat.isDigit_of_mem_toDigits (by decide) (by decide) h

theorem isSpace_of_isDigit {c : Char} (h : c.isDigit = true) : isSpace c = false := by
  have hrange : 48 ≤ c.toNat ∧ c.toNat ≤ 57 := by
    simpa [Char.isDigit, Char.le_def, UInt32.le_iff_toNat_le] using h
  obtain ⟨hlow, hhigh⟩ := hrange
  simp only [isSpace, Bool.or_eq_false_iff, decide_eq_false_iff_not, Bool.and_eq_false_iff,
    List.mem_cons, List.not_mem_nil, or_false]
  omega

theorem repr_no_colon (n : ℕ) : ':' ∉ n.repr.toList := by
  rw [Nat.toList_repr]
  intro h
  have hdigit := Nat.isDigit_of_mem_toDigits (by decide) (by decide) h
  exact absurd hdigit (by decide)

theorem repr_no_sign (n : ℕ) : '-' ∉ n.repr.toList := by
  rw [Nat.toList_repr]
  intro h
  have hdigit := Nat.isDigit_of_mem_toDigits (by decide) (by decide) h
  exact absurd hdigit (by decide)

theorem repr_ne_nil (n : ℕ) : n.repr.toList ≠ [] := by
  rw [Nat.toList_repr]
  exact Nat.toDigits_ne_nil

theorem repr_injective {m n : ℕ} (h : m.repr = n.repr) : m = n := by
  have hlist := congrArg (fun s => Nat.ofDigitChars 10 s.toList 0) h
  simpa only [Nat.toList_repr, Nat.ofDigitChars_ten_toDigits] using hlist

theorem decimal_negSucc (n : ℕ) : decimal (Int.negSucc n) = "-" ++ (n + 1).repr := rfl

/-- Digits are all there is in a rendered number, and a sign. -/
theorem mem_decimal {n : ℤ} {c : Char} (h : c ∈ (decimal n).toList) : c.isDigit = true ∨ c = '-' := by
  cases n with
  | ofNat n => exact Or.inl (repr_isDigit h)
  | negSucc n =>
    rw [decimal_negSucc, String.toList_append] at h
    rcases List.mem_append.mp h with h | h
    · exact Or.inr (List.mem_singleton.mp h)
    · exact Or.inl (repr_isDigit h)

theorem decimal_ne_nil (n : ℤ) : (decimal n).toList ≠ [] := by
  cases n with
  | ofNat n => exact repr_ne_nil n
  | negSucc n =>
    rw [decimal_negSucc, String.toList_append]
    exact List.cons_ne_nil _ _

theorem decimal_word (n : ℤ) : IsWord (decimal n) := by
  constructor
  · intro h
    exact decimal_ne_nil n (congrArg String.toList h)
  · intro c hc
    rcases mem_decimal hc with hdigit | rfl
    · exact isSpace_of_isDigit hdigit
    · decide

theorem decimal_no_colon (n : ℤ) : ':' ∉ (decimal n).toList := by
  cases n with
  | ofNat n => exact repr_no_colon n
  | negSucc n =>
    rw [decimal_negSucc, String.toList_append]
    intro h
    rcases List.mem_append.mp h with h | h
    · exact absurd h (by decide)
    · exact repr_no_colon _ h

theorem decimal_injective {m n : ℤ} (h : decimal m = decimal n) : m = n := by
  have hsign : ∀ k l : ℕ, "-" ++ (k + 1).repr ≠ l.repr := by
    intro k l hkl
    refine repr_no_sign l ?_
    rw [← hkl, String.toList_append]
    exact List.mem_append_left _ (by decide)
  cases m with
  | ofNat m =>
    cases n with
    | ofNat n => exact congrArg Int.ofNat (repr_injective h)
    | negSucc n => exact absurd h.symm (hsign n m)
  | negSucc m =>
    cases n with
    | ofNat n => exact absurd h (hsign m n)
    | negSucc n =>
      have hlist : (m + 1).repr.toList = (n + 1).repr.toList := by
        have happ := congrArg String.toList h
        rw [decimal_negSucc, decimal_negSucc, String.toList_append, String.toList_append] at happ
        exact List.append_cancel_left happ
      have := repr_injective (String.toList_injective hlist)
      rw [Nat.succ.inj this]

end Text
