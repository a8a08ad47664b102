import BluekingDbm.Myredis.Slots

/-! What a slot text may say, and what the decoder makes of texts that say something else. -/
namespace Myredis

open Numeral Text

/-- Decimal digits whose value is a slot. -/
def IsSlot (s : String) (n : ℕ) : Prop := digits s.toList = some n ∧ (n : ℤ) ≤ defaultMaxSlots

/-- A slot, a range of slots or the item of a slot on the move. -/
inductive WellFormed : String → Prop
  | slot {a : String} {m : ℕ} (ha : IsSlot a m) : WellFormed a
  | range {a b : String} {m n : ℕ} (ha : IsSlot a m) (hb : IsSlot b n) (hle : m ≤ n) :
      WellFormed (a ++ "-" ++ b)
  | moving {a mark node : String} {m : ℕ} (ha : IsSlot a m) (hmark : mark = "<" ∨ mark = ">")
      (hnode : '-' ∉ node.toList) :
      WellFormed ("[" ++ a ++ "-" ++ mark ++ "-" ++ (node ++ "]"))

/-- The slots that an item names. -/
inductive Names : String → ℤ → Prop
  | slot {a : String} {m : ℕ} (ha : IsSlot a m) : Names a m
  | range {a b : String} {m n : ℕ} {slot : ℤ} (ha : IsSlot a m) (hb : IsSlot b n)
      (hm : (m : ℤ) ≤ slot) (hn : slot ≤ n) : Names (a ++ "-" ++ b) slot
  | moving {a mark node : String} {m : ℕ} (ha : IsSlot a m) :
      Names ("[" ++ a ++ "-" ++ mark ++ "-" ++ (node ++ "]")) m

/-- The pieces of an item that the decoder refuses: a value outside the slots, or two dashes without a
number before them or a mark between them. -/
inductive Refused : List String → Prop
  | number {a : String} (h : inRange (atoiValue a) = false) : Refused [a]
  | first {a b : String} (h : inRange (atoiValue a) = false) : Refused [a, b]
  | last {a b : String} (h : inRange (atoiValue b) = false) : Refused [a, b]
  | noNumber {a mark node : String} (h : atoi (trimPrefix a '[') = none) : Refused [a, mark, node]
  | noMark {a mark node : String} (h : mark ≠ "<") (h' : mark ≠ ">") : Refused [a, mark, node]

/-- The pieces of an item that the decoder takes for something that they do not say: a text that is read
as 0 or has a sign, a range with such an end or from above to below, two dashes without the brackets or
without a slot, and more dashes. -/
inductive Misread : List String → Prop
  | number {a : String} (hvalue : inRange (atoiValue a) = true) (h : ∀ m, ¬ IsSlot a m) : Misread [a]
  | range {a b : String} (ha : inRange (atoiValue a) = true) (hb : inRange (atoiValue b) = true)
      (h : ∀ m n, IsSlot a m → IsSlot b n → n < m) : Misread [a, b]
  | moving {a mark node : String} {slot : ℤ} (ha : atoi (trimPrefix a '[') = some slot)
      (hmark : mark = "<" ∨ mark = ">")
      (h : ∀ x m, a = "[" ++ x → IsSlot x m → node.toList.getLast? ≠ some ']') :
      Misread [a, mark, node]
  | dashes {pieces : List String} (h : 3 < pieces.length) : Misread pieces

section Items

variable {a b item mark node slotStr : String} {m n : ℕ} {slot : ℤ} {d : Decoded}
  {items : List String}

theorem IsSlot.digit (h : IsSlot a m) : a ≠ "" ∧ ∀ c ∈ a.toList, c.isDigit = true := by
  obtain ⟨hdigits, -⟩ := h
  unfold digits at hdigits
  split at hdigits
  case isTrue hall =>
    refine ⟨?_, List.all_eq_true.mp hall.2⟩
    rintro rfl
    exact hall.1 rfl
  case isFalse => cases hdigits

theorem IsSlot.no_dash (h : IsSlot a m) : '-' ∉ a.toList :=
  fun hmem => absurd (h.digit.2 '-' hmem) (by decide)

theorem IsSlot.atoi (h : IsSlot a m) : atoi a = some (m : ℤ) := by
  obtain ⟨hne, hdigit⟩ := h.digit
  obtain ⟨hdigits, hmax⟩ := h
  have hvalue : Nat.ofDigitChars 10 a.toList 0 = m := by
    unfold digits at hdigits
    split at hdigits
    · exact Option.some.inj hdigits
    · cases hdigits
  unfold defaultMaxSlots at hmax
  rw [atoi_digits hne hdigit, hvalue, if_pos (by omega)]

theorem IsSlot.value (h : IsSlot a m) : atoiValue a = m := atoiValue_of_atoi h.atoi

theorem IsSlot.inRange (h : IsSlot a m) : inRange (atoiValue a) = true := by
  rw [h.value]
  exact decide_eq_true ⟨Int.natCast_nonneg m, h.2⟩

/-- What the pieces of a well-formed item are. -/
theorem WellFormed.pieces (h : WellFormed item) :
    (∃ m, split item '-' = [item] ∧ IsSlot item m) ∨
      (∃ a b m n, split item '-' = [a, b] ∧ IsSlot a m ∧ IsSlot b n ∧ m ≤ n) ∨
      ∃ a mark node m, split item '-' = ["[" ++ a, mark, node ++ "]"] ∧ IsSlot a m ∧
        (mark = "<" ∨ mark = ">") := by
  cases h with
  | slot ha => exact Or.inl ⟨_, split_one ha.no_dash, ha⟩
  | range ha hb hle =>
    exact Or.inr (Or.inl ⟨_, _, _, _, split_pair rfl ha.no_dash hb.no_dash, ha, hb, hle⟩)
  | @moving a mark node m ha hmark hnode =>
    have hfirst : '-' ∉ ("[" ++ a).toList := by simpa using ha.no_dash
    have hsecond : '-' ∉ mark.toList := by
      rcases hmark with rfl | rfl
      · decide
      · decide
    have hthird : '-' ∉ (node ++ "]").toList := by simpa using hnode
    exact Or.inr (Or.inr ⟨a, mark, node, m, split_three hfirst hsecond hthird, ha, hmark⟩)

theorem trimPrefix_append (a : String) : trimPrefix ("[" ++ a) '[' = a := by
  have hlist : ("[" ++ a).toList = '[' :: a.toList := by simp
  rw [trimPrefix, hlist]
  simp

theorem WellFormed.not_misread (h : WellFormed item) : ¬ Misread (split item '-') := by
  rcases h.pieces with ⟨m, hsplit, ha⟩ | ⟨a, b, m, n, hsplit, ha, hb, hle⟩ |
    ⟨a, mark, node, m, hsplit, ha, hmark⟩
  · rw [hsplit]
    intro hmisread
    cases hmisread with
    | number _ hnone => exact hnone m ha
    | dashes hlen => simp at hlen
  · rw [hsplit]
    intro hmisread
    cases hmisread with
    | range _ _ hdown => exact absurd (hdown m n ha hb) (not_lt.mpr hle)
    | dashes hlen => simp at hlen
  · rw [hsplit]
    intro hmisread
    cases hmisread with
    | moving _ _ hopen => exact hopen a m rfl ha (by simp)
    | dashes hlen => simp at hlen

theorem wellFormed_single (hrefused : ¬ Refused [a]) (hmisread : ¬ Misread [a]) : WellFormed a := by
  have hvalue : inRange (atoiValue a) = true := by
    by_contra hout
    exact hrefused (.number (Bool.eq_false_iff.mpr hout))
  by_contra hnot
  exact hmisread (.number hvalue fun m ha => hnot (.slot ha))

theorem wellFormed_pair (hrefused : ¬ Refused [a, b]) (hmisread : ¬ Misread [a, b]) :
    WellFormed (a ++ "-" ++ b) := by
  have ha : inRange (atoiValue a) = true := by
    by_contra hout
    exact hrefused (.first (Bool.eq_false_iff.mpr hout))
  have hb : inRange (atoiValue b) = true := by
    by_contra hout
    exact hrefused (.last (Bool.eq_false_iff.mpr hout))
  by_contra hnot
  refine hmisread (.range ha hb fun m n hm hn => ?_)
  by_contra hle
  exact hnot (.range hm hn (not_lt.mp hle))

theorem wellFormed_moving {mark node : String} (hnode : '-' ∉ node.toList)
    (hrefused : ¬ Refused [a, mark, node]) (hmisread : ¬ Misread [a, mark, node]) :
    WellFormed (a ++ "-" ++ mark ++ "-" ++ node) := by
  have hmark : mark = "<" ∨ mark = ">" := by
    by_contra hnot
    obtain ⟨hless, hgreater⟩ := not_or.mp hnot
    exact hrefused (.noMark hless hgreater)
  obtain ⟨slot, hslot⟩ : ∃ slot, atoi (trimPrefix a '[') = some slot := by
    cases hnumber : atoi (trimPrefix a '[') with
    | none => exact absurd (.noNumber hnumber) hrefused
    | some slot => exact ⟨slot, rfl⟩
  by_contra hnot
  refine hmisread (.moving hslot hmark fun x m hopen hx hclose => ?_)
  obtain ⟨cs, hcs⟩ := List.getLast?_eq_some_iff.mp hclose
  have hend : node = String.ofList cs ++ "]" := by
    apply String.toList_injective
    rw [hcs, String.toList_append, String.toList_ofList]
    rfl
  have hdash : '-' ∉ (String.ofList cs).toList := by
    intro hmem
    apply hnode
    rw [hend, String.toList_append]
    exact List.mem_append_left _ hmem
  rw [hopen, hend] at hnot
  exact hnot (.moving hx hmark hdash)

/-- An item that is neither refused nor misread is well formed. -/
theorem wellFormed_of_not (hrefused : ¬ Refused (split item '-'))
    (hmisread : ¬ Misread (split item '-')) : WellFormed item := by
  have hitem := intercalate_split item
  have hparts : ∀ part ∈ split item '-', '-' ∉ part.toList := fun part => mem_split_no_sep
  have hsome : split item '-' ≠ [] := by simp [split]
  generalize split item '-' = pieces at hitem hparts hsome hrefused hmisread
  rcases pieces with _ | ⟨a, _ | ⟨b, _ | ⟨c, _ | ⟨d, rest⟩⟩⟩⟩
  · exact absurd rfl hsome
  · obtain rfl : a = item := hitem
    exact wellFormed_single hrefused hmisread
  · obtain rfl : a ++ "-" ++ b = item := hitem
    exact wellFormed_pair hrefused hmisread
  · obtain rfl : a ++ "-" ++ b ++ "-" ++ c = item := hitem
    exact wellFormed_moving (hparts c (by simp)) hrefused hmisread
  · exact absurd (Misread.dashes (by simp)) hmisread

theorem separator_eq (mark mark' : String) :
    slotSeparator ++ mark ++ slotSeparator = slotSeparator ++ mark' ++ slotSeparator ↔
      mark = mark' := by
  constructor
  · intro h
    have hlist := congrArg String.toList h
    simp only [String.toList_append, List.append_assoc] at hlist
    exact String.toList_injective (List.append_cancel_right (List.append_cancel_left hlist))
  · rintro rfl
    rfl

theorem separator_importing (mark : String) :
    slotSeparator ++ mark ++ slotSeparator = importingSeparator ↔ mark = "<" :=
  separator_eq mark "<"

theorem separator_migrating (mark : String) :
    slotSeparator ++ mark ++ slotSeparator = migratingSeparator ↔ mark = ">" :=
  separator_eq mark ">"

/-- An item is read without an error unless it is refused. -/
theorem readItem_err (hd : d.err = none) :
    (readItem slotStr item d).err.isSome = true ↔ Refused (split item '-') := by
  have hok : d.err.isSome = true ↔ False := by simp [hd]
  unfold readItem
  match split item '-' with
  | [] => exact hok.trans (iff_of_false id nofun)
  | [a] =>
    dsimp only
    split
    case isTrue hvalue =>
      refine hok.trans (iff_of_false id ?_)
      rintro ⟨hout⟩
      rw [hvalue] at hout
      cases hout
    case isFalse hvalue => exact iff_of_true rfl (.number (Bool.eq_false_iff.mpr hvalue))
  | [a, b] =>
    dsimp only
    split
    case isTrue ha => exact iff_of_true rfl (.first (by simpa using ha))
    case isFalse ha =>
      split
      case isTrue hb => exact iff_of_true rfl (.last (by simpa using hb))
      case isFalse hb =>
        refine hok.trans (iff_of_false id ?_)
        intro hrefused
        cases hrefused with
        | first hout => simp [hout] at ha
        | last hout => simp [hout] at hb
  | [a, mark, node] =>
    dsimp only
    cases hnumber : atoi (trimPrefix a '[') with
    | none => exact iff_of_true rfl (.noNumber hnumber)
    | some slot =>
      dsimp only
      by_cases hl : mark = "<"
      · rw [if_pos ((separator_importing mark).mpr hl)]
        refine hok.trans (iff_of_false id ?_)
        intro hrefused
        cases hrefused with
        | noNumber hnone => simp [hnumber] at hnone
        | noMark h _ => exact h hl
      · rw [if_neg (fun h => hl ((separator_importing mark).mp h))]
        by_cases hg : mark = ">"
        · rw [if_pos ((separator_migrating mark).mpr hg)]
          refine hok.trans (iff_of_false id ?_)
          intro hrefused
          cases hrefused with
          | noNumber hnone => simp [hnumber] at hnone
          | noMark _ h => exact h hg
        · rw [if_neg (fun h => hg ((separator_migrating mark).mp h))]
          exact iff_of_true rfl (.noMark hl hg)
  | a :: b :: c :: e :: rest => exact hok.trans (iff_of_false id nofun)

/-- The slots that are returned, those on the move with them. -/
def Decoded.Returns (d : Decoded) (slot : ℤ) : Prop :=
  slot ∈ d.slots ∨ slot ∈ d.migratingSlots ∨ slot ∈ d.importingSlots

theorem Decoded.returns_addSlots {l : List ℤ} (h : (d.addSlots l).Returns slot) :
    d.Returns slot ∨ slot ∈ l := by
  rcases h with h | h
  · rcases List.mem_append.mp h with h | h
    · exact Or.inl (Or.inl h)
    · exact Or.inr h
  · exact Or.inl (Or.inr h)

theorem trimSuffix_append (node : String) : trimSuffix (node ++ "]") ']' = node := by
  have hlist : (node ++ "]").toList = node.toList ++ [']'] := by simp
  rw [trimSuffix, hlist]
  simp

/-- The pieces of an item on the move, and its number. -/
theorem split_moving (ha : IsSlot a m) (hmark : '-' ∉ mark.toList) (hnode : '-' ∉ node.toList) :
    split ("[" ++ a ++ "-" ++ mark ++ "-" ++ (node ++ "]")) '-' = ["[" ++ a, mark, node ++ "]"] ∧
      atoi (trimPrefix ("[" ++ a) '[') = some (m : ℤ) := by
  have hfirst : '-' ∉ ("[" ++ a).toList := by simpa using ha.no_dash
  have hthird : '-' ∉ (node ++ "]").toList := by simpa using hnode
  refine ⟨split_three hfirst hmark hthird, ?_⟩
  rw [trimPrefix_append, ha.atoi]

theorem readItem_importing (ha : IsSlot a m) (hnode : '-' ∉ node.toList) :
    readItem slotStr ("[" ++ a ++ "-" ++ "<" ++ "-" ++ (node ++ "]")) d =
      { d with importingSlots := d.importingSlots.insert (m : ℤ) node } := by
  obtain ⟨hsplit, hnumber⟩ := @split_moving a "<" node m ha (by decide) hnode
  rw [readItem, hsplit]
  dsimp only
  rw [hnumber]
  dsimp only
  rw [if_pos ((separator_importing "<").mpr rfl), trimSuffix_append]

theorem readItem_migrating (ha : IsSlot a m) (hnode : '-' ∉ node.toList) :
    readItem slotStr ("[" ++ a ++ "-" ++ ">" ++ "-" ++ (node ++ "]")) d =
      { d with migratingSlots := d.migratingSlots.insert (m : ℤ) node } := by
  obtain ⟨hsplit, hnumber⟩ := @split_moving a ">" node m ha (by decide) hnode
  rw [readItem, hsplit]
  dsimp only
  rw [hnumber]
  dsimp only
  rw [if_neg (by decide), if_pos ((separator_migrating ">").mpr rfl), trimSuffix_append]

/-- A well-formed item adds slots that it names. -/
theorem WellFormed.returns (h : WellFormed item) (hslot : (readItem slotStr item d).Returns slot) :
    d.Returns slot ∨ Names item slot := by
  cases h with
  | slot ha =>
    rw [readItem, split_one ha.no_dash] at hslot
    dsimp only at hslot
    rw [if_pos ha.inRange, ha.value] at hslot
    rcases Decoded.returns_addSlots hslot with hbefore | hmem
    · exact Or.inl hbefore
    · rw [List.mem_singleton.mp hmem]
      exact Or.inr (.slot ha)
  | range ha hb hle =>
    rw [readItem, split_pair rfl ha.no_dash hb.no_dash] at hslot
    dsimp only at hslot
    rw [ha.inRange, hb.inRange, ha.value, hb.value] at hslot
    rcases Decoded.returns_addSlots hslot with hbefore | hmem
    · exact Or.inl hbefore
    · obtain ⟨hm, hn⟩ := mem_slotsBetween.mp hmem
      exact Or.inr (.range ha hb hm hn)
  | @moving a mark node m ha hmark hnode =>
    have hinsert : ∀ moved : AList fun _ : ℤ => String,
        slot ∈ moved.insert (m : ℤ) node → slot ∈ moved ∨
          Names ("[" ++ a ++ "-" ++ mark ++ "-" ++ (node ++ "]")) slot := by
      intro moved hmem
      rcases (AList.mem_insert moved).mp hmem with rfl | hmem
      · exact Or.inr (.moving ha)
      · exact Or.inl hmem
    rcases hmark with rfl | rfl
    · rw [readItem_importing ha hnode] at hslot
      rcases hslot with hslot | hslot | hslot
      · exact Or.inl (Or.inl hslot)
      · exact Or.inl (Or.inr (Or.inl hslot))
      · exact (hinsert _ hslot).imp_left fun h => Or.inr (Or.inr h)
    · rw [readItem_migrating ha hnode] at hslot
      rcases hslot with hslot | hslot | hslot
      · exact Or.inl (Or.inl hslot)
      · exact (hinsert _ hslot).imp_left fun h => Or.inr (Or.inl h)
      · exact Or.inl (Or.inr (Or.inr hslot))

/-- The text is read without an error just if no item is refused. -/
theorem readItems_err (hd : d.err = none) :
    (readItems slotStr items d).err = none ↔ ∀ item ∈ items, ¬ Refused (split (trimSpace item) '-') := by
  induction items generalizing d with
  | nil => simpa [readItems] using hd
  | cons item items ih =>
    have hitem := @readItem_err (trimSpace item) slotStr d hd
    rw [readItems, List.forall_mem_cons]
    by_cases hrefused : Refused (split (trimSpace item) '-')
    · have herr := hitem.mpr hrefused
      rw [if_pos herr]
      refine iff_of_false ?_ fun h => h.1 hrefused
      intro hnone
      rw [hnone] at herr
      cases herr
    · have herr : ¬ (readItem slotStr (trimSpace item) d).err.isSome = true :=
        fun h => hrefused (hitem.mp h)
      have hnone : (readItem slotStr (trimSpace item) d).err = none := by simpa using herr
      rw [if_neg herr, and_iff_right hrefused]
      exact ih hnone

theorem readItems_returns (hitems : ∀ item ∈ items, WellFormed (trimSpace item))
    (hslot : (readItems slotStr items d).Returns slot) :
    d.Returns slot ∨ ∃ item ∈ items, Names (trimSpace item) slot := by
  induction items generalizing d with
  | nil => exact Or.inl hslot
  | cons item items ih =>
    obtain ⟨hitem, hitems⟩ := List.forall_mem_cons.mp hitems
    have hread : (readItem slotStr (trimSpace item) d).Returns slot ∨
        ∃ item ∈ items, Names (trimSpace item) slot := by
      rw [readItems] at hslot
      split at hslot
      · exact Or.inl hslot
      · exact ih hitems hslot
    rcases hread with hread | ⟨other, hother, hnames⟩
    · rcases hitem.returns hread with hbefore | hnames
      · exact Or.inl hbefore
      · exact Or.inr ⟨item, List.mem_cons_self, hnames⟩
    · exact Or.inr ⟨other, List.mem_cons_of_mem _ hother, hnames⟩

end Items

section Texts

variable (slotStr seq : String)

/-- Text that is read without an error is well formed, and names every slot that is returned. -/
def ReadsOnlySlots : Prop :=
  (decodeSlotsFromStr slotStr seq).err = none →
    (∀ item ∈ slotItems slotStr seq, WellFormed (trimSpace item)) ∧
      ∀ slot, (decodeSlotsFromStr slotStr seq).Returns slot →
        ∃ item ∈ slotItems slotStr seq, Names (trimSpace item) slot

theorem readsOnlySlots_iff : ReadsOnlySlots slotStr seq ↔
    (∃ item ∈ slotItems slotStr seq, Refused (split (trimSpace item) '-')) ∨
      ∀ item ∈ slotItems slotStr seq, ¬ Misread (split (trimSpace item) '-') := by
  have herr := @readItems_err slotStr Decoded.empty (slotItems slotStr seq) rfl
  constructor
  · intro honly
    by_cases hrefused : ∃ item ∈ slotItems slotStr seq, Refused (split (trimSpace item) '-')
    · exact Or.inl hrefused
    · right
      have hnone : ∀ item ∈ slotItems slotStr seq, ¬ Refused (split (trimSpace item) '-') :=
        fun item hitem h => hrefused ⟨item, hitem, h⟩
      intro item hitem
      exact ((honly (herr.mpr hnone)).1 item hitem).not_misread
  · rintro (⟨item, hitem, hrefused⟩ | hread) hok
    · exact absurd hrefused (herr.mp hok item hitem)
    · have hformed : ∀ item ∈ slotItems slotStr seq, WellFormed (trimSpace item) :=
        fun item hitem => wellFormed_of_not (herr.mp hok item hitem) (hread item hitem)
      refine ⟨hformed, fun slot hslot => ?_⟩
      rcases readItems_returns hformed hslot with hempty | hnames
      · simp [Decoded.Returns, Decoded.empty] at hempty
      · exact hnames

/-- A text that is no number is read as slot 0. -/
theorem word_read_as_slot : ¬ ReadsOnlySlots "abc" " " := by
  intro honly
  have hitems : slotItems "abc" " " = ["abc"] := by decide
  have hread : (decodeSlotsFromStr "abc" " ").err = none ∧
      (decodeSlotsFromStr "abc" " ").slots = [0] := by decide
  obtain ⟨hformed, -⟩ := honly hread.1
  rw [hitems] at hformed
  have hword := (hformed "abc" List.mem_cons_self).not_misread
  refine hword (.number (by decide) fun m hm => ?_)
  have hletter := hm.digit.2 'a' List.mem_cons_self
  exact absurd hletter (by decide)

end Texts

end Myredis
