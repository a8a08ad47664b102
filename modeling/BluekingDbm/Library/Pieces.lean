import Mathlib.Data.List.Basic
import Mathlib.Data.List.Nodup

/-! Lists cut into pieces at separators, joined again, and the pieces counted once. -/
namespace Pieces

variable {α : Type*} {p : α → Bool} {l u : List α} {us : List (List α)} {sep : α}

theorem mem_splitOnP (h : u ∈ l.splitOnP p) : ∀ b ∈ u, b ∈ l ∧ p b = false := by
  induction l generalizing u with
  | nil =>
    obtain rfl := List.mem_singleton.mp h
    exact fun b hb => absurd hb List.not_mem_nil
  | cons a l ih =>
    rw [List.splitOnP_cons_eq_if_modifyHead] at h
    split at h
    · rcases List.mem_cons.mp h with rfl | h
      · exact fun b hb => absurd hb List.not_mem_nil
      · intro b hb
        obtain ⟨hmem, hsep⟩ := ih h b hb
        exact ⟨List.mem_cons_of_mem _ hmem, hsep⟩
    case isFalse ha =>
      obtain ⟨v, vs, hsplit⟩ := List.exists_cons_of_ne_nil (List.splitOnP_ne_nil p l)
      rw [hsplit, List.modifyHead_cons] at h
      have hpiece : ∀ w ∈ v :: vs, ∀ b ∈ w, b ∈ a :: l ∧ p b = false := by
        intro w hw b hb
        obtain ⟨hmem, hsep⟩ := ih (hsplit ▸ hw) b hb
        exact ⟨List.mem_cons_of_mem _ hmem, hsep⟩
      intro b hb
      rcases List.mem_cons.mp h with rfl | h
      · rcases List.mem_cons.mp hb with rfl | hb
        · exact ⟨List.mem_cons_self, by simpa using ha⟩
        · exact hpiece v List.mem_cons_self b hb
      · exact hpiece u (List.mem_cons_of_mem _ h) b hb

theorem splitOnP_intercalate (h : ∀ u ∈ us, ∀ b ∈ u, p b = false) (hne : us ≠ [])
    (hsep : p sep = true) : (List.intercalate [sep] us).splitOnP p = us := by
  induction us with
  | nil => exact absurd rfl hne
  | cons u us ih =>
    obtain ⟨hu, hus⟩ := List.forall_mem_cons.mp h
    cases us with
    | nil => simpa using List.splitOnP_eq_singleton hu
    | cons v vs =>
      have hjoin : List.intercalate [sep] (u :: v :: vs) =
          u ++ sep :: List.intercalate [sep] (v :: vs) := by
        simp [List.intercalate]
      rw [hjoin, List.splitOnP_append_cons_of_forall_mem hu sep hsep, ih hus (List.cons_ne_nil _ _)]

theorem mem_intercalate {b : α} (h : b ∈ List.intercalate [sep] us) :
    b = sep ∨ ∃ u ∈ us, b ∈ u := by
  induction us with
  | nil => simp [List.intercalate] at h
  | cons u us ih =>
    cases us with
    | nil => exact Or.inr ⟨u, List.mem_cons_self, by simpa [List.intercalate] using h⟩
    | cons v vs =>
      have hjoin : List.intercalate [sep] (u :: v :: vs) =
          u ++ sep :: List.intercalate [sep] (v :: vs) := by
        simp [List.intercalate]
      rw [hjoin, List.mem_append, List.mem_cons] at h
      rcases h with h | rfl | h
      · exact Or.inr ⟨u, List.mem_cons_self, h⟩
      · exact Or.inl rfl
      · rcases ih h with rfl | ⟨w, hw, hb⟩
        · exact Or.inl rfl
        · exact Or.inr ⟨w, List.mem_cons_of_mem _ hw, hb⟩

section Cuts

variable [DecidableEq α] {c : α}

/-- `strings.Split` at a separator of some length: the pieces between its occurrences, found from the
left. The next `skip` members belong to the occurrence just found. -/
def cuts (sep : List α) : ℕ → List α → List (List α)
  | _, [] => [[]]
  | skip + 1, _ :: l => cuts sep skip l
  | 0, a :: l =>
    if sep <+: a :: l then [] :: cuts sep (sep.length - 1) l
    else (cuts sep 0 l).modifyHead (a :: ·)

theorem cuts_singleton (l : List α) : cuts [c] 0 l = l.splitOn c := by
  induction l with
  | nil => rfl
  | cons a l ih =>
    have hpre : [c] <+: a :: l ↔ a = c := by
      constructor
      · rintro ⟨rest, hrest⟩
        exact (List.cons.inj hrest).1.symm
      · rintro rfl
        exact ⟨l, rfl⟩
    rw [cuts, List.splitOn_cons_eq_if_modifyHead]
    by_cases ha : a = c
    · rw [if_pos (hpre.mpr ha), if_pos (beq_iff_eq.mpr ha)]
      exact congrArg ([] :: ·) ih
    · rw [if_neg (fun h => ha (hpre.mp h)), if_neg (by simpa using ha), ih]

end Cuts

variable [BEq α] [LawfulBEq α]

theorem eraseDups_of_nodup (h : l.Nodup) : l.eraseDups = l := by
  induction l with
  | nil => rfl
  | cons a l ih =>
    obtain ⟨ha, hl⟩ := List.nodup_cons.mp h
    have hrest : l.filter (fun b => !b == a) = l := by
      refine List.filter_eq_self.mpr ?_
      intro b hb
      simpa using fun heq : b = a => ha (heq ▸ hb)
    rw [List.eraseDups_cons, hrest, ih hl]

theorem nodup_eraseDups (l : List α) : l.eraseDups.Nodup := by
  induction hn : l.length using Nat.strongRecOn generalizing l with
  | ind n ih =>
    cases l with
    | nil => exact List.nodup_nil
    | cons a l =>
      rw [List.eraseDups_cons]
      have hshort : (l.filter fun b => !b == a).length < n := by
        have hle := List.length_filter_le (fun b => !b == a) l
        rw [List.length_cons] at hn
        omega
      refine List.nodup_cons.mpr ⟨?_, ih _ hshort _ rfl⟩
      intro hmem
      have hkept := (List.mem_filter.mp (List.mem_eraseDups.mp hmem)).2
      simp at hkept

end Pieces
