import BluekingDbm.Library.Grouping

/-! Folding a list into a table in which each key keeps the item that beats the others. Where two items
meet of which neither beats the other the fold fails, so its outcome may depend on the order. -/
namespace Contest

open Grouping

variable {α κ ε : Type*} [DecidableEq κ] {key : α → κ} {beats : α → α → Prop}
  {step : (AList fun _ : κ => α) → α → Except ε (AList fun _ : κ => α)}
  {l l' rest : List α} {m m' : AList fun _ : κ => α} {a b : α} {k : κ}

/-- An item enters a table in which its key is new, or held by an item that it beats. -/
structure Judges (key : α → κ) (beats : α → α → Prop)
    (step : (AList fun _ : κ => α) → α → Except ε (AList fun _ : κ => α)) : Prop where
  irrefl : ∀ a, ¬ beats a a
  trans : ∀ a b c, beats a b → beats b c → beats a c
  fresh : ∀ m a, m.lookup (key a) = none → step m a = .ok (m.insert (key a) a)
  wins : ∀ m a b, m.lookup (key a) = some b → key a = key b → beats a b →
    step m a = .ok (m.insert (key a) a)
  loses : ∀ m a b, m.lookup (key a) = some b → key a = key b → beats b a → step m a = .ok m
  clashes : ∀ m a b, m.lookup (key a) = some b → key a = key b → ¬ beats a b → ¬ beats b a →
    ∃ e, step m a = .error e

/-- The item beats all others of its key. -/
def Winner (key : α → κ) (beats : α → α → Prop) (l : List α) (a : α) : Prop :=
  ∃ rest, (part key l (key a)).Perm (a :: rest) ∧ ∀ b ∈ rest, beats a b

/-- Each key has a winner. -/
def Decided (key : α → κ) (beats : α → α → Prop) (l : List α) : Prop :=
  ∀ a ∈ l, ∃ w, key w = key a ∧ Winner key beats l w

/-- Of two items of one key one beats the other. -/
def Untied (key : α → κ) (beats : α → α → Prop) (l : List α) : Prop :=
  l.Pairwise fun a b => key a = key b → beats a b ∨ beats b a

/-- The table holds the winners. -/
structure Settled (key : α → κ) (beats : α → α → Prop) (l : List α)
    (m : AList fun _ : κ => α) : Prop where
  absent : ∀ k, m.lookup k = none → part key l k = []
  held : ∀ k a, m.lookup k = some a → key a = k ∧ Winner key beats l a

theorem mem_part : a ∈ part key l k ↔ a ∈ l ∧ key a = k := by
  rw [part, List.mem_filter, decide_eq_true_iff]

theorem Winner.mem (h : Winner key beats l a) : a ∈ l := by
  obtain ⟨rest, hperm, -⟩ := h
  exact (mem_part.mp (hperm.mem_iff.mpr List.mem_cons_self)).1

theorem Winner.perm (h : Winner key beats l a) (hl : l.Perm l') : Winner key beats l' a := by
  obtain ⟨rest, hperm, hrest⟩ := h
  exact ⟨rest, (hl.filter _).symm.trans hperm, hrest⟩

theorem Winner.beats_or_eq (h : Winner key beats l a) (hb : b ∈ l) (hkey : key b = key a) :
    b = a ∨ beats a b := by
  obtain ⟨rest, hperm, hrest⟩ := h
  rcases List.mem_cons.mp (hperm.mem_iff.mp (mem_part.mpr ⟨hb, hkey⟩)) with heq | hmem
  · exact .inl heq
  · exact .inr (hrest b hmem)

theorem Winner.unique (hs : Judges key beats step) (ha : Winner key beats l a)
    (hb : Winner key beats l b) (hkey : key a = key b) : a = b := by
  rcases ha.beats_or_eq hb.mem hkey.symm with heq | hab
  · exact heq.symm
  · rcases hb.beats_or_eq ha.mem hkey with heq | hba
    · exact heq
    · exact absurd (hs.trans a b a hab hba) (hs.irrefl a)

theorem Decided.perm (h : Decided key beats l) (hl : l.Perm l') : Decided key beats l' := by
  intro a ha
  obtain ⟨w, hw, hwin⟩ := h a (hl.mem_iff.mpr ha)
  exact ⟨w, hw, hwin.perm hl⟩

omit [DecidableEq κ] in
theorem Untied.perm (h : Untied key beats l) (hl : l.Perm l') : Untied key beats l' := by
  refine (hl.pairwise_iff ?_).mp h
  intro a b hab hkey
  exact (hab hkey.symm).symm

section Fold

theorem settled_nil : Settled key beats [] (∅ : AList fun _ : κ => α) where
  absent _ _ := rfl
  held k a h := by
    rw [AList.lookup_empty] at h
    cases h

/-- What holds of another key is not touched by an item. -/
theorem Winner.append_ne (h : Winner key beats l b) (hne : key a ≠ key b) :
    Winner key beats (l ++ [a]) b := by
  obtain ⟨rest, hperm, hrest⟩ := h
  refine ⟨rest, ?_, hrest⟩
  rw [part_append, if_neg hne]
  exact hperm

theorem Settled.enters (h : Settled key beats l m) (ha : Winner key beats (l ++ [a]) a) :
    Settled key beats (l ++ [a]) (m.insert (key a) a) where
  absent k hk := by
    have hne : key a ≠ k := by
      rintro rfl
      rw [AList.lookup_insert] at hk
      cases hk
    rw [AList.lookup_insert_ne (Ne.symm hne)] at hk
    rw [part_append, if_neg hne]
    exact h.absent k hk
  held k b hb := by
    by_cases hk : key a = k
    · subst hk
      rw [AList.lookup_insert] at hb
      obtain rfl := Option.some.inj hb
      exact ⟨rfl, ha⟩
    · rw [AList.lookup_insert_ne (Ne.symm hk)] at hb
      obtain ⟨rfl, hwin⟩ := h.held k b hb
      exact ⟨rfl, hwin.append_ne hk⟩

theorem Settled.stays (h : Settled key beats l m) (hb : m.lookup (key a) = some b)
    (hbeats : beats b a) : Settled key beats (l ++ [a]) m where
  absent k hk := by
    have hne : key a ≠ k := by
      rintro rfl
      rw [hb] at hk
      cases hk
    rw [part_append, if_neg hne]
    exact h.absent k hk
  held k c hc := by
    obtain ⟨rfl, hwin⟩ := h.held k c hc
    refine ⟨rfl, ?_⟩
    by_cases hk : key a = key c
    · rw [hk, hc] at hb
      obtain rfl := Option.some.inj hb
      obtain ⟨rest, hperm, hrest⟩ := hwin
      refine ⟨rest ++ [a], ?_, ?_⟩
      · rw [part_append, if_pos hk]
        exact hperm.append_right [a]
      · intro x hx
        rcases List.mem_append.mp hx with hx | hx
        · exact hrest x hx
        · obtain rfl := List.mem_singleton.mp hx
          exact hbeats
    · exact hwin.append_ne hk

/-- One item, if it is judged. -/
theorem Settled.judged (hs : Judges key beats step) (h : Settled key beats l m)
    (hstep : step m a = .ok m') : Settled key beats (l ++ [a]) m' := by
  cases hb : m.lookup (key a) with
  | none =>
    rw [hs.fresh m a hb] at hstep
    cases hstep
    refine h.enters ⟨[], ?_, fun b hb => absurd hb List.not_mem_nil⟩
    rw [part_append, if_pos rfl, h.absent _ hb]
    exact .refl _
  | some b =>
    obtain ⟨hkey, rest, hperm, hrest⟩ := h.held _ b hb
    by_cases hab : beats a b
    · rw [hs.wins m a b hb hkey.symm hab] at hstep
      cases hstep
      refine h.enters ⟨b :: rest, ?_, ?_⟩
      · rw [part_append, if_pos rfl]
        rw [hkey] at hperm
        exact (List.perm_append_singleton a _).trans (hperm.cons a)
      · intro c hc
        rcases List.mem_cons.mp hc with rfl | hc
        · exact hab
        · exact hs.trans a b c hab (hrest c hc)
    · by_cases hba : beats b a
      · rw [hs.loses m a b hb hkey.symm hba] at hstep
        cases hstep
        exact h.stays hb hba
      · obtain ⟨e, he⟩ := hs.clashes m a b hb hkey.symm hab hba
        rw [he] at hstep
        cases hstep

theorem Settled.foldlM (hs : Judges key beats step) (h : Settled key beats l m)
    (hfold : rest.foldlM step m = .ok m') : Settled key beats (l ++ rest) m' := by
  induction rest generalizing l m with
  | nil =>
    cases hfold
    rwa [List.append_nil]
  | cons a rest ih =>
    rw [List.foldlM_cons] at hfold
    cases hstep : step m a with
    | error e =>
      rw [hstep] at hfold
      cases hfold
    | ok m₁ =>
      rw [hstep] at hfold
      rw [List.append_cons]
      exact ih (h.judged hs hstep) hfold

/-- Without ties every item is judged. -/
theorem Settled.foldlM_untied (hs : Judges key beats step) (h : Settled key beats l m)
    (hu : Untied key beats (l ++ rest)) : ∃ m', rest.foldlM step m = .ok m' := by
  induction rest generalizing l m with
  | nil => exact ⟨m, rfl⟩
  | cons a rest ih =>
    have hjudged : ∃ m₁, step m a = .ok m₁ := by
      cases hb : m.lookup (key a) with
      | none => exact ⟨_, hs.fresh m a hb⟩
      | some b =>
        obtain ⟨hkey, hwin⟩ := h.held _ b hb
        rcases (List.pairwise_append.mp hu).2.2 b hwin.mem a List.mem_cons_self hkey with hba | hab
        · exact ⟨_, hs.loses m a b hb hkey.symm hba⟩
        · exact ⟨_, hs.wins m a b hb hkey.symm hab⟩
    obtain ⟨m₁, hstep⟩ := hjudged
    rw [List.append_cons] at hu
    obtain ⟨m', hrest⟩ := ih (h.judged hs hstep) hu
    refine ⟨m', ?_⟩
    rw [List.foldlM_cons, hstep]
    exact hrest

/-- Items that are all beaten leave the table alone. -/
theorem foldlM_beaten (hs : Judges key beats step)
    (h : ∀ b ∈ rest, ∃ a, m.lookup (key b) = some a ∧ key b = key a ∧ beats a b) :
    rest.foldlM step m = .ok m := by
  induction rest with
  | nil => rfl
  | cons b rest ih =>
    obtain ⟨a, ha, hkey, hbeats⟩ := h b List.mem_cons_self
    rw [List.foldlM_cons, hs.loses m b a ha hkey hbeats]
    exact ih fun c hc => h c (List.mem_cons_of_mem _ hc)

theorem Settled.decided (h : Settled key beats l m) : Decided key beats l := by
  intro a ha
  cases hb : m.lookup (key a) with
  | none =>
    have hmem : a ∈ part key l (key a) := mem_part.mpr ⟨ha, rfl⟩
    rw [h.absent _ hb] at hmem
    exact absurd hmem List.not_mem_nil
  | some b => exact ⟨b, h.held _ b hb⟩

theorem Settled.mem_values (hs : Judges key beats step) (h : Settled key beats l m) :
    a ∈ Table.values m ↔ Winner key beats l a := by
  rw [Table.mem_values]
  constructor
  · rintro ⟨k, hk⟩
    exact (h.held k a (AList.mem_lookup_iff.mpr hk)).2
  · intro ha
    refine ⟨key a, AList.mem_lookup_iff.mp ?_⟩
    cases hb : m.lookup (key a) with
    | none =>
      have hmem : a ∈ part key l (key a) := mem_part.mpr ⟨ha.mem, rfl⟩
      rw [h.absent _ hb] at hmem
      exact absurd hmem List.not_mem_nil
    | some b =>
      obtain ⟨hkey, hwin⟩ := h.held _ b hb
      exact congrArg some (hwin.unique hs ha hkey)

end Fold

section Orders

/-- Both fail, or both give the same items. -/
def Agree : Except ε (List α) → Except ε (List α) → Prop
  | .ok as, .ok bs => ∀ a, a ∈ as ↔ a ∈ bs
  | .error _, .error _ => True
  | _, _ => False

theorem exists_tie {R : α → α → Prop} (h : ¬ l.Pairwise R) :
    ∃ a b rest, l.Perm (a :: b :: rest) ∧ ¬ R a b := by
  induction l with
  | nil => exact absurd .nil h
  | cons a l ih =>
    by_cases hall : ∀ b ∈ l, R a b
    · have hl : ¬ l.Pairwise R := fun hl => h (.cons hall hl)
      obtain ⟨b, c, rest, hperm, hbc⟩ := ih hl
      have hmiddle : ([b, c] ++ a :: rest).Perm (a :: ([b, c] ++ rest)) := List.perm_middle
      exact ⟨b, c, a :: rest, (hperm.cons a).trans hmiddle.symm, hbc⟩
    · obtain ⟨b, hb, hab⟩ : ∃ b ∈ l, ¬ R a b := by
        by_contra hnone
        refine hall fun b hb => ?_
        by_contra hab
        exact hnone ⟨b, hb, hab⟩
      obtain ⟨l₁, l₂, rfl⟩ := List.append_of_mem hb
      exact ⟨a, b, l₁ ++ l₂, List.perm_middle.cons a, hab⟩

/-- Two items that tie are met first in some order. -/
theorem exists_failure (hs : Judges key beats step) (h : ¬ Untied key beats l) :
    ∃ l' e, l.Perm l' ∧ l'.foldlM step ∅ = .error e := by
  obtain ⟨a, b, rest, hperm, hab⟩ := exists_tie h
  obtain ⟨hkey, htie⟩ := Classical.not_imp.mp hab
  obtain ⟨hab, hba⟩ := not_or.mp htie
  have hfirst : step ∅ a = .ok ((∅ : AList fun _ : κ => α).insert (key a) a) :=
    hs.fresh ∅ a (AList.lookup_empty _)
  have hheld : ((∅ : AList fun _ : κ => α).insert (key a) a).lookup (key b) = some a := by
    rw [← hkey, AList.lookup_insert]
  obtain ⟨e, he⟩ := hs.clashes _ b a hheld hkey.symm hba hab
  refine ⟨_, e, hperm, ?_⟩
  rw [List.foldlM_cons, hfirst]
  show (b :: rest).foldlM step _ = _
  rw [List.foldlM_cons, he]
  rfl

open Classical in
theorem winners_untied :
    Untied key beats (l.filter fun a => decide (Winner key beats l a)) := by
  apply List.pairwise_iff_forall_sublist.mpr
  intro a b hsub hkey
  obtain ⟨ha, hwin⟩ := List.mem_filter.mp (hsub.subset List.mem_cons_self)
  obtain ⟨rest, hperm, hrest⟩ := of_decide_eq_true hwin
  have hpart : [a, b].Sublist (part key l (key a)) := by
    have hfilter := (hsub.trans List.filter_sublist).filter fun x => decide (key x = key a)
    simpa [part, hkey] using hfilter
  have hsubperm : [b].Subperm rest :=
    (List.subperm_cons a).mp (hpart.subperm.trans hperm.subperm)
  exact .inl (hrest b (List.singleton_subperm_iff.mp hsubperm))

/-- The winners of a decided list may come first. -/
theorem exists_success (hs : Judges key beats step) (h : Decided key beats l) :
    ∃ l' m, l.Perm l' ∧ l'.foldlM step ∅ = .ok m := by
  classical
  let winners := l.filter fun a => decide (Winner key beats l a)
  let losers := l.filter fun a => !decide (Winner key beats l a)
  have hperm : l.Perm (winners ++ losers) := (List.filter_append_perm _ l).symm
  have hu : Untied key beats ([] ++ winners) := winners_untied
  obtain ⟨m, hm⟩ := settled_nil.foldlM_untied hs hu
  have hsettled : Settled key beats winners m := settled_nil.foldlM hs hm
  refine ⟨winners ++ losers, m, hperm, ?_⟩
  rw [List.foldlM_append, hm]
  refine foldlM_beaten hs ?_
  intro b hb
  obtain ⟨hbl, hlost⟩ := List.mem_filter.mp hb
  obtain ⟨w, hkey, hw⟩ := h b hbl
  have hbeats : beats w b := by
    rcases hw.beats_or_eq hbl hkey.symm with rfl | hbeats
    · simp [hw] at hlost
    · exact hbeats
  have hmem : w ∈ winners := List.mem_filter.mpr ⟨hw.mem, decide_eq_true hw⟩
  cases hheld : m.lookup (key b) with
  | none =>
    have hpart : w ∈ part key winners (key b) := mem_part.mpr ⟨hmem, hkey⟩
    rw [hsettled.absent _ hheld] at hpart
    exact absurd hpart List.not_mem_nil
  | some c =>
    obtain ⟨hc, hwin⟩ := hsettled.held _ c hheld
    have hcl : Winner key beats l c := of_decide_eq_true (List.mem_filter.mp hwin.mem).2
    obtain rfl := hcl.unique hs hw (hc.trans hkey.symm)
    exact ⟨c, rfl, hkey.symm, hbeats⟩

/-- The outcome is the same in every order just where no key has a tie below its winner. -/
theorem agree_iff (hs : Judges key beats step) :
    (∀ l', l.Perm l' → Agree ((l.foldlM step ∅).map Table.values)
      ((l'.foldlM step ∅).map Table.values)) ↔
      (Decided key beats l → Untied key beats l) := by
  constructor
  · intro h hd
    by_contra hu
    obtain ⟨l₁, m, hl₁, hok⟩ := exists_success hs hd
    obtain ⟨l₂, e, hl₂, hfail⟩ := exists_failure hs hu
    have h₁ := h l₁ hl₁
    have h₂ := h l₂ hl₂
    rw [hok] at h₁
    rw [hfail] at h₂
    cases hl : l.foldlM step ∅ with
    | ok m => rw [hl] at h₂; exact h₂
    | error e => rw [hl] at h₁; exact h₁
  · intro h l' hl
    cases hfold : l.foldlM step ∅ with
    | ok m =>
      have hsettled := settled_nil.foldlM hs hfold
      have hu := (h hsettled.decided).perm hl
      obtain ⟨m', hm'⟩ := settled_nil.foldlM_untied hs hu
      have hsettled' := settled_nil.foldlM hs hm'
      rw [hm']
      intro a
      rw [hsettled.mem_values hs, hsettled'.mem_values hs]
      exact ⟨fun ha => ha.perm hl, fun ha => ha.perm hl.symm⟩
    | error e =>
      cases hfold' : l'.foldlM step ∅ with
      | error e' => trivial
      | ok m' =>
        have hd := (settled_nil.foldlM hs hfold').decided.perm hl.symm
        obtain ⟨m, hm⟩ := settled_nil.foldlM_untied hs (h hd)
        rw [hm] at hfold
        cases hfold

end Orders

end Contest
