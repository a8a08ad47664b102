import BluekingDbm.Library.Table

/-! Folding a list into a table that keeps, under each key, the item of the greatest rank. -/
namespace Foremost

variable {α κ ε : Type*} {key : α → κ} {rank : α → ℕ} {l rest : List α} {a b : α}

/-- No item of the same key ranks higher. -/
def Top (key : α → κ) (rank : α → ℕ) (l : List α) (a : α) : Prop :=
  a ∈ l ∧ ∀ b ∈ l, key b = key a → rank b ≤ rank a

/-- Items of one key have different ranks. -/
def Ranked (key : α → κ) (rank : α → ℕ) (l : List α) : Prop :=
  l.Pairwise fun a b => key a = key b → rank a ≠ rank b

theorem Ranked.eq_of_rank (hr : Ranked key rank l) (ha : a ∈ l) (hb : b ∈ l)
    (hkey : key a = key b) (hrank : rank a = rank b) : a = b := by
  by_contra hne
  have hsymm : Std.Symm fun a b => key a = key b → rank a ≠ rank b :=
    ⟨fun a b h hkey => (h hkey.symm).symm⟩
  exact hr.forall ha hb hne hkey hrank

/-- A change that keeps keys and ranks keeps what is at the top. -/
theorem top_map {f : α → α} (hkey : ∀ a, key (f a) = key a) (hrank : ∀ a, rank (f a) = rank a) :
    Top key rank (l.map f) b ↔ ∃ a, Top key rank l a ∧ f a = b := by
  constructor
  · rintro ⟨hmem, htop⟩
    obtain ⟨a, ha, rfl⟩ := List.mem_map.mp hmem
    refine ⟨a, ⟨ha, ?_⟩, rfl⟩
    intro c hc hca
    have h := htop (f c) (List.mem_map_of_mem hc) (by rw [hkey, hkey, hca])
    rwa [hrank, hrank] at h
  · rintro ⟨a, ⟨ha, htop⟩, rfl⟩
    refine ⟨List.mem_map_of_mem ha, ?_⟩
    intro c hc hca
    obtain ⟨d, hd, rfl⟩ := List.mem_map.mp hc
    rw [hkey, hkey] at hca
    rw [hrank, hrank]
    exact htop d hd hca

theorem Ranked.map {f : α → α} (hkey : ∀ a, key (f a) = key a) (hrank : ∀ a, rank (f a) = rank a)
    (hr : Ranked key rank l) : Ranked key rank (l.map f) := by
  refine List.pairwise_map.mpr (hr.imp ?_)
  intro a b h hab
  rw [hkey, hkey] at hab
  rw [hrank, hrank]
  exact h hab

theorem exists_greatest (rank : α → ℕ) (hl : l ≠ []) : ∃ a ∈ l, ∀ b ∈ l, rank b ≤ rank a := by
  induction l with
  | nil => exact absurd rfl hl
  | cons a l ih =>
    by_cases hrest : l = []
    · refine ⟨a, List.mem_cons_self, ?_⟩
      intro b hb
      rw [hrest] at hb
      exact List.mem_singleton.mp hb ▸ le_rfl
    · obtain ⟨c, hc, hgreatest⟩ := ih hrest
      rcases le_total (rank a) (rank c) with hle | hle
      · exact ⟨c, List.mem_cons_of_mem _ hc, List.forall_mem_cons.mpr ⟨hle, hgreatest⟩⟩
      · refine ⟨a, List.mem_cons_self, List.forall_mem_cons.mpr ⟨le_rfl, ?_⟩⟩
        intro b hb
        exact (hgreatest b hb).trans hle

variable [DecidableEq κ]

theorem exists_top (rank : α → ℕ) (ha : a ∈ l) : ∃ b, Top key rank l b ∧ key b = key a := by
  have hne : l.filter (fun b => decide (key b = key a)) ≠ [] :=
    List.ne_nil_of_mem (List.mem_filter.mpr ⟨ha, decide_eq_true rfl⟩)
  obtain ⟨b, hb, hgreatest⟩ := exists_greatest rank hne
  obtain ⟨hb, hkey⟩ := List.mem_filter.mp hb
  have hkey := of_decide_eq_true hkey
  refine ⟨b, ⟨hb, ?_⟩, hkey⟩
  intro c hc hcb
  exact hgreatest c (List.mem_filter.mpr ⟨hc, decide_eq_true (hcb.trans hkey)⟩)

/-- A fit item enters a table in which its key is new, or held by an item of lower rank; it leaves
the table alone if the item there ranks higher. Nothing is said of equal ranks. -/
structure Admits (key : α → κ) (rank : α → ℕ) (Fit : α → Prop)
    (step : (AList fun _ : κ => α) → α → Except ε (AList fun _ : κ => α)) : Prop where
  fresh : ∀ m a, Fit a → m.lookup (key a) = none → step m a = .ok (m.insert (key a) a)
  higher : ∀ m a b, Fit a → Fit b → m.lookup (key a) = some b → rank b < rank a →
    step m a = .ok (m.insert (key a) a)
  lower : ∀ m a b, Fit a → Fit b → m.lookup (key a) = some b → rank a < rank b → step m a = .ok m

/-- The table has an item for each key of the list, and it is a top one. -/
structure Holds (key : α → κ) (rank : α → ℕ) (l : List α) (m : AList fun _ : κ => α) : Prop where
  absent : ∀ k, m.lookup k = none → ∀ b ∈ l, key b ≠ k
  top : ∀ k a, m.lookup k = some a → key a = k ∧ Top key rank l a

variable {m : AList fun _ : κ => α} {Fit : α → Prop}
  {step : (AList fun _ : κ => α) → α → Except ε (AList fun _ : κ => α)}

theorem holds_nil : Holds key rank [] (∅ : AList fun _ : κ => α) where
  absent := fun _ _ b hb => absurd hb List.not_mem_nil
  top := fun k a h => by
    rw [AList.lookup_empty] at h
    cases h

/-- The new item takes its key. -/
theorem Holds.enters (h : Holds key rank l m)
    (hhigh : ∀ b ∈ l, key b = key a → rank b ≤ rank a) :
    Holds key rank (l ++ [a]) (m.insert (key a) a) where
  absent := by
    intro k hk b hb
    rcases eq_or_ne k (key a) with rfl | hne
    · rw [AList.lookup_insert] at hk
      cases hk
    · rw [AList.lookup_insert_ne hne] at hk
      rcases List.mem_append.mp hb with hb | hb
      · exact h.absent k hk b hb
      · obtain rfl := List.mem_singleton.mp hb
        exact hne.symm
  top := by
    intro k b hb
    rcases eq_or_ne k (key a) with rfl | hne
    · rw [AList.lookup_insert] at hb
      obtain rfl := Option.some.inj hb
      refine ⟨rfl, by simp, ?_⟩
      intro c hc hkey
      rcases List.mem_append.mp hc with hc | hc
      · exact hhigh c hc hkey
      · obtain rfl := List.mem_singleton.mp hc
        exact le_rfl
    · rw [AList.lookup_insert_ne hne] at hb
      obtain ⟨rfl, hmem, htop⟩ := h.top k b hb
      refine ⟨rfl, List.mem_append_left _ hmem, ?_⟩
      intro c hc hkey
      rcases List.mem_append.mp hc with hc | hc
      · exact htop c hc hkey
      · obtain rfl := List.mem_singleton.mp hc
        exact absurd hkey.symm hne

/-- The new item stays behind the one that holds its key. -/
theorem Holds.passes (h : Holds key rank l m) (hb : m.lookup (key a) = some b)
    (hlow : rank a ≤ rank b) : Holds key rank (l ++ [a]) m where
  absent := by
    intro k hk c hc
    rcases List.mem_append.mp hc with hc | hc
    · exact h.absent k hk c hc
    · obtain rfl := List.mem_singleton.mp hc
      rintro rfl
      rw [hk] at hb
      cases hb
  top := by
    intro k c hc
    obtain ⟨rfl, hmem, htop⟩ := h.top k c hc
    refine ⟨rfl, List.mem_append_left _ hmem, ?_⟩
    intro x hx hkey
    rcases List.mem_append.mp hx with hx | hx
    · exact htop x hx hkey
    · obtain rfl := List.mem_singleton.mp hx
      rw [hkey, hc] at hb
      obtain rfl := Option.some.inj hb
      exact hlow

theorem Holds.take (hs : Admits key rank Fit step) (h : Holds key rank l m)
    (hfit : ∀ b ∈ l ++ [a], Fit b) (hne : ∀ b ∈ l, key b = key a → rank b ≠ rank a) :
    ∃ m', step m a = .ok m' ∧ Holds key rank (l ++ [a]) m' := by
  have ha : Fit a := hfit a (by simp)
  cases hb : m.lookup (key a) with
  | none =>
    refine ⟨_, hs.fresh m a ha hb, h.enters ?_⟩
    intro c hc hkey
    exact absurd hkey (h.absent _ hb c hc)
  | some b =>
    obtain ⟨hkey, hmem, htop⟩ := h.top _ b hb
    have hfitb : Fit b := hfit b (List.mem_append_left _ hmem)
    rcases Nat.lt_or_gt_of_ne (hne b hmem hkey) with hlt | hgt
    · refine ⟨_, hs.higher m a b ha hfitb hb hlt, h.enters ?_⟩
      intro c hc hkey'
      exact (htop c hc (hkey'.trans hkey.symm)).trans hlt.le
    · exact ⟨m, hs.lower m a b ha hfitb hb hgt, h.passes hb hgt.le⟩

/-- The fold of a ranked list succeeds, and its table holds the top items. -/
theorem Holds.foldlM (hs : Admits key rank Fit step) (h : Holds key rank l m)
    (hfit : ∀ b ∈ l ++ rest, Fit b) (hr : Ranked key rank (l ++ rest)) :
    ∃ m', rest.foldlM step m = .ok m' ∧ Holds key rank (l ++ rest) m' := by
  induction rest generalizing l m with
  | nil => exact ⟨m, rfl, by rwa [List.append_nil]⟩
  | cons a rest ih =>
    have hne : ∀ b ∈ l, key b = key a → rank b ≠ rank a := by
      intro b hb
      exact (List.pairwise_append.mp hr).2.2 b hb a List.mem_cons_self
    rw [List.append_cons] at hr hfit ⊢
    obtain ⟨m₁, hstep, h₁⟩ := h.take hs (fun b hb => hfit b (List.mem_append_left _ hb)) hne
    obtain ⟨m', hrest, h'⟩ := ih h₁ hfit hr
    refine ⟨m', ?_, h'⟩
    rw [List.foldlM_cons, hstep]
    exact hrest

/-- What a table holds, item by item. -/
theorem Holds.mem_values (h : Holds key rank l m) (hr : Ranked key rank l) :
    a ∈ Table.values m ↔ Top key rank l a := by
  rw [Table.mem_values]
  constructor
  · rintro ⟨k, hk⟩
    exact (h.top k a (AList.mem_lookup_iff.mpr hk)).2
  · intro ha
    refine ⟨key a, AList.mem_lookup_iff.mp ?_⟩
    cases hb : m.lookup (key a) with
    | none => exact absurd rfl (h.absent _ hb a ha.1)
    | some b =>
      obtain ⟨hkey, hmem, htop⟩ := h.top _ b hb
      have hrank := le_antisymm (htop a ha.1 hkey.symm) (ha.2 b hmem hkey)
      exact congrArg some (hr.eq_of_rank hmem ha.1 hkey hrank.symm)

/-- No key is held twice. -/
theorem Holds.nodup_keys (h : Holds key rank l m) : ((Table.values m).map key).Nodup := by
  have hkeys : (Table.values m).map key = m.keys := by
    rw [Table.values, List.map_map]
    refine List.map_congr_left ?_
    rintro ⟨k, a⟩ he
    exact (h.top k a (AList.mem_lookup_iff.mpr he)).1
  rw [hkeys]
  exact m.nodupKeys

theorem foldlM_holds (hs : Admits key rank Fit step) (hfit : ∀ a ∈ l, Fit a)
    (hr : Ranked key rank l) : ∃ m, l.foldlM step ∅ = .ok m ∧ Holds key rank l m :=
  holds_nil.foldlM hs hfit hr

end Foremost
