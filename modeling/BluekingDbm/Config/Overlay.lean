import BluekingDbm.Config.Merge

/-! The overrides of the platform laid over the definitions of names. -/
namespace Config

variable {defs out plats : List ConfigNameDefModel} {d p : ConfigNameDefModel}

abbrev DistinctNames (l : List ConfigNameDefModel) : Prop :=
  l.Pairwise fun d d' => d.confName ≠ d'.confName

/-- A row as the overlay stores it. -/
def Stored (p d : ConfigNameDefModel) : Prop :=
  ∃ createFrom, d = { p with id := 0, createFrom := createFrom }

/-- What the overrides leave: the definitions of other names, and the overrides not deleted. -/
structure Overlaid (defs plats out : List ConfigNameDefModel) : Prop where
  distinct : DistinctNames out
  origin : ∀ d ∈ out, (d ∈ defs ∧ ∀ p ∈ plats, d.confName ≠ p.confName) ∨
    ∃ p ∈ plats, p.deleted ≤ 0 ∧ Stored p d
  keeps : ∀ d ∈ defs, (∀ p ∈ plats, d.confName ≠ p.confName) → d ∈ out
  enters : ∀ p ∈ plats, p.deleted ≤ 0 → ∃ d ∈ out, Stored p d

theorem Stored.confName (h : Stored p d) : d.confName = p.confName := by
  obtain ⟨createFrom, rfl⟩ := h
  rfl

/-- The name is new. -/
theorem overlay_new (hdefs : DistinctNames defs) (hnew : ∀ d ∈ defs, d.confName ≠ p.confName) :
    Overlaid defs [p] (overlay defs p) := by
  have hidx : defs.findIdx? (fun d => decide (d.confName = p.confName)) = none := by
    refine List.findIdx?_eq_none_iff.mpr ?_
    intro d hd
    exact decide_eq_false (hnew d hd)
  rw [overlay, hidx]
  by_cases hdel : p.deleted ≤ 0
  · rw [if_pos hdel]
    constructor
    · refine List.pairwise_append.mpr ⟨hdefs, List.pairwise_singleton .., ?_⟩
      intro d hd d' hd'
      obtain rfl := List.mem_singleton.mp hd'
      exact hnew d hd
    · intro d hd
      rcases List.mem_append.mp hd with hd | hd
      · exact Or.inl ⟨hd, by simpa using hnew d hd⟩
      · exact Or.inr ⟨p, List.mem_singleton_self p, hdel, _, List.mem_singleton.mp hd⟩
    · intro d hd _
      exact List.mem_append_left _ hd
    · intro q hq _
      obtain rfl := List.mem_singleton.mp hq
      exact ⟨_, List.mem_append_right _ (List.mem_singleton_self _), _, rfl⟩
  · rw [if_neg hdel]
    constructor
    · exact hdefs
    · intro d hd
      exact Or.inl ⟨hd, by simpa using hnew d hd⟩
    · intro d hd _
      exact hd
    · intro q hq hq'
      obtain rfl := List.mem_singleton.mp hq
      exact absurd hq' hdel

/-- No other definition has the name. -/
theorem confName_ne (hdefs : DistinctNames defs) {i j : ℕ} (hi : i < defs.length)
    (hname : defs[i].confName = p.confName) (hj : j < defs.length) (hji : j ≠ i) :
    defs[j].confName ≠ p.confName := by
  rw [← hname]
  rcases Nat.lt_or_gt_of_ne hji with hlt | hgt
  · exact List.pairwise_iff_getElem.mp hdefs j i hj hi hlt
  · exact (List.pairwise_iff_getElem.mp hdefs i j hi hj hgt).symm

/-- The definition of the name goes. -/
theorem overlaid_erase (hdefs : DistinctNames defs) {i : ℕ} (hi : i < defs.length)
    (hname : defs[i].confName = p.confName) (hdel : p.deleted > 0) :
    Overlaid defs [p] (defs.eraseIdx i) := by
  constructor
  · exact hdefs.sublist (List.eraseIdx_sublist ..)
  · intro d hd
    obtain ⟨j, hj, hji, rfl⟩ := List.mem_eraseIdx_iff_getElem.mp hd
    exact Or.inl ⟨List.getElem_mem hj, by simpa using confName_ne hdefs hi hname hj hji⟩
  · intro d hd hne
    obtain ⟨j, hj, rfl⟩ := List.mem_iff_getElem.mp hd
    refine List.mem_eraseIdx_iff_getElem.mpr ⟨j, hj, ?_, rfl⟩
    rintro rfl
    exact hne p (List.mem_singleton_self p) hname
  · intro q hq hq'
    obtain rfl := List.mem_singleton.mp hq
    omega

/-- The override comes in its place. -/
theorem overlaid_set (hdefs : DistinctNames defs) {i : ℕ} (hi : i < defs.length)
    (hname : defs[i].confName = p.confName) (hdel : p.deleted ≤ 0) (createFrom : String) :
    Overlaid defs [p] (defs.set i { p with id := 0, createFrom := createFrom }) := by
  constructor
  · refine List.pairwise_iff_getElem.mpr ?_
    intro j k hj hk hjk
    rw [List.length_set] at hj hk
    rw [List.getElem_set, List.getElem_set]
    split
    case isTrue hij =>
      rw [if_neg (by omega)]
      exact (confName_ne hdefs hi hname hk (by omega)).symm
    case isFalse hij =>
      split
      case isTrue hik => exact confName_ne hdefs hi hname hj (Ne.symm hij)
      case isFalse hik => exact List.pairwise_iff_getElem.mp hdefs j k hj hk hjk
  · intro d hd
    obtain ⟨j, hj, rfl⟩ := List.mem_iff_getElem.mp hd
    rw [List.length_set] at hj
    rw [List.getElem_set]
    split
    case isTrue hij => exact Or.inr ⟨p, List.mem_singleton_self p, hdel, _, rfl⟩
    case isFalse hij =>
      exact Or.inl ⟨List.getElem_mem hj, by simpa using confName_ne hdefs hi hname hj (Ne.symm hij)⟩
  · intro d hd hne
    obtain ⟨j, hj, rfl⟩ := List.mem_iff_getElem.mp hd
    have hij : i ≠ j := by
      rintro rfl
      exact hne p (List.mem_singleton_self p) hname
    refine List.mem_iff_getElem.mpr ⟨j, by rwa [List.length_set], ?_⟩
    rw [List.getElem_set_ne hij]
  · intro q hq hq'
    obtain rfl := List.mem_singleton.mp hq
    exact ⟨_, List.mem_set hi _, _, rfl⟩

/-- One override. -/
theorem overlay_one (hdefs : DistinctNames defs) : Overlaid defs [p] (overlay defs p) := by
  cases hidx : defs.findIdx? (fun d => decide (d.confName = p.confName)) with
  | none =>
    refine overlay_new hdefs ?_
    intro d hd
    exact of_decide_eq_false (List.findIdx?_eq_none_iff.mp hidx d hd)
  | some i =>
    obtain ⟨hi, hname, -⟩ := List.findIdx?_eq_some_iff_getElem.mp hidx
    rw [overlay, hidx]
    dsimp only
    split
    case isTrue hdel => exact overlaid_erase hdefs hi (of_decide_eq_true hname) hdel
    case isFalse hdel =>
      exact overlaid_set hdefs hi (of_decide_eq_true hname) (Int.not_lt.mp hdel) "def"

/-- All overrides, each of another name. -/
theorem mergeConfNamePlat_overlaid (hdefs : DistinctNames defs) (hplats : DistinctNames plats) :
    Overlaid defs plats (mergeConfNamePlat defs plats) := by
  induction plats generalizing defs with
  | nil => exact ⟨hdefs, fun d hd => Or.inl ⟨hd, by simp⟩, fun d hd _ => hd, by simp⟩
  | cons p plats ih =>
    obtain ⟨hp, hplats⟩ := List.pairwise_cons.mp hplats
    have hone : Overlaid defs [p] (overlay defs p) := overlay_one hdefs
    have hrest := ih hone.distinct hplats
    constructor
    · exact hrest.distinct
    · intro d hd
      rcases hrest.origin d hd with ⟨hd', hne⟩ | ⟨q, hq, hdel, hstored⟩
      · rcases hone.origin d hd' with ⟨hd'', hne'⟩ | ⟨q, hq, hdel, hstored⟩
        · refine Or.inl ⟨hd'', ?_⟩
          rintro q (_ | ⟨_, hq⟩)
          · exact hne' p (List.mem_singleton_self p)
          · exact hne q hq
        · obtain rfl := List.mem_singleton.mp hq
          exact Or.inr ⟨q, List.mem_cons_self, hdel, hstored⟩
      · exact Or.inr ⟨q, List.mem_cons_of_mem _ hq, hdel, hstored⟩
    · intro d hd hne
      refine hrest.keeps d (hone.keeps d hd ?_) fun q hq => hne q (List.mem_cons_of_mem _ hq)
      intro q hq
      obtain rfl := List.mem_singleton.mp hq
      exact hne q List.mem_cons_self
    · rintro q (_ | ⟨_, hq⟩) hdel
      · obtain ⟨d, hd, hstored⟩ := hone.enters p (List.mem_singleton_self p) hdel
        refine ⟨d, hrest.keeps d hd ?_, hstored⟩
        intro q hq
        rw [hstored.confName]
        exact hp q hq
      · exact hrest.enters q hq hdel

end Config
