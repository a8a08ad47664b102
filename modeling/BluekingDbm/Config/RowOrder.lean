import BluekingDbm.Config.Effective
import BluekingDbm.Library.Contest

/-! The merge as a contest between the rows of each name, and when its outcome does not depend on the
order in which the rows were read. -/
namespace Config

open Contest

/-- The level of the row is known, and below that of the other. -/
def Beats (a b : ConfigModel) : Prop :=
  ∃ p q, configLevel a.levelName = some p ∧ configLevel b.levelName = some q ∧ q < p

/-- The merge gives the same rows, or fails, for every order of the rows and of the map. -/
def OrderFree (view : String) (l : List ConfigModel) : Prop :=
  ∀ l' r r', l.Perm l' → Agree (mergeConfig r l view) (mergeConfig r' l' view)

variable {view : String} {a b c : ConfigModel} {l l' : List ConfigModel}

theorem Beats.trans (hab : Beats a b) (hbc : Beats b c) : Beats a c := by
  obtain ⟨p, q, ha, hb, hlt⟩ := hab
  obtain ⟨q', r, hb', hc, hlt'⟩ := hbc
  obtain rfl : q = q' := Option.some.inj (hb.symm.trans hb')
  exact ⟨p, r, ha, hc, by omega⟩

theorem Beats.irrefl (a : ConfigModel) : ¬ Beats a a := by
  rintro ⟨p, q, hp, hq, hlt⟩
  obtain rfl : p = q := Option.some.inj (hp.symm.trans hq)
  omega

theorem configLevelCompare_clash (hab : ¬ Beats a b) (hba : ¬ Beats b a) :
    ∃ e, configLevelCompare a b = .error e := by
  unfold configLevelCompare
  cases ha : configLevel a.levelName with
  | none => exact ⟨_, rfl⟩
  | some p =>
    cases hb : configLevel b.levelName with
    | none => exact ⟨_, rfl⟩
    | some q =>
      have hpq : ¬ q < p := fun h => hab ⟨p, q, ha, hb, h⟩
      have hqp : ¬ p < q := fun h => hba ⟨q, p, hb, ha, h⟩
      simp only [gt_iff_lt]
      rw [if_neg hpq, if_neg hqp]
      exact ⟨_, rfl⟩

theorem configKey_mergeView (hview : "merge".toList <+: view.toList) :
    configKey view a = .ok (mergeKey a) :=
  @configKey_merge ⟨"", [], false, view⟩ ⟨hview, rfl, rfl⟩ a

theorem mergeOne_judges (hview : "merge".toList <+: view.toList) :
    Judges mergeKey Beats (mergeOne view) where
  irrefl := Beats.irrefl
  trans a b c hab hbc := hab.trans hbc
  fresh m a hnone := by
    rw [mergeOne, configKey_mergeView hview]
    simp only [bind, Except.bind, hnone]
    rfl
  wins m a b hsome _ hbeats := by
    obtain ⟨p, q, hp, hq, hlt⟩ := hbeats
    rw [mergeOne, configKey_mergeView hview]
    simp only [bind, Except.bind, hsome, configLevelCompare_gt hp hq hlt]
    rfl
  loses m a b hsome _ hbeats := by
    obtain ⟨q, p, hq, hp, hlt⟩ := hbeats
    rw [mergeOne, configKey_mergeView hview]
    simp only [bind, Except.bind, hsome, configLevelCompare_lt hp hq hlt]
    rfl
  clashes m a b hsome _ hab hba := by
    obtain ⟨e, he⟩ := configLevelCompare_clash hab hba
    refine ⟨e, ?_⟩
    rw [mergeOne, configKey_mergeView hview]
    simp only [bind, Except.bind, hsome, he]

theorem agree_mergeConfig {r r' : RangeOrder ConfigModel} :
    Agree (mergeConfig r l view) (mergeConfig r' l' view) ↔
      Agree ((l.foldlM (mergeOne view) ∅).map Table.values)
        ((l'.foldlM (mergeOne view) ∅).map Table.values) := by
  unfold mergeConfig
  cases l.foldlM (mergeOne view) ∅ with
  | error e =>
    cases l'.foldlM (mergeOne view) ∅ with
    | error e' => exact Iff.rfl
    | ok m' => exact Iff.rfl
  | ok m =>
    cases l'.foldlM (mergeOne view) ∅ with
    | error e' => exact Iff.rfl
    | ok m' => exact forall_congr' fun c => iff_congr r.mem_order r'.mem_order

/-- The order of the rows does not matter exactly where, if each name has a row above all its others, no
two rows of one name have the same level. -/
theorem mergeConfig_orderFree_iff (hview : "merge".toList <+: view.toList) (l : List ConfigModel) :
    OrderFree view l ↔ (Decided mergeKey Beats l → Untied mergeKey Beats l) := by
  rw [← agree_iff (mergeOne_judges hview)]
  constructor
  · intro h l' hl
    exact agree_mergeConfig.mp (h l' .still .still hl)
  · intro h l' r r' hl
    exact agree_mergeConfig.mpr (h l' hl)

/-- Two rows of the business and one of a cluster. -/
def contestedRows : List ConfigModel :=
  [notifierItem "app" "3" "ann", notifierItem "bk_biz_id" "3" "bob", notifierItem "cluster" "c1" "eve"]

theorem mergeConfig_orderFree_iff_contestedRows : OrderFree "merge" contestedRows ↔
    (Decided mergeKey Beats contestedRows → Untied mergeKey Beats contestedRows) :=
  mergeConfig_orderFree_iff (by decide) contestedRows

/-- The two rows of the business are not compared if that of the cluster comes first. -/
theorem contestedRows_not_orderFree : ¬ OrderFree "merge" contestedRows := by
  intro h
  have hagree := h contestedRows.reverse .still .still (List.reverse_perm _).symm
  have hfails : mergeConfig .still contestedRows "merge" =
      .error (.message "backup: 出现重复level_name") := by decide +kernel
  have hsucceeds : mergeConfig .still contestedRows.reverse "merge" =
      .ok [notifierItem "cluster" "c1" "eve"] := by decide +kernel
  rw [hfails, hsucceeds] at hagree
  exact hagree

end Config
