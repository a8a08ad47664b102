import BluekingDbm.Library.Ranging
import Mathlib.Data.List.AList
import Mathlib.Data.List.MinMax

/-! Which configuration of its flows a ticket gets for each cluster. The rows are loaded as objects, some
of them more than once, and the ones that are returned have been changed in place. -/
namespace Ticket

/-- The values of a configuration are JSON, `none` being null. -/
structure TicketFlowsConfig (V : Type) where
  id : ℕ
  bkBizId : ℕ
  clusterIds : List ℕ
  clusterTags : List (Option String × Option String)
  ticketType : String
  configs : AList fun _ : String => Option V
  updateAt : ℕ

def platBizId : ℕ := 0

def clusterTagWildcardValue : String := "任意值"

def needManualConfirm : String := "need_manual_confirm"

variable {V : Type}

/-- `configs.get`. -/
def TicketFlowsConfig.get (config : TicketFlowsConfig V) (key : String) : Option V :=
  (config.configs.lookup key).join

/-- The pairs of key and value of a tag configuration, without those that lack one. -/
def TicketFlowsConfig.tagCfgRules (config : TicketFlowsConfig V) : List (String × String) :=
  config.clusterTags.filterMap fun
    | (some tagKey, some tagValue) => some (tagKey, tagValue)
    | _ => none

def valuesOf (tags : List (String × String)) (key : String) : List String :=
  (tags.filter fun tag => decide (tag.1 = key)).map Prod.snd

/-- Every key must match, by one of its values or, with the wildcard, by any value. -/
def matchTagRules (clusterTags tagCfgRules : List (String × String)) : Bool :=
  (tagCfgRules.map Prod.fst).all fun tagKey =>
    let tagValues := valuesOf tagCfgRules tagKey
    let clusterTagValues := valuesOf clusterTags tagKey
    decide (clusterTagWildcardValue ∈ tagValues) && decide (clusterTagValues ≠ []) ||
      clusterTagValues.any fun value => decide (value ∈ tagValues)

/-- What the queries return: each row is an object of its own in each result. -/
structure Queried (V : Type) where
  globalCfg : TicketFlowsConfig V
  bizCfg : Option (TicketFlowsConfig V)
  clusterConfigs : List (TicketFlowsConfig V)
  tagConfigs : List (TicketFlowsConfig V)

/-- The objects. -/
inductive Loaded
  | globalCfg
  | bizCfg
  | clusterCfg (i : ℕ)
  | tagCfg (i : ℕ)
deriving DecidableEq

abbrev Objects (V : Type) := Loaded → TicketFlowsConfig V

def withGlobalManualConfirm (objects : Objects V) (config : Loaded) : Objects V :=
  Function.update objects config { objects config with
    configs := (objects config).configs.insert needManualConfirm
      ((objects .globalCfg).get needManualConfirm) }

namespace Queried

variable (q : Queried V) (tags : ℕ → List (String × String))

def objects : Objects V
  | .globalCfg => q.globalCfg
  | .bizCfg => q.bizCfg.getD q.globalCfg
  | .clusterCfg i => q.clusterConfigs.getD i q.globalCfg
  | .tagCfg i => q.tagConfigs.getD i q.globalCfg

def getMatchedTagCfg (clusterId : ℕ) : Option ℕ :=
  q.tagConfigs.findIdx? fun tagCfg =>
    decide (tagCfg.tagCfgRules ≠ []) && matchTagRules (tags clusterId) tagCfg.tagCfgRules

def getMatchedClusterCfg (clusterId : ℕ) : Option ℕ :=
  q.clusterConfigs.findIdx? fun clusterCfg => decide (clusterId ∈ clusterCfg.clusterIds)

/-- Without a default of its own a business has that of the platform. -/
def default : Loaded := if q.bizCfg.isSome then .bizCfg else .globalCfg

def matched (clusterId : ℕ) : Loaded :=
  match q.getMatchedClusterCfg clusterId with
  | some i => .clusterCfg i
  | none =>
    match q.getMatchedTagCfg tags clusterId with
    | some i => .tagCfg i
    | none => q.default

/-- The loop over the clusters, with the objects as it leaves them. -/
def resolve (objects : Objects V) : List ℕ → Objects V × List Loaded
  | [] => (objects, [])
  | clusterId :: clusterIds =>
    let matchedCfg := q.matched tags clusterId
    let (objects, configs) := resolve (withGlobalManualConfirm objects matchedCfg) clusterIds
    (objects, matchedCfg :: configs)

def clusterConfigsOf (clusterIds : List ℕ) : List (TicketFlowsConfig V) :=
  if clusterIds = [] then [withGlobalManualConfirm q.objects q.default q.default]
  else
    let (objects, configs) := q.resolve tags q.objects clusterIds
    configs.map objects

end Queried

/-- A row for neither clusters nor tags. -/
def ForAll (row : TicketFlowsConfig V) : Prop := row.clusterIds = [] ∧ row.clusterTags = []

instance (row : TicketFlowsConfig V) : Decidable (ForAll row) := inferInstanceAs (Decidable (_ ∧ _))

/-- In what order rows of the same time come, in either query. -/
structure Ties (V : Type) where
  clusterOrder : RangeOrder (TicketFlowsConfig V)
  tagOrder : RangeOrder (TicketFlowsConfig V)

def updatedLater (a b : TicketFlowsConfig V) : Bool := decide (b.updateAt < a.updateAt)

section Query

variable (o : Ties V) (rows : List (TicketFlowsConfig V)) (tags : ℕ → List (String × String))
  (ticketType : String) (bkBizId : ℕ)

def bizConfigs : List (TicketFlowsConfig V) :=
  rows.filter fun row => decide (row.bkBizId = bkBizId ∧ row.ticketType = ticketType)

/-- The default of a business is the first by primary key. The query for the platform's row fails unless
there is exactly one. -/
def query : Option (Queried V) :=
  let configs := bizConfigs rows ticketType bkBizId
  match bizConfigs rows ticketType platBizId with
  | [globalCfg] => some {
      globalCfg
      bizCfg := (configs.filter fun row => decide (ForAll row)).argmin TicketFlowsConfig.id
      clusterConfigs := o.clusterOrder.sortSlice updatedLater
        (configs.filter fun row => decide (row.clusterIds ≠ []))
      tagConfigs := o.tagOrder.sortSlice updatedLater
        (configs.filter fun row => decide (row.clusterTags ≠ [])) }
  | _ => none

def getClusterConfigs (clusterIds : List ℕ) : Option (List (TicketFlowsConfig V)) :=
  (query o rows ticketType bkBizId).map fun q => q.clusterConfigsOf tags clusterIds

end Query

section Precedence

variable (globalCfg : TicketFlowsConfig V) (rows : List (TicketFlowsConfig V))

/-- None of the rows with the property is newer. -/
def Newest (Fits : TicketFlowsConfig V → Prop) (row : TicketFlowsConfig V) : Prop :=
  row ∈ rows ∧ Fits row ∧ ∀ other ∈ rows, Fits other → other.updateAt ≤ row.updateAt

def Names (clusterId : ℕ) (row : TicketFlowsConfig V) : Prop := clusterId ∈ row.clusterIds

/-- The row has a rule, and for every key one of the values is among the cluster's, or the wildcard is
one of them and the cluster has any value. -/
def TagsMatch (clusterTags : List (String × String)) (row : TicketFlowsConfig V) : Prop :=
  row.tagCfgRules ≠ [] ∧ ∀ key value, (key, value) ∈ row.tagCfgRules →
    ((key, clusterTagWildcardValue) ∈ row.tagCfgRules ∧ ∃ held, (key, held) ∈ clusterTags) ∨
      ∃ held, (key, held) ∈ clusterTags ∧ (key, held) ∈ row.tagCfgRules

/-- The default of the business, the first if there are more, or that of the platform. -/
inductive Default : TicketFlowsConfig V → Prop
  | biz {row : TicketFlowsConfig V} : row ∈ rows → ForAll row →
      (∀ other ∈ rows, ForAll other → row.id ≤ other.id) → Default row
  | platform : (∀ row ∈ rows, ¬ ForAll row) → Default globalCfg

/-- The row whose settings a cluster gets. -/
inductive Effective (clusterTags : List (String × String)) (clusterId : ℕ) :
    TicketFlowsConfig V → Prop
  | cluster {row : TicketFlowsConfig V} : Newest rows (Names clusterId) row →
      Effective clusterTags clusterId row
  | tag {row : TicketFlowsConfig V} : (∀ other ∈ rows, ¬ Names clusterId other) →
      Newest rows (TagsMatch clusterTags) row → Effective clusterTags clusterId row
  | default {row : TicketFlowsConfig V} : (∀ other ∈ rows, ¬ Names clusterId other) →
      (∀ other ∈ rows, ¬ TagsMatch clusterTags other) → Default globalCfg rows row →
        Effective clusterTags clusterId row

/-- The settings are the row's, but for the manual confirmation, which is the platform's. -/
structure Confirmed (row config : TicketFlowsConfig V) : Prop where
  id : config.id = row.id
  settings : ∀ key, key ≠ needManualConfirm → config.configs.lookup key = row.configs.lookup key
  manual : config.get needManualConfirm = globalCfg.get needManualConfirm

end Precedence

section Changing

variable {q : Queried V} {tags : ℕ → List (String × String)} {objects : Objects V} {ref : Loaded}
  {clusterIds : List ℕ}

/-- An object with the manual confirmation of the platform. -/
def confirmed (q : Queried V) (ref : Loaded) : TicketFlowsConfig V :=
  { q.objects ref with
    configs := (q.objects ref).configs.insert needManualConfirm (q.globalCfg.get needManualConfirm) }

/-- Each object is as it was loaded or has been changed once. -/
def Unspoiled (q : Queried V) (objects : Objects V) : Prop :=
  ∀ ref, objects ref = q.objects ref ∨ objects ref = confirmed q ref

theorem get_insert_manual (config : TicketFlowsConfig V) (value : Option V) :
    TicketFlowsConfig.get { config with configs := config.configs.insert needManualConfirm value }
      needManualConfirm = value := by
  rw [TicketFlowsConfig.get, AList.lookup_insert]
  rfl

theorem Unspoiled.manual (h : Unspoiled q objects) :
    (objects .globalCfg).get needManualConfirm = q.globalCfg.get needManualConfirm := by
  rcases h .globalCfg with hloaded | hchanged
  · rw [hloaded]
    rfl
  · rw [hchanged]
    exact get_insert_manual _ _

/-- A change leads to the same object however often it is made. -/
theorem Unspoiled.change (h : Unspoiled q objects) :
    withGlobalManualConfirm objects ref = Function.update objects ref (confirmed q ref) := by
  rw [withGlobalManualConfirm, h.manual]
  rcases h ref with hloaded | hchanged
  · rw [hloaded]
    rfl
  · rw [hchanged, confirmed]
    dsimp only
    rw [AList.insert_insert]

theorem Unspoiled.withGlobalManualConfirm (h : Unspoiled q objects) (ref : Loaded) :
    Unspoiled q (withGlobalManualConfirm objects ref) := by
  intro other
  rw [h.change]
  rcases eq_or_ne other ref with rfl | hne
  · exact Or.inr (Function.update_self ..)
  · rw [Function.update_of_ne hne]
    exact h other

/-- The loop changes every object that it returns, and spoils none. -/
theorem resolve_objects (h : Unspoiled q objects) :
    Unspoiled q (q.resolve tags objects clusterIds).1 ∧
      (∀ ref, objects ref = confirmed q ref →
        (q.resolve tags objects clusterIds).1 ref = confirmed q ref) ∧
      (q.resolve tags objects clusterIds).2 = clusterIds.map (q.matched tags) ∧
      ∀ ref ∈ clusterIds.map (q.matched tags),
        (q.resolve tags objects clusterIds).1 ref = confirmed q ref := by
  induction clusterIds generalizing objects with
  | nil => exact ⟨h, fun _ hchanged => hchanged, rfl, fun _ href => absurd href List.not_mem_nil⟩
  | cons clusterId clusterIds ih =>
    obtain ⟨hunspoiled, hkeeps, hrefs, hconfirmed⟩ :=
      ih (h.withGlobalManualConfirm (q.matched tags clusterId))
    rw [Queried.resolve]
    dsimp only
    refine ⟨hunspoiled, fun ref hchanged => hkeeps ref ?_, congrArg _ hrefs, ?_⟩
    · rw [h.change]
      rcases eq_or_ne ref (q.matched tags clusterId) with rfl | hne
      · exact Function.update_self ..
      · rw [Function.update_of_ne hne]
        exact hchanged
    · refine List.forall_mem_cons.mpr ⟨hkeeps _ ?_, hconfirmed⟩
      rw [h.change]
      exact Function.update_self ..

theorem unspoiled_objects : Unspoiled q q.objects := fun _ => Or.inl rfl

theorem clusterConfigsOf_cons (hne : clusterIds ≠ []) : q.clusterConfigsOf tags clusterIds =
    clusterIds.map fun clusterId => confirmed q (q.matched tags clusterId) := by
  obtain ⟨-, -, hrefs, hconfirmed⟩ := @resolve_objects V q tags q.objects clusterIds unspoiled_objects
  rw [Queried.clusterConfigsOf, if_neg hne]
  dsimp only
  rw [hrefs, List.map_congr_left hconfirmed, List.map_map]
  rfl

theorem clusterConfigsOf_nil : q.clusterConfigsOf tags [] = [confirmed q q.default] := by
  rw [Queried.clusterConfigsOf, if_pos rfl, unspoiled_objects.change, Function.update_self]

theorem confirmed_confirmed : Confirmed q.globalCfg (q.objects ref) (confirmed q ref) := by
  refine ⟨rfl, fun key hkey => ?_, get_insert_manual _ _⟩
  exact AList.lookup_insert_ne hkey

end Changing

section Matching

variable {rows : List (TicketFlowsConfig V)} {o : RangeOrder (TicketFlowsConfig V)}
  {row : TicketFlowsConfig V} {clusterTags rules : List (String × String)} {value key : String}
  {test : TicketFlowsConfig V → Bool} {Fits : TicketFlowsConfig V → Prop} {i : ℕ}

theorem mem_valuesOf : value ∈ valuesOf rules key ↔ (key, value) ∈ rules := by
  unfold valuesOf
  constructor
  · intro hmem
    obtain ⟨⟨key', value'⟩, htag, rfl⟩ := List.mem_map.mp hmem
    obtain ⟨hrule, hkey⟩ := List.mem_filter.mp htag
    have heq : key' = key := of_decide_eq_true hkey
    rw [← heq]
    exact hrule
  · intro hmem
    exact List.mem_map.mpr ⟨_, List.mem_filter.mpr ⟨hmem, decide_eq_true rfl⟩, rfl⟩

theorem tagsMatch_iff : TagsMatch clusterTags row ↔
    (decide (row.tagCfgRules ≠ []) && matchTagRules clusterTags row.tagCfgRules) = true := by
  rw [Bool.and_eq_true, decide_eq_true_iff, matchTagRules, List.all_eq_true]
  refine and_congr Iff.rfl ?_
  have hone : ∀ key, (decide (clusterTagWildcardValue ∈ valuesOf row.tagCfgRules key) &&
      decide (valuesOf clusterTags key ≠ []) ||
        (valuesOf clusterTags key).any fun value => decide (value ∈ valuesOf row.tagCfgRules key)) = true ↔
      ((key, clusterTagWildcardValue) ∈ row.tagCfgRules ∧ ∃ held, (key, held) ∈ clusterTags) ∨
        ∃ held, (key, held) ∈ clusterTags ∧ (key, held) ∈ row.tagCfgRules := by
    intro key
    have hheld : valuesOf clusterTags key ≠ [] ↔ ∃ held, (key, held) ∈ clusterTags := by
      constructor
      · intro hne
        obtain ⟨held, hheld⟩ := List.exists_mem_of_ne_nil _ hne
        exact ⟨held, mem_valuesOf.mp hheld⟩
      · rintro ⟨held, hheld⟩
        exact List.ne_nil_of_mem (mem_valuesOf.mpr hheld)
    simp only [Bool.or_eq_true, Bool.and_eq_true, decide_eq_true_iff, List.any_eq_true, mem_valuesOf,
      hheld]
  constructor
  · intro h key hkey
    obtain ⟨⟨key', value⟩, hrule, rfl⟩ := List.mem_map.mp hkey
    exact (hone key').mpr (h key' value hrule)
  · intro h key value hrule
    exact (hone key).mp (h key (List.mem_map.mpr ⟨_, hrule, rfl⟩))

theorem pairwise_updated : (o.sortSlice updatedLater rows).Pairwise fun a b =>
    b.updateAt ≤ a.updateAt := by
  refine List.Pairwise.imp ?_ (o.pairwise_sortSlice ?_ ?_)
  · intro a b hab
    exact not_lt.mp (of_decide_eq_false hab)
  · intro a b c hab hbc
    have hab := of_decide_eq_false hab
    have hbc := of_decide_eq_false hbc
    exact decide_eq_false (by omega)
  · intro a b
    rcases Nat.le_total a.updateAt b.updateAt with hle | hle
    · exact Or.inr (decide_eq_false (by omega))
    · exact Or.inl (decide_eq_false (by omega))

/-- The first that fits in a list from newest to oldest is the newest that does. -/
theorem newest_of_findIdx? {l : List (TicketFlowsConfig V)}
    (hsorted : l.Pairwise fun a b => b.updateAt ≤ a.updateAt)
    (htest : ∀ row ∈ l, test row = true ↔ Fits row) (fallback : TicketFlowsConfig V)
    (h : l.findIdx? test = some i) : Newest l Fits (l.getD i fallback) := by
  induction l generalizing i with
  | nil => cases h
  | cons first l ih =>
    obtain ⟨hfirst, hrest⟩ := List.pairwise_cons.mp hsorted
    obtain ⟨htestFirst, htestRest⟩ := List.forall_mem_cons.mp htest
    rw [List.findIdx?_cons] at h
    split at h
    case isTrue hfits =>
      cases h
      refine ⟨List.mem_cons_self, htestFirst.mp hfits, ?_⟩
      refine List.forall_mem_cons.mpr ⟨fun _ => Nat.le_refl _, fun other hother _ => hfirst other hother⟩
    case isFalse hunfit =>
      obtain ⟨j, hj, rfl⟩ := Option.map_eq_some_iff.mp h
      obtain ⟨hmem, hfits, hnewest⟩ := ih hrest htestRest hj
      refine ⟨List.mem_cons_of_mem _ hmem, hfits, List.forall_mem_cons.mpr ⟨fun hfirstFits => ?_, hnewest⟩⟩
      exact absurd (htestFirst.mpr hfirstFits) hunfit

/-- The rows that are left out of a query do not fit. -/
theorem newest_query {test' : TicketFlowsConfig V → Bool}
    (htest : ∀ row, test row = true ↔ Fits row) (hkept : ∀ row, Fits row → test' row = true)
    (fallback : TicketFlowsConfig V)
    (h : (o.sortSlice updatedLater (rows.filter test')).findIdx? test = some i) :
    Newest rows Fits ((o.sortSlice updatedLater (rows.filter test')).getD i fallback) := by
  obtain ⟨hmem, hfits, hnewest⟩ := newest_of_findIdx? pairwise_updated
    (fun row _ => htest row) fallback h
  have hrow := (o.mem_sortSlice).mp hmem
  refine ⟨(List.mem_filter.mp hrow).1, hfits, fun other hother hfitsOther => hnewest other ?_ hfitsOther⟩
  exact (o.mem_sortSlice).mpr (List.mem_filter.mpr ⟨hother, hkept other hfitsOther⟩)

theorem none_query {test' : TicketFlowsConfig V → Bool}
    (htest : ∀ row, test row = true ↔ Fits row) (hkept : ∀ row, Fits row → test' row = true)
    (h : (o.sortSlice updatedLater (rows.filter test')).findIdx? test = none) :
    ∀ other ∈ rows, ¬ Fits other := by
  intro other hother hfits
  have hmem : other ∈ o.sortSlice updatedLater (rows.filter test') :=
    (o.mem_sortSlice).mpr (List.mem_filter.mpr ⟨hother, hkept other hfits⟩)
  have hnone := List.findIdx?_eq_none_iff.mp h other hmem
  rw [(htest other).mpr hfits] at hnone
  cases hnone

end Matching

section Result

variable {o : Ties V} {rows : List (TicketFlowsConfig V)} {tags : ℕ → List (String × String)}
  {ticketType : String} {bkBizId : ℕ} {globalCfg : TicketFlowsConfig V} {q : Queried V}

/-- What the queries bring. -/
theorem query_cases (hplat : bizConfigs rows ticketType platBizId = [globalCfg]) :
    ∃ q, query o rows ticketType bkBizId = some q ∧ q.globalCfg = globalCfg ∧
      q.bizCfg = ((bizConfigs rows ticketType bkBizId).filter fun row =>
        decide (ForAll row)).argmin TicketFlowsConfig.id ∧
      q.clusterConfigs = o.clusterOrder.sortSlice updatedLater
        ((bizConfigs rows ticketType bkBizId).filter fun row => decide (row.clusterIds ≠ [])) ∧
      q.tagConfigs = o.tagOrder.sortSlice updatedLater
        ((bizConfigs rows ticketType bkBizId).filter fun row => decide (row.clusterTags ≠ [])) := by
  unfold query
  dsimp only
  rw [hplat]
  exact ⟨_, rfl, rfl, rfl, rfl, rfl⟩

variable {configs : List (TicketFlowsConfig V)}

theorem default_effective (hbiz : q.bizCfg = (configs.filter fun row =>
      decide (ForAll row)).argmin TicketFlowsConfig.id) :
    Default q.globalCfg configs (q.objects q.default) := by
  unfold Queried.default
  cases hcase : q.bizCfg with
  | none =>
    have hempty := List.argmin_eq_none.mp (hbiz.symm.trans hcase)
    refine .platform fun row hrow hforAll => ?_
    have hmem : row ∈ configs.filter fun row => decide (ForAll row) :=
      List.mem_filter.mpr ⟨hrow, decide_eq_true hforAll⟩
    rw [hempty] at hmem
    exact absurd hmem List.not_mem_nil
  | some row =>
    have hfirst := hbiz.symm.trans hcase
    obtain ⟨hmem, hforAll⟩ := List.mem_filter.mp (List.argmin_mem hfirst)
    have hobject : q.objects .bizCfg = row := by
      rw [Queried.objects, hcase]
      rfl
    rw [Option.isSome_some, if_pos rfl, hobject]
    refine .biz hmem (of_decide_eq_true hforAll) fun other hother hforAllOther => ?_
    exact List.le_of_mem_argmin (List.mem_filter.mpr ⟨hother, decide_eq_true hforAllOther⟩) hfirst

theorem tagCfgRules_nil {row : TicketFlowsConfig V} (h : row.tagCfgRules ≠ []) : row.clusterTags ≠ [] := by
  intro hnil
  rw [TicketFlowsConfig.tagCfgRules, hnil] at h
  exact h rfl

/-- A cluster is matched with the row whose settings it is to get. -/
theorem matched_effective (hbiz : q.bizCfg = (configs.filter fun row =>
      decide (ForAll row)).argmin TicketFlowsConfig.id)
    (hcluster : q.clusterConfigs = o.clusterOrder.sortSlice updatedLater
      (configs.filter fun row => decide (row.clusterIds ≠ [])))
    (htag : q.tagConfigs = o.tagOrder.sortSlice updatedLater
      (configs.filter fun row => decide (row.clusterTags ≠ []))) (clusterId : ℕ) :
    Effective q.globalCfg configs (tags clusterId) clusterId
      (q.objects (q.matched tags clusterId)) := by
  have hnames : ∀ row : TicketFlowsConfig V,
      decide (clusterId ∈ row.clusterIds) = true ↔ Names clusterId row := fun row => decide_eq_true_iff
  have hnamed : ∀ row : TicketFlowsConfig V, Names clusterId row →
      decide (row.clusterIds ≠ []) = true := fun row hrow => decide_eq_true (List.ne_nil_of_mem hrow)
  have htagged : ∀ row : TicketFlowsConfig V, TagsMatch (tags clusterId) row →
      decide (row.clusterTags ≠ []) = true := fun row hrow => decide_eq_true (tagCfgRules_nil hrow.1)
  unfold Queried.matched
  split
  case h_1 i hi =>
    rw [Queried.getMatchedClusterCfg, hcluster] at hi
    rw [Queried.objects, hcluster]
    exact .cluster (newest_query hnames hnamed q.globalCfg hi)
  case h_2 hnone =>
    rw [Queried.getMatchedClusterCfg, hcluster] at hnone
    have hunnamed := none_query hnames hnamed hnone
    split
    case h_1 i hi =>
      rw [Queried.getMatchedTagCfg, htag] at hi
      rw [Queried.objects, htag]
      exact .tag hunnamed (newest_query (fun row => tagsMatch_iff.symm) htagged q.globalCfg hi)
    case h_2 huntagged =>
      rw [Queried.getMatchedTagCfg, htag] at huntagged
      exact .default hunnamed (none_query (fun row => tagsMatch_iff.symm) htagged huntagged)
        (default_effective hbiz)

variable (o rows tags ticketType bkBizId) in
/-- Each cluster, in order, gets the settings of the row that is first in precedence, and a ticket
without clusters gets one default; the manual confirmation is the platform's. -/
theorem getClusterConfigs_effective (hplat : bizConfigs rows ticketType platBizId = [globalCfg])
    (clusterIds : List ℕ) :
    ∃ configs, getClusterConfigs o rows tags ticketType bkBizId clusterIds = some configs ∧
      (clusterIds ≠ [] → List.Forall₂ (fun clusterId config => ∃ row,
        Effective globalCfg (bizConfigs rows ticketType bkBizId) (tags clusterId) clusterId row ∧
          Confirmed globalCfg row config) clusterIds configs) ∧
      (clusterIds = [] → ∃ config row, configs = [config] ∧
        Default globalCfg (bizConfigs rows ticketType bkBizId) row ∧
          Confirmed globalCfg row config) := by
  obtain ⟨q, hq, rfl, hbiz, hcluster, htag⟩ := @query_cases V o rows ticketType bkBizId _ hplat
  refine ⟨q.clusterConfigsOf tags clusterIds, ?_, fun hne => ?_, ?_⟩
  · rw [getClusterConfigs, hq]
    rfl
  · rw [clusterConfigsOf_cons hne, List.forall₂_map_right_iff, List.forall₂_same]
    intro clusterId _
    exact ⟨_, matched_effective hbiz hcluster htag clusterId, confirmed_confirmed⟩
  · rintro rfl
    exact ⟨_, _, clusterConfigsOf_nil, default_effective hbiz, confirmed_confirmed⟩

def platformRow : TicketFlowsConfig Bool :=
  ⟨1, 0, [], [], "MYSQL_HA_APPLY",
    AList.insert "need_itsm" (some true) (AList.insert needManualConfirm (some true) ∅), 10⟩

/-- The configuration of a business for one of its clusters, without any confirmation. -/
def clusterRow : TicketFlowsConfig Bool :=
  ⟨2, 3, [7], [], "MYSQL_HA_APPLY",
    AList.insert "need_itsm" (some false) (AList.insert needManualConfirm (some false) ∅), 20⟩

def noTies : Ties Bool := ⟨.still, .still⟩

theorem getClusterConfigs_effective_pair : ∃ configs,
    getClusterConfigs noTies [platformRow, clusterRow] (fun _ => []) "MYSQL_HA_APPLY" 3 [7, 8] =
        some configs ∧
      ([7, 8] ≠ [] → List.Forall₂ (fun clusterId config => ∃ row,
        Effective platformRow (bizConfigs [platformRow, clusterRow] "MYSQL_HA_APPLY" 3) [] clusterId
            row ∧
          Confirmed platformRow row config) [7, 8] configs) ∧
      ([7, 8] = [] → ∃ config row, configs = [config] ∧
        Default platformRow (bizConfigs [platformRow, clusterRow] "MYSQL_HA_APPLY" 3) row ∧
          Confirmed platformRow row config) :=
  getClusterConfigs_effective noTies [platformRow, clusterRow] (fun _ => []) "MYSQL_HA_APPLY" 3 rfl
    [7, 8]

/-- No cluster, and yet a configuration. -/
theorem config_without_cluster : ¬ ∃ configs,
    getClusterConfigs noTies [platformRow, clusterRow] (fun _ => []) "MYSQL_HA_APPLY" 3 [] =
        some configs ∧
      List.Forall₂ (fun clusterId config => ∃ row,
        Effective platformRow (bizConfigs [platformRow, clusterRow] "MYSQL_HA_APPLY" 3) [] clusterId
            row ∧
          Confirmed platformRow row config) [] configs := by
  rintro ⟨configs, hconfigs, hnone⟩
  cases hnone
  cases hconfigs

end Result

end Ticket
