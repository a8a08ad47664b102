import BluekingDbm.Failover.Switching

/-! Binding the events of a failure group to strategies, with any special matchers, and the switch tasks
that the bound groups lead to. -/
namespace Failover

/-- The matchers that are registered for events. -/
abbrev SpecialMatch := DbEventName → Option (List Instance → ℤ → List Instance)

/-- A matcher returns events that it was given, no others. -/
def SpecialMatch.Selects (special : SpecialMatch) : Prop :=
  ∀ eventName matchFunc, special eventName = some matchFunc →
    ∀ instances threshold, ∀ i ∈ matchFunc instances threshold, i ∈ instances

def SpecialMatch.matched (special : SpecialMatch) (s : DbSwitchingStrategy) (unbound : List Instance) :
    List Instance :=
  let threshold := if s.triggerCount ≤ 0 then 1 else s.triggerCount
  match special s.triggerEventName with
  | some matchFunc => matchFunc unbound threshold
  | none => filterInstancesByEventAndCount unbound s.triggerEventName threshold

/-- The groups bound to the strategies in turn, and the events that are bound in the end. -/
def SpecialMatch.bind (special : SpecialMatch) (group : FailureGroup) :
    List DbSwitchingStrategy → List String → List FailureGroup × List String
  | [], bound => ([], bound)
  | s :: strategies, bound =>
    let unbound := filterUnboundInstances group.instances bound
    if unbound = [] then ([], bound)
    else
      let matched := special.matched s unbound
      if matched = [] then special.bind group strategies bound
      else
        let (groups, bound) := special.bind group strategies (bound ++ matched.map instanceEventKey)
        ({ group with strategy := some s, instances := matched } :: groups, bound)

def SpecialMatch.matchStrategies (special : SpecialMatch) (group : FailureGroup)
    (strategies : Option (List DbSwitchingStrategy)) : Option (List FailureGroup) :=
  if group.instances = [] then none
  else strategies.map fun strategies =>
    let (groups, bound) := special.bind group (sortCandidates strategies) []
    let unmatched := filterUnboundInstances group.instances bound
    if unmatched = [] then groups
    else groups ++ [{ group with strategy := none, instances := unmatched }]

variable {special : SpecialMatch} {group g : FailureGroup} {strategies : List DbSwitchingStrategy}
  {s : DbSwitchingStrategy} {bound : List String} {unbound : List Instance} {inst : Instance}
  {r : RangeOrder (List Instance)} {req : Request} {occupied : List String}

theorem bind_registered (strategies : List DbSwitchingStrategy) (bound : List String) :
    SpecialMatch.bind (getSpecialMatchFunc r) group strategies bound =
      bindStrategies r group strategies bound := by
  induction strategies generalizing bound with
  | nil => rfl
  | cons s strategies ih =>
    have hmatched : SpecialMatch.matched (getSpecialMatchFunc r) s = matchStrategy r s := rfl
    simp only [SpecialMatch.bind, bindStrategies, hmatched, ih]

/-- The matchers of the providers are one choice. -/
theorem matchStrategies_registered (strategies : Option (List DbSwitchingStrategy)) :
    SpecialMatch.matchStrategies (getSpecialMatchFunc r) group strategies =
      matchStrategies r group strategies := by
  simp only [SpecialMatch.matchStrategies, matchStrategies, bind_registered]

/-- The first strategy in the order that matches the event among those still unbound. -/
def SpecialMatch.firstMatch (special : SpecialMatch) :
    List DbSwitchingStrategy → List Instance → Instance → Option DbSwitchingStrategy
  | [], _, _ => none
  | s :: strategies, unbound, inst =>
    if inst ∈ special.matched s unbound then some s
    else special.firstMatch strategies
      (unbound.filter fun i => i ∉ special.matched s unbound) inst

section Binding

theorem mem_matched (hspecial : special.Selects) (h : inst ∈ special.matched s unbound) :
    inst ∈ unbound := by
  unfold SpecialMatch.matched at h
  generalize (if s.triggerCount ≤ 0 then 1 else s.triggerCount) = threshold at h
  cases hfunc : special s.triggerEventName with
  | none =>
    simp only [hfunc] at h
    exact (List.mem_filter.mp h).1
  | some matchFunc =>
    simp only [hfunc] at h
    exact hspecial _ _ hfunc _ _ _ h

/-- Binding by key is binding the events themselves, as keys are distinct. -/
theorem filterUnbound_append (hkeys : (group.instances.map instanceEventKey).Nodup)
    {matched : List Instance} (hmatched : ∀ i ∈ matched, i ∈ group.instances) :
    filterUnboundInstances group.instances (bound ++ matched.map instanceEventKey) =
      (filterUnboundInstances group.instances bound).filter fun i => i ∉ matched := by
  unfold filterUnboundInstances
  rw [List.filter_filter]
  apply List.filter_congr
  intro i hi
  have hkey : instanceEventKey i ∈ matched.map instanceEventKey ↔ i ∈ matched := by
    constructor
    · intro h
      obtain ⟨j, hj, hsame⟩ := List.mem_map.mp h
      exact List.inj_on_of_nodup_map hkeys (hmatched j hj) hi hsame ▸ hj
    · exact fun h => List.mem_map_of_mem h
  have hnone : instanceEventKey i ∉ bound ++ matched.map instanceEventKey ↔
      i ∉ matched ∧ instanceEventKey i ∉ bound := by
    rw [List.mem_append, hkey, not_or, and_comm]
  rw [decide_eq_decide.mpr hnone, Bool.decide_and]

/-- What binding the strategies from some unbound events on comes to. -/
structure Bound (special : SpecialMatch) (group : FailureGroup) (strategies : List DbSwitchingStrategy)
    (unbound : List Instance) (out : List FailureGroup × List String) : Prop where
  apart : out.1.Pairwise fun g g' => ∀ i ∈ g.instances, i ∉ g'.instances
  within : ∀ g ∈ out.1, ∀ i ∈ g.instances, i ∈ unbound ∧
    special.firstMatch strategies unbound i = g.strategy
  strategy : ∀ g ∈ out.1, g.strategy ≠ none
  complete : ∀ i ∈ unbound, special.firstMatch strategies unbound i ≠ none →
    ∃ g ∈ out.1, i ∈ g.instances
  rest : ∀ i, i ∈ filterUnboundInstances group.instances out.2 ↔
    i ∈ unbound ∧ special.firstMatch strategies unbound i = none

theorem bind_bound (hspecial : special.Selects) (hkeys : (group.instances.map instanceEventKey).Nodup)
    (strategies : List DbSwitchingStrategy) (bound : List String) :
    Bound special group strategies (filterUnboundInstances group.instances bound)
      (special.bind group strategies bound) := by
  induction strategies generalizing bound with
  | nil =>
    refine ⟨.nil, ?_, ?_, ?_, ?_⟩
    · intro g hg
      cases hg
    · intro g hg
      cases hg
    · intro i _ h
      exact absurd rfl h
    · intro i
      exact (and_iff_left rfl).symm
  | cons s strategies ih =>
    rw [SpecialMatch.bind]
    generalize hunbound : filterUnboundInstances group.instances bound = unbound
    dsimp only
    by_cases hnone : unbound = []
    · rw [if_pos hnone, hnone]
      refine ⟨.nil, ?_, ?_, ?_, ?_⟩
      · intro g hg
        cases hg
      · intro g hg
        cases hg
      · intro i hi
        cases hi
      · intro i
        rw [hunbound, hnone]
        exact iff_of_false List.not_mem_nil fun h => List.not_mem_nil h.1
    · rw [if_neg hnone]
      have hsub : ∀ i ∈ special.matched s unbound, i ∈ group.instances := by
        intro i hi
        have hin := mem_matched hspecial hi
        rw [← hunbound] at hin
        exact (List.mem_filter.mp hin).1
      by_cases hmatched : special.matched s unbound = []
      · -- nothing is matched, so nothing changes for the strategies that follow
        have hstep : ∀ i, special.firstMatch (s :: strategies) unbound i =
            special.firstMatch strategies unbound i := by
          intro i
          rw [SpecialMatch.firstMatch, hmatched, if_neg List.not_mem_nil]
          congr 1
          simp
        obtain ⟨hapart, hwithin, hstrategy, hcomplete, hrest⟩ := hunbound ▸ ih bound
        rw [if_pos hmatched]
        refine ⟨hapart, ?_, hstrategy, ?_, ?_⟩
        · simpa only [hstep] using hwithin
        · simpa only [hstep] using hcomplete
        · simpa only [hstep] using hrest
      · rw [if_neg hmatched]
        have hnext := ih (bound ++ (special.matched s unbound).map instanceEventKey)
        rw [filterUnbound_append hkeys hsub, hunbound] at hnext
        generalize special.bind group strategies
          (bound ++ (special.matched s unbound).map instanceEventKey) = out at hnext ⊢
        obtain ⟨groups, bound'⟩ := out
        obtain ⟨hapart, hwithin, hstrategy, hcomplete, hrest⟩ := hnext
        dsimp only at hapart hwithin hstrategy hcomplete hrest ⊢
        have hlater : ∀ i, i ∉ special.matched s unbound →
            special.firstMatch (s :: strategies) unbound i = special.firstMatch strategies
              (unbound.filter fun i => i ∉ special.matched s unbound) i := fun i hi => if_neg hi
        have hfree : ∀ i, i ∈ unbound.filter (fun i => i ∉ special.matched s unbound) ↔
            i ∈ unbound ∧ i ∉ special.matched s unbound := by
          intro i
          rw [List.mem_filter, decide_eq_true_iff]
        refine ⟨List.pairwise_cons.mpr ⟨?_, hapart⟩, ?_, ?_, ?_, ?_⟩
        · intro g hg i hi hig
          exact ((hfree i).mp (hwithin g hg i hig).1).2 hi
        · intro g hg i hi
          rcases List.mem_cons.mp hg with rfl | hg
          · exact ⟨mem_matched hspecial hi, if_pos hi⟩
          · obtain ⟨hin, hfirst⟩ := hwithin g hg i hi
            obtain ⟨hunb, hnot⟩ := (hfree i).mp hin
            exact ⟨hunb, (hlater i hnot).trans hfirst⟩
        · intro g hg
          rcases List.mem_cons.mp hg with rfl | hg
          · exact Option.some_ne_none s
          · exact hstrategy g hg
        · intro i hi hfirst
          by_cases hin : i ∈ special.matched s unbound
          · exact ⟨_, List.mem_cons_self, hin⟩
          · rw [hlater i hin] at hfirst
            obtain ⟨g, hg, hig⟩ := hcomplete i ((hfree i).mpr ⟨hi, hin⟩) hfirst
            exact ⟨g, List.mem_cons_of_mem _ hg, hig⟩
        · intro i
          rw [hrest, hfree]
          by_cases hin : i ∈ special.matched s unbound
          · have hfirst : special.firstMatch (s :: strategies) unbound i = some s := if_pos hin
            rw [hfirst]
            exact iff_of_false (fun h => h.1.2 hin) fun h => Option.some_ne_none s h.2
          · rw [hlater i hin]
            exact and_congr_left fun _ => and_iff_left hin

/-- What matching makes of a group: the groups of the strategies, and one for the events left over. -/
structure Partitioned (special : SpecialMatch) (group : FailureGroup)
    (strategies : List DbSwitchingStrategy) (groups : List FailureGroup) : Prop where
  apart : groups.Pairwise fun g g' => ∀ i ∈ g.instances, i ∉ g'.instances
  within : ∀ g ∈ groups, ∀ i ∈ g.instances, i ∈ group.instances ∧
    g.strategy = special.firstMatch (sortCandidates strategies) group.instances i
  complete : ∀ i ∈ group.instances, ∃ g ∈ groups, i ∈ g.instances

theorem matchStrategies_partitioned (hspecial : special.Selects)
    (hkeys : (group.instances.map instanceEventKey).Nodup) (strategies : List DbSwitchingStrategy) :
    Partitioned special group strategies
      ((special.matchStrategies group (some strategies)).getD []) := by
  unfold SpecialMatch.matchStrategies
  by_cases hempty : group.instances = []
  · rw [if_pos hempty]
    refine ⟨.nil, ?_, ?_⟩
    · intro g hg
      cases hg
    · intro i hi
      rw [hempty] at hi
      cases hi
  · rw [if_neg hempty]
    have hall : filterUnboundInstances group.instances [] = group.instances :=
      List.filter_eq_self.mpr fun i _ => decide_eq_true List.not_mem_nil
    have hbound := bind_bound hspecial hkeys (sortCandidates strategies) []
    rw [hall] at hbound
    simp only [Option.map_some, Option.getD_some]
    generalize special.bind group (sortCandidates strategies) [] = out at hbound
    obtain ⟨groups, bound⟩ := out
    obtain ⟨hapart, hwithin, hstrategy, hcomplete, hrest⟩ := hbound
    dsimp only at hapart hwithin hstrategy hcomplete hrest ⊢
    split
    · rename_i hnone
      refine ⟨hapart, fun g hg i hi => ⟨(hwithin g hg i hi).1, (hwithin g hg i hi).2.symm⟩, ?_⟩
      intro i hi
      refine hcomplete i hi fun hfirst => ?_
      have hleft := (hrest i).mpr ⟨hi, hfirst⟩
      rw [hnone] at hleft
      exact List.not_mem_nil hleft
    · refine ⟨List.pairwise_append.mpr ⟨hapart, List.pairwise_singleton _ _, ?_⟩, ?_, ?_⟩
      · intro g hg g' hg' i hi hi'
        obtain rfl := List.mem_singleton.mp hg'
        have hfirst := ((hrest i).mp hi').2
        exact hstrategy g hg ((hwithin g hg i hi).2.symm.trans hfirst)
      · intro g hg i hi
        rcases List.mem_append.mp hg with hg | hg
        · exact ⟨(hwithin g hg i hi).1, (hwithin g hg i hi).2.symm⟩
        · obtain rfl := List.mem_singleton.mp hg
          obtain ⟨hin, hfirst⟩ := (hrest i).mp hi
          exact ⟨hin, hfirst.symm⟩
      · intro i hi
        by_cases hfirst : special.firstMatch (sortCandidates strategies) group.instances i = none
        · exact ⟨_, List.mem_append_right _ List.mem_cons_self, (hrest i).mpr ⟨hi, hfirst⟩⟩
        · obtain ⟨g, hg, hig⟩ := hcomplete i hi hfirst
          exact ⟨g, List.mem_append_left _ hg, hig⟩

end Binding

section Tasks

/-- A host of a group that switches is covered, if the request knows it. -/
theorem buildGroupTasks_covers {groups : List FailureGroup} (hg : g ∈ groups)
    (hswitch : g.switches = true) (hinst : inst ∈ g.instances)
    (hmeta : ∃ m ∈ req.instData, m.host = inst.host) :
    inst.host ∈ occupied ∨ ∃ task ∈ buildGroupTasks req groups occupied, inst.host ∈ task.hosts := by
  induction groups generalizing occupied with
  | nil => cases hg
  | cons g' groups ih =>
    by_cases hin : inst.host ∈ occupied
    · exact .inl hin
    · right
      rcases List.mem_cons.mp hg with rfl | hg
      · -- the instance remains, and so does its metadata
        obtain ⟨m, hm, hhost⟩ := hmeta
        have hremains : inst ∈ filterHostsNotOccupied g.instances occupied :=
          List.mem_filter.mpr ⟨hinst, decide_eq_true hin⟩
        have hkept : m ∈ (filterRequestByHosts req
            (filterHostsNotOccupied g.instances occupied)).instData :=
          List.mem_filter.mpr ⟨hm, decide_eq_true (hhost ▸ List.mem_map_of_mem hremains)⟩
        have hhas : (filterRequestByHosts req
            (filterHostsNotOccupied g.instances occupied)).hasDbInstMetadata = true := by
          unfold Request.hasDbInstMetadata
          rw [Bool.not_eq_true', List.isEmpty_eq_false_iff]
          exact List.ne_nil_of_mem hkept
        rw [buildGroupTasks, hswitch]
        simp only [Bool.not_true, Bool.false_eq_true, if_false, if_neg (List.ne_nil_of_mem hremains),
          hhas]
        exact ⟨_, List.mem_cons_self, List.mem_map.mpr ⟨m, hkept, hhost⟩⟩
      · have hrest := fun occupied : List String => @ih occupied hg
        rw [buildGroupTasks]
        dsimp only
        split
        · obtain ⟨task, htask, hcover⟩ := (hrest occupied).resolve_left hin
          exact ⟨task, List.mem_cons_of_mem _ htask, hcover⟩
        · split
          · exact (hrest occupied).resolve_left hin
          · split
            · exact (hrest occupied).resolve_left hin
            · rcases hrest _ with hnow | ⟨task, htask, hcover⟩
              · rcases List.mem_append.mp hnow with hnow | hnow
                · exact absurd hnow hin
                · exact ⟨_, List.mem_cons_self, hnow⟩
              · exact ⟨task, List.mem_cons_of_mem _ htask, hcover⟩

end Tasks

/-- A master that has failed once. -/
def failedOnce : Instance := { failedMaster .detectFailure with count := 1 }

end Failover
