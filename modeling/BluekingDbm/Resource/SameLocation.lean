import BluekingDbm.Resource.DryRun

/-! Groups that are to stand in one sub-zone. The sub-zone that is tried reaches a group's search only
where the group names no sub-zones of its own. -/
namespace Resource

open Program

/-- What of a group decides where its hosts may stand. -/
structure Placement where
  location : LocationSpec
  designated : Bool

def ObjectDetail.placement (v : ObjectDetail) : Placement := ⟨v.locationSpec, !v.hosts.isEmpty⟩

namespace Placement

variable (p : Placement)

/-- Whether hosts of a sub-zone may be picked for the group while the groups are tried in `tried`. -/
def Admits (tried subZone : String) : Prop :=
  if p.designated || p.location.isEmpty then True
  else if p.location.subZoneIds.isEmpty then subZone = tried
  else (if p.location.isExclude then subZone ∉ p.location.subZoneIds
      else subZone ∈ p.location.subZoneIds) ∧ subZone ∉ p.location.excludeSubZoneIds

/-- The sub-zones that are tried where this is the first group of the request. -/
def Tries (subZone : String) : Prop :=
  if p.location.isExclude then subZone ∉ p.location.subZoneIds
  else p.location.subZoneIds = [] ∨ subZone ∈ p.location.subZoneIds

end Placement

/-- Wherever the groups are tried, some group admits no sub-zone, or all of them admit the same one at
most. -/
def Confined (ps : List Placement) : Prop :=
  ∀ p₀ ∈ ps.head?, ∀ tried, p₀.Tries tried →
    (∃ p ∈ ps, ∀ z, ¬ p.Admits tried z) ∨ ∃ z, ∀ p ∈ ps, ∀ z', p.Admits tried z' → z' = z

/-- The hosts in the pool, whatever becomes of them. -/
def machines (t : Table) : List Machine := t.map fun r => r.toMachine

/-- The hosts have been found in one sub-zone. -/
def InOneSubZone (ids : List ℤ) (t : Table) : Prop :=
  ∃ z, ∀ x ∈ ids, ∃ m ∈ machines t, m.bkHostID = x ∧ m.subZoneID = z

/-- Requests with these placements have their groups in one sub-zone whenever they succeed. -/
def KeepsTogether (ps : List Placement) : Prop :=
  ∀ (param : RequestInputParam) (runMode : String) (w : Surroundings) (caller : Caller) (db db' : Db)
    (pickers : List Picked), param.details.map ObjectDetail.placement = ps →
    param.sameLocation = true →
    run (w.serve caller) (applyGroupsInSameLocation runMode param) db = some ((pickers, none), db') →
    InOneSubZone (hostIds pickers) db.table

variable {w : Surroundings} {caller : Caller} {db db' : Db} {t t' : Table} {x : ℤ} {ids : List ℤ}
  {o : Search} {rt : Runtime} {v : ObjectDetail} {vs : List ObjectDetail} {idcCitys : List String}
  {attempt group : ℕ} {zone z : String} {zones : List String} {pickers : List Picked}
  {result : List Picked × Option ApplyError} {param : RequestInputParam} {runMode : String}

section Found

theorem machines_preselect : machines (preselectFromUnused caller ids t).2 = machines t := by
  show (t.map _).map _ = t.map _
  rw [List.map_map]
  refine List.map_congr_left fun r _ => ?_
  simp only [Function.comp_apply]
  split <;> rfl

theorem machines_rollback : machines (rollbackUnused ids t) = machines t := by
  show (t.map _).map _ = t.map _
  rw [List.map_map]
  refine List.map_congr_left fun r _ => ?_
  simp only [Function.comp_apply]
  split <;> rfl

/-- A group tried in a sub-zone has a host that may stand there. -/
def Finds (zone : String) (v : ObjectDetail) (t : Table) (x : ℤ) : Prop :=
  ∃ m ∈ machines t, m.bkHostID = x ∧ v.placement.Admits zone m.subZoneID

theorem admits_of_pickBase {r : Row} (h : (Search.mk v idcCitys [zone]).pickBase r = true) :
    v.placement.Admits zone r.subZoneID := by
  unfold Placement.Admits ObjectDetail.placement
  unfold Search.pickBase at h
  cases hhosts : v.hosts.isEmpty with
  | false => simp
  | true =>
    cases hcity : v.locationSpec.isEmpty with
    | true => simp
    | false =>
      simp only [hhosts, if_true, Bool.and_eq_true] at h
      have hlocation := h.1.2
      simp only [Search.matchLocationSpec, hcity, LocationSpec.subZoneIsEmpty, Bool.false_or,
        Bool.false_eq_true, if_false, Bool.and_eq_true] at hlocation
      have hmatch := hlocation.2
      simp only [Bool.not_true, Bool.or_self, Bool.false_eq_true, if_false]
      split
      · rename_i hnone
        simpa [hnone] using hmatch
      · rename_i hsome
        rw [if_neg hsome] at hmatch
        simp only [Bool.and_eq_true, Bool.or_eq_true, decide_eq_true_eq] at hmatch
        refine ⟨?_, ?_⟩
        · have hown := hmatch.1.1.1
          split <;> rename_i hexclude <;> simpa [hexclude] using hown
        · rcases hmatch.1.1.2 with hempty | hout
          · rw [List.isEmpty_iff.mp hempty]
            exact List.not_mem_nil
          · exact hout

theorem finds_of_given (h : (Search.mk v idcCitys [zone]).given rt t = some ids) (hx : x ∈ ids) :
    Finds zone v t x := by
  obtain ⟨r, hr, hhost, hbase⟩ := given_found h hx
  exact ⟨r.toMachine, List.mem_map_of_mem hr, hhost, admits_of_pickBase hbase⟩

theorem Finds.of_machines (h : Finds zone v t x) (heq : machines t' = machines t) :
    Finds zone v t' x := by
  obtain ⟨m, hm, hall⟩ := h
  exact ⟨m, heq ▸ hm, hall⟩

/-- Where all groups are served in a sub-zone, each has hosts that may stand there. -/
theorem applyGroups_finds
    (h : run (w.serve caller) (applyGroups (fun v => pure (.ok ⟨v, idcCitys, [zone]⟩)) attempt group vs
      pickers) db = some (result, db')) (hok : result.2 = none) :
    (∀ x ∈ hostIds result.1, x ∈ hostIds pickers ∨ ∃ v ∈ vs, Finds zone v db.table x) ∧
      ∀ v ∈ vs, ∃ x, Finds zone v db.table x := by
  induction vs generalizing group pickers db with
  | nil =>
    cases h
    exact ⟨fun _ => .inl, fun _ hv => absurd hv List.not_mem_nil⟩
  | cons v vs ih =>
    obtain ⟨found, db₀, hfound, h⟩ := exists_of_run_bind h
    cases hfound
    obtain ⟨applied, db₁, happlied, h⟩ := exists_of_run_bind h
    rcases run_applyGroup happlied with
      ⟨-, -, err, rfl⟩ | ⟨ids, hgiven, htable, ⟨-, rfl⟩ | ⟨-, err, rfl⟩⟩
    · cases h
      cases hok
    · have hmachines : machines db₁.table = machines db.table := by
        rw [htable, machines_preselect]
      obtain ⟨hpicked, hserved⟩ := ih h
      refine ⟨fun x hx => ?_, fun v' hv' => ?_⟩
      · rcases hpicked x hx with hx | ⟨v', hv', hfinds⟩
        · rw [hostIds, List.flatMap_append] at hx
          rcases List.mem_append.mp hx with hx | hx
          · exact .inl hx
          · rw [List.flatMap_singleton] at hx
            exact .inr ⟨v, List.mem_cons_self, finds_of_given hgiven hx⟩
        · exact .inr ⟨v', List.mem_cons_of_mem _ hv', hfinds.of_machines hmachines.symm⟩
      · rcases List.mem_cons.mp hv' with rfl | hv'
        · obtain ⟨x, hx⟩ := List.exists_mem_of_ne_nil _ (given_subperm hgiven).1
          exact ⟨x, finds_of_given hgiven hx⟩
        · obtain ⟨x, hfinds⟩ := hserved v' hv'
          exact ⟨x, hfinds.of_machines hmachines.symm⟩
    · cases h
      cases hok

theorem machines_applyGroups
    (h : run (w.serve caller) (applyGroups (fun v => pure (.ok ⟨v, idcCitys, [zone]⟩)) attempt group vs
      pickers) db = some (result, db')) : machines db'.table = machines db.table := by
  obtain ⟨picked, E, -, htried, -⟩ := run_applyGroups (run_inZone idcCitys zone) h
  rw [htried.table, machines_preselect]

theorem trySubZones_finds
    (h : run (w.serve caller) (trySubZones vs idcCitys attempt zone zones) db = some (result, db'))
    (hok : result.2 = none) : ∃ tried ∈ zone :: zones,
      (∀ x ∈ hostIds result.1, ∃ v ∈ vs, Finds tried v db.table x) ∧
        ∀ v ∈ vs, ∃ x, Finds tried v db.table x := by
  induction zones generalizing attempt zone db with
  | nil =>
    obtain ⟨pickers, err, db₁, happlied, hend⟩ := trySubZone_cases h
    rcases hend with ⟨rfl, rfl, -⟩ | ⟨herr, ⟨-, rfl, -⟩ | ⟨next, rest, hcons, -⟩⟩
    · obtain ⟨hpicked, hserved⟩ := applyGroups_finds happlied rfl
      exact ⟨zone, List.mem_cons_self, fun x hx => (hpicked x hx).resolve_left List.not_mem_nil, hserved⟩
    · exact absurd hok herr
    · cases hcons
  | cons next zones ih =>
    obtain ⟨pickers, err, db₁, happlied, hend⟩ := trySubZone_cases h
    rcases hend with ⟨rfl, rfl, -⟩ | ⟨-, ⟨hnil, -⟩ | ⟨next', rest, hcons, hrun⟩⟩
    · obtain ⟨hpicked, hserved⟩ := applyGroups_finds happlied rfl
      exact ⟨zone, List.mem_cons_self, fun x hx => (hpicked x hx).resolve_left List.not_mem_nil, hserved⟩
    · cases hnil
    · cases hcons
      obtain ⟨tried, htried, hpicked, hserved⟩ := ih hrun
      have hmachines : machines (rollbackUnused (hostIds pickers) db₁.table) = machines db.table := by
        rw [machines_rollback, machines_applyGroups happlied]
      refine ⟨tried, List.mem_cons_of_mem _ htried, fun x hx => ?_, fun v hv => ?_⟩
      · obtain ⟨v, hv, hfinds⟩ := hpicked x hx
        exact ⟨v, hv, hfinds.of_machines hmachines.symm⟩
      · obtain ⟨x, hfinds⟩ := hserved v hv
        exact ⟨x, hfinds.of_machines hmachines.symm⟩

theorem tries_of_mem_subZones (h : z ∈ w.subZones param vs idcCitys t) :
    (param.details.head param.details_ne_nil).placement.Tries z := by
  simp only [Surroundings.subZones, RequestInputParam.specialSubZoneIds] at h
  unfold Placement.Tries ObjectDetail.placement
  simp only
  cases hexclude : (param.details.head param.details_ne_nil).locationSpec.isExclude with
  | false =>
    rw [if_neg Bool.false_ne_true]
    by_cases hnone : (param.details.head param.details_ne_nil).locationSpec.subZoneIds = []
    · exact .inl hnone
    · right
      simpa [hexclude, hnone] using h
  | true =>
    rw [if_pos rfl]
    by_cases hnone : (param.details.head param.details_ne_nil).locationSpec.subZoneIds = []
    · rw [hnone]
      exact List.not_mem_nil
    · simp only [hexclude, Bool.not_true, Bool.false_and, Bool.false_eq_true, if_false, Bool.true_and,
        List.isEmpty_eq_false_iff.mpr hnone, Bool.not_false, if_true] at h
      exact of_decide_eq_true (List.mem_filter.mp h).2

theorem keepsTogether_of_confined {ps : List Placement} (h : Confined ps) : KeepsTogether ps := by
  intro param runMode w caller db db' pickers hps _ hrun
  obtain ⟨order, db₁, horder, hrun⟩ := exists_of_run_bind hrun
  have horder' : some (w.detailOrder, db) = some (order, db₁) := horder
  cases horder'
  have hperm : (param.sortDetails w.detailOrder).Perm param.details := perm_sortDetails
  cases hvs : param.sortDetails w.detailOrder with
  | nil => exact absurd hvs sortDetails_ne_nil
  | cons v vs =>
    rw [hvs] at hrun hperm
    obtain ⟨citys, db₁, hcitys, hrun⟩ := exists_of_run_bind hrun
    cases run_getLogicIdcCitys.symm.trans hcitys
    cases hfound : w.logicIdcCitys runMode v with
    | none =>
      rw [hfound] at hrun
      cases hrun
    | some idcCitys =>
      rw [hfound] at hrun
      obtain ⟨zones, db₁, hzones, hrun⟩ := exists_of_run_bind hrun
      cases run_candidateSubZones.symm.trans hzones
      have htries : ∀ z ∈ w.subZones param (v :: vs) idcCitys db.table,
          (param.details.head param.details_ne_nil).placement.Tries z := fun z => tries_of_mem_subZones
      generalize w.subZones param (v :: vs) idcCitys db.table = zones at hrun htries
      cases zones with
      | nil => cases hrun
      | cons zone zones =>
        obtain ⟨tried, htried, hpicked, hserved⟩ := trySubZones_finds hrun rfl
        have hhead : (param.details.head param.details_ne_nil).placement ∈ ps.head? := by
          rw [← hps, List.head?_map, List.head?_eq_some_head param.details_ne_nil]
          rfl
        have hmem : ∀ v' ∈ v :: vs, v'.placement ∈ ps := fun v' hv' => by
          rw [← hps]
          exact List.mem_map_of_mem (hperm.mem_iff.mp hv')
        rcases h _ hhead tried (htries tried htried) with ⟨p, hp, hnone⟩ | ⟨z, hall⟩
        · rw [← hps] at hp
          obtain ⟨v', hv', rfl⟩ := List.mem_map.mp hp
          obtain ⟨x, m, -, -, hadmits⟩ := hserved v' (hperm.mem_iff.mpr hv')
          exact absurd hadmits (hnone _)
        · refine ⟨z, fun x hx => ?_⟩
          obtain ⟨v', hv', m, hm, hhost, hadmits⟩ := hpicked x hx
          exact ⟨m, hm, hhost, hall _ (hmem v' hv') _ hadmits⟩

end Found

end Resource
