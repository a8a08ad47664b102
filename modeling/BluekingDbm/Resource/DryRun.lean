import BluekingDbm.Resource.Delivery
import BluekingDbm.Resource.Spread

/-! A dry run, served by itself. It preselects as any request does and ends without a commit; where it
finds everything it looks for, nobody rolls back. -/
namespace Resource

open Program

/-- What a request meets that is served by itself, by a database that does not fail. -/
structure Surroundings where
  locked : Bool
  idcCitys : String → Option (List String)
  detailOrder : DetailOrder
  campusOrder : Runtime
  pickOrder : ℕ → ℕ → Runtime

def Surroundings.choice (w : Surroundings) (o : Op) : Choice where
  fails := false
  locked := w.locked
  idcCitys :=
    match o with
    | .getIdcCityByLogicCity city => w.idcCitys city
    | _ => none
  detailOrder := w.detailOrder
  campusOrder := w.campusOrder
  pickOrder :=
    match o with
    | .pickOrder attempt group => w.pickOrder attempt group
    | _ => .still

def Surroundings.serve (w : Surroundings) (caller : Caller) (o : Op) (db : Db) :
    Option (o.Res × Db) := Resource.serve caller (w.choice o) o db

variable {w : Surroundings} {caller : Caller} {db db' : Db} {α : Type} {t t' u : Table} {x : ℤ}
  {ids P E : List ℤ} {s : Status} {runMode : String} {o : Search} {rt : Runtime}

section Shows

/-- What is known of the hosts by their status. -/
def statuses (t : Table) : List (ℤ × Status) := t.map fun r => (r.bkHostID, r.status)

/-- A row of the host has the status. -/
def Shows (x : ℤ) (s : Status) (t : Table) : Prop := ∃ r ∈ t, r.bkHostID = x ∧ r.status = s

theorem shows_iff : Shows x s t ↔ (x, s) ∈ statuses t := by
  simp only [Shows, statuses, List.mem_map, Prod.mk.injEq]

theorem Shows.of_statuses (h : Shows x s t) (heq : statuses t' = statuses t) : Shows x s t' := by
  rw [shows_iff] at h ⊢
  rwa [heq]

theorem shows_update {hit : Row → Bool} {set : Row → Row} (hhost : ∀ r, (set r).bkHostID = r.bkHostID)
    (hmiss : ∀ r, hit r = true → r.bkHostID ≠ x) : Shows x s (t.update hit set) ↔ Shows x s t := by
  constructor
  · rintro ⟨r, hr, hx, hs⟩
    rcases update_cases hr with ⟨hold, -⟩ | ⟨r₀, -, hhit, rfl⟩
    · exact ⟨r, hold, hx, hs⟩
    · exact absurd ((hhost r₀).symm.trans hx) (hmiss r₀ hhit)
  · rintro ⟨r, hr, hx, hs⟩
    refine ⟨r, mem_update_of_not_hit hr ?_, hx, hs⟩
    cases hhit : hit r with
    | false => rfl
    | true => exact absurd hx (hmiss r hhit)

theorem shows_preselect_of_notMem (h : x ∉ ids) :
    Shows x s (preselectFromUnused caller ids t).2 ↔ Shows x s t := by
  refine shows_update (fun _ => rfl) fun r hhit hx => h ?_
  rw [← hx]
  exact (matched_iff.mp hhit).1

theorem shows_rollback_of_notMem (h : x ∉ ids) : Shows x s (rollbackUnused ids t) ↔ Shows x s t := by
  refine shows_update (fun _ => rfl) fun r hhit hx => h ?_
  rw [← hx]
  exact (matched_iff.mp hhit).1

theorem not_unused_preselect (h : x ∈ ids) :
    ¬ Shows x .unused (preselectFromUnused caller ids t).2 := by
  rintro ⟨r, hr, hx, hs⟩
  rcases update_cases hr with ⟨-, hmiss⟩ | ⟨r₀, -, -, rfl⟩
  · rw [← hx] at h
    exact absurd (matched_iff.mpr ⟨h, hs⟩) (by simp [hmiss])
  · cases hs

theorem not_preselected_rollback (h : x ∈ ids) : ¬ Shows x .preselected (rollbackUnused ids t) := by
  rintro ⟨r, hr, hx, hs⟩
  rcases update_cases hr with ⟨-, hmiss⟩ | ⟨r₀, -, -, rfl⟩
  · rw [← hx] at h
    exact absurd (matched_iff.mpr ⟨h, hs⟩) (by simp [hmiss])
  · cases hs

/-- The host has an Unused and a Preselected row. -/
def Mixed (x : ℤ) (t : Table) : Prop := Shows x .unused t ∧ Shows x .preselected t

theorem not_mixed_preselect (h : ¬ Mixed x t) : ¬ Mixed x (preselectFromUnused caller ids t).2 := by
  rintro ⟨hunused, hpreselected⟩
  by_cases hin : x ∈ ids
  · exact not_unused_preselect hin hunused
  · exact h ⟨(shows_preselect_of_notMem hin).mp hunused,
      (shows_preselect_of_notMem hin).mp hpreselected⟩

theorem not_mixed_rollback (h : ¬ Mixed x t) : ¬ Mixed x (rollbackUnused ids t) := by
  rintro ⟨hunused, hpreselected⟩
  by_cases hin : x ∈ ids
  · exact not_preselected_rollback hin hpreselected
  · exact h ⟨(shows_rollback_of_notMem hin).mp hunused,
      (shows_rollback_of_notMem hin).mp hpreselected⟩

end Shows

section Statements

theorem preselect_append : (preselectFromUnused caller (P ++ E) t).2 =
    (preselectFromUnused caller E (preselectFromUnused caller P t).2).2 := by
  show t.map _ = (t.map _).map _
  rw [List.map_map]
  refine List.map_congr_left fun r _ => ?_
  simp only [Function.comp_apply]
  by_cases hp : r.bkHostID ∈ P <;> by_cases he : r.bkHostID ∈ E <;>
    by_cases hs : r.status = .unused <;> simp [Row.matched, Row.listed, hp, he, hs]

theorem rollback_append : rollbackUnused (P ++ E) t = rollbackUnused E (rollbackUnused P t) := by
  show t.map _ = (t.map _).map _
  rw [List.map_map]
  refine List.map_congr_left fun r _ => ?_
  simp only [Function.comp_apply]
  by_cases hp : r.bkHostID ∈ P <;> by_cases he : r.bkHostID ∈ E <;>
    by_cases hs : r.status = .preselected <;> simp [Row.matched, Row.listed, hp, he, hs]

theorem rollback_of_not_preselected (h : ∀ x ∈ P, ¬ Shows x .preselected t) :
    rollbackUnused P t = t := by
  refine (List.map_congr_left fun r hr => ?_).trans (List.map_id t)
  refine if_neg fun hm => ?_
  obtain ⟨hin, hs⟩ := matched_iff.mp hm
  exact h _ hin ⟨r, hr, rfl, hs⟩

/-- The table without the holders. -/
def bare (t : Table) : Table := t.map fun r => { r with holder := none }

theorem statuses_of_bare (h : bare t' = bare t) : statuses t' = statuses t := by
  have hof : ∀ t, statuses (bare t) = statuses t := fun _ => List.map_map
  rw [← hof, h, hof]

theorem bare_preselect (h : bare t' = bare t) :
    bare (preselectFromUnused caller ids t').2 = bare (preselectFromUnused caller ids t).2 := by
  have hof : ∀ t, bare (preselectFromUnused caller ids (bare t)).2 =
      bare (preselectFromUnused caller ids t).2 := by
    intro t
    show ((t.map _).map _).map _ = (t.map _).map _
    rw [List.map_map, List.map_map, List.map_map]
    refine List.map_congr_left fun r _ => ?_
    simp only [Function.comp_apply]
    by_cases hin : r.bkHostID ∈ ids <;> by_cases hs : r.status = .unused <;>
      simp [Row.matched, Row.listed, hin, hs]
  rw [← hof, h, hof]

/-- A rollback takes a preselect back where no row of the hosts was Preselected before. -/
theorem bare_rolledBack (h : ∀ x ∈ P, ¬ Shows x .preselected t) :
    bare (rollbackUnused P (preselectFromUnused caller P t).2) = bare t := by
  show ((t.map _).map _).map _ = t.map _
  rw [List.map_map, List.map_map]
  refine List.map_congr_left fun r hr => ?_
  simp only [Function.comp_apply]
  by_cases hp : r.bkHostID ∈ P
  · have hs : r.status ≠ .preselected := fun hs => h _ hp ⟨r, hr, rfl, hs⟩
    by_cases hu : r.status = .unused <;> simp [Row.matched, Row.listed, hp, hu, hs]
  · simp [Row.matched, Row.listed, hp]

end Statements

section Given

/-- What the code picks for a group: none where its checks or its picker fail. -/
def Search.given (o : Search) (rt : Runtime) (t : Table) : Option (List ℤ) :=
  if o.checked t then
    (o.candidates t).bind fun items =>
      match o.pick rt items with
      | .returned (none, picker) => if picker.pickerDone then some picker.satisfiedHostIds else none
      | _ => none
  else none

theorem given_cases (h : o.given rt t = some ids) : ∃ items picker,
    o.candidates t = some items ∧ o.pick rt items = .returned (none, picker) ∧
      picker.pickerDone = true ∧ picker.satisfiedHostIds = ids := by
  unfold Search.given at h
  split at h
  · obtain ⟨items, hitems, h⟩ := Option.bind_eq_some_iff.mp h
    split at h
    · rename_i picker hpick
      split at h
      · rename_i hdone
        exact ⟨items, picker, hitems, hpick, hdone, Option.some_inj.mp h⟩
      · cases h
    · cases h
  · cases h

theorem mem_candidates {items : List Row} (h : o.candidates t = some items) :
    items.Sublist (t.filter o.pickBase) := by
  unfold Search.candidates at h
  simp only at h
  split at h
  · split at h
    · split at h
      · cases h
      · cases h
        exact List.filter_sublist
    · cases h
      exact .refl _
  · cases h
    exact .refl _

theorem unused_of_pickBase {r : Row} (h : o.pickBase r = true) : r.status = .unused := by
  unfold Search.pickBase at h
  split at h
  · simp only [Bool.and_eq_true, decide_eq_true_eq] at h
    exact h.1.1.1.1.2
  · simp only [Bool.and_eq_true, matched_iff] at h
    exact h.1.2

/-- The picker ends with as many hosts as it is asked for, which come from its pool. -/
theorem picked_subperm {items : List Row} {picker : PickerObject}
    (h : o.pick rt items = .returned (none, picker)) (hdone : picker.pickerDone = true) :
    picker.satisfiedHostIds ≠ [] ∧
      picker.satisfiedHostIds.Subperm (items.map fun r => r.bkHostID) := by
  have hmap : (items.map fun r => r.toTbRpDetail).map TbRpDetail.bkHostID =
      items.map fun r => r.bkHostID := List.map_map
  have hlen : picker.satisfiedHostIds.length = picker.count := of_decide_eq_true hdone
  by_cases hspecial : o.searchContext.specialHostIds = []
  · have hfuel : 3 * (items.map fun r => r.toTbRpDetail).length < 3 * items.length + 1 := by
      rw [List.length_map]
      exact Nat.lt_succ_self _
    have hcount : 0 < o.searchContext.count := o.detail.count_pos
    have haccounted := accounted_reaches (reaches_of_returned hspecial hcount hfuel h)
    obtain ⟨zones, racks, S, hpool, ht⟩ := haccounted.tally
    obtain ⟨sums, hlimits⟩ := haccounted.limits
    have hwanted : picker.count = o.detail.count := by
      refine (congrArg Limits.count hlimits).trans ?_
      show o.searchContext.configured.count = o.searchContext.count
      unfold SearchContext.configured
      cases o.searchContext.affinity <;> rfl
    refine ⟨fun hnil => ?_, List.subperm_of_subset ht.nodup fun id hid => ?_⟩
    · have hpos := o.detail.count_pos
      rw [hnil, hwanted] at hlen
      exact absurd hlen hpos.ne
    · rw [ht.ids] at hid
      obtain ⟨host, hhost, rfl⟩ := List.mem_map.mp hid
      rw [← hmap]
      exact List.mem_map_of_mem (hpool host hhost)
  · unfold Search.pick SearchContext.pickInstanceBase at h
    rw [if_neg (by simpa using hspecial)] at h
    cases h
    refine ⟨fun hnil => hspecial ?_, ?_⟩
    · rw [hnil] at hlen
      exact List.length_eq_zero_iff.mp hlen.symm
    · rw [← hmap]
      exact (List.filter_sublist.map _).subperm

theorem given_subperm (h : o.given rt t = some ids) :
    ids ≠ [] ∧ ids.Subperm ((t.filter o.pickBase).map fun r => r.bkHostID) := by
  obtain ⟨items, picker, hitems, hpick, hdone, rfl⟩ := given_cases h
  obtain ⟨hne, hsub⟩ := picked_subperm hpick hdone
  exact ⟨hne, hsub.trans ((mem_candidates hitems).map _).subperm⟩

theorem given_found (h : o.given rt t = some ids) (hx : x ∈ ids) :
    ∃ r ∈ t, r.bkHostID = x ∧ o.pickBase r = true := by
  obtain ⟨r, hr, rfl⟩ := List.mem_map.mp ((given_subperm h).2.subset hx)
  obtain ⟨hrow, hbase⟩ := List.mem_filter.mp hr
  exact ⟨r, hrow, rfl, hbase⟩

theorem given_unused (h : o.given rt t = some ids) (hx : x ∈ ids) : Shows x .unused t := by
  obtain ⟨r, hr, hhost, hbase⟩ := given_found h hx
  exact ⟨r, hr, hhost, unused_of_pickBase hbase⟩

/-- A preselect of what is picked affects a row for each host at least. -/
theorem given_le_affected (h : o.given rt t = some ids) :
    ids.length ≤ (preselectFromUnused caller ids t).1 := by
  have hall : ids.countP (fun x => x ∈ ids) = ids.length :=
    List.countP_eq_length.mpr fun x hx => decide_eq_true hx
  have hle := (given_subperm h).2.countP_le fun x => decide (x ∈ ids)
  rw [hall, List.countP_map, List.countP_filter] at hle
  refine hle.trans (List.countP_mono_left fun r _ hr => ?_)
  simp only [Function.comp_apply, Bool.and_eq_true, decide_eq_true_eq] at hr
  exact matched_iff.mpr ⟨hr.1, unused_of_pickBase hr.2⟩

/-- The hosts have one row each that is Unused or Preselected. -/
def Sole (ids : List ℤ) (t : Table) : Prop :=
  (t.countP fun r => r.listed ids && (r.status = .unused || r.status = .preselected)) = ids.length

theorem countP_live (ids : List ℤ) (t : Table) :
    (t.countP fun r => r.listed ids && (r.status = .unused || r.status = .preselected)) =
      (t.countP fun r => r.matched ids .unused) + t.countP fun r => r.matched ids .preselected := by
  induction t with
  | nil => rfl
  | cons r t ih =>
    simp only [List.countP_cons, ih]
    cases hs : r.status <;> simp [Row.matched, hs] <;> omega

theorem sole_iff (h : o.given rt t = some ids) : Sole ids t ↔
    (preselectFromUnused caller ids t).1 = ids.length ∧ ∀ x ∈ ids, ¬ Shows x .preselected t := by
  have hle : ids.length ≤ t.countP fun r => r.matched ids .unused :=
    @given_le_affected caller t ids o rt h
  have hnone : (t.countP fun r => r.matched ids .preselected) = 0 ↔
      ∀ x ∈ ids, ¬ Shows x .preselected t := by
    rw [List.countP_eq_zero]
    constructor
    · rintro h x hx ⟨r, hr, rfl, hs⟩
      exact h r hr (matched_iff.mpr ⟨hx, hs⟩)
    · intro h r hr hm
      obtain ⟨hin, hs⟩ := matched_iff.mp hm
      exact h _ hin ⟨r, hr, rfl, hs⟩
  unfold Sole
  rw [countP_live, ← hnone]
  show _ ↔ (t.countP fun r => r.matched ids .unused) = ids.length ∧ _
  omega

theorem given_bare (h : bare t' = bare t) : o.given rt t' = o.given rt t := by
  have hof : ∀ t, o.given rt (bare t) = o.given rt t := by
    intro t
    have hfilter : (bare t).filter o.pickBase = bare (t.filter o.pickBase) := List.filter_map
    have hchecked : o.checked (bare t) = o.checked t := by
      unfold Search.checked bare
      rw [List.countP_map, List.countP_map]
      rfl
    have hcandidates : o.candidates (bare t) = (o.candidates t).map bare := by
      unfold Search.candidates
      rw [hfilter]
      cases o.detail.fitsDisks with
      | none => rfl
      | some fits =>
        have hfits : (bare (t.filter o.pickBase)).filter (fun r => fits r.toMachine) =
            bare ((t.filter o.pickBase).filter fun r => fits r.toMachine) := List.filter_map
        simp only
        rw [hfits]
        split
        · simp only [bare, List.isEmpty_map]
          split <;> rfl
        · rfl
    have hpick : ∀ items, o.pick rt (bare items) = o.pick rt items := by
      intro items
      unfold Search.pick bare
      rw [List.map_map, List.length_map]
      rfl
    unfold Search.given
    rw [hchecked, hcandidates]
    cases o.candidates t with
    | none => rfl
    | some items =>
      simp only [Option.map_some, Option.bind_some]
      rw [hpick]
  rw [← hof, h, hof]

theorem sole_bare (h : bare t' = bare t) : Sole ids t' ↔ Sole ids t := by
  have hof : ∀ t, Sole ids (bare t) ↔ Sole ids t := by
    intro t
    unfold Sole bare
    rw [List.countP_map]
    rfl
  rw [← hof, h, hof]

end Given

section Groups

variable {attempt group : ℕ} {v : ObjectDetail} {vs : List ObjectDetail} {pickers : List Picked}
  {result : List Picked × Option ApplyError} {find : ObjectDetail → Option Search}
  {search : ObjectDetail → Handler (Except ApplyError Search)} {order : ℕ → Runtime}

/-- The hosts of the pickers. -/
def hostIds (pickers : List Picked) : List ℤ := pickers.flatMap Picked.satisfiedHostIds

@[simp] theorem hostIds_cons (m : Picked) (ms : List Picked) :
    hostIds (m :: ms) = m.satisfiedHostIds ++ hostIds ms := List.flatMap_cons ..

theorem run_rollBackAll : run (w.serve caller) (rollBackAllInstanceUnused pickers) db =
    some ((), { db with table := rollbackUnused (hostIds pickers) db.table }) := by
  induction pickers generalizing db with
  | nil =>
    show some ((), db) = some ((), { db with table := rollbackUnused [] db.table })
    rw [rollback_of_not_preselected fun _ h => absurd h List.not_mem_nil]
  | cons m ms ih =>
    show run (w.serve caller) (rollBackAllInstanceUnused ms)
      { db with table := rollbackUnused m.satisfiedHostIds db.table } = _
    rw [ih]
    rw [hostIds_cons, rollback_append]

theorem run_pickCheck : run (w.serve caller) (pickCheck o) db =
    some (if o.checked db.table then none else some (.pickCheck o.detail.groupMark), db) := rfl

theorem run_pickInstance : run (w.serve caller) (pickInstance o attempt group) db =
    match o.candidates db.table with
    | none => some (.error (.emptyMountDisk o.detail.groupMark), db)
    | some items =>
      match o.pick (w.pickOrder attempt group) items with
      | .returned (some err, _) => some (.error (.queue err), db)
      | .returned (none, picker) =>
        if picker.pickerDone then some (.ok ⟨o.detail.groupMark, picker.satisfiedHostIds⟩, db)
        else some (.error (.affinity o.detail.groupMark), db)
      | .blocked => none
      | .outOfFuel => none := by
  show run (w.serve caller) (match o.candidates db.table with
    | none => pure (.error (ApplyError.emptyMountDisk o.detail.groupMark))
    | some items => do
      match o.pick (← pickOrder attempt group) items with
      | .returned (some err, _) => pure (.error (.queue err))
      | .returned (none, picker) =>
        if picker.pickerDone then pure (.ok ⟨o.detail.groupMark, picker.satisfiedHostIds⟩)
        else pure (.error (.affinity o.detail.groupMark))
      | .blocked => hang
      | .outOfFuel => hang : Handler (Except ApplyError Picked)) db = _
  cases o.candidates db.table with
  | none => rfl
  | some items =>
    simp only
    show run (w.serve caller) (match o.pick (w.pickOrder attempt group) items with
      | .returned (some err, _) => pure (.error (ApplyError.queue err))
      | .returned (none, picker) =>
        if picker.pickerDone then pure (.ok ⟨o.detail.groupMark, picker.satisfiedHostIds⟩)
        else pure (.error (.affinity o.detail.groupMark))
      | .blocked => hang
      | .outOfFuel => hang : Handler (Except ApplyError Picked)) db = _
    cases o.pick (w.pickOrder attempt group) items with
    | returned result =>
      obtain ⟨err, picker⟩ := result
      cases err with
      | some err => rfl
      | none =>
        simp only
        split <;> rfl
    | blocked => rfl
    | outOfFuel => rfl

theorem run_preselected {picker : Picked} :
    run (w.serve caller) (preselectedSatisfiedInstance picker) db =
      some (if (preselectFromUnused caller picker.satisfiedHostIds db.table).1 =
          picker.satisfiedHostIds.length then none else some (.preselect picker.item),
        { db with table := (preselectFromUnused caller picker.satisfiedHostIds db.table).2 }) := rfl

/-- What `PickInstance` answers is what the group is given. -/
theorem given_of_pickInstance {r : Except ApplyError Picked}
    (h : run (w.serve caller) (pickInstance o attempt group) db = some (r, db'))
    (hchecked : o.checked db.table = true) : db' = db ∧
      ((o.given (w.pickOrder attempt group) db.table = none ∧ ∃ err, r = .error err) ∨
        ∃ ids, o.given (w.pickOrder attempt group) db.table = some ids ∧
          r = .ok ⟨o.detail.groupMark, ids⟩) := by
  rw [run_pickInstance] at h
  unfold Search.given
  rw [if_pos hchecked]
  cases hcandidates : o.candidates db.table with
  | none =>
    rw [hcandidates] at h
    cases h
    exact ⟨rfl, .inl ⟨rfl, _, rfl⟩⟩
  | some items =>
    rw [hcandidates] at h
    simp only [Option.bind_some] at h ⊢
    cases hpick : o.pick (w.pickOrder attempt group) items with
    | returned result =>
      obtain ⟨err, picker⟩ := result
      rw [hpick] at h
      cases err with
      | some err =>
        cases h
        exact ⟨rfl, .inl ⟨rfl, _, rfl⟩⟩
      | none =>
        simp only at h ⊢
        split at h
        · rename_i hdone
          cases h
          exact ⟨rfl, .inr ⟨_, if_pos hdone, rfl⟩⟩
        · rename_i hdone
          cases h
          exact ⟨rfl, .inl ⟨if_neg hdone, _, rfl⟩⟩
    | blocked =>
      rw [hpick] at h
      cases h
    | outOfFuel =>
      rw [hpick] at h
      cases h

/-- A group is not served, and nothing changes; or its hosts are preselected, and it ends well if as many
rows were affected. -/
theorem run_applyGroup {r : Except ApplyError Picked}
    (h : run (w.serve caller) (applyGroup o attempt group) db = some (r, db')) :
    (o.given (w.pickOrder attempt group) db.table = none ∧ db' = db ∧ ∃ err, r = .error err) ∨
    ∃ ids, o.given (w.pickOrder attempt group) db.table = some ids ∧
      db'.table = (preselectFromUnused caller ids db.table).2 ∧
      (((preselectFromUnused caller ids db.table).1 = ids.length ∧ r = .ok ⟨o.detail.groupMark, ids⟩) ∨
        ((preselectFromUnused caller ids db.table).1 ≠ ids.length ∧ ∃ err, r = .error err)) := by
  obtain ⟨check, db₁, hcheck, h⟩ := exists_of_run_bind h
  cases run_pickCheck.symm.trans hcheck
  cases hchecked : o.checked db.table with
  | false =>
    rw [hchecked] at h
    cases h
    exact .inl ⟨if_neg (by simp [hchecked]), rfl, _, rfl⟩
  | true =>
    rw [hchecked] at h
    obtain ⟨picked, db₁, hpicked, h⟩ := exists_of_run_bind h
    obtain ⟨rfl, ⟨hgiven, err, rfl⟩ | ⟨ids, hgiven, rfl⟩⟩ := given_of_pickInstance hpicked hchecked
    · cases h
      exact .inl ⟨hgiven, rfl, _, rfl⟩
    · refine .inr ⟨ids, hgiven, ?_⟩
      obtain ⟨refused, db₂, hpreselect, h⟩ := exists_of_run_bind h
      cases run_preselected.symm.trans hpreselect
      by_cases haffected : (preselectFromUnused caller ids db₁.table).1 = ids.length
      · rw [if_pos haffected] at h
        cases h
        exact ⟨rfl, .inl ⟨haffected, rfl⟩⟩
      · rw [if_neg haffected] at h
        cases h
        exact ⟨rfl, .inr ⟨haffected, _, rfl⟩⟩

/-- Some group is not served, and the hosts picked for the groups before it have one row each that is
Unused or Preselected. `find` is none where the cities of a group are not found. -/
def Undone (caller : Caller) (order : ℕ → Runtime) (find : ObjectDetail → Option Search) :
    ℕ → List ObjectDetail → Table → Prop
  | _, [], _ => False
  | group, v :: vs, t =>
    match (find v).bind fun o => o.given (order group) t with
    | none => True
    | some ids =>
      Sole ids t ∧ Undone caller order find (group + 1) vs (preselectFromUnused caller ids t).2

theorem undone_bare (h : bare t' = bare t) :
    Undone caller order find group vs t' ↔ Undone caller order find group vs t := by
  induction vs generalizing group t t' with
  | nil => exact Iff.rfl
  | cons v vs ih =>
    have hgiven : ((find v).bind fun o => o.given (order group) t') =
        (find v).bind fun o => o.given (order group) t := by
      cases find v with
      | none => rfl
      | some o => exact given_bare h
    unfold Undone
    rw [hgiven]
    split
    · exact Iff.rfl
    · exact and_congr (sole_bare h) (ih (bare_preselect h))

/-- What one go at the groups does: `picked` are preselected as a whole, of `E` a part or too much. -/
structure Tried (caller : Caller) (t t' : Table) (picked : List Picked) (E : List ℤ) : Prop where
  table : t' = (preselectFromUnused caller (hostIds picked ++ E) t).2
  unused : ∀ x ∈ hostIds picked ++ E, Shows x .unused t
  apart : ∀ x ∈ E, x ∉ hostIds picked

theorem tried_nothing : Tried caller t t [] [] where
  table := by
    show t = t.map _
    refine ((List.map_congr_left fun r _ => ?_).trans (List.map_id t)).symm
    simp [hostIds, Row.matched, Row.listed]
  unused := nofun
  apart := nofun

theorem Tried.cons {picker : Picked} {picked : List Picked}
    (h : Tried caller (preselectFromUnused caller picker.satisfiedHostIds t).2 t' picked E)
    (hunused : ∀ x ∈ picker.satisfiedHostIds, Shows x .unused t) :
    Tried caller t t' (picker :: picked) E ∧
      ∀ x ∈ hostIds picked ++ E, x ∉ picker.satisfiedHostIds := by
  have hfresh : ∀ x ∈ hostIds picked ++ E, x ∉ picker.satisfiedHostIds := fun x hx hin =>
    not_unused_preselect hin (h.unused x hx)
  refine ⟨⟨?_, fun x hx => ?_, fun x hx hin => ?_⟩, hfresh⟩
  · rw [h.table, hostIds_cons, List.append_assoc]
    exact preselect_append.symm
  · rw [hostIds_cons, List.append_assoc] at hx
    rcases List.mem_append.mp hx with hx | hx
    · exact hunused x hx
    · exact (shows_preselect_of_notMem (hfresh x hx)).mp (h.unused x hx)
  · rw [hostIds_cons] at hin
    rcases List.mem_append.mp hin with hin | hin
    · exact hfresh x (List.mem_append_right _ hx) hin
    · exact h.apart x hx hin

theorem run_applyGroups
    (hsearch : ∀ v db, ∃ err, run (w.serve caller) (search v) db =
      some ((find v).elim (.error err) .ok, db))
    (h : run (w.serve caller) (applyGroups search attempt group vs pickers) db = some (result, db')) :
    ∃ picked E, result.1 = pickers ++ picked ∧ Tried caller db.table db'.table picked E ∧
      (result.2 = none → vs ≠ [] → hostIds picked ≠ []) ∧
      (Undone caller (w.pickOrder attempt) find group vs db.table ↔
        result.2 ≠ none ∧ E = [] ∧ ∀ x ∈ hostIds picked, ¬ Shows x .preselected db.table) := by
  induction vs generalizing group pickers db with
  | nil =>
    cases h
    refine ⟨[], [], (List.append_nil _).symm, tried_nothing, fun _ h => absurd rfl h, ?_⟩
    exact ⟨False.elim, fun h => absurd rfl h.1⟩
  | cons v vs ih =>
    unfold Undone
    obtain ⟨found, db₁, hfound, h⟩ := exists_of_run_bind h
    obtain ⟨err, hrun⟩ := hsearch v db
    cases hrun.symm.trans hfound
    cases hv : find v with
    | none =>
      rw [hv] at h
      cases h
      refine ⟨[], [], (List.append_nil _).symm, tried_nothing, nofun, ?_⟩
      exact ⟨fun _ => ⟨nofun, rfl, nofun⟩, fun _ => trivial⟩
    | some o =>
      rw [hv] at h
      obtain ⟨applied, db₁, happlied, h⟩ := exists_of_run_bind h
      simp only [Option.bind_some]
      rcases run_applyGroup happlied with
        ⟨hgiven, rfl, err, rfl⟩ | ⟨ids, hgiven, htable, ⟨haffected, rfl⟩ | ⟨haffected, err, rfl⟩⟩
      · cases h
        refine ⟨[], [], (List.append_nil _).symm, tried_nothing, nofun, ?_⟩
        rw [hgiven]
        exact ⟨fun _ => ⟨nofun, rfl, nofun⟩, fun _ => trivial⟩
      · obtain ⟨picked, E, hresult, htried, hsome, hundone⟩ := ih h
        rw [htable] at htried hundone
        let picker : Picked := ⟨o.detail.groupMark, ids⟩
        obtain ⟨hall, hfresh⟩ := @Tried.cons caller _ _ E picker picked htried
          fun x hx => given_unused hgiven hx
        refine ⟨⟨o.detail.groupMark, ids⟩ :: picked, E, ?_, hall, fun _ _ hnil => ?_, ?_⟩
        · rw [hresult, List.append_assoc]
          rfl
        · exact (given_subperm hgiven).1 (List.append_eq_nil_iff.mp hnil).1
        · rw [hgiven]
          simp only
          rw [sole_iff hgiven, hundone]
          constructor
          · rintro ⟨⟨-, hids⟩, herr, hE, hpicked⟩
            refine ⟨herr, hE, fun x hx => ?_⟩
            rw [hostIds_cons] at hx
            rcases List.mem_append.mp hx with hx | hx
            · exact hids x hx
            · have hout := hfresh x (List.mem_append_left _ hx)
              exact fun hs => hpicked x hx ((shows_preselect_of_notMem hout).mpr hs)
          · rintro ⟨herr, hE, hall⟩
            refine ⟨⟨haffected, fun x hx => ?_⟩, herr, hE, fun x hx hs => ?_⟩
            · exact hall x (List.mem_append_left _ hx)
            · have hout := hfresh x (List.mem_append_left _ hx)
              exact hall x (List.mem_append_right _ hx) ((shows_preselect_of_notMem hout).mp hs)
      · cases h
        refine ⟨[], ids, (List.append_nil _).symm,
          ⟨htable, fun x hx => given_unused hgiven hx, fun _ _ => nofun⟩, nofun, ?_⟩
        rw [hgiven]
        constructor
        · exact fun hall => absurd ((sole_iff hgiven).mp hall.1).1 haffected
        · exact fun hall => absurd hall.2.1 (given_subperm hgiven).1

variable {picked : List Picked}

/-- A rollback of what was preselected as a whole restores the table, or it does not for good. -/
theorem Tried.bare_rolledBack (h : Tried caller t t' picked E) (hE : E = [])
    (hnone : ∀ x ∈ hostIds picked, ¬ Shows x .preselected t) :
    bare (rollbackUnused (hostIds picked) t') = bare t := by
  subst hE
  rw [h.table, List.append_nil]
  exact Resource.bare_rolledBack hnone

/-- The difference to an earlier table that no rollback of the pickers makes up for. -/
def Spoilt (t u : Table) (pickers : List Picked) : Prop :=
  (∃ x, Mixed x t ∧ ¬ Mixed x u) ∨
    ∃ x, Shows x .unused t ∧ ¬ Shows x .unused u ∧ x ∉ hostIds pickers

theorem Tried.spoilt (h : Tried caller t t' picked E)
    (hnot : ¬ (E = [] ∧ ∀ x ∈ hostIds picked, ¬ Shows x .preselected t)) :
    Spoilt t (rollbackUnused (hostIds picked) t') picked := by
  by_cases hE : E = []
  · have hsome : ∃ x ∈ hostIds picked, Shows x .preselected t := by
      by_contra hnone
      exact hnot ⟨hE, fun x hx hs => hnone ⟨x, hx, hs⟩⟩
    obtain ⟨x, hx, hs⟩ := hsome
    refine .inl ⟨x, ⟨h.unused x (List.mem_append_left _ hx), hs⟩, fun hmixed => ?_⟩
    exact not_preselected_rollback hx hmixed.2
  · obtain ⟨x, hx⟩ := List.exists_mem_of_ne_nil E hE
    have hout := h.apart x hx
    refine .inr ⟨x, h.unused x (List.mem_append_right _ hx), fun hs => ?_, hout⟩
    rw [shows_rollback_of_notMem hout, h.table] at hs
    exact not_unused_preselect (List.mem_append_right _ hx) hs

theorem Spoilt.ne (h : Spoilt t u pickers) : statuses u ≠ statuses t ∧
    statuses (rollbackUnused (hostIds pickers) u) ≠ statuses t := by
  rcases h with ⟨x, hmixed, hnot⟩ | ⟨x, hunused, hnot, hout⟩
  · refine ⟨fun heq => ?_, fun heq => ?_⟩
    · exact hnot ⟨hmixed.1.of_statuses heq, hmixed.2.of_statuses heq⟩
    · exact not_mixed_rollback hnot ⟨hmixed.1.of_statuses heq, hmixed.2.of_statuses heq⟩
  · refine ⟨fun heq => hnot (hunused.of_statuses heq), fun heq => hnot ?_⟩
    exact (shows_rollback_of_notMem hout).mp (hunused.of_statuses heq)

theorem Tried.not_mixed (h : Tried caller t t' picked E) (hnot : ¬ Mixed x t) : ¬ Mixed x t' := by
  rw [h.table]
  exact not_mixed_preselect hnot

theorem Tried.not_unused (h : Tried caller t t' picked E) (hnot : ¬ Shows x .unused t) :
    ¬ Shows x .unused t' ∧ x ∉ hostIds picked := by
  have hout : x ∉ hostIds picked ++ E := fun hin => hnot (h.unused x hin)
  refine ⟨?_, fun hin => hout (List.mem_append_left _ hin)⟩
  rw [h.table]
  exact fun hs => hnot ((shows_preselect_of_notMem hout).mp hs)

/-- What every group is served stays different. -/
theorem Tried.ne (h : Tried caller t t' picked E) (hne : hostIds picked ≠ []) :
    statuses t' ≠ statuses t := by
  intro heq
  obtain ⟨x, hx⟩ := List.exists_mem_of_ne_nil _ hne
  have hin : x ∈ hostIds picked ++ E := List.mem_append_left _ hx
  have hunused := (h.unused x hin).of_statuses heq
  rw [h.table] at hunused
  exact not_unused_preselect hin hunused

end Groups

section SameLocation

variable {vs : List ObjectDetail} {idcCitys : List String} {attempt : ℕ} {zone : String}
  {zones : List String} {result : List Picked × Option ApplyError}

/-- All groups in one sub-zone. -/
def inZone (idcCitys : List String) (zone : String) (v : ObjectDetail) : Option Search :=
  some ⟨v, idcCitys, [zone]⟩

theorem run_inZone (idcCitys : List String) (zone : String) (v : ObjectDetail) (db : Db) : ∃ err,
    run (w.serve caller) (pure (.ok ⟨v, idcCitys, [zone]⟩) : Handler (Except ApplyError Search)) db =
      some ((inZone idcCitys zone v).elim (.error err) .ok, db) := ⟨.idcCitys, rfl⟩

/-- All groups in one sub-zone, and then the end or the next one. -/
theorem trySubZone_cases
    (h : run (w.serve caller) (trySubZones vs idcCitys attempt zone zones) db = some (result, db')) :
    ∃ pickers err db₁, run (w.serve caller)
        (applyGroups (fun v => pure (.ok ⟨v, idcCitys, [zone]⟩)) attempt 0 vs []) db =
          some ((pickers, err), db₁) ∧
      ((err = none ∧ result = (pickers, none) ∧ db' = db₁) ∨
        err ≠ none ∧ ((zones = [] ∧ result = (pickers, err) ∧
            db' = { db₁ with table := rollbackUnused (hostIds pickers) db₁.table }) ∨
          ∃ next rest, zones = next :: rest ∧
            run (w.serve caller) (trySubZones vs idcCitys (attempt + 1) next rest)
              { db₁ with table := rollbackUnused (hostIds pickers) db₁.table } = some (result, db'))) := by
  unfold trySubZones at h
  obtain ⟨⟨pickers, err⟩, db₁, happlied, h⟩ := exists_of_run_bind h
  refine ⟨pickers, err, db₁, happlied, ?_⟩
  cases err with
  | none =>
    cases h
    exact .inl ⟨rfl, rfl, rfl⟩
  | some err =>
    obtain ⟨_, db₂, hrollback, h⟩ := exists_of_run_bind h
    cases run_rollBackAll.symm.trans hrollback
    refine .inr ⟨nofun, ?_⟩
    cases zones with
    | nil =>
      cases h
      exact .inl ⟨rfl, rfl, rfl⟩
    | cons next rest => exact .inr ⟨next, rest, rfl, h⟩

/-- One attempt, with the rollback that follows it where it fails. -/
theorem run_trySubZone
    (h : run (w.serve caller) (trySubZones vs idcCitys attempt zone zones) db = some (result, db')) :
    ∃ pickers err t' E, Tried caller db.table t' pickers E ∧
      (err = none → vs ≠ [] → hostIds pickers ≠ []) ∧
      (Undone caller (w.pickOrder attempt) (inZone idcCitys zone) 0 vs db.table ↔
        err ≠ none ∧ E = [] ∧ ∀ x ∈ hostIds pickers, ¬ Shows x .preselected db.table) ∧
      ((err = none ∧ result = (pickers, none) ∧ db'.table = t') ∨
        err ≠ none ∧ ((zones = [] ∧ result = (pickers, err) ∧
            db'.table = rollbackUnused (hostIds pickers) t') ∨
          ∃ next rest db₁, zones = next :: rest ∧ db₁.table = rollbackUnused (hostIds pickers) t' ∧
            run (w.serve caller) (trySubZones vs idcCitys (attempt + 1) next rest) db₁ =
              some (result, db'))) := by
  obtain ⟨pickers, err, db₁, happlied, hend⟩ := trySubZone_cases h
  obtain ⟨picked, E, hresult, htried, hsome, hundone⟩ :=
    run_applyGroups (run_inZone idcCitys zone) happlied
  rw [List.nil_append] at hresult
  subst hresult
  refine ⟨pickers, err, db₁.table, E, htried, hsome, hundone, ?_⟩
  rcases hend with ⟨herr, hresult, rfl⟩ | ⟨herr, ⟨hnil, hresult, rfl⟩ | ⟨next, rest, hcons, hrun⟩⟩
  · exact .inl ⟨herr, hresult, rfl⟩
  · exact .inr ⟨herr, .inl ⟨hnil, hresult, rfl⟩⟩
  · exact .inr ⟨herr, .inr ⟨next, rest, _, hcons, rfl, hrun⟩⟩

/-- No attempt brings back what was spoilt before it. -/
theorem trySubZones_keeps
    (h : run (w.serve caller) (trySubZones vs idcCitys attempt zone zones) db = some (result, db')) :
    (¬ Mixed x db.table → ¬ Mixed x db'.table) ∧
      (¬ Shows x .unused db.table → ¬ Shows x .unused db'.table ∧ x ∉ hostIds result.1) := by
  induction zones generalizing attempt zone db with
  | nil =>
    obtain ⟨pickers, err, t', E, htried, -, -, ⟨-, rfl, htable⟩ | ⟨-, ⟨-, rfl, htable⟩ | hnext⟩⟩ :=
      run_trySubZone h
    · rw [htable]
      exact ⟨htried.not_mixed, htried.not_unused⟩
    · rw [htable]
      refine ⟨fun hnot => not_mixed_rollback (htried.not_mixed hnot), fun hnot => ?_⟩
      obtain ⟨hstill, hout⟩ := htried.not_unused hnot
      exact ⟨fun hs => hstill ((shows_rollback_of_notMem hout).mp hs), hout⟩
    · obtain ⟨next, rest, db₁, hcons, -⟩ := hnext
      cases hcons
  | cons next zones ih =>
    obtain ⟨pickers, err, t', E, htried, -, -, ⟨-, rfl, htable⟩ | ⟨-, ⟨hnil, -⟩ | hnext⟩⟩ :=
      run_trySubZone h
    · rw [htable]
      exact ⟨htried.not_mixed, htried.not_unused⟩
    · cases hnil
    · obtain ⟨next', rest, db₁, hcons, htable, hrest⟩ := hnext
      cases hcons
      obtain ⟨hmixed, hunused⟩ := ih hrest
      rw [htable] at hmixed hunused
      refine ⟨fun hnot => hmixed (not_mixed_rollback (htried.not_mixed hnot)), fun hnot => ?_⟩
      obtain ⟨hstill, hout⟩ := htried.not_unused hnot
      exact hunused fun hs => hstill ((shows_rollback_of_notMem hout).mp hs)

/-- All attempts are undone. -/
def AllUndone (caller : Caller) (w : Surroundings) (vs : List ObjectDetail) (idcCitys : List String)
    (attempt : ℕ) (zones : List String) (t : Table) : Prop :=
  ∀ i zone, zones[i]? = some zone →
    Undone caller (w.pickOrder (attempt + i)) (inZone idcCitys zone) 0 vs t

theorem allUndone_cons : AllUndone caller w vs idcCitys attempt (zone :: zones) t ↔
    Undone caller (w.pickOrder attempt) (inZone idcCitys zone) 0 vs t ∧
      AllUndone caller w vs idcCitys (attempt + 1) zones t := by
  constructor
  · intro h
    refine ⟨h 0 zone rfl, fun i z hz => ?_⟩
    rw [Nat.add_assoc, Nat.add_comm 1 i]
    exact h (i + 1) z hz
  · rintro ⟨hfirst, hrest⟩ i z hz
    cases i with
    | zero =>
      cases hz
      exact hfirst
    | succ i =>
      rw [← Nat.add_assoc, Nat.add_right_comm]
      exact hrest i z hz

theorem allUndone_bare (h : bare t' = bare t) :
    AllUndone caller w vs idcCitys attempt zones t' ↔ AllUndone caller w vs idcCitys attempt zones t :=
  forall_congr' fun _ => forall_congr' fun _ => imp_congr_right fun _ => undone_bare h

theorem trySubZones_undone
    (h : run (w.serve caller) (trySubZones vs idcCitys attempt zone zones) db = some (result, db'))
    (hundone : AllUndone caller w vs idcCitys attempt (zone :: zones) db.table) :
    result.2 ≠ none ∧ bare db'.table = bare db.table ∧
      ∀ x ∈ hostIds result.1, ¬ Shows x .preselected db.table := by
  induction zones generalizing attempt zone db with
  | nil =>
    obtain ⟨pickers, err, t', E, htried, -, hiff, hend⟩ := run_trySubZone h
    obtain ⟨herr, hE, hnone⟩ := hiff.mp (allUndone_cons.mp hundone).1
    rcases hend with ⟨hok, -⟩ | ⟨-, ⟨-, rfl, htable⟩ | ⟨next, rest, db₁, hcons, -⟩⟩
    · exact absurd hok herr
    · exact ⟨herr, by rw [htable, htried.bare_rolledBack hE hnone], hnone⟩
    · cases hcons
  | cons next zones ih =>
    obtain ⟨hfirst, hrest⟩ := allUndone_cons.mp hundone
    obtain ⟨pickers, err, t', E, htried, -, hiff, hend⟩ := run_trySubZone h
    obtain ⟨herr, hE, hnone⟩ := hiff.mp hfirst
    rcases hend with ⟨hok, -⟩ | ⟨-, ⟨hnil, -⟩ | ⟨next', rest, db₁, hcons, htable, hrun⟩⟩
    · exact absurd hok herr
    · cases hnil
    · cases hcons
      have hbare : bare db₁.table = bare db.table := by
        rw [htable, htried.bare_rolledBack hE hnone]
      obtain ⟨herr', hbare', hnone'⟩ := ih hrun ((allUndone_bare hbare).mpr hrest)
      refine ⟨herr', hbare'.trans hbare, fun x hx hs => hnone' x hx ?_⟩
      exact hs.of_statuses (statuses_of_bare hbare)

theorem Spoilt.trySubZones {pickers : List Picked} (hspoilt : Spoilt t db.table pickers)
    (h : run (w.serve caller) (trySubZones vs idcCitys attempt zone zones) db = some (result, db')) :
    Spoilt t db'.table result.1 := by
  rcases hspoilt with ⟨x, hmixed, hnot⟩ | ⟨x, hunused, hnot, -⟩
  · exact .inl ⟨x, hmixed, (trySubZones_keeps h).1 hnot⟩
  · exact .inr ⟨x, hunused, (trySubZones_keeps h).2 hnot⟩

/-- An attempt that is not undone shows in the end. -/
theorem trySubZones_not_undone
    (h : run (w.serve caller) (trySubZones vs idcCitys attempt zone zones) db = some (result, db'))
    (hvs : vs ≠ []) (hnot : ¬ AllUndone caller w vs idcCitys attempt (zone :: zones) db.table) :
    statuses db'.table ≠ statuses db.table ∧ (result.2 ≠ none →
      statuses (rollbackUnused (hostIds result.1) db'.table) ≠ statuses db.table) := by
  induction zones generalizing attempt zone db with
  | nil =>
    obtain ⟨pickers, err, t', E, htried, hsome, hiff, hend⟩ := run_trySubZone h
    have hfirst : ¬ Undone caller (w.pickOrder attempt) (inZone idcCitys zone) 0 vs db.table :=
      fun hfirst => hnot (allUndone_cons.mpr ⟨hfirst, fun _ _ => nofun⟩)
    rw [hiff] at hfirst
    rcases hend with ⟨hok, rfl, htable⟩ | ⟨herr, ⟨-, rfl, htable⟩ | ⟨next, rest, db₁, hcons, -⟩⟩
    · rw [htable]
      exact ⟨htried.ne (hsome hok hvs), fun hsome => absurd rfl hsome⟩
    · have hspoilt := htried.spoilt fun hrest => hfirst ⟨herr, hrest⟩
      rw [htable]
      exact ⟨hspoilt.ne.1, fun _ => hspoilt.ne.2⟩
    · cases hcons
  | cons next zones ih =>
    obtain ⟨pickers, err, t', E, htried, hsome, hiff, hend⟩ := run_trySubZone h
    rcases hend with ⟨hok, rfl, htable⟩ | ⟨herr, ⟨hnil, -⟩ | ⟨next', rest, db₁, hcons, htable, hrun⟩⟩
    · rw [htable]
      exact ⟨htried.ne (hsome hok hvs), fun hsome => absurd rfl hsome⟩
    · cases hnil
    · cases hcons
      by_cases hfirst : E = [] ∧ ∀ x ∈ hostIds pickers, ¬ Shows x .preselected db.table
      · have hbare : bare db₁.table = bare db.table := by
          rw [htable, htried.bare_rolledBack hfirst.1 hfirst.2]
        rw [← statuses_of_bare hbare]
        refine ih hrun fun hrest => hnot (allUndone_cons.mpr ⟨hiff.mpr ⟨herr, hfirst⟩, ?_⟩)
        exact (allUndone_bare hbare).mp hrest
      · have hspoilt := htried.spoilt hfirst
        rw [← htable] at hspoilt
        have hlast := hspoilt.trySubZones hrun
        exact ⟨hlast.ne.1, fun _ => hlast.ne.2⟩

end SameLocation

section DryRun

variable {param : RequestInputParam} {mode : Mode} {reply : Reply}

/-- The cities of a group's location, as they are looked up. -/
def Surroundings.logicIdcCitys (w : Surroundings) (runMode : String) (v : ObjectDetail) :
    Option (List String) :=
  if runMode = "dev" then some []
  else if v.affinity ∉ [.crossRack, .none, .crossSubzoneStrong, .crossSubzoneWeak] ||
      v.locationSpec.city ≠ "" || !v.hosts.isEmpty then w.idcCitys v.locationSpec.city
  else some []

theorem run_getLogicIdcCitys {v : ObjectDetail} :
    run (w.serve caller) (getLogicIdcCitys runMode v) db = some (w.logicIdcCitys runMode v, db) := by
  unfold getLogicIdcCitys Surroundings.logicIdcCitys
  split
  · rfl
  · split <;> rfl

/-- The search of a group that may stand anywhere. -/
def Surroundings.anywhere (w : Surroundings) (runMode : String) (v : ObjectDetail) : Option Search :=
  (w.logicIdcCitys runMode v).map fun idcCitys => ⟨v, idcCitys, []⟩

/-- The sub-zones that are tried for the groups together. -/
def Surroundings.subZones (w : Surroundings) (param : RequestInputParam) (vs : List ObjectDetail)
    (idcCitys : List String) (t : Table) : List String :=
  let (specialSubZoneIds, isExclude) := param.specialSubZoneIds
  if !isExclude && !specialSubZoneIds.isEmpty then specialSubZoneIds
  else
    let groupcampusNice := vs.foldl (fun groups v =>
      (groups.filter fun g => g.1 ≠ v.groupMark) ++
        [(v.groupMark, campusNice v (t.filter (Search.mk v idcCitys []).pickBase))]) []
    let nsubzoneIds := sortgroupcampusNice w.campusOrder groupcampusNice
    if isExclude && !specialSubZoneIds.isEmpty then
      nsubzoneIds.filter fun z => z ∉ specialSubZoneIds
    else nsubzoneIds

theorem run_getGroupcampusNice {idcCitys : List String} {vs : List ObjectDetail}
    {groups : List (String × List CampusNice)} :
    run (w.serve caller) (getGroupcampusNice idcCitys vs groups) db =
      some (some (vs.foldl (fun groups v => (groups.filter fun g => g.1 ≠ v.groupMark) ++
        [(v.groupMark, campusNice v (db.table.filter (Search.mk v idcCitys []).pickBase))])
          groups), db) := by
  induction vs generalizing groups with
  | nil => rfl
  | cons v vs ih => exact ih

theorem run_candidateSubZones {idcCitys : List String} {vs : List ObjectDetail} :
    run (w.serve caller) (candidateSubZones param vs idcCitys) db =
      some (some (w.subZones param vs idcCitys db.table), db) := by
  unfold candidateSubZones Surroundings.subZones
  simp only
  split
  · rfl
  · rw [run_bind, run_getGroupcampusNice]
    rfl

/-- Wherever the request looks for its hosts, some group is not served, and what was picked before can be
undone. -/
def RequestInputParam.SearchUndone (param : RequestInputParam) (w : Surroundings) (runMode : String)
    (caller : Caller) (t : Table) : Prop :=
  let vs := param.sortDetails w.detailOrder
  if param.sameLocation then
    ∀ v ∈ vs.head?, ∀ idcCitys ∈ w.logicIdcCitys runMode v,
      AllUndone caller w vs idcCitys 0 (w.subZones param vs idcCitys t) t
  else Undone caller (w.pickOrder 0) (w.anywhere runMode) 0 vs t

/-- The table when a dry run returns. -/
def ended (result : List Picked × Option ApplyError) (t : Table) : Table :=
  if result.2 = none then t else rollbackUnused (hostIds result.1) t

theorem perm_sortDetails {order : DetailOrder} : (param.sortDetails order).Perm param.details := by
  unfold RequestInputParam.sortDetails
  split
  · exact .refl _
  · exact (List.perm_insertionSort _ _).trans (order.perm _)

theorem sortDetails_ne_nil {order : DetailOrder} : param.sortDetails order ≠ [] := by
  intro hnil
  have hperm := @perm_sortDetails param order
  rw [hnil] at hperm
  exact param.details_ne_nil hperm.nil_eq.symm

theorem run_anywhere (v : ObjectDetail) (db : Db) : ∃ err,
    run (w.serve caller) (do
      match ← getLogicIdcCitys runMode v with
      | none => pure (.error .idcCitys)
      | some idcCitys => pure (.ok ⟨v, idcCitys, []⟩) : Handler (Except ApplyError Search)) db =
      some ((w.anywhere runMode v).elim (.error err) .ok, db) := by
  refine ⟨.idcCitys, ?_⟩
  rw [run_bind, run_getLogicIdcCitys]
  unfold Surroundings.anywhere
  cases w.logicIdcCitys runMode v <;> rfl

theorem run_cycleApplySequential {result : List Picked × Option ApplyError}
    (h : run (w.serve caller) (cycleApplySequential runMode param) db = some (result, db')) :
    statuses (ended result db'.table) = statuses db.table ↔
      Undone caller (w.pickOrder 0) (w.anywhere runMode) 0 (param.sortDetails w.detailOrder) db.table := by
  obtain ⟨order, db₁, horder, h⟩ := exists_of_run_bind h
  have horder' : some (w.detailOrder, db) = some (order, db₁) := horder
  cases horder'
  obtain ⟨picked, E, hresult, htried, hsome, hundone⟩ := run_applyGroups run_anywhere h
  rw [List.nil_append] at hresult
  rw [hundone, ended, hresult]
  cases herr : result.2 with
  | none =>
    have hne := htried.ne (hsome herr sortDetails_ne_nil)
    rw [if_pos rfl]
    exact ⟨fun heq => absurd heq hne, fun h => absurd rfl h.1⟩
  | some err =>
    rw [if_neg nofun]
    refine ⟨fun heq => ⟨nofun, ?_⟩, fun h => ?_⟩
    · by_contra hnot
      exact (htried.spoilt hnot).ne.1 heq
    · exact statuses_of_bare (htried.bare_rolledBack h.2.1 h.2.2)

theorem run_applyGroupsInSameLocation {result : List Picked × Option ApplyError}
    (h : run (w.serve caller) (applyGroupsInSameLocation runMode param) db = some (result, db')) :
    statuses (ended result db'.table) = statuses db.table ↔
      ∀ v ∈ (param.sortDetails w.detailOrder).head?, ∀ idcCitys ∈ w.logicIdcCitys runMode v,
        AllUndone caller w (param.sortDetails w.detailOrder) idcCitys 0
          (w.subZones param (param.sortDetails w.detailOrder) idcCitys db.table) db.table := by
  obtain ⟨order, db₁, horder, h⟩ := exists_of_run_bind h
  have horder' : some (w.detailOrder, db) = some (order, db₁) := horder
  cases horder'
  cases hvs : param.sortDetails w.detailOrder with
  | nil => exact absurd hvs sortDetails_ne_nil
  | cons v vs =>
    rw [hvs] at h
    obtain ⟨citys, db₁, hcitys, h⟩ := exists_of_run_bind h
    cases run_getLogicIdcCitys.symm.trans hcitys
    simp only [List.head?_cons, Option.mem_def, Option.some.injEq, forall_eq']
    cases hfound : w.logicIdcCitys runMode v with
    | none =>
      rw [hfound] at h
      cases h
      refine ⟨fun _ => nofun, fun _ => ?_⟩
      exact congrArg statuses (rollback_of_not_preselected nofun)
    | some idcCitys =>
      rw [hfound] at h
      obtain ⟨zones, db₁, hzones, h⟩ := exists_of_run_bind h
      cases run_candidateSubZones.symm.trans hzones
      simp only [Option.some.injEq, forall_eq']
      generalize w.subZones param (v :: vs) idcCitys db.table = zones at h ⊢
      cases zones with
      | nil =>
        cases h
        refine ⟨fun _ _ _ => nofun, fun _ => ?_⟩
        exact congrArg statuses (rollback_of_not_preselected nofun)
      | cons zone zones =>
        constructor
        · intro heq
          by_contra hnot
          obtain ⟨hne, hrolledBack⟩ := trySubZones_not_undone h nofun hnot
          unfold ended at heq
          split at heq
          · exact hne heq
          · rename_i herr
            exact hrolledBack herr heq
        · intro hundone
          obtain ⟨herr, hbare, hnone⟩ := trySubZones_undone h hundone
          have hstatuses := statuses_of_bare hbare
          -- the last pickers are rolled back a second time
          rw [ended, if_neg herr, rollback_of_not_preselected, hstatuses]
          exact fun x hx hs => hnone x hx (hs.of_statuses hstatuses.symm)

/-- What a dry run changes. -/
theorem dry_run_restores (hdry : param.dryRun = true)
    (h : run (w.serve caller) (applyBase runMode param mode) db = some (reply, db')) :
    statuses db'.table = statuses db.table ↔
      param.paramCheck ≠ none ∨ param.SearchUndone w runMode caller db.table := by
  unfold applyBase at h
  cases hcheck : param.paramCheck with
  | some err =>
    rw [hcheck] at h
    cases h
    exact ⟨fun _ => .inl nofun, fun _ => rfl⟩
  | none =>
    rw [hcheck] at h
    have hlock : obtainLock param = pure true := if_pos hdry
    simp only [hlock, Prog.pure_eq, Prog.done_bind, Bool.not_true, Bool.false_eq_true, if_false] at h
    obtain ⟨⟨pickers, err⟩, db₁, hcycle, h⟩ := exists_of_run_bind h
    have hended : statuses (ended (pickers, err) db₁.table) = statuses db.table ↔
        param.SearchUndone w runMode caller db.table := by
      unfold cycleApply at hcycle
      unfold RequestInputParam.SearchUndone
      split at hcycle
      · rename_i hsame
        rw [if_pos hsame]
        exact run_applyGroupsInSameLocation hcycle
      · rename_i hsame
        rw [if_neg hsame]
        exact run_cycleApplySequential hcycle
    have htable : db'.table = ended (pickers, err) db₁.table := by
      cases err with
      | some err =>
        obtain ⟨_, db₂, hrollback, h⟩ := exists_of_run_bind h
        cases run_rollBackAll.symm.trans hrollback
        cases h
        rfl
      | none =>
        simp only [hdry, if_true] at h
        cases h
        rfl
    rw [htable, hended]
    exact ⟨.inr, fun h => h.resolve_left fun hne => hne rfl⟩

def Surroundings.steady : Surroundings where
  locked := true
  idcCitys _ := some []
  detailOrder := ⟨id, List.Perm.refl⟩
  campusOrder := .still
  pickOrder _ _ := .still

def dryRun (details : List ObjectDetail) (h : details ≠ []) : RequestInputParam :=
  { oneHost with dryRun := true, details, details_ne_nil := h }

/-- The hosts of a dry run with the statuses they are left with. -/
def dryRunOf (details : List ObjectDetail) (h : details ≠ []) (table : Table) :
    Option (Reply × Db) :=
  run (Surroundings.steady.serve ⟨0, "a"⟩) (applyBase "dev" (dryRun details h) .used) ⟨table, [], []⟩

theorem exists_dryRunOf {details : List ObjectDetail} {h : details ≠ []} {table : Table}
    {left : List (ℤ × Status)}
    (hleft : (dryRunOf details h table).map (fun r => statuses r.2.table) = some left) :
    ∃ reply db', dryRunOf details h table = some (reply, db') ∧ statuses db'.table = left := by
  obtain ⟨⟨reply, db'⟩, hrun, hstatuses⟩ := Option.map_eq_some_iff.mp hleft
  exact ⟨reply, db', hrun, hstatuses⟩

/-- The second group finds no host, and the host of the first is Unused again. -/
theorem dry_run_restores_refused : ∃ reply db',
    dryRunOf [anyHost 1 Nat.one_pos, anyHost 1 Nat.one_pos] nofun [host 1 "z"] = some (reply, db') ∧
      statuses db'.table = [(1, .unused)] ∧
      (dryRun [anyHost 1 Nat.one_pos, anyHost 1 Nat.one_pos] nofun).SearchUndone .steady "dev" ⟨0, "a"⟩
        [host 1 "z"] := by
  obtain ⟨reply, db', hrun, hleft⟩ := @exists_dryRunOf
    [anyHost 1 Nat.one_pos, anyHost 1 Nat.one_pos] nofun [host 1 "z"] [(1, .unused)] (by decide +kernel)
  have hundone := (dry_run_restores rfl hrun).mp hleft
  exact ⟨reply, db', hrun, hleft, hundone.resolve_left (by decide +kernel)⟩

/-- A dry run that finds its host leaves it Preselected. -/
theorem dry_run_keeps_host : ∃ reply db',
    dryRunOf [anyHost 1 Nat.one_pos] nofun [host 1 "z"] = some (reply, db') ∧
      statuses [host 1 "z"] = [(1, .unused)] ∧ statuses db'.table = [(1, .preselected)] := by
  obtain ⟨reply, db', hrun, hleft⟩ := @exists_dryRunOf [anyHost 1 Nat.one_pos] nofun [host 1 "z"]
    [(1, .preselected)] (by decide +kernel)
  exact ⟨reply, db', hrun, by decide, hleft⟩

end DryRun

end Resource
