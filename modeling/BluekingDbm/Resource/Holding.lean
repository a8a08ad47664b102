import BluekingDbm.Resource.Apply

/-! What a request has preselected at each point of its program, and what it will still roll back. -/
namespace Resource

open Program

variable {runMode : String} {param : RequestInputParam} {mode : Mode} {pickers : List Picked}
  {search : ObjectDetail → Handler (Except ApplyError Search)} {x : ℤ} {o : Search}
  {attempt group : ℕ}

/-- The hosts a request holds, and those it has held. -/
structure Grip where
  held : Set ℤ
  taken : Set ℤ

/-- A rollback is of hosts that the request has preselected. -/
def Allowed : Op → Grip → Prop
  | .rollback ids, g => ∀ x ∈ ids, x ∈ g.taken
  | _, _ => True

/-- A preselect counts where it affects as many rows as it lists. -/
def Grips : (o : Op) → Grip → o.Res → Grip → Prop
  | .preselect ids, g, r, g' =>
    (r = some ids.length ∧ g' = ⟨g.held ∪ {x | x ∈ ids}, g.taken ∪ {x | x ∈ ids}⟩) ∨
      (r ≠ some ids.length ∧ g' = g)
  | .rollback ids, g, _, g' => g' = ⟨g.held \ {x | x ∈ ids}, g.taken⟩
  | _, g, _, g' => g' = g

def hostsOf (pickers : List Picked) : List ℤ := pickers.flatMap Picked.satisfiedHostIds

/-- What is held is in the pickers, and what is in the pickers has been held. -/
structure Holds (pickers : List Picked) (g : Grip) : Prop where
  held : ∀ x ∈ g.held, x ∈ hostsOf pickers
  taken : ∀ x ∈ hostsOf pickers, x ∈ g.taken

theorem holds_nil {g : Grip} (h : g.held = ∅) : Holds [] g := by
  constructor
  · intro x hx
    rw [h] at hx
    cases hx
  · intro x hx
    cases hx

abbrev Gripping {α : Type} (Q : α → Grip → Prop) (p : Handler α) (g : Grip) : Prop :=
  Ensures Allowed Grips Q p g

/-- A program that neither takes hosts nor gives any back. -/
def Quiet {α : Type} (p : Handler α) : Prop := ∀ g, Gripping (fun _ g' => g' = g) p g

theorem Quiet.bind {α β : Type} {p : Handler α} {f : α → Handler β} {Q : β → Grip → Prop} {g : Grip}
    (h : Quiet p) (hf : ∀ a, Gripping Q (f a) g) : Gripping Q (p >>= f) g := by
  refine Ensures.bind (h g) ?_
  rintro a _ rfl
  exact hf a

theorem quiet_call {o : Op} (hP : ∀ g, Allowed o g) (hR : ∀ g r g', Grips o g r g' → g' = g) :
    Quiet (perform o) := by
  intro g
  exact ⟨hP g, hR g⟩

theorem quiet_pure {α : Type} (a : α) : Quiet (pure a) := fun _ => rfl

theorem quiet_select : Quiet select := quiet_call (fun _ => trivial) fun _ _ _ h => h

theorem quiet_detailOrder : Quiet detailOrder := quiet_call (fun _ => trivial) fun _ _ _ h => h

theorem quiet_campusOrder : Quiet campusOrder := quiet_call (fun _ => trivial) fun _ _ _ h => h

theorem quiet_pickOrder : Quiet (pickOrder attempt group) :=
  quiet_call (fun _ => trivial) fun _ _ _ h => h

theorem quiet_lock (key : String) : Quiet (lock key) := quiet_call (fun _ => trivial) fun _ _ _ h => h

theorem quiet_getIdcCityByLogicCity (city : String) : Quiet (getIdcCityByLogicCity city) :=
  quiet_call (fun _ => trivial) fun _ _ _ h => h

theorem quiet_commit (elements : List BatchGetTbDetail) : Quiet (commit elements mode) :=
  quiet_call (fun _ => trivial) fun _ _ _ h => h

theorem quiet_sendLog (data : List BatchGetTbDetailResult) : Quiet (sendLog data) :=
  quiet_call (fun _ => trivial) fun _ _ _ h => h

theorem quiet_pickCheck : Quiet (pickCheck o) := by
  intro g
  refine quiet_select.bind fun r => ?_
  cases r with
  | none => rfl
  | some t => rfl

theorem quiet_pickInstance : Quiet (pickInstance o attempt group) := by
  intro g
  refine quiet_select.bind fun r => ?_
  cases r with
  | none => rfl
  | some t =>
    dsimp only
    cases o.candidates t with
    | none => rfl
    | some items =>
      refine quiet_pickOrder.bind fun rt => ?_
      cases o.pick rt items with
      | returned r =>
        obtain ⟨err, picker⟩ := r
        cases err with
        | some err => rfl
        | none =>
          show Gripping _ (if picker.pickerDone = true then _ else _) g
          split <;> rfl
      | blocked => exact ⟨trivial, fun r => r.elim⟩
      | outOfFuel => exact ⟨trivial, fun r => r.elim⟩

theorem quiet_getLogicIdcCitys (v : ObjectDetail) : Quiet (getLogicIdcCitys runMode v) := by
  unfold getLogicIdcCitys
  split
  · exact quiet_pure _
  · split
    · exact quiet_getIdcCityByLogicCity _
    · exact quiet_pure _

/-- The hosts of a picker are held once it has been preselected as a whole. -/
theorem gripping_preselected (picker : Picked) (g : Grip) :
    Gripping (fun err g' => (err = none → g' =
        ⟨g.held ∪ {x | x ∈ picker.satisfiedHostIds}, g.taken ∪ {x | x ∈ picker.satisfiedHostIds}⟩) ∧
      (err ≠ none → g' = g)) (preselectedSatisfiedInstance picker) g := by
  refine ensures_perform (o := Op.preselect picker.satisfiedHostIds) trivial ?_
  intro r g' hr
  cases r with
  | none =>
    rcases hr with ⟨hr, -⟩ | ⟨-, rfl⟩
    · cases hr
    · exact ⟨nofun, fun _ => rfl⟩
  | some affectRows =>
    by_cases hall : affectRows = picker.satisfiedHostIds.length
    · subst hall
      rcases hr with ⟨-, rfl⟩ | ⟨hr, -⟩
      · refine ⟨fun _ => rfl, fun herr => ?_⟩
        exact absurd (if_pos rfl) herr
      · exact absurd rfl hr
    · rcases hr with ⟨hr, -⟩ | ⟨-, rfl⟩
      · exact absurd (Option.some.inj hr) hall
      · refine ⟨fun herr => ?_, fun _ => rfl⟩
        rw [if_neg hall] at herr
        cases herr

theorem hostsOf_append (picker : Picked) :
    hostsOf (pickers ++ [picker]) = hostsOf pickers ++ picker.satisfiedHostIds := by
  simp [hostsOf]

theorem Holds.take {g : Grip} (h : Holds pickers g) (picker : Picked) :
    Holds (pickers ++ [picker])
      ⟨g.held ∪ {x | x ∈ picker.satisfiedHostIds}, g.taken ∪ {x | x ∈ picker.satisfiedHostIds}⟩ := by
  constructor
  · intro x hx
    rw [hostsOf_append]
    rcases hx with hx | hx
    · exact List.mem_append_left _ (h.held x hx)
    · exact List.mem_append_right _ hx
  · intro x hx
    rw [hostsOf_append] at hx
    rcases List.mem_append.mp hx with hx | hx
    · exact .inl (h.taken x hx)
    · exact .inr hx

theorem gripping_applyGroup {g : Grip} (h : Holds pickers g) :
    Gripping (fun r g' => match r with
      | .error _ => Holds pickers g'
      | .ok picker => Holds (pickers ++ [picker]) g') (applyGroup o attempt group) g := by
  refine quiet_pickCheck.bind fun err => ?_
  cases err with
  | some err => exact h
  | none =>
    refine quiet_pickInstance.bind fun r => ?_
    cases r with
    | error err => exact h
    | ok picker =>
      refine Ensures.bind (gripping_preselected picker g) ?_
      rintro err g' ⟨hok, herr⟩
      cases err with
      | some err =>
        rw [herr nofun]
        exact h
      | none =>
        rw [hok rfl]
        exact h.take picker

theorem gripping_applyGroups {g : Grip} {details : List ObjectDetail}
    (hsearch : ∀ v, Quiet (search v)) (h : Holds pickers g) :
    Gripping (fun r g' => Holds r.1 g') (applyGroups search attempt group details pickers) g := by
  induction details generalizing group pickers g with
  | nil => exact h
  | cons v details ih =>
    refine (hsearch v).bind fun r => ?_
    cases r with
    | error err => exact h
    | ok s =>
      refine Ensures.bind (gripping_applyGroup h) ?_
      intro r g' hr
      cases r with
      | error err => exact hr
      | ok picker => exact ih hr

/-- After a rollback nothing is held. -/
theorem gripping_rollBack {g : Grip} (h : Holds pickers g) :
    Gripping (fun _ g' => g'.held = ∅ ∧ g'.taken = g.taken) (rollBackAllInstanceUnused pickers) g := by
  induction pickers generalizing g with
  | nil =>
    refine ⟨?_, rfl⟩
    ext x
    constructor
    · intro hx
      exact absurd (h.held x hx) List.not_mem_nil
    · intro hx
      cases hx
  | cons m ms ih =>
    refine ensures_perform (o := Op.rollback m.satisfiedHostIds) ?_ ?_
    · intro x hx
      exact h.taken x (List.mem_append_left _ hx)
    · rintro r g' rfl
      refine (ih ⟨?_, ?_⟩).mono fun _ _ h => h
      · rintro x ⟨hx, hnot⟩
        exact (List.mem_append.mp (h.held x hx)).resolve_left hnot
      · intro x hx
        exact h.taken x (List.mem_append_right _ hx)

theorem gripping_trySubZones {g : Grip} {details : List ObjectDetail} {idcCitys : List String}
    {subzoneId : String} {subzoneIds : List String} (h : g.held = ∅) :
    Gripping (fun r g' => Holds r.1 g') (trySubZones details idcCitys attempt subzoneId subzoneIds)
      g := by
  induction subzoneIds generalizing attempt subzoneId g with
  | nil =>
    unfold trySubZones
    refine Ensures.bind (gripping_applyGroups (fun _ => quiet_pure _) (holds_nil h)) ?_
    rintro ⟨pickers, err⟩ g' hg'
    cases err with
    | none => exact hg'
    | some err =>
      refine Ensures.bind (gripping_rollBack hg') ?_
      rintro - g'' ⟨hempty, htaken⟩
      refine ⟨fun x hx => ?_, fun x hx => ?_⟩
      · rw [hempty] at hx
        cases hx
      · rw [htaken]
        exact hg'.taken x hx
  | cons next subzoneIds ih =>
    unfold trySubZones
    refine Ensures.bind (gripping_applyGroups (fun _ => quiet_pure _) (holds_nil h)) ?_
    rintro ⟨pickers, err⟩ g' hg'
    cases err with
    | none => exact hg'
    | some err =>
      refine Ensures.bind (gripping_rollBack hg') ?_
      rintro - g'' ⟨hempty, -⟩
      exact ih hempty

theorem quiet_getGroupcampusNice {idcCitys : List String} {details : List ObjectDetail}
    {nice : List (String × List CampusNice)} : Quiet (getGroupcampusNice idcCitys details nice) := by
  induction details generalizing nice with
  | nil => exact quiet_pure _
  | cons v details ih =>
    intro g
    refine quiet_select.bind fun r => ?_
    cases r with
    | none => rfl
    | some t => exact ih g

theorem quiet_candidateSubZones {details : List ObjectDetail} {idcCitys : List String} :
    Quiet (candidateSubZones param details idcCitys) := by
  intro g
  unfold candidateSubZones
  simp only
  split
  · rfl
  · refine quiet_getGroupcampusNice.bind fun r => ?_
    cases r with
    | none => rfl
    | some nice => exact quiet_campusOrder.bind fun rt => rfl

theorem gripping_cycleApply {g : Grip} (h : g.held = ∅) :
    Gripping (fun r g' => Holds r.1 g') (cycleApply runMode param) g := by
  unfold cycleApply
  split
  · refine quiet_detailOrder.bind fun order => ?_
    cases param.sortDetails order with
    | nil => exact holds_nil h
    | cons v vs =>
      refine (quiet_getLogicIdcCitys v).bind fun r => ?_
      cases r with
      | none => exact holds_nil h
      | some idcCitys =>
        refine quiet_candidateSubZones.bind fun r => ?_
        match r with
        | none => exact holds_nil h
        | some [] => exact holds_nil h
        | some (subzoneId :: subzoneIds) => exact gripping_trySubZones h
  · refine quiet_detailOrder.bind fun order => ?_
    refine gripping_applyGroups (fun v g => ?_) (holds_nil h)
    refine (quiet_getLogicIdcCitys v).bind fun r => ?_
    cases r with
    | none => rfl
    | some idcCitys => rfl

/-- A request that is refused holds nothing in the end. -/
def Released (reply : Reply) (g : Grip) : Prop := ∀ err, reply = .refused err → g.held = ∅

theorem gripping_applyBase {g : Grip} (h : g.held = ∅) :
    Gripping Released (applyBase runMode param mode) g := by
  have hrollback : ∀ {pickers : List Picked} {g : Grip} {err : ApplyError}, Holds pickers g →
      Gripping Released (rollBackAllInstanceUnused pickers >>= fun _ => pure (.refused err)) g := by
    intro pickers g err hg
    refine Ensures.bind (gripping_rollBack hg) ?_
    rintro - g' ⟨hempty, -⟩
    exact fun _ _ => hempty
  unfold applyBase
  split
  · exact fun _ _ => h
  · have hlock : Quiet (obtainLock param) := by
      unfold obtainLock
      split
      · exact quiet_pure _
      · exact quiet_lock _
    refine hlock.bind fun locked => ?_
    cases locked with
    | false => exact fun _ _ => h
    | true =>
      refine Ensures.bind (gripping_cycleApply h) ?_
      rintro ⟨pickers, err⟩ g' hg'
      cases err with
      | some err => exact hrollback hg'
      | none =>
        show Gripping _ (if param.dryRun = true then _ else _) g'
        split
        · exact nofun
        · refine (quiet_commit _).bind fun r => ?_
          cases r with
          | none => exact hrollback hg'
          | some data => exact (quiet_sendLog data).bind fun _ => nofun

theorem quiet_retry {f : Handler Bool} (hf : Quiet f) (times : ℕ) : Quiet (retry f times) := by
  induction times with
  | zero => exact quiet_pure _
  | succ times ih =>
    intro g
    refine hf.bind fun r => ?_
    cases r with
    | true => rfl
    | false => exact ih g

theorem gripping_confirmApply {param : ConfirmApplyParam} {g : Grip} :
    Gripping Released (confirmApply param) g := by
  have hcount : Quiet (countLog param.requestId) := quiet_call (fun _ => trivial) fun _ _ _ h => h
  have hmark : Quiet (updateUsed param.hostIds.dedup) :=
    quiet_call (fun _ => trivial) fun _ _ _ h => h
  refine hcount.bind fun r => ?_
  cases r with
  | none => exact nofun
  | some cnt =>
    show Gripping _ (if _ then _ else _) g
    split
    · exact nofun
    · refine quiet_select.bind fun r => ?_
      cases r with
      | none => exact nofun
      | some t =>
        show Gripping _ (if _ then _ else _) g
        split
        · exact nofun
        · refine (quiet_retry hmark 3).bind fun r => ?_
          cases r with
          | true => exact nofun
          | false => exact nofun

end Resource
