import BluekingDbm.Resource.Service

/-! No host is delivered twice. A host that was delivered has no row that is Unused or Preselected, and
only a return to Unused gives it one; a second delivery needs a Preselected row. -/
namespace Resource

open Program Transition

variable {runMode : String} {s t u : Service} {e : Event} {es : List Event} {x : ℤ} {T T' : Table}
  {ids : List ℤ} {mode : Mode} {d : List Row} {elements : List BatchGetTbDetail}
  {result : List BatchGetTbDetailResult}

/-- Nothing can be made of the rows of the host but by returning it. -/
def Dormant (x : ℤ) (t : Table) : Prop :=
  ∀ r ∈ t, r.bkHostID = x → r.status ≠ .unused ∧ r.status ≠ .preselected

def Unused (x : ℤ) (t : Table) : Prop := ∃ r ∈ t, r.bkHostID = x ∧ r.status = .unused

theorem mode_status (mode : Mode) : mode.status ≠ .unused ∧ mode.status ≠ .preselected := by
  cases mode <;> decide

theorem dormant_update {hit : Row → Bool} {set : Row → Row} (h : Dormant x T)
    (hset : ∀ r, hit r = true → r.bkHostID = x → (set r).bkHostID = r.bkHostID →
      r.status ≠ .unused ∧ r.status ≠ .preselected →
      (set r).status ≠ .unused ∧ (set r).status ≠ .preselected)
    (hhost : ∀ r, (set r).bkHostID = r.bkHostID) : Dormant x (T.update hit set) := by
  intro r hr hx
  rcases update_cases hr with ⟨hold, -⟩ | ⟨r₀, hr₀, hhit, rfl⟩
  · exact h r hold hx
  · have hx₀ : r₀.bkHostID = x := (hhost r₀).symm.trans hx
    exact hset r₀ hhit hx₀ (hhost r₀) (h r₀ hr₀ hx₀)

theorem setSatisfiedStatus_some (h : setSatisfiedStatus ids mode T = some (d, T')) :
    d = T.filter (fun r => r.listed ids) ∧
      (∀ r ∈ T, r.bkHostID ∈ ids → r.status = .preselected) ∧
      T' = T.update (fun r => r.matched ids .preselected) fun r => { r with status := mode.status } := by
  simp only [setSatisfiedStatus] at h
  split at h
  · cases h
  · rename_i hlisted
    split at h
    · cases h
    · rename_i hcount
      cases h
      refine ⟨rfl, fun r hr hin => ?_, rfl⟩
      -- as many rows are Preselected as are listed at all
      have hsame : (T.countP fun r => r.matched ids .preselected) =
          T.countP fun r => r.listed ids := by
        rw [List.countP_eq_length_filter (p := fun r : Row => r.listed ids)]
        omega
      have hsub : (T.filter fun r => r.matched ids .preselected).Sublist
          (T.filter fun r => r.listed ids) :=
        List.monotone_filter_right T fun r hm => listed_iff.mpr (matched_iff.mp hm).1
      have heq := hsub.eq_of_length (by
        rw [← List.countP_eq_length_filter, ← List.countP_eq_length_filter]
        exact hsame)
      have hmem : r ∈ T.filter fun r => r.matched ids .preselected := by
        rw [heq]
        exact List.mem_filter.mpr ⟨hr, listed_iff.mpr hin⟩
      exact (matched_iff.mp (List.mem_filter.mp hmem).2).2

theorem dormant_setSatisfied (hx : Dormant x T) (h : setSatisfiedStatus ids mode T = some (d, T')) :
    Dormant x T' := by
  obtain ⟨-, -, rfl⟩ := setSatisfiedStatus_some h
  exact dormant_update hx (fun _ _ _ _ _ => mode_status mode) fun _ => rfl

/-- A host that is read has only rows that are set to the mode. -/
theorem dormant_of_read (h : setSatisfiedStatus ids mode T = some (d, T'))
    (hx : ∃ r ∈ d, r.bkHostID = x) : Dormant x T' := by
  obtain ⟨rfl, hpreselected, rfl⟩ := setSatisfiedStatus_some h
  obtain ⟨r₁, hr₁, rfl⟩ := hx
  have hin := listed_iff.mp (List.mem_filter.mp hr₁).2
  intro r hr hsame
  rcases update_cases hr with ⟨hold, hmiss⟩ | ⟨r₀, -, -, rfl⟩
  · rw [← hsame] at hin
    have hstatus := hpreselected r hold hin
    exact absurd (matched_iff.mpr ⟨hin, hstatus⟩) (by simp [hmiss])
  · exact mode_status mode

theorem not_dormant_of_read (h : setSatisfiedStatus ids mode T = some (d, T'))
    (hx : ∃ r ∈ d, r.bkHostID = x) : ¬ Dormant x T := by
  obtain ⟨rfl, hpreselected, -⟩ := setSatisfiedStatus_some h
  obtain ⟨r, hr, rfl⟩ := hx
  obtain ⟨hrow, hin⟩ := List.mem_filter.mp hr
  intro hdormant
  exact (hdormant r hrow rfl).2 (hpreselected r hrow (listed_iff.mp hin))

/-- The host is in what is handed out. -/
def Hands (result : List BatchGetTbDetailResult) (x : ℤ) : Prop :=
  ∃ v ∈ result, ∃ r ∈ v.data, r.bkHostID = x

theorem setSatisfiedStatuses_dormant (h : setSatisfiedStatuses mode elements T = some (result, T')) :
    (Dormant x T → Dormant x T' ∧ ¬ Hands result x) ∧ (Hands result x → Dormant x T') := by
  induction elements generalizing T result with
  | nil =>
    cases h
    refine ⟨fun hx => ⟨hx, ?_⟩, ?_⟩
    · rintro ⟨v, hv, -⟩
      cases hv
    · rintro ⟨v, hv, -⟩
      cases hv
  | cons v elements ih =>
    obtain ⟨⟨d, T₁⟩, hv, h⟩ := Option.bind_eq_some_iff.mp h
    obtain ⟨⟨rest, T₂⟩, hrest, h⟩ := Option.bind_eq_some_iff.mp h
    cases h
    obtain ⟨hkeep, hhands⟩ := ih hrest
    constructor
    · intro hx
      obtain ⟨hend, hnot⟩ := hkeep (dormant_setSatisfied hx hv)
      refine ⟨hend, ?_⟩
      rintro ⟨w, hw, hin⟩
      rcases List.mem_cons.mp hw with rfl | hw
      · exact not_dormant_of_read hv hin hx
      · exact hnot ⟨w, hw, hin⟩
    · rintro ⟨w, hw, hin⟩
      rcases List.mem_cons.mp hw with rfl | hw
      · exact (hkeep (dormant_of_read hv hin)).1
      · exact hhands ⟨w, hw, hin⟩

theorem batch_dormant (h : batchGetSatisfiedByAssetIds elements mode T = some (result, T')) :
    (Dormant x T → Dormant x T' ∧ ¬ Hands result x) ∧ (Hands result x → Dormant x T') := by
  obtain ⟨⟨result₁, T₁⟩, hset, h⟩ := Option.bind_eq_some_iff.mp h
  simp only at h
  split at h
  · cases h
  · cases h
    exact setSatisfiedStatuses_dormant hset

/-- A dormant host stays so, or is Unused again. -/
theorem dormant_change (hx : Dormant x T) (h : Change T T') : Dormant x T' ∨ Unused x T' := by
  cases h with
  | keep => exact .inl hx
  | preselect caller ids =>
    refine .inl (dormant_update hx ?_ fun _ => rfl)
    intro r hhit _ _ hold
    exact absurd (matched_iff.mp hhit).2 hold.1
  | rollback ids =>
    refine .inl (dormant_update hx ?_ fun _ => rfl)
    intro r hhit _ _ hold
    exact absurd (matched_iff.mp hhit).2 hold.2
  | commit h => exact .inl ((batch_dormant h).1 hx).1
  | markUsed ids => exact .inl (dormant_update hx (fun _ _ _ _ _ => ⟨nofun, nofun⟩) fun _ => rfl)
  | archive ids => exact .inl fun r hr => hx r (List.mem_filter.mp hr).1
  | delete ids => exact .inl fun r hr => hx r (List.mem_filter.mp hr).1
  | importHosts rows =>
    by_cases hin : ∃ r ∈ imported rows, r.bkHostID = x
    · obtain ⟨r, hr, hrx⟩ := hin
      obtain ⟨r₀, -, rfl⟩ := List.mem_map.mp hr
      exact .inr ⟨_, List.mem_append_right _ hr, hrx, rfl⟩
    · refine .inl fun r hr hrx => ?_
      rcases List.mem_append.mp hr with hr | hr
      · exact hx r hr hrx
      · exact absurd ⟨r, hr, hrx⟩ hin
  | inspect ids why =>
    refine .inl (dormant_update hx ?_ fun _ => rfl)
    intro r hhit _ _ hold
    exact absurd (matched_iff.mp hhit).2 hold.1
  | release ids =>
    by_cases hin : ∃ r ∈ T, r.bkHostID = x ∧ r.listed ids = true
    · obtain ⟨r, hr, hrx, hlisted⟩ := hin
      exact .inr ⟨_, mem_update_of_hit hr hlisted, hrx, rfl⟩
    · refine .inl fun r hr hrx => ?_
      rcases update_cases hr with ⟨hold, -⟩ | ⟨r₀, hr₀, hhit, rfl⟩
      · exact hx r hold hrx
      · exact absurd ⟨r₀, hr₀, hrx, hhit⟩ hin

/-- The run passes a state in which the host is Unused. -/
def PassesUnused (runMode : String) (s : Service) (es : List Event) (t : Service) (x : ℤ) : Prop :=
  ∃ es₁ es₂ u, es = es₁ ++ es₂ ∧ Run (Steps (Service.next runMode)) s es₁ u ∧
    Run (Steps (Service.next runMode)) u es₂ t ∧ Unused x u.store.table

theorem dormant_run (h : Run (Steps (Service.next runMode)) s es t)
    (hx : Dormant x s.store.table) :
    Dormant x t.store.table ∨ PassesUnused runMode s es t x := by
  induction h with
  | refl => exact .inl hx
  | snoc hrun hstep ih =>
    rename_i es t u e
    rcases ih with hdormant | ⟨es₁, es₂, v, rfl, hbefore, hafter, hunused⟩
    · rcases dormant_change hdormant (next_change hstep) with hdormant | hunused
      · exact .inl hdormant
      · exact .inr ⟨es ++ [e], [], u, (List.append_nil _).symm, .snoc hrun hstep, .refl, hunused⟩
    · exact .inr ⟨es₁, es₂ ++ [e], v, List.append_assoc .., hbefore, .snoc hafter hstep, hunused⟩

/-- What a step hands out: the data of a commit that succeeds. -/
def Service.delivered (s : Service) : Event → List BatchGetTbDetailResult
  | .call i c =>
    match s.procs[i]? with
    | some (_, .call (.commit elements mode) _) =>
      if c.fails then []
      else ((batchGetSatisfiedByAssetIds elements mode s.store.table).map Prod.fst).getD []
    | _ => []
  | _ => []

theorem delivered_cases (h : Hands (s.delivered e) x) :
    ∃ i c caller elements mode k result table, e = .call i c ∧
      s.procs[i]? = some (caller, .call (.commit elements mode) k) ∧
      serve caller c (.commit elements mode) s.store =
        some (some result, { s.store with table }) ∧
      batchGetSatisfiedByAssetIds elements mode s.store.table = some (result, table) ∧
      Hands result x := by
  have hnone : ¬ Hands [] x := by
    rintro ⟨v, hv, -⟩
    cases hv
  unfold Service.delivered at h
  split at h
  · rename_i i c
    split at h
    · rename_i caller elements mode k hi
      split at h
      · exact absurd h hnone
      · rename_i hfails
        cases hbatch : batchGetSatisfiedByAssetIds elements mode s.store.table with
        | none =>
          rw [hbatch] at h
          exact absurd h hnone
        | some r =>
          rw [hbatch] at h
          refine ⟨i, c, caller, elements, mode, k, r.1, r.2, rfl, hi, ?_, hbatch, h⟩
          simp only [serve, hfails, hbatch]
          rfl
    · exact absurd h hnone
  · exact absurd h hnone

theorem dormant_of_delivered (h : Hands (s.delivered e) x) (hs : s.next runMode e = some t) :
    Dormant x t.store.table := by
  obtain ⟨i, c, caller, elements, mode, k, result, table, rfl, hi, hserve, hbatch, hhands⟩ :=
    delivered_cases h
  obtain ⟨caller', o, k', r, hi', hserve', -⟩ := call_cases hs
  cases hi.symm.trans hi'
  obtain ⟨-, hstore⟩ := Prod.mk.inj (Option.some.inj (hserve.symm.trans hserve'))
  rw [← hstore]
  exact (batch_dormant hbatch).2 hhands

theorem not_dormant_of_delivered (h : Hands (s.delivered e) x) : ¬ Dormant x s.store.table := by
  obtain ⟨i, c, caller, elements, mode, k, result, table, -, -, -, hbatch, hhands⟩ :=
    delivered_cases h
  intro hdormant
  exact ((batch_dormant hbatch).1 hdormant).2 hhands

/-- Whatever the requests and the others do between two deliveries of a host, the host is Unused at some
point between them. -/
theorem delivered_once {e' : Event} {s₁ s₂ s₃ : Service} (hfirst : Hands (s₁.delivered e) x)
    (hstep : s₁.next runMode e = some s₂)
    (hbetween : Run (Steps (Service.next runMode)) s₂ es s₃)
    (hsecond : Hands (s₃.delivered e') x) : PassesUnused runMode s₂ es s₃ x := by
  have hdormant := dormant_of_delivered hfirst hstep
  rcases dormant_run hbetween hdormant with hstill | hpasses
  · exact absurd hstill (not_dormant_of_delivered hsecond)
  · exact hpasses

instance (result : List BatchGetTbDetailResult) (x : ℤ) : Decidable (Hands result x) :=
  inferInstanceAs (Decidable (∃ v ∈ result, ∃ r ∈ v.data, r.bkHostID = x))

/-- A host of the pool. -/
def host (n : ℕ) (subZone : String) : Row where
  bkHostID := n
  subZone := subZone
  rackID := "r1"
  netDeviceID := "n1"
  id := n
  bkCloudID := 0
  city := "sz"
  subZoneID := subZone
  gseAlive := true
  status := .unused
  holder := none

/-- A group that any host suits. -/
def anyHost (count : ℕ) (h : 0 < count) : ObjectDetail where
  bkCloudId := 0
  hosts := []
  groupMark := "g"
  deviceClass := []
  cpu := ⟨0, 0⟩
  mem := ⟨0, 0⟩
  storageSpecs := []
  locationSpec := ⟨"", [], none, [], [], []⟩
  tolerance := 0
  currentHosts := []
  affinity := .none
  count := count
  suits := fun _ => true
  fitsDisks := none
  resourcePriority := fun _ => 0
  count_pos := h

def oneHost : RequestInputParam where
  resourceType := "mysql"
  dryRun := false
  details := [anyHost 1 Nat.one_pos]
  groupsInSameLocation := false
  details_ne_nil := nofun

/-- The calls of the `i`-th request, one after the other. -/
def calls (i n : ℕ) : List Event := List.replicate n (.call i .steady)

/-- A host is delivered, returned and delivered again. -/
theorem delivered_once_twice : ∃ s₁ s₂ s₃,
    Run (Steps (Service.next "dev")) (.initial [host 1 "z"])
      (.apply "a" oneHost .used :: calls 0 6) s₁ ∧
    Hands (s₁.delivered (.call 0 .steady)) 1 ∧ Hands (s₃.delivered (.call 1 .steady)) 1 ∧
    PassesUnused "dev" s₂ (.release [1] :: .apply "b" oneHost .used :: calls 1 6) s₃ 1 := by
  obtain ⟨s₁, hs₁, h₁⟩ := exists_run_of_exec (Service.next "dev") (.initial [host 1 "z"])
    (.apply "a" oneHost .used :: calls 0 6)
    (fun s₁ => Hands (s₁.delivered (.call 0 .steady)) 1 ∧
      ((s₁.next "dev" (.call 0 .steady)).any fun s₂ =>
        (exec (Service.next "dev") s₂
          (.release [1] :: .apply "b" oneHost .used :: calls 1 6)).any fun s₃ =>
            Hands (s₃.delivered (.call 1 .steady)) 1) = true) (by decide +kernel)
  obtain ⟨hfirst, hrest⟩ := of_decide_eq_true h₁
  obtain ⟨s₂, hstep, hrest⟩ := (Option.any_eq_true _ _).mp hrest
  obtain ⟨s₃, hbetween, hsecond⟩ := exists_run_of_exec (Service.next "dev") s₂ _ _ hrest
  have hsecond := of_decide_eq_true hsecond
  exact ⟨s₁, s₂, s₃, hs₁, hfirst, hsecond, delivered_once hfirst hstep hbetween hsecond⟩

end Resource
