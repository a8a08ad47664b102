import BluekingDbm.Resource.Delivery
import BluekingDbm.Resource.Holding

/-! What a failed request leaves behind, and what its rollbacks release. A rollback goes by the status of
a host alone, and a preselect that affects only part of its rows is not rolled back at all. -/
namespace Resource

open Program Transition

variable {runMode : String} {s t : Service} {e : Event} {es : List Event} {x : ℤ} {T T' : Table}
  {ids : List ℤ} {caller : Caller} {c : Choice} {o : Op} {ret : o.Res} {i : ℕ} {p : Handler Reply}
  {db db' : Db} {row : Row}

/-- The call is a preselect that covers the host and succeeds. -/
def Retakes (x : ℤ) : (o : Op) → o.Res → Prop
  | .preselect ids, r => r = some ids.length ∧ x ∈ ids
  | _, _ => False

/-- The program can come to a rollback of the host that it has not preselected anew. -/
inductive Owes (x : ℤ) : Handler Reply → Prop
  | here {ids : List ℤ} {k : Unit → Handler Reply} (h : x ∈ ids) : Owes x (.call (.rollback ids) k)
  | later {o : Op} {k : o.Res → Handler Reply} (r : o.Res) (hr : ¬ Retakes x o r)
      (h : Owes x (k r)) : Owes x (.call o k)

theorem exists_grips (o : Op) (g : Grip) (r : o.Res) :
    ∃ g', Grips o g r g' ∧ ∀ x, ¬ Retakes x o r → x ∈ g'.taken → x ∈ g.taken := by
  cases o with
  | preselect ids =>
    by_cases hr : r = some ids.length
    · refine ⟨_, .inl ⟨hr, rfl⟩, fun x hnot hx => ?_⟩
      rcases hx with hx | hx
      · exact hx
      · exact absurd ⟨hr, hx⟩ hnot
    · exact ⟨g, .inr ⟨hr, rfl⟩, fun _ _ h => h⟩
  | rollback ids => exact ⟨_, rfl, fun _ _ h => h⟩
  | _ => exact ⟨g, rfl, fun _ _ h => h⟩

/-- What a request owes it has taken. -/
theorem Owes.taken {Q : Reply → Grip → Prop} {g : Grip} (howes : Owes x p) (h : Gripping Q p g) :
    x ∈ g.taken := by
  induction howes generalizing g with
  | here hx => exact h.1 _ hx
  | later r hr _ ih =>
    obtain ⟨g', hgrips, htaken⟩ := exists_grips _ g r
    exact htaken x hr (ih (h.2 r g' hgrips))

/-- Every Preselected row was one before, of the same holder. -/
def Shrinks (T T' : Table) : Prop :=
  ∀ r' ∈ T', r'.status = .preselected →
    ∃ r ∈ T, r.bkHostID = r'.bkHostID ∧ r.status = .preselected ∧ r.holder = r'.holder

theorem shrinks_refl (T : Table) : Shrinks T T := fun r hr hs => ⟨r, hr, rfl, hs, rfl⟩

theorem shrinks_update {hit : Row → Bool} {set : Row → Row}
    (hset : ∀ r, (set r).status ≠ .preselected) : Shrinks T (T.update hit set) := by
  intro r' hr' hs
  rcases update_cases hr' with ⟨hold, -⟩ | ⟨r, -, -, rfl⟩
  · exact ⟨r', hold, rfl, hs, rfl⟩
  · exact absurd hs (hset r)

theorem Shrinks.trans {T'' : Table} (h : Shrinks T T') (h' : Shrinks T' T'') : Shrinks T T'' := by
  intro r' hr' hs
  obtain ⟨r, hr, hhost, hstatus, hholder⟩ := h' r' hr' hs
  obtain ⟨r₀, hr₀, hhost₀, hstatus₀, hholder₀⟩ := h r hr hstatus
  exact ⟨r₀, hr₀, hhost₀.trans hhost, hstatus₀, hholder₀.trans hholder⟩

theorem shrinks_filter {p : Row → Bool} : Shrinks T (T.filter p) := fun r hr hs =>
  ⟨r, (List.mem_filter.mp hr).1, rfl, hs, rfl⟩

theorem shrinks_imported (rows : List Row) : Shrinks T (T ++ imported rows) := by
  intro r hr hs
  rcases List.mem_append.mp hr with hr | hr
  · exact ⟨r, hr, rfl, hs, rfl⟩
  · obtain ⟨r₀, -, rfl⟩ := List.mem_map.mp hr
    cases hs

theorem shrinks_setSatisfied {mode : Mode} {d : List Row}
    (h : setSatisfiedStatus ids mode T = some (d, T')) : Shrinks T T' := by
  obtain ⟨-, -, rfl⟩ := setSatisfiedStatus_some h
  exact shrinks_update fun r => (mode_status mode).2

theorem shrinks_batch {mode : Mode} {elements : List BatchGetTbDetail}
    {result : List BatchGetTbDetailResult}
    (h : batchGetSatisfiedByAssetIds elements mode T = some (result, T')) : Shrinks T T' := by
  have hall : ∀ {elements result T T'},
      setSatisfiedStatuses mode elements T = some (result, T') → Shrinks T T' := by
    intro elements
    induction elements with
    | nil =>
      intro result T T' h
      cases h
      exact shrinks_refl T
    | cons v elements ih =>
      intro result T T' h
      obtain ⟨⟨d, T₁⟩, hv, h⟩ := Option.bind_eq_some_iff.mp h
      obtain ⟨⟨rest, T₂⟩, hrest, h⟩ := Option.bind_eq_some_iff.mp h
      cases h
      exact (shrinks_setSatisfied hv).trans (ih hrest)
  obtain ⟨⟨result₁, T₁⟩, hset, h⟩ := Option.bind_eq_some_iff.mp h
  simp only at h
  split at h
  · cases h
  · cases h
    exact hall hset

/-- A preselect of these hosts affects nothing, or every one of their rows, one for each host. -/
def Whole (ids : List ℤ) (T : Table) : Prop :=
  (∃ r ∈ T, r.matched ids .unused = true) →
    (∀ r ∈ T, r.bkHostID ∈ ids → r.status = .unused) ∧
      (T.countP fun r => r.listed ids) = ids.length

instance (ids : List ℤ) (T : Table) : Decidable (Whole ids T) :=
  inferInstanceAs (Decidable (_ → _))

/-- A preselect does not stop half-way and takes no host that another request will still roll back, and
the statement of a rollback does not fail. -/
def Undisturbed (s : Service) : Event → Prop
  | .call i c =>
    match s.procs[i]? with
    | some (_, .call (.preselect ids) _) =>
      c.fails = false → Whole ids s.store.table ∧
        ∀ j ≠ i, ∀ caller p, s.procs[j]? = some (caller, p) → ∀ x ∈ ids, ¬ Owes x p
    | some (_, .call (.rollback _) _) => c.fails = false
    | _ => True
  | _ => True

/-- What a call of an undisturbed run does to the table. -/
inductive Effect (caller : Caller) (T : Table) : (o : Op) → o.Res → Table → Prop
  | took {ids : List ℤ} (h : ∀ r ∈ T, r.bkHostID ∈ ids → r.status = .unused) :
      Effect caller T (.preselect ids) (some ids.length) (preselectFromUnused caller ids T).2
  | gave {ids : List ℤ} : Effect caller T (.rollback ids) () (rollbackUnused ids T)
  | idle {o : Op} {r : o.Res} {T' : Table} (hgrips : ∀ g, Grips o g r g)
      (hretakes : ∀ x, ¬ Retakes x o r) (hshrinks : Shrinks T T') : Effect caller T o r T'

theorem preselect_none (h : ¬ ∃ r ∈ T, r.matched ids .unused = true) :
    preselectFromUnused caller ids T = (0, T) := by
  have hmiss : ∀ r ∈ T, r.matched ids .unused = false := by
    intro r hr
    rw [Bool.eq_false_iff]
    exact fun hhit => h ⟨r, hr, hhit⟩
  refine Prod.ext ?_ ?_
  · exact List.countP_eq_zero.mpr fun r hr => by simp [hmiss r hr]
  · refine (List.map_congr_left fun r hr => ?_).trans (List.map_id T)
    rw [if_neg (by simp [hmiss r hr])]
    rfl

theorem effect_preselect {r : Option ℕ} (hwhole : c.fails = false → Whole ids db.table)
    (h : serve caller c (.preselect ids) db = some (r, db')) :
    Effect caller db.table (.preselect ids) r db'.table := by
  have hidle : ∀ {r : Option ℕ} {T' : Table}, r ≠ some ids.length → Shrinks db.table T' →
      Effect caller db.table (.preselect ids) r T' := fun hr hs =>
    .idle (fun g => .inr ⟨hr, rfl⟩) (fun x hx => hr hx.1) hs
  simp only [serve] at h
  split at h
  · cases h
    exact hidle (Option.some_ne_none _).symm (shrinks_refl _)
  · rename_i hfails
    cases h
    by_cases hhit : ∃ r ∈ db.table, r.matched ids .unused = true
    · obtain ⟨hall, hcount⟩ := hwhole (by simpa using hfails) hhit
      -- every listed row is hit, so as many are affected as are listed
      have haffected : (preselectFromUnused caller ids db.table).1 = ids.length := by
        refine (List.countP_congr fun r hr => ?_).trans hcount
        rw [matched_iff, listed_iff]
        exact ⟨fun h => h.1, fun h => ⟨h, hall r hr h⟩⟩
      rw [haffected]
      exact .took hall
    · rw [preselect_none hhit]
      cases ids with
      | nil =>
        have htook := @Effect.took caller db.table [] fun r _ hr => absurd hr List.not_mem_nil
        rw [preselect_none hhit] at htook
        exact htook
      | cons y ids => exact hidle (by simp) (shrinks_refl _)

/-- A call of an undisturbed run. -/
theorem effect_of_call {k : o.Res → Handler Reply} (hi : s.procs[i]? = some (caller, .call o k))
    (hu : Undisturbed s (.call i c)) (h : serve caller c o s.store = some (ret, db')) :
    Effect caller s.store.table o ret db'.table := by
  simp only [Undisturbed, hi] at hu
  cases o with
  | preselect ids => exact effect_preselect (fun hfails => (hu hfails).1) h
  | rollback ids =>
    have hok : c.fails = false := hu
    simp only [serve, hok] at h
    cases h
    exact .gave
  | commit elements mode =>
    refine .idle (fun g => rfl) (fun x => id) ?_
    simp only [serve] at h
    split at h
    · cases h
      exact shrinks_refl _
    · split at h
      · cases h
        exact shrinks_refl _
      · rename_i hbatch
        cases h
        exact shrinks_batch hbatch
  | markUsed ids =>
    refine .idle (fun g => rfl) (fun x => id) ?_
    simp only [serve] at h
    split at h
    · cases h
      exact shrinks_refl _
    · cases h
      exact shrinks_update fun _ hr => by cases hr
  | select =>
    refine .idle (fun g => rfl) (fun x => id) ?_
    simp only [serve] at h
    split at h <;> cases h <;> exact shrinks_refl _
  | countLog requestId =>
    refine .idle (fun g => rfl) (fun x => id) ?_
    simp only [serve] at h
    split at h <;> cases h <;> exact shrinks_refl _
  | hang => cases h
  | detailOrder => cases h; exact .idle (fun g => rfl) (fun x => id) (shrinks_refl _)
  | campusOrder => cases h; exact .idle (fun g => rfl) (fun x => id) (shrinks_refl _)
  | pickOrder attempt group => cases h; exact .idle (fun g => rfl) (fun x => id) (shrinks_refl _)
  | lock key => cases h; exact .idle (fun g => rfl) (fun x => id) (shrinks_refl _)
  | getIdcCityByLogicCity city =>
    cases h
    exact .idle (fun g => rfl) (fun x => id) (shrinks_refl _)
  | sendLog data => cases h; exact .idle (fun g => rfl) (fun x => id) (shrinks_refl _)

/-- A row that is Preselected after the call was so before, of the same holder, or has just been taken. -/
theorem Effect.preselected {r' : Row} (h : Effect caller T o ret T') (hr' : r' ∈ T')
    (hs : r'.status = .preselected) :
    (∃ r ∈ T, r.bkHostID = r'.bkHostID ∧ r.status = .preselected ∧ r.holder = r'.holder ∧
      ¬ Retakes r.bkHostID o ret) ∨ (Retakes r'.bkHostID o ret ∧ r'.holder = some caller) := by
  cases h with
  | took hall =>
    rcases update_cases hr' with ⟨hold, hmiss⟩ | ⟨r, -, hhit, rfl⟩
    · refine .inl ⟨r', hold, rfl, hs, rfl, ?_⟩
      rintro ⟨-, hin⟩
      cases (hall r' hold hin).symm.trans hs
    · exact .inr ⟨⟨rfl, (matched_iff.mp hhit).1⟩, rfl⟩
  | gave =>
    rcases update_cases hr' with ⟨hold, -⟩ | ⟨r, -, -, rfl⟩
    · exact .inl ⟨r', hold, rfl, hs, rfl, id⟩
    · cases hs
  | idle hgrips hretakes hshrinks =>
    obtain ⟨r, hr, hhost, hstatus, hholder⟩ := hshrinks r' hr' hs
    exact .inl ⟨r, hr, hhost, hstatus, hholder, hretakes _⟩

/-- What the caller has in the table after the call is what its grip allows for. -/
theorem Effect.held {g : Grip} (h : Effect caller T o ret T')
    (hheld : ∀ r ∈ T, r.status = .preselected → r.holder = some caller → r.bkHostID ∈ g.held) :
    ∃ g', Grips o g ret g' ∧
      ∀ r ∈ T', r.status = .preselected → r.holder = some caller → r.bkHostID ∈ g'.held := by
  cases h with
  | took hall =>
    refine ⟨_, .inl ⟨rfl, rfl⟩, fun r hr hs hholder => ?_⟩
    rcases update_cases hr with ⟨hold, -⟩ | ⟨r₀, -, hhit, rfl⟩
    · exact .inl (hheld r hold hs hholder)
    · exact .inr (matched_iff.mp hhit).1
  | gave =>
    refine ⟨_, rfl, fun r hr hs hholder => ?_⟩
    rcases update_cases hr with ⟨hold, hmiss⟩ | ⟨r₀, -, -, rfl⟩
    · refine ⟨hheld r hold hs hholder, fun hin => ?_⟩
      exact absurd (matched_iff.mpr ⟨hin, hs⟩) (by simp [hmiss])
    · cases hs
  | idle hgrips hretakes hshrinks =>
    refine ⟨g, hgrips g, fun r hr hs hholder => ?_⟩
    obtain ⟨r₀, hr₀, hhost, hstatus, hholder₀⟩ := hshrinks r hr hs
    rw [← hhost]
    exact hheld r₀ hr₀ hstatus (hholder₀.trans hholder)

/-- Requests hold what their programs account for, and will only roll back what is their own. -/
structure Orderly (s : Service) : Prop where
  names : ∀ (i : ℕ) (caller : Caller) (p : Handler Reply), s.procs[i]? = some (caller, p) →
    caller.number = i
  holders : ∀ r ∈ s.store.table, r.status = .preselected → ∀ h, r.holder = some h →
    h.number < s.procs.length
  grip : ∀ (i : ℕ) (caller : Caller) (p : Handler Reply), s.procs[i]? = some (caller, p) →
    ∃ g, Gripping Released p g ∧
      ∀ r ∈ s.store.table, r.status = .preselected → r.holder = some caller → r.bkHostID ∈ g.held
  owes : ∀ (i : ℕ) (caller : Caller) (p : Handler Reply), s.procs[i]? = some (caller, p) →
    ∀ x, Owes x p →
      ∀ r ∈ s.store.table, r.bkHostID = x → r.status = .preselected → r.holder = some caller

theorem orderly_initial (table : Table) : Orderly (.initial table) where
  names := nofun
  holders := by
    intro r hr _ h hh
    obtain ⟨r₀, -, rfl⟩ := List.mem_map.mp hr
    cases hh
  grip := nofun
  owes := nofun

/-- Steps that concern no request. -/
theorem Orderly.shrinks (h : Orderly s) (hprocs : t.procs = s.procs)
    (hs : Shrinks s.store.table t.store.table) : Orderly t where
  names := hprocs ▸ h.names
  holders := by
    intro r' hr' hstatus k hk
    obtain ⟨r, hr, -, hstatus', hholder⟩ := hs r' hr' hstatus
    rw [hprocs]
    exact h.holders r hr hstatus' k (hholder.trans hk)
  grip := by
    intro i caller p hi
    obtain ⟨g, hg, hheld⟩ := h.grip i caller p (hprocs ▸ hi)
    refine ⟨g, hg, fun r' hr' hstatus hholder' => ?_⟩
    obtain ⟨r, hr, hhost, hstatus', hholder⟩ := hs r' hr' hstatus
    rw [← hhost]
    exact hheld r hr hstatus' (hholder.trans hholder')
  owes := by
    intro i caller p hi x hx r' hr' hhost' hstatus
    obtain ⟨r, hr, hhost, hstatus', hholder⟩ := hs r' hr' hstatus
    rw [← hholder]
    exact h.owes i caller p (hprocs ▸ hi) x hx r hr (hhost.trans hhost') hstatus'

theorem Orderly.arrive {handler : Handler Reply} {requestId : String} (h : Orderly s)
    (hgrip : Gripping Released handler ⟨∅, ∅⟩) : Orderly (s.arrive requestId handler) := by
  have hcases : ∀ (i : ℕ) (caller : Caller) (p : Handler Reply),
      (s.arrive requestId handler).procs[i]? = some (caller, p) →
      s.procs[i]? = some (caller, p) ∨
        (i = s.procs.length ∧ caller = ⟨s.procs.length, requestId⟩ ∧ p = handler) := by
    intro i caller p hi
    have hi' : (s.procs ++ [(⟨s.procs.length, requestId⟩, handler)])[i]? = some (caller, p) := hi
    by_cases hlt : i < s.procs.length
    · rw [List.getElem?_append_left hlt] at hi'
      exact .inl hi'
    · rw [List.getElem?_append_right (Nat.le_of_not_lt hlt)] at hi'
      obtain ⟨hlen, heq⟩ := List.getElem?_eq_some_iff.mp hi'
      have hzero : i - s.procs.length = 0 := by
        simp only [List.length_singleton] at hlen
        omega
      simp only [hzero, List.getElem_singleton] at heq
      cases heq
      exact .inr ⟨by omega, rfl, rfl⟩
  constructor
  · intro i caller p hi
    rcases hcases i caller p hi with hold | ⟨rfl, rfl, -⟩
    · exact h.names i caller p hold
    · rfl
  · intro r hr hs k hk
    have hlt := h.holders r hr hs k hk
    simp only [Service.arrive, List.length_append, List.length_singleton]
    omega
  · intro i caller p hi
    rcases hcases i caller p hi with hold | ⟨-, rfl, rfl⟩
    · exact h.grip i caller p hold
    · refine ⟨_, hgrip, fun r hr hs hholder => ?_⟩
      have hlt : s.procs.length < s.procs.length := h.holders r hr hs _ hholder
      exact absurd hlt (Nat.lt_irrefl _)
  · intro i caller p hi x hx
    rcases hcases i caller p hi with hold | ⟨-, -, rfl⟩
    · exact h.owes i caller p hold x hx
    · exact absurd (hx.taken hgrip) (Set.notMem_empty x)

theorem Orderly.call (h : Orderly s) (hu : Undisturbed s (.call i c))
    (hs : s.call serve i c = some t) : Orderly t := by
  obtain ⟨caller, o, k, r, hi, hserve, hprocs⟩ := call_cases hs
  have heffect := effect_of_call hi hu hserve
  have hlen := (List.getElem?_eq_some_iff.mp hi).1
  have hnumber := h.names i caller _ hi
  have hcases : ∀ (j : ℕ) (caller' : Caller) (p : Handler Reply), t.procs[j]? = some (caller', p) →
      (j = i ∧ caller' = caller ∧ p = k r) ∨ (j ≠ i ∧ s.procs[j]? = some (caller', p)) := by
    intro j caller' p hj
    rw [hprocs] at hj
    by_cases hij : i = j
    · subst hij
      rw [List.getElem?_set_self hlen] at hj
      cases hj
      exact .inl ⟨rfl, rfl, rfl⟩
    · rw [List.getElem?_set_ne hij] at hj
      exact .inr ⟨fun hji => hij hji.symm, hj⟩
  -- what another request holds is not what the caller took
  have hother : ∀ (j : ℕ) (caller' : Caller) (p : Handler Reply), j ≠ i →
      s.procs[j]? = some (caller', p) → caller' ≠ caller := by
    rintro j caller' p hji hj rfl
    exact hji ((h.names j caller' p hj).symm.trans hnumber)
  constructor
  · intro j caller' p hj
    rcases hcases j caller' p hj with ⟨rfl, rfl, -⟩ | ⟨-, hold⟩
    · exact hnumber
    · exact h.names j caller' p hold
  · intro r' hr' hstatus a ha
    rw [hprocs, List.length_set]
    rcases heffect.preselected hr' hstatus with ⟨r₀, hr₀, -, hstatus₀, hholder, -⟩ | ⟨-, hholder⟩
    · exact h.holders r₀ hr₀ hstatus₀ a (hholder.trans ha)
    · cases hholder.symm.trans ha
      omega
  · intro j caller' p hj
    rcases hcases j caller' p hj with ⟨rfl, rfl, rfl⟩ | ⟨hji, hold⟩
    · obtain ⟨g, hg, hheld⟩ := h.grip j caller' _ hi
      obtain ⟨g', hgrips, hheld'⟩ := heffect.held hheld
      exact ⟨g', hg.2 r g' hgrips, hheld'⟩
    · obtain ⟨g, hg, hheld⟩ := h.grip j caller' p hold
      refine ⟨g, hg, fun r' hr' hstatus hholder' => ?_⟩
      rcases heffect.preselected hr' hstatus with
        ⟨r₀, hr₀, hhost, hstatus₀, hholder, -⟩ | ⟨-, hholder⟩
      · rw [← hhost]
        exact hheld r₀ hr₀ hstatus₀ (hholder.trans hholder')
      · cases hholder.symm.trans hholder'
        exact absurd rfl (hother j caller p hji hold)
  · intro j caller' p hj x hx r' hr' hhost' hstatus
    rcases hcases j caller' p hj with ⟨rfl, rfl, rfl⟩ | ⟨hji, hold⟩
    · rcases heffect.preselected hr' hstatus with
        ⟨r₀, hr₀, hhost, hstatus₀, hholder, hnot⟩ | ⟨-, hholder⟩
      · rw [← hholder]
        have hx₀ : r₀.bkHostID = x := hhost.trans hhost'
        rw [hx₀] at hnot
        exact h.owes j caller' _ hi x (.later r hnot hx) r₀ hr₀ hx₀ hstatus₀
      · exact hholder
    · rcases heffect.preselected hr' hstatus with
        ⟨r₀, hr₀, hhost, hstatus₀, hholder, -⟩ | ⟨hretakes, -⟩
      · rw [← hholder]
        exact h.owes j caller' p hold x hx r₀ hr₀ (hhost.trans hhost') hstatus₀
      · -- an undisturbed preselect takes nothing that another request owes
        cases o with
        | preselect ids =>
          simp only [Undisturbed, hi] at hu
          obtain ⟨hr, hin⟩ := hretakes
          have hok : c.fails = false := by
            cases hfails : c.fails with
            | false => rfl
            | true =>
              simp only [serve, hfails] at hserve
              obtain ⟨hnone, -⟩ := Prod.mk.inj (Option.some.inj hserve)
              cases hnone.trans hr
          rw [hhost'] at hin
          exact absurd hx ((hu hok).2 j hji caller' p hold x hin)
        | _ => cases hretakes

theorem orderly_step (h : Orderly s) (hu : Undisturbed s e) (hs : s.next runMode e = some t) :
    Orderly t := by
  cases e with
  | apply requestId param mode =>
    cases hs
    exact h.arrive (gripping_applyBase rfl)
  | confirm requestId param =>
    cases hs
    exact h.arrive gripping_confirmApply
  | call i c => exact h.call hu hs
  | recordTask =>
    simp only [Service.next] at hs
    split at hs <;> cases hs
    exact h.shrinks rfl (shrinks_refl _)
  | archive ids => cases hs; exact h.shrinks rfl shrinks_filter
  | delete ids => cases hs; exact h.shrinks rfl shrinks_filter
  | importHosts rows => cases hs; exact h.shrinks rfl (shrinks_imported rows)
  | inspect ids why =>
    cases hs
    exact h.shrinks rfl (shrinks_update fun _ hr => by cases why <;> cases hr)
  | release ids => cases hs; exact h.shrinks rfl (shrinks_update fun _ hr => by cases hr)

/-- The requests that have ended with an error. -/
def Service.refused (s : Service) : List Caller :=
  s.procs.filterMap fun
    | (caller, .done (.refused _)) => some caller
    | _ => none

/-- The rollbacks that are about to be executed. -/
def Service.rollingBack (s : Service) : List (Caller × List ℤ) :=
  s.procs.filterMap fun
    | (caller, .call (.rollback ids) _) => some (caller, ids)
    | _ => none

/-- No host is Preselected because of a request that has failed. -/
def LeavesNone (s : Service) : Prop :=
  ∀ caller ∈ s.refused, ∀ r ∈ s.store.table, r.status = .preselected → r.holder ≠ some caller

/-- No rollback releases a host that another request has preselected. -/
def ReleasesOwn (s : Service) : Prop :=
  ∀ b ∈ s.rollingBack, ∀ r ∈ s.store.table, r.matched b.2 .preselected → r.holder = some b.1

instance (s : Service) : Decidable (LeavesNone s) :=
  inferInstanceAs (Decidable (∀ caller ∈ s.refused, ∀ r ∈ s.store.table,
    r.status = .preselected → r.holder ≠ some caller))

instance (s : Service) : Decidable (ReleasesOwn s) :=
  inferInstanceAs (Decidable (∀ b ∈ s.rollingBack, ∀ r ∈ s.store.table,
    r.matched b.2 .preselected → r.holder = some b.1))

theorem Orderly.cleansUp (h : Orderly s) : LeavesNone s ∧ ReleasesOwn s := by
  constructor
  · intro caller hcaller r hr hstatus hholder
    obtain ⟨⟨caller', p⟩, hmem, hp⟩ := List.mem_filterMap.mp hcaller
    obtain ⟨i, hi⟩ := List.mem_iff_getElem?.mp hmem
    split at hp
    · rename_i err heq
      cases heq
      cases hp
      obtain ⟨g, hg, hheld⟩ := h.grip i caller _ hi
      have hin := hheld r hr hstatus hholder
      rw [hg err rfl] at hin
      exact hin
    · cases hp
  · intro b hb r hr hmatched
    obtain ⟨⟨caller', p⟩, hmem, hp⟩ := List.mem_filterMap.mp hb
    obtain ⟨i, hi⟩ := List.mem_iff_getElem?.mp hmem
    obtain ⟨hin, hstatus⟩ := matched_iff.mp hmatched
    split at hp
    · rename_i heq
      cases heq
      cases hp
      exact h.owes i caller' _ hi _ (.here hin) r hr rfl hstatus
    · cases hp

/-- In an undisturbed run every request that fails has cleaned up its own hosts, and only those. -/
theorem failed_applies_clean_up {table : Table}
    (h : Run (Guarded Undisturbed (Steps (Service.next runMode))) (.initial table) es s) :
    LeavesNone s ∧ ReleasesOwn s := by
  refine (h.invariant Orderly (orderly_initial table) ?_).cleansUp
  rintro s e t hord ⟨hu, hs⟩
  exact orderly_step hord hu hs

section Runs

/-- Two hosts for one group. -/
def twoHosts : RequestInputParam :=
  { oneHost with details := [anyHost 2 Nat.two_pos], details_ne_nil := nofun }

/-- Two groups of a host each. -/
def twoGroups : RequestInputParam :=
  { oneHost with details := [anyHost 1 Nat.one_pos, anyHost 1 Nat.one_pos], details_ne_nil := nofun }

/-- Two groups that are to stand together in the sub-zone `z`. -/
def together : RequestInputParam :=
  let group : ObjectDetail :=
    { anyHost 1 Nat.one_pos with affinity := .sameSubzone, locationSpec := ⟨"", ["z"], none, [], [], []⟩ }
  { oneHost with details := [group, group], groupsInSameLocation := true, details_ne_nil := nofun }

/-- Both requests have picked the first host when one of them preselects it: the other preselects the
second host alone, and ends. And a request whose second group fails has rolled back the host of its first
group, and is about to do so again, when another request has preselected it. -/
theorem failed_applies_disturb :
    (∃ s, Run (Steps (Service.next "dev")) (.initial [host 1 "z", host 2 "z"])
      (.apply "a" oneHost .used :: .apply "b" twoHosts .used ::
        (calls 0 5 ++ calls 1 5 ++ calls 0 1 ++ calls 1 1)) s ∧ ¬ LeavesNone s) ∧
    ∃ s, Run (Steps (Service.next "dev")) (.initial [host 1 "z"])
      (.apply "a" oneHost .used :: .apply "b" together .used :: (calls 1 8 ++ calls 0 6)) s ∧
        ¬ ReleasesOwn s := by
  constructor
  · obtain ⟨s, hrun, hs⟩ := exists_run_of_exec (Service.next "dev")
      (.initial [host 1 "z", host 2 "z"]) (.apply "a" oneHost .used :: .apply "b" twoHosts .used ::
        (calls 0 5 ++ calls 1 5 ++ calls 0 1 ++ calls 1 1))
      (fun s => ¬ LeavesNone s) (by decide +kernel)
    exact ⟨s, hrun, of_decide_eq_true hs⟩
  · obtain ⟨s, hrun, hs⟩ := exists_run_of_exec (Service.next "dev") (.initial [host 1 "z"])
      (.apply "a" oneHost .used :: .apply "b" together .used :: (calls 1 8 ++ calls 0 6))
      (fun s => ¬ ReleasesOwn s) (by decide +kernel)
    exact ⟨s, hrun, of_decide_eq_true hs⟩

/-- One request at a time, whose statements do not fail and whose preselects are whole. -/
def lone (s : Service) : Event → Bool
  | .call i c =>
    s.procs.length ≤ 1 && !c.fails &&
      match s.procs[i]? with
      | some (_, .call (.preselect ids) _) => decide (Whole ids s.store.table)
      | _ => true
  | _ => true

theorem undisturbed_of_lone (h : lone s e = true) : Undisturbed s e := by
  cases e with
  | call i c =>
    simp only [lone, Bool.and_eq_true, decide_eq_true_eq, Bool.not_eq_true'] at h
    obtain ⟨⟨hlen, hfails⟩, hwhole⟩ := h
    simp only [Undisturbed]
    split
    · rename_i ids k hi
      rw [hi] at hwhole
      refine fun _ => ⟨of_decide_eq_true hwhole, fun j hji caller p hj => ?_⟩
      have hi' := (List.getElem?_eq_some_iff.mp hi).1
      have hj' := (List.getElem?_eq_some_iff.mp hj).1
      omega
    · exact hfails
    · trivial
  | _ => trivial

/-- The second group finds nothing, and the host of the first is rolled back. -/
theorem failed_applies_clean_up_alone : ∃ s,
    Run (Guarded Undisturbed (Steps (Service.next "dev"))) (.initial [host 1 "z"])
      (.apply "a" twoGroups .used :: calls 0 8) s ∧
    s.refused ≠ [] ∧ LeavesNone s ∧ ReleasesOwn s := by
  obtain ⟨s, hrun, hs⟩ := exists_guarded_run (Service.next "dev") (fun s e => lone s e = true)
    (.initial [host 1 "z"]) (.apply "a" twoGroups .used :: calls 0 8)
    (fun s => s.refused ≠ []) (by decide +kernel)
  have hrun' := hrun.mono fun h => And.intro (undisturbed_of_lone h.1) h.2
  exact ⟨s, hrun', of_decide_eq_true hs, failed_applies_clean_up hrun'⟩

end Runs

end Resource
