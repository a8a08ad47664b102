import BluekingDbm.Resource.Delivery

/-! What a confirmation turns into Used. It compares the number of its hosts with the log of the request,
looks at their statuses, and then updates them, whatever has become of them. -/
namespace Resource

open Program Transition

/-- The rows of some hosts. -/
def Table.rowsOf (t : Table) (ids : List ℤ) : Table := t.filter fun r => r.listed ids

/-- All listed hosts are there, and Prepoccupied under the request. -/
structure ConfirmApplyParam.Owned (param : ConfirmApplyParam) (t : Table) : Prop where
  present : ∀ x ∈ param.hostIds, ∃ r ∈ t, r.bkHostID = x
  occupied : ∀ r ∈ t, r.listed param.hostIds → r.status = .prepoccupied
  own : ∀ r ∈ t, r.listed param.hostIds → r.holder.map Caller.requestId = some param.requestId

instance (param : ConfirmApplyParam) (t : Table) : Decidable (param.Owned t) :=
  decidable_of_iff ((∀ x ∈ param.hostIds, ∃ r ∈ t, r.bkHostID = x) ∧
      (∀ r ∈ t, r.listed param.hostIds → r.status = .prepoccupied) ∧
      ∀ r ∈ t, r.listed param.hostIds → r.holder.map Caller.requestId = some param.requestId)
    ⟨fun ⟨hpresent, hoccupied, hown⟩ => ⟨hpresent, hoccupied, hown⟩,
      fun h => ⟨h.present, h.occupied, h.own⟩⟩

/-- The service, with the tables before and after each call that one party has made. -/
abbrev Watched := Service × List (Table × Table)

def Event.isCall (i : ℕ) : Event → Bool
  | .call j _ => j = i
  | _ => false

def watch (runMode : String) (i : ℕ) (w : Watched) (e : Event) : Option Watched :=
  (w.1.next runMode e).map fun s =>
    (s, if e.isCall i then w.2 ++ [(w.1.store.table, s.store.table)] else w.2)

/-- A confirmation that succeeds has turned all of its hosts, which were its request's, with its last
call. Any other has changed nothing. -/
def ConfirmApplyParam.Bound (param : ConfirmApplyParam) (calls : List (Table × Table)) :
    Handler Reply → Prop
  | .done .confirmed => (∀ c ∈ calls.dropLast, c.2 = c.1) ∧
      ∃ c ∈ calls.getLast?, param.Owned c.1 ∧ c.2 = markUsed param.hostIds c.1
  | _ => ∀ c ∈ calls, c.2 = c.1

/-- The call a party makes next. -/
def Service.pending (s : Service) (i : ℕ) : Option Op :=
  match s.procs[i]? with
  | some (_, .call o _) => some o
  | _ => none

/-- The confirmation finds only hosts of its request Prepoccupied, none missing; and from then on nobody
returns, deletes, imports or confirms one of them before it has ended. -/
def Service.Respects (i : ℕ) (param : ConfirmApplyParam) (s : Service) : Event → Prop
  | .call j c =>
    if j = i then
      s.pending i = some .select → c.fails = false →
        (∀ r ∈ s.store.table, r.listed param.hostIds → r.status = .prepoccupied) →
          (∀ x ∈ param.hostIds, ∃ r ∈ s.store.table, r.bkHostID = x) ∧
            ∀ r ∈ s.store.table, r.listed param.hostIds →
              r.holder.map Caller.requestId = some param.requestId
    else
      ∀ ids ids', s.pending i = some (.markUsed ids) → s.pending j = some (.markUsed ids') →
        c.fails = false → ∀ x ∈ ids', x ∉ param.hostIds
  | .release ids => ∀ ids', s.pending i = some (.markUsed ids') → ∀ x ∈ ids, x ∉ param.hostIds
  | .delete ids => ∀ ids', s.pending i = some (.markUsed ids') → ∀ x ∈ ids, x ∉ param.hostIds
  | .importHosts rows =>
    ∀ ids, s.pending i = some (.markUsed ids) → ∀ r ∈ rows, r.bkHostID ∉ param.hostIds
  | _ => True

variable {runMode : String} {s s' : Service} {e : Event} {es : List Event} {i : ℕ} {c : Choice}
  {caller : Caller} {param : ConfirmApplyParam} {T T' : Table} {ids : List ℤ} {p : Handler Reply}
  {changes : List (Table × Table)} {w w' : Watched} {o : Op} {r : o.Res} {db db' : Db}

section Frame

theorem mem_rowsOf {row : Row} : row ∈ T.rowsOf ids ↔ row ∈ T ∧ row.listed ids = true :=
  List.mem_filter

theorem owned_of_rows (h : param.Owned T) (heq : T'.rowsOf param.hostIds = T.rowsOf param.hostIds) :
    param.Owned T' := by
  have hback : ∀ row ∈ T', row.listed param.hostIds → row ∈ T := by
    intro row hrow hlisted
    have hmem : row ∈ T'.rowsOf param.hostIds := mem_rowsOf.mpr ⟨hrow, hlisted⟩
    rw [heq] at hmem
    exact (mem_rowsOf.mp hmem).1
  refine ⟨?_, fun row hrow hl => h.occupied row (hback row hrow hl) hl,
    fun row hrow hl => h.own row (hback row hrow hl) hl⟩
  intro x hx
  obtain ⟨row, hrow, rfl⟩ := h.present x hx
  have hmem : row ∈ T.rowsOf param.hostIds := mem_rowsOf.mpr ⟨hrow, listed_iff.mpr hx⟩
  rw [← heq] at hmem
  exact ⟨row, (mem_rowsOf.mp hmem).1, rfl⟩

/-- An update that hits none of the hosts leaves their rows. -/
theorem rows_update {hit : Row → Bool} {set : Row → Row}
    (hmiss : ∀ row ∈ T, row.listed ids = true → hit row = false)
    (hset : ∀ row, (set row).listed ids = row.listed ids) :
    (T.update hit set).rowsOf ids = T.rowsOf ids := by
  induction T with
  | nil => rfl
  | cons row T ih =>
    have hrest := ih fun row' hrow' => hmiss row' (List.mem_cons_of_mem _ hrow')
    have hhead : (if hit row then set row else row).listed ids = row.listed ids := by
      split
      · exact hset row
      · rfl
    show ((if hit row then set row else row) :: Table.update T hit set).filter _ = _
    unfold Table.rowsOf at hrest ⊢
    rw [List.filter_cons, List.filter_cons, hhead, hrest]
    cases hlisted : row.listed ids with
    | false => rfl
    | true =>
      rw [hmiss row List.mem_cons_self hlisted]
      rfl

/-- An update of hosts in another status leaves the rows of hosts that are Prepoccupied. -/
theorem rows_update_status {ids : List ℤ} {status : Status} {set : Row → Row}
    (h : param.Owned T) (hne : status ≠ .prepoccupied)
    (hset : ∀ row, (set row).listed param.hostIds = row.listed param.hostIds) :
    (T.update (fun row => row.matched ids status) set).rowsOf param.hostIds =
      T.rowsOf param.hostIds := by
  refine rows_update (fun row hrow hlisted => ?_) hset
  rw [Bool.eq_false_iff]
  intro hmatched
  exact hne ((matched_iff.mp hmatched).2.symm.trans (h.occupied row hrow hlisted))

theorem rows_update_hosts {ids ids' : List ℤ} {set : Row → Row} (hout : ∀ x ∈ ids', x ∉ ids)
    (hset : ∀ row, (set row).listed ids = row.listed ids) :
    (T.update (fun row => row.listed ids') set).rowsOf ids = T.rowsOf ids := by
  refine rows_update (fun row _ hlisted => ?_) hset
  rw [Bool.eq_false_iff]
  intro hlisted'
  exact hout _ (listed_iff.mp hlisted') (listed_iff.mp hlisted)

theorem rows_filter {q : Row → Bool} (hkeep : ∀ row ∈ T, row.listed ids = true → q row = true) :
    Table.rowsOf (T.filter q) ids = T.rowsOf ids := by
  unfold Table.rowsOf
  rw [List.filter_filter]
  refine List.filter_congr fun row hrow => ?_
  cases hlisted : row.listed ids with
  | false => rfl
  | true => rw [hkeep row hrow hlisted, Bool.and_self]

theorem rows_setSatisfiedStatuses {mode : Mode} {elements : List BatchGetTbDetail}
    {result : List BatchGetTbDetailResult} (h : param.Owned T)
    (hset : setSatisfiedStatuses mode elements T = some (result, T')) :
    T'.rowsOf param.hostIds = T.rowsOf param.hostIds := by
  induction elements generalizing T result with
  | nil =>
    cases hset
    rfl
  | cons v elements ih =>
    obtain ⟨⟨d, T₁⟩, hv, hset⟩ := Option.bind_eq_some_iff.mp hset
    obtain ⟨⟨rest, T₂⟩, hrest, hset⟩ := Option.bind_eq_some_iff.mp hset
    cases hset
    obtain ⟨-, -, rfl⟩ := setSatisfiedStatus_some hv
    have hfirst := @rows_update_status param T v.bkHostIds .preselected
      (fun row => { row with status := mode.status }) h (by decide) fun _ => rfl
    exact (ih (owned_of_rows h hfirst) hrest).trans hfirst

theorem rows_commit {mode : Mode} {elements : List BatchGetTbDetail}
    {result : List BatchGetTbDetailResult} (h : param.Owned T)
    (hcommit : batchGetSatisfiedByAssetIds elements mode T = some (result, T')) :
    T'.rowsOf param.hostIds = T.rowsOf param.hostIds := by
  obtain ⟨⟨result₁, T₁⟩, hset, hend⟩ := Option.bind_eq_some_iff.mp hcommit
  simp only at hend
  split at hend
  · cases hend
  · cases hend
    exact rows_setSatisfiedStatuses h hset

/-- Other parties' calls leave the rows of Prepoccupied hosts, but for updates of confirmations. -/
theorem rows_serve (h : param.Owned db.table)
    (hupdate : ∀ ids, o = .markUsed ids → c.fails = false → ∀ x ∈ ids, x ∉ param.hostIds)
    (hserve : serve caller c o db = some (r, db')) :
    db'.table.rowsOf param.hostIds = db.table.rowsOf param.hostIds := by
  cases o with
  | preselect ids =>
    simp only [serve] at hserve
    split at hserve <;> cases hserve
    · rfl
    · exact rows_update_status h (by decide) fun _ => rfl
  | rollback ids =>
    simp only [serve] at hserve
    split at hserve <;> cases hserve
    · rfl
    · exact rows_update_status h (by decide) fun _ => rfl
  | commit elements mode =>
    simp only [serve] at hserve
    split at hserve
    · cases hserve
      rfl
    · split at hserve <;> cases hserve
      · rfl
      · rename_i hcommit
        exact rows_commit h hcommit
  | markUsed ids =>
    simp only [serve] at hserve
    split at hserve <;> cases hserve
    · rfl
    · rename_i hfails
      exact rows_update_hosts (hupdate ids rfl (Bool.eq_false_iff.mpr hfails)) fun _ => rfl
  | select =>
    simp only [serve] at hserve
    split at hserve <;> cases hserve <;> rfl
  | countLog requestId =>
    simp only [serve] at hserve
    split at hserve <;> cases hserve <;> rfl
  | hang => cases hserve
  | _ =>
    cases hserve
    rfl

theorem pending_of_call {k : o.Res → Handler Reply} (h : s.procs[i]? = some (caller, .call o k)) :
    s.pending i = some o := by
  rw [Service.pending, h]

/-- Nothing that others do between the check and the update changes the hosts' rows. -/
theorem rows_step {ids : List ℤ} (h : param.Owned s.store.table)
    (hpending : s.pending i = some (.markUsed ids)) (hrespects : s.Respects i param e)
    (hother : ∀ c, e ≠ .call i c) (hs : s.next runMode e = some s') :
    s'.store.table.rowsOf param.hostIds = s.store.table.rowsOf param.hostIds := by
  cases e with
  | apply requestId param mode =>
    cases hs
    rfl
  | confirm requestId param =>
    cases hs
    rfl
  | call j c =>
    obtain ⟨caller, o, k, r, hj, hserve, -⟩ := call_cases hs
    have hne : j ≠ i := fun heq => hother c (heq ▸ rfl)
    refine rows_serve h (fun ids' hids' => ?_) hserve
    have hpending' := (pending_of_call hj).trans (congrArg some hids')
    have hguard := hrespects
    simp only [Service.Respects, if_neg hne] at hguard
    exact hguard ids ids' hpending hpending'
  | recordTask =>
    simp only [Service.next] at hs
    split at hs <;> cases hs
    rfl
  | archive ids =>
    cases hs
    refine rows_filter fun row hrow hlisted => ?_
    rw [h.occupied row hrow hlisted]
    simp
  | delete ids' =>
    cases hs
    refine rows_filter fun row _ hlisted => ?_
    have hout := fun hin => hrespects ids hpending _ hin (listed_iff.mp hlisted)
    simpa [Row.listed] using hout
  | importHosts rows =>
    cases hs
    show List.filter _ (_ ++ imported rows) = _
    have hnone : (imported rows).filter (fun r => r.listed param.hostIds) = [] := by
      refine List.filter_eq_nil_iff.mpr fun row hrow hlisted => ?_
      obtain ⟨row₀, hrow₀, rfl⟩ := List.mem_map.mp hrow
      exact hrespects ids hpending row₀ hrow₀ (listed_iff.mp hlisted)
    rw [List.filter_append, hnone, List.append_nil]
    rfl
  | inspect ids' why =>
    cases hs
    exact rows_update_status h (by decide) fun _ => rfl
  | release ids' =>
    cases hs
    exact rows_update_hosts (hrespects ids hpending) fun _ => rfl

end Frame

section Stages

theorem markUsed_dedup {ids : List ℤ} : markUsed ids.dedup T = markUsed ids T := by
  unfold markUsed Row.listed
  simp only [List.mem_dedup]

def confirmUpdate (param : ConfirmApplyParam) (times : ℕ) : Handler Reply := do
  if ← retry (updateUsed param.hostIds.dedup) times then pure .confirmed
  else pure (.notConfirmed .retriesExceeded)

/-- What `ConfirmApply` makes of the hosts it reads. -/
def confirmFound (param : ConfirmApplyParam) : Option Table → Handler Reply
  | none => .done (.notConfirmed .dbQuery)
  | some t =>
    let rs := t.filter fun r => r.listed param.hostIds.dedup && r.status ≠ .prepoccupied
    if !rs.isEmpty then .done (.notConfirmed (.abnormal rs)) else confirmUpdate param 3

/-- What `ConfirmApply` makes of the number of hosts that are logged. -/
def confirmCounted (param : ConfirmApplyParam) : Option ℕ → Handler Reply
  | none => .done (.notConfirmed .dbQuery)
  | some cnt =>
    if param.hostIds.dedup.length ≠ cnt then
      .done (.notConfirmed (.count param.hostIds.dedup.length cnt))
    else .call .select (confirmFound param)

theorem confirmApply_eq :
    confirmApply param = .call (.countLog param.requestId) (confirmCounted param) := rfl

theorem confirmUpdate_succ {times : ℕ} : confirmUpdate param (times + 1) =
    .call (.markUsed param.hostIds.dedup) fun done : Bool =>
      if done then .done .confirmed else confirmUpdate param times := by
  show (Prog.call _ _ : Handler Reply) = _
  congr 1
  funext done
  cases (done : Bool) <;> rfl

/-- How far a confirmation has got. When it is about to update, its hosts are as it has found them. -/
inductive ConfirmStage (param : ConfirmApplyParam) (t : Table) : Handler Reply → Prop
  | count : ConfirmStage param t (confirmApply param)
  | check : ConfirmStage param t (.call .select (confirmFound param))
  | update (times : ℕ) (h : param.Owned t) : ConfirmStage param t (confirmUpdate param (times + 1))
  | ended (reply : Reply) : ConfirmStage param t (.done reply)

/-- The confirmation has not succeeded yet. -/
def Unconfirmed (p : Handler Reply) : Prop := p ≠ .done .confirmed

theorem bound_of_unchanged (h : ∀ c ∈ changes, c.2 = c.1) (hp : Unconfirmed p) :
    param.Bound changes p := by
  unfold ConfirmApplyParam.Bound
  split
  · exact absurd rfl hp
  · exact h

theorem unchanged_of_bound (h : param.Bound changes p) (hp : Unconfirmed p) :
    ∀ c ∈ changes, c.2 = c.1 := by
  unfold ConfirmApplyParam.Bound at h
  split at h
  · exact absurd rfl hp
  · exact h

/-- What is known of the party while it is watched. -/
def Course (i : ℕ) (param : ConfirmApplyParam) (w : Watched) : Prop :=
  ∃ caller p, w.1.procs[i]? = some (caller, p) ∧ ConfirmStage param w.1.store.table p ∧ param.Bound w.2 p

theorem unchanged_snoc (h : ∀ c ∈ changes, c.2 = c.1) :
    ∀ c ∈ changes ++ [(T, T)], c.2 = c.1 := by
  intro c hc
  rcases List.mem_append.mp hc with hc | hc
  · exact h c hc
  · rw [List.mem_singleton.mp hc]

theorem bound_snoc (h : ∀ c ∈ changes, c.2 = c.1) (howned : param.Owned T) :
    param.Bound (changes ++ [(T, markUsed param.hostIds T)]) (.done .confirmed) := by
  refine ⟨?_, (T, markUsed param.hostIds T), ?_, howned, rfl⟩
  · rwa [List.dropLast_concat]
  · rw [List.getLast?_concat]
    rfl

theorem unconfirmed_call {k : o.Res → Handler Reply} : Unconfirmed (.call o k) := nofun

theorem unconfirmed_refused {err : ConfirmError} : Unconfirmed (.done (.notConfirmed err)) := nofun

/-- A call of the confirmation itself. -/
theorem stage_call {k : o.Res → Handler Reply} (hstage : ConfirmStage param db.table (.call o k))
    (hunchanged : ∀ c ∈ changes, c.2 = c.1)
    (hfound : o = .select → c.fails = false →
      (∀ row ∈ db.table, row.listed param.hostIds → row.status = .prepoccupied) → param.Owned db.table)
    (hserve : serve caller c o db = some (r, db')) :
    ConfirmStage param db'.table (k r) ∧ param.Bound (changes ++ [(db.table, db'.table)]) (k r) := by
  generalize hp : (Prog.call o k : Handler Reply) = p at hstage
  cases hstage with
  | count =>
    rw [confirmApply_eq] at hp
    cases hp
    have hsame : db' = db := by
      simp only [serve] at hserve
      split at hserve <;> cases hserve <;> rfl
    subst hsame
    cases (r : Option ℕ) with
    | none => exact ⟨.ended _, bound_of_unchanged (unchanged_snoc hunchanged) unconfirmed_refused⟩
    | some cnt =>
      simp only [confirmCounted]
      split
      · exact ⟨.ended _, bound_of_unchanged (unchanged_snoc hunchanged) unconfirmed_refused⟩
      · exact ⟨.check, bound_of_unchanged (unchanged_snoc hunchanged) unconfirmed_call⟩
  | check =>
    cases hp
    simp only [serve] at hserve
    split at hserve <;> cases hserve
    · exact ⟨.ended _, bound_of_unchanged (unchanged_snoc hunchanged) unconfirmed_refused⟩
    · rename_i hfails
      simp only [confirmFound]
      split
      · exact ⟨.ended _, bound_of_unchanged (unchanged_snoc hunchanged) unconfirmed_refused⟩
      · rename_i hnone
        have howned := hfound rfl (Bool.eq_false_iff.mpr hfails) fun row hrow hlisted => by
          simp only [Bool.not_eq_true', Bool.not_eq_false, List.isEmpty_iff] at hnone
          have hnot := List.filter_eq_nil_iff.mp hnone row hrow
          have hlisted' : row.listed param.hostIds.dedup = true :=
            listed_iff.mpr (List.mem_dedup.mpr (listed_iff.mp hlisted))
          simpa [hlisted'] using hnot
        refine ⟨.update 2 howned, bound_of_unchanged (unchanged_snoc hunchanged) ?_⟩
        rw [confirmUpdate_succ]
        exact unconfirmed_call
  | update times howned =>
    rw [confirmUpdate_succ] at hp
    cases hp
    simp only [serve] at hserve
    split at hserve <;> cases hserve
    · show ConfirmStage _ _ (confirmUpdate param times) ∧ param.Bound _ (confirmUpdate param times)
      cases times with
      | zero => exact ⟨.ended _, bound_of_unchanged (unchanged_snoc hunchanged) unconfirmed_refused⟩
      | succ times =>
        refine ⟨.update times howned, bound_of_unchanged (unchanged_snoc hunchanged) ?_⟩
        rw [confirmUpdate_succ]
        exact unconfirmed_call
    · show ConfirmStage _ _ (.done .confirmed) ∧
        param.Bound (changes ++ [(db.table, markUsed param.hostIds.dedup db.table)]) (.done .confirmed)
      rw [markUsed_dedup]
      exact ⟨.ended _, bound_snoc hunchanged howned⟩
  | ended reply => cases hp

theorem course_initial {own : String} :
    Course s.procs.length param (s.arrive own (confirmApply param), []) := by
  refine ⟨⟨s.procs.length, own⟩, confirmApply param, ?_, .count, ?_⟩
  · show (s.procs ++ [_])[s.procs.length]? = _
    rw [List.getElem?_append_right (Nat.le_refl _), Nat.sub_self]
    rfl
  · rw [confirmApply_eq]
    exact fun c hc => absurd hc List.not_mem_nil

theorem course_own {w : Watched} (h : Course i param w) (hrespects : w.1.Respects i param (.call i c))
    (hs : w.1.next runMode (.call i c) = some s') :
    Course i param (s', w.2 ++ [(w.1.store.table, s'.store.table)]) := by
  obtain ⟨caller, p, hi, hstage, hbound⟩ := h
  obtain ⟨caller', o, k, r, hi', hserve, hprocs⟩ := call_cases hs
  obtain ⟨rfl, rfl⟩ := Prod.mk.inj (Option.some.inj (hi.symm.trans hi'))
  have hfound : o = .select → c.fails = false →
      (∀ row ∈ w.1.store.table, row.listed param.hostIds → row.status = .prepoccupied) →
        param.Owned w.1.store.table := by
    intro ho hfails hoccupied
    have hguard := hrespects
    simp only [Service.Respects, if_true] at hguard
    obtain ⟨hpresent, hown⟩ := hguard ((pending_of_call hi).trans (congrArg some ho)) hfails hoccupied
    exact ⟨hpresent, hoccupied, hown⟩
  obtain ⟨hstage', hbound'⟩ :=
    stage_call hstage (unchanged_of_bound hbound unconfirmed_call) hfound hserve
  refine ⟨caller, k r, ?_, hstage', hbound'⟩
  rw [hprocs]
  exact List.getElem?_set_self (List.getElem?_eq_some_iff.mp hi).1

theorem procs_other (hi : s.procs[i]? = some (caller, p)) (hother : ∀ c, e ≠ .call i c)
    (hs : s.next runMode e = some s') : s'.procs[i]? = some (caller, p) := by
  have hlen := (List.getElem?_eq_some_iff.mp hi).1
  have harrive : ∀ q, (s.procs ++ [q])[i]? = some (caller, p) := by
    intro q
    rw [List.getElem?_append_left hlen]
    exact hi
  cases e with
  | apply requestId param mode =>
    cases hs
    exact harrive _
  | confirm requestId param =>
    cases hs
    exact harrive _
  | call j c =>
    obtain ⟨caller', o, k, r, hj, -, hprocs⟩ := call_cases hs
    have hne : j ≠ i := fun heq => hother c (heq ▸ rfl)
    rw [hprocs, List.getElem?_set_ne hne]
    exact hi
  | recordTask =>
    simp only [Service.next] at hs
    split at hs <;> cases hs
    exact hi
  | _ =>
    cases hs
    exact hi

theorem course_other {w : Watched} (h : Course i param w) (hrespects : w.1.Respects i param e)
    (hother : ∀ c, e ≠ .call i c) (hs : w.1.next runMode e = some s') :
    Course i param (s', w.2) := by
  obtain ⟨caller, p, hi, hstage, hbound⟩ := h
  refine ⟨caller, p, procs_other hi hother hs, ?_, hbound⟩
  cases hstage with
  | count => exact .count
  | check => exact .check
  | update times howned =>
    rw [confirmUpdate_succ] at hi
    exact .update times (owned_of_rows howned
      (rows_step howned (pending_of_call hi) hrespects hother hs))
  | ended reply => exact .ended reply

theorem isCall_iff : e.isCall i = true ↔ ∃ c, e = .call i c := by
  cases e <;> simp [Event.isCall]

theorem course_step {w w' : Watched} (h : Course i param w) (hrespects : w.1.Respects i param e)
    (hs : watch runMode i w e = some w') : Course i param w' := by
  obtain ⟨s', hnext, rfl⟩ := Option.map_eq_some_iff.mp hs
  cases hown : e.isCall i with
  | true =>
    rw [if_pos rfl]
    obtain ⟨c, rfl⟩ := isCall_iff.mp hown
    exact course_own h hrespects hnext
  | false =>
    rw [if_neg Bool.false_ne_true]
    refine course_other h hrespects ?_ hnext
    rintro c rfl
    exact absurd (isCall_iff.mpr ⟨c, rfl⟩) (Bool.eq_false_iff.mp hown)

/-- In a run that respects it, a confirmation turns its hosts into Used only where all of them are
Prepoccupied under its request, and all of them at once; or it changes nothing. -/
theorem confirm_bound_to_request {own : String} {s : Service} {w : Watched}
    (h : Run (Guarded (fun w => w.1.Respects s.procs.length param)
      (Steps (watch runMode s.procs.length))) (s.arrive own (confirmApply param), []) es w) :
    ∃ caller p, w.1.procs[s.procs.length]? = some (caller, p) ∧ param.Bound w.2 p := by
  obtain ⟨caller, p, hi, -, hbound⟩ := h.invariant (Course s.procs.length param) course_initial
    fun hcourse hs => course_step hcourse hs.1 hs.2
  exact ⟨caller, p, hi, hbound⟩

end Stages

section Runs

instance (param : ConfirmApplyParam) (calls : List (Table × Table)) :
    Decidable (param.Bound calls (.done .confirmed)) :=
  inferInstanceAs (Decidable ((∀ c ∈ calls.dropLast, c.2 = c.1) ∧
    ∃ c ∈ calls.getLast?, param.Owned c.1 ∧ c.2 = markUsed param.hostIds c.1))

/-- The confirmation has succeeded, and its calls pass a test. -/
def Watched.confirmedWith (i : ℕ) (q : List (Table × Table) → Bool) (w : Watched) : Bool :=
  match w.1.procs[i]? with
  | some (_, .done .confirmed) => q w.2
  | _ => false

theorem confirmedWith_iff {q : List (Table × Table) → Bool} : w.confirmedWith i q = true ↔
    (∃ caller, w.1.procs[i]? = some (caller, .done .confirmed)) ∧ q w.2 = true := by
  unfold Watched.confirmedWith
  split
  · rename_i caller hi
    exact ⟨fun hq => ⟨⟨caller, hi⟩, hq⟩, And.right⟩
  · rename_i hnone
    refine ⟨fun h => absurd h Bool.false_ne_true, ?_⟩
    rintro ⟨⟨caller, hi⟩, -⟩
    exact absurd hi (hnone caller)

/-- The party takes all steps itself, and its hosts are its request's. -/
def Watched.Alone (i : ℕ) (param : ConfirmApplyParam) (w : Watched) (e : Event) : Prop :=
  e.isCall i = true ∧ param.Owned w.1.store.table

instance (i : ℕ) (param : ConfirmApplyParam) (w : Watched) (e : Event) :
    Decidable (w.Alone i param e) :=
  inferInstanceAs (Decidable (e.isCall i = true ∧ param.Owned w.1.store.table))

theorem Watched.Alone.respects (h : w.Alone i param e) : w.1.Respects i param e := by
  obtain ⟨c, rfl⟩ := isCall_iff.mp h.1
  simp only [Service.Respects, if_true]
  exact fun _ _ _ => ⟨h.2.present, h.2.own⟩

/-- Requests "a" and "b" hold a host each, as the log tells. -/
def twoHeld : List Event :=
  (.apply "a" oneHost .prepoccupied :: calls 0 8) ++ .recordTask ::
    (.apply "b" oneHost .prepoccupied :: calls 1 8) ++ [.recordTask]

def confirmation (requestId : String) (x : ℤ) : ConfirmApplyParam := ⟨requestId, [x], List.cons_ne_nil _ _⟩

/-- A confirmation for the request "a" turns the host of "b" into Used: one host is listed, and one is
logged. -/
theorem confirm_takes_from_another : ∃ s w,
    Run (Steps (Service.next "dev")) (.initial [host 1 "z", host 2 "z"]) twoHeld s ∧
    Run (Steps (watch "dev" s.procs.length))
      (s.arrive "c" (confirmApply (confirmation "a" 2)), []) (calls 2 3) w ∧
    (∃ caller, w.1.procs[s.procs.length]? = some (caller, .done .confirmed)) ∧
    ¬ (confirmation "a" 2).Bound w.2 (.done .confirmed) := by
  obtain ⟨s, hs, h⟩ := exists_run_of_exec (Service.next "dev") (.initial [host 1 "z", host 2 "z"]) twoHeld
    (fun s => (exec (watch "dev" s.procs.length)
      (s.arrive "c" (confirmApply (confirmation "a" 2)), []) (calls 2 3)).any
        (Watched.confirmedWith s.procs.length fun calls =>
          ¬ (confirmation "a" 2).Bound calls (.done .confirmed))) (by decide +kernel)
  obtain ⟨w, hw, h⟩ := exists_run_of_exec _ _ _ _ h
  obtain ⟨hconfirmed, hbound⟩ := confirmedWith_iff.mp h
  exact ⟨s, w, hs, hw, hconfirmed, of_decide_eq_true hbound⟩

/-- Its own host is confirmed. -/
theorem confirm_bound_to_request_own : ∃ s w,
    Run (Steps (Service.next "dev")) (.initial [host 1 "z", host 2 "z"]) twoHeld s ∧
    Run (Guarded (fun w => w.1.Respects s.procs.length (confirmation "a" 1))
      (Steps (watch "dev" s.procs.length)))
        (s.arrive "c" (confirmApply (confirmation "a" 1)), []) (calls 2 3) w ∧
    ∃ caller, w.1.procs[s.procs.length]? = some (caller, .done .confirmed) ∧
      (confirmation "a" 1).Bound w.2 (.done .confirmed) := by
  obtain ⟨s, hs, h⟩ := exists_run_of_exec (Service.next "dev") (.initial [host 1 "z", host 2 "z"]) twoHeld
    (fun s => (exec (fun w e => if Watched.Alone s.procs.length (confirmation "a" 1) w e then
      watch "dev" s.procs.length w e else none)
      (s.arrive "c" (confirmApply (confirmation "a" 1)), []) (calls 2 3)).any
        (Watched.confirmedWith s.procs.length fun _ => true)) (by decide +kernel)
  obtain ⟨w, hw, h⟩ := exists_guarded_run _ _ _ _ _ h
  obtain ⟨⟨caller, hi⟩, -⟩ := confirmedWith_iff.mp h
  have hw' := hw.mono fun {w e w'} hstep => And.intro hstep.1.respects hstep.2
  obtain ⟨caller', p, hi', hbound⟩ := confirm_bound_to_request hw'
  obtain ⟨rfl, rfl⟩ := Prod.mk.inj (Option.some.inj (hi.symm.trans hi'))
  exact ⟨s, w, hs, hw', caller, hi, hbound⟩

end Runs

end Resource
