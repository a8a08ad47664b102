import Mathlib.Data.List.Nodup
import BluekingDbm.Ticket.Order

/-! The ticket's status and those of its flows. Every save of a flow is followed by an update of the ticket,
and once the last one has returned the ticket's status follows from those of the flows, provided that
updates write while what they have seen is still stored. -/
namespace Ticket

open Program Transition

variable {s t : Office} {e : Event} {es : List Event} {db db' : Database} {w : ℕ} {o : Op} {r : Res o}
  {seen : List (Flow × TicketFlowStatus)} {rows : List Flow} {told : Flow → TicketFlowStatus}
  {status target : TicketStatus}

section Meaning

/-- A flow counts with the status that is stored; a flow that is not waited for may count as succeeded
once it was run. -/
def Stands (row : Flow) (told : TicketFlowStatus) : Prop :=
  told = row.status ∨ (row.flowType ∈ notAwaited ∧ row.status ≠ .pending ∧ told = .succeeded)

instance (row : Flow) (told : TicketFlowStatus) : Decidable (Stands row told) :=
  inferInstanceAs (Decidable (_ ∨ _))

/-- The status that a ticket has to have if its flows count as `told`, in whatever order they are
listed. Nothing is asked for while flows are pending and none has come to a halt or is running. -/
def Aggregates (rows : List Flow) (told : Flow → TicketFlowStatus) (status : TicketStatus) : Prop :=
  if ∃ row ∈ rows, told row = .terminated then status = .terminated
  else if ∃ row ∈ rows, told row = .failed then status = .failed
  else if ∃ row ∈ rows, told row = .revoked then status = .revoked
  else if ∃ row ∈ rows, told row = .running then
    ∀ row ∈ rows, told row = .running → status = runningFlowTicketStatus row.flowType
  else if ∀ row ∈ rows, told row ∈ flowFinishedStatus then status = .succeeded
  else True

instance : Decidable (Aggregates rows told status) := by
  unfold Aggregates
  infer_instance

/-- The ticket's status is that of its flows. -/
def Follows (db : Database) : Prop :=
  ∃ told : Flow → TicketFlowStatus, (∀ row ∈ db.flows, Stands row (told row)) ∧
    Aggregates db.flows told db.ticketStatus

/-- What an update has seen is what is stored, flow by flow. -/
def UpToDate (seen : List (Flow × TicketFlowStatus)) (rows : List Flow) : Prop :=
  (seen.map fun e => e.1.id).Perm (rows.map Flow.id) ∧
    ∀ e ∈ seen, ∀ row ∈ rows, row.id = e.1.id → row.flowType = e.1.flowType ∧ Stands row e.2

instance : Decidable (UpToDate seen rows) := inferInstanceAs (Decidable (_ ∧ _))

/-- The flows that are running stand for one status of the ticket. -/
def OneRunning (seen : List (Flow × TicketFlowStatus)) : Prop :=
  ∀ e ∈ seen, ∀ e' ∈ seen, e.2 = .running → e'.2 = .running →
    runningFlowTicketStatus e.1.flowType = runningFlowTicketStatus e'.1.flowType

instance : Decidable (OneRunning seen) := inferInstanceAs (Decidable (∀ e ∈ seen, ∀ e' ∈ seen, _))

/-- An update decides on what is stored at that moment. -/
def Prompt : Op → Database → Prop
  | .writeTicket seen _, db => UpToDate seen db.flows ∧ OneRunning seen
  | .leaveTicket seen, db => UpToDate seen db.flows
  | _, _ => True

instance decidablePrompt : ∀ (o : Op) (db : Database), Decidable (Prompt o db)
  | .writeTicket seen _, db =>
    inferInstanceAs (Decidable (UpToDate seen db.flows ∧ OneRunning seen))
  | .leaveTicket seen, db => inferInstanceAs (Decidable (UpToDate seen db.flows))
  | .listFlows, _ | .nextFlow, _ | .anyStarted, _ | .lastStarted, _ | .firstFlow, _
  | .getFlow _, _ | .checkFlowAck _, _ | .startBody _, _ | .applyAsync _, _ | .save .., _
  | .createFlow _, _ | .ask _, _ => .isTrue trivial

end Meaning

section Deciding

/-- What a row counts as, going by what was seen. -/
def toldBy (seen : List (Flow × TicketFlowStatus)) (row : Flow) : TicketFlowStatus :=
  ((seen.find? fun e => decide (e.1.id = row.id)).map Prod.snd).getD row.status

theorem toldBy_eq (hnodup : (rows.map Flow.id).Nodup) (hseen : UpToDate seen rows)
    {e : Flow × TicketFlowStatus} {row : Flow} (he : e ∈ seen) (hid : e.1.id = row.id) :
    toldBy seen row = e.2 := by
  have hinj := List.inj_on_of_nodup_map (hseen.1.nodup_iff.mpr hnodup)
  cases hfind : seen.find? fun e => decide (e.1.id = row.id) with
  | none => exact absurd hid (by simpa using List.find?_eq_none.mp hfind e he)
  | some e' =>
    have hid' : e'.1.id = row.id := by simpa using List.find?_some hfind
    obtain rfl := hinj (List.mem_of_find?_eq_some hfind) he (hid'.trans hid.symm)
    simp [toldBy, hfind]

theorem exists_seen (hseen : UpToDate seen rows) {row : Flow} (hrow : row ∈ rows) :
    ∃ e ∈ seen, e.1.id = row.id :=
  List.mem_map.mp (hseen.1.symm.subset (List.mem_map_of_mem hrow))

theorem exists_row (hseen : UpToDate seen rows) {e : Flow × TicketFlowStatus} (he : e ∈ seen) :
    ∃ row ∈ rows, row.id = e.1.id :=
  List.mem_map.mp (hseen.1.subset (List.mem_map_of_mem (f := fun e => e.1.id) he))

theorem stands_toldBy (hnodup : (rows.map Flow.id).Nodup) (hseen : UpToDate seen rows) :
    ∀ row ∈ rows, Stands row (toldBy seen row) := by
  intro row hrow
  obtain ⟨e, he, hid⟩ := exists_seen hseen hrow
  rw [toldBy_eq hnodup hseen he hid]
  exact (hseen.2 e he row hrow hid.symm).2

/-- A status was seen if some row counts as it. -/
theorem mem_seen_iff (hnodup : (rows.map Flow.id).Nodup) (hseen : UpToDate seen rows)
    (flowStatus : TicketFlowStatus) :
    flowStatus ∈ seen.map Prod.snd ↔ ∃ row ∈ rows, toldBy seen row = flowStatus := by
  constructor
  · intro h
    obtain ⟨e, he, rfl⟩ := List.mem_map.mp h
    obtain ⟨row, hrow, hid⟩ := exists_row hseen he
    exact ⟨row, hrow, toldBy_eq hnodup hseen he hid.symm⟩
  · rintro ⟨row, hrow, rfl⟩
    obtain ⟨e, he, hid⟩ := exists_seen hseen hrow
    rw [toldBy_eq hnodup hseen he hid]
    exact List.mem_map_of_mem he

/-- Of several flows that are running any one tells. -/
theorem status_of_running (hnodup : (rows.map Flow.id).Nodup) (hseen : UpToDate seen rows)
    (hone : (seen.reverse.find? fun e => decide (e.2 = .running)).map (fun e =>
      runningFlowTicketStatus e.1.flowType) ≠ none → OneRunning seen)
    (h : ∀ target, (seen.reverse.find? fun e => decide (e.2 = .running)).map (fun e =>
      runningFlowTicketStatus e.1.flowType) = some target → status = target)
    {row : Flow} (hrow : row ∈ rows) (hrun : toldBy seen row = .running) :
    status = runningFlowTicketStatus row.flowType := by
  obtain ⟨e, he, hid⟩ := exists_seen hseen hrow
  have heRun : e.2 = .running := (toldBy_eq hnodup hseen he hid).symm.trans hrun
  have htype := (hseen.2 e he row hrow hid.symm).1
  cases hfind : seen.reverse.find? fun e => decide (e.2 = .running) with
  | none =>
    have hnot := List.find?_eq_none.mp hfind e (List.mem_reverse.mpr he)
    exact absurd heRun (by simpa using hnot)
  | some e' =>
    rw [hfind] at h hone
    have he' : e' ∈ seen := List.mem_reverse.mp (List.mem_of_find?_eq_some hfind)
    have he'Run : e'.2 = .running := by simpa using List.find?_some hfind
    rw [htype, h _ rfl]
    exact hone (by simp) e' he' e he he'Run heRun

/-- The status that an update decides on is the one that the flows ask for. -/
theorem aggregates_of_targetStatus (hnodup : (rows.map Flow.id).Nodup) (hseen : UpToDate seen rows)
    (hone : targetStatus seen ≠ none → OneRunning seen)
    (h : ∀ target, targetStatus seen = some target → status = target) :
    Aggregates rows (toldBy seen) status := by
  have hiff := mem_seen_iff hnodup hseen
  rw [targetStatus] at h hone
  simp only [Aggregates, ← hiff]
  split
  · rename_i hmem
    exact h _ (by rw [if_pos hmem])
  rename_i hterm
  rw [if_neg hterm] at h hone
  split
  · rename_i hmem
    exact h _ (by rw [if_pos hmem])
  rename_i hfailed
  rw [if_neg hfailed] at h hone
  split
  · rename_i hmem
    exact h _ (by rw [if_pos hmem])
  rename_i hrevoked
  rw [if_neg hrevoked] at h hone
  split
  · rename_i hmem
    rw [if_pos hmem] at h hone
    intro row hrow hrun
    exact status_of_running hnodup hseen hone h hrow hrun
  rename_i hrunning
  rw [if_neg hrunning] at h
  split
  · rename_i hall
    refine h _ (if_pos ?_)
    intro flowStatus hmem
    obtain ⟨row, hrow, rfl⟩ := (hiff flowStatus).mp hmem
    exact hall row hrow
  · trivial

end Deciding

section Updating

/-- The operations by which an update comes to its end. -/
def Decides : Op → Prop
  | .writeTicket .. => True
  | .leaveTicket _ => True
  | _ => False

theorem owes_updateTicketStatus : Owes Decides updateTicketStatus := by
  refine .inr fun flows => ?_
  show Owes Decides (readStatuses flows >>= _)
  refine Owes.bind _ fun seen => ?_
  split
  · exact .inl trivial
  · exact .inl trivial

/-- What does not decide changes neither the rows nor the ticket, unless an update follows. -/
theorem quiet_of_served (h : Served w db o r db') (hnot : ¬ Decides o) :
    updateTicketStatus ∈ follow o r ∨
      (db'.flows = db.flows ∧ db'.ticketStatus = db.ticketStatus) := by
  cases h with
  | entered => exact .inl (.head _)
  | save => exact .inl (.head _)
  | createFlow => exact .inl (.head _)
  | writeTicket => exact absurd trivial hnot
  | _ => exact .inr ⟨rfl, rfl⟩

theorem map_id_updateRow {flows : List Flow} {id : ℕ} {f : Flow → Flow}
    (hf : ∀ row, (f row).id = row.id) : (updateRow flows id f).map Flow.id = flows.map Flow.id := by
  rw [updateRow, List.map_map]
  refine List.map_congr_left fun row _ => ?_
  show (if row.id = id then f row else row).id = row.id
  split
  · exact hf row
  · rfl

/-- No two rows have one id. -/
theorem nodup_served (hdb : (db.flows.map Flow.id).Nodup) (h : Served w db o r db') :
    (db'.flows.map Flow.id).Nodup := by
  cases h with
  | entered =>
    dsimp only
    rw [map_id_updateRow]
    · exact hdb
    · intro row
      rfl
  | save =>
    dsimp only
    rw [saveFlow, map_id_updateRow]
    · exact hdb
    · intro row
      rfl
  | @createFlow done =>
    dsimp only
    rw [List.map_append]
    refine List.nodup_append.mpr ⟨hdb, List.nodup_singleton _, ?_⟩
    intro id hid id' hid'
    obtain ⟨row, hrow, rfl⟩ := List.mem_map.mp hid
    obtain rfl := List.mem_singleton.mp hid'
    exact Nat.ne_of_lt (lt_newFlow hrow done)
  | _ => exact hdb

/-- Deciding makes the ticket follow. -/
theorem follows_of_decides {g : Ghost} {sound : Flow → Prop} (hdb : (db.flows.map Flow.id).Nodup)
    (hprompt : Prompt o db) (hP : Permitted sound o g) (h : Served w db o r db') (ho : Decides o) :
    Follows db' := by
  cases h with
  | @writeTicket seen target =>
    refine ⟨toldBy seen, stands_toldBy hdb hprompt.1, ?_⟩
    refine aggregates_of_targetStatus hdb hprompt.1 (fun _ => hprompt.2) ?_
    intro target' htarget
    rw [hP] at htarget
    exact Option.some.inj htarget
  | @leaveTicket seen =>
    refine ⟨toldBy seen, stands_toldBy hdb hprompt, ?_⟩
    refine aggregates_of_targetStatus hdb hprompt (fun hne => absurd hP hne) ?_
    intro target htarget
    rw [hP] at htarget
    cases htarget
  | _ => cases ho

end Updating

/-- The ticket follows its flows, or somebody is about to make it follow. -/
structure Updated (s : Office) : Prop where
  nodup : (s.store.flows.map Flow.id).Nodup
  staffed : s.Staffed (Permitted fun _ => True) (Answered fun _ => True) Anyhow fun _ _ _ => True
  follows : Follows s.store ∨ s.Owing Decides

theorem follows_step (hs : Updated s) (hprompt : s.Meets Prompt e) (h : next s e = some t) :
    Follows t.store ∨ t.Owing Decides := by
  rcases Crew.next_cases hprompt h with ⟨call, -, rfl⟩ | ⟨w, c, o, k, r, hstep, hw, hprompt, hserve, hprocs⟩
  · exact hs.follows.imp_right fun howing => howing.start call.act
  · have hserved := served_of_serve hserve
    by_cases ho : Decides o
    · obtain ⟨g, hbehaves, -⟩ := hs.staffed w _ hw
      exact .inl (follows_of_decides hs.nodup hprompt hbehaves.1 hserved ho)
    · rcases hs.follows with hfollows | howing
      · rcases quiet_of_served hserved ho with hstarted | ⟨hflows, hticket⟩
        · refine .inr ⟨updateTicketStatus, ?_, owes_updateTicketStatus⟩
          rw [hprocs]
          exact List.mem_append_right _ hstarted
        · left
          rwa [Follows, hflows, hticket]
      · exact .inr (howing.step hstep hw ho)

theorem updated_step (hs : Updated s) (hprompt : s.Meets Prompt e) (h : next s e = some t) :
    Updated t := by
  refine ⟨?_, ?_, follows_step hs hprompt h⟩
  · refine Crew.store_next (I := fun db => (db.flows.map Flow.id).Nodup) hs.nodup hprompt h ?_
    intro w c o r _ hserve
    exact nodup_served hs.nodup (served_of_serve hserve)
  · refine hs.staffed.next hprompt h (fun call _ => ⟨call.known, behaves_act call, trivial⟩) ?_
    intro w c o g r _ hP _ hserve
    refine ⟨⟨g.after o r, answered_of_served (by simp) (served_of_serve hserve), trivial⟩, ?_, ?_⟩
    · intro j g' _ _
      trivial
    · intro p hp j
      exact ⟨⟨none, g.facts⟩, behaves_follow hP hp, trivial⟩

/-- In every run whose updates write what is still up to date, the ticket's status follows from those of
its flows whenever all calls have returned. -/
theorem follows_of_prompt (hs : Fresh s) (hnodup : (s.store.flows.map Flow.id).Nodup)
    (hfollows : Follows s.store) (h : Run (Guarded (Crew.Meets Prompt) (Steps next)) s es t)
    (hidle : t.Idle) : Follows t.store := by
  have hstart : Updated s := by
    refine ⟨hnodup, ?_, .inl hfollows⟩
    intro i p hp
    simp [hs.procs] at hp
  have hrun : Updated t := h.invariant Updated hstart fun hs h => updated_step hs h.1 h.2
  exact hrun.follows.resolve_right (Crew.not_owing hidle)

def taskRow (flowType : FlowType) (status : TicketFlowStatus) (errMsg : Option String)
    (errCode : Option FlowErrCode) : Flow :=
  ⟨1, flowType, "root", ⟨false, none⟩, status, errMsg, errCode, none, ⟨true, none, none⟩⟩

/-- Runs a task whose result is not waited for to its end, and then the updates that its saves started. -/
def quickAlone : List Event :=
  [.call .runNextFlow] ++ turns 0 12 (answering [] (saying none (.ok ""))) ++
    turns 1 2 (answering [taskRow .quickInnerFlow .running none none] (saying none (.ok ""))) ++
    turns 2 2 (answering [taskRow .quickInnerFlow .running none none] (saying none (.ok "")))

theorem follows_new {flowType : FlowType} : Follows (newOffice [flowType]).store := by
  refine ⟨Flow.status, ?_, ?_⟩
  · intro row _
    exact .inl rfl
  · simp [newOffice, Aggregates, flowFinishedStatus]

/-- The task counts as succeeded, and so does its ticket. -/
theorem follows_of_prompt_quick :
    ∃ t, Run (Guarded (Crew.Meets Prompt) (Steps next)) (newOffice [.quickInnerFlow]) quickAlone t ∧
      t.store.ticketStatus = .succeeded ∧ Follows t.store := by
  obtain ⟨t, hrun, ht⟩ := exists_guarded_run next (Crew.Meets Prompt) (newOffice [.quickInnerFlow]) quickAlone
    (fun t => decide (t.Idle ∧ t.store.ticketStatus = .succeeded)) (by decide +kernel)
  obtain ⟨hidle, hticket⟩ := of_decide_eq_true ht
  exact ⟨t, hrun, hticket, follows_of_prompt ⟨rfl, rfl, rfl⟩ (by decide) follows_new hrun hidle⟩

/-- The ticket's status is the aggregate of what is stored of its flows. -/
def FollowsStored (db : Database) : Prop := Aggregates db.flows Flow.status db.ticketStatus

instance (db : Database) : Decidable (FollowsStored db) :=
  inferInstanceAs (Decidable (Aggregates _ _ _))

/-- A task starts and fails. The update after its start has seen it running, and writes last. -/
def lateUpdate : List Event :=
  [.call .runNextFlow] ++ turns 0 7 (answering [] (saying none (.ok ""))) ++
    turns 2 2 (answering [taskRow .innerFlow .running none none] (saying none (.ok ""))) ++
    turns 0 2 (answering [] (saying none (.error (.other "down")))) ++
    turns 3 3 (answering [taskRow .innerFlow .failed (some "down, traceback: ") (some .generalError)]
      (saying none (.ok ""))) ++
    turns 1 3 (answering [taskRow .innerFlow .failed (some "down, traceback: ") (some .generalError)]
      (saying none (.ok ""))) ++
    turns 2 1 (answering [] (saying none (.ok "")))

/-- All calls have returned, and the ticket does not follow what is stored: it counts a task that is not
waited for as succeeded, as is meant, and it says that a failed task is running, which is not. -/
theorem stored_not_followed :
    (Fresh (newOffice [.quickInnerFlow]) ∧
      ∃ t, Run (Guarded (Crew.Meets Prompt) (Steps next)) (newOffice [.quickInnerFlow]) quickAlone t ∧
        t.Idle ∧ ¬ FollowsStored t.store) ∧
    (Fresh (newOffice [.innerFlow]) ∧
      ∃ t, Run (Steps next) (newOffice [.innerFlow]) lateUpdate t ∧ t.Idle ∧ ¬ FollowsStored t.store) := by
  constructor
  · obtain ⟨t, hrun, ht⟩ := exists_guarded_run next (Crew.Meets Prompt) (newOffice [.quickInnerFlow]) quickAlone
      (fun t => decide (t.Idle ∧ ¬ FollowsStored t.store)) (by decide +kernel)
    exact ⟨⟨rfl, rfl, rfl⟩, t, hrun, of_decide_eq_true ht⟩
  · obtain ⟨t, hrun, ht⟩ := exists_run_of_exec next (newOffice [.innerFlow]) lateUpdate
      (fun t => decide (t.Idle ∧ ¬ FollowsStored t.store)) (by decide +kernel)
    exact ⟨⟨rfl, rfl, rfl⟩, t, hrun, of_decide_eq_true ht⟩

end Ticket
