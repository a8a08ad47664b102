import BluekingDbm.Ticket.Execution

/-! The gate that is meant to keep a flow from being started twice. It is opened again by saves of the
context column, and it holds as long as these come when nobody has passed it. -/
namespace Ticket

open Program Transition

variable {s t : Office} {e : Event} {es : List Event} {db db' : Database} {w : ℕ} {o : Op} {r : Res o}
  {g : Ghost} {id : ℕ} {sound : Flow → Prop}

/-- The flow was started and has not recorded an error since. -/
def isOpen : List Trace → ℕ → Bool
  | [], _ => false
  | .started id' _ :: trace, id => decide (id' = id) || isOpen trace id
  | .failed id' :: trace, id => decide (id' ≠ id) && isOpen trace id

/-- A body is started again only after its previous start has ended in a recorded error. -/
def StartedOnce : List Trace → Prop
  | [] => True
  | .started id _ :: trace => isOpen trace id = false ∧ StartedOnce trace
  | .failed _ :: trace => StartedOnce trace

instance decidableStartedOnce : ∀ trace, Decidable (StartedOnce trace)
  | [] => .isTrue trivial
  | .started id _ :: trace =>
    have := decidableStartedOnce trace
    inferInstanceAs (Decidable (isOpen trace id = false ∧ StartedOnce trace))
  | .failed _ :: trace => decidableStartedOnce trace

/-- Somebody has passed the gate of the flow and is about to start it, or it was started. -/
def Busy (db : Database) (id : ℕ) : Prop := (∃ e ∈ db.door, e.2 = id) ∨ isOpen db.trace id = true

instance (db : Database) (id : ℕ) : Decidable (Busy db id) := inferInstanceAs (Decidable (_ ∨ _))

/-- A save does not open the gate of a flow that is being started or was started. -/
def KeepsShut : Op → Database → Prop
  | .save _ _ flow updateFields, db =>
    .context ∈ updateFields → flow.context.ack = false → ¬ Busy db flow.id
  | _, _ => True

instance (o : Op) (db : Database) : Decidable (KeepsShut o db) := by
  cases o with
  | save origin held flow updateFields =>
    exact inferInstanceAs (Decidable (_ → _ → ¬ Busy db flow.id))
  | _ => exact .isTrue trivial

/-- A flow that is being started or was started has its gate shut, and one worker at most is about to
start it. -/
structure Gated (db : Database) : Prop where
  single : ∀ i j id, (i, id) ∈ db.door → (j, id) ∈ db.door → i = j
  unopened : ∀ i id, (i, id) ∈ db.door → isOpen db.trace id = false
  row : ∀ id, Busy db id → ∃ row ∈ db.flows, row.id = id
  acked : ∀ id, Busy db id → ∀ row ∈ db.flows, row.id = id → row.context.ack = true
  once : StartedOnce db.trace

/-- The worker is at the door of the flow whose gate it has passed. -/
def AtDoor (w : ℕ) (g : Ghost) (db : Database) : Prop := ∀ id, g.gate = some id → (w, id) ∈ db.door

theorem busy_of_door (h : (w, id) ∈ db.door) : Busy db id := .inl ⟨_, h, rfl⟩

/-- An operation that starts nothing and lets nobody in. -/
theorem Gated.of_quieter (hdb : Gated db) (hdoor : ∀ e ∈ db'.door, e ∈ db.door)
    (hopen : ∀ id, isOpen db'.trace id = true → isOpen db.trace id = true)
    (hrow : ∀ row ∈ db.flows, ∃ row' ∈ db'.flows, row'.id = row.id)
    (hacked : ∀ id, Busy db id → ∀ row ∈ db'.flows, row.id = id → row.context.ack = true)
    (honce : StartedOnce db'.trace) : Gated db' := by
  have hbusy : ∀ id, Busy db' id → Busy db id := by
    rintro id (⟨e, he, hid⟩ | h)
    · exact .inl ⟨e, hdoor e he, hid⟩
    · exact .inr (hopen id h)
  refine ⟨?_, ?_, ?_, ?_, honce⟩
  · intro i j id hi hj
    exact hdb.single i j id (hdoor _ hi) (hdoor _ hj)
  · intro i id hi
    by_contra hne
    have := hdb.unopened i id (hdoor _ hi)
    have := hopen id (eq_true_of_ne_false hne)
    simp_all
  · intro id h
    obtain ⟨row, hmem, hid⟩ := hdb.row id (hbusy id h)
    obtain ⟨row', hmem', hid'⟩ := hrow row hmem
    exact ⟨row', hmem', hid'.trans hid⟩
  · intro id h
    exact hacked id (hbusy id h)

/-- Passing the gate: it was open, so nobody else has passed it. -/
theorem Gated.enter {row : Flow} (hdb : Gated db) (hrow : row ∈ db.flows) (hid : row.id = id)
    (hack : row.context.ack = false) :
    Gated { db with
      flows := updateRow db.flows id fun row =>
        { row with context := { row.context with ack := true } }
      door := (w, id) :: db.door } := by
  have hnot : ¬ Busy db id := by
    intro h
    have := hdb.acked id h row hrow hid
    simp_all
  have hbusy : ∀ j, Busy { db with door := (w, id) :: db.door } j → j = id ∨ Busy db j := by
    rintro j (⟨e, he, hj⟩ | h)
    · rcases List.mem_cons.mp he with rfl | he
      · exact .inl hj.symm
      · exact .inr (.inl ⟨e, he, hj⟩)
    · exact .inr (.inr h)
  refine ⟨?_, ?_, ?_, ?_, hdb.once⟩
  · intro i j k hi hj
    rcases List.mem_cons.mp hi with hi' | hi' <;> rcases List.mem_cons.mp hj with hj' | hj'
    · simp_all
    · simp only [Prod.mk.injEq] at hi'
      obtain ⟨rfl, rfl⟩ := hi'
      exact absurd (busy_of_door hj') hnot
    · simp only [Prod.mk.injEq] at hj'
      obtain ⟨rfl, rfl⟩ := hj'
      exact absurd (busy_of_door hi') hnot
    · exact hdb.single i j k hi' hj'
  · intro i k hi
    rcases List.mem_cons.mp hi with hi' | hi'
    · simp only [Prod.mk.injEq] at hi'
      obtain ⟨rfl, rfl⟩ := hi'
      exact eq_false_of_ne_true fun h => hnot (.inr h)
    · exact hdb.unopened i k hi'
  · intro k hk
    rcases hbusy k hk with rfl | hk
    · exact hid ▸ exists_updateRow (fun _ => rfl) hrow
    · obtain ⟨row', hrow', hid'⟩ := hdb.row k hk
      exact hid' ▸ exists_updateRow (fun _ => rfl) hrow'
  · intro k hk row' hrow' hid'
    obtain ⟨old, hold, ⟨-, rfl⟩ | ⟨hne, rfl⟩⟩ := mem_updateRow hrow'
    · rfl
    · rcases hbusy k hk with rfl | hk
      · exact absurd hid' hne
      · exact hdb.acked k hk _ hold hid'

/-- Starting a body, at the door. -/
theorem Gated.begin (hdb : Gated db) (hdoor : (w, id) ∈ db.door) :
    Gated { db with
      door := db.door.filter fun e => decide (e ≠ (w, id))
      trace := .started id db.flows :: db.trace } := by
  have hmem : ∀ e ∈ db.door.filter (fun e => decide (e ≠ (w, id))), e ∈ db.door ∧ e ≠ (w, id) := by
    intro e he
    simpa using List.mem_filter.mp he
  have hbusy : ∀ k, Busy { db with
      door := db.door.filter fun e => decide (e ≠ (w, id))
      trace := .started id db.flows :: db.trace } k → Busy db k := by
    rintro k (⟨e, he, hk⟩ | h)
    · exact .inl ⟨e, (hmem e he).1, hk⟩
    · rcases Bool.or_eq_true_iff.mp h with h | h
      · rw [← of_decide_eq_true h]
        exact busy_of_door hdoor
      · exact .inr h
  refine ⟨?_, ?_, ?_, ?_, hdb.unopened w id hdoor, hdb.once⟩
  · intro i j k hi hj
    exact hdb.single i j k (hmem _ hi).1 (hmem _ hj).1
  · intro i k hi
    obtain ⟨hi, hne⟩ := hmem _ hi
    have hk : id ≠ k := by
      rintro rfl
      obtain rfl := hdb.single i w id hi hdoor
      exact hne rfl
    simpa [isOpen, hk] using hdb.unopened i k hi
  · intro k hk
    exact hdb.row k (hbusy k hk)
  · intro k hk
    exact hdb.acked k (hbusy k hk)

/-- A save that opens no gate that has to be shut. -/
theorem Gated.save {origin : Origin} {held flow : Flow} {updateFields : List Field} (hdb : Gated db)
    (hkeep : KeepsShut (.save origin held flow updateFields) db) :
    Gated { db with
      flows := saveFlow db.flows flow updateFields
      door := if origin = .runError then db.door.filter fun e => decide (e.1 ≠ w) else db.door
      trace := if recordsError flow updateFields then .failed flow.id :: db.trace else db.trace } := by
  refine hdb.of_quieter ?_ ?_ ?_ ?_ ?_
  · intro e he
    dsimp only at he
    split at he
    · exact (List.mem_filter.mp he).1
    · exact he
  · intro id h
    dsimp only at h
    split at h
    · exact (Bool.and_eq_true_iff.mp h).2
    · exact h
  · intro row hrow
    exact exists_updateRow (fun _ => rfl) hrow
  · intro id hid row hrow hrowid
    obtain ⟨old, hold, ⟨hsame, rfl⟩ | ⟨-, rfl⟩⟩ := mem_updateRow hrow
    · have hflow : flow.id = id := hsame.symm.trans hrowid
      subst hflow
      simp only [Flow.store]
      split
      · rename_i hcontext
        by_contra hack
        exact hkeep hcontext (eq_false_of_ne_true hack) hid
      · exact hdb.acked _ hid old hold hsame
    · exact hdb.acked id hid _ hold hrowid
  · dsimp only
    split
    · exact hdb.once
    · exact hdb.once

theorem Gated.create (hdb : Gated db) (done : Bool) :
    Gated { db with flows := db.flows ++ [newFlow db.flows done] } := by
  refine hdb.of_quieter (fun e he => he) (fun id h => h) ?_ ?_ hdb.once
  · intro row hrow
    exact ⟨row, List.mem_append_left _ hrow, rfl⟩
  · intro id hid row hrow hrowid
    rcases List.mem_append.mp hrow with hrow | hrow
    · exact hdb.acked id hid row hrow hrowid
    · obtain rfl := List.mem_singleton.mp hrow
      obtain ⟨old, hold, holdid⟩ := hdb.row id hid
      have := lt_newFlow hold done
      omega

/-- One operation. -/
theorem gated_served (hdb : Gated db) (hkeep : KeepsShut o db) (hP : Permitted sound o g)
    (hg : AtDoor w g db) (h : Served w db o r db') : Gated db' := by
  cases h with
  | entered hrow hid hack => exact hdb.enter hrow hid hack
  | startBody => exact hdb.begin (hg _ hP.1)
  | save => exact hdb.save hkeep
  | createFlow => exact hdb.create _
  | writeTicket =>
    exact hdb.of_quieter (fun e he => he) (fun id h => h) (fun row h => ⟨row, h, rfl⟩) hdb.acked hdb.once
  | _ => exact hdb

/-- The worker itself goes to the door and leaves it. -/
theorem atDoor_own (hg : AtDoor w g db) (h : Served w db o r db') : AtDoor w (g.after o r) db' := by
  intro id hid
  cases h with
  | entered => exact (Option.some.inj hid) ▸ List.mem_cons_self
  | startBody => cases hid
  | save =>
    simp only [Ghost.after, gateAfter] at hid
    split at hid
    · cases hid
    · rename_i hne
      simpa [hne] using hg id hid
  | _ => exact hg id hid

/-- Nobody else sends it away. -/
theorem atDoor_other {j : ℕ} (hj : j ≠ w) (hg : AtDoor j g db) (h : Served w db o r db') :
    AtDoor j g db' := by
  intro id hid
  have hmem := hg id hid
  cases h with
  | entered => exact List.mem_cons_of_mem _ hmem
  | startBody =>
    refine List.mem_filter.mpr ⟨hmem, ?_⟩
    simp [hj]
  | save =>
    dsimp only
    split
    · refine List.mem_filter.mpr ⟨hmem, ?_⟩
      simp [hj]
    · exact hmem
  | _ => exact hmem

/-- The rows are gated, and whoever has passed a gate stands at the door. -/
structure Guarding (s : Office) : Prop where
  gated : Gated s.store
  staffed : s.Staffed (Permitted fun _ => True) (Answered fun _ => True) Anyhow AtDoor

theorem atDoor_of_none {facts : Set Fact} : AtDoor w ⟨none, facts⟩ db := by
  intro id h
  cases h

theorem guarding_fresh (hs : Fresh s) : Guarding s := by
  constructor
  · have hnot : ∀ id, ¬ Busy s.store id := by
      intro id h
      simp [Busy, hs.door, hs.trace, isOpen] at h
    refine ⟨?_, ?_, fun id h => absurd h (hnot id), fun id h => absurd h (hnot id), ?_⟩
    · intro i j id h
      simp [hs.door] at h
    · intro i id h
      simp [hs.door] at h
    · rw [hs.trace]
      trivial
  · intro i p hp
    simp [hs.procs] at hp

theorem guarding_step (hs : Guarding s) (hkeep : s.Meets KeepsShut e) (h : next s e = some t) :
    Guarding t := by
  constructor
  · refine hs.staffed.store_next hs.gated hkeep h ?_
    intro w c o g r hkeep hP hg hserve
    exact gated_served hs.gated hkeep hP hg (served_of_serve hserve)
  · refine hs.staffed.next hkeep h ?_ ?_
    · intro call _
      refine ⟨call.known, behaves_act call, ?_⟩
      cases call <;> exact atDoor_of_none
    · intro w c o g r _ hP hg hserve
      have hserved := served_of_serve hserve
      refine ⟨⟨g.after o r, answered_of_served (by simp) hserved, atDoor_own hg hserved⟩, ?_, ?_⟩
      · intro j g' hj hg'
        exact atDoor_other hj hg' hserved
      · intro p hp j
        exact ⟨⟨none, g.facts⟩, behaves_follow hP hp, atDoor_of_none⟩

/-- A ticket whose only flow is a task in the given state. -/
def taskOffice (status : TicketFlowStatus) (errMsg : Option String) (ack : Bool) : Office where
  store :=
    { flows := [⟨1, .innerFlow, "root", ⟨false, none⟩, status, errMsg, none, none, ⟨ack, none, none⟩⟩]
      ticketStatus := .running
      door := []
      trace := [] }
  procs := []

/-- The second retry loads the flow, the first one starts its body, and then the second one goes on. -/
def overlappingRetries : List Event :=
  [.call (.retry 1), .call (.retry 1)] ++ turns 1 1 (answering [] (saying none (.ok ""))) ++
    turns 0 7 (answering [] (saying none (.ok ""))) ++ turns 1 6 (answering [] (saying none (.ok "")))

/-- Two retries of a failed flow that overlap start it twice: the second one opens the gate behind the
first one. -/
theorem startedTwice_of_overlapping_retries :
    Fresh (taskOffice .failed none true) ∧
      ∃ t, Run (Steps next) (taskOffice .failed none true) overlappingRetries t ∧
        ¬ StartedOnce t.store.trace := by
  obtain ⟨t, hrun, ht⟩ := exists_run_of_exec next (taskOffice .failed none true) overlappingRetries
    (fun t => decide (¬ StartedOnce t.store.trace)) (by decide +kernel)
  exact ⟨⟨rfl, rfl, rfl⟩, t, hrun, of_decide_eq_true ht⟩

/-- In every run whose saves keep the gates shut, no flow is started twice. -/
theorem startedOnce_of_keepsShut (hs : Fresh s)
    (h : Run (Guarded (Crew.Meets KeepsShut) (Steps next)) s es t) : StartedOnce t.store.trace := by
  have hrun : Guarding t := h.invariant Guarding (guarding_fresh hs) (fun hs h => guarding_step hs h.1 h.2)
  exact hrun.gated.once

/-- A flow that is run, fails, and is retried. -/
theorem startedOnce_of_keepsShut_retried :
    ∃ t es, Run (Guarded (Crew.Meets KeepsShut) (Steps next)) (taskOffice .pending none false) es t ∧
      t.store.trace.length = 3 ∧ StartedOnce t.store.trace := by
  obtain ⟨t, hrun, ht⟩ := exists_guarded_run next (Crew.Meets KeepsShut) (taskOffice .pending none false)
    ([.call (.run 1)] ++ turns 0 7 (answering [] (saying none (.ok ""))) ++
      turns 0 2 (answering [] (saying none (.error (.other "down")))) ++
      [.call (.retry 1)] ++ turns 4 7 (answering [] (saying none (.ok ""))))
    (fun t => decide (t.store.trace.length = 3)) (by decide +kernel)
  exact ⟨t, _, hrun, of_decide_eq_true ht, startedOnce_of_keepsShut ⟨rfl, rfl, rfl⟩ hrun⟩

end Ticket
