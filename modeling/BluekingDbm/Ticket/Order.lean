import BluekingDbm.Ticket.Saving

/-! The order of the flows. As long as saves are careful, a flow is started only when all flows before it
have been passed. -/
namespace Ticket

open Program Transition

variable {s t : Office} {e : Event} {es : List Event} {db db' : Database} {w : ℕ} {o : Op} {r : Res o}
  {g : Ghost} {id : ℕ} {fact : Fact}

def isDirectRun : Event → Bool
  | .call (.run _) => true
  | _ => false

/-- No flow is run directly; `run_next_flow` and the retries decide what runs. -/
def Orderly (s : Office) (e : Event) : Prop := isDirectRun e = false ∧ s.Meets Careful e

instance (s : Office) (e : Event) : Decidable (Orderly s e) := inferInstanceAs (Decidable (_ ∧ _))

/-- A ticket that was just created. -/
structure Created (s : Office) : Prop extends Fresh s where
  ordered : s.store.flows.Pairwise fun a b => a.id < b.id
  pending : ∀ flow ∈ s.store.flows, flow.status = .pending ∧ flow.hasErrMsg = false

section Learning

/-- The first pending row has no pending row before it. -/
theorem holds_of_nextFlow (hdb : Ordered db) (hg : Knows w g db) {first : Flow}
    (h : db.flows.find? isPending = some first)
    (hfact : fact ∈ learned .nextFlow (some first) g.facts) : fact.Holds db := by
  have hmem := List.mem_of_find?_eq_some h
  have hpending : first.status = .pending := by simpa [isPending] using List.find?_some h
  rcases hfact with (rfl | hfact) | ⟨id, rfl, hreached, hlt⟩
  · refine ⟨⟨first, hmem, rfl⟩, ?_⟩
    intro row hrow hlt
    simpa [isPending] using not_of_lt_find? hdb h hrow hlt
  · exact holds_of_loaded hdb hmem hfact
  · exact absurd hpending ((hg _ hreached).2 first hmem hlt)

theorem holds_of_lastStarted (hdb : Ordered db) (hg : Knows w g db) {last : Flow}
    (h : (db.flows.reverse.find? fun flow => !isPending flow) = some last)
    (hfact : fact ∈ learned .lastStarted (some last) g.facts) : fact.Holds db := by
  have hmem := List.mem_reverse.mp (List.mem_of_find?_eq_some h)
  rcases hfact with hfact | hfact
  · exact holds_of_loaded hdb hmem hfact
  · refine holds_of_current hg ?_ hfact
    intro row hrow hne
    exact le_of_find?_reverse hdb h hrow (by simp [isPending, hne])

/-- A flow that was saved as finished by a getter, or is retried, had begun. -/
theorem holds_of_saved {origin : Origin} {held flow : Flow} {updateFields : List Field}
    (hdb : Ordered db) (hP : Permitted Clean (.save origin held flow updateFields) g)
    (hcareful : Careful (.save origin held flow updateFields) db)
    (hgrows : Grows db db') (hflows : db'.flows = saveFlow db.flows flow updateFields)
    (hfact : fact ∈ saved flow origin) : fact.Holds db' := by
  obtain ⟨hheld, hsaves, -⟩ := hP
  have hclear : ∀ row ∈ db.flows, row.id = flow.id → Begun row → Fact.Holds (.clear flow.id) db' := by
    intro row hrow hid hbegun
    have hbehind := hdb.begun row hrow hbegun
    rw [hid] at hbehind
    exact Fact.Holds.mono ⟨⟨row, hrow, hid⟩, hbehind⟩ hgrows
  have hbegun : .status ∈ updateFields → held.status ∈ [.running, .failed] →
      ∃ row ∈ db.flows, row.id = flow.id ∧ Begun row := by
    intro hfields hlive
    obtain ⟨row, hrow, hid, hstatus⟩ := (hcareful (.inl hfields)).1
    exact ⟨row, hrow, hid.trans hheld, begun_of_live (hstatus ▸ hlive)⟩
  cases origin with
  | getter =>
    obtain ⟨hfields, hbase⟩ := hsaves
    have hlive : held.status ∈ [.running, .failed] := by
      cases htype : isResourceApply held with
      | true => exact ((hcareful (.inl hfields)).2 htype).1
      | false => exact readable_live (hbase htype).1
    obtain ⟨row, hrow, hid, hrowBegun⟩ := hbegun hfields hlive
    obtain ⟨hfin, rfl | rfl⟩ := hfact
    · exact hclear row hrow hid hrowBegun
    · obtain ⟨row', hrow', hid'⟩ := hgrows.kept row hrow
      refine ⟨⟨row', hrow', hid'.trans hid⟩, ?_⟩
      intro stored hstored hstoredId
      obtain ⟨old, -, ⟨-, rfl⟩ | ⟨hne, rfl⟩⟩ := mem_updateRow (hflows ▸ hstored)
      · exact .inl (by rwa [store_status _ _ hfields])
      · exact absurd hstoredId hne
  | flushError =>
    obtain ⟨-, hfields⟩ := hsaves
    obtain ⟨row, hrow, hid, hrowBegun⟩ := hbegun hfields (hcareful (.inl hfields)).2
    obtain rfl := hfact
    exact hclear row hrow hid hrowBegun
  | _ => cases hfact

/-- What an answer tells holds. -/
theorem knows_own (hdb : Ordered db) (hcareful : Careful o db) (hP : Permitted Clean o g)
    (hg : Knows w g db) (h : Served w db o r db') : Knows w (g.after o r) db' := by
  have hgrows := (ordered_served hdb hcareful hP hg h).2
  rintro fact (hfact | hfact)
  · exact (hg fact hfact).mono hgrows
  · cases h with
    | nextFlow =>
      cases hfind : db.flows.find? isPending with
      | none =>
        rw [hfind] at hfact
        cases hfact
      | some first =>
        rw [hfind] at hfact
        exact holds_of_nextFlow hdb hg hfind hfact
    | lastStarted =>
      cases hfind : db.flows.reverse.find? fun flow => !isPending flow with
      | none =>
        rw [hfind] at hfact
        cases hfact
      | some last =>
        rw [hfind] at hfact
        exact holds_of_lastStarted hdb hg hfind hfact
    | firstFlow =>
      cases hhead : db.flows.head? with
      | none =>
        rw [hhead] at hfact
        cases hfact
      | some first =>
        rw [hhead] at hfact
        obtain rfl := hfact
        refine ⟨⟨first, List.mem_of_head? hhead, rfl⟩, ?_⟩
        intro row hrow hlt
        exact absurd (le_of_head? hdb hhead hrow) (Nat.not_le_of_lt hlt)
    | getFlow hmem _ => exact holds_of_loaded hdb hmem hfact
    | save => exact holds_of_saved hdb hP hcareful hgrows rfl hfact
    | _ => cases hfact

end Learning

/-- The rows are in order, and the workers know what holds. -/
structure Queueing (s : Office) : Prop where
  ordered : Ordered s.store
  staffed : s.Staffed (Permitted Clean) (Answered Clean) Anyhow Knows

theorem queueing_created (hs : Created s) : Queueing s := by
  constructor
  · refine ⟨hs.ordered, ?_, ?_, ?_⟩
    · intro row hrow hbegun
      simp [Begun, (hs.pending row hrow).1] at hbegun
    · intro row hrow _
      exact (hs.pending row hrow).2
    · intro id rows hmem
      simp [hs.trace] at hmem
  · intro i p hp
    simp [hs.procs] at hp

theorem queueing_step (hs : Queueing s) (horderly : Orderly s e) (h : next s e = some t) :
    Queueing t := by
  constructor
  · refine hs.staffed.store_next hs.ordered horderly.2 h ?_
    intro w c o g r hcareful hP hg hserve
    exact (ordered_served hs.ordered hcareful hP hg (served_of_serve hserve)).1
  · refine hs.staffed.next horderly.2 h ?_ ?_
    · rintro call rfl
      refine ⟨call.known, behaves_act call, ?_⟩
      cases call with
      | run id => cases horderly.1
      | _ => exact fun fact hfact => hfact.elim
    · intro w c o g r hcareful hP hg hserve
      have hserved := served_of_serve hserve
      have hgrows := (ordered_served hs.ordered hcareful hP hg hserved).2
      refine ⟨⟨g.after o r, answered_of_served hs.ordered.clean hserved,
        knows_own hs.ordered hcareful hP hg hserved⟩, ?_, ?_⟩
      · intro j g' _ hg'
        exact hg'.mono hgrows
      · intro p hp j
        exact ⟨⟨none, g.facts⟩, behaves_follow hP hp, hg.mono hgrows⟩

theorem queueing_of_run (hs : Created s) (h : Run (Guarded Orderly (Steps next)) s es t) : Queueing t :=
  h.invariant Queueing (queueing_created hs) fun hs h => queueing_step hs h.1 h.2

/-- In every orderly run of a ticket, a flow is started only when all flows before it are finished or
need not be waited for. -/
theorem started_inOrder (hs : Created s) (h : Run (Guarded Orderly (Steps next)) s es t) :
    ∀ id rows, .started id rows ∈ t.store.trace → InOrder rows id :=
  (queueing_of_run hs h).ordered.starts

/-- A ticket whose flows are of the given types, and nothing was run yet. -/
def newOffice (flowTypes : List FlowType) : Office where
  store :=
    { flows := flowTypes.mapIdx fun i flowType =>
        ⟨i + 1, flowType, "", ⟨false, none⟩, .pending, none, none, none, ⟨false, none, none⟩⟩
      ticketStatus := .pending
      door := []
      trace := [] }
  procs := []

/-- A task whose result is not waited for, and a delivery: both are run, one after the other. -/
def quickThenDelivery : List Event :=
  [.call .runNextFlow] ++ turns 0 10 (answering [] (saying none (.ok ""))) ++
    [.call .runNextFlow] ++ turns 3 6 (answering [] (saying none (.ok "")))

/-- Two flows were started. -/
theorem started_inOrder_quick :
    ∃ t, Run (Guarded Orderly (Steps next)) (newOffice [.quickInnerFlow, .delivery]) quickThenDelivery t ∧
      t.store.trace.length = 2 ∧ ∀ id rows, .started id rows ∈ t.store.trace → InOrder rows id := by
  obtain ⟨t, hrun, ht⟩ := exists_guarded_run next Orderly (newOffice [.quickInnerFlow, .delivery])
    quickThenDelivery (fun t => decide (t.store.trace.length = 2)) (by decide +kernel)
  exact ⟨t, hrun, of_decide_eq_true ht, started_inOrder ⟨⟨rfl, rfl, rfl⟩, by decide, by decide⟩ hrun⟩

/-- The start finds every flow before it finished. -/
def FindsFinished : Trace → Prop
  | .started id rows => ∀ row ∈ rows, row.id < id → row.status ∈ flowFinishedStatus
  | .failed _ => True

instance : DecidablePred FindsFinished
  | .started id rows =>
    inferInstanceAs (Decidable (∀ row ∈ rows, row.id < id → row.status ∈ flowFinishedStatus))
  | .failed _ => .isTrue trivial

/-- A retry of the first of two deliveries has loaded it while it was running, and saves it when the
second one is about to start. -/
def staleRetry : List Event :=
  [.call .runNextFlow] ++ turns 0 8 (answering [] (saying none (.ok ""))) ++
    [.call (.retry 1)] ++ turns 3 1 (answering [] (saying none (.ok ""))) ++
    [.call .runNextFlow] ++ turns 4 6 (answering [] (saying none (.ok ""))) ++
    turns 3 1 (answering [] (saying none (.ok ""))) ++ turns 4 1 (answering [] (saying none (.ok "")))

/-- The delivery is started while the task before it is running, as is meant if the task is not waited
for; and while the delivery before it is, which is not. -/
theorem starts_behind_unfinished :
    (Created (newOffice [.quickInnerFlow, .delivery]) ∧
      ∃ t, Run (Guarded Orderly (Steps next)) (newOffice [.quickInnerFlow, .delivery]) quickThenDelivery t ∧
        ¬ ∀ start ∈ t.store.trace, FindsFinished start) ∧
    (Created (newOffice [.delivery, .delivery]) ∧
      ∃ t, Run (Steps next) (newOffice [.delivery, .delivery]) staleRetry t ∧
        ¬ ∀ start ∈ t.store.trace, FindsFinished start) := by
  constructor
  · obtain ⟨t, hrun, ht⟩ := exists_guarded_run next Orderly (newOffice [.quickInnerFlow, .delivery])
      quickThenDelivery (fun t => decide (¬ ∀ start ∈ t.store.trace, FindsFinished start))
      (by decide +kernel)
    exact ⟨⟨⟨rfl, rfl, rfl⟩, by decide, by decide⟩, t, hrun, of_decide_eq_true ht⟩
  · obtain ⟨t, hrun, ht⟩ := exists_run_of_exec next (newOffice [.delivery, .delivery]) staleRetry
      (fun t => decide (¬ ∀ start ∈ t.store.trace, FindsFinished start)) (by decide +kernel)
    exact ⟨⟨⟨rfl, rfl, rfl⟩, by decide, by decide⟩, t, hrun, of_decide_eq_true ht⟩

end Ticket
