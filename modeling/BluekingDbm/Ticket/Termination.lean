import BluekingDbm.Ticket.Order

/-! Terminated flows. In orderly runs a flow that was terminated stays so, and no later flow is started
unless its result is not waited for. -/
namespace Ticket

open Program Transition

variable {s t u : Office} {e : Event} {es fs : List Event} {db db' : Database} {id : ℕ} {row : Flow}

/-- The flow is there, and it is terminated. -/
def Terminated (id : ℕ) (db : Database) : Prop :=
  (∃ row ∈ db.flows, row.id = id) ∧ ∀ row ∈ db.flows, row.id = id → row.status = .terminated

theorem terminated_of_row (hdb : Ordered db) (hrow : row ∈ db.flows) (h : row.status = .terminated) :
    Terminated row.id db := by
  refine ⟨⟨row, hrow, rfl⟩, ?_⟩
  intro row' hrow' hid
  rwa [eq_of_id hdb hrow' hrow hid]

theorem terminated_mono (h : Terminated id db) (hgrows : Grows db db') : Terminated id db' := by
  obtain ⟨⟨row₀, hrow₀, rfl⟩, hall⟩ := h
  refine ⟨hgrows.kept row₀ hrow₀, ?_⟩
  intro row' hrow' hid'
  rcases hgrows.rows row' hrow' with ⟨row, hrow, hadv⟩ | hnew
  · exact hadv.terminated (hall row hrow (hadv.id.symm.trans hid'))
  · have := hnew row₀ hrow₀
    omega

theorem grows_step (hs : Queueing s) (horderly : Orderly s e) (h : next s e = some t) :
    Grows s.store t.store := by
  refine hs.staffed.store_next (grows_of_flows rfl) horderly.2 h ?_
  intro w c o g r hcareful hP hg hserve
  exact (ordered_served hs.ordered hcareful hP hg (served_of_serve hserve)).2

theorem terminated_of_run (hs : Queueing s) (h : Run (Guarded Orderly (Steps next)) s es t)
    (hterm : Terminated id s.store) : Terminated id t.store := by
  have hboth : Queueing t ∧ Terminated id t.store := by
    refine h.invariant (fun s => Queueing s ∧ Terminated id s.store) ⟨hs, hterm⟩ ?_
    rintro s e t ⟨hs, hterm⟩ ⟨horderly, hnext⟩
    exact ⟨queueing_step hs horderly hnext, terminated_mono hterm (grows_step hs horderly hnext)⟩
  exact hboth.2

/-- What a start may leave behind it that was terminated. -/
def StartsPast : Trace → Prop
  | .started id rows => ∀ row ∈ rows, row.id < id → row.status = .terminated → row.flowType ∈ notAwaited
  | .failed _ => True

theorem startsPast_of_inOrder {id : ℕ} {rows : List Flow} (h : InOrder rows id) :
    StartsPast (.started id rows) := by
  intro row hrow hlt hterm
  rcases h row hrow hlt with hfin | hnot
  · simp [hterm, flowFinishedStatus] at hfin
  · exact hnot.1

/-- In every orderly run of a ticket, a flow that is terminated at some moment is terminated from then
on, and flows after it are started only if its result is not waited for. -/
theorem terminated_final (hs : Created s) (h : Run (Guarded Orderly (Steps next)) s es t)
    (h' : Run (Guarded Orderly (Steps next)) t fs u) :
    (∀ row ∈ t.store.flows, row.status = .terminated →
      ∃ row' ∈ u.store.flows, row'.id = row.id ∧ row'.status = .terminated) ∧
    (∀ start ∈ u.store.trace, StartsPast start) := by
  have ht := queueing_of_run hs h
  constructor
  · intro row hrow hterm
    obtain ⟨⟨row', hrow', hid⟩, hall⟩ :=
      terminated_of_run ht h' (terminated_of_row ht.ordered hrow hterm)
    exact ⟨row', hrow', hid, hall row' hrow' hid⟩
  · have hu := (queueing_of_run hs (h.append h')).ordered.starts
    intro start hstart
    cases start with
    | started id rows => exact startsPast_of_inOrder (hu id rows hstart)
    | failed id => trivial

/-- A task whose result is ignored is called off in its pipeline; the run of the next flow stores that,
and goes on. -/
def ignoredUntilTerminated : List Event :=
  [.call .runNextFlow] ++ turns 0 12 (answering [] (saying none (.ok ""))) ++
    [.call .runNextFlow] ++ turns 3 6 (answering [] (saying (some .revoked) (.ok "")))

def startOfTheNext : List Event := turns 3 2 (answering [] (saying none (.ok "")))

def hasTerminated (s : Office) : Bool := s.store.flows.any fun row => decide (row.status = .terminated)

/-- The task was terminated before the delivery is started. -/
theorem terminated_final_ignored :
    ∃ t u, Run (Guarded Orderly (Steps next)) (newOffice [.ignoreResultInnerFlow, .delivery])
        ignoredUntilTerminated t ∧
      Run (Guarded Orderly (Steps next)) t startOfTheNext u ∧ hasTerminated t = true ∧
      (∀ row ∈ t.store.flows, row.status = .terminated →
        ∃ row' ∈ u.store.flows, row'.id = row.id ∧ row'.status = .terminated) ∧
      (∀ start ∈ u.store.trace, StartsPast start) := by
  obtain ⟨t, h, ht⟩ := exists_guarded_run next Orderly (newOffice [.ignoreResultInnerFlow, .delivery])
    ignoredUntilTerminated (fun t => hasTerminated t &&
      (exec (fun s e => if Orderly s e then next s e else none) t startOfTheNext).any fun _ => true)
    (by decide +kernel)
  obtain ⟨hterm, ht⟩ := Bool.and_eq_true_iff.mp ht
  obtain ⟨u, h', -⟩ := exists_guarded_run next Orderly t startOfTheNext _ ht
  exact ⟨t, u, h, h', hterm, terminated_final ⟨⟨rfl, rfl, rfl⟩, by decide, by decide⟩ h h'⟩

/-- The start finds no terminated flow before it. -/
def FindsNoneTerminated : Trace → Prop
  | .started id rows => ∀ row ∈ rows, row.id < id → row.status ≠ .terminated
  | .failed _ => True

instance : DecidablePred FindsNoneTerminated
  | .started id rows => inferInstanceAs (Decidable (∀ row ∈ rows, row.id < id → row.status ≠ .terminated))
  | .failed _ => .isTrue trivial

/-- A pause is revoked while it is being run, and then its run goes on to its end. -/
def revokedWhileRun : List Event :=
  [.call .runNextFlow] ++ turns 0 7 (answering [] (saying none (.ok ""))) ++
    [.call (.revoke 1 "" none)] ++ turns 2 2 (answering [] (saying none (.ok "")))

def statuses (s : Office) : List TicketFlowStatus := s.store.flows.map Flow.status

def endOfTheRun : List Event := turns 0 1 (answering [] (saying none (.ok "")))

/-- The delivery is started behind a terminated task whose result is ignored, as is meant; and a run that
was going on when its flow was terminated stores it as running, which is not. -/
theorem terminated_passed_and_overwritten :
    (Created (newOffice [.ignoreResultInnerFlow, .delivery]) ∧
      ∃ t, Run (Guarded Orderly (Steps next)) (newOffice [.ignoreResultInnerFlow, .delivery])
          (ignoredUntilTerminated ++ startOfTheNext) t ∧
        ¬ ∀ start ∈ t.store.trace, FindsNoneTerminated start) ∧
    (Created (newOffice [.pause]) ∧
      ∃ t u, Run (Steps next) (newOffice [.pause]) revokedWhileRun t ∧ Run (Steps next) t endOfTheRun u ∧
        statuses t = [.terminated] ∧ statuses u = [.running]) := by
  constructor
  · obtain ⟨t, hrun, ht⟩ := exists_guarded_run next Orderly (newOffice [.ignoreResultInnerFlow, .delivery])
      (ignoredUntilTerminated ++ startOfTheNext)
      (fun t => decide (¬ ∀ start ∈ t.store.trace, FindsNoneTerminated start)) (by decide +kernel)
    exact ⟨⟨⟨rfl, rfl, rfl⟩, by decide, by decide⟩, t, hrun, of_decide_eq_true ht⟩
  · obtain ⟨t, h, ht⟩ := exists_run_of_exec next (newOffice [.pause]) revokedWhileRun
      (fun t => decide (statuses t = [.terminated]) &&
        (exec next t endOfTheRun).any fun u => decide (statuses u = [.running])) (by decide +kernel)
    obtain ⟨hterm, ht⟩ := Bool.and_eq_true_iff.mp ht
    obtain ⟨u, h', hu⟩ := exists_run_of_exec next t endOfTheRun _ ht
    exact ⟨⟨⟨rfl, rfl, rfl⟩, by decide, by decide⟩, t, u, h, h', of_decide_eq_true hterm,
      of_decide_eq_true hu⟩

end Ticket
