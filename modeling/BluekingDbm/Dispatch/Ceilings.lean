import BluekingDbm.Dispatch.Scripts

/-! The admitted ceiling, the reserved ceiling and the tick budget hold under every order of the
scripts. -/
namespace Dispatch

open Redis Transition

/-- The queue beside a record of its ticks: the reservations granted since the counter of a tick
came to exist, and the largest budget presented for it. -/
structure TickAudit where
  queue : QueueState
  granted : ℤ → ℕ
  topBudget : ℤ → ℕ

def TickAudit.initial (now : ℚ) : TickAudit := ⟨.initial now, fun _ => 0, fun _ => 0⟩

/-- What the record adds to a step of the queue. -/
def TickAudit.record (a : TickAudit) (e : ScriptEvent) (queue : QueueState) : TickAudit :=
  match e with
  | .reserve maxReserved tickBudget tickId entries =>
    let now := a.queue.now
    let statuses := (reserveJobLua now maxReserved tickBudget tickId entries a.queue.ns).1
    let before := if existsKey a.queue.ns.ticks now tickId then a.granted tickId else 0
    { queue
      granted := Function.update a.granted tickId (before + statuses.count .reserved)
      topBudget := Function.update a.topBudget tickId (max (a.topBudget tickId) tickBudget) }
  | _ => { a with queue }

def TickAudit.next (a : TickAudit) (e : ScriptEvent) : Option TickAudit :=
  (a.queue.next e).map (a.record e)

/-- Every call presents the same two ceilings, and a budget of at least one. -/
def ScriptEvent.UnderLimits (maxAdmitted maxReserved : ℕ) : ScriptEvent → Prop
  | .enqueue m _ _ _ => m = maxAdmitted
  | .reserve r tickBudget _ _ => r = maxReserved ∧ 1 ≤ tickBudget
  | _ => True

/-- The jobs inside the queue, waiting or in a slot. -/
def Namespace.admitted (ns : Namespace) : ℕ := zcard ns.pending + zcard ns.reserved

structure WithinCeilings (maxAdmitted maxReserved : ℕ) (ns : Namespace) : Prop where
  admitted : ns.admitted ≤ maxAdmitted
  reserved : zcard ns.reserved ≤ maxReserved

section Ceilings

variable {now score : ℚ} {maxAdmitted maxReserved tickBudget ttl : ℕ} {ns : Namespace}
  {id taskKey : String} {key : Option String} {jobSnapshot : DispatchJob} {tickId : ℤ}

/-- The loop counts along at least as much as it adds, and stops at the ceiling. -/
structure AdmissionBounds (maxAdmitted : ℕ) (ns : Namespace) (loop : EnqueueLoop) : Prop where
  counted : loop.ns.admitted ≤ loop.admitted
  bounded : loop.admitted ≤ maxAdmitted
  reserved : loop.ns.reserved = ns.reserved

theorem admissionBounds {checkDedupe : Bool} {entries : List EnqueueEntry}
    (h : ns.admitted ≤ maxAdmitted) :
    AdmissionBounds maxAdmitted ns (enqueueLoop now maxAdmitted checkDedupe entries ns) := by
  refine enqueueLoop_induction ⟨le_refl _, h, rfl⟩ (fun _ _ _ hl => ?_) ?_
  · exact ⟨hl.counted, hl.bounded, hl.reserved⟩
  · intro loop claimed entry _ hc _ _ hm hl
    obtain ⟨hclaimed, -⟩ := claimDedupe_frame hc
    have hcard : zcard (zadd loop.ns.pending entry.score entry.jobId) ≤ zcard loop.ns.pending + 1 :=
      zcard_zadd_le
    have hcounted := hl.counted
    rw [hclaimed]
    refine ⟨?_, hm, hl.reserved⟩
    simp only [EnqueueLoop.accept, Namespace.enter, Namespace.admitted] at *
    omega

theorem within_enqueue {checkDedupe : Bool} {entries : List EnqueueEntry}
    (h : WithinCeilings maxAdmitted maxReserved ns) :
    WithinCeilings maxAdmitted maxReserved
      (enqueueJobsLua now maxAdmitted checkDedupe taskKey entries ns).2 := by
  have hb : AdmissionBounds maxAdmitted ns (enqueueLoop now maxAdmitted checkDedupe entries ns) :=
    admissionBounds h.admitted
  have hadm := hb.counted.trans hb.bounded
  constructor
  · simpa [Namespace.admitted] using hadm
  · rw [enqueueJobsLua_reserved, hb.reserved]
    exact h.reserved

/-- A promotion moves a member: the total does not grow. -/
theorem admitted_promote {entry : ReserveEntry} (h : entry.jobId ∈ ns.pending) :
    (ns.promote now entry).admitted ≤ ns.admitted ∧
      zcard (ns.promote now entry).reserved ≤ zcard ns.reserved + 1 := by
  have hp := zcard_zrem_of_mem h
  have hr : zcard (zadd ns.reserved now entry.jobId) ≤ zcard ns.reserved + 1 := zcard_zadd_le
  rw [Namespace.admitted, Namespace.admitted, promote_pending, promote_reserved]
  omega

/-- The loop of a reservation: what it counts bounds the slots in use and the budget spent. -/
structure ReservationBounds (maxAdmitted maxReserved tickBudget used : ℕ)
    (ticks : Keyspace ℤ ℕ) (loop : ReserveLoop) : Prop where
  admitted : loop.ns.admitted ≤ maxAdmitted
  counted : zcard loop.ns.reserved ≤ loop.reservedCount
  bounded : loop.reservedCount ≤ maxReserved
  used : loop.used = used + loop.newlyReserved
  budget : 0 < loop.newlyReserved → loop.used ≤ tickBudget
  replies : loop.statuses.count .reserved = loop.newlyReserved
  ticks : loop.ns.ticks = ticks

theorem reservationBounds {entries : List ReserveEntry}
    (h : WithinCeilings maxAdmitted maxReserved ns) :
    ReservationBounds maxAdmitted maxReserved tickBudget (ns.tickUsed now tickId) ns.ticks
      (reserveLoop now maxReserved tickBudget tickId entries ns) := by
  refine reserveLoop_induction ?_ (fun loop status hs hl => ?_) fun loop entry _ hp hr ht hl => ?_
  · exact ⟨h.admitted, le_refl _, h.reserved, rfl, by simp, rfl, rfl⟩
  · refine ⟨hl.admitted, hl.counted, hl.bounded, hl.used, hl.budget, ?_, hl.ticks⟩
    simpa [ReserveLoop.finish, List.count_append, hs] using hl.replies
  · obtain ⟨hadm, hcard⟩ := @admitted_promote now loop.ns entry hp
    have hused := hl.used
    have hreplies := hl.replies
    refine ⟨hadm.trans hl.admitted, hcard.trans (Nat.succ_le_succ hl.counted), hr, ?_, ?_, ?_, ?_⟩
    · simp only [ReserveLoop.promote]; omega
    · intro _; exact ht
    · simp [ReserveLoop.promote, List.count_append, hreplies]
    · simp only [ReserveLoop.promote, promote_ticks, hl.ticks]

theorem within_reserve {entries : List ReserveEntry}
    (h : WithinCeilings maxAdmitted maxReserved ns) :
    WithinCeilings maxAdmitted maxReserved
      (reserveJobLua now maxReserved tickBudget tickId entries ns).2 := by
  have hb : ReservationBounds maxAdmitted maxReserved tickBudget (ns.tickUsed now tickId) ns.ticks
      (reserveLoop now maxReserved tickBudget tickId entries ns) := reservationBounds h
  have hadm := hb.admitted
  constructor
  · simpa [Namespace.admitted] using hadm
  · rw [reserveJobLua_reserved]
    exact hb.counted.trans hb.bounded

theorem within_finalize (h : WithinCeilings maxAdmitted maxReserved ns) :
    WithinCeilings maxAdmitted maxReserved (finalizeJobLua id key taskKey ns).2 := by
  have hle : zcard (zrem ns.reserved id) ≤ zcard ns.reserved := zcard_zrem_le
  have hadm := h.admitted
  have hres := h.reserved
  constructor <;> simp only [Namespace.admitted, finalizeJobLua_pending, finalizeJobLua_reserved] at *
  · omega
  · omega

theorem within_purge (h : WithinCeilings maxAdmitted maxReserved ns) :
    WithinCeilings maxAdmitted maxReserved (purgeJobLua id taskKey ns).2 := by
  have hle : zcard (zrem ns.reserved id) ≤ zcard ns.reserved := zcard_zrem_le
  have hlp : zcard (zrem ns.pending id) ≤ zcard ns.pending := zcard_zrem_le
  have hadm := h.admitted
  have hres := h.reserved
  constructor <;> simp only [Namespace.admitted, purgeJobLua_pending, purgeJobLua_reserved] at *
  · omega
  · omega

/-- A requeue gives up its slot before it waits again. -/
theorem within_requeue (h : WithinCeilings maxAdmitted maxReserved ns) :
    WithinCeilings maxAdmitted maxReserved
      (requeueJobLua now id jobSnapshot ttl score taskKey ns).2 := by
  by_cases hid : id ∈ ns.reserved
  · have hrem := zcard_zrem_of_mem hid
    have hadd : zcard (zadd ns.pending score id) ≤ zcard ns.pending + 1 := zcard_zadd_le
    have hadm := h.admitted
    have hres := h.reserved
    rw [requeueJobLua_of_mem hid]
    constructor <;> simp only [Namespace.admitted, moveCount_pending, moveCount_reserved] at *
    · omega
    · omega
  · rw [requeueJobLua_of_not_mem hid]
    exact h

end Ceilings

variable {maxAdmitted maxReserved : ℕ} {a a' : TickAudit} {e : ScriptEvent} {es : List ScriptEvent}
  {s s' : QueueState}

theorem within_step (h : WithinCeilings maxAdmitted maxReserved s.ns)
    (he : e.UnderLimits maxAdmitted maxReserved) (hs : s.next e = some s') :
    WithinCeilings maxAdmitted maxReserved s'.ns := by
  cases e with
  | enqueue =>
    obtain rfl := he
    cases hs
    exact within_enqueue h
  | reserve =>
    obtain ⟨rfl, -⟩ := he
    cases hs
    exact within_reserve h
  | finalize =>
    cases hs
    exact within_finalize h
  | requeue =>
    cases hs
    exact within_requeue h
  | purge =>
    cases hs
    exact within_purge h
  | cleanup =>
    cases hs
    exact ⟨by simpa [Namespace.admitted] using h.admitted, by simpa using h.reserved⟩
  | gate =>
    cases hs
    exact ⟨h.admitted, h.reserved⟩
  | elapse =>
    simp only [QueueState.next] at hs
    split at hs
    · cases hs
      exact h
    · cases hs

/-- A living counter holds what was granted under its tick, and no more than a pump asked for. -/
structure TickAudit.Sound (a : TickAudit) : Prop where
  counter : ∀ tick used, getKey a.queue.ns.ticks a.queue.now tick = some used → used = a.granted tick
  budget : ∀ tick, a.granted tick ≤ a.topBudget tick

theorem sound_initial {now : ℚ} : (TickAudit.initial now).Sound where
  counter := fun _ _ hu => by cases hu
  budget := fun _ => Nat.le_refl 0

section Ticks

variable {now score : ℚ} {ns : Namespace} {id taskKey : String} {jobSnapshot : DispatchJob}
  {ttl tickBudget : ℕ} {tickId : ℤ}

theorem enqueueLoop_ticks {checkDedupe : Bool} {entries : List EnqueueEntry} :
    (enqueueLoop now maxAdmitted checkDedupe entries ns).ns.ticks = ns.ticks := by
  refine enqueueLoop_induction (P := fun loop => loop.ns.ticks = ns.ticks) rfl
    (fun _ _ _ h => h) ?_
  intro loop claimed entry _ hc _ _ _ h
  rw [(claimDedupe_frame hc).1]
  exact h

theorem requeueJobLua_ticks :
    (requeueJobLua now id jobSnapshot ttl score taskKey ns).2.ticks = ns.ticks := by
  by_cases hid : id ∈ ns.reserved
  · rw [requeueJobLua_of_mem hid]
    rfl
  · rw [requeueJobLua_of_not_mem hid]

/-- A step that neither grants nor revives a counter keeps the record sound. -/
theorem TickAudit.Sound.keep (h : a.Sound)
    (hticks : ∀ tick used, getKey s'.ns.ticks s'.now tick = some used →
      getKey a.queue.ns.ticks a.queue.now tick = some used) :
    TickAudit.Sound { a with queue := s' } :=
  ⟨fun tick used hu => h.counter tick used (hticks tick used hu), h.budget⟩

/-- Under the invariant the script starts from exactly what was granted while the counter lived. -/
theorem TickAudit.Sound.tickUsed (h : a.Sound) :
    a.queue.ns.tickUsed a.queue.now tickId =
      if existsKey a.queue.ns.ticks a.queue.now tickId then a.granted tickId else 0 := by
  cases hu : getKey a.queue.ns.ticks a.queue.now tickId with
  | none => simp [Namespace.tickUsed, existsKey, hu]
  | some used => simp [Namespace.tickUsed, existsKey, hu, h.counter tickId used hu]

theorem sound_reserve {entries : List ReserveEntry} (h : a.Sound)
    (hw : WithinCeilings maxAdmitted maxReserved a.queue.ns)
    (hs : a.next (.reserve maxReserved tickBudget tickId entries) = some a') : a'.Sound := by
  have hb : ReservationBounds maxAdmitted maxReserved tickBudget
      (a.queue.ns.tickUsed a.queue.now tickId) a.queue.ns.ticks
      (reserveLoop a.queue.now maxReserved tickBudget tickId entries a.queue.ns) :=
    reservationBounds hw
  have hused := hb.used
  have hbudget := hb.budget
  have htop := h.budget tickId
  rw [h.tickUsed] at hused
  cases hs
  simp only [TickAudit.record, reserveJobLua, hb.replies]
  generalize reserveLoop a.queue.now maxReserved tickBudget tickId entries a.queue.ns = loop at *
  refine ⟨fun tick used hu => ?_, fun tick => ?_⟩
  · by_cases ht : tick = tickId
    · subst ht
      simp only [Function.update_self]
      split at hu
      · rw [getKey_setEx_self (by simp [tickCounterTtlSeconds])] at hu
        cases hu
        exact hused
      · simp only [hb.ticks] at hu
        have hlive : existsKey a.queue.ns.ticks a.queue.now tick = true := by simp [existsKey, hu]
        have hc := h.counter tick used hu
        simp only [hlive, if_true]
        omega
    · simp only [Function.update_of_ne ht]
      refine h.counter tick used ?_
      split at hu
      · rw [getKey_setEx_ne ht, hb.ticks] at hu
        exact hu
      · rw [hb.ticks] at hu
        exact hu
  · by_cases ht : tick = tickId
    · subst ht
      simp only [Function.update_self]
      by_cases hn : 0 < loop.newlyReserved
      · have := hbudget hn
        omega
      · split <;> omega
    · simp only [Function.update_of_ne ht]
      exact h.budget tick

/-- Every step keeps the record of the ticks sound. -/
theorem sound_step (h : a.Sound) (hw : WithinCeilings maxAdmitted maxReserved a.queue.ns)
    (he : e.UnderLimits maxAdmitted maxReserved) (hs : a.next e = some a') : a'.Sound := by
  cases e with
  | enqueue =>
    cases hs
    exact h.keep fun _ _ hu => by rwa [enqueueJobsLua_ticks, enqueueLoop_ticks] at hu
  | reserve =>
    obtain ⟨rfl, -⟩ := he
    exact sound_reserve h hw hs
  | finalize =>
    cases hs
    exact h.keep fun _ _ hu => by rwa [finalizeJobLua_ticks] at hu
  | requeue =>
    cases hs
    exact h.keep fun _ _ hu => by rwa [requeueJobLua_ticks] at hu
  | purge =>
    cases hs
    exact h.keep fun _ _ hu => by rwa [purgeJobLua_ticks] at hu
  | cleanup =>
    cases hs
    exact h.keep fun _ _ hu => by rwa [cleanup_ticks] at hu
  | gate =>
    cases hs
    exact h.keep fun _ _ hu => hu
  | elapse seconds =>
    simp only [TickAudit.next, QueueState.next] at hs
    split at hs
    · rename_i hpos
      cases hs
      exact h.keep fun _ _ hu => getKey_of_later hu (by linarith)
    · cases hs

end Ticks

/-- Whatever the order of the calls and however many pumps make them: no more jobs are inside the
queue than admitted at most, no more slots are in use than there are, and no tick whose counter
lives has been granted more than the largest budget presented for it. -/
theorem ceilings_hold {now : ℚ}
    (h : Run (Guarded (fun _ e => e.UnderLimits maxAdmitted maxReserved) (Steps TickAudit.next))
      (.initial now) es a) :
    zcard a.queue.ns.pending + zcard a.queue.ns.reserved ≤ maxAdmitted ∧
      zcard a.queue.ns.reserved ≤ maxReserved ∧
      ∀ tick, existsKey a.queue.ns.ticks a.queue.now tick = true →
        a.granted tick ≤ a.topBudget tick := by
  have hi : WithinCeilings maxAdmitted maxReserved a.queue.ns ∧ a.Sound := by
    refine h.invariant (fun a => WithinCeilings maxAdmitted maxReserved a.queue.ns ∧ a.Sound)
      ⟨⟨Nat.zero_le _, Nat.zero_le _⟩, sound_initial⟩ ?_
    intro a e a' ⟨hw, hsound⟩ ⟨he, hs⟩
    obtain ⟨queue, hq, ha⟩ := Option.map_eq_some_iff.mp hs
    have hqueue : a'.queue = queue := by
      subst ha
      cases e <;> rfl
    exact ⟨hqueue ▸ within_step hw he hq, sound_step hsound hw he hs⟩
  exact ⟨hi.1.admitted, hi.1.reserved, fun tick _ => hi.2.budget tick⟩

theorem ceilings_hold_after_reserve :
    ∃ a, exec TickAudit.next (.initial 0) [.enqueue 3 false "portrait" [portraitEntry],
        .reserve 1 2 10 [portraitSlot, portraitSlot]] = some a ∧
      zcard a.queue.ns.reserved = 1 ∧ a.granted 10 = 1 ∧
      zcard a.queue.ns.pending + zcard a.queue.ns.reserved ≤ 3 ∧
      zcard a.queue.ns.reserved ≤ 1 ∧
      ∀ tick, existsKey a.queue.ns.ticks a.queue.now tick = true →
        a.granted tick ≤ a.topBudget tick :=
  ⟨_, rfl, by decide +kernel, by decide +kernel, ceilings_hold
    (.snoc (e := ScriptEvent.reserve 1 2 10 [portraitSlot, portraitSlot])
      (.snoc (e := ScriptEvent.enqueue 3 false "portrait" [portraitEntry]) .refl ⟨rfl, rfl⟩)
      ⟨⟨rfl, by decide⟩, rfl⟩)⟩

end Dispatch
