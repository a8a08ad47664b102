import Mathlib.Tactic.Linarith
import BluekingDbm.Library.Run

/-! The pump controller: a budget from the free slots and an AIMD congestion window, which is kept
in a Redis hash from one tick to the next. -/
namespace Dispatch

open Transition

inductive AimdAction
  | increase
  | decrease
  | hold
  | coldStart
  deriving DecidableEq

structure PumpControlDecision where
  tickId : ℤ
  effectiveBudget : ℤ
  congestionWindow : ℤ
  availableSlots : ℤ
  previousPublished : ℤ := 0
  previousReadyPeeked : ℤ := 0
  previousCongestion : ℤ := 0
  aimdAction : AimdAction := .hold
  reservedCountUnknown : Bool := false
  deriving DecidableEq

/-- The counters of one tick, 0 where a field is missing. -/
structure TickCounts where
  published : ℤ := 0
  readyPeeked : ℤ := 0
  congestion : ℤ := 0
  deriving DecidableEq

/-- 5% of the configured concurrency. -/
def additiveIncreaseStep (maxReserved : ℤ) : ℤ := max 1 (maxReserved / 20)

/-- 10% of the configured concurrency. -/
def coldStartWindow (maxReserved : ℤ) : ℤ := max 1 (maxReserved / 10)

/-- The window a warm decision starts from: 0 falls back to the cold window. -/
def warmStart (coldWindow : ℤ) (state : PumpControlDecision) : ℤ :=
  if state.congestionWindow > 0 then state.congestionWindow else coldWindow

/-- `math.floor(window * 0.5)`, exact for a window below 2^53. -/
def multiplicativeDecrease (window : ℤ) : ℤ := max 1 (window / 2)

/-- `PumpController._warm_decision`. -/
def warmDecision (currentTickId availableSlots maxReserved increaseStep coldWindow : ℤ)
    (state : PumpControlDecision) (previous : TickCounts) (reservedCountUnknown : Bool) :
    PumpControlDecision :=
  let start := warmStart coldWindow state
  let (congestionWindow, aimdAction) :=
    if previous.congestion > 0 then (multiplicativeDecrease start, AimdAction.decrease)
    -- grow only when the window itself was the binding constraint and was published whole
    else if state.effectiveBudget > 0 ∧ state.effectiveBudget = state.congestionWindow ∧
        previous.published ≥ state.effectiveBudget ∧
        previous.readyPeeked ≥ state.effectiveBudget then
      (min maxReserved (start + increaseStep), AimdAction.increase)
    else (start, AimdAction.hold)
  { tickId := currentTickId
    effectiveBudget := min availableSlots congestionWindow
    congestionWindow
    availableSlots
    previousPublished := previous.published
    previousReadyPeeked := previous.readyPeeked
    previousCongestion := previous.congestion
    aimdAction
    reservedCountUnknown }

/-- The hash is stale after two ticks without a decision. -/
def stale (state : PumpControlDecision) (currentTickId : ℤ) : Prop :=
  state.tickId < currentTickId - 2

instance (state : PumpControlDecision) (currentTickId : ℤ) : Decidable (stale state currentTickId) :=
  inferInstanceAs (Decidable (_ < _))

/-- What one tick reads: `reserved_count()`, negative where unreadable, and the counters of the
previous tick and the controller hash, `none` where the read raised. -/
structure TickReads where
  tickId : ℤ
  reserved : ℤ
  previous : Option TickCounts
  state : Option (Option PumpControlDecision)

/-- `PumpController.decide` without its last step, `_persist`. -/
def decision (maxReserved : ℤ) (reads : TickReads) : PumpControlDecision :=
  let reservedCountUnknown : Bool := reads.reserved < 0
  let reserved := if reservedCountUnknown then 0 else reads.reserved
  let availableSlots := max 0 (maxReserved - reserved)
  if availableSlots ≤ 0 then
    { tickId := reads.tickId, effectiveBudget := 0, congestionWindow := 0, availableSlots,
      aimdAction := .hold, reservedCountUnknown }
  else
    let coldWindow := coldStartWindow maxReserved
    let cold : PumpControlDecision :=
      { tickId := reads.tickId, effectiveBudget := min availableSlots coldWindow,
        congestionWindow := coldWindow, availableSlots, aimdAction := .coldStart,
        reservedCountUnknown }
    match reads.state, reads.previous with
    | some state, some previous =>
      let coldStart := { cold with
        previousPublished := previous.published
        previousReadyPeeked := previous.readyPeeked
        previousCongestion := previous.congestion }
      match state with
      | none => coldStart
      | some state =>
        if stale state reads.tickId then coldStart
        else
          warmDecision reads.tickId availableSlots maxReserved (additiveIncreaseStep maxReserved)
            coldWindow state previous reservedCountUnknown
    -- a read raised: fall back to a cold start
    | _, _ => { cold with reservedCountUnknown := true }

/-- How the read of the controller hash ended: `read_state` answers an empty mapping for a failed
read, `decide` itself raises. -/
inductive HashRead
  | hash
  | empty
  | raised
  deriving DecidableEq

/-- One tick as the hash sees it; `lapsed` says that its TTL ran out before the tick, and `written`
that the decision reached it. -/
structure Tick where
  tickId : ℤ
  reserved : ℤ
  previous : Option TickCounts
  lapsed : Bool := false
  read : HashRead := .hash
  written : Bool := true

/-- The hash at the tick. -/
def Tick.standing (t : Tick) (stored : Option PumpControlDecision) : Option PumpControlDecision :=
  if t.lapsed then none else stored

/-- The hash as the tick sees it. -/
def Tick.seen (t : Tick) (stored : Option PumpControlDecision) : Option PumpControlDecision :=
  match t.read with
  | .hash => t.standing stored
  | .empty | .raised => none

def Tick.reads (t : Tick) (stored : Option PumpControlDecision) : TickReads where
  tickId := t.tickId
  reserved := t.reserved
  previous := t.previous
  state := if t.read = .raised then none else some (t.seen stored)

def Tick.decide (maxReserved : ℤ) (stored : Option PumpControlDecision) (t : Tick) :
    PumpControlDecision :=
  decision maxReserved (t.reads stored)

/-- The hash after the tick. -/
def Tick.persist (maxReserved : ℤ) (stored : Option PumpControlDecision) (t : Tick) :
    Option PumpControlDecision :=
  if t.written then some (t.decide maxReserved stored) else t.standing stored

/-- The window that a decision at this tick starts from. -/
def startWindow (maxReserved : ℤ) (stored : Option PumpControlDecision) (tickId : ℤ) : ℤ :=
  match stored with
  | none => coldStartWindow maxReserved
  | some state =>
    if stale state tickId then coldStartWindow maxReserved
    else warmStart (coldStartWindow maxReserved) state

/-- No slot is free at this tick. -/
def Tick.Saturated (maxReserved : ℤ) (t : Tick) : Prop := maxReserved ≤ max 0 t.reserved

instance (maxReserved : ℤ) (t : Tick) : Decidable (t.Saturated maxReserved) :=
  inferInstanceAs (Decidable (_ ≤ _))

section Bounds

variable {maxReserved : ℤ} {reads : TickReads} {t : Tick} {ts : List Tick}
  {stored stored' : Option PumpControlDecision} {state d : PumpControlDecision}

/-- What every decision satisfies. -/
structure Bounded (maxReserved : ℤ) (d : PumpControlDecision) : Prop where
  budget_le : d.effectiveBudget ≤ d.availableSlots
  slots_le : d.availableSlots ≤ maxReserved
  budget_pos : 0 < d.availableSlots → 1 ≤ d.effectiveBudget
  window_pos : 0 < d.availableSlots → 1 ≤ d.congestionWindow
  window_nonneg : 0 ≤ d.congestionWindow
  window_le : d.congestionWindow ≤ maxReserved

/-- What the decisions need of the hash they read. -/
def WindowInRange (maxReserved : ℤ) (stored : Option PumpControlDecision) : Prop :=
  ∀ d, stored = some d → 0 ≤ d.congestionWindow ∧ d.congestionWindow ≤ maxReserved

theorem coldStartWindow_pos (maxReserved : ℤ) : 1 ≤ coldStartWindow maxReserved := le_max_left _ _

theorem coldStartWindow_le (h : 1 ≤ maxReserved) : coldStartWindow maxReserved ≤ maxReserved := by
  unfold coldStartWindow
  omega

theorem additiveIncreaseStep_pos (maxReserved : ℤ) : 1 ≤ additiveIncreaseStep maxReserved :=
  le_max_left _ _

theorem warmStart_pos (maxReserved : ℤ) (state : PumpControlDecision) :
    1 ≤ warmStart (coldStartWindow maxReserved) state := by
  have hcold := coldStartWindow_pos maxReserved
  unfold warmStart
  split <;> omega

theorem warmStart_le (h : 1 ≤ maxReserved) (hs : state.congestionWindow ≤ maxReserved) :
    warmStart (coldStartWindow maxReserved) state ≤ maxReserved := by
  have hcold := coldStartWindow_le h
  unfold warmStart
  split <;> omega

/-- The three moves of the window, each from where the decision started. -/
theorem warmDecision_cases {tickId slots : ℤ} {previous : TickCounts} {unknown : Bool}
    (hd : warmDecision tickId slots maxReserved (additiveIncreaseStep maxReserved)
      (coldStartWindow maxReserved) state previous unknown = d) :
    d.availableSlots = slots ∧ d.effectiveBudget = min slots d.congestionWindow ∧
      (d.congestionWindow = multiplicativeDecrease (warmStart (coldStartWindow maxReserved) state) ∨
        previous.congestion ≤ 0 ∧
          (d.congestionWindow = min maxReserved
              (warmStart (coldStartWindow maxReserved) state + additiveIncreaseStep maxReserved) ∨
            d.congestionWindow = warmStart (coldStartWindow maxReserved) state)) := by
  subst hd
  refine ⟨rfl, rfl, ?_⟩
  by_cases hc : previous.congestion > 0
  · left
    simp [warmDecision, hc]
  · right
    refine ⟨by omega, ?_⟩
    simp only [warmDecision, hc, if_false]
    split
    · exact .inl rfl
    · exact .inr rfl

/-- Without a free slot nothing is read and both the budget and the window are 0. -/
theorem decision_saturated (h : maxReserved ≤ max 0 reads.reserved)
    (hd : decision maxReserved reads = d) :
    d.availableSlots = 0 ∧ d.effectiveBudget = 0 ∧ d.congestionWindow = 0 ∧
      d.aimdAction = .hold ∧ d.tickId = reads.tickId := by
  have hslots : max 0 (maxReserved - if reads.reserved < 0 then 0 else reads.reserved) = 0 := by
    split <;> omega
  subst hd
  simp [decision, hslots]

/-- With a free slot the decision is a cold start, or a warm one from a hash that is not stale. -/
theorem decision_free (h : max 0 reads.reserved < maxReserved)
    (hd : decision maxReserved reads = d) :
    0 < d.availableSlots ∧ d.availableSlots ≤ maxReserved ∧
      (d.effectiveBudget = min d.availableSlots (coldStartWindow maxReserved) ∧
          d.congestionWindow = coldStartWindow maxReserved ∧
          (∀ state previous, reads.state = some (some state) → reads.previous = some previous →
            stale state reads.tickId) ∨
        ∃ state previous, reads.state = some (some state) ∧ reads.previous = some previous ∧
          ¬ stale state reads.tickId ∧
          warmDecision reads.tickId d.availableSlots maxReserved (additiveIncreaseStep maxReserved)
            (coldStartWindow maxReserved) state previous (reads.reserved < 0) = d) := by
  have hslots : 0 < max 0 (maxReserved - if reads.reserved < 0 then 0 else reads.reserved) ∧
      max 0 (maxReserved - if reads.reserved < 0 then 0 else reads.reserved) ≤ maxReserved := by
    split <;> omega
  subst hd
  unfold decision
  simp only [decide_eq_true_eq]
  generalize max 0 (maxReserved - if reads.reserved < 0 then 0 else reads.reserved) = slots at *
  rw [if_neg (by omega)]
  cases hprevious : reads.previous with
  | none =>
    cases reads.state with
    | none => exact ⟨hslots.1, hslots.2, .inl ⟨rfl, rfl, by simp⟩⟩
    | some _ => exact ⟨hslots.1, hslots.2, .inl ⟨rfl, rfl, by simp⟩⟩
  | some previous =>
    cases hstate : reads.state with
    | none => exact ⟨hslots.1, hslots.2, .inl ⟨rfl, rfl, by simp⟩⟩
    | some stored =>
      cases stored with
      | none => exact ⟨hslots.1, hslots.2, .inl ⟨rfl, rfl, by simp⟩⟩
      | some state =>
        by_cases hstale : stale state reads.tickId
        · simp only [hstale, if_true]
          refine ⟨hslots.1, hslots.2, .inl ⟨trivial, trivial, ?_⟩⟩
          rintro _ _ ⟨⟩ -
          exact hstale
        · simp only [hstale, if_false]
          exact ⟨hslots.1, hslots.2, .inr ⟨state, previous, rfl, rfl, hstale, rfl⟩⟩

/-- Every decision is bounded when the hash it reads holds a window in range. -/
theorem decision_bounded (h : 1 ≤ maxReserved)
    (hs : ∀ state, reads.state = some (some state) → state.congestionWindow ≤ maxReserved) :
    Bounded maxReserved (decision maxReserved reads) := by
  have hcold := coldStartWindow_pos maxReserved
  have hcold_le := coldStartWindow_le h
  by_cases hr : maxReserved ≤ max 0 reads.reserved
  · obtain ⟨ha, hb, hw, -, -⟩ := decision_saturated hr rfl
    constructor <;> omega
  · obtain ⟨hpos, hle, hd⟩ := decision_free (not_le.mp hr) rfl
    generalize decision maxReserved reads = d at *
    rcases hd with ⟨hb, hw, -⟩ | ⟨state, previous, hstate, -, -, hwarm⟩
    · constructor <;> omega
    · obtain ⟨-, hb, hw⟩ := warmDecision_cases hwarm
      have hstart := warmStart_pos maxReserved state
      have hstart_le := warmStart_le h (hs state hstate)
      have hstep := additiveIncreaseStep_pos maxReserved
      have hrange : 1 ≤ d.congestionWindow ∧ d.congestionWindow ≤ maxReserved := by
        unfold multiplicativeDecrease at hw
        omega
      constructor <;> omega

theorem seen_of_reads (h : (t.reads stored).state = some (some state)) :
    t.seen stored = some state := by
  simp only [Tick.reads] at h
  split at h <;> simp_all

theorem reads_of_seen (h : t.seen stored = some state) :
    (t.reads stored).state = some (some state) := by
  have hr : t.read ≠ .raised := by
    intro hr
    simp [Tick.seen, hr] at h
  simp [Tick.reads, hr, h]

theorem standing_of_seen (h : t.seen stored = some state) :
    t.standing stored = some state := by
  unfold Tick.seen at h
  split at h <;> simp_all

theorem stored_of_standing (h : t.standing stored = some state) :
    stored = some state := by
  unfold Tick.standing at h
  split at h <;> simp_all

/-- Congestion never makes the window larger than the one the decision started from. -/
theorem decision_congested {counts : TickCounts} (h : t.previous = some counts)
    (hc : 0 < counts.congestion) :
    (t.decide maxReserved stored).congestionWindow ≤
      startWindow maxReserved (t.seen stored) t.tickId := by
  have hcold := coldStartWindow_pos maxReserved
  have hstart : 1 ≤ startWindow maxReserved (t.seen stored) t.tickId := by
    unfold startWindow
    split
    · exact hcold
    · split
      · exact hcold
      · exact warmStart_pos _ _
  unfold Tick.decide
  by_cases hr : maxReserved ≤ max 0 (t.reads stored).reserved
  · obtain ⟨-, -, hw, -, -⟩ := decision_saturated hr rfl
    omega
  · obtain ⟨-, -, hd⟩ := decision_free (not_le.mp hr) rfl
    generalize decision maxReserved (t.reads stored) = d at *
    rcases hd with ⟨-, hw, hcoldstart⟩ | ⟨state, previous, hstate, hprevious, hstale, hwarm⟩
    · rw [hw]
      cases hseen : t.seen stored with
      | none => exact le_refl _
      | some state =>
        have hst : stale state t.tickId := hcoldstart state counts (reads_of_seen hseen) h
        rw [startWindow, if_pos hst]
    · obtain ⟨-, -, hmove⟩ := warmDecision_cases hwarm
      obtain rfl : counts = previous := by simpa [Tick.reads, h] using hprevious
      rw [seen_of_reads hstate] at hstart ⊢
      simp only [startWindow, Tick.reads] at hstart hstale ⊢
      rw [if_neg hstale] at hstart ⊢
      unfold multiplicativeDecrease at hmove
      omega

/-- The hash keeps a window in range over every tick. -/
theorem windowInRange_persist (h : 1 ≤ maxReserved) (hs : WindowInRange maxReserved stored) :
    WindowInRange maxReserved (t.persist maxReserved stored) := by
  have hd : Bounded maxReserved (t.decide maxReserved stored) :=
    decision_bounded h fun state hstate =>
      (hs state (stored_of_standing (standing_of_seen (seen_of_reads hstate)))).2
  intro d hpersist
  unfold Tick.persist at hpersist
  split at hpersist
  · cases hpersist
    exact ⟨hd.window_nonneg, hd.window_le⟩
  · exact hs d (stored_of_standing hpersist)

/-- One tick as a step on the hash. -/
def TickStep (maxReserved : ℤ) (stored : Option PumpControlDecision) (t : Tick)
    (after : Option PumpControlDecision) : Prop :=
  t.persist maxReserved stored = after

theorem windowInRange_reachable (h : 1 ≤ maxReserved)
    (hr : Run (TickStep maxReserved) none ts stored) : WindowInRange maxReserved stored := by
  refine hr.invariant (WindowInRange maxReserved) (fun _ hd => by cases hd) ?_
  rintro s t _ hs rfl
  exact windowInRange_persist h hs

/-- After any history of ticks the next decision keeps its budget within the free slots and its
window within the ceiling, leaves neither at 0 while a slot is free, and never answers congestion
with a larger window than it started from. -/
theorem aimd_bounds (h : 1 ≤ maxReserved) (hr : Run (TickStep maxReserved) none ts stored)
    (t : Tick) :
    Bounded maxReserved (t.decide maxReserved stored) ∧
      ∀ counts, t.previous = some counts → 0 < counts.congestion →
        (t.decide maxReserved stored).congestionWindow ≤
          startWindow maxReserved (t.seen stored) t.tickId := by
  have hs := windowInRange_reachable h hr
  refine ⟨decision_bounded h fun state hstate => ?_, fun counts => decision_congested⟩
  exact (hs state (stored_of_standing (standing_of_seen (seen_of_reads hstate)))).2

theorem aimd_bounds_second_tick :
    let first : Tick := { tickId := 1, reserved := 0, previous := some {} }
    let second : Tick := { tickId := 2, reserved := 95, previous := some { congestion := 1 } }
    let d := second.decide 100 (first.persist 100 none)
    d.congestionWindow = 5 ∧ d.effectiveBudget = 5 ∧ Bounded 100 d ∧
      ∀ counts, second.previous = some counts → 0 < counts.congestion →
        d.congestionWindow ≤ startWindow 100 (second.seen (first.persist 100 none)) 2 := by
  intro first second d
  exact ⟨by decide, by decide, aimd_bounds (by decide) (.snoc (e := first) .refl rfl) second⟩

end Bounds

section Saturation

variable {maxReserved : ℤ} {t : Tick} {ts : List Tick} {stored : Option PumpControlDecision}

/-- A stored decision without a free slot leaves the window that the next tick starts from, as long
as it is not stale by then, as it stood before. -/
def KeepsWindow (maxReserved : ℤ) (stored : Option PumpControlDecision) (t : Tick) : Prop :=
  t.Saturated maxReserved → t.written = true → ∀ tickId, t.tickId ≥ tickId - 2 →
    startWindow maxReserved (t.persist maxReserved stored) tickId =
      startWindow maxReserved (t.standing stored) t.tickId

/-- A tick without a free slot meets the window of a cold start. -/
def SaturatedCold (maxReserved : ℤ) (stored : Option PumpControlDecision) (t : Tick) : Prop :=
  t.Saturated maxReserved → t.written = true →
    startWindow maxReserved (t.standing stored) t.tickId = coldStartWindow maxReserved

/-- The next window after a saturated tick is the cold one, whatever it was before. -/
theorem startWindow_after_saturated (h : t.Saturated maxReserved) (hw : t.written = true)
    {tickId : ℤ} : startWindow maxReserved (t.persist maxReserved stored) tickId =
      coldStartWindow maxReserved := by
  obtain ⟨-, -, hwindow, -, -⟩ :=
    decision_saturated (show maxReserved ≤ max 0 (t.reads stored).reserved from h) rfl
  simp [startWindow, Tick.persist, hw, warmStart, Tick.decide, hwindow]

theorem keepsWindow_iff : KeepsWindow maxReserved stored t ↔ SaturatedCold maxReserved stored t := by
  constructor
  · intro h hs hw
    rw [← h hs hw t.tickId (by omega), startWindow_after_saturated hs hw]
  · intro h hs hw tickId _
    rw [startWindow_after_saturated hs hw, h hs hw]

/-- Over every history of ticks: the saturated ticks leave the window alone exactly when each of
them meets the window of a cold start. -/
theorem saturated_keeps_window_iff :
    Along (fun stored t => Tick.persist maxReserved stored t) (KeepsWindow maxReserved) none ts ↔
      Along (fun stored t => Tick.persist maxReserved stored t) (SaturatedCold maxReserved) none
        ts :=
  along_congr fun _ _ => keepsWindow_iff

/-- A window grown to 15 and one halved to 5 are both put back to the cold 10. -/
theorem saturated_tick_moves_window :
    ¬ Along (fun stored t => Tick.persist 100 stored t) (KeepsWindow 100) none
        [{ tickId := 1, reserved := 0, previous := some {} },
          { tickId := 2, reserved := 0, previous := some { published := 10, readyPeeked := 10 } },
          { tickId := 3, reserved := 100, previous := some {} }] ∧
      ¬ Along (fun stored t => Tick.persist 100 stored t) (KeepsWindow 100) none
        [{ tickId := 1, reserved := 0, previous := some {} },
          { tickId := 2, reserved := 0, previous := some { congestion := 1 } },
          { tickId := 3, reserved := 100, previous := some {} }] := by
  constructor
  · rintro ⟨-, -, h, -⟩
    have hwindow := h (by decide) rfl 4 (by decide)
    revert hwindow
    decide
  · rintro ⟨-, -, h, -⟩
    have hwindow := h (by decide) rfl 4 (by decide)
    revert hwindow
    decide

end Saturation

end Dispatch
