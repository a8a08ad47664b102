import BluekingDbm.Library.Run
import Mathlib.Algebra.BigOperators.Group.Finset.Piecewise
import Mathlib.Algebra.Order.BigOperators.Group.Finset
import Mathlib.Algebra.Order.Group.Int
import Mathlib.Algebra.Ring.Int.Defs
import Mathlib.Data.Fintype.Basic
import Mathlib.Tactic.Common

/-! The memory window of a rollback: the memory of the instances that load, were loaded or are
reserved, under one counter, and the calls that wait for room in it. -/
namespace Rollback

/-- A tenth of the memory available stays out of the window. -/
def memReserveDivisor : ℤ := 10

structure MemWindow where
  budget : ℤ
  used : ℤ
  loading : ℤ
  maxLoading : ℤ
  deriving DecidableEq, Repr

def newMemWindow (memAvailable maxLoading : ℤ) : MemWindow :=
  { budget := memAvailable - memAvailable / memReserveDivisor, used := 0, loading := 0, maxLoading }

namespace MemWindow

variable (w : MemWindow)

/-- An unknown budget fits everything. -/
def Fits (need : ℤ) : Prop := w.budget ≤ 0 ∨ w.used + need ≤ w.budget

instance (need : ℤ) : Decidable (w.Fits need) := inferInstanceAs (Decidable (_ ∨ _))

/-- The loop of `acquire` is left with the memory taken, left with an error, or waits. -/
inductive Turn
  | taken (w : MemWindow)
  | failed
  | waits

def acquireTurn (need : ℤ) : Turn :=
  if ¬ w.Fits need ∨ w.maxLoading ≤ w.loading then
    if ¬ w.Fits need ∧ w.loading = 0 then .failed else .waits
  else .taken { w with used := w.used + need, loading := w.loading + 1 }

def admitRunning (need : ℤ) : MemWindow :=
  { w with used := w.used + need, loading := w.loading + 1 }

/-- What a port keeps once its load is done. -/
def settled (reserved actual : ℤ) : ℤ :=
  if 0 < actual ∧ actual < reserved then actual else reserved

def loaded (reserved actual : ℤ) : MemWindow :=
  { w with
    used := if 0 < actual ∧ actual < reserved then w.used - (reserved - actual) else w.used
    loading := w.loading - 1 }

def release (reserved : ℤ) : MemWindow :=
  { w with used := w.used - reserved, loading := w.loading - 1 }

def reserve (need : ℤ) : Option MemWindow :=
  if ¬ w.Fits need then none else some { w with used := w.used + need }

def unreserve (reserved : ℤ) : MemWindow := { w with used := w.used - reserved }

end MemWindow

/-- Where the calls made for one port are. A call asleep waits for a broadcast, one that is woken
for the lock. -/
inductive PortStage
  | idle
  | asleep (need : ℕ)
  | woken (need : ℕ)
  | loading (held : ℕ)
  | resident (held : ℤ)
  | reserved (held : ℕ)

namespace PortStage

@[simp] def held : PortStage → ℤ
  | .idle | .asleep _ | .woken _ => 0
  | .loading held => held
  | .resident held => held
  | .reserved held => held

/-- One for a port that loads. -/
@[simp] def loads : PortStage → ℤ
  | .loading _ => 1
  | .idle | .asleep _ | .woken _ | .resident _ | .reserved _ => 0

def awake : PortStage → PortStage
  | .asleep need => .woken need
  | stage => stage

@[simp] theorem held_awake (stage : PortStage) : stage.awake.held = stage.held := by
  cases stage <;> rfl

@[simp] theorem loads_awake (stage : PortStage) : stage.awake.loads = stage.loads := by
  cases stage <;> rfl

theorem awake_ne_asleep (stage : PortStage) (need : ℕ) : stage.awake ≠ .asleep need := by
  cases stage <;> exact fun h => nomatch h

end PortStage

inductive MemCall (P : Type*)
  | acquire (port : P) (need : ℕ)
  | recheck (port : P)
  | admitRunning (port : P) (need : ℕ)
  | loaded (port : P) (actual : ℤ)
  | release (port : P)
  | reserve (port : P) (need : ℕ)
  | unreserve (port : P)

/-- The window and the ports that share it. -/
structure Sharing (P : Type*) where
  window : MemWindow
  stage : P → PortStage

namespace Sharing

open Transition

variable {P : Type*} [DecidableEq P]

def initial (w : MemWindow) : Sharing P := ⟨w, fun _ => .idle⟩

/-- The window as one call leaves it, and the stage of its port. -/
def put (s : Sharing P) (w : MemWindow) (p : P) (stage : PortStage) : Sharing P :=
  ⟨w, Function.update s.stage p stage⟩

def broadcast (s : Sharing P) : Sharing P := { s with stage := fun p => (s.stage p).awake }

/-- One turn of the loop of `acquire`, under the lock. -/
def turn (s : Sharing P) (p : P) (need : ℕ) : Sharing P :=
  match s.window.acquireTurn need with
  | .taken w => s.put w p (.loading need)
  | .failed => s.put s.window p .idle
  | .waits => s.put s.window p (.asleep need)

/-- The calls, each made where the port has the memory it speaks of. -/
def next (s : Sharing P) : MemCall P → Option (Sharing P)
  | .acquire p need =>
    match s.stage p with
    | .idle => some (s.turn p need)
    | _ => none
  | .recheck p =>
    match s.stage p with
    | .woken need => some (s.turn p need)
    | _ => none
  | .admitRunning p need =>
    match s.stage p with
    | .idle => some (s.put (s.window.admitRunning need) p (.loading need))
    | _ => none
  | .loaded p actual =>
    match s.stage p with
    | .loading held =>
      some (s.put (s.window.loaded held actual) p
        (.resident (MemWindow.settled held actual))).broadcast
    | _ => none
  | .release p =>
    match s.stage p with
    | .loading held => some (s.put (s.window.release held) p .idle).broadcast
    | _ => none
  | .reserve p need =>
    match s.stage p with
    | .idle =>
      match s.window.reserve need with
      | none => some s
      | some w => some (s.put w p (.reserved need))
    | _ => none
  | .unreserve p =>
    match s.stage p with
    | .reserved held => some (s.put (s.window.unreserve held) p .idle).broadcast
    | _ => none

/-- A turn of `acquire`'s loop by a port that asks for `need`: its first, or one it was woken for. -/
def Asks (s : Sharing P) (e : MemCall P) (p : P) (need : ℕ) : Prop :=
  e = .acquire p need ∨ e = .recheck p ∧ s.stage p = .woken need

/-- A call of `acquire` has not returned. -/
def Waits (s : Sharing P) (p : P) (need : ℕ) : Prop :=
  s.stage p = .asleep need ∨ s.stage p = .woken need

section Turns

variable {w w' : MemWindow} {need : ℤ} {s t : Sharing P} {p q : P}

theorem acquireTurn_taken (h : w.acquireTurn need = .taken w') :
    w.Fits need ∧ w.loading < w.maxLoading ∧
      w' = { w with used := w.used + need, loading := w.loading + 1 } := by
  unfold MemWindow.acquireTurn at h
  split at h
  · split at h <;> cases h
  · rename_i hfree
    obtain ⟨hfits, hloading⟩ := not_or.mp hfree
    cases h
    exact ⟨not_not.mp hfits, not_le.mp hloading, rfl⟩

/-- With room for one load, a call that waits is one that something loading keeps waiting. -/
theorem acquireTurn_waits (h : w.acquireTurn need = .waits) (hmax : 1 ≤ w.maxLoading) :
    ¬ (w.Fits need ∧ w.loading < w.maxLoading) ∧ w.loading ≠ 0 := by
  unfold MemWindow.acquireTurn at h
  split at h
  · rename_i hbusy
    split at h
    · cases h
    · rename_i hloads
      refine ⟨?_, ?_⟩
      · rintro ⟨hfits, hloading⟩
        rcases hbusy with hbusy | hbusy
        · exact hbusy hfits
        · omega
      · intro hzero
        rcases hbusy with hbusy | hbusy
        · exact hloads ⟨hbusy, hzero⟩
        · omega
  · cases h

theorem reserve_some (h : w.reserve need = some w') :
    w.Fits need ∧ w' = { w with used := w.used + need } := by
  unfold MemWindow.reserve at h
  split at h
  · cases h
  · rename_i hfits
    cases h
    exact ⟨not_not.mp hfits, rfl⟩

theorem fits_mono (hbudget : w'.budget = w.budget) (hused : w.used ≤ w'.used)
    (h : w'.Fits need) : w.Fits need := by
  unfold MemWindow.Fits at h ⊢
  omega

theorem within_of_fits (hbudget : 0 < w.budget) (h : w.Fits need) : w.used + need ≤ w.budget := by
  unfold MemWindow.Fits at h
  omega

@[simp] theorem put_window (s : Sharing P) (w : MemWindow) (p : P) (stage : PortStage) :
    (s.put w p stage).window = w := rfl

theorem put_stage_self (s : Sharing P) (w : MemWindow) (p : P) (stage : PortStage) :
    (s.put w p stage).stage p = stage := by
  simp [put]

theorem put_stage_of_ne (w : MemWindow) (stage : PortStage) (h : q ≠ p) :
    (s.put w p stage).stage q = s.stage q := by
  simp [put, h]

variable [Fintype P]

theorem sum_put (s : Sharing P) (w : MemWindow) (p : P) (stage : PortStage) (f : PortStage → ℤ) :
    ∑ q, f ((s.put w p stage).stage q) = ∑ q, f (s.stage q) - f (s.stage p) + f stage := by
  have hupdate : (fun q => f ((s.put w p stage).stage q)) =
      Function.update (fun q => f (s.stage q)) p (f stage) := by
    funext q
    by_cases hq : q = p
    · subst hq
      rw [put_stage_self, Function.update_self]
    · rw [put_stage_of_ne w stage hq, Function.update_of_ne hq]
  have hsum := Finset.sum_update_of_mem (Finset.mem_univ p) (fun q => f (s.stage q)) (f stage)
  have hsplit := Finset.sum_eq_add_sum_sdiff_singleton_of_mem (Finset.mem_univ p)
    fun q => f (s.stage q)
  rw [hupdate, hsum]
  omega

end Turns

variable [Fintype P]

/-- The counters are those of the ports, and no port sleeps while it could go on or nothing
loads. -/
structure Sound (budget maxLoading : ℤ) (s : Sharing P) : Prop where
  budget : s.window.budget = budget
  maxLoading : s.window.maxLoading = maxLoading
  used : s.window.used = ∑ p, (s.stage p).held
  loading : s.window.loading = ∑ p, (s.stage p).loads
  blocked : ∀ p need, s.stage p = .asleep need →
    ¬ (s.window.Fits need ∧ s.window.loading < s.window.maxLoading) ∧ s.window.loading ≠ 0

section Soundness

variable {budget maxLoading : ℤ} {w : MemWindow} {s t : Sharing P} {p : P} {stage : PortStage}
  {need : ℕ} {e : MemCall P} {es : List (MemCall P)}

omit [DecidableEq P] in
theorem Sound.loading_nonneg (h : Sound budget maxLoading s) : 0 ≤ s.window.loading := by
  rw [h.loading]
  refine Finset.sum_nonneg fun p _ => ?_
  cases s.stage p <;> simp

omit [DecidableEq P] in
theorem sound_initial (memAvailable maxLoading : ℤ) :
    Sound (memAvailable - memAvailable / memReserveDivisor) maxLoading
      (initial (newMemWindow memAvailable maxLoading) : Sharing P) := by
  refine ⟨rfl, rfl, ?_, ?_, ?_⟩
  · simp [initial, newMemWindow]
  · simp [initial, newMemWindow]
  · intro p need h
    cases h

/-- A port that takes memory wakes nobody, and needs to wake nobody. -/
theorem Sound.grow (h : Sound budget maxLoading s) (hbudget : w.budget = s.window.budget)
    (hmax : w.maxLoading = s.window.maxLoading)
    (hused : w.used = s.window.used + (stage.held - (s.stage p).held))
    (hloading : w.loading = s.window.loading + (stage.loads - (s.stage p).loads))
    (hmore : s.window.used ≤ w.used) (hloads : s.window.loading ≤ w.loading)
    (hawake : ∀ need, stage = .asleep need →
      ¬ (w.Fits need ∧ w.loading < w.maxLoading) ∧ w.loading ≠ 0) :
    Sound budget maxLoading (s.put w p stage) := by
  have hnonneg := h.loading_nonneg
  refine ⟨hbudget.trans h.budget, hmax.trans h.maxLoading, ?_, ?_, ?_⟩
  · have hsum := sum_put s w p stage PortStage.held
    have hold := h.used
    rw [hsum]
    show w.used = _
    omega
  · have hsum := sum_put s w p stage PortStage.loads
    have hold := h.loading
    rw [hsum]
    show w.loading = _
    omega
  · intro q need hq
    by_cases hp : q = p
    · subst hp
      rw [put_stage_self] at hq
      exact hawake need hq
    · rw [put_stage_of_ne w stage hp] at hq
      obtain ⟨hstuck, hzero⟩ := h.blocked q need hq
      refine ⟨?_, ?_⟩
      · rintro ⟨hfits, hslot⟩
        refine hstuck ⟨fits_mono hbudget hmore hfits, ?_⟩
        have hslot' : w.loading < w.maxLoading := hslot
        omega
      · show w.loading ≠ 0
        omega

/-- A port that gives something back wakes all that sleep. -/
theorem Sound.wake (h : Sound budget maxLoading s) (hbudget : w.budget = s.window.budget)
    (hmax : w.maxLoading = s.window.maxLoading)
    (hused : w.used = s.window.used + (stage.held - (s.stage p).held))
    (hloading : w.loading = s.window.loading + (stage.loads - (s.stage p).loads)) :
    Sound budget maxLoading (s.put w p stage).broadcast := by
  refine ⟨hbudget.trans h.budget, hmax.trans h.maxLoading, ?_, ?_, ?_⟩
  · have hsum := sum_put s w p stage PortStage.held
    have hold := h.used
    simp only [broadcast, PortStage.held_awake]
    rw [hsum]
    show w.used = _
    omega
  · have hsum := sum_put s w p stage PortStage.loads
    have hold := h.loading
    simp only [broadcast, PortStage.loads_awake]
    rw [hsum]
    show w.loading = _
    omega
  · intro q need hq
    exact absurd hq (PortStage.awake_ne_asleep _ need)

theorem Sound.turn (h : Sound budget maxLoading s) (hmax : 1 ≤ maxLoading)
    (hheld : (s.stage p).held = 0) (hloads : (s.stage p).loads = 0) :
    Sound budget maxLoading (s.turn p need) := by
  unfold Sharing.turn
  cases hturn : s.window.acquireTurn need with
  | taken w =>
    obtain ⟨-, -, rfl⟩ := acquireTurn_taken hturn
    refine h.grow rfl rfl ?_ ?_ ?_ ?_ fun _ hneed => nomatch hneed
    · rw [hheld]
      simp
    · rw [hloads]
      simp
    · simp
    · simp
  | failed =>
    refine h.grow (w := s.window) rfl rfl ?_ ?_ le_rfl le_rfl fun _ hneed => nomatch hneed
    · rw [hheld]
      simp
    · rw [hloads]
      simp
  | waits =>
    have hwaits := acquireTurn_waits hturn (by rw [h.maxLoading]; exact hmax)
    refine h.grow (w := s.window) rfl rfl ?_ ?_ le_rfl le_rfl ?_
    · rw [hheld]
      simp
    · rw [hloads]
      simp
    · intro need' hneed
      cases hneed
      exact hwaits

theorem Sound.step (h : Sound budget maxLoading s) (hmax : 1 ≤ maxLoading)
    (hs : next s e = some t) : Sound budget maxLoading t := by
  cases e with
  | acquire p need =>
    cases hp : s.stage p <;> simp only [next, hp, reduceCtorEq, Option.some.injEq] at hs
    subst hs
    exact h.turn hmax (by rw [hp]; rfl) (by rw [hp]; rfl)
  | recheck p =>
    cases hp : s.stage p <;> simp only [next, hp, reduceCtorEq, Option.some.injEq] at hs
    subst hs
    exact h.turn hmax (by rw [hp]; rfl) (by rw [hp]; rfl)
  | admitRunning p need =>
    cases hp : s.stage p <;> simp only [next, hp, reduceCtorEq, Option.some.injEq] at hs
    subst hs
    refine h.grow rfl rfl ?_ ?_ ?_ ?_ ?_ <;>
      simp [MemWindow.admitRunning, hp]
  | loaded p actual =>
    cases hp : s.stage p <;> simp only [next, hp, reduceCtorEq, Option.some.injEq] at hs
    subst hs
    refine h.wake rfl rfl ?_ ?_
    · simp only [MemWindow.loaded, MemWindow.settled, hp, PortStage.held]
      split <;> omega
    · simp only [MemWindow.loaded, hp, PortStage.loads]
      omega
  | release p =>
    cases hp : s.stage p <;> simp only [next, hp, reduceCtorEq, Option.some.injEq] at hs
    subst hs
    refine h.wake rfl rfl ?_ ?_
    · simp only [MemWindow.release, hp, PortStage.held]
      omega
    · simp only [MemWindow.release, hp, PortStage.loads]
      omega
  | reserve p need =>
    cases hp : s.stage p <;> simp only [next, hp, reduceCtorEq] at hs
    cases hr : s.window.reserve need with
    | none =>
      simp only [hr, Option.some.injEq] at hs
      subst hs
      exact h
    | some w =>
      obtain ⟨-, rfl⟩ := reserve_some hr
      simp only [hr, Option.some.injEq] at hs
      subst hs
      refine h.grow rfl rfl ?_ ?_ ?_ ?_ ?_ <;> simp [hp]
  | unreserve p =>
    cases hp : s.stage p <;> simp only [next, hp, reduceCtorEq, Option.some.injEq] at hs
    subst hs
    refine h.wake rfl rfl ?_ ?_
    · simp only [MemWindow.unreserve, hp, PortStage.held]
      omega
    · simp [MemWindow.unreserve, hp, PortStage.loads]

end Soundness

/-- What a call took was within the limits as it took it. -/
structure TakesWithin (budget maxLoading : ℤ) (s : Sharing P) : Prop where
  acquired : ∀ p need e t, s.Asks e p need → next s e = some t → t.stage p = .loading need →
    t.window.used ≤ budget ∧ t.window.loading ≤ maxLoading
  reserved : ∀ p need t, next s (.reserve p need) = some t → t.stage p = .reserved need →
    t.window.used ≤ budget

theorem Sound.takesWithin {budget maxLoading : ℤ} {s : Sharing P}
    (h : Sound budget maxLoading s) (hbudget : 0 < budget) :
    TakesWithin budget maxLoading s := by
  have hknown : 0 < s.window.budget := h.budget ▸ hbudget
  refine ⟨?_, ?_⟩
  · intro p need e t hasks hs hloading
    have hturn : t = s.turn p need := by
      rcases hasks with rfl | ⟨rfl, hwoken⟩
      · cases hp : s.stage p <;> simp only [next, hp, reduceCtorEq, Option.some.injEq] at hs
        exact hs.symm
      · simp only [next, hwoken, Option.some.injEq] at hs
        exact hs.symm
    subst hturn
    unfold Sharing.turn at hloading ⊢
    cases hw : s.window.acquireTurn need with
    | taken w =>
      obtain ⟨hfits, hslot, rfl⟩ := acquireTurn_taken hw
      have hused := within_of_fits hknown hfits
      rw [h.budget] at hused
      rw [h.maxLoading] at hslot
      exact ⟨hused, hslot⟩
    | failed =>
      simp only [hw, put_stage_self] at hloading
      cases hloading
    | waits =>
      simp only [hw, put_stage_self] at hloading
      cases hloading
  · intro p need t hs hreserved
    cases hp : s.stage p <;> simp only [next, hp, reduceCtorEq] at hs
    cases hr : s.window.reserve need with
    | none =>
      simp only [hr, Option.some.injEq] at hs
      subst hs
      cases hp.symm.trans hreserved
    | some w =>
      obtain ⟨hfits, rfl⟩ := reserve_some hr
      simp only [hr, Option.some.injEq] at hs
      subst hs
      have hused := within_of_fits hknown hfits
      rw [h.budget] at hused
      exact hused

omit [DecidableEq P] in
/-- A window whose counter is not zero has a port that loads. -/
theorem Sound.exists_loading {budget maxLoading : ℤ} {s : Sharing P}
    (h : Sound budget maxLoading s) (hloading : s.window.loading ≠ 0) :
    ∃ q held, s.stage q = .loading held := by
  rw [h.loading] at hloading
  obtain ⟨q, -, hq⟩ := Finset.exists_ne_zero_of_sum_ne_zero hloading
  cases hstage : s.stage q with
  | loading held => exact ⟨q, held, hstage⟩
  | idle | asleep | woken | resident | reserved => simp [hstage] at hq

/-- Over every run of the calls of any number of ports: the counters are what the ports hold,
what is taken is within the limits, and no call sleeps that could go on or that no load will
wake. -/
theorem window_accounts_and_wakes {memAvailable maxLoading : ℤ} {s : Sharing P}
    {es : List (MemCall P)} (hknown : 0 < memAvailable) (hmax : 1 ≤ maxLoading)
    (h : Run (Steps next) (initial (newMemWindow memAvailable maxLoading)) es s) :
    s.window.used = ∑ p, (s.stage p).held ∧
      s.window.loading = ∑ p, (s.stage p).loads ∧
      TakesWithin (memAvailable - memAvailable / 10) maxLoading s ∧
      ((∀ p need, s.stage p ≠ .woken need) → ∀ p need, s.Waits p need →
        ¬ (s.window.Fits need ∧ s.window.loading < s.window.maxLoading) ∧
          ∃ q held, s.stage q = .loading held) := by
  have hsound := h.invariant (Sound (memAvailable - memAvailable / 10) maxLoading)
    (sound_initial memAvailable maxLoading) fun hs hstep => hs.step hmax hstep
  refine ⟨hsound.used, hsound.loading, hsound.takesWithin (by omega), ?_⟩
  intro hdelivered p need hp
  obtain ⟨hstuck, hloads⟩ := hsound.blocked p need (hp.resolve_right (hdelivered p need))
  exact ⟨hstuck, hsound.exists_loading hloads⟩

/-- Of a budget of ninety, forty are taken, and a call for sixty sleeps. -/
def oneAsleep : Sharing Bool :=
  ((initial (newMemWindow 100 16)).turn true 40).turn false 60

theorem window_accounts_and_wakes_oneAsleep :
    oneAsleep.Waits false 60 ∧ oneAsleep.window.used = ∑ p, (oneAsleep.stage p).held ∧
      ∃ q held, oneAsleep.stage q = .loading held := by
  have hfirst : Run (Steps next) (initial (newMemWindow 100 16)) [.acquire true 40]
      ((initial (newMemWindow 100 16) : Sharing Bool).turn true 40) := Run.refl.snoc rfl
  have hrun : Run (Steps next) (initial (newMemWindow 100 16) : Sharing Bool)
      [.acquire true 40, .acquire false 60] oneAsleep := hfirst.snoc rfl
  have hasleep : oneAsleep.Waits false 60 := Or.inl rfl
  have hall := window_accounts_and_wakes (by decide) (by decide) hrun
  refine ⟨hasleep, hall.1, (hall.2.2.2 ?_ false 60 hasleep).2⟩
  intro p need h
  cases p <;> cases h

end Sharing
end Rollback
