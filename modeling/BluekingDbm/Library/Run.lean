import Mathlib.Data.List.Basic

/-! Finite runs of a labelled transition relation. An invariant is proved once for a step and read
off every state that a run reaches. -/
namespace Transition

variable {σ ε : Type*} {step : σ → ε → σ → Prop} {s t u : σ} {e : ε} {es fs : List ε}

/-- `Run step s es t`: the events `es`, taken in this order, lead from `s` to `t`. -/
inductive Run (step : σ → ε → σ → Prop) (s : σ) : List ε → σ → Prop
  | refl : Run step s [] s
  | snoc {es : List ε} {t u : σ} {e : ε} :
      Run step s es t → step t e u → Run step s (es ++ [e]) u

/-- The relation of a machine that takes at most one step for each event. -/
def Steps (next : σ → ε → Option σ) : σ → ε → σ → Prop :=
  fun s e t => next s e = some t

/-- The steps that are taken from a state and an event satisfying `G`. -/
def Guarded (G : σ → ε → Prop) (step : σ → ε → σ → Prop) : σ → ε → σ → Prop :=
  fun s e t => G s e ∧ step s e t

/-- A run of a deterministic machine, computed. -/
def exec (next : σ → ε → Option σ) : σ → List ε → Option σ
  | s, [] => some s
  | s, e :: es => (next s e).bind fun t => exec next t es

theorem Run.head (h : step s e t) (hr : Run step t es u) : Run step s (e :: es) u := by
  induction hr with
  | refl =>
    show Run step s ([] ++ [e]) t
    exact .snoc .refl h
  | snoc _ hs ih => exact .snoc ih hs

theorem Run.append (h : Run step s es t) (hr : Run step t fs u) : Run step s (es ++ fs) u := by
  induction hr with
  | refl => simpa using h
  | snoc _ hs ih => rw [← List.append_assoc]; exact .snoc ih hs

/-- What holds at the start and is kept by every step holds in every state reached. -/
theorem Run.invariant (Inv : σ → Prop) (h : Run step s es t) (hs : Inv s)
    (hstep : ∀ {s e t}, Inv s → step s e t → Inv t) : Inv t := by
  induction h with
  | refl => exact hs
  | snoc _ hu ih => exact hstep ih hu

theorem Run.mono {step' : σ → ε → σ → Prop} (h : Run step s es t)
    (hstep : ∀ {s e t}, step s e t → step' s e t) : Run step' s es t := by
  induction h with
  | refl => exact .refl
  | snoc _ hu ih => exact .snoc ih (hstep hu)

theorem run_of_exec {next : σ → ε → Option σ} (h : exec next s es = some t) :
    Run (Steps next) s es t := by
  induction es generalizing s with
  | nil =>
    obtain rfl : s = t := by simpa [exec] using h
    exact .refl
  | cons e es ih =>
    obtain ⟨u, hu, ht⟩ := Option.bind_eq_some_iff.mp h
    exact .head hu (ih ht)

/-- A run of a deterministic machine whose last state passes a test. -/
theorem exists_run_of_exec (next : σ → ε → Option σ) (s : σ) (es : List ε) (p : σ → Bool)
    (h : (exec next s es).any p = true) : ∃ t, Run (Steps next) s es t ∧ p t = true := by
  cases ht : exec next s es with
  | none => simp [ht] at h
  | some t => exact ⟨t, run_of_exec ht, by simpa [ht] using h⟩

/-- The same for a run whose steps are checked against a guard as it is computed. -/
theorem exists_guarded_run (next : σ → ε → Option σ) (G : σ → ε → Prop)
    [∀ s e, Decidable (G s e)] (s : σ) (es : List ε) (p : σ → Bool)
    (h : (exec (fun s e => if G s e then next s e else none) s es).any p = true) :
    ∃ t, Run (Guarded G (Steps next)) s es t ∧ p t = true := by
  obtain ⟨t, hrun, ht⟩ := exists_run_of_exec _ s es p h
  refine ⟨t, hrun.mono ?_, ht⟩
  intro s e u hs
  by_cases hg : G s e
  · exact ⟨hg, (if_pos hg).symm.trans hs⟩
  · cases (if_neg hg).symm.trans hs

/-- Every step of the run of a total machine from `s` satisfies `P`. -/
def Along (next : σ → ε → σ) (P : σ → ε → Prop) : σ → List ε → Prop
  | _, [] => True
  | s, e :: es => P s e ∧ Along next P (next s e) es

theorem along_congr {next : σ → ε → σ} {P Q : σ → ε → Prop} (h : ∀ s e, P s e ↔ Q s e) :
    Along next P s es ↔ Along next Q s es := by
  induction es generalizing s with
  | nil => exact Iff.rfl
  | cons e es ih => exact and_congr (h s e) ih

end Transition
