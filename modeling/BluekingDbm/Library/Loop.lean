import Mathlib.Data.List.Basic

/-! Rules for loops over a list, and for loops that may run on or wait for ever. -/
namespace Loop

variable {α β : Type*} {f : β → α → β} {b : β} {l : List α}

/-- A fold keeps a property of what it has consumed and computed so far. -/
theorem foldl_prefix {P : List α → β → Prop} (hinit : P [] b)
    (hstep : ∀ done a rest b, l = done ++ a :: rest → P done b → P (done ++ [a]) (f b a)) :
    P l (l.foldl f b) := by
  have key : ∀ rest done b, l = done ++ rest → P done b → P l (rest.foldl f b) := by
    intro rest
    induction rest with
    | nil =>
      intro done b hl hb
      rw [List.append_nil] at hl
      exact hl ▸ hb
    | cons a rest ih =>
      intro done b hl hb
      exact ih (done ++ [a]) (f b a) (by simp [hl]) (hstep done a rest b hl hb)
  exact key l [] b rfl hinit

/-- How a computation with a bounded number of turns ends: with a value, waiting for something that
never comes, or with its turns used up. -/
inductive Outcome (α : Type*)
  | returned (a : α)
  | blocked
  | outOfFuel

def Outcome.bind {γ : Type*} (o : Outcome α) (f : α → Outcome γ) : Outcome γ :=
  match o with
  | .returned a => f a
  | .blocked => .blocked
  | .outOfFuel => .outOfFuel

def Outcome.toOption (o : Outcome α) : Option α :=
  match o with
  | .returned a => some a
  | .blocked => none
  | .outOfFuel => none

/-- What a turn of a loop decides. -/
inductive Turn (α : Type*)
  | again (a : α)
  | leave (a : α)

/-- A loop of at most `fuel` turns. -/
def iterate (body : α → Outcome (Turn α)) : ℕ → α → Outcome α
  | 0, _ => .outOfFuel
  | fuel + 1, a =>
    (body a).bind fun
      | .again a => iterate body fuel a
      | .leave a => .returned a

section Outcome

variable {γ : Type*} {o : Outcome α} {P Q : α → Prop} {R : γ → Prop} {g : α → Outcome γ}

/-- The computation ends with a value, and that satisfies `Q`. -/
def Outcome.Returns (o : Outcome α) (Q : α → Prop) : Prop := ∃ a, o = .returned a ∧ Q a

/-- If the computation ends with a value, that satisfies `Q`. -/
def Outcome.Ensures (o : Outcome α) (Q : α → Prop) : Prop := ∀ a, o = .returned a → Q a

theorem Outcome.toOption_eq_some {a : α} : o.toOption = some a ↔ o = .returned a := by
  cases o <;> simp [Outcome.toOption]

theorem Outcome.Returns.bind (h : o.Returns P) (hg : ∀ a, P a → (g a).Returns R) :
    (o.bind g).Returns R := by
  obtain ⟨a, rfl, ha⟩ := h
  exact hg a ha

theorem Outcome.Returns.mono (h : o.Returns P) (hPQ : ∀ a, P a → Q a) : o.Returns Q := by
  obtain ⟨a, ho, ha⟩ := h
  exact ⟨a, ho, hPQ a ha⟩

theorem Outcome.Returns.ensures (h : o.Returns Q) : o.Ensures Q := by
  obtain ⟨a, rfl, ha⟩ := h
  intro b hb
  cases hb
  exact ha

theorem Outcome.Returns.and_ensures (h : o.Returns P) (hQ : o.Ensures Q) :
    o.Returns fun a => P a ∧ Q a := by
  obtain ⟨a, ho, ha⟩ := h
  exact ⟨a, ho, ha, hQ a ho⟩

theorem Outcome.ensures_returned {a : α} (h : Q a) : (Outcome.returned a).Ensures Q :=
  Outcome.Returns.ensures ⟨a, rfl, h⟩

theorem Outcome.Ensures.mono (h : o.Ensures P) (hPQ : ∀ a, P a → Q a) : o.Ensures Q := fun a ho =>
  hPQ a (h a ho)

theorem Outcome.Ensures.bind (h : o.Ensures P) (hg : ∀ a, P a → (g a).Ensures R) :
    (o.bind g).Ensures R := by
  intro c hc
  cases o with
  | returned a => exact hg a (h a rfl) c hc
  | blocked => cases hc
  | outOfFuel => cases hc

end Outcome

section Iterate

variable {body : α → Outcome (Turn α)} {a : α} {fuel : ℕ}

/-- A loop whose turns keep `Inv` and use up a measure ends in an outcome that satisfies `Q`. -/
theorem iterate_ends {Q : Outcome α → Prop} (Inv : α → Prop) (m : α → ℕ)
    (hbody : ∀ a, Inv a →
      (∃ b, body a = .returned (.again b) ∧ Inv b ∧ m b < m a) ∨
      (∃ b, body a = .returned (.leave b) ∧ Q (.returned b)) ∨ body a = .blocked ∧ Q .blocked)
    (ha : Inv a) (hfuel : m a < fuel) : Q (iterate body fuel a) := by
  induction fuel generalizing a with
  | zero => omega
  | succ fuel ih =>
    rcases hbody a ha with ⟨b, hb, hInv, hm⟩ | ⟨b, hb, hQ⟩ | ⟨hb, hQ⟩
    · simp only [iterate, hb, Outcome.bind]
      exact ih hInv (by omega)
    · simpa only [iterate, hb, Outcome.bind] using hQ
    · simpa only [iterate, hb, Outcome.bind] using hQ

/-- Total correctness of a loop. -/
theorem iterate_returns {Q : α → Prop} (Inv : α → Prop) (m : α → ℕ)
    (hbody : ∀ a, Inv a → (body a).Returns fun
      | .again b => Inv b ∧ m b < m a
      | .leave b => Q b)
    (ha : Inv a) (hfuel : m a < fuel) : (iterate body fuel a).Returns Q := by
  refine iterate_ends (Q := fun o => o.Returns Q) Inv m (fun a hInv => ?_) ha hfuel
  obtain ⟨turn, hturn, hpost⟩ := hbody a hInv
  cases turn with
  | again b => exact .inl ⟨b, hturn, hpost⟩
  | leave b => exact .inr (.inl ⟨b, hturn, b, rfl, hpost⟩)

/-- Partial correctness of a loop. -/
theorem iterate_ensures {Q : α → Prop} (Inv : α → Prop)
    (hbody : ∀ a, Inv a → (body a).Ensures fun
      | .again b => Inv b
      | .leave b => Q b)
    (ha : Inv a) : (iterate body fuel a).Ensures Q := by
  induction fuel generalizing a with
  | zero => exact nofun
  | succ fuel ih =>
    refine (hbody a ha).bind fun turn hpost => ?_
    cases turn with
    | again b => exact ih hpost
    | leave b => exact Outcome.ensures_returned hpost

end Iterate

end Loop
