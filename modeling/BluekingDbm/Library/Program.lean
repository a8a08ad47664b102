import BluekingDbm.Library.Run

/-! Programs that call a shared service, one operation at a time. A program is run alone, or any number
of them take turns at the service. -/
namespace Program

variable {Op : Type} {Res : Op → Type} {α β : Type}

/-- An operation `o` is answered by a value of `Res o`. -/
inductive Prog (Res : Op → Type) (α : Type)
  | done (a : α)
  | call (o : Op) (k : Res o → Prog Res α)

namespace Prog

def bind : Prog Res α → (α → Prog Res β) → Prog Res β
  | .done a, f => f a
  | .call o k, f => .call o fun r => (k r).bind f

instance : Monad (Prog Res) where
  pure := .done
  bind := bind

@[simp] theorem pure_eq (a : α) : (pure a : Prog Res α) = .done a := rfl

@[simp] theorem done_bind (a : α) (f : α → Prog Res β) : (Prog.done a >>= f) = f a := rfl

@[simp] theorem call_bind (o : Op) (k : Res o → Prog Res α) (f : α → Prog Res β) :
    (Prog.call o k >>= f) = .call o fun r => k r >>= f := rfl

theorem bind_assoc {γ : Type} (p : Prog Res α) (f : α → Prog Res β) (g : β → Prog Res γ) :
    p >>= f >>= g = p >>= fun a => f a >>= g := by
  induction p with
  | done a => rfl
  | call o k ih => exact congrArg (Prog.call o) (funext ih)

/-- What is left of a program once a call is answered. -/
def Goes (q p : Prog Res α) : Prop := ∃ o k r, p = .call o k ∧ q = k r

/-- No program goes on for ever. -/
theorem goes_wf : WellFounded (Goes : Prog Res α → Prog Res α → Prop) := by
  constructor
  intro p
  induction p with
  | done a =>
    constructor
    rintro q ⟨o, k, r, hp, -⟩
    cases hp
  | call o k ih =>
    constructor
    rintro q ⟨o', k', r, hp, rfl⟩
    cases hp
    exact ih r

end Prog

/-- One call, returning its answer. -/
def perform (o : Op) : Prog Res (Res o) := .call o .done

@[simp] theorem perform_bind (o : Op) (f : Res o → Prog Res β) :
    (perform o >>= f) = .call o f := rfl

section Alone

variable {σ : Type} {serve : (o : Op) → σ → Option (Res o × σ)} {p : Prog Res α} {f : α → Prog Res β}
  {s t u : σ} {a : α} {b : β}

/-- A program run by itself; none when a call is never answered. -/
def run (serve : (o : Op) → σ → Option (Res o × σ)) : Prog Res α → σ → Option (α × σ)
  | .done a, s => some (a, s)
  | .call o k, s => (serve o s).bind fun (r, t) => run serve (k r) t

theorem run_bind (p : Prog Res α) (f : α → Prog Res β) (s : σ) :
    run serve (p >>= f) s = (run serve p s).bind fun (a, t) => run serve (f a) t := by
  induction p generalizing s with
  | done a => rfl
  | call o k ih =>
    simp only [Prog.call_bind, run]
    cases serve o s with
    | none => rfl
    | some r => exact ih r.1 r.2

theorem run_bind_some (h : run serve p s = some (a, t)) :
    run serve (p >>= f) s = run serve (f a) t := by
  rw [run_bind, h]
  rfl

/-- A run of two programs one after the other passes through the end of the first. -/
theorem exists_of_run_bind (h : run serve (p >>= f) s = some (b, u)) :
    ∃ a t, run serve p s = some (a, t) ∧ run serve (f a) t = some (b, u) := by
  rw [run_bind] at h
  obtain ⟨⟨a, t⟩, hp, hf⟩ := Option.bind_eq_some_iff.mp h
  exact ⟨a, t, hp, hf⟩

end Alone

section Ghost

variable {γ : Type} {P : Op → γ → Prop} {R : (o : Op) → γ → Res o → γ → Prop} {Q Q' : α → γ → Prop}
  {g : γ}

/-- However its calls are answered, each call satisfies `P` when it is made and `Q` holds where the
program ends. `R` says what an answer does to a ghost state that goes along. -/
def Ensures (P : Op → γ → Prop) (R : (o : Op) → γ → Res o → γ → Prop) (Q : α → γ → Prop) :
    Prog Res α → γ → Prop
  | .done a, g => Q a g
  | .call o k, g => P o g ∧ ∀ r g', R o g r g' → Ensures P R Q (k r) g'

theorem Ensures.mono {p : Prog Res α} (h : Ensures P R Q p g) (hQ : ∀ a g, Q a g → Q' a g) :
    Ensures P R Q' p g := by
  induction p generalizing g with
  | done a => exact hQ a g h
  | call o k ih =>
    refine ⟨h.1, ?_⟩
    intro r g' hr
    exact ih r (h.2 r g' hr)

theorem Ensures.bind {p : Prog Res α} {f : α → Prog Res β} {Q' : β → γ → Prop}
    (h : Ensures P R Q p g) (hf : ∀ a g, Q a g → Ensures P R Q' (f a) g) :
    Ensures P R Q' (p >>= f) g := by
  induction p generalizing g with
  | done a => exact hf a g h
  | call o k ih =>
    refine ⟨h.1, ?_⟩
    intro r g' hr
    exact ih r (h.2 r g' hr)

/-- `Ends R p g a g'`: with its calls answered in some way that `R` allows, `p` returns `a`. -/
inductive Ends (R : (o : Op) → γ → Res o → γ → Prop) : Prog Res α → γ → α → γ → Prop
  | done {a : α} {g : γ} : Ends R (.done a) g a g
  | call {o : Op} {k : Res o → Prog Res α} {r : Res o} {a : α} {g s t : γ} :
      R o g r s → Ends R (k r) s a t → Ends R (.call o k) g a t

theorem Ends.ensured {p : Prog Res α} {a : α} {g' : γ} (h : Ends R p g a g')
    (hp : Ensures P R Q p g) : Q a g' := by
  induction h with
  | done => exact hp
  | call hr _ ih => exact ih (hp.2 _ _ hr)

theorem ensures_perform {o : Op} {f : Res o → Prog Res β} {Q' : β → γ → Prop} (hP : P o g)
    (hf : ∀ r g', R o g r g' → Ensures P R Q' (f r) g') :
    Ensures P R Q' (perform o >>= f) g := ⟨hP, hf⟩

end Ghost

section Shared

variable {ι χ σ : Type}

/-- Programs and the state of the service they call; each program bears a name. -/
structure Sys (Res : Op → Type) (ι α σ : Type) where
  store : σ
  procs : List (ι × Prog Res α)

/-- The `i`-th program makes its next call. The service knows who calls, and leaves to `c` what it does
not decide. -/
def Sys.call (serve : ι → χ → (o : Op) → σ → Option (Res o × σ)) (s : Sys Res ι α σ) (i : ℕ)
    (c : χ) : Option (Sys Res ι α σ) := do
  let (name, p) ← s.procs[i]?
  match p with
  | .done _ => none
  | .call o k =>
    let (r, store) ← serve name c o s.store
    some ⟨store, s.procs.set i (name, k r)⟩

theorem call_cases {serve : ι → χ → (o : Op) → σ → Option (Res o × σ)} {s t : Sys Res ι α σ} {i : ℕ}
    {c : χ} (h : s.call serve i c = some t) :
    ∃ name o k r, s.procs[i]? = some (name, .call o k) ∧
      serve name c o s.store = some (r, t.store) ∧ t.procs = s.procs.set i (name, k r) := by
  obtain ⟨⟨name, p⟩, hi, h⟩ := Option.bind_eq_some_iff.mp h
  cases p with
  | done a => cases h
  | call o k =>
    obtain ⟨⟨r, store⟩, hserve, h⟩ := Option.bind_eq_some_iff.mp h
    cases h
    exact ⟨name, o, k, r, hi, hserve, rfl⟩

end Shared

end Program
