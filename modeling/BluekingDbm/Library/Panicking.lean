import Mathlib.Data.Int.Basic
import Mathlib.Data.List.Basic

/-! Calls that return a value, return an error or panic, as Go's do. -/

inductive Panicking (ε α : Type)
  | done (a : α)
  | failed (e : ε)
  | panicked
  deriving DecidableEq

namespace Panicking

variable {ε α β : Type}

def bind (x : Panicking ε α) (f : α → Panicking ε β) : Panicking ε β :=
  match x with
  | .done a => f a
  | .failed e => .failed e
  | .panicked => .panicked

instance : Monad (Panicking ε) where
  pure := .done
  bind := bind

/-- Reading a slice panics outside its bounds. -/
def index (xs : List α) (i : ℤ) : Panicking ε α :=
  if 0 ≤ i then
    match xs[i.toNat]? with
    | some x => .done x
    | none => .panicked
  else .panicked

def ofOption (e : ε) : Option α → Panicking ε α
  | some a => .done a
  | none => .failed e

/-- The value, or a default where there is an error. -/
def orElse (a : α) : Panicking ε α → Panicking ε α
  | .failed _ => .done a
  | x => x

variable {x : Panicking ε α} {f : α → Panicking ε β} {a : α} {b : β} {e : ε} {xs : List α} {i : ℤ}

@[simp] theorem pure_eq_done : (pure a : Panicking ε α) = .done a := rfl

@[simp] theorem done_bind : (.done a >>= f) = f a := rfl

@[simp] theorem failed_bind : (Panicking.failed e >>= f) = .failed e := rfl

@[simp] theorem panicked_bind : (Panicking.panicked >>= f) = .panicked := rfl

theorem bind_eq_done : (x >>= f) = .done b ↔ ∃ a, x = .done a ∧ f a = .done b := by
  cases x with
  | done a => simp
  | failed e => simp
  | panicked => simp

theorem bind_eq_panicked :
    (x >>= f) = .panicked ↔ x = .panicked ∨ ∃ a, x = .done a ∧ f a = .panicked := by
  cases x with
  | done a => simp
  | failed e => simp
  | panicked => simp

theorem ofOption_ne_panicked (o : Option α) : ofOption e o ≠ .panicked := by
  cases o with
  | none => simp [ofOption]
  | some a => simp [ofOption]

theorem index_of_lt (h : 0 ≤ i) (hlt : i.toNat < xs.length) :
    (index xs i : Panicking ε α) = .done xs[i.toNat] := by
  rw [index, if_pos h, List.getElem?_eq_getElem hlt]

end Panicking
