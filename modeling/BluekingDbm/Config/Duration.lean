import BluekingDbm.Library.Binary
import BluekingDbm.Library.FloatText

/-! Durations as text: numbers with units, added up to nanoseconds. -/
namespace Config

open Binary64

inductive DurationError
  | invalid (orig : String)
  | missingUnit (orig : String)
  | unknownUnit (unit orig : String)
  deriving DecidableEq

/-- The units in nanoseconds. -/
def unitMap : List (String × ℕ) :=
  [("ns", 1), ("us", 10 ^ 3), ("µs", 10 ^ 3), ("μs", 10 ^ 3), ("ms", 10 ^ 6), ("s", 10 ^ 9),
    ("m", 60 * 10 ^ 9), ("h", 3600 * 10 ^ 9), ("d", 24 * 3600 * 10 ^ 9), ("w", 168 * 3600 * 10 ^ 9)]

def maxInt64 : ℕ := 2 ^ 63 - 1

/-- The digits at the front; none where they overflow. -/
def leadingInt (x : ℕ) : List Char → Option (ℕ × List Char)
  | [] => some (x, [])
  | c :: cs =>
    if c.isDigit then
      if maxInt64 / 10 < x then none
      else if maxInt64 < 10 * x + (c.toNat - 48) then none
      else leadingInt (10 * x + (c.toNat - 48)) cs
    else some (x, c :: cs)

/-- The digits of a fraction and the power of ten that they are over: after an overflow the rest is only
skipped. -/
def leadingFraction (x : ℕ) (scale : ℚ) (overflow : Bool) : List Char → ℕ × ℚ × List Char
  | [] => (x, scale, [])
  | c :: cs =>
    if c.isDigit then
      if overflow = true ∨ maxInt64 / 10 < x ∨ maxInt64 < 10 * x + (c.toNat - 48) then
        leadingFraction x scale true cs
      else leadingFraction (10 * x + (c.toNat - 48)) (rounded (10 * scale)) false cs
    else (x, scale, c :: cs)

/-- `int64` of a number that is not negative. -/
def truncated (q : ℚ) : ℕ := ⌊q⌋.toNat

def unitChar (c : Char) : Bool := c ≠ '.' && !c.isDigit

/-- One number and its unit: its value and what follows. -/
def durationPart (orig : String) (s : List Char) : Except DurationError (ℕ × List Char) :=
  if s.head?.any (fun c => c = '.' || c.isDigit) then
    match leadingInt 0 s with
    | none => .error (.invalid orig)
    | some (v, afterInt) =>
      let (f, scale, afterFraction, post) :=
        match afterInt with
        | '.' :: cs =>
          let (f, scale, rest) := leadingFraction 0 1 false cs
          (f, scale, rest, decide (rest.length ≠ cs.length))
        | cs => (0, 1, cs, false)
      if afterInt.length = s.length ∧ post = false then .error (.invalid orig)
      else
        let u := String.ofList (afterFraction.takeWhile unitChar)
        if u = "" then .error (.missingUnit orig)
        else
          match unitMap.lookup u with
          | none => .error (.unknownUnit u orig)
          | some unit =>
            if maxInt64 / unit < v then .error (.invalid orig)
            else
              let v := v * unit + truncated (rounded (rounded f * rounded (unit / scale)))
              if maxInt64 < v then .error (.invalid orig)
              else .ok (v, afterFraction.dropWhile unitChar)
  else .error (.invalid orig)

theorem leadingInt_length {x v : ℕ} {s rest : List Char} (h : leadingInt x s = some (v, rest)) :
    rest.length ≤ s.length := by
  induction s generalizing x with
  | nil =>
    cases h
    exact le_rfl
  | cons c cs ih =>
    unfold leadingInt at h
    split_ifs at h
    · exact (ih h).trans (Nat.le_succ _)
    · cases h
      exact le_rfl

theorem leadingFraction_length (x : ℕ) (scale : ℚ) (overflow : Bool) (s : List Char) :
    (leadingFraction x scale overflow s).2.2.length ≤ s.length := by
  induction s generalizing x scale overflow with
  | nil => exact le_rfl
  | cons c cs ih =>
    unfold leadingFraction
    split_ifs
    · exact (ih _ _ _).trans (Nat.le_succ _)
    · exact (ih _ _ _).trans (Nat.le_succ _)
    · exact le_rfl

theorem dropWhile_shorter {s : List Char} {p : Char → Bool} (h : String.ofList (s.takeWhile p) ≠ "") :
    (s.dropWhile p).length < s.length := by
  have hne : s.takeWhile p ≠ [] := by
    intro hnil
    rw [hnil] at h
    exact h rfl
  have hlen := congrArg List.length (List.takeWhile_append_dropWhile (p := p) (l := s))
  rw [List.length_append] at hlen
  have hpos := List.length_pos_iff.mpr hne
  omega

/-- Each part takes some of the text. -/
theorem durationPart_shorter {orig : String} {s rest : List Char} {v : ℕ}
    (h : durationPart orig s = .ok (v, rest)) : rest.length < s.length := by
  unfold durationPart at h
  split at h
  · split at h
    · cases h
    · rename_i w afterInt hint
      have hafter := leadingInt_length hint
      split at h
      rename_i f scale afterFraction post hfraction
      have hrest : afterFraction.length ≤ afterInt.length := by
        split at hfraction
        · rename_i cs
          have hcs := leadingFraction_length 0 1 false cs
          cases hfraction
          exact hcs.trans (Nat.le_succ _)
        · cases hfraction
          exact le_rfl
      dsimp only at h
      split_ifs at h with hnone hu
      split at h
      · cases h
      · split_ifs at h
        cases h
        exact (dropWhile_shorter hu).trans_le (hrest.trans hafter)
  · cases h

/-- The sum of the parts. -/
def durationSum (orig : String) (d : ℕ) (s : List Char) : Except DurationError ℕ :=
  match s with
  | [] => .ok d
  | c :: cs =>
    match _h : durationPart orig (c :: cs) with
    | .error e => .error e
    | .ok (v, rest) =>
      if maxInt64 < d + v then .error (.invalid orig) else durationSum orig (d + v) rest
termination_by s.length
decreasing_by exact durationPart_shorter _h

/-- `parseDuration`, in nanoseconds. -/
def parseDuration (s : String) : Except DurationError ℤ :=
  let (neg, cs) := match s.toList with
    | '-' :: cs => (true, cs)
    | '+' :: cs => (false, cs)
    | cs => (false, cs)
  if cs = ['0'] then .ok 0
  else if cs = [] then .error (.invalid s)
  else (durationSum s 0 cs).map fun d => if neg then -(d : ℤ) else d

/-- `Seconds` of a duration, as an int. -/
def wholeSeconds (d : ℤ) : ℤ :=
  let q := rounded (rounded (d.tdiv (10 ^ 9)) + rounded (rounded (d.tmod (10 ^ 9)) / 10 ^ 9))
  if 0 ≤ q then ⌊q⌋ else ⌈q⌉

end Config
