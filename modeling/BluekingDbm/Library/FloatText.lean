import BluekingDbm.Library.Binary
import BluekingDbm.Library.Numeral

/-! `strconv.ParseFloat`: decimal and hexadecimal numbers, infinities and NaN. -/
namespace FloatText

open Text (decimal decimal_negSucc repr_isDigit)

inductive Number
  | nan
  | inf (neg : Bool)
  | exact (q : ℚ)
  deriving DecidableEq

/-- Only ASCII letters are lowered. -/
def lower (c : Char) : Char := if 'A' ≤ c ∧ c ≤ 'Z' then Char.ofNat (c.toNat + 32) else c

def digit (hex : Bool) (c : Char) : Option ℕ :=
  if c.isDigit then some (c.toNat - 48)
  else if hex ∧ 'a' ≤ lower c ∧ lower c ≤ 'f' then some ((lower c).toNat - 87)
  else none

/-- The digits at the front, with any underscores between them passed over. -/
def scanDigits (hex : Bool) : List Char → List ℕ × List Char
  | [] => ([], [])
  | c :: cs =>
    if c = '_' then scanDigits hex cs
    else
      match digit hex c with
      | some d => (d :: (scanDigits hex cs).1, (scanDigits hex cs).2)
      | none => ([], c :: cs)

/-- What the last character was, for `underscoreOK`. -/
inductive Seen
  | start
  | digit
  | underscore
  | other
  deriving DecidableEq

def underscoresFrom (hex : Bool) : Seen → List Char → Bool
  | seen, [] => seen ≠ .underscore
  | seen, c :: cs =>
    if (digit hex c).isSome then underscoresFrom hex .digit cs
    else if c = '_' then seen = .digit && underscoresFrom hex .underscore cs
    else seen ≠ .underscore && underscoresFrom hex .other cs

/-- Underscores stand between digits, or between a base prefix and a digit; the sign is gone already. -/
def underscoreOK : List Char → Bool
  | '0' :: c :: cs =>
    if lower c ∈ ['b', 'o', 'x'] then underscoresFrom (lower c = 'x') .digit cs
    else underscoresFrom false .start ('0' :: c :: cs)
  | cs => underscoresFrom false .start cs

def ofDigits (base : ℕ) (ds : List ℕ) : ℕ := ds.foldl (fun n d => base * n + d) 0

/-- An exponent stops growing when it is hopeless. -/
def ofExponent (ds : List ℕ) : ℕ := ds.foldl (fun e d => if e < 10000 then 10 * e + d else e) 0

/-- The exponent after its letter. -/
def exponent (cs : List Char) : Option ℤ :=
  let (neg, cs) := match cs with
    | '+' :: cs => (false, cs)
    | '-' :: cs => (true, cs)
    | cs => (false, cs)
  match cs with
  | [] => none
  | c :: _ =>
    if c.isDigit then
      let (ds, rest) := scanDigits false cs
      if rest = [] then some (if neg then -(ofExponent ds : ℤ) else ofExponent ds) else none
    else none

/-- The digits before and after the point, and what follows them. -/
def mantissa (hex : Bool) (cs : List Char) : List ℕ × List ℕ × List Char :=
  let (ds, rest) := scanDigits hex cs
  match rest with
  | '.' :: rest =>
    let (fs, rest) := scanDigits hex rest
    (ds, fs, rest)
  | rest => (ds, [], rest)

/-- Whether there is a hexadecimal prefix, and what follows it. -/
def basePrefix : List Char → Bool × List Char
  | '0' :: c :: c' :: cs => if lower c = 'x' then (true, c' :: cs) else (false, '0' :: c :: c' :: cs)
  | cs => (false, cs)

/-- A number without its sign. -/
def magnitude (cs : List Char) : Option ℚ :=
  let (hex, body) := basePrefix cs
  let base : ℕ := if hex then 16 else 10
  let (ds, fs, rest) := mantissa hex body
  if ds ++ fs = [] then none
  else if '_' ∈ cs ∧ underscoreOK cs = false then none
  else
    let q : ℚ := ofDigits base (ds ++ fs) / base ^ fs.length
    match rest with
    | [] => if hex then none else some q
    | c :: rest =>
      if lower c = (if hex then 'p' else 'e') then
        (exponent rest).map fun e => q * (if hex then 2 else 10) ^ e
      else none

def special (s : String) : Option Number :=
  match s.toList.map lower with
  | '+' :: cs => if String.ofList cs ∈ ["inf", "infinity"] then some (.inf false) else none
  | '-' :: cs => if String.ofList cs ∈ ["inf", "infinity"] then some (.inf true) else none
  | cs =>
    if String.ofList cs ∈ ["inf", "infinity"] then some (.inf false)
    else if String.ofList cs = "nan" then some .nan
    else none

/-- The exact number that a text writes. -/
def read (s : String) : Option Number :=
  match special s with
  | some n => some n
  | none =>
    match s.toList with
    | '+' :: cs => (magnitude cs).map .exact
    | '-' :: cs => (magnitude cs).map fun q => .exact (-q)
    | cs => (magnitude cs).map .exact

/-- `ParseFloat` with 32 bits: the number, and whether there is no error. A number that is out of range
becomes infinite. -/
def parseFloat32 (s : String) : Binary32.Value × Bool :=
  match read s with
  | none => (.finite 0, false)
  | some .nan => (.nan, true)
  | some (.inf neg) => (.inf neg, true)
  | some (.exact q) =>
    if 2 ^ 128 ≤ |Binary32.rounded q| then (.inf (q < 0), false)
    else (.finite (Binary32.rounded q), true)

/-- Whether `ParseFloat` with 64 bits has no error. -/
def parsesFloat64 (s : String) : Bool :=
  match read s with
  | none => false
  | some (.exact q) => |Binary64.rounded q| < 2 ^ 1024
  | some _ => true

section Decimals

variable {n : ℕ} {cs : List Char} {c : Char}

theorem digit_of_isDigit (hex : Bool) (h : c.isDigit = true) : digit hex c = some (c.toNat - 48) :=
  if_pos h

theorem lower_of_isDigit (h : c.isDigit = true) : lower c = c := by
  have hrange : 48 ≤ c.toNat ∧ c.toNat ≤ 57 := Char.isDigit_iff_toNat.mp h
  apply if_neg
  rintro ⟨hA, -⟩
  have hcode : 65 ≤ c.toNat := hA
  omega

theorem scanDigits_digits (hex : Bool) (h : ∀ c ∈ cs, c.isDigit = true) :
    scanDigits hex cs = (cs.map fun c => c.toNat - 48, []) := by
  induction cs with
  | nil => rfl
  | cons c cs ih =>
    obtain ⟨hc, hcs⟩ := List.forall_mem_cons.mp h
    have hne : c ≠ '_' := by
      rintro rfl
      exact absurd hc (by decide)
    rw [scanDigits, if_neg hne, digit_of_isDigit hex hc, ih hcs]
    rfl

theorem ofDigits_map (cs : List Char) :
    ofDigits 10 (cs.map fun c => c.toNat - 48) = Nat.ofDigitChars 10 cs 0 := by
  rw [ofDigits, List.foldl_map, Nat.ofDigitChars_eq_foldl]
  rfl

theorem basePrefix_digits (h : ∀ c ∈ cs, c.isDigit = true) : basePrefix cs = (false, cs) := by
  unfold basePrefix
  split
  · rename_i c c' cs
    have hc := h c (by simp)
    rw [lower_of_isDigit hc, if_neg]
    rintro rfl
    exact absurd hc (by decide)
  · rfl

/-- A number written with digits only. -/
theorem magnitude_digits (hne : cs ≠ []) (h : ∀ c ∈ cs, c.isDigit = true) :
    magnitude cs = some (Nat.ofDigitChars 10 cs 0 : ℚ) := by
  have hno : '_' ∉ cs := fun hmem => absurd (h '_' hmem) (by decide)
  have hdigits : cs.map (fun c => c.toNat - 48) ≠ [] := by simpa using hne
  have hparts : mantissa false cs = (cs.map (fun c => c.toNat - 48), [], []) := by
    rw [mantissa, scanDigits_digits false h]
  unfold magnitude
  rw [basePrefix_digits h]
  simp only [hparts, List.append_nil, if_neg hdigits, hno, false_and, if_false, Bool.false_eq_true]
  rw [ofDigits_map, List.length_nil, pow_zero, div_one]

theorem map_lower_digits (h : ∀ c ∈ cs, c.isDigit = true) : cs.map lower = cs := by
  induction cs with
  | nil => rfl
  | cons c cs ih =>
    obtain ⟨hc, hcs⟩ := List.forall_mem_cons.mp h
    rw [List.map_cons, lower_of_isDigit hc, ih hcs]

/-- Digits are no word. -/
theorem ofList_digits_ne (hne : cs ≠ []) (h : ∀ c ∈ cs, c.isDigit = true) {word : String}
    (hword : word.toList.all (fun c => !c.isDigit) = true) : String.ofList cs ≠ word := by
  rintro rfl
  obtain ⟨c, hc⟩ := List.exists_mem_of_ne_nil cs hne
  rw [String.toList_ofList] at hword
  have hnot := List.all_eq_true.mp hword c hc
  rw [h c hc] at hnot
  exact Bool.false_ne_true hnot

theorem ofList_digits_notMem (hne : cs ≠ []) (h : ∀ c ∈ cs, c.isDigit = true) :
    String.ofList cs ∉ ["inf", "infinity"] := by
  intro hmem
  simp only [List.mem_cons, List.not_mem_nil, or_false] at hmem
  rcases hmem with hmem | hmem
  · exact ofList_digits_ne hne h (by decide) hmem
  · exact ofList_digits_ne hne h (by decide) hmem

theorem read_natural (n : ℕ) : read n.repr = some (.exact n) := by
  have hdigit : ∀ c ∈ n.repr.toList, c.isDigit = true := fun c hc => repr_isDigit hc
  have hne := Text.repr_ne_nil n
  have hspecial : special n.repr = none := by
    unfold special
    rw [map_lower_digits hdigit]
    split
    · rename_i cs hcs
      exact absurd hcs (Numeral.no_sign hdigit (.inr rfl) cs)
    · rename_i cs hcs
      exact absurd hcs (Numeral.no_sign hdigit (.inl rfl) cs)
    · rw [if_neg (ofList_digits_notMem hne hdigit), if_neg (ofList_digits_ne hne hdigit (by decide))]
  have hvalue : magnitude n.repr.toList = some (n : ℚ) := by
    rw [magnitude_digits hne hdigit, Nat.toList_repr, Nat.ofDigitChars_ten_toDigits]
  unfold read
  rw [hspecial]
  dsimp only
  split
  · rename_i cs hcs
    exact absurd hcs (Numeral.no_sign hdigit (.inr rfl) cs)
  · rename_i cs hcs
    exact absurd hcs (Numeral.no_sign hdigit (.inl rfl) cs)
  · rw [hvalue]
    rfl

/-- A rendered integer is read back. -/
theorem read_decimal (m : ℤ) : read (decimal m) = some (.exact m) := by
  cases m with
  | ofNat n => exact read_natural n
  | negSucc n =>
    have hdigit : ∀ c ∈ (n + 1).repr.toList, c.isDigit = true := fun c hc => repr_isDigit hc
    have hne := Text.repr_ne_nil (n + 1)
    have hlist : (decimal (Int.negSucc n)).toList = '-' :: (n + 1).repr.toList := by
      rw [decimal_negSucc, String.toList_append]
      rfl
    have hlower : lower '-' = '-' := by decide
    have hspecial : special (decimal (Int.negSucc n)) = none := by
      unfold special
      rw [hlist, List.map_cons, hlower, map_lower_digits hdigit]
      exact if_neg (ofList_digits_notMem hne hdigit)
    have hvalue : magnitude (n + 1).repr.toList = some ((n + 1 : ℕ) : ℚ) := by
      rw [magnitude_digits hne hdigit, Nat.toList_repr, Nat.ofDigitChars_ten_toDigits]
    unfold read
    rw [hspecial, hlist]
    simp only [hvalue, Option.map_some]
    rw [Int.cast_negSucc]

/-- An integer of 64 bits is rounded, and in range. -/
theorem parseFloat32_decimal {m : ℤ} (hlow : -2 ^ 63 ≤ m) (hhigh : m ≤ 2 ^ 63) :
    parseFloat32 (decimal m) = (.finite (Binary32.rounded m), true) := by
  have habs : |(m : ℚ)| ≤ 2 ^ (63 : ℤ) := by
    rw [abs_le]
    constructor
    · exact_mod_cast hlow
    · exact_mod_cast hhigh
  have hround := Binary32.abs_rounded_le (by norm_num) habs
  have hin : ¬ 2 ^ 128 ≤ |Binary32.rounded (m : ℚ)| := by
    rw [not_le]
    exact hround.trans_lt (by norm_num)
  unfold parseFloat32
  rw [read_decimal]
  exact if_neg hin

end Decimals

end FloatText
