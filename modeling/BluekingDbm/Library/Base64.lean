import Mathlib.Data.List.Basic

/-! The standard base64 encoding with padding, and its decoder. -/
namespace Base64

abbrev Bytes := List UInt8

def pad : UInt8 := 61

/-- The letter of a sextet. -/
def symbol (n : ℕ) : UInt8 :=
  if n < 26 then UInt8.ofNat (65 + n)
  else if n < 52 then UInt8.ofNat (97 + (n - 26))
  else if n < 62 then UInt8.ofNat (48 + (n - 52))
  else if n = 62 then 43 else 47

def value (c : UInt8) : Option ℕ :=
  if 65 ≤ c.toNat ∧ c.toNat ≤ 90 then some (c.toNat - 65)
  else if 97 ≤ c.toNat ∧ c.toNat ≤ 122 then some (c.toNat - 97 + 26)
  else if 48 ≤ c.toNat ∧ c.toNat ≤ 57 then some (c.toNat - 48 + 52)
  else if c = 43 then some 62
  else if c = 47 then some 63
  else none

def encode : Bytes → Bytes
  | a :: b :: c :: rest =>
    symbol (a.toNat / 4) :: symbol (a.toNat % 4 * 16 + b.toNat / 16) ::
      symbol (b.toNat % 16 * 4 + c.toNat / 64) :: symbol (c.toNat % 64) :: encode rest
  | [a, b] =>
    [symbol (a.toNat / 4), symbol (a.toNat % 4 * 16 + b.toNat / 16), symbol (b.toNat % 16 * 4), pad]
  | [a] => [symbol (a.toNat / 4), symbol (a.toNat % 4 * 16), pad, pad]
  | [] => []

def fstByte (p q : ℕ) : UInt8 := UInt8.ofNat (p * 4 + q / 16)

def sndByte (q r : ℕ) : UInt8 := UInt8.ofNat (q % 16 * 16 + r / 4)

def thdByte (r s : ℕ) : UInt8 := UInt8.ofNat (r % 4 * 64 + s)

/-- Padding may stand in the last quantum only. -/
def decodeQuanta : Bytes → Option Bytes
  | a :: b :: c :: d :: rest => do
    let p ← value a
    let q ← value b
    if rest = [] ∧ d = pad then
      if c = pad then some [fstByte p q]
      else
        let r ← value c
        some [fstByte p q, sndByte q r]
    else
      let r ← value c
      let s ← value d
      let bytes ← decodeQuanta rest
      some (fstByte p q :: sndByte q r :: thdByte r s :: bytes)
  | [] => some []
  | _ => none

/-- Line ends are skipped. -/
def decode (text : Bytes) : Option Bytes :=
  decodeQuanta (text.filter fun c => c != 10 && c != 13)

/-- No letter of the alphabet is a line end, padding or a star. -/
theorem symbol_plain : ∀ n < 64, symbol n ≠ 10 ∧ symbol n ≠ 13 ∧ symbol n ≠ pad ∧ symbol n ≠ 42 := by
  decide

theorem value_symbol : ∀ n < 64, value (symbol n) = some n := by decide

theorem fstByte_eq (a : UInt8) {x : ℕ} (hx : x < 16) :
    fstByte (a.toNat / 4) (a.toNat % 4 * 16 + x) = a := by
  have hlt := a.toNat_lt
  have h : a.toNat / 4 * 4 + (a.toNat % 4 * 16 + x) / 16 = a.toNat := by omega
  rw [fstByte, h, UInt8.ofNat_toNat]

theorem sndByte_eq (b : UInt8) (x : ℕ) {y : ℕ} (hy : y < 4) :
    sndByte (x * 16 + b.toNat / 16) (b.toNat % 16 * 4 + y) = b := by
  have hlt := b.toNat_lt
  have h : (x * 16 + b.toNat / 16) % 16 * 16 + (b.toNat % 16 * 4 + y) / 4 = b.toNat := by omega
  rw [sndByte, h, UInt8.ofNat_toNat]

theorem thdByte_eq (c : UInt8) (x : ℕ) : thdByte (x * 4 + c.toNat / 64) (c.toNat % 64) = c := by
  have hlt := c.toNat_lt
  have h : (x * 4 + c.toNat / 64) % 4 * 64 + c.toNat % 64 = c.toNat := by omega
  rw [thdByte, h, UInt8.ofNat_toNat]

/-- What holds of the symbols and of the padding holds of the text. -/
theorem encode_forall {P : UInt8 → Prop} (hsymbol : ∀ n < 64, P (symbol n)) (hpad : P pad)
    (bytes : Bytes) : ∀ c ∈ encode bytes, P c := by
  fun_induction encode bytes with
  | case1 a b c rest ih =>
    have ha := a.toNat_lt
    have hb := b.toNat_lt
    have hc := c.toNat_lt
    simp only [List.mem_cons]
    rintro x (rfl | rfl | rfl | rfl | hx)
    · exact hsymbol _ (by omega)
    · exact hsymbol _ (by omega)
    · exact hsymbol _ (by omega)
    · exact hsymbol _ (by omega)
    · exact ih x hx
  | case2 a b =>
    have ha := a.toNat_lt
    have hb := b.toNat_lt
    simp only [List.mem_cons, List.not_mem_nil, or_false]
    rintro x (rfl | rfl | rfl | rfl)
    · exact hsymbol _ (by omega)
    · exact hsymbol _ (by omega)
    · exact hsymbol _ (by omega)
    · exact hpad
  | case3 a =>
    have ha := a.toNat_lt
    simp only [List.mem_cons, List.not_mem_nil, or_false]
    rintro x (rfl | rfl | rfl | rfl)
    · exact hsymbol _ (by omega)
    · exact hsymbol _ (by omega)
    · exact hpad
    · exact hpad
  | case4 => simp

theorem encode_plain (bytes : Bytes) : ∀ c ∈ encode bytes, c ≠ 10 ∧ c ≠ 13 ∧ c ≠ 42 := by
  refine encode_forall ?_ (by decide) bytes
  intro n hn
  obtain ⟨h10, h13, -, h42⟩ := symbol_plain n hn
  exact ⟨h10, h13, h42⟩

theorem decodeQuanta_encode (bytes : Bytes) : decodeQuanta (encode bytes) = some bytes := by
  fun_induction encode bytes with
  | case1 a b c rest ih =>
    have ha := a.toNat_lt
    have hb := b.toNat_lt
    have hc := c.toNat_lt
    have hnopad := (symbol_plain (c.toNat % 64) (by omega)).2.2.1
    rw [decodeQuanta, value_symbol _ (by omega), value_symbol _ (by omega),
      value_symbol _ (by omega), value_symbol _ (by omega)]
    simp [hnopad, ih, fstByte_eq a (show b.toNat / 16 < 16 by omega),
      sndByte_eq b (a.toNat % 4) (show c.toNat / 64 < 4 by omega), thdByte_eq]
  | case2 a b =>
    have ha := a.toNat_lt
    have hb := b.toNat_lt
    have hnopad := (symbol_plain (b.toNat % 16 * 4) (by omega)).2.2.1
    have hsnd := sndByte_eq b (a.toNat % 4) (show 0 < 4 by omega)
    rw [decodeQuanta, value_symbol _ (by omega), value_symbol _ (by omega),
      value_symbol _ (by omega)]
    simpa [hnopad, fstByte_eq a (show b.toNat / 16 < 16 by omega)] using hsnd
  | case3 a =>
    have ha := a.toNat_lt
    have hfst := fstByte_eq a (show 0 < 16 by omega)
    rw [decodeQuanta, value_symbol _ (by omega), value_symbol _ (by omega)]
    simpa using hfst
  | case4 => rfl

theorem decode_encode (bytes : Bytes) : decode (encode bytes) = some bytes := by
  have hfilter : (encode bytes).filter (fun c => c != 10 && c != 13) = encode bytes := by
    refine List.filter_eq_self.mpr ?_
    intro c hc
    obtain ⟨h10, h13, -⟩ := encode_plain bytes c hc
    simp [h10, h13]
  rw [decode, hfilter, decodeQuanta_encode]

end Base64
