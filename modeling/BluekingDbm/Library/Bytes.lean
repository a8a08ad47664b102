import Mathlib.Algebra.Group.Nat.Defs
import Mathlib.Data.List.Basic

/-! Byte strings read as Go reads them: whatever lies outside of one is a panic. -/
namespace Bytes

/-- What code comes to that can fail or panic. -/
inductive Attempt (ε α : Type*)
  | ok (a : α)
  | error (e : ε)
  | panic
  deriving DecidableEq

namespace Attempt

variable {ε α β : Type*}

def bind (x : Attempt ε α) (f : α → Attempt ε β) : Attempt ε β :=
  match x with
  | .ok a => f a
  | .error e => .error e
  | .panic => .panic

@[simp] theorem ok_bind (a : α) (f : α → Attempt ε β) : (Attempt.ok a).bind f = f a := rfl

@[simp] theorem error_bind (e : ε) (f : α → Attempt ε β) :
    (Attempt.error e : Attempt ε α).bind f = .error e := rfl

/-- It ends with a value or an error. -/
def Safe (x : Attempt ε α) : Prop := x ≠ .panic

theorem safe_ok (a : α) : (Attempt.ok a : Attempt ε α).Safe := by
  intro h
  cases h

theorem safe_error (e : ε) : (Attempt.error e : Attempt ε α).Safe := by
  intro h
  cases h

theorem Safe.bind {x : Attempt ε α} {f : α → Attempt ε β} (hx : x.Safe)
    (hf : ∀ a, x = .ok a → (f a).Safe) : (x.bind f).Safe := by
  cases x with
  | ok a => exact hf a rfl
  | error e => exact safe_error e
  | panic => exact absurd rfl hx

end Attempt

/-- The bytes of a number, the lowest first. -/
def le : ℕ → ℕ → List UInt8
  | 0, _ => []
  | width + 1, n => UInt8.ofNat n :: le width (n / 256)

def ofLe : List UInt8 → ℕ
  | [] => 0
  | b :: bytes => b.toNat + 256 * ofLe bytes

/-- `b[lo:hi]`. -/
def slice {ε : Type*} (b : List UInt8) (lo hi : ℕ) : Attempt ε (List UInt8) :=
  if lo ≤ hi ∧ hi ≤ b.length then .ok ((b.drop lo).take (hi - lo)) else .panic

/-- `b[i]`. -/
def byteAt {ε : Type*} (b : List UInt8) (i : ℕ) : Attempt ε UInt8 :=
  match b[i]? with
  | some c => .ok c
  | none => .panic

/-- `binary.LittleEndian.Uint64(b[lo:lo+8])`. -/
def uint64At {ε : Type*} (b : List UInt8) (lo : ℕ) : Attempt ε UInt64 :=
  (slice b lo (lo + 8)).bind fun bytes => .ok (UInt64.ofNat (ofLe bytes))

/-- `binary.LittleEndian.Uint32(b[lo:lo+4])`. -/
def uint32At {ε : Type*} (b : List UInt8) (lo : ℕ) : Attempt ε UInt32 :=
  (slice b lo (lo + 4)).bind fun bytes => .ok (UInt32.ofNat (ofLe bytes))

/-- What `io.ReadFull` finds. -/
inductive Reading
  | eof
  | cut (n : ℕ)
  | full (head rest : List UInt8)

def readFull (n : ℕ) (bytes : List UInt8) : Reading :=
  if n ≤ bytes.length then .full (bytes.take n) (bytes.drop n)
  else if bytes = [] then .eof
  else .cut bytes.length

variable {ε : Type*} {b pre mid post head rest : List UInt8} {lo hi n : ℕ}

@[simp] theorem length_le (width n : ℕ) : (le width n).length = width := by
  induction width generalizing n with
  | zero => rfl
  | succ width ih => exact congrArg Nat.succ (ih (n / 256))

theorem ofLe_le (width n : ℕ) : ofLe (le width n) = n % 256 ^ width := by
  induction width generalizing n with
  | zero =>
    rw [Nat.pow_zero, Nat.mod_one]
    rfl
  | succ width ih =>
    have hbyte : (UInt8.ofNat n).toNat = n % 256 := UInt8.toNat_ofNat'
    have hpow : 256 ^ (width + 1) = 256 * 256 ^ width := by rw [Nat.pow_succ, Nat.mul_comm]
    rw [le, ofLe, ih, hbyte, hpow, Nat.mod_mul]

theorem slice_ok (hlo : lo ≤ hi) (hhi : hi ≤ b.length) :
    slice b lo hi = (.ok ((b.drop lo).take (hi - lo)) : Attempt ε _) := if_pos ⟨hlo, hhi⟩

theorem slice_safe (hlo : lo ≤ hi) (hhi : hi ≤ b.length) :
    (slice b lo hi : Attempt ε _).Safe := by
  rw [slice_ok hlo hhi]
  exact Attempt.safe_ok _

/-- What lies between two parts is the slice between their bounds. -/
theorem slice_append (hb : b = pre ++ (mid ++ post)) (hlo : pre.length = lo)
    (hhi : lo + mid.length = hi) : slice b lo hi = (.ok mid : Attempt ε _) := by
  subst hb
  subst hlo
  rw [slice_ok (by omega) (by simp; omega), List.drop_left]
  have hlength : hi - pre.length = mid.length := by omega
  rw [hlength, List.take_left]

theorem uint64At_safe (h : lo + 8 ≤ b.length) : (uint64At b lo : Attempt ε _).Safe := by
  rw [uint64At, slice_ok (by omega) h]
  exact Attempt.safe_ok _

theorem uint32At_safe (h : lo + 4 ≤ b.length) : (uint32At b lo : Attempt ε _).Safe := by
  rw [uint32At, slice_ok (by omega) h]
  exact Attempt.safe_ok _

theorem byteAt_safe (h : n < b.length) : (byteAt b n : Attempt ε _).Safe := by
  rw [byteAt, List.getElem?_eq_getElem h]
  exact Attempt.safe_ok _

theorem ofNat_le_uint64 (x : UInt64) : UInt64.ofNat (ofLe (le 8 x.toNat)) = x := by
  have hfits : x.toNat < 256 ^ 8 := x.toNat_lt
  rw [ofLe_le, Nat.mod_eq_of_lt hfits, UInt64.ofNat_toNat]

theorem ofNat_le_uint32 (x : UInt32) : UInt32.ofNat (ofLe (le 4 x.toNat)) = x := by
  have hfits : x.toNat < 256 ^ 4 := x.toNat_lt
  rw [ofLe_le, Nat.mod_eq_of_lt hfits, UInt32.ofNat_toNat]

theorem uint64At_append (x : UInt64) (hb : b = pre ++ (le 8 x.toNat ++ post))
    (hlo : pre.length = lo) : uint64At b lo = (.ok x : Attempt ε _) := by
  rw [uint64At, slice_append hb hlo (by rw [length_le]), Attempt.ok_bind, ofNat_le_uint64]

theorem uint32At_append (x : UInt32) (hb : b = pre ++ (le 4 x.toNat ++ post))
    (hlo : pre.length = lo) : uint32At b lo = (.ok x : Attempt ε _) := by
  rw [uint32At, slice_append hb hlo (by rw [length_le]), Attempt.ok_bind, ofNat_le_uint32]

theorem readFull_append (h : head.length = n) : readFull n (head ++ rest) = .full head rest := by
  subst h
  rw [readFull, if_pos (by simp), List.take_left, List.drop_left]

theorem readFull_full (h : readFull n b = .full head rest) :
    head.length = n ∧ b = head ++ rest := by
  unfold readFull at h
  split at h
  · rename_i hn
    obtain ⟨rfl, rfl⟩ := Reading.full.inj h
    exact ⟨List.length_take_of_le hn, (List.take_append_drop n b).symm⟩
  · split at h <;> cases h

theorem readFull_short (hne : b ≠ []) (h : b.length < n) : readFull n b = .cut b.length := by
  rw [readFull, if_neg (by omega), if_neg hne]

end Bytes

/-! The IEEE CRC-32 of a sequence of bytes, least significant bit first. -/
namespace Crc32

def polynomial : BitVec 32 := 0xEDB88320

def bitStep (crc : BitVec 32) : BitVec 32 :=
  if crc &&& 1 = 1 then (crc >>> 1) ^^^ polynomial else crc >>> 1

def byteStep (crc : BitVec 32) (byte : UInt8) : BitVec 32 :=
  Nat.repeat bitStep 8 (crc ^^^ byte.toBitVec.setWidth 32)

/-- The register after more bytes. -/
def update (crc : BitVec 32) (bytes : List UInt8) : BitVec 32 := bytes.foldl byteStep crc

def checksum (bytes : List UInt8) : BitVec 32 := ~~~update (BitVec.allOnes 32) bytes

/-- The register carries all that the bytes so far contribute. -/
theorem update_append (crc : BitVec 32) (xs ys : List UInt8) :
    update crc (xs ++ ys) = update (update crc xs) ys := List.foldl_append

theorem checksum_append (xs ys : List UInt8) :
    checksum (xs ++ ys) = ~~~update (update (BitVec.allOnes 32) xs) ys := by
  rw [checksum, update_append]

/-- The check value of the standard. -/
example : checksum [49, 50, 51, 52, 53, 54, 55, 56, 57] = 0xCBF43926 := by decide +kernel

end Crc32
