import BluekingDbm.Restore.Filter
import Mathlib.Data.List.Chain
import Mathlib.Data.List.Nodup

/-! The binlogs of one instance, and the order that their names have. -/
namespace Restore

/-- A binlog with its number and the Unix times of its first and its last event. -/
structure Binlog where
  number : ℕ
  startTime : ℕ
  stopTime : ℕ
  fileSize : ℕ
  order : startTime ≤ stopTime
  timestamp : stopTime < 2 ^ 32

/-- A name as the server forms it: the number has at least six digits. -/
def Binlog.filename (base : String) (binlog : Binlog) : String :=
  base ++ "." ++ String.ofList (Padded.digits 6 binlog.number)

/-- Binlogs with consecutive numbers, none of which begins before the one in front of it ends. -/
structure Consecutive (binlogs : List Binlog) : Prop where
  numbers : binlogs.IsChain fun a b => b.number = a.number + 1
  apart : binlogs.IsChain fun a b => a.stopTime ≤ b.startTime
  fits : ∀ binlog ∈ binlogs, binlog.number < 2 ^ 63

variable {base : String} {binlogs : List Binlog} {a b : Binlog} {names : List String}

theorem afterDot_filename (base : String) (binlog : Binlog) :
    Rotate.afterDot (binlog.filename base) = Padded.digits 6 binlog.number :=
  Padded.takeWhile_digits base 6 binlog.number

theorem numSuffix_filename (h : a.number < 2 ^ 63) : numSuffix (a.filename base) = a.number := by
  have hvalue : Nat.ofDigitChars 10 ((Padded.digits 6 a.number).dropWhile (· = '0')) 0 = a.number := by
    rw [Padded.ofDigitChars_dropWhile, Padded.ofDigitChars_digits]
  have hdigits : ∀ c ∈ (Padded.digits 6 a.number).dropWhile (· = '0'), c.isDigit = true := by
    intro c hc
    exact Padded.digits_isDigit ((List.dropWhile_sublist _).subset hc)
  rw [numSuffix, stringToInt, afterDot_filename, String.toList_ofList]
  generalize (Padded.digits 6 a.number).dropWhile (· = '0') = cs at *
  rcases cs with _ | ⟨c, cs⟩
  · -- a number zero has no digits left
    have hzero : a.number = 0 := hvalue.symm
    rw [hzero]
    rfl
  · have hne : String.ofList (c :: cs) ≠ "" := by
      intro hempty
      have hlist := congrArg String.toList hempty
      rw [String.toList_ofList] at hlist
      cases hlist
    rw [Numeral.atoi_digits hne (by rwa [String.toList_ofList]), String.toList_ofList, hvalue, if_pos h]
    rfl

theorem filename_ne_empty (base : String) (binlog : Binlog) : binlog.filename base ≠ "" := by
  intro hempty
  have hlist := congrArg String.toList hempty
  rw [Binlog.filename, String.toList_append, String.toList_append] at hlist
  simp at hlist

theorem filename_injective (h : a.filename base = b.filename base) : a.number = b.number := by
  have hdigits := congrArg Rotate.afterDot h
  rw [afterDot_filename, afterDot_filename] at hdigits
  exact Padded.digits_injective hdigits

theorem Consecutive.increasing (h : Consecutive binlogs) :
    binlogs.Pairwise fun a b => a.number < b.number := by
  have hchain : (binlogs.map Binlog.number).IsChain (· < ·) := by
    apply List.isChain_map_of_isChain _ _ h.numbers
    intro a b hab
    omega
  exact List.pairwise_map.mp hchain.pairwise

/-- A binlog ends before any later one begins. -/
theorem Consecutive.later (h : Consecutive binlogs) :
    binlogs.Pairwise fun a b => a.stopTime ≤ b.startTime := by
  have happart := h.apart
  clear h
  induction binlogs with
  | nil => exact .nil
  | cons a rest ih =>
    refine .cons ?_ (ih happart.tail)
    intro b hb
    induction rest generalizing a with
    | nil => cases hb
    | cons next rest ihr =>
      obtain ⟨hnext, htail⟩ := List.isChain_cons_cons.mp happart
      rcases List.mem_cons.mp hb with rfl | hb
      · exact hnext
      · have hlater := (List.pairwise_cons.mp (ih htail)).1 b hb
        have horder := next.order
        omega

/-- A binlog is found again by its number. -/
theorem Consecutive.number_inj (h : Consecutive binlogs) (ha : a ∈ binlogs) (hb : b ∈ binlogs)
    (heq : a.number = b.number) : a = b := by
  have hnodup : (binlogs.map Binlog.number).Nodup :=
    List.pairwise_map.mpr (h.increasing.imp fun hlt => Nat.ne_of_lt hlt)
  exact List.inj_on_of_nodup_map hnodup ha hb heq

/-- Names in any order are sorted to those of the binlogs. -/
theorem sort_names (h : Consecutive binlogs) (hnames : names.Perm (binlogs.map (Binlog.filename base))) :
    sortStringWithSuffixAsc names = binlogs.map (Binlog.filename base) := by
  have hperm : (sortStringWithSuffixAsc names).Perm (binlogs.map (Binlog.filename base)) :=
    (List.mergeSort_perm _ _).trans hnames
  have hsorted : (sortStringWithSuffixAsc names).Pairwise fun a b =>
      decide (numSuffix a ≤ numSuffix b) = true := by
    apply List.pairwise_mergeSort
    · intro a b c hab hbc
      exact decide_eq_true (le_trans (of_decide_eq_true hab) (of_decide_eq_true hbc))
    · intro a b
      simpa using le_total (numSuffix a) (numSuffix b)
  have hnumber : ∀ {a b}, a ∈ binlogs → b ∈ binlogs →
      (numSuffix (a.filename base) ≤ numSuffix (b.filename base) ↔ a.number ≤ b.number) := by
    intro a b ha hb
    rw [numSuffix_filename (h.fits a ha), numSuffix_filename (h.fits b hb), Int.ofNat_le]
  apply hperm.eq_of_pairwise _ hsorted
  · refine List.pairwise_map.mpr (h.increasing.imp_of_mem ?_)
    intro a b ha hb hlt
    exact decide_eq_true ((hnumber ha hb).mpr (Nat.le_of_lt hlt))
  · intro x y hx hy hxy hyx
    obtain ⟨a, ha, rfl⟩ := List.mem_map.mp (hperm.subset hx)
    obtain ⟨b, hb, rfl⟩ := List.mem_map.mp hy
    have hle := (hnumber ha hb).mp (of_decide_eq_true hxy)
    have hge := (hnumber hb ha).mp (of_decide_eq_true hyx)
    rw [h.number_inj ha hb (by omega)]

end Restore
