import BluekingDbm.Library.Calendar

/-! The texts of moments in the layout `2006-01-02T15:04:05Z07:00`, and their order. -/
namespace Timestamp

open Calendar

/-- The day from which Unix time counts its seconds. -/
def epoch : ℕ := 719528

/-- Seconds from UTC, less than a day. -/
abbrev Offset := { offset : ℤ // -86400 < offset ∧ offset < 86400 }

/-- The time of the day. -/
def clock (second : ℕ) : List Char :=
  Padded.digits 2 (second / 3600) ++ ':' :: (Padded.digits 2 (second / 60 % 60) ++
    ':' :: Padded.digits 2 (second % 60))

/-- `Z07:00`. -/
def zone (offset : ℤ) : List Char :=
  if offset = 0 then ['Z']
  else
    (if offset ≤ -60 then '-' else '+') :: (Padded.digits 2 (offset.natAbs / 3600) ++
      ':' :: Padded.digits 2 (offset.natAbs / 60 % 60))

/-- The day that a clock with this offset shows, and the second of the day. -/
def wallDay (offset seconds : ℤ) : ℕ := ((seconds + offset) / 86400 + epoch).toNat
def wallSecond (offset seconds : ℤ) : ℕ := ((seconds + offset) % 86400).toNat

def rfc3339 (offset seconds : ℤ) : String :=
  String.ofList ((ofDays (wallDay offset seconds)).dashed ++
    'T' :: (clock (wallSecond offset seconds) ++ zone offset))

variable {second second' : ℕ} {offset seconds seconds' : ℤ}

theorem clock_lt_iff (h : second < 86400) (h' : second' < 86400) :
    clock second < clock second' ↔ second < second' := by
  have hlength : ∀ {n : ℕ}, n < 10 ^ 2 → (Padded.digits 2 n).length = 2 :=
    fun hn => Padded.length_digits (by omega) hn
  have hcolon : ∀ cs ds : List Char, ':' :: cs < ':' :: ds ↔ cs < ds := by
    intro cs ds
    simp
  have heq : ∀ {m n : ℕ}, Padded.digits 2 m = Padded.digits 2 n ↔ m = n :=
    ⟨Padded.digits_injective, fun hsame => hsame ▸ rfl⟩
  have hsize : ∀ n : ℕ, n < 86400 → n / 3600 < 10 ^ 2 ∧ n / 60 % 60 < 10 ^ 2 ∧ n % 60 < 10 ^ 2 := by
    intro n hn
    omega
  obtain ⟨hhour, hminute, hrest⟩ := hsize second h
  obtain ⟨hhour', hminute', hrest'⟩ := hsize second' h'
  rw [clock, clock, Padded.append_lt_append_iff ((hlength hhour).trans (hlength hhour').symm), hcolon,
    Padded.append_lt_append_iff ((hlength hminute).trans (hlength hminute').symm), hcolon,
    Padded.digits_lt_iff (by omega) hhour hhour', Padded.digits_lt_iff (by omega) hminute hminute',
    Padded.digits_lt_iff (by omega) hrest hrest', heq, heq]
  omega

theorem length_clock (h : second < 86400) : (clock second).length = 8 := by
  have hlength : ∀ {n : ℕ}, n < 10 ^ 2 → (Padded.digits 2 n).length = 2 :=
    fun hn => Padded.length_digits (by omega) hn
  rw [clock, List.length_append, List.length_cons, List.length_append, List.length_cons,
    hlength (show second / 3600 < 10 ^ 2 by omega), hlength (show second / 60 % 60 < 10 ^ 2 by omega),
    hlength (show second % 60 < 10 ^ 2 by omega)]

/-- In one zone, and while years have four digits, the texts are ordered as the moments. -/
theorem rfc3339_lt_iff (h : Dated (wallDay offset seconds)) (h' : Dated (wallDay offset seconds')) :
    rfc3339 offset seconds < rfc3339 offset seconds' ↔ seconds < seconds' := by
  have hday : ∀ {day : ℕ}, Dated day → (ofDays day).dashed.length = 10 := by
    intro day hdated
    obtain ⟨hyear, hmonth, hrest⟩ := hdated.lengths
    simp [Date.dashed, hyear, hmonth, hrest]
  have hsecond : ∀ seconds : ℤ, wallSecond offset seconds < 86400 := by
    intro seconds
    unfold wallSecond
    omega
  have hdate : ∀ {a b : ℕ}, Dated a → Dated b → ((ofDays a).dashed = (ofDays b).dashed ↔ a = b) := by
    intro a b ha hb
    constructor
    · intro heq
      have hlt := dashed_lt_iff ha hb
      have hgt := dashed_lt_iff hb ha
      rw [heq] at hlt hgt
      simp only [lt_irrefl, false_iff] at hlt hgt
      omega
    · exact fun heq => heq ▸ rfl
  have hT : ∀ cs ds : List Char, 'T' :: cs < 'T' :: ds ↔ cs < ds := by
    intro cs ds
    simp
  have hclock := (length_clock (hsecond seconds)).trans (length_clock (hsecond seconds')).symm
  rw [rfc3339, rfc3339, String.lt_iff, String.toList_ofList, String.toList_ofList,
    Padded.append_lt_append_iff ((hday h).trans (hday h').symm), hT,
    Padded.append_lt_append_iff hclock, dashed_lt_iff h h', hdate h h',
    clock_lt_iff (hsecond seconds) (hsecond seconds')]
  simp only [lt_irrefl, and_false, or_false]
  have hfirst := h.1
  have hfirst' := h'.1
  unfold firstDay at hfirst hfirst'
  unfold wallDay at hfirst hfirst' ⊢
  unfold wallSecond
  omega

theorem rfc3339_le (h : Dated (wallDay offset seconds)) (h' : Dated (wallDay offset seconds'))
    (hle : seconds ≤ seconds') : rfc3339 offset seconds ≤ rfc3339 offset seconds' := by
  rw [← not_lt, rfc3339_lt_iff h' h]
  omega

end Timestamp
