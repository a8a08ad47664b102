import Mathlib.Data.List.Count

/-! A command is sent again after an error, as long as tries are left for errors of either kind. -/
namespace Retry

variable {ε α : Type*}

/-- The errors of each kind that were counted, and what the last try brought. -/
structure Tries (ε α : Type*) where
  others : ℕ
  lates : ℕ
  last : Option (Except ε α)

variable {isLate : ε → Bool} {maxOthers maxLates others lates : ℕ} {replies : ℕ → Except ε α}
  {t : Tries ε α} {a : α}

/-- The replies to the tries from now on come from `replies`. -/
def send (isLate : ε → Bool) (maxOthers maxLates : ℕ) (replies : ℕ → Except ε α) (t : Tries ε α) :
    Tries ε α :=
  if t.others < maxOthers ∧ t.lates < maxLates then
    match replies 0 with
    | .ok a => { t with last := some (.ok a) }
    | .error e =>
      if isLate e then
        send isLate maxOthers maxLates (fun i => replies (i + 1)) ⟨t.others, t.lates + 1, some (.error e)⟩
      else
        send isLate maxOthers maxLates (fun i => replies (i + 1)) ⟨t.others + 1, t.lates, some (.error e)⟩
  else t
termination_by maxOthers - t.others + (maxLates - t.lates)

/-- Whether a reply is an error of the one kind. -/
def late (isLate : ε → Bool) (reply : Except ε α) : Bool :=
  match reply with
  | .ok _ => false
  | .error e => isLate e

/-- Some try is answered, before the errors of either kind have used up what is left for them. -/
def Taken (isLate : ε → Bool) (others lates : ℕ) (replies : ℕ → Except ε α) (a : α) : Prop :=
  ∃ k, (∀ i < k, ∃ e, replies i = .error e) ∧ replies k = .ok a ∧
    ((List.range k).countP fun i => !late isLate (replies i)) < others ∧
    ((List.range k).countP fun i => late isLate (replies i)) < lates

theorem taken_of_ok (h : replies 0 = .ok a) (hothers : 0 < others) (hlates : 0 < lates) :
    Taken isLate others lates replies a :=
  ⟨0, fun i hi => (Nat.not_lt_zero i hi).elim, h, by simpa using hothers, by simpa using hlates⟩

/-- After an error the rest of the replies has to answer with one try less. -/
theorem taken_of_error {e : ε} (h : replies 0 = .error e) : Taken isLate others lates replies a ↔
    Taken isLate (if isLate e then others else others - 1) (if isLate e then lates - 1 else lates)
      (fun i => replies (i + 1)) a := by
  have hcount : ∀ (p : Except ε α → Bool) k, ((List.range (k + 1)).countP fun i => p (replies i)) =
      ((List.range k).countP fun i => p (replies (i + 1))) + if p (.error e) then 1 else 0 := by
    intro p k
    rw [List.range_succ_eq_map, List.countP_cons, List.countP_map, h]
    rfl
  have hkind : late isLate (.error e : Except ε α) = isLate e := rfl
  constructor
  · rintro ⟨k, herr, hok, hothers, hlates⟩
    cases k with
    | zero =>
      rw [h] at hok
      cases hok
    | succ k =>
      rw [hcount fun reply => !late isLate reply] at hothers
      rw [hcount fun reply => late isLate reply] at hlates
      rw [hkind] at hothers hlates
      refine ⟨k, fun i hi => herr (i + 1) (by omega), hok, ?_, ?_⟩
      · cases hlate : isLate e <;> simp [hlate] at hothers ⊢ <;> omega
      · cases hlate : isLate e <;> simp [hlate] at hlates ⊢ <;> omega
  · rintro ⟨k, herr, hok, hothers, hlates⟩
    refine ⟨k + 1, ?_, hok, ?_, ?_⟩
    · intro i hi
      cases i with
      | zero => exact ⟨e, h⟩
      | succ i => exact herr i (by omega)
    · rw [hcount fun reply => !late isLate reply, hkind]
      cases hlate : isLate e <;> simp [hlate] at hothers ⊢ <;> omega
    · rw [hcount fun reply => late isLate reply, hkind]
      cases hlate : isLate e <;> simp [hlate] at hlates ⊢ <;> omega

theorem not_taken_of_none (h : others = 0 ∨ lates = 0) : ¬ Taken isLate others lates replies a := by
  rintro ⟨k, -, -, hothers, hlates⟩
  omega

/-- The loop brings an answer just when some try is answered in time. -/
theorem send_eq_ok (hlast : t.last ≠ some (.ok a)) :
    (send isLate maxOthers maxLates replies t).last = some (.ok a) ↔
      Taken isLate (maxOthers - t.others) (maxLates - t.lates) replies a := by
  fun_induction send isLate maxOthers maxLates replies t with
  | case1 replies t hleft b hreply =>
    constructor
    · intro h
      cases h
      exact taken_of_ok hreply (by omega) (by omega)
    · rintro ⟨k, herr, hok, -⟩
      cases k with
      | zero =>
        rw [hreply] at hok
        cases hok
        rfl
      | succ k =>
        obtain ⟨e, he⟩ := herr 0 (by omega)
        rw [hreply] at he
        cases he
  | case2 replies t hleft e hreply hlate ih =>
    rw [ih nofun, taken_of_error hreply]
    simp only [hlate, if_true, Nat.sub_sub]
  | case3 replies t hleft e hreply hlate ih =>
    rw [ih nofun, taken_of_error hreply]
    simp only [hlate, Nat.sub_sub]
    rfl
  | case4 replies t hleft =>
    constructor
    · intro h
      exact absurd h hlast
    · intro h
      exact absurd h (not_taken_of_none (by omega))

end Retry
