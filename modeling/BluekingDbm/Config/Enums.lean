import BluekingDbm.Config.ValidationPanic
import Mathlib.Tactic.Common

/-! Lists of allowed values where the kind of the allowed text has to be detected: sizes, durations and
numbers without sub type. -/
namespace Config

open FloatText Panicking Text

/-- The separators at which enumerations are split. -/
def isEnumSep (c : Char) : Bool := c = '|' || c = ','

/-- A value that a list can hold. -/
structure EnumValue (s : String) : Prop where
  nonempty : s ≠ ""
  noSep : ∀ c ∈ s.toList, isEnumSep c = false

/-- Values joined by separators. -/
def joinEnums (first : String) : List (Char × String) → String
  | [] => first
  | (sep, value) :: rest => first ++ String.singleton sep ++ joinEnums value rest

/-- The values listed, as they are compared. -/
def listed (first : String) (rest : List (Char × String)) : List String :=
  (first :: rest.map Prod.snd).map trimSpace

variable {env : Packages} {first value valueAllowed valueType : String} {rest : List (Char × String)}

theorem splitOnP_joinEnums (hseps : ∀ p ∈ rest, isEnumSep p.1 = true)
    (hvalues : ∀ s ∈ first :: rest.map Prod.snd, EnumValue s) :
    (joinEnums first rest).toList.splitOnP isEnumSep =
      (first :: rest.map Prod.snd).map String.toList := by
  induction rest generalizing first with
  | nil => exact List.splitOnP_eq_singleton (hvalues first List.mem_cons_self).noSep
  | cons p rest ih =>
    obtain ⟨sep, value⟩ := p
    have htext : (joinEnums first ((sep, value) :: rest)).toList =
        first.toList ++ sep :: (joinEnums value rest).toList := by
      simp [joinEnums]
    have htail := @ih value (fun p hp => hseps p (List.mem_cons_of_mem _ hp))
      fun s hs => hvalues s (List.mem_cons_of_mem _ hs)
    rw [htext, List.splitOnP_append_cons_of_forall_mem (hvalues first List.mem_cons_self).noSep sep
      (hseps _ List.mem_cons_self), htail]
    rfl

/-- The splitter reads the values back. -/
theorem parseExprEnums_joinEnums (hseps : ∀ p ∈ rest, isEnumSep p.1 = true)
    (hvalues : ∀ s ∈ first :: rest.map Prod.snd, EnumValue s) :
    parseExprEnums (joinEnums first rest) = listed first rest := by
  have hsplit := splitOnP_joinEnums hseps hvalues
  have hkept : ((first :: rest.map Prod.snd).map String.toList).filter (fun cs => !cs.isEmpty) =
      (first :: rest.map Prod.snd).map String.toList := by
    apply List.filter_eq_self.mpr
    intro cs hcs
    obtain ⟨s, hs, rfl⟩ := List.mem_map.mp hcs
    have hne : s.toList ≠ [] := fun h => (hvalues s hs).nonempty (String.toList_eq_nil_iff.mp h)
    simpa using hne
  change (((joinEnums first rest).toList.splitOnP isEnumSep).filter
    fun cs => !cs.isEmpty).map trimmed = _
  rw [hsplit, hkept, List.map_map]
  apply List.map_congr_left
  intro s _
  simp [trimmed]

/-- No value is empty, so no bar stands before a comma. -/
theorem joinEnums_contains (hseps : ∀ p ∈ rest, isEnumSep p.1 = true)
    (hvalues : ∀ s ∈ first :: rest.map Prod.snd, EnumValue s) :
    contains (joinEnums first rest) "|," = false := by
  apply decide_eq_false
  rintro ⟨before, after, htext⟩
  have hsplit := splitOnP_joinEnums hseps hvalues
  have hcut : (before ++ '|' :: ',' :: after).splitOnP isEnumSep =
      before.splitOnP isEnumSep ++ ([] :: after.splitOnP isEnumSep) := by
    rw [List.splitOnP_append_cons before _ (by decide : isEnumSep '|' = true),
      List.splitOnP_cons_eq_if_modifyHead, if_pos (by decide : isEnumSep ',' = true)]
  have htext' : before ++ '|' :: ',' :: after = (joinEnums first rest).toList := by
    simpa using htext
  rw [← htext', hcut] at hsplit
  have hempty : [] ∈ (first :: rest.map Prod.snd).map String.toList := by
    rw [← hsplit]
    exact List.mem_append_right _ List.mem_cons_self
  obtain ⟨s, hs, hnil⟩ := List.mem_map.mp hempty
  exact (hvalues s hs).nonempty (String.toList_eq_nil_iff.mp hnil)

/-- The text also has the form of a range. -/
def RangeForm (valueAllowed : String) : Prop := (matchRange valueAllowed).isSome = true

instance (valueAllowed : String) : Decidable (RangeForm valueAllowed) :=
  inferInstanceAs (Decidable (_ = true))

/-- A list is never detected as one. -/
theorem autoDetectTypeSub_joinEnums (hseps : ∀ p ∈ rest, isEnumSep p.1 = true)
    (hvalues : ∀ s ∈ first :: rest.map Prod.snd, EnumValue s) :
    autoDetectTypeSub (joinEnums first rest) =
      if RangeForm (joinEnums first rest) then "RANGE" else "" := by
  have hcontains := joinEnums_contains hseps hvalues
  unfold autoDetectTypeSub
  by_cases hempty : joinEnums first rest = ""
  · rw [hempty]
    rfl
  · rw [if_neg hempty, hcontains]
    rfl

theorem joinEnums_ne_empty (hvalues : ∀ s ∈ first :: rest.map Prod.snd, EnumValue s) :
    joinEnums first rest ≠ "" := by
  have hfirst := (hvalues first List.mem_cons_self).nonempty
  cases rest with
  | nil => exact hfirst
  | cons p rest =>
    intro h
    have hlists := congrArg String.toList h
    simp [joinEnums] at hlists

/-- The check accepts the value exactly when it is one of the values. -/
def ExactFor (check : Check Unit) (value : String) (values : List String) : Prop :=
  check = .done () ↔ value ∈ values

section Undetected

variable (hseps : ∀ p ∈ rest, isEnumSep p.1 = true)
  (hvalues : ∀ s ∈ first :: rest.map Prod.snd, EnumValue s)

include hseps hvalues

theorem checkInSizeRange_joinEnums {size : ℤ} (hsize : parseSizeInBytesE env value = .done size) :
    checkInSizeRange env value (joinEnums first rest) =
      if RangeForm (joinEnums first rest) then checkSizeBounds env size (joinEnums first rest)
      else .done () := by
  unfold checkInSizeRange
  rw [hsize, done_bind, autoDetectTypeSub_joinEnums hseps hvalues]
  split
  · rfl
  · rfl

theorem checkInDuration_joinEnums {dura : ℤ} (hdura : parseDuration value = .ok dura) :
    checkInDuration env value (joinEnums first rest) =
      if RangeForm (joinEnums first rest) then checkDurationBounds env dura (joinEnums first rest)
      else .done () := by
  have hdetect := autoDetectTypeSub_joinEnums hseps hvalues
  unfold checkInDuration
  rw [hdura]
  dsimp only
  by_cases hrange : RangeForm (joinEnums first rest)
  · rw [if_pos hrange] at hdetect ⊢
    rw [hdetect, if_pos rfl]
  · rw [if_neg hrange] at hdetect ⊢
    rw [hdetect]
    rfl

theorem validateValueNumber_joinEnums :
    validateValueNumber valueType "" value (joinEnums first rest) =
      if RangeForm (joinEnums first rest) then checkInRange value (joinEnums first rest)
      else .failed (.undetected (joinEnums first rest)) := by
  have hdetect := autoDetectTypeSub_joinEnums hseps hvalues
  unfold validateValueNumber
  rw [if_neg (joinEnums_ne_empty hvalues), if_pos rfl]
  by_cases hrange : RangeForm (joinEnums first rest)
  · rw [if_pos hrange] at hdetect ⊢
    rw [hdetect]
    rfl
  · rw [if_neg hrange] at hdetect ⊢
    rw [hdetect]
    rfl

end Undetected

/-- Outside texts in the form of a range every size and every duration is accepted, and no number. -/
theorem enumsEnforced_iff (env : Packages) (first : String) (rest : List (Char × String))
    (hseps : ∀ p ∈ rest, isEnumSep p.1 = true)
    (hvalues : ∀ s ∈ first :: rest.map Prod.snd, EnumValue s) (value : String) :
    parseExprEnums (joinEnums first rest) = listed first rest ∧
    (∀ size, parseSizeInBytesE env value = .done size →
      (ExactFor (checkInSizeRange env value (joinEnums first rest)) value (listed first rest) ↔
        if RangeForm (joinEnums first rest) then
          ExactFor (checkSizeBounds env size (joinEnums first rest)) value (listed first rest)
        else value ∈ listed first rest)) ∧
    (∀ dura, parseDuration value = .ok dura →
      (ExactFor (checkInDuration env value (joinEnums first rest)) value (listed first rest) ↔
        if RangeForm (joinEnums first rest) then
          ExactFor (checkDurationBounds env dura (joinEnums first rest)) value (listed first rest)
        else value ∈ listed first rest)) ∧
    ∀ valueType, checkDataType valueType value = .done () →
      (ExactFor (validateValueNumber valueType "" value (joinEnums first rest)) value
          (listed first rest) ↔
        if RangeForm (joinEnums first rest) then
          ExactFor (checkInRange value (joinEnums first rest)) value (listed first rest)
        else value ∉ listed first rest) := by
  refine ⟨parseExprEnums_joinEnums hseps hvalues, fun size hsize => ?_, fun dura hdura => ?_,
    fun valueType _ => ?_⟩
  · rw [checkInSizeRange_joinEnums hseps hvalues hsize]
    split
    · exact Iff.rfl
    · simp [ExactFor]
  · rw [checkInDuration_joinEnums hseps hvalues hdura]
    split
    · exact Iff.rfl
    · simp [ExactFor]
  · rw [validateValueNumber_joinEnums hseps hvalues]
    split
    · exact Iff.rfl
    · simp [ExactFor]

/-- Two sizes. -/
theorem enumsEnforced_iff_sizes :
    ExactFor (checkInSizeRange lenientPackages "1g" (joinEnums "64m " [('|', " 128m")])) "1g"
        (listed "64m " [('|', " 128m")]) ↔
      "1g" ∈ listed "64m " [('|', " 128m")] := by
  have hnoSep : ∀ s ∈ ["64m ", " 128m"], s.toList.all (fun c => !isEnumSep c) = true := by decide
  have hvalues : ∀ s ∈ ["64m ", " 128m"], EnumValue s := by
    intro s hs
    refine ⟨(by decide : ∀ s ∈ ["64m ", " 128m"], s ≠ "") s hs, ?_⟩
    intro c hc
    simpa using List.all_eq_true.mp (hnoSep s hs) c hc
  have hrange : ¬ RangeForm (joinEnums "64m " [('|', " 128m")]) := by decide
  obtain ⟨-, hsizes, -⟩ := enumsEnforced_iff lenientPackages "64m " [('|', " 128m")]
    (by decide) hvalues "1g"
  have hexact := hsizes (2 ^ 30) (by decide)
  rw [if_neg hrange] at hexact
  exact hexact

/-- A size that is not listed is accepted, a number that is listed is not. -/
theorem enums_not_exact :
    ¬ ExactFor (checkInSizeRange lenientPackages "1g" "64m | 128m") "1g"
        (parseExprEnums "64m | 128m") ∧
      ¬ ExactFor (validateValueNumber "INT" "" "3" "3|5") "3" (parseExprEnums "3|5") := by
  unfold ExactFor
  exact ⟨by decide, by decide⟩

end Config
