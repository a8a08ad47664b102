import BluekingDbm.Config.Validation

/-! Where the validation of a value panics: at the last character of a blank size text, and at the result
of the validator for a value that is valid. -/
namespace Config

open FloatText Panicking Text

/-- The value is blank, or it is a size and a bound of the range is blank. -/
def SizePanics (env : Packages) (value valueAllowed : String) : Prop :=
  trimSpace value = "" ∨
    (∃ size, parseSizeInBytesE env value = .done size) ∧ (matchRange valueAllowed).isSome = true ∧
      ∃ bound vals, matchRange (withoutBlanks valueAllowed) = some (bound, vals) ∧
        (trimSpace vals.1 = "" ∨ trimSpace vals.2 = "")

/-- A text value of the size type that reads a blank text, or of the validator type that is valid. -/
def Panics (env : Packages) (confValue valueType valueTypeSub valueAllowed : String) : Prop :=
  valueType = "STRING" ∧ valueAllowed ≠ "" ∧ confValueHasBraces confValue = false ∧
    (valueTypeSub = "BYTES" ∧ SizePanics env confValue valueAllowed ∨
      valueTypeSub = "GOVALIDATE" ∧ env.var confValue valueAllowed = .nil ∧
        env.registersTranslations = true)

variable {env : Packages} {s t confValue value valueType valueTypeSub valueAllowed : String}

section Sizes

theorem sizeParts_ne_panicked {cs : List Char} (h : cs ≠ []) : sizeParts cs ≠ .panicked := by
  have hlen := List.length_pos_iff.mpr h
  unfold sizeParts
  dsimp only
  split
  · rename_i hlast
    rw [index_of_lt (by omega) (by omega), done_bind]
    split
    · split
      · rw [index_of_lt (by omega) (by omega), done_bind]
        split <;> simp
      · simp
    · simp
  · simp

theorem parseSizeInBytesE_panics : parseSizeInBytesE env s = .panicked ↔ trimSpace s = "" := by
  unfold parseSizeInBytesE
  constructor
  · intro h
    by_contra hne
    have hcs : (trimSpace s).toList ≠ [] := fun hnil => hne (String.toList_eq_nil_iff.mp hnil)
    have hlen := List.length_pos_iff.mpr hcs
    dsimp only at h
    rw [index_of_lt (by omega) (by omega), done_bind] at h
    have hparts : ∀ c, (if lower c ≠ 'b' then (trimSpace s).toList ++ ['b']
        else (trimSpace s).toList) ≠ [] := by
      intro c
      split
      · exact List.append_ne_nil_of_left_ne_nil hcs _
      · exact hcs
    rcases bind_eq_panicked.mp h with h | ⟨⟨multiplier, number⟩, -, h⟩
    · exact sizeParts_ne_panicked (hparts _) h
    · dsimp only at h
      split at h
      · cases h
      · split at h <;> cases h
  · intro h
    rw [h]
    rfl

theorem parseSizeInBytes_panics : parseSizeInBytes env s = .panicked ↔ trimSpace s = "" := by
  rw [← @parseSizeInBytesE_panics env]
  unfold parseSizeInBytes
  cases parseSizeInBytesE env s with
  | done n => simp [orElse]
  | failed e => simp [orElse]
  | panicked => simp [orElse]

/-- No error is left. -/
theorem parseSizeInBytes_cases (env : Packages) (s : String) :
    parseSizeInBytes env s = .panicked ∨ ∃ n, parseSizeInBytes env s = .done n := by
  unfold parseSizeInBytes
  cases parseSizeInBytesE env s with
  | done n => exact .inr ⟨_, rfl⟩
  | failed e => exact .inr ⟨_, rfl⟩
  | panicked => exact .inl rfl

end Sizes

section Checks

theorem parseFloat32ExprRange_ne_panicked : parseFloat32ExprRange valueAllowed ≠ .panicked := by
  intro h
  rcases bind_eq_panicked.mp h with h | ⟨⟨bound, vals⟩, -, h⟩
  · exact ofOption_ne_panicked _ h
  · dsimp only at h
    split at h
    · cases h
    · split at h <;> cases h

theorem checkInRange_ne_panicked : checkInRange value valueAllowed ≠ .panicked := by
  intro h
  rcases bind_eq_panicked.mp h with h | ⟨⟨direct, values⟩, -, h⟩
  · exact parseFloat32ExprRange_ne_panicked h
  · dsimp only at h
    split at h
    · cases h
    · split at h <;> cases h

theorem checkInEnums_ne_panicked {multiple : Bool} :
    checkInEnums value valueAllowed multiple ≠ .panicked := by
  unfold checkInEnums
  dsimp only
  split
  · split
    · simp
    · split <;> simp
  · split <;> simp

theorem autoDetectTypeSub_range :
    autoDetectTypeSub valueAllowed = "RANGE" ↔ (matchRange valueAllowed).isSome = true := by
  unfold autoDetectTypeSub
  split
  · rename_i hempty
    subst hempty
    simp [matchRange]
  · split
    · rename_i hrange
      simp [hrange]
    · rename_i hrange
      split <;> simp [hrange]

theorem checkSizeBounds_panics {size : ℤ} : checkSizeBounds env size valueAllowed = .panicked ↔
    ∃ bound vals, matchRange (withoutBlanks valueAllowed) = some (bound, vals) ∧
      (trimSpace vals.1 = "" ∨ trimSpace vals.2 = "") := by
  unfold checkSizeBounds parseRange
  cases hmatch : matchRange (withoutBlanks valueAllowed) with
  | none => simp [ofOption]
  | some pair =>
    obtain ⟨bound, vals⟩ := pair
    have hbounds : (do
        let leftVal ← parseSizeInBytes env vals.1
        let rightVal ← parseSizeInBytes env vals.2
        checkInRange (env.toString size) (rangeOf bound leftVal rightVal)) = .panicked ↔
        trimSpace vals.1 = "" ∨ trimSpace vals.2 = "" := by
      rw [← @parseSizeInBytes_panics env vals.1, ← @parseSizeInBytes_panics env vals.2,
        bind_eq_panicked]
      constructor
      · rintro (h | ⟨l, -, h⟩)
        · exact .inl h
        · rcases bind_eq_panicked.mp h with h | ⟨r, -, h⟩
          · exact .inr h
          · exact absurd h checkInRange_ne_panicked
      · rintro (h | h)
        · exact .inl h
        · rcases parseSizeInBytes_cases env vals.1 with hl | ⟨l, hl⟩
          · exact .inl hl
          · exact .inr ⟨l, hl, by rw [h]; rfl⟩
    refine hbounds.trans ⟨fun h => ⟨bound, vals, rfl, h⟩, ?_⟩
    rintro ⟨bound', vals', hsome, h⟩
    cases hsome
    exact h

theorem checkInSizeRange_panics :
    checkInSizeRange env value valueAllowed = .panicked ↔ SizePanics env value valueAllowed := by
  unfold checkInSizeRange SizePanics
  rw [bind_eq_panicked, parseSizeInBytesE_panics]
  refine or_congr_right ?_
  have hrest : ∀ size : ℤ, (if autoDetectTypeSub valueAllowed = "RANGE" then
      checkSizeBounds env size valueAllowed
      else if autoDetectTypeSub valueAllowed = "ENUM" then checkInEnums value valueAllowed false
      else (pure () : Check Unit)) = .panicked ↔ (matchRange valueAllowed).isSome = true ∧
      ∃ bound vals, matchRange (withoutBlanks valueAllowed) = some (bound, vals) ∧
        (trimSpace vals.1 = "" ∨ trimSpace vals.2 = "") := by
    intro size
    rw [← @checkSizeBounds_panics env valueAllowed size, ← autoDetectTypeSub_range]
    split
    · rename_i hrange
      simp [hrange]
    · rename_i hrange
      split
      · simp [checkInEnums_ne_panicked, hrange]
      · simp [hrange]
  simp only [hrest, exists_and_right]

theorem checkInDuration_ne_panicked : checkInDuration env value valueAllowed ≠ .panicked := by
  unfold checkInDuration checkDurationBounds
  split
  · simp
  · split
    · split
      · exact checkInRange_ne_panicked
      · simp
    · split
      · exact checkInEnums_ne_panicked
      · simp

theorem checkInRegex_ne_panicked : checkInRegex env value valueAllowed ≠ .panicked := by
  unfold checkInRegex
  split
  · simp
  · split <;> simp

theorem checkGoValidate_panics : checkGoValidate env value valueAllowed = .panicked ↔
    env.var value valueAllowed = .nil ∧ env.registersTranslations = true := by
  unfold checkGoValidate
  cases env.var value valueAllowed with
  | nil =>
    dsimp only
    split <;> simp_all
  | validationErrors errStrings =>
    dsimp only
    split
    · split <;> simp
    · simp
  | invalidValidationError => simp

theorem checkDataType_ne_panicked : checkDataType valueType value ≠ .panicked := by
  unfold checkDataType
  split_ifs <;> simp

theorem checkDataTypeSub_ne_panicked : checkDataTypeSub valueType valueTypeSub ≠ .panicked := by
  unfold checkDataTypeSub
  split
  · simp
  · split
    · split <;> simp
    · simp

/-- The sub types of sizes and of validators are those of texts only. -/
theorem checkDataTypeSub_string (hsub : valueTypeSub = "BYTES" ∨ valueTypeSub = "GOVALIDATE") :
    checkDataTypeSub valueType valueTypeSub = .done () ↔ valueType = "STRING" := by
  have hne : valueTypeSub ≠ "" := by
    rcases hsub with rfl | rfl <;> decide
  constructor
  · intro h
    rw [checkDataTypeSub, if_neg hne] at h
    split at h
    · rename_i subs hlookup
      split_ifs at h with hmem
      obtain ⟨l₁, l₂, hsplit, -⟩ := List.lookup_eq_some_iff.mp hlookup
      have hentry : (valueType, subs) ∈ valueTypeSubRef := by
        rw [hsplit]
        exact List.mem_append_right _ List.mem_cons_self
      simp only [valueTypeSubRef, List.mem_cons, List.not_mem_nil, or_false, Prod.mk.injEq] at hentry
      rcases hentry with ⟨rfl, rfl⟩ | ⟨rfl, rfl⟩ | ⟨rfl, rfl⟩ | ⟨rfl, rfl⟩ | ⟨rfl, rfl⟩
      · rfl
      all_goals
        rcases hsub with rfl | rfl <;> exact absurd hmem (by decide)
    · cases h
  · rintro rfl
    rcases hsub with rfl | rfl <;> rfl

theorem validateValueNumber_ne_panicked :
    validateValueNumber valueType valueTypeSub confValue valueAllowed ≠ .panicked := by
  unfold validateValueNumber
  generalize (if valueTypeSub = "" then autoDetectTypeSub valueAllowed else valueTypeSub) = detected
  dsimp only
  split_ifs <;>
    first
      | exact checkInEnums_ne_panicked
      | exact checkInRange_ne_panicked
      | simp

theorem validateValueString_panics :
    validateValueString env valueType valueTypeSub confValue valueAllowed = .panicked ↔
      valueAllowed ≠ "" ∧ (valueTypeSub = "BYTES" ∧ SizePanics env confValue valueAllowed ∨
        valueTypeSub = "GOVALIDATE" ∧ env.var confValue valueAllowed = .nil ∧
          env.registersTranslations = true) := by
  by_cases hbytes : valueTypeSub = "BYTES"
  · subst hbytes
    by_cases hallowed : valueAllowed = ""
    · simp [validateValueString, hallowed]
    · simp [validateValueString, hallowed, checkInSizeRange_panics]
  · by_cases hgo : valueTypeSub = "GOVALIDATE"
    · subst hgo
      by_cases hallowed : valueAllowed = ""
      · simp [validateValueString, hallowed]
      · simp [validateValueString, hallowed, checkGoValidate_panics]
    · have hjson : checkInJson env confValue ≠ .panicked := by
        unfold checkInJson
        split <;> simp
      have hno : validateValueString env valueType valueTypeSub confValue valueAllowed ≠ .panicked := by
        unfold validateValueString
        split_ifs <;>
          first
            | exact checkInEnums_ne_panicked
            | exact checkInRegex_ne_panicked
            | exact checkInDuration_ne_panicked
            | exact hjson
            | simp
      simp [hno, hbytes, hgo]

end Checks

theorem checkInBool_ne_panicked : checkInBool value valueAllowed ≠ .panicked := by
  unfold checkInBool
  split
  · simp
  · exact checkInEnums_ne_panicked

theorem panics_of_validateConfValue
    (h : validateConfValue env confValue valueType valueTypeSub valueAllowed = .panicked) :
    Panics env confValue valueType valueTypeSub valueAllowed := by
  unfold validateConfValue at h
  split at h
  · cases h
  · rcases bind_eq_panicked.mp h with h | ⟨⟨⟩, hsub, h⟩
    · exact absurd h checkDataTypeSub_ne_panicked
    · split at h
      · cases h
      · rename_i hbraces
        rcases bind_eq_panicked.mp h with h | ⟨⟨⟩, -, h⟩
        · exact absurd h checkDataType_ne_panicked
        · split at h
          · split at h
            · exact absurd h checkInBool_ne_panicked
            · cases h
          · split at h
            · exact absurd h validateValueNumber_ne_panicked
            · obtain ⟨hallowed, hkind⟩ := validateValueString_panics.mp h
              have hsubs : valueTypeSub = "BYTES" ∨ valueTypeSub = "GOVALIDATE" :=
                hkind.imp And.left And.left
              exact ⟨(checkDataTypeSub_string hsubs).mp hsub, hallowed, Bool.eq_false_iff.mpr hbraces,
                hkind⟩

/-- The validation returns nil or an error for every four texts but those at which it panics. -/
theorem validateConfValue_returns_iff (env : Packages)
    (confValue valueType valueTypeSub valueAllowed : String) :
    validateConfValue env confValue valueType valueTypeSub valueAllowed ≠ .panicked ↔
      ¬ Panics env confValue valueType valueTypeSub valueAllowed := by
  refine not_congr ⟨panics_of_validateConfValue, ?_⟩
  rintro ⟨rfl, hallowed, hbraces, hkind⟩
  have hsubs : valueTypeSub = "BYTES" ∨ valueTypeSub = "GOVALIDATE" := hkind.imp And.left And.left
  have hsub : checkDataTypeSub "STRING" valueTypeSub = .done () :=
    (checkDataTypeSub_string hsubs).mpr rfl
  have hstring : validateValueString env "STRING" valueTypeSub confValue valueAllowed = .panicked :=
    validateValueString_panics.mpr ⟨hallowed, hkind⟩
  have hgiven : ¬ ("STRING" = "" ∧ valueTypeSub = "" ∧ valueAllowed = "") :=
    fun h => hallowed h.2.2
  unfold validateConfValue
  rw [if_neg hgiven, hsub, done_bind, hbraces]
  exact hstring

/-- Packages for which every value is valid. -/
def lenientPackages : Packages where
  toInt64E := Numeral.atoi
  toString := decimal
  compile _ := some fun _ => true
  validJson _ := true
  var _ _ := .nil
  registersTranslations := true

/-- An empty size is read at its last character. -/
theorem empty_size_panics :
    validateConfValue lenientPackages "" "STRING" "BYTES" "(0, 2048)" = .panicked := by
  decide

end Config
