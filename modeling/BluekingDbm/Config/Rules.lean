import BluekingDbm.Config.Validation

/-! Checking a configuration item against the definition of its name before it is written. -/
namespace Config

open Panicking

structure ValueRules where
  valueType : String
  valueTypeSub : String
  valueAllowed : String
  deriving DecidableEq

/-- A row of the definitions of files. -/
structure FileDef where
  levelVersioned : String
  confNameValidate : ℤ
  confValueValidate : ℤ

/-- A row of the definitions of names, with its rules. -/
structure NameDef where
  rules : ValueRules
  flagStatus : ℤ
  flagReadonly : ℤ

/-- What a query for one row answers. -/
inductive RowAnswer (α : Type)
  | found (row : α)
  | absent
  | broken

/-- The answers of the queries by the fields of their keys. The file is read a second time where the
name is readonly. -/
structure Definitions where
  file (nameSpace confType confFile : String) : RowAnswer FileDef
  fileAgain (nameSpace confType confFile : String) : RowAnswer FileDef
  name (nameSpace confType confFile confName : String) : RowAnswer NameDef

/-- The fields of an item that the check reads. -/
structure ItemGiven where
  nameSpace : String
  confType : String
  confFile : String
  confName : String
  confValue : String
  levelName : String

inductive RuleError
  | database
  | illegalName (confName nameSpace confType : String)
  | readonly (confName : String)
  | value (confName : String) (e : ValueError)
  deriving DecidableEq

def NameDef.isReadOnly (cn : NameDef) : Bool := cn.flagStatus = 2 || cn.flagReadonly = 1

/-- A file without definition is dereferenced. -/
def isConfigLevelEntityVersioned (db : Definitions) (c : ItemGiven) : Panicking RuleError Bool :=
  match db.fileAgain c.nameSpace c.confType c.confFile with
  | .found fileDef => .done (fileDef.levelVersioned = c.levelName)
  | .absent => .panicked
  | .broken => .done false

def RowAnswer.namesChecked : RowAnswer FileDef → Bool
  | .found confFile => confFile.confNameValidate = 1
  | _ => true

def RowAnswer.valuesChecked : RowAnswer FileDef → Bool
  | .found confFile => confFile.confValueValidate = 1
  | _ => true

def checkConfName (db : Definitions) (c : ItemGiven) : Panicking RuleError Unit :=
  match db.name c.nameSpace c.confType c.confFile c.confName with
  | .absent => .failed (.illegalName c.confName c.nameSpace c.confType)
  | .broken => .failed .database
  | .found cn =>
    if cn.isReadOnly then do
      let editable ← isConfigLevelEntityVersioned db c
      if editable then pure () else .failed (.readonly c.confName)
    else pure ()

def noRules : ValueRules := ⟨"", "", ""⟩

/-- The rules in the row, which stays empty where there is none. -/
def storedRules (db : Definitions) (c : ItemGiven) : ValueRules :=
  match db.name c.nameSpace c.confType c.confFile c.confName with
  | .found cn => cn.rules
  | _ => noRules

/-- The rules given replace the stored ones where they allow nothing. -/
def rulesUsed (stored given : ValueRules) : ValueRules :=
  if given.valueAllowed = "" then given else stored

def withMessage (confName : String) : Check Unit → Panicking RuleError Unit
  | .done _ => .done ()
  | .failed e => .failed (.value confName e)
  | .panicked => .panicked

def ValueRules.validate (rules : ValueRules) (env : Packages) (confValue : String) : Check Unit :=
  validateConfValue env confValue rules.valueType rules.valueTypeSub rules.valueAllowed

def checkNameOf (confFile : RowAnswer FileDef) (db : Definitions) (c : ItemGiven) :
    Panicking RuleError Unit :=
  if confFile.namesChecked then checkConfName db c else pure ()

/-- A value with a placeholder is not checked. -/
def checkValueOf (confFile : RowAnswer FileDef) (env : Packages) (c : ItemGiven) (rules : ValueRules) :
    Panicking RuleError Unit :=
  if confFile.valuesChecked && !confValueHasBraces c.confValue then
    withMessage c.confName (rules.validate env c.confValue)
  else pure ()

def checkConfNameAndValue (env : Packages) (db : Definitions) (c : ItemGiven) (given : ValueRules) :
    Panicking RuleError Unit :=
  match db.file c.nameSpace c.confType c.confFile with
  | .broken => .failed .database
  | confFile => do
    checkNameOf confFile db c
    checkValueOf confFile env c (rulesUsed (storedRules db c) given)

section Enforcement

variable {env : Packages} {db : Definitions} {c : ItemGiven} {cn : NameDef} {given rules : ValueRules}

/-- The value passes the rules. -/
def ValueRules.Accept (rules : ValueRules) (env : Packages) (confValue : String) : Prop :=
  rules.validate env confValue = .done ()

/-- The value of the item is checked: its file asks for it, or has no definition. -/
def ValueChecked (db : Definitions) (c : ItemGiven) : Prop :=
  (∃ confFile, db.file c.nameSpace c.confType c.confFile = .found confFile ∧
    confFile.confValueValidate = 1) ∨
    db.file c.nameSpace c.confType c.confFile = .absent

/-- Names are checked, and this one is readonly outside the level that keeps versions. -/
def NameRefused (db : Definitions) (c : ItemGiven) (cn : NameDef) : Prop :=
  (db.file c.nameSpace c.confType c.confFile).namesChecked = true ∧ cn.isReadOnly = true ∧
    ¬ ∃ fileDef, db.fileAgain c.nameSpace c.confType c.confFile = .found fileDef ∧
      fileDef.levelVersioned = c.levelName

/-- An item that is accepted with the rules given passes `rules`. -/
def Enforced (env : Packages) (db : Definitions) (c : ItemGiven) (given rules : ValueRules) : Prop :=
  checkConfNameAndValue env db c given = .done () → rules.Accept env c.confValue

theorem noRules_accept : noRules.Accept env c.confValue := rfl

theorem rulesUsed_noRules : rulesUsed rules noRules = noRules := rfl

theorem rulesUsed_given (h : given.valueAllowed ≠ "") : rulesUsed rules given = rules := if_neg h

theorem withMessage_eq_done {confName : String} {x : Check Unit} :
    withMessage confName x = .done () ↔ x = .done () := by
  cases x with
  | done u => simp [withMessage]
  | failed e => simp [withMessage]
  | panicked => simp [withMessage]

theorem checkConfName_eq_done
    (hname : db.name c.nameSpace c.confType c.confFile c.confName = .found cn) :
    checkConfName db c = .done () ↔ (cn.isReadOnly = true →
      ∃ fileDef, db.fileAgain c.nameSpace c.confType c.confFile = .found fileDef ∧
        fileDef.levelVersioned = c.levelName) := by
  unfold checkConfName isConfigLevelEntityVersioned
  rw [hname]
  by_cases hreadonly : cn.isReadOnly = true
  · cases hagain : db.fileAgain c.nameSpace c.confType c.confFile with
    | found fileDef => by_cases hlevel : fileDef.levelVersioned = c.levelName <;> simp [hreadonly, hlevel]
    | absent => simp [hreadonly]
    | broken => simp [hreadonly]
  · simp [hreadonly]

theorem checkNameOf_eq_done
    (hname : db.name c.nameSpace c.confType c.confFile c.confName = .found cn) :
    checkNameOf (db.file c.nameSpace c.confType c.confFile) db c = .done () ↔
      ¬ NameRefused db c cn := by
  unfold checkNameOf NameRefused
  by_cases hnames : (db.file c.nameSpace c.confType c.confFile).namesChecked = true
  · rw [if_pos hnames, checkConfName_eq_done hname]
    constructor
    · rintro h ⟨-, hreadonly, hlevel⟩
      exact hlevel (h hreadonly)
    · intro h hreadonly
      by_contra hlevel
      exact h ⟨hnames, hreadonly, hlevel⟩
  · rw [if_neg hnames]
    exact iff_of_true rfl fun h => hnames h.1

theorem checkValueOf_eq_done {confFile : RowAnswer FileDef} (hvalues : confFile.valuesChecked = true)
    (hvalue : confValueHasBraces c.confValue = false) :
    checkValueOf confFile env c rules = .done () ↔ rules.Accept env c.confValue := by
  unfold checkValueOf
  rw [hvalues, hvalue]
  exact withMessage_eq_done

/-- A file that can be read is passed on to the two checks. -/
theorem checkConfNameAndValue_of_checked (hchecked : ValueChecked db c) :
    (db.file c.nameSpace c.confType c.confFile).valuesChecked = true ∧
      checkConfNameAndValue env db c given = (do
        checkNameOf (db.file c.nameSpace c.confType c.confFile) db c
        checkValueOf (db.file c.nameSpace c.confType c.confFile) env c
          (rulesUsed (storedRules db c) given)) := by
  unfold checkConfNameAndValue
  rcases hchecked with ⟨confFile, hfile, hvalues⟩ | hfile
  · rw [hfile]
    exact ⟨decide_eq_true hvalues, rfl⟩
  · rw [hfile]
    exact ⟨rfl, rfl⟩

/-- What the check comes to where the value is checked and its name defined. -/
theorem checkConfNameAndValue_eq_done (hchecked : ValueChecked db c)
    (hname : db.name c.nameSpace c.confType c.confFile c.confName = .found cn)
    (hvalue : confValueHasBraces c.confValue = false) :
    checkConfNameAndValue env db c given = .done () ↔
      ¬ NameRefused db c cn ∧ (rulesUsed cn.rules given).Accept env c.confValue := by
  obtain ⟨hvalues, hcheck⟩ := @checkConfNameAndValue_of_checked env db c given hchecked
  have hstored : storedRules db c = cn.rules := by
    rw [storedRules, hname]
  rw [hcheck, hstored, bind_eq_done]
  constructor
  · rintro ⟨⟨⟩, hdone, hpass⟩
    exact ⟨(checkNameOf_eq_done hname).mp hdone, (checkValueOf_eq_done hvalues hvalue).mp hpass⟩
  · rintro ⟨hdone, hpass⟩
    exact ⟨(), (checkNameOf_eq_done hname).mpr hdone, (checkValueOf_eq_done hvalues hvalue).mpr hpass⟩

/-- Without rules given nothing about the value is checked; with an allowed text given it is the
stored rules that are. -/
theorem rulesEnforced_iff (env : Packages) (db : Definitions) (c : ItemGiven) (cn : NameDef)
    (hchecked : ValueChecked db c)
    (hname : db.name c.nameSpace c.confType c.confFile c.confName = .found cn)
    (hvalue : confValueHasBraces c.confValue = false) :
    (Enforced env db c noRules cn.rules ↔ NameRefused db c cn ∨ cn.rules.Accept env c.confValue) ∧
      ∀ given : ValueRules, given.valueAllowed ≠ "" →
        (Enforced env db c given given ↔ NameRefused db c cn ∨
          (cn.rules.Accept env c.confValue → given.Accept env c.confValue)) := by
  refine ⟨?_, fun given hgiven => ?_⟩
  · rw [Enforced, checkConfNameAndValue_eq_done hchecked hname hvalue, rulesUsed_noRules]
    have hpass : noRules.Accept env c.confValue := noRules_accept
    tauto
  · rw [Enforced, checkConfNameAndValue_eq_done hchecked hname hvalue, rulesUsed_given hgiven]
    tauto

/-- One file that checks names and values, and one name that is a switch. -/
def switchDefinitions : Definitions where
  file _ _ _ := .found ⟨"cluster", 1, 1⟩
  fileAgain _ _ _ := .found ⟨"cluster", 1, 1⟩
  name _ _ _ _ := .found ⟨⟨"STRING", "ENUM", "ON | OFF"⟩, 1, 0⟩

def switchItem : ItemGiven := ⟨"tendbha", "dbconf", "MySQL-8.0", "general_log", "maybe", "app"⟩

/-- Packages that refuse everything. -/
def strictPackages : Packages where
  toInt64E _ := none
  toString := Text.decimal
  compile _ := none
  validJson _ := false
  var _ _ := .invalidValidationError
  registersTranslations := false

theorem rulesEnforced_iff_switch :
    Enforced strictPackages switchDefinitions switchItem noRules ⟨"STRING", "ENUM", "ON | OFF"⟩ ↔
      NameRefused switchDefinitions switchItem ⟨⟨"STRING", "ENUM", "ON | OFF"⟩, 1, 0⟩ ∨
        ValueRules.Accept ⟨"STRING", "ENUM", "ON | OFF"⟩ strictPackages "maybe" :=
  (rulesEnforced_iff strictPackages switchDefinitions switchItem
    ⟨⟨"STRING", "ENUM", "ON | OFF"⟩, 1, 0⟩ (.inl ⟨_, rfl, rfl⟩) rfl (by decide)).1

/-- The value that the stored enumeration refuses is accepted without rules, and a value that the one
given refuses is accepted by the stored one. -/
theorem switch_not_enforced :
    ¬ Enforced strictPackages switchDefinitions switchItem noRules ⟨"STRING", "ENUM", "ON | OFF"⟩ ∧
      ¬ Enforced strictPackages switchDefinitions { switchItem with confValue := "OFF" }
        ⟨"STRING", "ENUM", "ON"⟩ ⟨"STRING", "ENUM", "ON"⟩ := by
  have hcheck : checkConfNameAndValue strictPackages switchDefinitions switchItem noRules =
      .done () := by decide
  have hstored : ¬ ValueRules.Accept ⟨"STRING", "ENUM", "ON | OFF"⟩ strictPackages "maybe" := by
    unfold ValueRules.Accept
    decide
  have hcheckOff : checkConfNameAndValue strictPackages switchDefinitions
      { switchItem with confValue := "OFF" } ⟨"STRING", "ENUM", "ON"⟩ = .done () := by decide
  have hgiven : ¬ ValueRules.Accept ⟨"STRING", "ENUM", "ON"⟩ strictPackages "OFF" := by
    unfold ValueRules.Accept
    decide
  exact ⟨fun h => hstored (h hcheck), fun h => hgiven (h hcheckOff)⟩

end Enforcement

end Config
