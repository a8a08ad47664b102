import BluekingDbm.Config.Duration
import BluekingDbm.Library.Panicking

/-! The checks of a configuration value against its type, sub type and allowed values. -/
namespace Config

open FloatText Numeral Panicking Text

inductive ValueError
  | rangeFormat (rangeValue : String)
  | rangeNumber (rangeValue : String)
  | rangeOrder (rangeValue : String)
  | oneOf (valueAlloweds : List String) (valueGiven : String)
  | multiOf (valueAlloweds : List String) (valueGiven : String)
  | emptyWithOthers
  | notInRange (value valueAllowed : String)
  | sizeSyntax (sizeStr : String)
  | sizeNegative (sizeStr : String)
  | duration (e : DurationError)
  | invalidRegex (valueAllowed : String)
  | regexFailed (value valueAllowed : String)
  | invalidJson (value : String)
  | invalidValidation
  | translations
  | goValidate (errStrings : List String)
  | dataType (name value : String)
  | dataTypeSub (dataType subType : String) (allowed : List String)
  | unknownType (dataType : String)
  | invalidSub (valueTypeSub valueType : String)
  | undetected (valueAllowed : String)
  | mustMatch (valueAllowed : String)
  deriving DecidableEq

abbrev Check := Panicking ValueError

/-- What `validator.Var` returns: nil, the texts of its validation errors, or that the tag cannot be
used on the value. -/
inductive VarResult
  | nil
  | validationErrors (errStrings : List String)
  | invalidValidationError

/-- The packages that are called: casts, regular expressions, JSON and the validator. -/
structure Packages where
  toInt64E : String → Option ℤ
  toString : ℤ → String
  compile : String → Option (String → Bool)
  validJson : String → Bool
  var : String → String → VarResult
  registersTranslations : Bool

def confValueHasBraces (s : String) : Bool :=
  decide ("\x7b\x7b".toList <+: s.toList) && decide ("\x7d\x7d".toList <:+ s.toList)

section Sizes

/-- The product of two int64, as an int64. -/
def wrapped (n : ℤ) : ℤ := n.bmod (2 ^ 64)

def safeMul (a b : ℤ) : ℤ :=
  let c := wrapped (a * b)
  if 1 < a ∧ 1 < b ∧ c.tdiv b ≠ a then 0 else c

def trimSuffixB (s : List Char) : List Char := if s.getLast? = some 'b' then s.dropLast else s

def trimmed (s : List Char) : String := trimSpace (String.ofList s)

/-- The multiplier and the number of a text that has its `b`. -/
def sizeParts (s : List Char) : Check (ℤ × String) := do
  let lastChar : ℤ := s.length - 1
  if 0 < lastChar then
    let last ← index s lastChar
    if last = 'b' ∨ last = 'B' then
      if 1 < lastChar then
        let unit ← index s (lastChar - 1)
        let number := trimmed (s.take (lastChar - 1).toNat)
        match lower unit with
        | 'k' => pure (2 ^ 10, number)
        | 'm' => pure (2 ^ 20, number)
        | 'g' => pure (2 ^ 30, number)
        | _ => pure (1, trimmed (trimSuffixB s))
      else pure (1, trimmed (trimSuffixB s))
    else pure (1, String.ofList s)
  else pure (1, String.ofList s)

/-- The last character is read before anything else. -/
def parseSizeInBytesE (env : Packages) (sizeStr : String) : Check ℤ := do
  let s := (trimSpace sizeStr).toList
  let last ← index s (s.length - 1)
  let (multiplier, number) ← sizeParts (if lower last ≠ 'b' then s ++ ['b'] else s)
  match env.toInt64E number with
  | none => .failed (.sizeSyntax number)
  | some size =>
    if size < 0 then .failed (.sizeNegative number) else pure (safeMul size multiplier)

/-- Errors are passed over. -/
def parseSizeInBytes (env : Packages) (sizeStr : String) : Check ℤ := do
  let sizeBytes ← orElse 0 (parseSizeInBytesE env sizeStr)
  pure (if sizeBytes < 0 then 0 else sizeBytes)

end Sizes

section Ranges

/-- The body of a range at its last comma that leaves something on both sides. -/
def splitRange (body : List Char) : Option (String × String) :=
  match body.reverse with
  | [] => none
  | c :: cs =>
    match cutChars [','] cs with
    | none => none
    | some (before, after) =>
      if after = [] then none
      else some (String.ofList after.reverse, String.ofList (c :: before).reverse)

/-- `regexRange`: the brackets and the bounds. -/
def matchRange (s : String) : Option ((Char × Char) × (String × String)) :=
  match s.toList with
  | left :: rest =>
    match rest.getLast? with
    | some right =>
      if left ∈ ['(', '['] ∧ right ∈ [')', ']'] ∧ '\n' ∉ rest.dropLast then
        (splitRange rest.dropLast).map fun bounds => ((left, right), bounds)
      else none
    | none => none
  | [] => none

def withoutBlanks (s : String) : String := String.ofList (s.toList.filter fun c => c ≠ ' ')

def parseRange (rangeValue : String) : Check ((Char × Char) × (String × String)) :=
  ofOption (.rangeFormat (withoutBlanks rangeValue)) (matchRange (withoutBlanks rangeValue))

def parseFloat32ExprRange (rangeValue : String) :
    Check ((Char × Char) × (Binary32.Value × Binary32.Value)) := do
  let (bound, vals) ← parseRange rangeValue
  let (leftVal, leftOk) := parseFloat32 vals.1
  let (rightVal, rightOk) := parseFloat32 vals.2
  if leftOk = false ∨ rightOk = false then .failed (.rangeNumber rangeValue)
  else if rightVal.lt leftVal then .failed (.rangeOrder rangeValue)
  else pure (bound, (leftVal, rightVal))

def outLeft (left : Char) (valueGiven bound : Binary32.Value) : Bool :=
  if left = '[' then valueGiven.lt bound else valueGiven.le bound

def outRight (right : Char) (valueGiven bound : Binary32.Value) : Bool :=
  if right = ']' then bound.lt valueGiven else bound.le valueGiven

/-- A value that is no number counts as zero. -/
def checkInRange (value valueAllowed : String) : Check Unit := do
  let valueGiven := (parseFloat32 value).1
  let (direct, values) ← parseFloat32ExprRange valueAllowed
  if outLeft direct.1 valueGiven values.1 then .failed (.notInRange value valueAllowed)
  else if outRight direct.2 valueGiven values.2 then .failed (.notInRange value valueAllowed)
  else pure ()

end Ranges

section Enums

/-- `SplitAnyRune` at the two separators, and each piece trimmed. -/
def parseExprEnums (enumStr : String) : List String :=
  ((enumStr.toList.splitOnP fun c => c = '|' || c = ',').filter fun cs => !cs.isEmpty).map trimmed

def checkInEnums (valueGiven valueAllowed : String) (multiple : Bool) : Check Unit :=
  let valueAlloweds := parseExprEnums valueAllowed
  if multiple then
    let valueGivens := split valueGiven ','
    match valueGivens.find? fun g => decide (g ∉ valueAlloweds) with
    | some g => .failed (.multiOf valueAlloweds g)
    | none =>
      if 2 ≤ valueGivens.length ∧
          ("''" ∈ valueGivens ∨ "\"\"" ∈ valueGivens ∨ "" ∈ valueGivens) then
        .failed .emptyWithOthers
      else pure ()
  else if valueGiven ∈ valueAlloweds then pure ()
  else .failed (.oneOf valueAlloweds valueGiven)

/-- The texts of the range form, and those in which a bar stands before a comma. -/
def autoDetectTypeSub (valueAllowed : String) : String :=
  if valueAllowed = "" then ""
  else if (matchRange valueAllowed).isSome then "RANGE"
  else if contains valueAllowed "|," then "ENUM"
  else ""

end Enums

variable (env : Packages)

/-- The range with its bounds written as numbers. -/
def rangeOf (bound : Char × Char) (leftVal rightVal : ℤ) : String :=
  String.ofList [bound.1] ++ decimal leftVal ++ ", " ++ decimal rightVal ++ String.ofList [bound.2]

/-- A size against a range of sizes. A range that cannot be taken apart allows everything. -/
def checkSizeBounds (sizeBytes : ℤ) (valueAllowed : String) : Check Unit :=
  match parseRange valueAllowed with
  | .done (bound, vals) => do
    let leftVal ← parseSizeInBytes env vals.1
    let rightVal ← parseSizeInBytes env vals.2
    checkInRange (env.toString sizeBytes) (rangeOf bound leftVal rightVal)
  | _ => pure ()

/-- What is neither a range nor an enumeration allows everything. -/
def checkInSizeRange (value valueAllowed : String) : Check Unit := do
  let sizeBytes ← parseSizeInBytesE env value
  if autoDetectTypeSub valueAllowed = "RANGE" then checkSizeBounds env sizeBytes valueAllowed
  else if autoDetectTypeSub valueAllowed = "ENUM" then checkInEnums value valueAllowed false
  else pure ()

def toDurationExt (s : String) : ℤ :=
  match parseDuration s with
  | .ok d => d
  | .error _ => 0

def checkDurationBounds (dura : ℤ) (valueAllowed : String) : Check Unit :=
  match parseRange valueAllowed with
  | .done (bound, vals) =>
    let leftVal := wholeSeconds (toDurationExt vals.1)
    let rightVal := wholeSeconds (toDurationExt vals.2)
    checkInRange (env.toString (wholeSeconds dura)) (rangeOf bound leftVal rightVal)
  | _ => pure ()

def checkInDuration (value valueAllowed : String) : Check Unit :=
  match parseDuration value with
  | .error e => .failed (.duration e)
  | .ok dura =>
    if autoDetectTypeSub valueAllowed = "RANGE" then checkDurationBounds env dura valueAllowed
    else if autoDetectTypeSub valueAllowed = "ENUM" then checkInEnums value valueAllowed false
    else pure ()

def checkInRegex (valueGiven valueAllowed : String) : Check Unit :=
  match env.compile valueAllowed with
  | none => .failed (.invalidRegex valueAllowed)
  | some reg =>
    if reg valueGiven then pure () else .failed (.regexFailed valueGiven valueAllowed)

def checkInJson (valueGiven : String) : Check Unit :=
  if env.validJson valueGiven then pure () else .failed (.invalidJson valueGiven)

/-- The result is taken for validation errors, which nil is not. -/
def checkGoValidate (valueGiven valueAllowed : String) : Check Unit :=
  match env.var valueGiven valueAllowed with
  | .invalidValidationError => .failed .invalidValidation
  | err =>
    if env.registersTranslations then
      match err with
      | .validationErrors errStrings =>
        if 0 < errStrings.length then .failed (.goValidate errStrings) else pure ()
      | _ => .panicked
    else .failed .translations

def checkInBool (valueGiven valueAllowed : String) : Check Unit :=
  if valueGiven = "" ∧ valueAllowed = "" then pure () else checkInEnums valueGiven valueAllowed false

def boolTexts : List String :=
  ["1", "t", "T", "true", "TRUE", "True", "YES", "yes", "Yes", "Y", "y", "ON", "on", "On",
    "0", "f", "F", "false", "FALSE", "False", "NO", "no", "No", "N", "n", "OFF", "off", "Off"]

def checkDataType (name value : String) : Check Unit :=
  if name = "INT" then
    if (atoi value).isSome then pure () else .failed (.dataType name value)
  else if name = "FLOAT" then
    if (parseFloat32 value).2 then pure () else .failed (.dataType name value)
  else if name = "NUMBER" then
    if parsesFloat64 value then pure () else .failed (.dataType name value)
  else if name = "BOOL" then
    if value ∈ boolTexts then pure () else .failed (.dataType name value)
  else pure ()

def valueTypeSubRef : List (String × List String) :=
  [("STRING", ["", "ENUM", "ENUMS", "BYTES", "DURATION", "REGEX", "JSON", "MAP", "LIST", "GOVALIDATE"]),
    ("INT", ["ENUM", "RANGE"]), ("FLOAT", ["ENUM", "RANGE"]), ("NUMBER", ["ENUM", "RANGE"]),
    ("BOOL", ["ENUM"])]

def checkDataTypeSub (dataType subType : String) : Check Unit :=
  if subType = "" then pure ()
  else
    match valueTypeSubRef.lookup dataType with
    | some subs =>
      if subType ∈ subs then pure () else .failed (.dataTypeSub dataType subType subs)
    | none => .failed (.unknownType dataType)

def validateValueNumber (valueType valueTypeSub confValue valueAllowed : String) : Check Unit :=
  if valueAllowed = "" then pure ()
  else
    let detected := if valueTypeSub = "" then autoDetectTypeSub valueAllowed else valueTypeSub
    if detected = "" then .failed (.undetected valueAllowed)
    else if detected = "ENUM" then checkInEnums confValue valueAllowed false
    else if detected = "RANGE" then checkInRange confValue valueAllowed
    else .failed (.invalidSub detected valueType)

def validateValueString (valueType valueTypeSub confValue valueAllowed : String) : Check Unit :=
  if valueAllowed = "" ∧ ¬ (valueTypeSub = "JSON" ∨ valueTypeSub = "MAP") then pure ()
  else if valueTypeSub = "ENUM" then checkInEnums confValue valueAllowed false
  else if valueTypeSub = "ENUMS" then checkInEnums confValue valueAllowed true
  else if valueTypeSub = "REGEX" then checkInRegex env confValue valueAllowed
  else if valueTypeSub = "BYTES" then checkInSizeRange env confValue valueAllowed
  else if valueTypeSub = "DURATION" then checkInDuration env confValue valueAllowed
  else if valueTypeSub = "JSON" ∨ valueTypeSub = "MAP" then checkInJson env confValue
  else if valueTypeSub = "GOVALIDATE" then checkGoValidate env confValue valueAllowed
  else if valueTypeSub = "LIST" then pure ()
  else if valueTypeSub = "STRING" ∨ valueTypeSub = "" then
    if valueAllowed ≠ "" ∧ confValue ≠ valueAllowed then .failed (.mustMatch valueAllowed) else pure ()
  else .failed (.invalidSub valueTypeSub valueType)

def validateConfValue (confValue valueType valueTypeSub valueAllowed : String) : Check Unit :=
  if valueType = "" ∧ valueTypeSub = "" ∧ valueAllowed = "" then pure ()
  else do
    checkDataTypeSub valueType valueTypeSub
    if confValueHasBraces confValue then pure ()
    else do
      checkDataType valueType confValue
      if valueType = "BOOL" then
        if valueTypeSub = "ENUM" ∨ valueTypeSub = "" then checkInBool confValue valueAllowed
        else .failed (.invalidSub valueTypeSub valueType)
      else if valueType ∈ ["INT", "FLOAT", "NUMBER"] then
        validateValueNumber valueType valueTypeSub confValue valueAllowed
      else validateValueString env valueType valueTypeSub confValue valueAllowed

end Config
