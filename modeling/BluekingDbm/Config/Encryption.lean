import BluekingDbm.Config.Crypt

/-! Writing a value under a name that is flagged for encryption, and reading it back. -/
namespace Config

open Base64 (Bytes)

/-- `nilNameDef` is a panic: the name was looked up and is not defined. -/
inductive ItemError
  | crypt (confName : String) (e : CryptError)
  | nilNameDef
deriving DecidableEq

/-- The result of looking a name up: the lookup may fail, or find nothing. -/
abbrev NameLookup := Except Unit (Option ConfigNameDefModel)

/-- Values to be filled in later stand in double braces. -/
def confValueIsPlaceHolder (s : Bytes) : Bool :=
  decide ([123, 123] <+: s) && decide ([125, 125] <:+ s)

namespace ConfigModel

def handleFlagEncrypt (K : Codec) (keyPrefix : Bytes) (nameDef : NameLookup) (c : ConfigModel) :
    Except ItemError ConfigModel :=
  if (isEncryptedString c.confValue).2 then .ok c
  else if confValueIsPlaceHolder c.confValue then .ok c
  else
    match nameDef with
    | .error _ => .ok c
    | .ok none => .error .nilNameDef
    | .ok (some nameDef) =>
      if nameDef.flagEncrypt = 1 then
        match encryptString K c.confValue keyPrefix encryptEnableZip with
        | .ok confValue => .ok { c with confValue := confValue }
        | .error e => .error (.crypt c.confName e)
      else .ok c

/-- Only the start of the value tells whether it is encrypted. -/
def mayDecrypt (K : Codec) (keyPrefix : Bytes) (c : ConfigModel) : Except ItemError ConfigModel :=
  if (isEncryptedString c.confValue).2 then
    match decryptString K c.confValue keyPrefix encryptEnableZip with
    | .ok confValue => .ok { c with confValue := confValue }
    | .error e => .error (.crypt c.confName e)
  else .ok c

/-- Written and read back, the item is as it was. -/
def RoundTrips (K : Codec) (keyPrefix : Bytes) (nameDef : NameLookup) (c : ConfigModel) : Prop :=
  ∃ c', c.handleFlagEncrypt K keyPrefix nameDef = .ok c' ∧ c'.mayDecrypt K keyPrefix = .ok c

end ConfigModel

section Flagged

variable {K : Codec} {keyPrefix : Bytes} {nameDef : NameLookup} {d : ConfigNameDefModel}
  {c c' : ConfigModel}

theorem isEncryptedString_snd (p : Bytes) :
    (isEncryptedString p).2 = true ↔ flagEncrypt <+: p := by
  rw [isEncryptedString]
  split
  case isTrue h => exact iff_of_true rfl h
  case isFalse h => exact iff_of_false Bool.false_ne_true h

theorem handleFlagEncrypt_of_encrypted (h : flagEncrypt <+: c.confValue) :
    c.handleFlagEncrypt K keyPrefix nameDef = .ok c :=
  if_pos ((isEncryptedString_snd _).mpr h)

theorem mayDecrypt_of_plain (h : ¬ flagEncrypt <+: c.confValue) :
    c.mayDecrypt K keyPrefix = .ok c :=
  if_neg (mt (isEncryptedString_snd _).mp h)

/-- The plain values that a flagged name keeps as they are: placeholders and the empty value. -/
theorem handleFlagEncrypt_kept (hd : d.flagEncrypt = 1) (h : ¬ flagEncrypt <+: c.confValue)
    (hkept : confValueIsPlaceHolder c.confValue = true ∨ c.confValue = []) :
    c.handleFlagEncrypt K keyPrefix (.ok (some d)) = .ok c := by
  rw [ConfigModel.handleFlagEncrypt, if_neg (mt (isEncryptedString_snd _).mp h)]
  rcases hkept with hplace | hempty
  · exact if_pos hplace
  · have hplace : confValueIsPlaceHolder c.confValue = false := by
      rw [hempty]
      decide
    have hstays : encryptString K c.confValue keyPrefix encryptEnableZip = .ok c.confValue := by
      rw [hempty]
      rfl
    simp [hplace, hd, hstays]

/-- All other plain values are stored encrypted. -/
theorem handleFlagEncrypt_encrypts (hK : K.Lawful) (hd : d.flagEncrypt = 1)
    (h : ¬ flagEncrypt <+: c.confValue) (hplace : confValueIsPlaceHolder c.confValue = false)
    (hne : c.confValue ≠ []) :
    ∃ v, c.handleFlagEncrypt K keyPrefix (.ok (some d)) = .ok { c with confValue := v } ∧
      flagEncrypt <+: v ∧ decryptString K v keyPrefix encryptEnableZip = .ok c.confValue := by
  obtain ⟨v, henc, hflag, hdec⟩ := encryptString_ok hK h hne keyPrefix encryptEnableZip
  refine ⟨v, ?_, hflag, hdec⟩
  rw [ConfigModel.handleFlagEncrypt, if_neg (mt (isEncryptedString_snd _).mp h)]
  simp [hplace, hd, henc]

theorem roundTrips_of_plain (hK : K.Lawful) (hd : d.flagEncrypt = 1)
    (h : ¬ flagEncrypt <+: c.confValue) : c.RoundTrips K keyPrefix (.ok (some d)) := by
  by_cases hkept : confValueIsPlaceHolder c.confValue = true ∨ c.confValue = []
  · exact ⟨c, handleFlagEncrypt_kept hd h hkept, mayDecrypt_of_plain h⟩
  · obtain ⟨hplace, hne⟩ := not_or.mp hkept
    obtain ⟨v, henc, hflag, hdec⟩ :=
      handleFlagEncrypt_encrypts hK hd h (Bool.eq_false_iff.mpr hplace) hne
    refine ⟨{ c with confValue := v }, henc, ?_⟩
    rw [ConfigModel.mayDecrypt, if_pos ((isEncryptedString_snd _).mpr hflag), hdec]

/-- What has been stored is stored as it is the second time. -/
theorem handleFlagEncrypt_again (hK : K.Lawful) (hd : d.flagEncrypt = 1) :
    ∃ c', c.handleFlagEncrypt K keyPrefix (.ok (some d)) = .ok c' ∧
      c'.handleFlagEncrypt K keyPrefix (.ok (some d)) = .ok c' := by
  by_cases h : flagEncrypt <+: c.confValue
  · exact ⟨c, handleFlagEncrypt_of_encrypted h, handleFlagEncrypt_of_encrypted h⟩
  · by_cases hkept : confValueIsPlaceHolder c.confValue = true ∨ c.confValue = []
    · exact ⟨c, handleFlagEncrypt_kept hd h hkept, handleFlagEncrypt_kept hd h hkept⟩
    · obtain ⟨hplace, hne⟩ := not_or.mp hkept
      obtain ⟨v, henc, hflag, -⟩ :=
        handleFlagEncrypt_encrypts hK hd h (Bool.eq_false_iff.mpr hplace) hne
      exact ⟨_, henc, handleFlagEncrypt_of_encrypted hflag⟩

/-- Every value but those that start like an encrypted one reads back as written, and to write a
value again changes nothing. -/
theorem flagged_value_roundTrips (hK : K.Lawful) (hd : d.flagEncrypt = 1) :
    (¬ flagEncrypt <+: c.confValue → c.RoundTrips K keyPrefix (.ok (some d))) ∧
      ∃ c', c.handleFlagEncrypt K keyPrefix (.ok (some d)) = .ok c' ∧
        c'.handleFlagEncrypt K keyPrefix (.ok (some d)) = .ok c' :=
  ⟨roundTrips_of_plain hK hd, handleFlagEncrypt_again hK hd⟩

end Flagged

/-- The block that AES-256 makes of the padded text `mysql` under the key of the empty prefix, as
the difference to that text. -/
def mysqlMask : Bytes :=
  [0xde, 0x86, 0xe8, 0x31, 0xd1, 0xcd, 0x25, 0x54, 0x7c, 0x9e, 0x72, 0x16, 0x54, 0x12, 0xb8, 0xd3]

def maskBlocks (data : Bytes) : Bytes :=
  data.mapIdx fun i b => b ^^^ mysqlMask.getD (i % aesBlockSize) 0

/-- A codec that agrees with the real one on that text and key. -/
def maskCodec : Codec where
  cbcEncrypt _ _ data := maskBlocks data
  cbcDecrypt _ _ data := maskBlocks data
  gzipBytes data := data
  gunzipBytes data := some data

theorem maskBlocks_maskBlocks (data : Bytes) : maskBlocks (maskBlocks data) = data := by
  refine List.ext_getElem (by simp [maskBlocks]) ?_
  intro i hi hi'
  simp only [maskBlocks, List.getElem_mapIdx]
  rw [UInt8.xor_assoc, UInt8.xor_self, UInt8.xor_zero]

theorem maskCodec_lawful : maskCodec.Lawful where
  length_cbcEncrypt _ _ data _ _ _ := by simp [maskCodec, maskBlocks]
  cbcDecrypt_cbcEncrypt _ _ data _ _ _ := maskBlocks_maskBlocks data
  gunzip_gzip _ := rfl

def passwordDef : ConfigNameDefModel where
  id := 1
  nameSpace := "tendbha"
  confType := "init_user"
  confFile := "mysql#user"
  confName := "admin_pwd"
  confNameLC := ""
  valueDefault := []
  flagVisible := 1
  flagLocked := 0
  flagEncrypt := 1
  flagDisable := 0
  deleted := 0
  createFrom := ""

def passwordItem (confValue : String) : ConfigModel where
  id := 0
  bkBizID := "3"
  nameSpace := "tendbha"
  confType := "init_user"
  confFile := "mysql#user"
  confName := "admin_pwd"
  confValue := bytes confValue
  levelName := "app"
  levelValue := "3"
  description := ""
  flagDisable := 0
  flagLocked := 0
  updatedRevision := ""
  upLevelValue := none

example : (passwordItem "mysql").handleFlagEncrypt maskCodec [] (.ok (some passwordDef)) =
    .ok (passwordItem "**s/+bQL3GLl93lXkdXxmz2A==") := by decide +kernel

theorem flagged_mysql_roundTrips :
    (¬ flagEncrypt <+: (passwordItem "mysql").confValue →
      (passwordItem "mysql").RoundTrips maskCodec [] (.ok (some passwordDef))) ∧
      ∃ c', (passwordItem "mysql").handleFlagEncrypt maskCodec [] (.ok (some passwordDef)) = .ok c' ∧
        c'.handleFlagEncrypt maskCodec [] (.ok (some passwordDef)) = .ok c' :=
  flagged_value_roundTrips maskCodec_lawful rfl

/-- A password that starts with two stars is taken for an encrypted one: it is stored as it is and
cannot be read. -/
theorem starred_password_unreadable :
    ¬ (passwordItem "**secret").RoundTrips maskCodec [] (.ok (some passwordDef)) := by
  rintro ⟨c', hstored, hread⟩
  have hkept : (passwordItem "**secret").handleFlagEncrypt maskCodec [] (.ok (some passwordDef)) =
      .ok (passwordItem "**secret") := by decide +kernel
  obtain rfl := Except.ok.inj (hstored.symm.trans hkept)
  have herror : (passwordItem "**secret").mayDecrypt maskCodec [] =
      .error (.crypt "admin_pwd" .corruptBase64) := by decide +kernel
  cases hread.symm.trans herror

end Config
