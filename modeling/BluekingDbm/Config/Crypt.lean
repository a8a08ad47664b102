import BluekingDbm.Config.Model

/-! Values under encryption: AES in CBC mode over padded blocks, written as base64 behind two
stars. -/
namespace Config

open Base64 (Bytes)

/-- The ciphers and the compression of the platform. -/
structure Codec where
  cbcEncrypt (key iv data : Bytes) : Bytes
  cbcDecrypt (key iv data : Bytes) : Bytes
  gzipBytes (data : Bytes) : Bytes
  gunzipBytes (data : Bytes) : Option Bytes

def aesBlockSize : ℕ := 16

/-- On whole blocks the cipher can be undone, and what is packed can be unpacked. -/
structure Codec.Lawful (K : Codec) : Prop where
  length_cbcEncrypt : ∀ key iv data, key.length = 32 → iv.length = aesBlockSize →
    aesBlockSize ∣ data.length → (K.cbcEncrypt key iv data).length = data.length
  cbcDecrypt_cbcEncrypt : ∀ key iv data, key.length = 32 → iv.length = aesBlockSize →
    aesBlockSize ∣ data.length → K.cbcDecrypt key iv (K.cbcEncrypt key iv data) = data
  gunzip_gzip : ∀ data, K.gunzipBytes (K.gzipBytes data) = some data

/-- `partialBlocks` is a panic of the cipher. -/
inductive CryptError
  | keySize (size : ℕ)
  | partialBlocks
  | corruptBase64
  | corruptGzip
  | nothingDecrypted
  | badPadding
deriving DecidableEq

/-- What a flagged value starts with. -/
def flagEncrypt : Bytes := [42, 42]

def pkcs7Padding (data : Bytes) (blockSize : ℕ) : Bytes :=
  let padding := blockSize - data.length % blockSize
  data ++ List.replicate padding (UInt8.ofNat padding)

def pkcs7UnPadding (data : Bytes) : Except CryptError Bytes :=
  match data.getLast? with
  | none => .error .nothingDecrypted
  | some last =>
    let num : ℤ := data.length - last.toNat
    if num ≤ 0 then .error .badPadding else .ok (data.take num.toNat)

/-- Keys are brought to 32 bytes. -/
def fitKey (key : Bytes) : Bytes :=
  if key.length < 32 then pkcs7Padding key 32
  else if 32 < key.length then key.take 32
  else key

def newCipher (key : Bytes) : Except CryptError Unit :=
  if key.length = 16 ∨ key.length = 24 ∨ key.length = 32 then .ok ()
  else .error (.keySize key.length)

def aesEncrypt (K : Codec) (plaintext key : Bytes) : Except CryptError Bytes := do
  let key := fitKey key
  newCipher key
  let plaintext := pkcs7Padding plaintext aesBlockSize
  if plaintext.length % aesBlockSize ≠ 0 then throw .partialBlocks
  return K.cbcEncrypt key (key.take aesBlockSize) plaintext

def aesDecrypt (K : Codec) (ciphertext key : Bytes) : Except CryptError Bytes := do
  let key := fitKey key
  newCipher key
  if ciphertext.length % aesBlockSize ≠ 0 then throw .partialBlocks
  pkcs7UnPadding (K.cbcDecrypt key (key.take aesBlockSize) ciphertext)

def encryptByAes (K : Codec) (data key : Bytes) (zip : Bool) : Except CryptError Bytes := do
  let res ← aesEncrypt K data key
  return flagEncrypt ++ Base64.encode (if zip then K.gzipBytes res else res)

def decryptByAes (K : Codec) (data key : Bytes) (unzip : Bool) : Except CryptError Bytes :=
  match Base64.decode data with
  | none => .error .corruptBase64
  | some dataByte =>
    match if unzip then K.gunzipBytes dataByte else some dataByte with
    | none => .error .corruptGzip
    | some dataByte => aesDecrypt K dataByte key

/-- The text behind the leading stars, for a value that starts with two. -/
def isEncryptedString (data : Bytes) : Bytes × Bool :=
  if flagEncrypt <+: data then (data.dropWhile (· == 42), true) else (data, false)

def encryptString (K : Codec) (p k : Bytes) (zip : Bool) : Except CryptError Bytes :=
  if (isEncryptedString p).2 then .ok p
  else if p = [] then .ok []
  else encryptByAes K p k zip

def decryptString (K : Codec) (c k : Bytes) (unzip : Bool) : Except CryptError Bytes :=
  let (c, isEncrypted) := isEncryptedString c
  if isEncrypted then decryptByAes K c k unzip else .ok c

def encryptEnableZip : Bool := false

theorem length_pkcs7Padding (data : Bytes) {blockSize : ℕ} (h : 0 < blockSize) :
    (pkcs7Padding data blockSize).length = (data.length / blockSize + 1) * blockSize := by
  have hmod := Nat.mod_lt data.length h
  have hdiv := Nat.div_add_mod data.length blockSize
  rw [pkcs7Padding, List.length_append, List.length_replicate, Nat.add_mul, Nat.one_mul, Nat.mul_comm]
  omega

theorem pkcs7UnPadding_pkcs7Padding {data : Bytes} {blockSize : ℕ} (hdata : data ≠ [])
    (hpos : 0 < blockSize) (hlt : blockSize < 256) :
    pkcs7UnPadding (pkcs7Padding data blockSize) = .ok data := by
  have hmod := Nat.mod_lt data.length hpos
  have hlen := List.length_pos_iff.mpr hdata
  have hbyte : (UInt8.ofNat (blockSize - data.length % blockSize)).toNat =
      blockSize - data.length % blockSize := by
    rw [UInt8.toNat_ofNat']
    exact Nat.mod_eq_of_lt (by omega)
  have hlast : (pkcs7Padding data blockSize).getLast? =
      some (UInt8.ofNat (blockSize - data.length % blockSize)) := by
    rw [pkcs7Padding, List.getLast?_append, List.getLast?_replicate, if_neg (by omega)]
    rfl
  have htotal : (pkcs7Padding data blockSize).length =
      data.length + (blockSize - data.length % blockSize) := by
    rw [pkcs7Padding, List.length_append, List.length_replicate]
  have hnum : ((pkcs7Padding data blockSize).length : ℤ) -
      (UInt8.ofNat (blockSize - data.length % blockSize)).toNat = data.length := by
    rw [hbyte, htotal]
    omega
  rw [pkcs7UnPadding, hlast]
  simp only [hnum, Int.toNat_natCast]
  rw [if_neg (by omega), pkcs7Padding, List.take_left]

theorem length_fitKey (key : Bytes) : (fitKey key).length = 32 := by
  rw [fitKey]
  split
  · rw [length_pkcs7Padding key (by decide)]
    omega
  · split
    · rw [List.length_take]
      omega
    · omega

theorem newCipher_fitKey (key : Bytes) : newCipher (fitKey key) = .ok () :=
  if_pos (Or.inr (Or.inr (length_fitKey key)))

theorem length_iv (key : Bytes) : ((fitKey key).take aesBlockSize).length = aesBlockSize := by
  rw [List.length_take, length_fitKey]
  rfl

section Lawful

variable {K : Codec} {p : Bytes}

theorem aesEncrypt_ok (hK : K.Lawful) (p key : Bytes) :
    ∃ c, aesEncrypt K p key = .ok c ∧ (p ≠ [] → aesDecrypt K c key = .ok p) := by
  have hdvd : aesBlockSize ∣ (pkcs7Padding p aesBlockSize).length := by
    rw [length_pkcs7Padding p (by decide)]
    exact Nat.dvd_mul_left ..
  have hwhole : (pkcs7Padding p aesBlockSize).length % aesBlockSize = 0 := Nat.mod_eq_zero_of_dvd hdvd
  refine ⟨K.cbcEncrypt (fitKey key) ((fitKey key).take aesBlockSize) (pkcs7Padding p aesBlockSize),
    ?_, ?_⟩
  · simp [aesEncrypt, newCipher_fitKey, hwhole, bind, Except.bind, pure, Except.pure]
  · intro hp
    have hlen := hK.length_cbcEncrypt _ _ _ (length_fitKey key) (length_iv key) hdvd
    have hdec := hK.cbcDecrypt_cbcEncrypt _ _ _ (length_fitKey key) (length_iv key) hdvd
    have hunpad : pkcs7UnPadding (pkcs7Padding p aesBlockSize) = .ok p :=
      pkcs7UnPadding_pkcs7Padding hp (by decide) (by decide)
    simp [aesDecrypt, newCipher_fitKey, hlen, hwhole, hdec, hunpad, bind, Except.bind]

theorem isEncryptedString_flag (bytes : Bytes) :
    isEncryptedString (flagEncrypt ++ Base64.encode bytes) = (Base64.encode bytes, true) := by
  have hdrop : (flagEncrypt ++ Base64.encode bytes).dropWhile (· == 42) = Base64.encode bytes := by
    have hplain := Base64.encode_plain bytes
    cases h : Base64.encode bytes with
    | nil => rfl
    | cons c rest =>
      have hc : c ≠ 42 := (hplain c (h ▸ List.mem_cons_self)).2.2
      have hbeq : (c == 42) = false := beq_false_of_ne hc
      simp [flagEncrypt, List.dropWhile, hbeq]
  rw [isEncryptedString, if_pos (List.prefix_append ..), hdrop]

theorem isEncryptedString_of_not_prefix (h : ¬ flagEncrypt <+: p) :
    isEncryptedString p = (p, false) := if_neg h

/-- What does not look encrypted is encrypted into what does, and comes back. -/
theorem encryptString_ok (hK : K.Lawful) (hp : ¬ flagEncrypt <+: p) (hne : p ≠ []) (key : Bytes)
    (zip : Bool) : ∃ c, encryptString K p key zip = .ok c ∧ flagEncrypt <+: c ∧
      decryptString K c key zip = .ok p := by
  obtain ⟨res, henc, hdec⟩ := aesEncrypt_ok hK p key
  refine ⟨flagEncrypt ++ Base64.encode (if zip then K.gzipBytes res else res), ?_,
    List.prefix_append .., ?_⟩
  · rw [encryptString, isEncryptedString_of_not_prefix hp, if_neg Bool.false_ne_true, if_neg hne,
      encryptByAes, henc]
    rfl
  · have hunzip : (if zip then K.gunzipBytes (if zip then K.gzipBytes res else res) else
        some (if zip then K.gzipBytes res else res)) = some res := by
      cases zip with
      | false => rfl
      | true => exact hK.gunzip_gzip res
    rw [decryptString, isEncryptedString_flag]
    simp only [if_true, decryptByAes, Base64.decode_encode, hunzip]
    exact hdec hne

end Lawful

end Config
