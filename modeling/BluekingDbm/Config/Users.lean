import BluekingDbm.Config.Merge
import BluekingDbm.Library.Pieces

/-! Lists of users in the form in which they are read and written. -/
namespace Config

open Base64 (Bytes)

variable {K : Codec} {keyPrefix : Bytes} {nameDef : NameLookup} {c c' : ConfigModel} {v : Bytes}

def isBlank (b : UInt8) : Bool := decide (b ∈ ([9, 10, 12, 13, 32] : Bytes))

def isUserSep (b : UInt8) : Bool := b == 44 || b == 59

theorem uniqueUsers_eq (v : Bytes) : uniqueUsers v = List.intercalate [44]
    (((v.filter fun b => !isBlank b).splitOnP isUserSep).filter fun u => !u.isEmpty).eraseDups := by
  have hblank : (fun b => decide (b ∉ ([9, 10, 12, 13, 32] : Bytes))) = fun b => !isBlank b := by
    funext b
    exact decide_not
  rw [uniqueUsers, hblank]
  rfl

/-- Users without separators and blanks, each once, are read back as they are. -/
theorem uniqueUsers_intercalate {us : List Bytes} (hnodup : us.Nodup) (hne : ∀ u ∈ us, u ≠ [])
    (hplain : ∀ u ∈ us, ∀ b ∈ u, isBlank b = false ∧ isUserSep b = false) :
    uniqueUsers (List.intercalate [44] us) = List.intercalate [44] us := by
  have hblank : (List.intercalate [44] us).filter (fun b => !isBlank b) = List.intercalate [44] us := by
    refine List.filter_eq_self.mpr ?_
    intro b hb
    rcases Pieces.mem_intercalate hb with rfl | ⟨u, hu, hb⟩
    · decide
    · rw [(hplain u hu b hb).1]
      rfl
  rw [uniqueUsers_eq, hblank]
  by_cases hus : us = []
  · rw [hus]
    rfl
  · rw [Pieces.splitOnP_intercalate (fun u hu b hb => (hplain u hu b hb).2) hus (by decide)]
    have hkept : us.filter (fun u => !u.isEmpty) = us :=
      List.filter_eq_self.mpr fun u hu => by simpa using hne u hu
    rw [hkept, Pieces.eraseDups_of_nodup hnodup]

theorem uniqueUsers_uniqueUsers (v : Bytes) : uniqueUsers (uniqueUsers v) = uniqueUsers v := by
  rw [uniqueUsers_eq v]
  refine uniqueUsers_intercalate (Pieces.nodup_eraseDups _) ?_ ?_
  · intro u hu
    simpa using (List.mem_filter.mp (List.mem_eraseDups.mp hu)).2
  · intro u hu b hb
    obtain ⟨hmem, hsep⟩ :=
      Pieces.mem_splitOnP (List.mem_filter.mp (List.mem_eraseDups.mp hu)).1 b hb
    exact ⟨by simpa using (List.mem_filter.mp hmem).2, hsep⟩

/-- An encrypted value has neither separators nor blanks. -/
theorem uniqueUsers_encryptByAes {data key : Bytes} {zip : Bool}
    (h : encryptByAes K data key zip = .ok v) : uniqueUsers v = v := by
  have hform : ∃ text, v = flagEncrypt ++ Base64.encode text := by
    rw [encryptByAes] at h
    cases hres : aesEncrypt K data key with
    | error e =>
      rw [hres] at h
      cases h
    | ok res =>
      rw [hres] at h
      exact ⟨_, (Except.ok.inj h).symm⟩
  obtain ⟨text, rfl⟩ := hform
  have hencoded : ∀ b ∈ Base64.encode text, isBlank b = false ∧ isUserSep b = false :=
    Base64.encode_forall (by decide) (by decide) text
  have hplain : ∀ b ∈ flagEncrypt ++ Base64.encode text, isBlank b = false ∧ isUserSep b = false := by
    intro b hb
    rcases List.mem_append.mp hb with hb | hb
    · obtain rfl : b = 42 := by simpa [flagEncrypt] using hb
      decide
    · exact hencoded b hb
  have hone := @uniqueUsers_intercalate [flagEncrypt ++ Base64.encode text] (List.nodup_singleton _)
    (by simp [flagEncrypt]) (by simpa using hplain)
  simpa [List.intercalate] using hone

theorem processConfig_idem (c : ConfigModel) : processConfig (processConfig c) = processConfig c := by
  by_cases h : c.confType = "user" ∨ c.confFile = "notifier"
  · simp [processConfig, h, uniqueUsers_uniqueUsers]
  · simp [processConfig, h]

/-- Encryption leaves a processed item processed. -/
theorem processConfig_handleFlagEncrypt (hc : processConfig c = c)
    (h : c.handleFlagEncrypt K keyPrefix nameDef = .ok c') : processConfig c' = c' := by
  unfold ConfigModel.handleFlagEncrypt at h
  split at h
  · exact Except.ok.inj h ▸ hc
  · split at h
    · exact Except.ok.inj h ▸ hc
    · split at h
      · exact Except.ok.inj h ▸ hc
      · cases h
      · split at h
        · cases hcipher : encryptString K c.confValue keyPrefix encryptEnableZip with
          | error e =>
            rw [hcipher] at h
            cases h
          | ok v =>
            rw [hcipher] at h
            obtain rfl := Except.ok.inj h
            rw [encryptString] at hcipher
            split at hcipher
            · obtain rfl := Except.ok.inj hcipher
              exact hc
            · split at hcipher
              case isTrue hempty =>
                obtain rfl := Except.ok.inj hcipher
                rw [← hempty]
                exact hc
              case isFalse =>
                rw [processConfig]
                split
                · dsimp only
                  rw [uniqueUsers_encryptByAes hcipher]
                · rfl
        · exact Except.ok.inj h ▸ hc

end Config
