import BluekingDbm.Library.Base64
import Mathlib.Data.Int.Basic

/-! The rows of the configuration centre: definitions of names, their overrides on the platform, and
the values that the nodes of the level tree set. Values are byte strings. -/
namespace Config

open Base64 (Bytes)

def bytes (s : String) : Bytes := s.toUTF8.data.toList

/-- Which level and value a configuration item comes from, and its value there. -/
structure UpLevelValue where
  levelName : String
  levelValue : String
  confValue : Bytes
deriving DecidableEq

structure ConfigModel where
  id : ℕ
  bkBizID : String
  nameSpace : String
  confType : String
  confFile : String
  confName : String
  confValue : Bytes
  levelName : String
  levelValue : String
  description : String
  flagDisable : ℤ
  flagLocked : ℤ
  updatedRevision : String
  upLevelValue : Option UpLevelValue
deriving DecidableEq

/-- Rows of the definitions and of the platform overrides; `deleted` is used by overrides only. -/
structure ConfigNameDefModel where
  id : ℕ
  nameSpace : String
  confType : String
  confFile : String
  confName : String
  confNameLC : String
  valueDefault : Bytes
  flagVisible : ℤ
  flagLocked : ℤ
  flagEncrypt : ℤ
  flagDisable : ℤ
  deleted : ℤ
  createFrom : String
deriving DecidableEq

end Config
