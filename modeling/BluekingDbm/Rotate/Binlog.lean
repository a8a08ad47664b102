import BluekingDbm.Library.Padded

/-! The binlogs of one MySQL instance: their names, and their records in the local database. -/
namespace Rotate

/-- Files that are reserved for slaves that pull slowly. -/
def reserveMinBinlogNum : ℕ := 10

/-- A binlog in its directory; times are in nanoseconds. -/
structure BinlogFile where
  filename : String
  mtime : ℕ
  size : ℤ
  hasExecPerm : Bool
  deriving DecidableEq

def ibStatusNew : ℤ := -2
def ibStatusSuccess : ℤ := 4
def fileStatusRemoved : ℤ := 201
def fileStatusForceRemoved : ℤ := 202
def fileStatusNoNeedUpload : ℤ := 203
def fileStatusTooOldToRegister : ℤ := 204

/-- Uploaded, or not to be uploaded. -/
def statusSuccess : List ℤ := [ibStatusSuccess, fileStatusNoNeedUpload, fileStatusTooOldToRegister]

/-- A record of the instance; the file's time is kept in seconds. -/
structure BinlogFileModel where
  filename : String
  filesize : ℤ
  fileMtime : ℕ
  startTime : String
  stopTime : String
  dbRole : String
  backupEnable : Bool
  backupStatus : ℤ
  backupTaskid : String
  deriving DecidableEq

/-- A time as the records keep it. -/
def rfc3339 (time : ℕ) : ℕ := time / 10 ^ 9

/-- What stands behind the last dot of a name. -/
def afterDot (name : String) : List Char := (name.toList.reverse.takeWhile (· ≠ '.')).reverse

/-- The number at the end of a binlog's name. -/
def number (filename : String) : ℕ := Nat.ofDigitChars 10 (afterDot filename) 0

/-- `strings.LastIndex(name, ".")`. -/
def lastIndexDot (name : String) : ℤ :=
  if '.' ∈ name.toList then name.utf8ByteSize - (String.ofList (afterDot name)).utf8ByteSize - 1
  else -1

/-- A name as the server forms it: the number has at least six digits. -/
def binlogName (port : String) (n : ℕ) : String :=
  "binlog" ++ port ++ "." ++ String.ofList (List.replicate (6 - n.repr.length) '0' ++ n.repr.toList)

section Names

variable {port : String} {m n : ℕ}

/-- The digits of a name's number, with the zeros in front of them. -/
theorem binlogName_digits (port : String) (n : ℕ) : ∃ cs : List Char,
    binlogName port n = "binlog" ++ port ++ "." ++ String.ofList cs ∧
      (∀ c ∈ cs, c.isDigit = true) ∧ Nat.ofDigitChars 10 cs 0 = n ∧
      afterDot (binlogName port n) = cs :=
  ⟨Padded.digits 6 n, rfl, fun _ => Padded.digits_isDigit, Padded.ofDigitChars_digits 6 n,
    Padded.takeWhile_digits ("binlog" ++ port) 6 n⟩

theorem number_binlogName (port : String) (n : ℕ) : number (binlogName port n) = n := by
  obtain ⟨cs, -, -, hvalue, hcs⟩ := binlogName_digits port n
  rw [number, hcs, hvalue]

theorem binlogName_injective (h : binlogName port m = binlogName port n) : m = n := by
  rw [← number_binlogName port m, h, number_binlogName]

/-- All names of one instance have their dot at the same place. -/
theorem lastIndexDot_binlogName (port : String) (n : ℕ) :
    lastIndexDot (binlogName port n) = ("binlog" ++ port).utf8ByteSize := by
  obtain ⟨cs, hname, -, -, hcs⟩ := binlogName_digits port n
  have hdot : '.' ∈ (binlogName port n).toList := by
    rw [hname]
    simp
  have hsize : ".".utf8ByteSize = 1 := rfl
  rw [lastIndexDot, if_pos hdot, hcs, hname, String.utf8ByteSize_append, String.utf8ByteSize_append,
    hsize]
  omega

/-- Names of one length are ordered as their numbers. -/
theorem binlogName_lt (h : (binlogName port m).length = (binlogName port n).length) :
    binlogName port m < binlogName port n ↔ m < n := by
  obtain ⟨cs, hcs, hcsdigits, hcsvalue, -⟩ := binlogName_digits port m
  obtain ⟨ds, hds, hdsdigits, hdsvalue, -⟩ := binlogName_digits port n
  have hlength : cs.length = ds.length := by
    rw [hcs, hds, String.length_append, String.length_append _ (String.ofList ds),
      String.length_ofList, String.length_ofList] at h
    omega
  have hfront : ∀ front : List Char, front ++ cs < front ++ ds ↔ cs < ds := by
    intro front
    rw [Padded.append_lt_append_iff rfl]
    simp
  have hlist : ∀ es : List Char, ("binlog" ++ port ++ "." ++ String.ofList es).toList =
      ("binlog" ++ port ++ ".").toList ++ es := by
    intro es
    rw [String.toList_append, String.toList_ofList]
  rw [String.lt_iff, hcs, hds, hlist, hlist, hfront,
    Padded.lt_iff_ofDigitChars_lt hlength hcsdigits hdsdigits, hcsvalue, hdsvalue]

/-- A name lies behind the dot that stands for an empty path. -/
theorem dot_lt_binlogName (port : String) (n : ℕ) : "." < binlogName port n := by
  obtain ⟨cs, hname, -⟩ := binlogName_digits port n
  have hlist : (binlogName port n).toList =
      'b' :: ("inlog".toList ++ port.toList ++ ['.'] ++ cs) := by
    rw [hname]
    simp
  rw [String.lt_iff, hlist]
  exact List.cons_lt_cons_iff.mpr (Or.inl (by decide))

end Names

end Rotate
