import BluekingDbm.Pitr.BackupFile
import BluekingDbm.Library.Numeral
import BluekingDbm.Library.Timestamp

/-! The names of the backup files: how they are made, and what is read back from them. -/
namespace Pitr

open Calendar Timestamp Numeral

/-- `HasPrefix`, `HasSuffix`, `TrimPrefix` and `TrimSuffix` of the strings package. -/
def hasStart (s front : String) : Bool := decide (front.toList <+: s.toList)
def hasEnd (s back : String) : Bool := decide (back.toList <:+ s.toList)

def trimStart (s front : String) : String :=
  if hasStart s front then String.ofList (s.toList.drop front.toList.length) else s

def trimEnd (s back : String) : String :=
  if hasEnd s back then String.ofList (s.toList.take (s.toList.length - back.toList.length)) else s

def BackupType.text : BackupType → String
  | full => "FULL"
  | incr => "INCR"

/-- A backup file with all that its name is made of. -/
structure NamedFile extends BackupFileName where
  endTime : ℕ
  suffix : String
  host : String
  port : String
  name : String
  deriving DecidableEq, Repr

section Times

/-- The offset of the local zone. -/
def localOffset : ℤ := 8 * 3600

/-- `Format("2006010215")`. -/
def hourStr (seconds : ℕ) : String :=
  String.ofList ((ofDays (wallDay localOffset seconds)).basic ++
    Padded.digits 2 (wallSecond localOffset seconds / 3600))

/-- `Format("20060102150405")`. -/
def secondStr (seconds : ℕ) : String :=
  String.ofList ((ofDays (wallDay localOffset seconds)).basic ++
    (Padded.digits 2 (wallSecond localOffset seconds / 3600) ++
      (Padded.digits 2 (wallSecond localOffset seconds / 60 % 60) ++
        Padded.digits 2 (wallSecond localOffset seconds % 60))))

/-- A fraction of a second may stand behind any layout. -/
def isFraction : List Char → Bool
  | [] => true
  | c :: ds => (c == '.' || c == ',') && ds ≠ [] && ds.all Char.isDigit

/-- `time.Parse` with the layout `20060102150405`, for a date from year one on: the day and the
second of the day. -/
def parseSecond (text : List Char) : Option (ℕ × ℕ) :=
  let front := text.take 14
  let time := front.drop 8
  let hour := Nat.ofDigitChars 10 (time.take 2) 0
  let minute := Nat.ofDigitChars 10 ((time.drop 2).take 2) 0
  let second := Nat.ofDigitChars 10 (time.drop 4) 0
  if front.length = 14 ∧ time.all Char.isDigit ∧ hour < 24 ∧ minute < 60 ∧ second < 60 ∧
      isFraction (text.drop 14) then
    (parseBasic (front.take 8)).map fun day => (day, hour * 3600 + minute * 60 + second)
  else none

/-- The seconds since 1970 that a clock at UTC shows. -/
def wallSeconds (day second : ℕ) : ℤ := ((day : ℤ) - epoch) * 86400 + second

/-- The zone that the decoder reads times in: its offset at what its clock shows. -/
abbrev Zone := ℤ → Offset

def convertFileNameTimeStringToUnixTime (chongqing : Zone) (sec : String) : Except String ℕ :=
  match parseSecond sec.toList with
  | none => .error "bad format: sec:"
  | some (day, second) =>
    let wall := wallSeconds day second
    .ok ((wall - chongqing wall) % 2 ^ 32).toNat

/-- `strconv.ParseUint(s, 10, 32)`. -/
def parseUint32 (s : String) : Option ℕ := (digits s.toList).filter fun n => n < 2 ^ 32

def convertFileNameTimeStringToTs (chongqing : Zone) (sec i : String) : Except String TS :=
  match convertFileNameTimeStringToUnixTime chongqing sec with
  | .error err => .error ("bad format: Sec:" ++ err)
  | .ok sec =>
    match parseUint32 i with
    | none => .error "bad format: I:"
    | some i => .ok ⟨sec, i⟩

end Times

section Names

def getV0FullStr (f : NamedFile) : String :=
  if f.v0FullStr ≠ "" then f.v0FullStr else hourStr f.startTime

def getFileUniqName (f : NamedFile) : Except String String :=
  let base := f.name ++ "-" ++ f.type.text ++ "-" ++ f.host ++ "-" ++ f.port ++ "-"
  match f.version, f.type with
  | .v0, .full =>
    .ok ("mongodump-" ++ base ++ hourStr f.startTime ++ "-" ++ secondStr f.lastTs.sec)
  | .v0, .incr =>
    if f.v0IncrSeq = 0 then .error "incr seq error"
    else if f.v0FullStr = "" then .error "full str error"
    else
      .ok ("mongodump-" ++ base ++ f.v0FullStr ++ "-" ++ f.v0IncrSeq.toNat.repr ++ "-" ++
        secondStr f.lastTs.sec)
  | .v1, .full =>
    let sec := if f.lastTs.sec = 0 then f.endTime % 2 ^ 32 else f.lastTs.sec
    .ok ("mongodump-v1-" ++ base ++ secondStr sec ++ "-" ++ f.lastTs.i.repr)
  | .v1, .incr =>
    .ok ("mongodump-v1-" ++ base ++ secondStr f.firstTs.sec ++ "-" ++ f.firstTs.i.repr ++ "-" ++
      secondStr f.lastTs.sec ++ "-" ++ f.lastTs.i.repr)

def getFileName (f : NamedFile) : Except String String :=
  (getFileUniqName f).map fun uid => uid ++ f.suffix

/-- The instance that is backed up. -/
structure MongoHost where
  host : String
  port : String
  name : String

def makeFileName (version : BackupFileVersion) (conn : MongoHost) (type : BackupType)
    (startTime endTime : ℕ) (firstTs lastTs : Option TS) (fullStr : String) (incrSeq : UInt32) :
    Except String NamedFile :=
  match firstTs, lastTs with
  | some firstTs, some lastTs =>
    if firstTs.sec = 0 ∨ lastTs.sec = 0 then .error "bad ts info"
    else
      .ok { version, type, startTime, endTime, firstTs, lastTs
            fileName := "", suffix := "", host := conn.host, port := conn.port, name := conn.name
            v0FullStr := fullStr, v0IncrSeq := incrSeq }
  | _, _ => .error "bad ts info"

/-- A new file, once its unique name is there. -/
def named (made : Except String NamedFile) (suffix : String) : Except String NamedFile :=
  match made.bind fun f => (getFileUniqName f).map fun uid => (f, uid) with
  | .error err => .error ("MakeFileName: " ++ err)
  | .ok (f, uid) => .ok { f with suffix, fileName := uid ++ suffix }

/-- Without zip the directory is packed into a `.tar.gz`. -/
def fullSuffix (zip archive : Bool) : String :=
  if archive then (if zip then ".archive.zst" else ".archive")
  else if zip then ".tar" else ".tar.gz"

def incrSuffix (zip archive : Bool) : String :=
  if archive then "-oplog.rs.bson.zst"
  else if zip then "-oplog.rs.bson.gz"
  else "-oplog.rs.bson"

/-- The file that DoBackupFull returns once the dump is done. -/
def doBackupFull (conn : MongoHost) (startTime endTime : ℕ) (firstTs lastTs : Option TS)
    (zip archive : Bool) : Except String NamedFile :=
  named (makeFileName .v0 conn .full startTime endTime firstTs lastTs "" 0) (fullSuffix zip archive)

/-- The file that DoBackupIncr returns once the dump is done. -/
def doBackupIncr (conn : MongoHost) (lastBackup : NamedFile) (startTime endTime : ℕ)
    (firstTs lastTs : Option TS) (zip archive : Bool) : Except String NamedFile :=
  named (makeFileName .v0 conn .incr startTime endTime firstTs lastTs (getV0FullStr lastBackup)
    (lastBackup.v0IncrSeq + 1)) (incrSuffix zip archive)

end Names

section Decoding

/-- The fields between the dashes, without what stands in front and behind. -/
def fieldsOf (filename front : String) (suffixes : List String) : List String :=
  Text.split (suffixes.foldl trimEnd (trimStart filename front)) '-'

/-- `fields[fn-k]`. -/
def fromEnd (fields : List String) (k : ℕ) : String := fields.reverse.getD (k - 1) ""

/-- `strings.Join(fields[:fn-k], "-")`. -/
def nameBefore (fields : List String) (k : ℕ) : String :=
  "-".intercalate (fields.take (fields.length - k))

/-- The suffixes that are taken off, one after the other. -/
def fullBacks : List String := [".gz", ".tar", ".archive", ".archive.gz", ".archive.zst", ".archive.zstd"]

def incrBacks : List String := [".gz", ".archive.zstd", ".zst", ".oplog.rs.bson", "-oplog.rs.bson"]

def decodeFileV0FULL (chongqing : Zone) (filename : String) : Except String NamedFile :=
  let fields := fieldsOf filename "mongodump-" fullBacks
  if fields.length < 7 then .error "bad format"
  else
    match convertFileNameTimeStringToTs chongqing (fromEnd fields 1) "0" with
    | .error err => .error ("bad format: LastTs (" ++ fromEnd fields 1 ++ " 0)err:" ++ err)
    | .ok lastTs =>
      if fromEnd fields 5 ≠ BackupType.full.text then .error "bad format:Type"
      else
        .ok { version := .v0, type := .full, fileName := filename, startTime := 0, endTime := 0
              firstTs := ⟨0, 0⟩, lastTs, v0FullStr := fromEnd fields 2, v0IncrSeq := 0, suffix := ""
              port := fromEnd fields 3, host := fromEnd fields 4, name := nameBefore fields 5 }

def decodeFileV0INCR (chongqing : Zone) (filename : String) : Except String NamedFile :=
  let fields := fieldsOf filename "mongodump-" incrBacks
  if fields.length < 8 then .error s!"bad format: len {fields.length}"
  else
    match convertFileNameTimeStringToTs chongqing (fromEnd fields 1) "0" with
    | .error err => .error ("bad format: LastTs (" ++ fromEnd fields 1 ++ " 0)err:" ++ err)
    | .ok lastTs =>
      match parseUint32 (fromEnd fields 2) with
      | none => .error "bad format: V0IncrSeq:"
      | some incrSeq =>
        if fromEnd fields 6 ≠ BackupType.incr.text then .error "bad format: Type"
        else
          .ok { version := .v0, type := .incr, fileName := filename, startTime := 0, endTime := 0
                firstTs := ⟨0, 0⟩, lastTs, v0FullStr := fromEnd fields 3
                v0IncrSeq := UInt32.ofNat incrSeq, suffix := ""
                port := fromEnd fields 4, host := fromEnd fields 5, name := nameBefore fields 6 }

def decodeFileV1FULL (chongqing : Zone) (filename : String) : Except String NamedFile :=
  let fields := fieldsOf filename "mongodump-v1-" [".gz", ".tar"]
  if fields.length ≤ 7 then .error "bad format: field len < 7 "
  else
    match convertFileNameTimeStringToTs chongqing (fromEnd fields 2) (fromEnd fields 1) with
    | .error err =>
      .error ("bad format: LastTs (" ++ fromEnd fields 2 ++ " " ++ fromEnd fields 1 ++ ")err:" ++ err)
    | .ok lastTs =>
      if fromEnd fields 5 ≠ BackupType.full.text then .error "bad format:Type"
      else
        .ok { version := .v1, type := .full, fileName := filename, startTime := 0, endTime := 0
              firstTs := ⟨0, 0⟩, lastTs, v0FullStr := "", v0IncrSeq := 0, suffix := ""
              port := fromEnd fields 3, host := fromEnd fields 4, name := nameBefore fields 5 }

def decodeFileV1INCR (chongqing : Zone) (filename : String) : Except String NamedFile :=
  let fields := fieldsOf filename "mongodump-v1-" [".gz", ".oplog.rs.bson", "-oplog.rs.bson"]
  if fields.length ≤ 9 then .error "bad format: field len < 9 "
  else
    match convertFileNameTimeStringToTs chongqing (fromEnd fields 2) (fromEnd fields 1),
        convertFileNameTimeStringToTs chongqing (fromEnd fields 4) (fromEnd fields 3) with
    | .error err, _ =>
      .error ("bad format: LastTs (" ++ fromEnd fields 2 ++ " " ++ fromEnd fields 1 ++ ")err:" ++ err)
    | .ok _, .error err => .error ("bad format: FirstTs:" ++ err)
    | .ok lastTs, .ok firstTs =>
      if fromEnd fields 7 ≠ BackupType.incr.text then .error "bad format:Type"
      else
        .ok { version := .v1, type := .incr, fileName := filename, startTime := 0, endTime := 0
              firstTs, lastTs, v0FullStr := "", v0IncrSeq := 0, suffix := ""
              port := fromEnd fields 5, host := fromEnd fields 6, name := nameBefore fields 7 }

def decodeFilename (chongqing : Zone) (filename : String) : Except String NamedFile :=
  if hasStart filename "mongodump-v1" then
    if hasEnd filename "oplog.rs.bson.gz" || hasEnd filename "oplog.rs.bson" then
      decodeFileV1INCR chongqing filename
    else if hasEnd filename ".tar" || hasEnd filename ".tar.gz" then
      decodeFileV1FULL chongqing filename
    else .error "bad format: Suffix"
  else if hasStart filename "mongodump-" then
    if hasEnd filename "oplog.rs.bson.gz" || hasEnd filename "oplog.rs.bson" ||
        hasEnd filename "oplog.rs.bson.zst" || hasEnd filename "oplog.rs.bson.archive.zstd" then
      decodeFileV0INCR chongqing filename
    else if hasEnd filename ".tar" || hasEnd filename ".tar.gz" || hasEnd filename ".archive" ||
        hasEnd filename ".archive.gz" || hasEnd filename ".archive.zst" ||
        hasEnd filename ".archive.zstd" then
      decodeFileV0FULL chongqing filename
    else .error "bad format: Suffix"
  else .error "bad format: Prefix"

end Decoding

section Ends

variable {s t back front : String} {suffixes : List String}

theorem hasEnd_append (s back : String) : hasEnd (s ++ back) back = true := by
  rw [hasEnd, String.toList_append]
  exact decide_eq_true (List.suffix_append _ _)

/-- A text does not end with what neither its end ends with nor ends with its end. -/
theorem hasEnd_append_false (h : ¬ back.toList <:+ t.toList) (h' : ¬ t.toList <:+ back.toList) :
    hasEnd (s ++ t) back = false := by
  apply decide_eq_false
  rw [String.toList_append]
  intro hback
  rcases List.suffix_or_suffix_of_suffix hback (List.suffix_append s.toList t.toList) with hboth | hboth
  · exact h hboth
  · exact h' hboth

theorem trimEnd_append (s back : String) : trimEnd (s ++ back) back = s := by
  rw [trimEnd, if_pos (hasEnd_append s back), String.toList_append, List.length_append,
    Nat.add_sub_cancel, List.take_left, String.ofList_toList]

theorem trimEnd_of_not (h : hasEnd s back = false) : trimEnd s back = s := by
  rw [trimEnd, if_neg (by rw [h]; exact Bool.false_ne_true)]

theorem trimStart_append (front s : String) : trimStart (front ++ s) front = s := by
  have hstart : hasStart (front ++ s) front = true := by
    rw [hasStart, String.toList_append]
    exact decide_eq_true (List.prefix_append _ _)
  rw [trimStart, if_pos hstart, String.toList_append, List.drop_left, String.ofList_toList]

/-- Names end in a digit, and no suffix does. -/
def EndsInDigit (s : String) : Prop := ∃ c, s.toList.getLast? = some c ∧ c.isDigit = true

instance : Decidable (EndsInDigit s) :=
  decidable_of_iff (s.toList.getLast?.any Char.isDigit = true) (by simp [EndsInDigit, Option.any_eq_true])

theorem hasEnd_digit (hs : EndsInDigit s) (hne : back.toList ≠ []) (hback : ¬ EndsInDigit back) :
    hasEnd s back = false := by
  apply decide_eq_false
  rintro ⟨before, hbefore⟩
  obtain ⟨c, hlast, hc⟩ := hs
  apply hback
  refine ⟨c, ?_, hc⟩
  rw [← hbefore, List.getLast?_append_of_ne_nil _ hne] at hlast
  exact hlast

theorem foldl_trimEnd_digit (hs : EndsInDigit s)
    (h : ∀ back ∈ suffixes, back.toList ≠ [] ∧ ¬ EndsInDigit back) : suffixes.foldl trimEnd s = s := by
  induction suffixes with
  | nil => rfl
  | cons back rest ih =>
    obtain ⟨hne, hback⟩ := h back List.mem_cons_self
    rw [List.foldl_cons, trimEnd_of_not (hasEnd_digit hs hne hback)]
    exact ih fun back hback => h back (List.mem_cons_of_mem _ hback)

/-- Suffixes that do not fit are passed over. -/
theorem foldl_trimEnd_skip
    (h : ∀ back ∈ suffixes, ¬ back.toList <:+ t.toList ∧ ¬ t.toList <:+ back.toList) :
    suffixes.foldl trimEnd (s ++ t) = s ++ t := by
  induction suffixes with
  | nil => rfl
  | cons back rest ih =>
    obtain ⟨hback, hback'⟩ := h back List.mem_cons_self
    rw [List.foldl_cons, trimEnd_of_not (hasEnd_append_false hback hback')]
    exact ih fun back hback => h back (List.mem_cons_of_mem _ hback)

end Ends

section Suffixes

variable {uid : String}

/-- A suffix that fits behind some that do not, when none fits any more after it. -/
theorem foldl_trimEnd_hit {skipped rest : List String} {hit : String} (hdigit : EndsInDigit uid)
    (hskip : ∀ back ∈ skipped, ¬ back.toList <:+ hit.toList ∧ ¬ hit.toList <:+ back.toList)
    (hrest : ∀ back ∈ rest, back.toList ≠ [] ∧ ¬ EndsInDigit back) :
    (skipped ++ hit :: rest).foldl trimEnd (uid ++ hit) = uid := by
  rw [List.foldl_append, foldl_trimEnd_skip hskip, List.foldl_cons, trimEnd_append,
    foldl_trimEnd_digit hdigit hrest]

theorem trimmed_full (hdigit : EndsInDigit uid) (zip archive : Bool) :
    fullBacks.foldl trimEnd (uid ++ fullSuffix zip archive) = uid := by
  cases archive with
  | true =>
    cases zip with
    | true =>
      exact @foldl_trimEnd_hit uid [".gz", ".tar", ".archive", ".archive.gz"] [".archive.zstd"]
        ".archive.zst" hdigit (by decide) (by decide)
    | false =>
      exact @foldl_trimEnd_hit uid [".gz", ".tar"] [".archive.gz", ".archive.zst", ".archive.zstd"]
        ".archive" hdigit (by decide) (by decide)
  | false =>
    cases zip with
    | true =>
      exact @foldl_trimEnd_hit uid [".gz"] [".archive", ".archive.gz", ".archive.zst", ".archive.zstd"]
        ".tar" hdigit (by decide) (by decide)
    | false =>
      -- two suffixes are taken off, one after the other
      have hsplit : uid ++ fullSuffix false false = uid ++ ".tar" ++ ".gz" := by
        rw [String.append_assoc]
        rfl
      rw [hsplit, fullBacks, List.foldl_cons, trimEnd_append]
      exact @foldl_trimEnd_hit uid [] [".archive", ".archive.gz", ".archive.zst", ".archive.zstd"]
        ".tar" hdigit (by decide) (by decide)

theorem trimmed_incr (hdigit : EndsInDigit uid) (zip archive : Bool) :
    incrBacks.foldl trimEnd (uid ++ incrSuffix zip archive) = uid := by
  have hplain : ["-oplog.rs.bson"].foldl trimEnd (uid ++ "-oplog.rs.bson") = uid :=
    @foldl_trimEnd_hit uid [] [] "-oplog.rs.bson" hdigit (by decide) (by decide)
  have hskip : ∀ backs : List String, (∀ back ∈ backs, ¬ back.toList <:+ "-oplog.rs.bson".toList ∧
      ¬ "-oplog.rs.bson".toList <:+ back.toList) →
        (backs ++ ["-oplog.rs.bson"]).foldl trimEnd (uid ++ "-oplog.rs.bson") = uid := by
    intro backs hbacks
    rw [List.foldl_append, foldl_trimEnd_skip hbacks, hplain]
  cases archive with
  | true =>
    have hsplit : uid ++ incrSuffix zip true = uid ++ "-oplog.rs.bson" ++ ".zst" := by
      rw [String.append_assoc]
      rfl
    have hfirst : [".gz", ".archive.zstd"].foldl trimEnd (uid ++ "-oplog.rs.bson" ++ ".zst") =
        uid ++ "-oplog.rs.bson" ++ ".zst" := foldl_trimEnd_skip (by decide)
    have hlist : incrBacks = [".gz", ".archive.zstd"] ++ [".zst", ".oplog.rs.bson", "-oplog.rs.bson"] :=
      rfl
    rw [hsplit, hlist, List.foldl_append, hfirst, List.foldl_cons, trimEnd_append]
    exact hskip [".oplog.rs.bson"] (by decide)
  | false =>
    cases zip with
    | true =>
      have hsplit : uid ++ incrSuffix true false = uid ++ "-oplog.rs.bson" ++ ".gz" := by
        rw [String.append_assoc]
        rfl
      rw [hsplit, incrBacks, List.foldl_cons, trimEnd_append]
      exact hskip [".archive.zstd", ".zst", ".oplog.rs.bson"] (by decide)
    | false => exact hskip [".gz", ".archive.zstd", ".zst", ".oplog.rs.bson"] (by decide)

end Suffixes

section Dispatch

variable {base : String} {chongqing : Zone}

theorem hasStart_append (front s more : String) :
    hasStart (front ++ s) (front ++ more) = hasStart s more := by
  rw [hasStart, hasStart, String.toList_append, String.toList_append]
  exact decide_eq_decide.mpr (List.prefix_append_right_inj _)

theorem hasStart_self (front s : String) : hasStart (front ++ s) front = true := by
  rw [hasStart, String.toList_append]
  exact decide_eq_true (List.prefix_append _ _)

/-- Only a name that begins so makes the file name begin as those of the second version do. -/
theorem hasStart_v1 (name rest : String) :
    hasStart ("mongodump-" ++ (name ++ "-" ++ rest)) "mongodump-v1" = hasStart name "v1" := by
  have hfront : "mongodump-v1" = "mongodump-" ++ "v1" := rfl
  rw [hfront, hasStart_append, hasStart, hasStart, String.append_assoc, String.toList_append,
    String.toList_append]
  apply decide_eq_decide.mpr
  match name.toList with
  | [] => simp
  | [c] => simp
  | c :: d :: cs => simp

/-- Neither a backup's own suffix nor a shorter one makes it one of the second version. -/
theorem decodeFilename_full {name rest : String} (hv1 : hasStart name "v1" = false)
    (zip archive : Bool) :
    decodeFilename chongqing ("mongodump-" ++ (name ++ "-" ++ rest) ++ fullSuffix zip archive) =
      decodeFileV0FULL chongqing
        ("mongodump-" ++ (name ++ "-" ++ rest) ++ fullSuffix zip archive) := by
  have hassoc : "mongodump-" ++ (name ++ "-" ++ rest) ++ fullSuffix zip archive =
      "mongodump-" ++ (name ++ "-" ++ (rest ++ fullSuffix zip archive)) := by
    simp only [String.append_assoc]
  have hfirst : hasStart ("mongodump-" ++ (name ++ "-" ++ rest) ++ fullSuffix zip archive)
      "mongodump-v1" = false := by
    rw [hassoc, hasStart_v1, hv1]
  have hsecond : hasStart ("mongodump-" ++ (name ++ "-" ++ rest) ++ fullSuffix zip archive)
      "mongodump-" = true := by
    rw [hassoc, hasStart_self]
  have hincr : ∀ back ∈ ["oplog.rs.bson.gz", "oplog.rs.bson", "oplog.rs.bson.zst",
      "oplog.rs.bson.archive.zstd"],
        hasEnd ("mongodump-" ++ (name ++ "-" ++ rest) ++ fullSuffix zip archive) back = false := by
    have hall : ∀ zip archive, ∀ back ∈ ["oplog.rs.bson.gz", "oplog.rs.bson", "oplog.rs.bson.zst",
        "oplog.rs.bson.archive.zstd"], ¬ back.toList <:+ (fullSuffix zip archive).toList ∧
          ¬ (fullSuffix zip archive).toList <:+ back.toList := by decide
    intro back hback
    obtain ⟨h, h'⟩ := hall zip archive back hback
    exact hasEnd_append_false h h'
  simp only [List.forall_mem_cons] at hincr
  obtain ⟨h₁, h₂, h₃, h₄, -⟩ := hincr
  rw [decodeFilename, hfirst, hsecond, h₁, h₂, h₃, h₄]
  cases zip <;> cases archive <;> simp [fullSuffix, hasEnd_append]

theorem decodeFilename_incr {name rest : String} (hv1 : hasStart name "v1" = false)
    (zip archive : Bool) :
    decodeFilename chongqing ("mongodump-" ++ (name ++ "-" ++ rest) ++ incrSuffix zip archive) =
      decodeFileV0INCR chongqing
        ("mongodump-" ++ (name ++ "-" ++ rest) ++ incrSuffix zip archive) := by
  have hassoc : "mongodump-" ++ (name ++ "-" ++ rest) ++ incrSuffix zip archive =
      "mongodump-" ++ (name ++ "-" ++ (rest ++ incrSuffix zip archive)) := by
    simp only [String.append_assoc]
  have hfirst : hasStart ("mongodump-" ++ (name ++ "-" ++ rest) ++ incrSuffix zip archive)
      "mongodump-v1" = false := by
    rw [hassoc, hasStart_v1, hv1]
  have hsecond : hasStart ("mongodump-" ++ (name ++ "-" ++ rest) ++ incrSuffix zip archive)
      "mongodump-" = true := by
    rw [hassoc, hasStart_self]
  have hdash : ∀ s back : String, hasEnd (s ++ ("-" ++ back)) back = true := by
    intro s back
    rw [← String.append_assoc]
    exact hasEnd_append (s ++ "-") back
  have hsuffix : ∀ zip archive, incrSuffix zip archive = "-" ++ "oplog.rs.bson.gz" ∨
      incrSuffix zip archive = "-" ++ "oplog.rs.bson" ∨
        incrSuffix zip archive = "-" ++ "oplog.rs.bson.zst" := by decide
  have hincr : (hasEnd ("mongodump-" ++ (name ++ "-" ++ rest) ++ incrSuffix zip archive)
      "oplog.rs.bson.gz" || hasEnd ("mongodump-" ++ (name ++ "-" ++ rest) ++ incrSuffix zip archive)
        "oplog.rs.bson" || hasEnd ("mongodump-" ++ (name ++ "-" ++ rest) ++ incrSuffix zip archive)
        "oplog.rs.bson.zst") = true := by
    rcases hsuffix zip archive with h | h | h <;> rw [h, hdash] <;> simp
  rw [decodeFilename, if_neg (by rw [hfirst]; exact Bool.false_ne_true), if_pos hsecond, hincr,
    Bool.true_or, if_pos rfl]

/-- What begins as a name of the second version is never read as one of the first. -/
theorem decodeFilename_v1 {filename : String} {g : NamedFile}
    (hv1 : hasStart filename "mongodump-v1" = true) (h : decodeFilename chongqing filename = .ok g) :
    g.version = .v1 := by
  rw [decodeFilename, if_pos hv1] at h
  split at h
  · unfold decodeFileV1INCR at h
    dsimp only at h
    split at h
    · cases h
    · split at h
      · cases h
      · cases h
      · split at h
        · cases h
        · cases h
          rfl
  · split at h
    · unfold decodeFileV1FULL at h
      dsimp only at h
      split at h
      · cases h
      · split at h
        · cases h
        · split at h
          · cases h
          · cases h
            rfl
    · cases h

end Dispatch

section Fields

variable {name a b c d e f : String}

theorem split_dash (s t : String) (ht : '-' ∉ t.toList) :
    Text.split (s ++ "-" ++ t) '-' = Text.split s '-' ++ [t] := by
  have hlist : (s ++ "-" ++ t).toList = s.toList ++ '-' :: t.toList := by
    rw [String.append_assoc, String.toList_append, String.toList_append]
    rfl
  rw [Text.split, hlist, List.splitOn_append_cons_self, List.splitOn_eq_singleton ht, Text.split,
    List.map_append, List.map_singleton, String.ofList_toList]

theorem one_lt_split : 1 < (Text.split name '-').length ↔ '-' ∈ name.toList := by
  constructor
  · intro h
    by_contra hnot
    rw [Text.split, List.splitOn_eq_singleton hnot] at h
    simp at h
  · intro h
    obtain ⟨before, after, hlist⟩ := List.append_of_mem h
    rw [Text.split, hlist, List.splitOn_append_cons_self, List.length_map, List.length_append]
    have hbefore := List.length_pos_of_ne_nil (List.splitOn_ne_nil '-' before)
    have hafter := List.length_pos_of_ne_nil (List.splitOn_ne_nil '-' after)
    omega

theorem nameBefore_append (rest : List String) :
    nameBefore (Text.split name '-' ++ rest) rest.length = name := by
  rw [nameBefore, List.length_append, Nat.add_sub_cancel, List.take_left]
  exact Text.intercalate_split rfl

end Fields

section Seconds

variable {chongqing : Zone} {seconds day : ℕ} {date hour minute second : List Char}

theorem parseSecond_append (hdate : date.length = 8) (hhour : hour.length = 2)
    (hminute : minute.length = 2) (hsecond : second.length = 2)
    (hdigits : (hour ++ (minute ++ second)).all Char.isDigit = true)
    (hrange : Nat.ofDigitChars 10 hour 0 < 24 ∧ Nat.ofDigitChars 10 minute 0 < 60 ∧
      Nat.ofDigitChars 10 second 0 < 60)
    (hday : parseBasic date = some day) :
    parseSecond (date ++ (hour ++ (minute ++ second))) = some (day,
      Nat.ofDigitChars 10 hour 0 * 3600 + Nat.ofDigitChars 10 minute 0 * 60 +
        Nat.ofDigitChars 10 second 0) := by
  have hlength : (date ++ (hour ++ (minute ++ second))).length = 14 := by
    simp only [List.length_append]
    omega
  have htake : (date ++ (hour ++ (minute ++ second))).take 14 =
      date ++ (hour ++ (minute ++ second)) := List.take_of_length_le (by omega)
  have hdrop : (date ++ (hour ++ (minute ++ second))).drop 14 = [] :=
    List.drop_eq_nil_of_le (by omega)
  have htime : (date ++ (hour ++ (minute ++ second))).drop 8 = hour ++ (minute ++ second) := by
    rw [← hdate, List.drop_left]
  have hfront : (date ++ (hour ++ (minute ++ second))).take 8 = date := by
    rw [← hdate, List.take_left]
  have hhours : (hour ++ (minute ++ second)).take 2 = hour := by
    rw [← hhour, List.take_left]
  have hminutes : ((hour ++ (minute ++ second)).drop 2).take 2 = minute := by
    rw [← hhour, List.drop_left, hhour, ← hminute, List.take_left]
  have hseconds : (hour ++ (minute ++ second)).drop 4 = second := by
    have hfour : hour.length + minute.length = 4 := by omega
    rw [← List.append_assoc, ← hfour, ← List.length_append, List.drop_left]
  rw [parseSecond, htake, htime, hdrop, hfront, hhours, hminutes, hseconds, hday]
  rw [if_pos ⟨hlength, hdigits, hrange.1, hrange.2.1, hrange.2.2, rfl⟩]
  rfl

/-- The seconds that an oplog timestamp can hold all fall into years of four digits. -/
theorem dated_wallDay (h : seconds < 2 ^ 32) : Dated (wallDay localOffset seconds) := by
  unfold Dated firstDay lastDay wallDay localOffset epoch
  omega

theorem parseSecond_secondStr (h : seconds < 2 ^ 32) : parseSecond (secondStr seconds).toList =
    some (wallDay localOffset seconds, wallSecond localOffset seconds) := by
  have hdated := dated_wallDay h
  have hsecond : wallSecond localOffset seconds < 86400 := by
    unfold wallSecond
    omega
  obtain ⟨hyear, hmonth, hday⟩ := hdated.lengths
  have hdate : (ofDays (wallDay localOffset seconds)).basic.length = 8 := by
    rw [Date.basic, List.length_append, List.length_append]
    omega
  have htwo : ∀ n, n < 10 ^ 2 → (Padded.digits 2 n).length = 2 :=
    fun n hn => Padded.length_digits (by omega) hn
  have hparse := @parseSecond_append (wallDay localOffset seconds)
    (ofDays (wallDay localOffset seconds)).basic
    (Padded.digits 2 (wallSecond localOffset seconds / 3600))
    (Padded.digits 2 (wallSecond localOffset seconds / 60 % 60))
    (Padded.digits 2 (wallSecond localOffset seconds % 60))
    hdate (htwo _ (by omega)) (htwo _ (by omega)) (htwo _ (by omega)) ?digits ?range
    (parseBasic_basic hdated)
  case digits =>
    rw [List.all_eq_true]
    intro c hc
    rcases List.mem_append.mp hc with hc | hc
    · exact Padded.digits_isDigit hc
    · rcases List.mem_append.mp hc with hc | hc <;> exact Padded.digits_isDigit hc
  case range =>
    simp only [Padded.ofDigitChars_digits]
    omega
  have htotal : wallSecond localOffset seconds / 3600 * 3600 +
      wallSecond localOffset seconds / 60 % 60 * 60 + wallSecond localOffset seconds % 60 =
        wallSecond localOffset seconds := by omega
  rw [secondStr, String.toList_ofList, hparse]
  simp only [Padded.ofDigitChars_digits]
  rw [htotal]

theorem wallSeconds_wall : wallSeconds (wallDay localOffset seconds) (wallSecond localOffset seconds) =
    seconds + localOffset := by
  unfold wallSeconds wallDay wallSecond localOffset epoch
  omega

/-- What is read back from the name of a second. -/
theorem convert_secondStr (h : seconds < 2 ^ 32) :
    convertFileNameTimeStringToTs chongqing (secondStr seconds) "0" =
      .ok ⟨((seconds + localOffset - chongqing (seconds + localOffset)) % 2 ^ 32).toNat, 0⟩ := by
  have hzero : parseUint32 "0" = some 0 := by decide
  rw [convertFileNameTimeStringToTs, convertFileNameTimeStringToUnixTime, parseSecond_secondStr h]
  dsimp only
  rw [wallSeconds_wall, hzero]

theorem read_back_iff (h : seconds < 2 ^ 32) (offset : Offset) :
    ((seconds + localOffset - offset) % 2 ^ 32).toNat = seconds ↔ (offset : ℤ) = localOffset := by
  obtain ⟨offset, hlow, hhigh⟩ := offset
  unfold localOffset
  dsimp only
  omega

theorem no_dash_of_digits {s : String} (h : ∀ c ∈ s.toList, c.isDigit = true) : '-' ∉ s.toList := by
  intro hdash
  have hfalse := h '-' hdash
  revert hfalse
  decide

theorem hourStr_digits {c : Char} (h : c ∈ (hourStr seconds).toList) : c.isDigit = true := by
  rw [hourStr, String.toList_ofList, Date.basic] at h
  simp only [List.mem_append] at h
  rcases h with (h | h | h) | h <;> exact Padded.digits_isDigit h

theorem secondStr_digits {c : Char} (h : c ∈ (secondStr seconds).toList) : c.isDigit = true := by
  rw [secondStr, String.toList_ofList, Date.basic] at h
  simp only [List.mem_append] at h
  rcases h with (h | h | h) | h | h | h <;> exact Padded.digits_isDigit h

theorem hourStr_ne : hourStr seconds ≠ "" := by
  intro hempty
  have hlist := congrArg String.toList hempty
  rw [hourStr, String.toList_ofList] at hlist
  exact Padded.digits_ne_nil _ _ (List.append_eq_nil_iff.mp hlist).2

/-- A name that ends with a second ends in a digit. -/
theorem secondStr_endsInDigit (s : String) : EndsInDigit (s ++ secondStr seconds) := by
  have hne : (secondStr seconds).toList ≠ [] := by
    rw [secondStr, String.toList_ofList]
    intro hnil
    exact Padded.digits_ne_nil _ _ (List.append_eq_nil_iff.mp
      (List.append_eq_nil_iff.mp (List.append_eq_nil_iff.mp hnil).2).2).2
  refine ⟨(secondStr seconds).toList.getLast hne, ?_, secondStr_digits (List.getLast_mem hne)⟩
  rw [String.toList_append, List.getLast?_append_of_ne_nil _ hne, List.getLast?_eq_getLast_of_ne_nil hne]

end Seconds

section RoundTrips

variable {chongqing : Zone} {name : String} {parts : List String} {f g : NamedFile}

/-- A name and some parts behind it, joined by dashes. -/
def joined (name : String) (parts : List String) : String :=
  parts.foldl (fun s part => s ++ "-" ++ part) name

theorem split_joined (h : ∀ part ∈ parts, '-' ∉ part.toList) :
    Text.split (joined name parts) '-' = Text.split name '-' ++ parts := by
  induction parts generalizing name with
  | nil => exact (List.append_nil _).symm
  | cons part parts ih =>
    have hrest := @ih (name ++ "-" ++ part) fun part hpart => h part (List.mem_cons_of_mem _ hpart)
    rw [split_dash name part (h part List.mem_cons_self), List.append_assoc] at hrest
    exact hrest

theorem joined_cons (part : String) (parts : List String) :
    ∃ rest, joined name (part :: parts) = name ++ "-" ++ rest := by
  induction parts generalizing part with
  | nil => exact ⟨part, rfl⟩
  | cons part' parts ih =>
    obtain ⟨rest, hrest⟩ := ih (part ++ "-" ++ part')
    refine ⟨rest, ?_⟩
    rw [← hrest, joined, joined, List.foldl_cons, List.foldl_cons, List.foldl_cons]
    simp only [String.append_assoc]

theorem fieldsOf_joined {backs : List String} {suffix : String}
    (h : ∀ part ∈ parts, '-' ∉ part.toList)
    (htrim : backs.foldl trimEnd (joined name parts ++ suffix) = joined name parts) :
    fieldsOf ("mongodump-" ++ joined name parts ++ suffix) "mongodump-" backs =
      Text.split name '-' ++ parts := by
  rw [fieldsOf, String.append_assoc, trimStart_append, htrim, split_joined h]

/-- An address of four numbers, and a number for a port. -/
def IsIPv4 (host : String) : Prop :=
  ∃ a b c d : UInt8, host = a.toNat.repr ++ "." ++ b.toNat.repr ++ "." ++ c.toNat.repr ++ "." ++
    d.toNat.repr

def IsPort (port : String) : Prop := ∃ n : UInt16, port = n.toNat.repr

theorem IsIPv4.no_dash {host : String} (h : IsIPv4 host) : '-' ∉ host.toList := by
  obtain ⟨a, b, c, d, rfl⟩ := h
  have hdot : '-' ∉ ".".toList := by decide
  simp only [String.toList_append, List.mem_append, not_or]
  exact ⟨⟨⟨⟨⟨⟨Text.repr_no_sign _, hdot⟩, Text.repr_no_sign _⟩, hdot⟩, Text.repr_no_sign _⟩, hdot⟩,
    Text.repr_no_sign _⟩

theorem IsPort.no_dash {port : String} (h : IsPort port) : '-' ∉ port.toList := by
  obtain ⟨n, rfl⟩ := h
  exact Text.repr_no_sign _

/-- A backup of the first version, full or incremental, with a suffix that it can have. -/
structure IsV0Backup (f : NamedFile) : Prop where
  version : f.version = .v0
  host : IsIPv4 f.host
  port : IsPort f.port
  sec : f.lastTs.sec < 2 ^ 32
  kind : (f.type = .full ∧ f.v0FullStr = "" ∧ f.v0IncrSeq = 0 ∧
      ∃ zip archive, f.suffix = fullSuffix zip archive) ∨
    f.type = .incr ∧ (∃ start, f.v0FullStr = hourStr start) ∧ f.v0IncrSeq ≠ 0 ∧
      ∃ zip archive, f.suffix = incrSuffix zip archive

/-- What a name tells of its backup. -/
structure SameBackup (f g : NamedFile) : Prop where
  version : g.version = f.version
  type : g.type = f.type
  name : g.name = f.name
  host : g.host = f.host
  port : g.port = f.port
  fullStr : getV0FullStr g = getV0FullStr f
  incrSeq : g.v0IncrSeq = f.v0IncrSeq
  sec : g.lastTs.sec = f.lastTs.sec

def RoundTrips (chongqing : Zone) (f : NamedFile) : Prop :=
  ∃ filename g, getFileName f = .ok filename ∧ decodeFilename chongqing filename = .ok g ∧
    SameBackup f g

/-- The fields of a full backup's name, in their order. -/
def fullParts (f : NamedFile) : List String :=
  ["FULL", f.host, f.port, hourStr f.startTime, secondStr f.lastTs.sec]

def incrParts (f : NamedFile) : List String :=
  ["INCR", f.host, f.port, f.v0FullStr, f.v0IncrSeq.toNat.repr, secondStr f.lastTs.sec]

theorem getFileName_full (hversion : f.version = .v0) (htype : f.type = .full) :
    getFileName f = .ok ("mongodump-" ++ joined f.name (fullParts f) ++ f.suffix) := by
  have hjoined : ∀ hour sec : String,
      "mongodump-" ++ (f.name ++ "-" ++ "FULL" ++ "-" ++ f.host ++ "-" ++ f.port ++ "-") ++ hour ++
        "-" ++ sec = "mongodump-" ++ joined f.name ["FULL", f.host, f.port, hour, sec] := by
    intro hour sec
    rw [joined]
    simp only [List.foldl_cons, List.foldl_nil, String.append_assoc]
  rw [fullParts, ← hjoined, getFileName, getFileUniqName, hversion, htype]
  rfl

theorem getFileName_incr (hversion : f.version = .v0) (htype : f.type = .incr)
    (hseq : f.v0IncrSeq ≠ 0) (hfull : f.v0FullStr ≠ "") :
    getFileName f = .ok ("mongodump-" ++ joined f.name (incrParts f) ++ f.suffix) := by
  have hjoined : ∀ full seq sec : String,
      "mongodump-" ++ (f.name ++ "-" ++ "INCR" ++ "-" ++ f.host ++ "-" ++ f.port ++ "-") ++ full ++
        "-" ++ seq ++ "-" ++ sec =
          "mongodump-" ++ joined f.name ["INCR", f.host, f.port, full, seq, sec] := by
    intro full seq sec
    rw [joined]
    simp only [List.foldl_cons, List.foldl_nil, String.append_assoc]
  rw [incrParts, ← hjoined, getFileName, getFileUniqName, hversion, htype]
  dsimp only
  rw [if_neg hseq, if_neg hfull]
  rfl

theorem fullParts_no_dash (h : IsV0Backup f) : ∀ part ∈ fullParts f, '-' ∉ part.toList := by
  simp only [fullParts, List.forall_mem_cons]
  exact ⟨by decide, h.host.no_dash, h.port.no_dash, no_dash_of_digits fun _ => hourStr_digits,
    no_dash_of_digits fun _ => secondStr_digits, fun _ h => nomatch h⟩

theorem incrParts_no_dash (h : IsV0Backup f) {start : ℕ} (hstart : f.v0FullStr = hourStr start) :
    ∀ part ∈ incrParts f, '-' ∉ part.toList := by
  simp only [incrParts, List.forall_mem_cons, hstart]
  exact ⟨by decide, h.host.no_dash, h.port.no_dash, no_dash_of_digits fun _ => hourStr_digits,
    Text.repr_no_sign _, no_dash_of_digits fun _ => secondStr_digits, fun _ h => nomatch h⟩

theorem nameBefore_fields (rest : List String) {k : ℕ} (hk : rest.length = k) :
    nameBefore (Text.split name '-' ++ rest) k = name := by
  rw [← hk]
  exact nameBefore_append rest

/-- The minimum of fields asks for a dash in the name. -/
theorem decodeFileV0FULL_fields {filename host port hour sec : String} {lastTs : TS}
    (hfields : fieldsOf filename "mongodump-" fullBacks =
      Text.split name '-' ++ ["FULL", host, port, hour, sec])
    (hsec : convertFileNameTimeStringToTs chongqing sec "0" = .ok lastTs) :
    decodeFileV0FULL chongqing filename =
      if '-' ∈ name.toList then
        .ok { version := .v0, type := .full, fileName := filename, startTime := 0, endTime := 0
              firstTs := ⟨0, 0⟩, lastTs, v0FullStr := hour, v0IncrSeq := 0, suffix := ""
              port, host, name }
      else .error "bad format" := by
  have hlast : fromEnd (Text.split name '-' ++ ["FULL", host, port, hour, sec]) 1 = sec := by
    simp [fromEnd]
  have hhour : fromEnd (Text.split name '-' ++ ["FULL", host, port, hour, sec]) 2 = hour := by
    simp [fromEnd]
  have hport : fromEnd (Text.split name '-' ++ ["FULL", host, port, hour, sec]) 3 = port := by
    simp [fromEnd]
  have hhost : fromEnd (Text.split name '-' ++ ["FULL", host, port, hour, sec]) 4 = host := by
    simp [fromEnd]
  have htype : fromEnd (Text.split name '-' ++ ["FULL", host, port, hour, sec]) 5 = "FULL" := by
    simp [fromEnd]
  have hname := @nameBefore_fields name ["FULL", host, port, hour, sec] 5 rfl
  have hcount := @one_lt_split name
  rw [decodeFileV0FULL, hfields]
  by_cases hdash : '-' ∈ name.toList
  · have hlong := hcount.mpr hdash
    rw [if_neg (by rw [List.length_append]; simp only [List.length_cons, List.length_nil]; omega),
      if_pos hdash, hlast, hsec]
    dsimp only
    rw [htype, if_neg (fun h => h rfl), hhour, hport, hhost, hname]
  · have hshort : ¬ 1 < (Text.split name '-').length := fun h => hdash (hcount.mp h)
    rw [if_pos (by rw [List.length_append]; simp only [List.length_cons, List.length_nil]; omega),
      if_neg hdash]

theorem decodeFileV0INCR_fields {filename host port full seq sec : String} {lastTs : TS} {n : ℕ}
    (hfields : fieldsOf filename "mongodump-" incrBacks =
      Text.split name '-' ++ ["INCR", host, port, full, seq, sec])
    (hsec : convertFileNameTimeStringToTs chongqing sec "0" = .ok lastTs)
    (hseq : parseUint32 seq = some n) :
    ('-' ∈ name.toList → decodeFileV0INCR chongqing filename =
      .ok { version := .v0, type := .incr, fileName := filename, startTime := 0, endTime := 0
            firstTs := ⟨0, 0⟩, lastTs, v0FullStr := full, v0IncrSeq := UInt32.ofNat n, suffix := ""
            port, host, name }) ∧
      ('-' ∉ name.toList → ∃ err, decodeFileV0INCR chongqing filename = .error err) := by
  have hlast : fromEnd (Text.split name '-' ++ ["INCR", host, port, full, seq, sec]) 1 = sec := by
    simp [fromEnd]
  have hnumber : fromEnd (Text.split name '-' ++ ["INCR", host, port, full, seq, sec]) 2 = seq := by
    simp [fromEnd]
  have hfull : fromEnd (Text.split name '-' ++ ["INCR", host, port, full, seq, sec]) 3 = full := by
    simp [fromEnd]
  have hport : fromEnd (Text.split name '-' ++ ["INCR", host, port, full, seq, sec]) 4 = port := by
    simp [fromEnd]
  have hhost : fromEnd (Text.split name '-' ++ ["INCR", host, port, full, seq, sec]) 5 = host := by
    simp [fromEnd]
  have htype : fromEnd (Text.split name '-' ++ ["INCR", host, port, full, seq, sec]) 6 = "INCR" := by
    simp [fromEnd]
  have hname := @nameBefore_fields name ["INCR", host, port, full, seq, sec] 6 rfl
  have hcount := @one_lt_split name
  rw [decodeFileV0INCR, hfields]
  constructor
  · intro hdash
    have hlong := hcount.mpr hdash
    rw [if_neg (by rw [List.length_append]; simp only [List.length_cons, List.length_nil]; omega),
      hlast, hsec]
    dsimp only
    rw [hnumber, hseq]
    dsimp only
    rw [htype, if_neg (fun h => h rfl), hfull, hport, hhost, hname]
  · intro hdash
    have hshort : ¬ 1 < (Text.split name '-').length := fun h => hdash (hcount.mp h)
    rw [if_pos (by rw [List.length_append]; simp only [List.length_cons, List.length_nil]; omega)]
    exact ⟨_, rfl⟩

/-- A name that begins so is taken for one of the second version. -/
theorem not_roundTrips_v1 {parts : List String} {part : String} (hversion : f.version = .v0)
    (hname : getFileName f = .ok ("mongodump-" ++ joined f.name (part :: parts) ++ f.suffix))
    (hv1 : hasStart f.name "v1" = true) : ¬ RoundTrips chongqing f := by
  rintro ⟨filename, g, hfilename, hdecode, hsame⟩
  obtain ⟨rest, hrest⟩ := @joined_cons f.name part parts
  have hstart : hasStart filename "mongodump-v1" = true := by
    have heq := Except.ok.inj (hname.symm.trans hfilename)
    rw [← heq, hrest]
    have hassoc : "mongodump-" ++ (f.name ++ "-" ++ rest) ++ f.suffix =
        "mongodump-" ++ (f.name ++ "-" ++ (rest ++ f.suffix)) := by
      simp only [String.append_assoc]
    rw [hassoc, hasStart_v1, hv1]
  have hfirst := decodeFilename_v1 hstart hdecode
  rw [hsame.version, hversion] at hfirst
  cases hfirst

/-- What is read from the name of a full backup. -/
theorem decodeFull_eq (h : IsV0Backup f) {zip archive : Bool} (hsuffix : f.suffix = fullSuffix zip archive) (hv1 : hasStart f.name "v1" = false) :
    decodeFilename chongqing ("mongodump-" ++ joined f.name (fullParts f) ++ f.suffix) =
      if '-' ∈ f.name.toList then
        .ok { version := .v0, type := .full, startTime := 0, endTime := 0, firstTs := ⟨0, 0⟩
              fileName := "mongodump-" ++ joined f.name (fullParts f) ++ f.suffix
              lastTs := ⟨((f.lastTs.sec + localOffset - chongqing (f.lastTs.sec + localOffset)) %
                2 ^ 32).toNat, 0⟩
              v0FullStr := hourStr f.startTime, v0IncrSeq := 0, suffix := ""
              port := f.port, host := f.host, name := f.name }
      else .error "bad format" := by
  have hdigit : EndsInDigit (joined f.name (fullParts f)) := secondStr_endsInDigit _
  have hfields := fieldsOf_joined (fullParts_no_dash h) (trimmed_full hdigit zip archive)
  obtain ⟨rest, hrest⟩ := @joined_cons f.name "FULL"
    [f.host, f.port, hourStr f.startTime, secondStr f.lastTs.sec]
  have hdecode : decodeFilename chongqing
      ("mongodump-" ++ joined f.name (fullParts f) ++ fullSuffix zip archive) =
        decodeFileV0FULL chongqing
          ("mongodump-" ++ joined f.name (fullParts f) ++ fullSuffix zip archive) := by
    rw [fullParts, hrest]
    exact decodeFilename_full hv1 zip archive
  rw [hsuffix]
  exact hdecode.trans (decodeFileV0FULL_fields hfields (convert_secondStr h.sec))

theorem roundTrips_full (h : IsV0Backup f) (htype : f.type = .full) (hempty : f.v0FullStr = "")
    (hseq : f.v0IncrSeq = 0) {zip archive : Bool} (hsuffix : f.suffix = fullSuffix zip archive)
    (hv1 : hasStart f.name "v1" = false) :
    RoundTrips chongqing f ↔ '-' ∈ f.name.toList ∧
      (chongqing (f.lastTs.sec + localOffset) : ℤ) = localOffset := by
  have hname := getFileName_full h.version htype
  have hresult := @decodeFull_eq chongqing f h zip archive hsuffix hv1
  constructor
  · rintro ⟨filename, g, hfilename, hok, hsame⟩
    obtain rfl := Except.ok.inj (hname.symm.trans hfilename)
    rw [hresult] at hok
    split at hok
    · rename_i hdash
      cases hok
      exact ⟨hdash, (read_back_iff h.sec _).mp hsame.sec⟩
    · cases hok
  · rintro ⟨hdash, hzone⟩
    rw [if_pos hdash] at hresult
    refine ⟨_, _, hname, hresult, ⟨h.version.symm, htype.symm, rfl, rfl, rfl, ?_, hseq.symm,
      (read_back_iff h.sec _).mpr hzone⟩⟩
    simp only [getV0FullStr, hempty, if_pos hourStr_ne]
    rfl

theorem roundTrips_incr (h : IsV0Backup f) (htype : f.type = .incr) {start : ℕ}
    (hstart : f.v0FullStr = hourStr start) (hseq : f.v0IncrSeq ≠ 0) {zip archive : Bool}
    (hsuffix : f.suffix = incrSuffix zip archive) (hv1 : hasStart f.name "v1" = false) :
    RoundTrips chongqing f ↔ '-' ∈ f.name.toList ∧
      (chongqing (f.lastTs.sec + localOffset) : ℤ) = localOffset := by
  have hname := getFileName_incr h.version htype hseq (by rw [hstart]; exact hourStr_ne)
  have hdigit : EndsInDigit (joined f.name (incrParts f)) := secondStr_endsInDigit _
  have hfields := fieldsOf_joined (incrParts_no_dash h hstart) (trimmed_incr hdigit zip archive)
  have hdecode : decodeFilename chongqing
      ("mongodump-" ++ joined f.name (incrParts f) ++ incrSuffix zip archive) =
        decodeFileV0INCR chongqing
          ("mongodump-" ++ joined f.name (incrParts f) ++ incrSuffix zip archive) := by
    obtain ⟨rest, hrest⟩ := @joined_cons f.name "INCR"
      [f.host, f.port, f.v0FullStr, f.v0IncrSeq.toNat.repr, secondStr f.lastTs.sec]
    rw [incrParts, hrest]
    exact decodeFilename_incr hv1 zip archive
  have hnumber : parseUint32 f.v0IncrSeq.toNat.repr = some f.v0IncrSeq.toNat := by
    rw [parseUint32, digits_repr, Option.filter_some, if_pos]
    exact decide_eq_true f.v0IncrSeq.toNat_lt
  rw [hsuffix] at hname
  obtain ⟨hgood, hbad⟩ := decodeFileV0INCR_fields hfields (convert_secondStr h.sec) hnumber
  constructor
  · rintro ⟨filename, g, hfilename, hok, hsame⟩
    obtain rfl := Except.ok.inj (hname.symm.trans hfilename)
    rw [hdecode] at hok
    by_cases hdash : '-' ∈ f.name.toList
    · rw [hgood hdash] at hok
      cases hok
      exact ⟨hdash, (read_back_iff h.sec _).mp hsame.sec⟩
    · obtain ⟨err, herr⟩ := hbad hdash
      rw [herr] at hok
      cases hok
  · rintro ⟨hdash, hzone⟩
    refine ⟨_, _, hname, hdecode.trans (hgood hdash), ⟨h.version.symm, htype.symm, rfl, rfl, rfl,
      ?_, UInt32.ofNat_toNat, (read_back_iff h.sec _).mpr hzone⟩⟩
    have hne : f.v0FullStr ≠ "" := by
      rw [hstart]
      exact hourStr_ne
    rw [getV0FullStr, getV0FullStr, if_pos hne, if_pos hne]

theorem named_ok {made : Except String NamedFile} {suffix : String} (h : named made suffix = .ok g) :
    ∃ f uid, made = .ok f ∧ getFileUniqName f = .ok uid ∧
      g = { f with suffix, fileName := uid ++ suffix } := by
  unfold named at h
  cases made with
  | error err => cases h
  | ok f =>
    cases huid : getFileUniqName f with
    | error err =>
      simp only [Except.bind, huid, Except.map] at h
      cases h
    | ok uid =>
      simp only [Except.bind, huid, Except.map] at h
      cases h
      exact ⟨f, uid, rfl, huid, rfl⟩

section Made

variable {conn : MongoHost} {startTime endTime : ℕ} {firstTs lastTs : Option TS} {zip archive : Bool}
  {lastBackup : NamedFile}

/-- What DoBackupFull returns is such a backup. -/
theorem doBackupFull_isV0Backup (hhost : IsIPv4 conn.host) (hport : IsPort conn.port)
    (hsec : ∀ ts ∈ lastTs, ts.sec < 2 ^ 32)
    (h : doBackupFull conn startTime endTime firstTs lastTs zip archive = .ok g) : IsV0Backup g := by
  obtain ⟨f, uid, hmade, -, rfl⟩ := named_ok h
  unfold makeFileName at hmade
  split at hmade
  · split at hmade
    · cases hmade
    · cases hmade
      exact ⟨rfl, hhost, hport, hsec _ rfl, Or.inl ⟨rfl, rfl, rfl, zip, archive, rfl⟩⟩
  · cases hmade

/-- So is what DoBackupIncr returns, behind a backup that is one. -/
theorem doBackupIncr_isV0Backup (hhost : IsIPv4 conn.host) (hport : IsPort conn.port)
    (hsec : ∀ ts ∈ lastTs, ts.sec < 2 ^ 32) (hlast : IsV0Backup lastBackup)
    (h : doBackupIncr conn lastBackup startTime endTime firstTs lastTs zip archive = .ok g) :
    IsV0Backup g := by
  have hstart : ∃ start, getV0FullStr lastBackup = hourStr start := by
    rcases hlast.kind with ⟨-, hempty, -, -⟩ | ⟨-, ⟨start, hfull⟩, -, -⟩
    · exact ⟨lastBackup.startTime, if_neg fun hne => hne hempty⟩
    · exact ⟨start, (if_pos (by rw [hfull]; exact hourStr_ne)).trans hfull⟩
  obtain ⟨f, uid, hmade, huid, rfl⟩ := named_ok h
  unfold makeFileName at hmade
  split at hmade
  · split at hmade
    · cases hmade
    · cases hmade
      refine ⟨rfl, hhost, hport, hsec _ rfl, Or.inr ⟨rfl, hstart, ?_, zip, archive, rfl⟩⟩
      intro hzero
      simp only [getFileUniqName] at huid
      rw [if_pos hzero] at huid
      cases huid
  · cases hmade

end Made

/-- Exactly the backups whose name holds a dash and does not begin like a version are read back, where
the zone of the decoder is that of the host. -/
theorem v0_file_name_round_trip (chongqing : Zone) (f : NamedFile) (h : IsV0Backup f) :
    RoundTrips chongqing f ↔ '-' ∈ f.name.toList ∧ ¬ "v1".toList <+: f.name.toList ∧
      (chongqing (f.lastTs.sec + localOffset) : ℤ) = localOffset := by
  by_cases hv1 : "v1".toList <+: f.name.toList
  · have hstart : hasStart f.name "v1" = true := decide_eq_true hv1
    have hnone : ¬ RoundTrips chongqing f := by
      rcases h.kind with ⟨htype, -⟩ | ⟨htype, ⟨start, hfull⟩, hseq, -⟩
      · exact not_roundTrips_v1 h.version (getFileName_full h.version htype) hstart
      · exact not_roundTrips_v1 h.version
          (getFileName_incr h.version htype hseq (by rw [hfull]; exact hourStr_ne)) hstart
    constructor
    · intro hround
      exact absurd hround hnone
    · rintro ⟨-, hnot, -⟩
      exact absurd hv1 hnot
  · have hstart : hasStart f.name "v1" = false := decide_eq_false hv1
    have hcond : ('-' ∈ f.name.toList ∧ (chongqing (f.lastTs.sec + localOffset) : ℤ) = localOffset) ↔
        '-' ∈ f.name.toList ∧ ¬ "v1".toList <+: f.name.toList ∧
          (chongqing (f.lastTs.sec + localOffset) : ℤ) = localOffset := by
      constructor
      · rintro ⟨hdash, hzone⟩
        exact ⟨hdash, hv1, hzone⟩
      · rintro ⟨hdash, -, hzone⟩
        exact ⟨hdash, hzone⟩
    rw [← hcond]
    rcases h.kind with ⟨htype, hempty, hseq, zip, archive, hsuffix⟩ |
      ⟨htype, ⟨start, hfull⟩, hseq, zip, archive, hsuffix⟩
    · exact roundTrips_full h htype hempty hseq hsuffix hstart
    · exact roundTrips_incr h htype hfull hseq hsuffix hstart

/-- A full backup that began at 2018-03-13 04:00 and was consistent at 04:11:34. -/
def fullBackup (name : String) : NamedFile where
  version := .v0
  type := .full
  fileName := ""
  startTime := 1520884800
  endTime := 1520885600
  firstTs := ⟨1520884900, 1⟩
  lastTs := ⟨1520885494, 1⟩
  v0FullStr := ""
  v0IncrSeq := 0
  suffix := ".tar"
  host := "1.1.1.1"
  port := "27005"
  name

theorem fullBackup_isV0Backup (name : String) : IsV0Backup (fullBackup name) where
  version := rfl
  host := ⟨1, 1, 1, 1, show "1.1.1.1" = _ by decide⟩
  port := ⟨27005, show "27005" = _ by decide⟩
  sec := show 1520885494 < 2 ^ 32 by decide
  kind := Or.inl ⟨rfl, rfl, rfl, true, false, rfl⟩

def beijing : Zone := fun _ => ⟨8 * 3600, by decide⟩

theorem v0_file_name_round_trip_app_set : RoundTrips beijing (fullBackup "app-set") :=
  (v0_file_name_round_trip beijing (fullBackup "app-set") (fullBackup_isV0Backup "app-set")).mpr
    ⟨by decide, by decide, rfl⟩

/-- A name without a dash gives too few fields, and one that begins with `v1` the wrong decoder. -/
theorem names_not_read_back :
    getFileName (fullBackup "app") =
        .ok "mongodump-app-FULL-1.1.1.1-27005-2018031304-20180313041134.tar" ∧
      decodeFilename beijing "mongodump-app-FULL-1.1.1.1-27005-2018031304-20180313041134.tar" =
        .error "bad format" ∧
      ¬ RoundTrips beijing (fullBackup "app") ∧ ¬ RoundTrips beijing (fullBackup "v1-set") := by
  have hhour : hourStr 1520884800 = "2018031304" := by decide
  have hsecond : secondStr 1520885494 = "20180313041134" := by decide
  have htext : "mongodump-" ++ joined "app" ["FULL", "1.1.1.1", "27005", hourStr 1520884800,
      secondStr 1520885494] ++ ".tar" =
        "mongodump-app-FULL-1.1.1.1-27005-2018031304-20180313041134.tar" := by
    rw [hhour, hsecond]
    decide
  have hdecode := @decodeFull_eq beijing (fullBackup "app") (fullBackup_isV0Backup "app") true false
    rfl (by decide)
  rw [if_neg (by decide)] at hdecode
  refine ⟨?_, ?_, ?_, ?_⟩
  · rw [← htext]
    exact getFileName_full rfl rfl
  · rw [← htext]
    exact hdecode
  · intro hround
    have hdash := (@roundTrips_full beijing (fullBackup "app") (fullBackup_isV0Backup "app") rfl rfl
      rfl true false rfl (by decide)).mp hround
    exact absurd hdash.1 (by decide)
  · exact not_roundTrips_v1 rfl (getFileName_full rfl rfl) (by decide)

end RoundTrips

end Pitr
