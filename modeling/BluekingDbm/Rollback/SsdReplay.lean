import BluekingDbm.Rollback.SsdBinlog
import BluekingDbm.Rollback.Binlogs
import Mathlib.Data.List.DropRight

/-! The replay of a chain of TendisSSD binlogs over one connection, up to the replay's end. -/
namespace Rollback

open Bytes Numeral

/-- A command, one argument after another. -/
abbrev Command := List (List UInt8)

section Pipe

def pipeBatchCmds : ℕ := 1000

def pipeBatchBytes : ℕ := 16 * 2 ^ 20

/-- What the pipeline holds for one command: a normal reply, an error reply, or another error. -/
inductive PipeResult
  | done
  | reply (message : String)
  | broken (message : String)

def PipeResult.errorReply : PipeResult → Except String (Option String)
  | done => .ok none
  | reply message => .ok (some message)
  | broken message => .error message

/-- `redisPipe.execBatch`, from what the pipeline gives back. -/
def execBatch (cmds : List Command) (results : List PipeResult) :
    Except String (List (Option String)) :=
  if results.length ≠ cmds.length then
    .error s!"pipeline returned {results.length} results for {cmds.length} commands"
  else results.mapM PipeResult.errorReply

end Pipe

section Replies

def replyErrorSamples : ℕ := 5

def expectedReplyError : String := "invalid expire time"

def previewBytes : ℕ := 64

/-- A line without the line ends behind it, and cut. -/
def previewLine (s : List UInt8) : List UInt8 :=
  let s := s.rdropWhile fun b => b = 13 || b = 10
  if previewBytes < s.length then s.take previewBytes ++ word "..." else s

/-- A command's name and key. -/
def commandPreview (args : Command) : List (List UInt8) := (args.take 2).map previewLine

/-- The replies of a replay. -/
structure ReplyStats where
  lines : ℕ := 0
  errors : ℕ := 0
  samples : List (String × List (List UInt8)) := []
  expectedSamples : List (String × List (List UInt8)) := []

def appendSample {α : Type*} (samples : List α) (line : α) : List α :=
  if replyErrorSamples ≤ samples.length then samples else samples ++ [line]

def ReplyStats.record (s : ReplyStats) (reply : String) (command : List (List UInt8)) :
    ReplyStats :=
  let s := { s with errors := s.errors + 1 }
  if Text.contains (Text.trimSpace reply) expectedReplyError then
    { s with expectedSamples := appendSample s.expectedSamples (reply, command) }
  else { s with samples := appendSample s.samples (reply, command) }

/-- The errors that need attention first, then the expected ones. -/
def ReplyStats.shown (s : ReplyStats) : List (String × List (List UInt8)) :=
  s.expectedSamples.foldl appendSample s.samples

/-- One command with its error reply. -/
def ReplyStats.onReply (s : ReplyStats) (answered : Command × Option String) : ReplyStats :=
  let s := { s with lines := s.lines + 1 }
  match answered.2 with
  | none => s
  | some reply => s.record reply (commandPreview answered.1)

end Replies

namespace SsdRestorer

section StartPos

/-- The number that `-\d{8}-\d{6}-(\d+)(?:\.tar)?(?:\.split\.\d+)?$` finds in a name. No group of it
holds a dash or a dot, so the fields are those of the last part before the suffixes. -/
def ssdFullSeq (base : String) : Option String :=
  let parts := (Text.split base '.').reverse
  let parts :=
    match parts with
    | n :: "split" :: rest => if isNumber Char.isDigit n then rest else parts
    | _ => parts
  let parts :=
    match parts with
    | "tar" :: rest => rest
    | _ => parts
  parts.head?.bind fun part =>
    match (Text.split part '-').reverse with
    | seq :: time :: day :: _ :: _ =>
      if isNumber Char.isDigit seq ∧ isNumber Char.isDigit time ∧ time.length = 6 ∧
          isNumber Char.isDigit day ∧ day.length = 8 then some seq
      else none
    | _ => none

/-- `strconv.ParseUint` of digits. -/
def parseUint (s : String) : Except String UInt64 :=
  match digits s.toList with
  | none => .error ("strconv.ParseUint: parsing \"" ++ s ++ "\": invalid syntax")
  | some n =>
    if n < 2 ^ 64 then .ok (UInt64.ofNat n)
    else .error ("strconv.ParseUint: parsing \"" ++ s ++ "\": value out of range")

def fullStartPos (files : List String) : Except String UInt64 :=
  match files.findSome? fun f => ssdFullSeq (baseName f) with
  | some seq => parseUint seq
  | none => .error ("no binlog start position in full backup names [" ++ " ".intercalate files ++ "]")

/-- The first seq not yet in the restored snapshot. -/
def replayStartPos (endSeq : Except String UInt64) (fullFiles : List String) :
    Except String UInt64 :=
  let endSeq := endSeq.bind fun seq =>
    if seq = 0 then .error "binlogsize returned end seq 0" else .ok seq
  match endSeq, fullStartPos fullFiles with
  | .error err, .error nameErr =>
    .error s!"no replay start position, binlogsize: {err}; {nameErr}"
  | .error _, .ok nameSeq => .ok (nameSeq + 1)
  | .ok seq, .error _ => .ok (seq + 1)
  | .ok seq, .ok nameSeq => if seq < nameSeq then .ok (nameSeq + 1) else .ok (seq + 1)

end StartPos

/-- A time: the seconds since 1970 and the nanoseconds past them. -/
structure Instant where
  seconds : ℤ
  nanos : ℕ
  nanos_lt : nanos < 10 ^ 9

/-- `recoverAt.Add(time.Second).UnixMilli()`. -/
def replayEndMs (recoverAt : Instant) : Int64 :=
  Int64.ofInt ((recoverAt.seconds + 1) * 1000 + recoverAt.nanos / 10 ^ 6)

/-- A decompressed binlog, and what closing it reports, stopped short or read to its end. -/
structure SsdStream where
  bytes : List UInt8
  finish : Bool → Option String

/-- What the restorer works with: the configuration, the instance, the files and the clock. The
pipeline's results may depend on the batches sent before. -/
structure Host where
  password : Except String String
  connect : String → Except String Unit
  binlogSize : Except String UInt64
  applyClient : String → Except String Unit
  openSSDStream : String → Except String SsdStream
  pipeline : List (List Command) → List Command → List PipeResult
  nowMs : ℕ → Int64

/-- Why a replay fails. -/
inductive ReplayError
  | setup (message : String)
  | binlog (base message : String)
  | allErrors (base : String) (lines : ℕ) (samples : List (String × List (List UInt8)))

/-- The commands queued with their bytes, the batches sent, the replies of the file, and how often
the clock was read. -/
structure Replaying where
  cmds : List Command
  bytes : ℕ
  sent : List (List Command)
  stats : ReplyStats
  clock : ℕ

section Sending

variable (host : Host)

/-- Sends what is queued. -/
def flush (s : Replaying) : Attempt String Replaying :=
  if s.cmds = [] then .ok s
  else
    match execBatch s.cmds (host.pipeline s.sent s.cmds) with
    | .error err => .error s!"batch of {s.cmds.length} commands broke off: {err}"
    | .ok replies =>
      .ok { s with
        cmds := []
        bytes := 0
        sent := s.sent ++ [s.cmds]
        stats := (s.cmds.zip replies).foldl ReplyStats.onReply s.stats }

def add (args : Command) (s : Replaying) : Attempt String Replaying :=
  let s := { s with
    cmds := s.cmds ++ [args]
    bytes := args.foldl (fun bytes arg => bytes + arg.length) s.bytes }
  if pipeBatchCmds ≤ s.cmds.length ∨ pipeBatchBytes ≤ s.bytes then flush host s else .ok s

def onRecord (rec : SsdBinlogRecord) (s : Replaying) : Attempt String Replaying :=
  match rec.command (host.nowMs s.clock) with
  | .panic => .panic
  | .error err => .error s!"seq {rec.seq}: {err}"
  | .ok none => .ok { s with clock := s.clock + 1 }
  | .ok (some args) => add host args { s with clock := s.clock + 1 }

def decodeSSDFile (file : String) (startPos : UInt64) (endMs : Int64) (s : Replaying) :
    Attempt String Replaying :=
  match host.openSSDStream file with
  | .error err => .error err
  | .ok stream =>
    match readSSDBinlog stream.bytes startPos endMs (onRecord host) s with
    | (_, _, .panic) => .panic
    | (_, _, .error err) =>
      match stream.finish true with
      | none => .error err
      | some closeErr => .error s!"{err} ({closeErr})"
    | (stats, s, .ok ()) =>
      match stream.finish stats.stoppedAtEnd with
      | none => .ok s
      | some closeErr => .error closeErr

/-- One file of the loop, with a pipe and reply counts of its own. -/
def replayFile (startPos : UInt64) (endMs : Int64) (file : String) (s : Replaying) :
    Attempt ReplayError Replaying :=
  let begun := { s with cmds := [], bytes := 0, stats := {} }
  match (decodeSSDFile host file startPos endMs begun).bind (flush host) with
  | .panic => .panic
  | .error err => .error (.binlog (baseName file) err)
  | .ok s =>
    if 0 < s.stats.lines ∧ s.stats.errors = s.stats.lines then
      .error (.allErrors (baseName file) s.stats.lines s.stats.shown)
    else .ok s

def replayFiles (startPos : UInt64) (endMs : Int64) :
    List String → Replaying → Attempt ReplayError Replaying
  | [], s => .ok s
  | file :: rest, s => (replayFile host startPos endMs file s).bind (replayFiles startPos endMs rest)

/-- The batches that a replay sends. -/
def replay (fullFiles : List String) (recoverAt : Instant) (binlogs : List String) :
    Attempt ReplayError (List (List Command)) :=
  let started : Except String UInt64 := do
    let password ← host.password
    host.connect password
    let startPos ← replayStartPos host.binlogSize fullFiles
    host.applyClient password
    return startPos
  match started with
  | .error err => .error (.setup err)
  | .ok startPos =>
    (replayFiles host startPos (replayEndMs recoverAt) binlogs ⟨[], 0, [], {}, 0⟩).bind fun s =>
      .ok s.sent

end Sending

section Reading

variable {σ : Type*} {startSeq endMs : Int64} {onRecord : SsdBinlogRecord → σ → Attempt String σ}

/-- The records of a stream, up to its end or to the first that cannot be read. -/
def recordsFrom (bytes : List UInt8) (lastSeq : Int64) : List SsdBinlogRecord :=
  match h : readRecord lastSeq bytes with
  | .ok (some (rec, rest)) =>
    have : rest.length < bytes.length := readRecord_shorter h
    rec :: recordsFrom rest rec.seq
  | _ => []
  termination_by bytes.length

theorem recordsFrom_next {bytes rest : List UInt8} {lastSeq : Int64} {rec : SsdBinlogRecord}
    (h : readRecord lastSeq bytes = .ok (some (rec, rest))) :
    recordsFrom bytes lastSeq = rec :: recordsFrom rest rec.seq := by
  rw [recordsFrom]
  split
  · rename_i rec' rest' hnext
    cases h.symm.trans hnext
    rfl
  · rename_i hnext
    exact absurd h (hnext rec rest)

theorem recordsFrom_end {bytes : List UInt8} {lastSeq : Int64}
    (h : readRecord lastSeq bytes = .ok none) : recordsFrom bytes lastSeq = [] := by
  rw [recordsFrom]
  split
  · rename_i hnext
    cases h.symm.trans hnext
  · rfl

/-- The records that a stream hands on: those from the start, up to the first past the end. -/
def windowOf (startSeq endMs : Int64) (records : List SsdBinlogRecord) : List SsdBinlogRecord :=
  (records.filter fun rec => startSeq ≤ rec.seq).takeWhile fun rec => rec.ts ≤ endMs

section Window

variable {rec : SsdBinlogRecord} {records : List SsdBinlogRecord}

/-- A record before the start is skipped. -/
theorem windowOf_skip (hstart : rec.seq < startSeq) :
    windowOf startSeq endMs (rec :: records) = windowOf startSeq endMs records := by
  simp [windowOf, Int64.not_le.mpr hstart]

/-- The first record past the end stops the stream. -/
theorem windowOf_stop (hstart : ¬ rec.seq < startSeq) (hend : endMs < rec.ts) :
    windowOf startSeq endMs (rec :: records) = [] := by
  simp [windowOf, Int64.not_lt.mp hstart, Int64.not_le.mpr hend]

theorem windowOf_take (hstart : ¬ rec.seq < startSeq) (hend : ¬ endMs < rec.ts) :
    windowOf startSeq endMs (rec :: records) = rec :: windowOf startSeq endMs records := by
  simp [windowOf, Int64.not_lt.mp hstart, Int64.not_lt.mp hend]

end Window

/-- The records handed on, one after another. -/
def handAll (onRecord : SsdBinlogRecord → σ → Attempt String σ) :
    List SsdBinlogRecord → σ → Attempt String σ
  | [], s => .ok s
  | rec :: records, s => (onRecord rec s).bind (handAll onRecord records)

theorem readRecords_handed (n : ℕ) {bytes : List UInt8} (hn : bytes.length ≤ n) {lastSeq : Int64}
    {st st' : SsdDecodeStats} {s s' : σ}
    (h : readRecords startSeq endMs onRecord bytes lastSeq st s = (st', s', .ok ())) :
    handAll onRecord (windowOf startSeq endMs (recordsFrom bytes lastSeq)) s = .ok s' := by
  induction n generalizing bytes lastSeq st s with
  | zero =>
    have hnil : bytes = [] := List.eq_nil_of_length_eq_zero (by omega)
    have hend : readRecord lastSeq [] = .ok none := rfl
    rw [hnil, readRecords_nil] at h
    cases h
    rw [hnil, recordsFrom_end hend]
    rfl
  | succ n ih =>
    cases hread : readRecord lastSeq bytes with
    | panic => exact absurd hread (readRecord_safe lastSeq bytes)
    | error message =>
      rw [readRecords_error hread] at h
      cases h
    | ok next =>
      cases next with
      | none =>
        rw [readRecords_end hread] at h
        cases h
        rw [recordsFrom_end hread]
        rfl
      | some next =>
        obtain ⟨rec, rest⟩ := next
        have hshorter := readRecord_shorter hread
        rw [readRecords_next hread] at h
        rw [recordsFrom_next hread]
        by_cases hstart : rec.seq < startSeq
        · rw [if_pos hstart] at h
          rw [windowOf_skip hstart]
          exact ih (by omega) h
        · rw [if_neg hstart] at h
          by_cases hend : endMs < rec.ts
          · rw [if_pos hend] at h
            cases h
            rw [windowOf_stop hstart hend]
            rfl
          · rw [if_neg hend] at h
            rw [windowOf_take hstart hend, handAll]
            cases hhanded : onRecord rec s with
            | panic =>
              rw [hhanded] at h
              cases h
            | error message =>
              rw [hhanded] at h
              cases h
            | ok s₁ =>
              rw [hhanded] at h
              exact ih (by omega) h

/-- The records of a stream that was written record by record. -/
theorem recordsFrom_encode {records : List SsdBinlogRecord} {lastSeq : Int64}
    (h : ∀ rec ∈ records, rec.payload.length ≤ maxSSDBinlogRecord) :
    recordsFrom (records.flatMap fun rec => rec.encode) lastSeq = records := by
  induction records generalizing lastSeq with
  | nil => exact recordsFrom_end rfl
  | cons rec records ih =>
    rw [List.flatMap_cons, recordsFrom_next (readRecord_encode (h rec List.mem_cons_self)),
      ih fun rec hrec => h rec (List.mem_cons_of_mem _ hrec)]

theorem readRecords_encode {records : List SsdBinlogRecord} {lastSeq : Int64}
    {st : SsdDecodeStats} {s s' : σ} (hfits : ∀ rec ∈ records, rec.payload.length ≤ maxSSDBinlogRecord)
    (h : handAll onRecord (windowOf startSeq endMs records) s = .ok s') :
    ∃ st', readRecords startSeq endMs onRecord (records.flatMap fun rec => rec.encode) lastSeq st s =
      (st', s', .ok ()) := by
  induction records generalizing lastSeq st s with
  | nil =>
    cases h
    exact ⟨st, readRecords_nil⟩
  | cons rec records ih =>
    have hrest : ∀ rec ∈ records, rec.payload.length ≤ maxSSDBinlogRecord :=
      fun rec hrec => hfits rec (List.mem_cons_of_mem _ hrec)
    rw [List.flatMap_cons, readRecords_next (readRecord_encode (hfits rec List.mem_cons_self))]
    by_cases hstart : rec.seq < startSeq
    · rw [if_pos hstart]
      rw [windowOf_skip hstart] at h
      exact ih hrest h
    · rw [if_neg hstart]
      by_cases hend : endMs < rec.ts
      · rw [if_pos hend]
        rw [windowOf_stop hstart hend] at h
        cases h
        exact ⟨_, rfl⟩
      · rw [if_neg hend]
        rw [windowOf_take hstart hend, handAll] at h
        cases hone : onRecord rec s with
        | panic =>
          rw [hone] at h
          cases h
        | error message =>
          rw [hone] at h
          cases h
        | ok s₁ =>
          rw [hone] at h
          exact ih hrest h

end Reading

section Running

variable {host : Host} {s s' : Replaying} {startPos : UInt64} {startSeq endMs : Int64}

/-- The commands given to the pipe so far: those of the batches sent, then those queued. -/
def Replaying.passed (s : Replaying) : List Command := s.sent.flatten ++ s.cmds

/-- The commands of some records, the first of which reads the clock for the n-th time. -/
def commandsFrom (nowMs : ℕ → Int64) : ℕ → List SsdBinlogRecord → List Command
  | _, [] => []
  | n, rec :: records =>
    (match rec.command (nowMs n) with
      | .ok args => args.toList
      | _ => []) ++ commandsFrom nowMs (n + 1) records

theorem commandsFrom_append (nowMs : ℕ → Int64) (n : ℕ) (xs ys : List SsdBinlogRecord) :
    commandsFrom nowMs n (xs ++ ys) =
      commandsFrom nowMs n xs ++ commandsFrom nowMs (n + xs.length) ys := by
  induction xs generalizing n with
  | nil => rfl
  | cons rec xs ih =>
    have hn : n + 1 + xs.length = n + (xs.length + 1) := by omega
    rw [List.cons_append, commandsFrom, commandsFrom, ih, List.append_assoc, List.length_cons, hn]

theorem flush_ok (h : flush host s = .ok s') :
    s'.sent.flatten = s.passed ∧ s'.cmds = [] ∧ s'.clock = s.clock := by
  unfold flush at h
  split at h
  · rename_i hnone
    cases h
    exact ⟨by rw [Replaying.passed, hnone, List.append_nil], hnone, rfl⟩
  · split at h
    · cases h
    · cases h
      exact ⟨by simp [Replaying.passed], rfl, rfl⟩

theorem add_ok {args : Command} (h : add host args s = .ok s') :
    s'.passed = s.passed ++ [args] ∧ s'.clock = s.clock := by
  unfold add at h
  dsimp only at h
  split at h
  · obtain ⟨hsent, hcmds, hclock⟩ := flush_ok h
    refine ⟨?_, hclock⟩
    rw [Replaying.passed, hsent, hcmds]
    simp [Replaying.passed]
  · cases h
    exact ⟨by simp [Replaying.passed], rfl⟩

/-- A record that is handed on reads the clock once and gives the pipe its command. -/
theorem onRecord_ok {rec : SsdBinlogRecord} (h : onRecord host rec s = .ok s') :
    s'.passed = s.passed ++ commandsFrom host.nowMs s.clock [rec] ∧ s'.clock = s.clock + 1 := by
  unfold onRecord at h
  split at h
  · cases h
  · cases h
  · rename_i hcommand
    cases h
    simp [Replaying.passed, commandsFrom, hcommand]
  · rename_i args hcommand
    obtain ⟨hpassed, hclock⟩ := add_ok h
    refine ⟨?_, hclock⟩
    rw [hpassed]
    simp [Replaying.passed, commandsFrom, hcommand]

theorem handAll_ok {records : List SsdBinlogRecord}
    (h : handAll (onRecord host) records s = .ok s') :
    s'.passed = s.passed ++ commandsFrom host.nowMs s.clock records ∧
      s'.clock = s.clock + records.length := by
  induction records generalizing s with
  | nil =>
    cases h
    exact ⟨(List.append_nil _).symm, rfl⟩
  | cons rec records ih =>
    rw [handAll] at h
    cases hone : onRecord host rec s with
    | panic =>
      rw [hone] at h
      cases h
    | error message =>
      rw [hone] at h
      cases h
    | ok s₁ =>
      rw [hone] at h
      obtain ⟨hpassed, hclock⟩ := onRecord_ok hone
      obtain ⟨hpassed', hclock'⟩ := ih h
      have hsplit := commandsFrom_append host.nowMs s.clock [rec] records
      rw [List.singleton_append, List.length_singleton] at hsplit
      constructor
      · rw [hpassed', hpassed, hclock, List.append_assoc, hsplit]
      · rw [hclock', hclock, List.length_cons]
        omega

/-- The records of a file. -/
def Host.records (host : Host) (file : String) : List SsdBinlogRecord :=
  match host.openSSDStream file with
  | .ok stream => recordsFrom stream.bytes 0
  | .error _ => []

theorem decodeSSDFile_ok {file : String} (h : decodeSSDFile host file startPos endMs s = .ok s') :
    s'.passed = s.passed ++
        commandsFrom host.nowMs s.clock (windowOf startPos.toInt64 endMs (host.records file)) ∧
      s'.clock = s.clock + (windowOf startPos.toInt64 endMs (host.records file)).length := by
  unfold decodeSSDFile at h
  split at h
  · cases h
  · rename_i stream hstream
    have hrecords : host.records file = recordsFrom stream.bytes 0 := by
      rw [Host.records, hstream]
    rw [hrecords]
    split at h
    · cases h
    · split at h <;> cases h
    · rename_i stats s₁ hread
      split at h
      · cases h
        exact handAll_ok (readRecords_handed stream.bytes.length le_rfl hread)
      · cases h

/-- A file that goes well sends the commands of its window behind those sent before. -/
theorem replayFile_ok {file : String} (h : replayFile host startPos endMs file s = .ok s') :
    s'.sent.flatten = s.sent.flatten ++
        commandsFrom host.nowMs s.clock (windowOf startPos.toInt64 endMs (host.records file)) ∧
      s'.clock = s.clock + (windowOf startPos.toInt64 endMs (host.records file)).length := by
  unfold replayFile at h
  dsimp only at h
  split at h
  · cases h
  · cases h
  · rename_i s₂ hdone
    split at h
    · cases h
    · cases h
      cases hdecode : decodeSSDFile host file startPos endMs
          { s with cmds := [], bytes := 0, stats := {} } with
      | panic =>
        rw [hdecode] at hdone
        cases hdone
      | error message =>
        rw [hdecode] at hdone
        cases hdone
      | ok s₁ =>
        rw [hdecode] at hdone
        obtain ⟨hpassed, hclock⟩ := decodeSSDFile_ok hdecode
        obtain ⟨hsent, -, hclock'⟩ := flush_ok hdone
        refine ⟨?_, hclock'.trans hclock⟩
        rw [hsent, hpassed, Replaying.passed, List.append_nil]

/-- The records that the replay of some files hands on. -/
def sentRecords (host : Host) (startSeq endMs : Int64) (files : List String) :
    List SsdBinlogRecord :=
  files.flatMap fun file => windowOf startSeq endMs (host.records file)

theorem replayFiles_ok {files : List String}
    (h : replayFiles host startPos endMs files s = .ok s') :
    s'.sent.flatten = s.sent.flatten ++
      commandsFrom host.nowMs s.clock (sentRecords host startPos.toInt64 endMs files) := by
  induction files generalizing s with
  | nil =>
    cases h
    exact (List.append_nil _).symm
  | cons file files ih =>
    rw [replayFiles] at h
    cases hone : replayFile host startPos endMs file s with
    | panic =>
      rw [hone] at h
      cases h
    | error message =>
      rw [hone] at h
      cases h
    | ok s₁ =>
      rw [hone] at h
      obtain ⟨hsent, hclock⟩ := replayFile_ok hone
      rw [ih h, hsent, hclock, List.append_assoc, sentRecords, sentRecords, List.flatMap_cons,
        commandsFrom_append]

theorem replay_ok {fullFiles binlogs : List String} {recoverAt : Instant}
    {sent : List (List Command)} (h : replay host fullFiles recoverAt binlogs = .ok sent) :
    ∃ startPos, replayStartPos host.binlogSize fullFiles = .ok startPos ∧
      sent.flatten = commandsFrom host.nowMs 0
        (sentRecords host startPos.toInt64 (replayEndMs recoverAt) binlogs) := by
  unfold replay at h
  dsimp only at h
  split at h
  · cases h
  · rename_i startPos hstarted
    cases hfiles : replayFiles host startPos (replayEndMs recoverAt) binlogs
        ⟨[], 0, [], {}, 0⟩ with
    | panic =>
      rw [hfiles] at h
      cases h
    | error message =>
      rw [hfiles] at h
      cases h
    | ok s =>
      rw [hfiles] at h
      cases h
      refine ⟨startPos, ?_, replayFiles_ok hfiles⟩
      cases hpassword : host.password with
      | error err =>
        rw [hpassword] at hstarted
        cases hstarted
      | ok password =>
        cases hconnect : host.connect password with
        | error err =>
          simp [hpassword, hconnect, bind, Except.bind] at hstarted
        | ok _ =>
          cases hstart : replayStartPos host.binlogSize fullFiles with
          | error err =>
            simp [hpassword, hconnect, hstart, bind, Except.bind] at hstarted
          | ok pos =>
            cases happly : host.applyClient password with
            | error err =>
              simp [hpassword, hconnect, hstart, happly, bind, Except.bind] at hstarted
            | ok _ =>
              simp [hpassword, hconnect, hstart, happly, bind, Except.bind, pure, Except.pure]
                at hstarted
              rw [hstarted]

end Running

section Windows

variable {host : Host} {startSeq endMs : Int64} {records : List SsdBinlogRecord}
  {rec : SsdBinlogRecord} {file : String} {files : List String}

/-- The sequence numbers increase. -/
def Increasing (records : List SsdBinlogRecord) : Prop :=
  records.Pairwise fun a b => a.seq < b.seq

/-- A run of the chain without a gap that begins at the start. -/
def GapFreeRun (startSeq : Int64) (chain run : List SsdBinlogRecord) : Prop :=
  ∃ before after, chain = before ++ run ++ after ∧ (∀ rec ∈ before, rec.seq < startSeq) ∧
    (∀ rec ∈ run, startSeq ≤ rec.seq) ∧ ∀ rec ∈ after, startSeq ≤ rec.seq

/-- A record from the start on is left out of the file for being too late. -/
def CutShort (host : Host) (startSeq endMs : Int64) (file : String) : Prop :=
  ∃ rec ∈ host.records file, startSeq ≤ rec.seq ∧ endMs < rec.ts

theorem mem_windowOf (h : rec ∈ windowOf startSeq endMs records) :
    rec ∈ records ∧ startSeq ≤ rec.seq ∧ rec.ts ≤ endMs := by
  have hts := List.mem_takeWhile_imp h
  have hfilter := List.mem_filter.mp ((List.takeWhile_sublist _).subset h)
  exact ⟨hfilter.1, by simpa using hfilter.2, by simpa using hts⟩

/-- What increases falls into the part before the start and the part from it on. -/
theorem increasing_split (h : Increasing records) :
    records = (records.filter fun rec => rec.seq < startSeq) ++
      records.filter fun rec => startSeq ≤ rec.seq := by
  induction records with
  | nil => rfl
  | cons rec rest ih =>
    obtain ⟨hrec, hrest⟩ := List.pairwise_cons.mp h
    by_cases hlt : rec.seq < startSeq
    · rw [List.filter_cons_of_pos (by simpa using hlt),
        List.filter_cons_of_neg (by simpa using hlt), List.cons_append, ← ih hrest]
    · have hlate : ∀ later ∈ rec :: rest, startSeq ≤ later.seq := by
        intro later hlater
        rcases List.mem_cons.mp hlater with rfl | hlater
        · exact Int64.not_lt.mp hlt
        · exact Int64.le_trans (Int64.not_lt.mp hlt) (Int64.le_of_lt (hrec later hlater))
      have hnone : ((rec :: rest).filter fun rec => rec.seq < startSeq) = [] := by
        apply List.filter_eq_nil_iff.mpr
        intro later hlater
        simpa using hlate later hlater
      have hall : ((rec :: rest).filter fun rec => startSeq ≤ rec.seq) = rec :: rest := by
        apply List.filter_eq_self.mpr
        intro later hlater
        simpa using hlate later hlater
      rw [hnone, hall, List.nil_append]

theorem gapFreeRun_iff (h : Increasing records) {run : List SsdBinlogRecord} :
    GapFreeRun startSeq records run ↔
      run <+: records.filter fun rec => startSeq ≤ rec.seq := by
  constructor
  · rintro ⟨before, after, hchain, hbefore, hrun, hafter⟩
    have hnone : (before.filter fun rec => startSeq ≤ rec.seq) = [] := by
      apply List.filter_eq_nil_iff.mpr
      intro rec hrec
      simpa using hbefore rec hrec
    have hall : ((run ++ after).filter fun rec => startSeq ≤ rec.seq) = run ++ after := by
      apply List.filter_eq_self.mpr
      intro rec hrec
      rcases List.mem_append.mp hrec with hrec | hrec
      · simpa using hrun rec hrec
      · simpa using hafter rec hrec
    rw [hchain, List.append_assoc, List.filter_append, hnone, hall, List.nil_append]
    exact List.prefix_append run after
  · rintro ⟨after, hafter⟩
    have hfrom : ∀ rec ∈ run ++ after, startSeq ≤ rec.seq := by
      intro rec hrec
      rw [hafter] at hrec
      simpa using (List.mem_filter.mp hrec).2
    refine ⟨records.filter fun rec => rec.seq < startSeq, after, ?_, ?_, ?_, ?_⟩
    · rw [List.append_assoc, hafter]
      exact increasing_split h
    · intro rec hrec
      simpa using (List.mem_filter.mp hrec).2
    · intro rec hrec
      exact hfrom rec (List.mem_append_left _ hrec)
    · intro rec hrec
      exact hfrom rec (List.mem_append_right _ hrec)

theorem increasing_file (h : Increasing (files.flatMap host.records)) (hfile : file ∈ files) :
    Increasing (host.records file) := by
  obtain ⟨before, after, rfl⟩ := List.append_of_mem hfile
  rw [Increasing, List.flatMap_append, List.flatMap_cons] at h
  exact (List.pairwise_append.mp (List.pairwise_append.mp h).2.1).1

/-- The window is what is left from the start on, but for the first late record and all behind it. -/
theorem windowOf_append : ∃ after, windowOf startSeq endMs records ++ after =
    (records.filter fun rec => startSeq ≤ rec.seq) ∧
      ∀ late ∈ after.head?, endMs < late.ts := by
  refine ⟨(records.filter fun rec => startSeq ≤ rec.seq).dropWhile fun rec => rec.ts ≤ endMs,
    ?_, ?_⟩
  · rw [windowOf]
    exact List.takeWhile_append_dropWhile
  intro late hlate
  have hfirst := List.head?_dropWhile_not (fun rec : SsdBinlogRecord => decide (rec.ts ≤ endMs))
    (records.filter fun rec => startSeq ≤ rec.seq)
  rw [Option.mem_def.mp hlate] at hfirst
  simpa using hfirst

/-- One run through the files sends a gap-free run just where no file behind one that was cut short
sends a record. -/
theorem sentRecords_prefix :
    sentRecords host startSeq endMs files <+:
        ((files.flatMap host.records).filter fun rec => startSeq ≤ rec.seq) ↔
      files.Pairwise fun file later => CutShort host startSeq endMs file →
        windowOf startSeq endMs (host.records later) = [] := by
  induction files with
  | nil => simp [sentRecords]
  | cons file files ih =>
    obtain ⟨after, hafter, hlate⟩ := @windowOf_append startSeq endMs (host.records file)
    have hcut : CutShort host startSeq endMs file ↔ after ≠ [] := by
      constructor
      · rintro ⟨rec, hrec, hseq, hts⟩ hnil
        have hmem : rec ∈ windowOf startSeq endMs (host.records file) := by
          rw [hnil, List.append_nil] at hafter
          rw [hafter]
          exact List.mem_filter.mpr ⟨hrec, by simpa using hseq⟩
        exact Int64.not_le.mpr hts (mem_windowOf hmem).2.2
      · intro hne
        obtain ⟨late, rest, rfl⟩ := List.exists_cons_of_ne_nil hne
        have hmem : late ∈ (host.records file).filter fun rec => startSeq ≤ rec.seq := by
          rw [← hafter]
          exact List.mem_append_right _ List.mem_cons_self
        obtain ⟨hrec, hseq⟩ := List.mem_filter.mp hmem
        exact ⟨late, hrec, by simpa using hseq, hlate late rfl⟩
    have hsent : sentRecords host startSeq endMs (file :: files) =
        windowOf startSeq endMs (host.records file) ++ sentRecords host startSeq endMs files := by
      rw [sentRecords, List.flatMap_cons, sentRecords]
    rw [hsent, List.flatMap_cons, List.filter_append, ← hafter, List.append_assoc,
      List.prefix_append_right_inj, List.pairwise_cons]
    by_cases hnil : after = []
    · have hopen : ¬ CutShort host startSeq endMs file := fun h => hcut.mp h hnil
      rw [hnil, List.nil_append, ih]
      constructor
      · intro h
        exact ⟨fun later _ hshort => absurd hshort hopen, h⟩
      · intro h
        exact h.2
    · have hshort : CutShort host startSeq endMs file := hcut.mpr hnil
      have hempty : sentRecords host startSeq endMs files = [] ↔
          ∀ later ∈ files, windowOf startSeq endMs (host.records later) = [] :=
        List.flatMap_eq_nil_iff
      constructor
      · intro h
        -- the first record behind the cut is too late to be one that was sent
        have hnone : sentRecords host startSeq endMs files = [] := by
          by_contra hne
          obtain ⟨late, rest, rfl⟩ := List.exists_cons_of_ne_nil hnil
          obtain ⟨first, tail, hsome⟩ := List.exists_cons_of_ne_nil hne
          rw [hsome, List.cons_append, List.cons_prefix_cons] at h
          have hmem : first ∈ sentRecords host startSeq endMs files := by
            rw [hsome]
            exact List.mem_cons_self
          obtain ⟨later, -, hmem⟩ := List.mem_flatMap.mp hmem
          refine Int64.not_le.mpr (hlate late rfl) ?_
          rw [← h.1]
          exact (mem_windowOf hmem).2.2
        have hall := hempty.mp hnone
        refine ⟨fun later hlater _ => hall later hlater, ?_⟩
        exact List.pairwise_of_forall_mem_list fun file _ later hlater _ => hall later hlater
      · rintro ⟨hall, -⟩
        rw [hempty.mpr fun later hlater => hall later hlater hshort]
        exact List.nil_prefix

/-- A host whose files hold some records and whose instance takes every command. -/
def recorded (endSeq : UInt64) (files : String → List SsdBinlogRecord) : Host where
  password := .ok ""
  connect _ := .ok ()
  binlogSize := .ok endSeq
  applyClient _ := .ok ()
  openSSDStream file := .ok ⟨(files file).flatMap fun rec => rec.encode, fun _ => none⟩
  pipeline _ cmds := cmds.map fun _ => .done
  nowMs _ := 0

/-- The record of `del` of one key. -/
def delKey (key : UInt8) (seq ts : Int64) : SsdBinlogRecord :=
  { delRecord seq ts [] with key := [0, 0, 0, 0, 97, key] }

theorem delKey_command (key : UInt8) (seq ts nowMs : Int64) :
    (delKey key seq ts).command nowMs = .ok (some [word "del", [key]]) :=
  @command_carries (delKey key seq ts) (.del [key]) nowMs ⟨rfl, 97, [0, 0, 0, 0], rfl, rfl⟩
    (show 6 < 2 ^ 31 by decide)

theorem delKey_fits (key : UInt8) (seq ts : Int64) :
    (delKey key seq ts).payload.length ≤ maxSSDBinlogRecord := by
  rw [length_payload]
  exact show 46 ≤ maxSSDBinlogRecord by decide

/-- A file of which one record is handed on adds one batch of one command. -/
theorem replayFile_delKey {endSeq startPos : UInt64} {content : String → List SsdBinlogRecord}
    {key : UInt8} {seq ts : Int64} (s : Replaying)
    (hfits : ∀ rec ∈ content file, rec.payload.length ≤ maxSSDBinlogRecord)
    (hwindow : windowOf startPos.toInt64 endMs (content file) = [delKey key seq ts]) :
    ∃ s', replayFile (recorded endSeq content) startPos endMs file s = .ok s' ∧
      s'.sent = s.sent ++ [[[word "del", [key]]]] := by
  have hhand : handAll (onRecord (recorded endSeq content))
      (windowOf startPos.toInt64 endMs (content file))
      { s with cmds := [], bytes := 0, stats := {} } =
        .ok { s with
          cmds := [[word "del", [key]]], bytes := 4, stats := {}, clock := s.clock + 1 } := by
    rw [hwindow, handAll, onRecord, delKey_command]
    rfl
  obtain ⟨st, hread⟩ := @readRecords_encode _ _ _ _ _ 0 ⟨0, 0, 0, false⟩ _ _ hfits hhand
  have hdecode : decodeSSDFile (recorded endSeq content) file startPos endMs
      { s with cmds := [], bytes := 0, stats := {} } =
        .ok { s with
          cmds := [[word "del", [key]]], bytes := 4, stats := {}, clock := s.clock + 1 } := by
    simp only [decodeSSDFile, recorded, readSSDBinlog]
    simp only [recorded] at hread
    rw [hread]
  rw [replayFile, hdecode]
  exact ⟨_, rfl, rfl⟩

/-- The clock ran back: the second file begins before the end of the first. -/
def steppedBack (file : String) : List SsdBinlogRecord :=
  if file = "a" then [delKey 1 7 500, delKey 2 8 5000] else [delKey 3 9 600]

theorem replay_steppedBack : replay (recorded 6 steppedBack) [] ⟨0, 0, by decide⟩ ["a", "b"] =
    .ok [[[word "del", [1]]], [[word "del", [3]]]] := by
  have hfits : ∀ file, ∀ rec ∈ steppedBack file, rec.payload.length ≤ maxSSDBinlogRecord := by
    intro file rec hrec
    unfold steppedBack at hrec
    split at hrec
    · rcases List.mem_cons.mp hrec with rfl | hrec
      · exact delKey_fits 1 7 500
      · rw [List.mem_singleton.mp hrec]
        exact delKey_fits 2 8 5000
    · rw [List.mem_singleton.mp hrec]
      exact delKey_fits 3 9 600
  have hfirst : windowOf (7 : UInt64).toInt64 1000 (steppedBack "a") = [delKey 1 7 500] := by
    decide
  have hsecond : windowOf (7 : UInt64).toInt64 1000 (steppedBack "b") = [delKey 3 9 600] := by
    decide
  obtain ⟨s₁, hrun₁, hsent₁⟩ := @replayFile_delKey 1000 "a" 6 7 steppedBack 1 7 500
    ⟨[], 0, [], {}, 0⟩ (hfits "a") hfirst
  obtain ⟨s₂, hrun₂, hsent₂⟩ := @replayFile_delKey 1000 "b" 6 7 steppedBack 3 9 600 s₁
    (hfits "b") hsecond
  have hfiles : replayFiles (recorded 6 steppedBack) 7 1000 ["a", "b"] ⟨[], 0, [], {}, 0⟩ =
      .ok s₂ := by
    rw [replayFiles, hrun₁, Attempt.ok_bind, replayFiles, hrun₂]
    rfl
  have hend : replayEndMs ⟨0, 0, by decide⟩ = 1000 := by decide
  have hstart : replayStartPos (recorded 6 steppedBack).binlogSize [] = .ok 7 := by decide
  have hbatches : s₂.sent = [[[word "del", [1]]], [[word "del", [3]]]] := by
    rw [hsent₂, hsent₁]
    rfl
  have hstarted : (do
      let password ← (recorded 6 steppedBack).password
      (recorded 6 steppedBack).connect password
      let startPos ← replayStartPos (recorded 6 steppedBack).binlogSize []
      (recorded 6 steppedBack).applyClient password
      return startPos) = (.ok 7 : Except String UInt64) := by
    rw [hstart]
    rfl
  rw [replay, hstarted, hend]
  dsimp only
  rw [hfiles, Attempt.ok_bind, hbatches]

theorem records_steppedBack : ["a", "b"].flatMap (recorded 6 steppedBack).records =
    [delKey 1 7 500, delKey 2 8 5000, delKey 3 9 600] := by
  have hfirst : (recorded 6 steppedBack).records "a" = [delKey 1 7 500, delKey 2 8 5000] := by
    refine recordsFrom_encode ?_
    intro rec hrec
    rcases List.mem_cons.mp hrec with rfl | hrec
    · exact delKey_fits 1 7 500
    · rw [List.mem_singleton.mp hrec]
      exact delKey_fits 2 8 5000
  have hsecond : (recorded 6 steppedBack).records "b" = [delKey 3 9 600] := by
    refine recordsFrom_encode ?_
    intro rec hrec
    rw [List.mem_singleton.mp hrec]
    exact delKey_fits 3 9 600
  rw [List.flatMap_cons, List.flatMap_cons, List.flatMap_nil, hfirst, hsecond]
  rfl

theorem increasing_steppedBack :
    Increasing (["a", "b"].flatMap (recorded 6 steppedBack).records) := by
  rw [records_steppedBack, Increasing]
  decide

end Windows

end SsdRestorer

end Rollback
