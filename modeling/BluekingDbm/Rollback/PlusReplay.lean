import BluekingDbm.Library.Base64
import BluekingDbm.Library.Family
import BluekingDbm.Library.Program
import BluekingDbm.Rollback.SsdReplay

/-! The replay of Tendisplus ports: a goroutine for each kvstore, on slots that the ports of a host
share. -/
namespace Rollback.PlusRestorer

open Program Transition Text

section Lines

def restoreBinlogCmd : String := "restorebinlogv2"

/-- A chunk id, a type byte and a db id come before the binlog id. -/
def binlogIDOffset : ℕ := 4 + 1 + 4

inductive LineError
  | notCommand (line : String)
  | otherKvstore (printed : String) (want : ℕ)
  | notBase64 (key : String)
  | tooShort (key : String) (bytes : ℕ)
  | idZero (key : String)

def binlogIDFromKey (key : String) : Except LineError UInt64 :=
  match Base64.decode (word key) with
  | none => .error (.notBase64 key)
  | some raw =>
    if raw.length < binlogIDOffset + 8 then .error (.tooShort key raw.length)
    else
      let id := UInt64.ofNat (Bytes.ofLe ((raw.drop binlogIDOffset).take 8).reverse)
      if id = 0 then .error (.idZero key) else .ok id

/-- The simple case folding of Unicode, as far as it leads to the letters of the command. -/
def foldCase (c : Char) : Char := if c = 'ſ' then 's' else c.toLower

/-- A blank line gives no arguments. -/
def parseRestoreLine (line : String) (kvstore : ℕ) :
    Except LineError (Option (List String × UInt64)) :=
  match fields line with
  | [] => .ok none
  | cmd :: printed :: key :: value :: rest =>
    if cmd.toList.map foldCase ≠ restoreBinlogCmd.toList then .error (.notCommand line)
    else if printed ≠ toString kvstore then .error (.otherKvstore printed kvstore)
    else (binlogIDFromKey key).map fun id => some (cmd :: printed :: key :: value :: rest, id)
  | _ => .error (.notCommand line)

end Lines

section Errors

inductive GoError
  | text (message : String)
  | line (err : LineError)
  | replayStopped
  | wrapped (context : String) (err : GoError)
  | inFlightError (err : GoError)

/-- `errors.Is(err, errReplayStopped)`. -/
def GoError.isReplayStopped : GoError → Bool
  | .replayStopped => true
  | .wrapped _ err => err.isReplayStopped
  | .inFlightError err => err.isReplayStopped
  | _ => false

/-- Whether an `inFlightError` is found on unwrapping. -/
def GoError.inFlight : GoError → Bool
  | .inFlightError _ => true
  | .wrapped _ err => err.inFlight
  | _ => false

def failedInFlight (err : Option GoError) : Bool := err.any GoError.inFlight

end Errors

section Calls

/-- What `binlogpos` replies. -/
inductive PosReply
  | failed (message : String)
  | int (v : ℤ)
  | text (s : String)
  | other (shown : String)

def PosReply.pos : PosReply → Option UInt64
  | .int v => if 0 ≤ v then some (UInt64.ofNat v.toNat) else none
  | .text s => (SsdRestorer.parseUint (trimSpace s)).toOption
  | _ => none

def PosReply.shown : PosReply → String
  | .failed message => message
  | .int v => toString v
  | .text s => s
  | .other shown => shown

/-- The lines of a tool come one at a time; how many there will be is left open at its start. -/
inductive Op
  | takeSlot
  | stopped
  | dial
  | mkdirAll
  | binlogPos
  | startTool (file : String) (startPos : UInt64) (endMs : Int64)
  | readLine
  | finishTool
  | execBatch (cmds : List Command)
  | book (applied : ℕ) (inFlight : Bool)
  | addErr (err : GoError)
  | closeStop
  | releaseSlot
  | wgDone

/-- The slot is not taken when the port is stopped instead. -/
abbrev Res : Op → Type
  | .takeSlot => Bool
  | .stopped => Bool
  | .dial => Option String
  | .mkdirAll => Option String
  | .binlogPos => PosReply
  | .startTool _ _ _ => ℕ
  | .readLine => String
  | .finishTool => Option String
  | .execBatch _ => List PipeResult
  | _ => Unit

abbrev Act := Prog Res

/-- A kvstore of a port: where its instance is and the binlogs to replay. -/
structure Task where
  addr : String
  kvstore : ℕ
  files : List String
  endMs : Int64

/-- The highest id sent or held, the commands that went in, and what is queued. -/
structure Replaying where
  last : UInt64
  applied : ℕ
  cmds : List (List String)
  bytes : ℕ

def onReply (args : List String) (reply : Option String) (applied : ℕ) : Except GoError ℕ :=
  match reply with
  | none => .ok (applied + 1)
  | some reply =>
    let id := (binlogIDFromKey (args.getD 2 "")).toOption.getD 0
    .error (.text s!"{restoreBinlogCmd} of binlog id {id} failed: {reply}")

/-- The replies of a batch, up to the first that stops the pipe. -/
def onReplies : List (List String × Option String) → ℕ → ℕ × Option GoError
  | [], applied => (applied, none)
  | (args, reply) :: rest, applied =>
    match onReply args reply applied with
    | .ok applied => onReplies rest applied
    | .error err => (applied, some err)

def flush (s : Replaying) : Act (Replaying × Option GoError) :=
  if s.cmds = [] then return (s, none)
  else do
    let cmds := s.cmds.map fun args => args.map word
    let results ← perform (Op.execBatch cmds)
    let sent := { s with cmds := [], bytes := 0 }
    match execBatch cmds results with
    | .error err =>
      return (sent, some (.inFlightError (.text s!"batch of {cmds.length} commands broke off: {err}")))
    | .ok replies =>
      let (applied, err) := onReplies (s.cmds.zip replies) s.applied
      return ({ sent with applied }, err.map .inFlightError)

def add (args : List String) (s : Replaying) : Act (Replaying × Option GoError) :=
  let s := { s with
    cmds := s.cmds ++ [args]
    bytes := args.foldl (fun bytes arg => bytes + arg.utf8ByteSize) s.bytes }
  if pipeBatchCmds ≤ s.cmds.length ∨ pipeBatchBytes ≤ s.bytes then flush s else return (s, none)

section Replay

variable (task : Task)

/-- A line of the tool. -/
def onLine (line : String) (s : Replaying) : Act (Replaying × Option GoError) :=
  match parseRestoreLine line task.kvstore with
  | .error err => return (s, some (.line err))
  | .ok none => return (s, none)
  | .ok (some (args, id)) =>
    if id ≤ s.last then
      return (s, some (.inFlightError (.text (s!"binlog id {id} is not after {s.last} though " ++
        s!"binlog_tool started after it; binlog ids may not be read right from {restoreBinlogCmd} keys"))))
    else do
      let stop ← perform Op.stopped
      if stop then return (s, some .replayStopped) else add args { s with last := id }

/-- The first error of a line stops the tool and is returned. -/
def readLines : ℕ → Replaying → Act (Replaying × Option GoError)
  | 0, s => do
    let err ← perform Op.finishTool
    return (s, err.map .text)
  | n + 1, s => do
    let line ← perform Op.readLine
    let (s, err) ← onLine task line s
    match err with
    | some err => return (s, some err)
    | none => readLines n s

/-- What is queued is sent at the end of a file, unless the port is stopped. -/
def finishFile (s : Replaying) : Act (Replaying × Option GoError) := do
  let stop ← perform Op.stopped
  if stop then return (s, some .replayStopped) else flush s

def replayFile (file : String) (s : Replaying) : Act (Replaying × Option GoError) := do
  let lines ← perform (Op.startTool file (s.last + 1) task.endMs)
  let (s, err) ← readLines task lines s
  let (s, err) ←
    match err with
    | some err => pure (s, some err)
    | none => finishFile s
  return (s, err.map (.wrapped s!"kvstore {task.kvstore} binlog {baseName file}: "))

def replayFiles : List String → Replaying → Act (Replaying × Option GoError)
  | [], s => return (s, none)
  | file :: rest, s => do
    let stop ← perform Op.stopped
    if stop then return (s, some .replayStopped)
    else
      let (s, err) ← replayFile task file s
      match err with
      | some err => return (s, some err)
      | none => replayFiles rest s

/-- `BinlogPos`, the highest binlog id that the kvstore holds. -/
def binlogPos : Act (Except GoError UInt64) := do
  let reply ← perform Op.binlogPos
  match reply, reply.pos with
  | .failed message, _ =>
    return .error (.text s!"binlogpos {task.kvstore} on {task.addr} failed: {message}")
  | _, some pos => return .ok pos
  | _, none =>
    return .error (.text s!"binlogpos {task.kvstore} on {task.addr} returned {reply.shown}")

/-- The end of the replay: the last id must be held. -/
def checkPos (s : Replaying) : Act (ℕ × Option GoError) := do
  let pos ← binlogPos task
  match pos with
  | .error err => return (s.applied, some err)
  | .ok pos =>
    if pos ≠ s.last then
      return (s.applied, some (.inFlightError (.text (s!"kvstore {task.kvstore} binlogpos is {pos} " ++
        s!"after replay, want {s.last}, the last binlog id replayed"))))
    else return (s.applied, none)

def replayKvstore : Act (ℕ × Option GoError) := do
  let err ← perform Op.mkdirAll
  match err with
  | some message => return (0, some (.text message))
  | none =>
    let start ← binlogPos task
    match start with
    | .error err => return (0, some err)
    | .ok start =>
      let (s, err) ← replayFiles task task.files ⟨start, 0, [], 0⟩
      match err with
      | some err => return (s.applied, some err)
      | none => checkPos task s

def replayOnConn : Act (ℕ × Option GoError) := do
  let err ← perform Op.dial
  match err with
  | some message => return (0, some (.text message))
  | none => replayKvstore task

/-- What is booked of a kvstore's replay; a replay that was stopped has not failed. -/
def bookReplay (n : ℕ) (err : Option GoError) : Act Unit := do
  let err := err.filter fun err => !err.isReplayStopped
  perform (Op.book n (failedInFlight err))
  match err with
  | none => perform Op.releaseSlot
  | some err =>
    perform (Op.addErr err)
    perform Op.closeStop
    -- the slot goes back once stop is closed, so no sibling starts on it
    perform Op.releaseSlot

/-- The goroutine of a kvstore. -/
def kvstoreRoutine : Act Unit := do
  let taken ← perform Op.takeSlot
  if taken then
    let stop ← perform Op.stopped
    if stop then
      perform Op.releaseSlot
      perform Op.wgDone
    else
      let (n, err) ← replayOnConn task
      bookReplay n err
      perform Op.wgDone
  else perform Op.wgDone

end Replay

end Calls

section Limits

/-- The cores of a host and `max_concurrency`, 0 when it sets no limit. -/
structure Limits where
  cpu : ℤ
  max : ℤ

def Limits.capped (l : Limits) (n : ℤ) : ℤ :=
  let n := if 0 < l.max ∧ l.max < n then l.max else n
  if n < 1 then 1 else n

/-- The number of kvstores that replay at once. -/
def Limits.kvstoreReplay (l : Limits) (streams : ℤ) : ℤ := l.capped (min streams l.cpu)

/-- There always is a slot. -/
theorem Limits.kvstoreReplay_pos (l : Limits) (streams : ℤ) : 0 < l.kvstoreReplay streams := by
  unfold kvstoreReplay capped
  dsimp only
  split <;> omega

end Limits

section Tracks

/-- How a kvstore ends: without having started, with its replay done or stopped, or failed. -/
inductive Ending
  | unstarted
  | well
  | failed
  deriving DecidableEq

/-- Where a goroutine is. -/
inductive Phase
  | waiting
  | holding
  | barred
  | running
  | booked
  | failed
  | closed
  | released (ending : Ending)
  | finished (ending : Ending)
  deriving DecidableEq

namespace Phase

def holdsSlot : Phase → Bool
  | holding => true
  | barred => true
  | running => true
  | booked => true
  | failed => true
  | closed => true
  | _ => false

def started : Phase → Bool
  | running => true
  | booked => true
  | failed => true
  | closed => true
  | released ending => decide (ending ≠ .unstarted)
  | finished ending => decide (ending ≠ .unstarted)
  | _ => false

/-- Its error is collected. -/
def hasFailed : Phase → Bool
  | failed => true
  | closed => true
  | released ending => decide (ending = .failed)
  | finished ending => decide (ending = .failed)
  | _ => false

/-- It has closed the port's stop. -/
def hasClosed : Phase → Bool
  | failed => false
  | phase => phase.hasFailed

/-- What it has replayed is booked. -/
def hasBooked : Phase → Bool
  | booked => true
  | released ending => decide (ending ≠ .unstarted)
  | finished ending => decide (ending ≠ .unstarted)
  | phase => phase.hasFailed

/-- It found the port stopped before it started. -/
def turnedAway : Phase → Bool
  | barred => true
  | released ending => decide (ending = .unstarted)
  | finished ending => decide (ending = .unstarted)
  | _ => false

def isOver : Phase → Bool
  | finished _ => true
  | _ => false

end Phase

/-- What is seen of a goroutine: the highest binlog id held or printed, whether it has sent a batch,
and whether writes may have gone in past a hole: a batch broke off or was refused in part, or the ids
and binlogpos do not agree. -/
structure Track where
  phase : Phase
  last : Option UInt64
  sent : Bool
  hole : Bool
  deriving DecidableEq

def PipeResult.isDone : PipeResult → Bool
  | .done => true
  | _ => false

/-- Every command of a batch was answered normally. -/
def allDone (cmds : List Command) (results : List PipeResult) : Bool :=
  decide (results.length = cmds.length) && results.all PipeResult.isDone

/-- The track after an operation. -/
def after (kvstore : ℕ) : (o : Op) → Track → Res o → Track
  | .takeSlot, g, taken => { g with phase := if taken then .holding else .released .unstarted }
  | .stopped, g, stop =>
    if g.phase = .holding then { g with phase := if stop then .barred else .running } else g
  | .binlogPos, g, reply =>
    match reply.pos, g.last with
    | none, _ => g
    | some pos, none => { g with last := some pos }
    | some pos, some last => { g with hole := g.hole || decide (pos ≠ last) }
  | .readLine, g, line =>
    match parseRestoreLine line kvstore, g.last with
    | .ok (some (_, id)), some last =>
      if id ≤ last then { g with hole := true } else { g with last := some id }
    | _, _ => g
  | .execBatch cmds, g, results => { g with sent := true, hole := g.hole || !allDone cmds results }
  | .book _ _, g, _ => { g with phase := .booked }
  | .addErr _, g, _ => { g with phase := .failed }
  | .closeStop, g, _ => { g with phase := .closed }
  | .releaseSlot, g, _ =>
    { g with phase := .released <|
        match g.phase with
        | .closed => .failed
        | .booked => .well
        | _ => .unstarted }
  | .wgDone, g, _ =>
    { g with phase := .finished <|
        match g.phase with
        | .released ending => ending
        | _ => .unstarted }
  | _, g, _ => g

end Tracks

section Interleaving

/-- What the kvstores of a port share. -/
structure PortState where
  stop : Bool
  wg : ℕ
  applied : ℕ
  redo : Bool
  err : Option GoError

/-- The slots taken on a host, and its ports. -/
structure Shared (P : Type) where
  taken : ℕ
  ports : P → PortState

/-- What is left open of an operation: whether a kvstore takes a slot, and what comes back. -/
structure Choice where
  takes : Bool
  failure : Option String
  reply : PosReply
  lines : ℕ
  line : String
  results : List PipeResult

variable {P I : Type} [DecidableEq P] [DecidableEq I]

def Shared.put (sh : Shared P) (p : P) (port : PortState) : Shared P :=
  { sh with ports := Function.update sh.ports p port }

/-- None for an operation that has to wait. -/
def serve (slots : ℕ) (p : P) (c : Choice) (sh : Shared P) : (o : Op) → Option (Res o × Shared P)
  | .takeSlot =>
    if c.takes then
      if sh.taken < slots then some (true, { sh with taken := sh.taken + 1 }) else none
    else if (sh.ports p).stop then some (false, sh) else none
  | .stopped => some ((sh.ports p).stop, sh)
  | .dial => some (c.failure, sh)
  | .mkdirAll => some (c.failure, sh)
  | .binlogPos => some (c.reply, sh)
  | .startTool _ _ _ => some (c.lines, sh)
  | .readLine => some (c.line, sh)
  | .finishTool => some (c.failure, sh)
  | .execBatch _ => some (c.results, sh)
  | .book n inFlight =>
    let port := sh.ports p
    some ((), sh.put p { port with applied := port.applied + n, redo := port.redo || inFlight })
  | .addErr err =>
    let port := sh.ports p
    some ((), sh.put p { port with err := port.err.or (some err) })
  | .closeStop => some ((), sh.put p { sh.ports p with stop := true })
  | .releaseSlot => if sh.taken = 0 then none else some ((), { sh with taken := sh.taken - 1 })
  | .wgDone =>
    let port := sh.ports p
    if port.wg = 0 then none else some ((), sh.put p { port with wg := port.wg - 1 })

/-- The kvstores to replay, each of a port. -/
structure Plan (P I : Type) where
  port : I → P
  task : I → Task

/-- The ports under way: the goroutines with their tracks, what the replay of a port has returned,
and whether the port still counts as restored. -/
structure Replays (P I : Type) where
  shared : Shared P
  prog : I → Act Unit
  track : I → Track
  returned : P → Option (ℕ × Option GoError)
  restored : P → Bool

/-- All goroutines are there before one of them has done anything. -/
def opened [Fintype I] (plan : Plan P I) : Replays P I where
  shared := ⟨0, fun p => ⟨false, ∑ i, if plan.port i = p then 1 else 0, 0, false, none⟩⟩
  prog i := kvstoreRoutine (plan.task i)
  track _ := ⟨.waiting, none, false, false⟩
  returned _ := none
  restored _ := true

/-- The error that `replay` returns. -/
def PortState.result (port : PortState) : Option GoError :=
  if port.redo ∧ failedInFlight port.err = false then port.err.map .inFlightError else port.err

/-- A goroutine makes its next operation, or a replay has waited for all of its goroutines. -/
inductive Event (P I : Type)
  | turn (i : I) (c : Choice)
  | join (p : P)

def next (plan : Plan P I) (slots : ℕ) (s : Replays P I) : Event P I → Option (Replays P I)
  | .turn i c =>
    match s.prog i with
    | .done _ => none
    | .call o k => (serve slots (plan.port i) c s.shared o).map fun (r, shared) =>
      { s with
        shared
        prog := Function.update s.prog i (k r)
        track := Function.update s.track i (after (plan.task i).kvstore o (s.track i) r) }
  | .join p =>
    let port := s.shared.ports p
    if s.returned p = none ∧ port.wg = 0 then
      some { s with
        returned := Function.update s.returned p (some (port.applied, port.result))
        restored := Function.update s.restored p (!failedInFlight port.result) }
    else none

end Interleaving

section Batches

/-- A batch without error replies and other errors was answered normally. -/
theorem mapM_errorReply (results : List PipeResult) :
    (∀ message, results.mapM PipeResult.errorReply = .error message →
      results.all PipeResult.isDone = false) ∧
    ∀ replies, results.mapM PipeResult.errorReply = .ok replies →
      replies.length = results.length ∧
        results.all PipeResult.isDone = replies.all Option.isNone := by
  induction results with
  | nil =>
    constructor
    · intro message h
      cases h
    · intro replies h
      cases h
      exact ⟨rfl, rfl⟩
  | cons result results ih =>
    obtain ⟨ihbroken, ihreplies⟩ := ih
    rw [List.mapM_cons]
    cases result with
    | broken message =>
      constructor
      · intro _ _
        rfl
      · intro replies h
        cases h
    | done =>
      cases hrest : results.mapM PipeResult.errorReply with
      | error message =>
        constructor
        · intro _ _
          exact ihbroken message hrest
        · intro replies h
          cases h
      | ok rest =>
        obtain ⟨hlen, hall⟩ := ihreplies rest hrest
        constructor
        · intro message h
          cases h
        · intro replies h
          cases h
          exact ⟨congrArg (· + 1) hlen, hall⟩
    | reply message =>
      cases hrest : results.mapM PipeResult.errorReply with
      | error message =>
        constructor
        · intro _ _
          rfl
        · intro replies h
          cases h
      | ok rest =>
        obtain ⟨hlen, hall⟩ := ihreplies rest hrest
        constructor
        · intro message h
          cases h
        · intro replies h
          cases h
          exact ⟨congrArg (· + 1) hlen, rfl⟩

/-- The pipe stops at an error reply, and for no other reason. -/
theorem onReplies_err (args : List (List String)) (replies : List (Option String))
    (hlen : replies.length = args.length) (applied : ℕ) :
    match (onReplies (args.zip replies) applied).2 with
    | none => replies.all Option.isNone = true
    | some err => replies.all Option.isNone = false ∧ err.isReplayStopped = false := by
  induction args generalizing replies applied with
  | nil =>
    cases replies with
    | nil => rfl
    | cons reply replies => cases hlen
  | cons cmd args ih =>
    cases replies with
    | nil => cases hlen
    | cons reply replies =>
      cases reply with
      | none => exact ih replies (Nat.succ.inj hlen) (applied + 1)
      | some reply => exact ⟨rfl, rfl⟩

end Batches

section Keeping

variable {kvstore : ℕ} {g : Track} {s : Replaying} {task : Task}

/-- When a goroutine makes an operation. -/
def Allowed : Op → Track → Prop
  | .takeSlot, g => g.phase = .waiting
  | .stopped, g => g.phase = .holding ∨ g.phase = .running
  | .book _ inFlight, g => g.phase = .running ∧ inFlight = g.hole
  | .addErr err, g => g.phase = .booked ∧ err.inFlight = g.hole
  | .closeStop, g => g.phase = .failed
  | .releaseSlot, g => g.phase = .barred ∨ g.phase = .closed ∨ g.phase = .booked ∧ g.hole = false
  | .wgDone, g => ∃ ending, g.phase = .released ending
  | _, g => g.phase = .running

/-- Nothing is done once all is over. -/
theorem Allowed.isOver {o : Op} (h : Allowed o g) : g.phase.isOver = false := by
  cases o with
  | stopped => rcases h with h | h <;> rw [h] <;> rfl
  | book n inFlight => rw [h.1]; rfl
  | addErr err => rw [h.1]; rfl
  | releaseSlot => rcases h with h | h | ⟨h, -⟩ <;> rw [h] <;> rfl
  | wgDone =>
    obtain ⟨ending, h⟩ := h
    rw [h]
    rfl
  | _ => simp_all [Allowed, Phase.isOver]

def Keeps (kvstore : ℕ) : Act Unit → Track → Prop :=
  Ensures Allowed (fun o g r g' => g' = after kvstore o g r) fun _ g => ∃ ending, g.phase = .finished ending

theorem keeps_call {o : Op} {f : Res o → Act Unit} (hallowed : Allowed o g)
    (hf : ∀ r, Keeps kvstore (f r) (after kvstore o g r)) : Keeps kvstore (perform o >>= f) g := by
  refine ⟨hallowed, ?_⟩
  rintro r g' rfl
  exact hf r

/-- The replay goes on: nothing was seen that leaves a hole. -/
structure Ready (g : Track) (last : UInt64) : Prop where
  phase : g.phase = .running
  last : g.last = some last
  hole : g.hole = false

/-- The replay ends with an error, in flight exactly if a hole is left. -/
structure Fails (g : Track) (err : GoError) : Prop where
  phase : g.phase = .running
  inFlight : err.inFlight = g.hole
  stopped : err.isReplayStopped = true → g.hole = false

def Settles (g : Track) (last : UInt64) : Option GoError → Prop
  | none => Ready g last
  | some err => Fails g err

/-- An error outside of a batch. -/
theorem Ready.fails {last : UInt64} (h : Ready g last) {err : GoError} (hplain : err.inFlight = false) :
    Fails g err := ⟨h.phase, hplain.trans h.hole.symm, fun _ => h.hole⟩

theorem keeps_stopped {f : Bool → Act Unit} (h : g.phase = .running)
    (hf : ∀ stop, Keeps kvstore (f stop) g) : Keeps kvstore (perform Op.stopped >>= f) g := by
  refine keeps_call (Or.inr h) ?_
  intro stop
  have hafter : after kvstore .stopped g stop = g := if_neg (by rw [h]; decide)
  rw [hafter]
  exact hf stop

theorem keeps_flush {f : Replaying × Option GoError → Act Unit} (h : Ready g s.last)
    (hf : ∀ s' err g', Settles g' s'.last err → Keeps kvstore (f (s', err)) g') :
    Keeps kvstore (flush s >>= f) g := by
  unfold flush
  split
  · exact hf s none g h
  · rw [Prog.bind_assoc]
    refine keeps_call h.phase ?_
    intro results
    cases hbatch : execBatch (s.cmds.map fun args => args.map word) results with
    | error message =>
      have hdone : allDone (s.cmds.map fun args => args.map word) results = false := by
        unfold execBatch at hbatch
        split at hbatch
        · rename_i hlen
          rw [allDone, decide_eq_false hlen, Bool.false_and]
        · rw [allDone, (mapM_errorReply results).1 message hbatch, Bool.and_false]
      refine hf _ (some _) _ (Fails.mk h.phase ?_ ?_)
      · rw [after, hdone, Bool.not_false, Bool.or_true]
        rfl
      · intro hstop
        cases hstop
    | ok replies =>
      have hlen : results.length = (s.cmds.map fun args => args.map word).length := by
        unfold execBatch at hbatch
        by_contra hne
        rw [if_pos hne] at hbatch
        cases hbatch
      have hreplies : results.mapM PipeResult.errorReply = .ok replies := by
        unfold execBatch at hbatch
        rwa [if_neg (fun hne => hne hlen)] at hbatch
      obtain ⟨hsame, hall⟩ := (mapM_errorReply results).2 replies hreplies
      have hdone : allDone (s.cmds.map fun args => args.map word) results =
          replies.all Option.isNone := by
        rw [allDone, decide_eq_true hlen, Bool.true_and, hall]
      have hfit : replies.length = s.cmds.length := by
        rw [hsame, hlen, List.length_map]
      have herr := onReplies_err s.cmds replies hfit s.applied
      dsimp only
      cases hreplied : onReplies (s.cmds.zip replies) s.applied with
      | mk applied err =>
        rw [hreplied] at herr
        cases err with
        | none =>
          have hall : replies.all Option.isNone = true := herr
          refine hf _ none _ (Ready.mk h.phase h.last ?_)
          rw [after, hdone, hall, h.hole]
          rfl
        | some err =>
          have hfailed : replies.all Option.isNone = false := herr.1
          refine hf _ (some _) _ (Fails.mk h.phase ?_ ?_)
          · rw [after, hdone, hfailed, Bool.not_false, Bool.or_true]
            rfl
          · intro hstop
            cases herr.2.symm.trans hstop

theorem keeps_add {args : List String} {f : Replaying × Option GoError → Act Unit}
    (h : Ready g s.last) (hf : ∀ s' err g', Settles g' s'.last err → Keeps kvstore (f (s', err)) g') :
    Keeps kvstore (add args s >>= f) g := by
  unfold add
  dsimp only
  split
  · exact keeps_flush h hf
  · exact hf _ none g h

theorem keeps_onLine {line : String} {f : Replaying × Option GoError → Act Unit}
    (h : Ready g s.last)
    (hf : ∀ s' err g', Settles g' s'.last err → Keeps task.kvstore (f (s', err)) g') :
    Keeps task.kvstore (onLine task line s >>= f) (after task.kvstore .readLine g line) := by
  unfold onLine
  cases hparse : parseRestoreLine line task.kvstore with
  | error err =>
    have hafter : after task.kvstore .readLine g line = g := by rw [after, hparse]
    rw [hafter]
    exact hf s (some _) g (h.fails rfl)
  | ok parsed =>
    cases parsed with
    | none =>
      have hafter : after task.kvstore .readLine g line = g := by rw [after, hparse]
      rw [hafter]
      exact hf s none g h
    | some parsed =>
      obtain ⟨args, id⟩ := parsed
      have hafter : after task.kvstore .readLine g line =
          if id ≤ s.last then { g with hole := true } else { g with last := some id } := by
        rw [after, hparse, h.last]
      rw [hafter]
      dsimp only
      split
      · refine hf s (some _) _ (Fails.mk h.phase rfl ?_)
        intro hstop
        cases hstop
      · have hready : Ready { g with last := some id } id := ⟨h.phase, rfl, h.hole⟩
        rw [Prog.bind_assoc]
        refine keeps_stopped h.phase ?_
        intro stop
        cases stop with
        | true => exact hf s (some _) _ (hready.fails rfl)
        | false => exact keeps_add (s := { s with last := id }) hready hf

theorem keeps_readLines {n : ℕ} {f : Replaying × Option GoError → Act Unit} (h : Ready g s.last)
    (hf : ∀ s' err g', Settles g' s'.last err → Keeps task.kvstore (f (s', err)) g') :
    Keeps task.kvstore (readLines task n s >>= f) g := by
  induction n generalizing s g with
  | zero =>
    refine keeps_call h.phase ?_
    intro err
    cases err with
    | none => exact hf s none g h
    | some message => exact hf s (some _) g (h.fails rfl)
  | succ n ih =>
    unfold readLines
    rw [Prog.bind_assoc]
    refine keeps_call h.phase ?_
    intro line
    rw [Prog.bind_assoc]
    refine keeps_onLine h ?_
    intro s' err g' hsettles
    cases err with
    | none => exact ih hsettles
    | some err => exact hf s' (some err) g' hsettles

theorem keeps_finishFile {f : Replaying × Option GoError → Act Unit} (h : Ready g s.last)
    (hf : ∀ s' err g', Settles g' s'.last err → Keeps kvstore (f (s', err)) g') :
    Keeps kvstore (finishFile s >>= f) g := by
  unfold finishFile
  rw [Prog.bind_assoc]
  refine keeps_stopped h.phase ?_
  intro stop
  cases stop with
  | true => exact hf s (some _) g (h.fails rfl)
  | false => exact keeps_flush h hf

theorem Settles.wrapped {last : UInt64} {err : Option GoError} (h : Settles g last err)
    (context : String) : Settles g last (err.map (.wrapped context)) := by
  cases err with
  | none => exact h
  | some err => exact Fails.mk h.phase h.inFlight h.stopped

theorem keeps_replayFile {file : String} {f : Replaying × Option GoError → Act Unit}
    (h : Ready g s.last)
    (hf : ∀ s' err g', Settles g' s'.last err → Keeps task.kvstore (f (s', err)) g') :
    Keeps task.kvstore (replayFile task file s >>= f) g := by
  unfold replayFile
  rw [Prog.bind_assoc]
  refine keeps_call h.phase ?_
  intro lines
  rw [Prog.bind_assoc]
  refine keeps_readLines h ?_
  intro s' err g' hsettles
  cases err with
  | some err => exact hf s' _ g' (hsettles.wrapped _)
  | none =>
    dsimp only
    rw [Prog.bind_assoc]
    refine keeps_finishFile hsettles ?_
    intro s'' err g'' hsettles'
    exact hf s'' _ g'' (hsettles'.wrapped _)

theorem keeps_replayFiles {files : List String} {f : Replaying × Option GoError → Act Unit}
    (h : Ready g s.last)
    (hf : ∀ s' err g', Settles g' s'.last err → Keeps task.kvstore (f (s', err)) g') :
    Keeps task.kvstore (replayFiles task files s >>= f) g := by
  induction files generalizing s g with
  | nil => exact hf s none g h
  | cons file rest ih =>
    unfold replayFiles
    rw [Prog.bind_assoc]
    refine keeps_stopped h.phase ?_
    intro stop
    cases stop with
    | true => exact hf s (some _) g (h.fails rfl)
    | false =>
      rw [if_neg (by decide), Prog.bind_assoc]
      refine keeps_replayFile h ?_
      intro s' err g' hsettles
      cases err with
      | none => exact ih hsettles
      | some err => exact hf s' (some err) g' hsettles

/-- What is read of the position is an id or an error outside of a batch. -/
theorem keeps_binlogPos {f : Except GoError UInt64 → Act Unit} (h : g.phase = .running)
    (herr : ∀ err, err.inFlight = false → err.isReplayStopped = false →
      Keeps kvstore (f (.error err)) g)
    (hpos : ∀ reply pos, reply.pos = some pos →
      Keeps kvstore (f (.ok pos)) (after kvstore .binlogPos g reply)) :
    Keeps kvstore (binlogPos task >>= f) g := by
  unfold binlogPos
  rw [Prog.bind_assoc]
  refine keeps_call h ?_
  intro reply
  cases hreply : reply.pos with
  | none =>
    have hafter : after kvstore .binlogPos g reply = g := by rw [after, hreply]
    rw [hafter]
    cases reply with
    | failed message => exact herr _ rfl rfl
    | int v => exact herr _ rfl rfl
    | text shown => exact herr _ rfl rfl
    | other shown => exact herr _ rfl rfl
  | some pos =>
    cases reply with
    | failed message => cases hreply
    | int v => exact hpos (.int v) pos hreply
    | text shown => exact hpos (.text shown) pos hreply
    | other shown => cases hreply

/-- The replay of a kvstore is over. -/
def Finishes (g : Track) : Option GoError → Prop
  | none => g.phase = .running ∧ g.hole = false
  | some err => Fails g err

theorem keeps_checkPos {f : ℕ × Option GoError → Act Unit} (h : Ready g s.last)
    (hf : ∀ n err g', Finishes g' err → Keeps kvstore (f (n, err)) g') :
    Keeps kvstore (checkPos task s >>= f) g := by
  unfold checkPos
  rw [Prog.bind_assoc]
  refine keeps_binlogPos h.phase ?_ ?_
  · intro err hplain _
    exact hf s.applied (some err) g (h.fails hplain)
  · intro reply pos hreply
    have hafter : after kvstore .binlogPos g reply =
        { g with hole := g.hole || decide (pos ≠ s.last) } := by
      rw [after, hreply, h.last]
    rw [hafter, h.hole, Bool.false_or]
    dsimp only
    split
    · rename_i hne
      refine hf s.applied (some _) _ (Fails.mk h.phase (decide_eq_true hne).symm ?_)
      intro hstop
      cases hstop
    · rename_i heq
      exact hf s.applied none _ ⟨h.phase, decide_eq_false heq⟩

theorem keeps_replayOnConn {f : ℕ × Option GoError → Act Unit} (h : g.phase = .running)
    (hlast : g.last = none) (hhole : g.hole = false)
    (hf : ∀ n err g', Finishes g' err → Keeps task.kvstore (f (n, err)) g') :
    Keeps task.kvstore (replayOnConn task >>= f) g := by
  have hfails : ∀ {err : GoError}, err.inFlight = false → Finishes g (some err) :=
    fun hplain => Fails.mk h (hplain.trans hhole.symm) fun _ => hhole
  unfold replayOnConn
  rw [Prog.bind_assoc]
  refine keeps_call h ?_
  intro err
  cases err with
  | some message => exact hf 0 (some _) g (hfails rfl)
  | none =>
    dsimp only
    unfold replayKvstore
    rw [Prog.bind_assoc]
    refine keeps_call h ?_
    intro err
    cases err with
    | some message => exact hf 0 (some _) g (hfails rfl)
    | none =>
      dsimp only
      rw [Prog.bind_assoc]
      refine keeps_binlogPos (g := g) h ?_ ?_
      · intro err hplain _
        exact hf 0 (some err) g (hfails hplain)
      · intro reply start hreply
        have hafter : after task.kvstore .binlogPos g reply = { g with last := some start } := by
          rw [after, hreply, hlast]
        rw [hafter]
        dsimp only
        rw [Prog.bind_assoc]
        refine keeps_replayFiles ⟨h, rfl, hhole⟩ ?_
        intro s err g' hsettles
        cases err with
        | none => exact keeps_checkPos hsettles hf
        | some err => exact hf s.applied (some err) g' hsettles

theorem keeps_bookReplay {n : ℕ} {err : Option GoError} {f : Unit → Act Unit} (h : Finishes g err)
    (hf : ∀ g', (∃ ending, g'.phase = .released ending) → Keeps kvstore (f ()) g') :
    Keeps kvstore (bookReplay n err >>= f) g := by
  unfold bookReplay
  rw [Prog.bind_assoc]
  have hwell : g.phase = .running → g.hole = false →
      Keeps kvstore (perform (Op.book n false) >>= fun _ => perform Op.releaseSlot >>= f) g := by
    intro hphase hhole
    refine keeps_call ⟨hphase, hhole.symm⟩ ?_
    intro _
    refine keeps_call (Or.inr (Or.inr ⟨rfl, hhole⟩)) ?_
    intro _
    exact hf _ ⟨_, rfl⟩
  cases err with
  | none => exact hwell h.1 h.2
  | some err =>
    cases hstop : err.isReplayStopped with
    | true =>
      have hnone : (some err).filter (fun err => !err.isReplayStopped) = none :=
        Option.filter_some_neg (by rw [hstop]; rfl)
      rw [hnone]
      exact hwell h.phase (h.stopped hstop)
    | false =>
      have hsome : (some err).filter (fun err => !err.isReplayStopped) = some err :=
        Option.filter_some_pos (by rw [hstop]; rfl)
      rw [hsome]
      refine keeps_call ⟨h.phase, h.inFlight⟩ ?_
      intro _
      refine keeps_call ⟨rfl, h.inFlight⟩ ?_
      intro _
      refine keeps_call (o := Op.closeStop) rfl ?_
      intro _
      refine keeps_call (Or.inr (Or.inl rfl)) ?_
      intro _
      exact hf _ ⟨_, rfl⟩

/-- Every goroutine keeps to its phases. -/
theorem keeps_kvstoreRoutine (task : Task) :
    Keeps task.kvstore (kvstoreRoutine task) ⟨.waiting, none, false, false⟩ := by
  have hdone : ∀ g : Track, (∃ ending, g.phase = .released ending) →
      Keeps task.kvstore (perform Op.wgDone) g := by
    intro g hreleased
    refine ⟨hreleased, ?_⟩
    rintro _ g' rfl
    exact ⟨_, rfl⟩
  unfold kvstoreRoutine
  refine keeps_call rfl ?_
  intro taken
  cases taken with
  | false => exact hdone _ ⟨_, rfl⟩
  | true =>
    refine keeps_call (Or.inl rfl) ?_
    intro stop
    cases stop with
    | true =>
      refine keeps_call (Or.inl rfl) ?_
      intro _
      exact hdone _ ⟨_, rfl⟩
    | false =>
      rw [if_neg (by decide)]
      refine keeps_replayOnConn rfl rfl rfl ?_
      intro n err g' hfinishes
      exact keeps_bookReplay hfinishes hdone

end Keeping

section Moves

variable {P : Type} [DecidableEq P] {slots kvstore : ℕ} {p q : P} {sh sh' : Shared P} {g g' : Track}

@[simp] theorem put_taken (sh : Shared P) (p : P) (port : PortState) : (sh.put p port).taken = sh.taken :=
  rfl

@[simp] theorem put_self (sh : Shared P) (p : P) (port : PortState) : (sh.put p port).ports p = port := by
  show Function.update sh.ports p port p = port
  rw [Function.update_self]

theorem put_of_ne (sh : Shared P) (port : PortState) (h : q ≠ p) :
    (sh.put p port).ports q = sh.ports q := by
  show Function.update sh.ports p port q = sh.ports q
  rw [Function.update_of_ne h]

/-- What one operation of a goroutine does to what its port's kvstores share, and to its track. -/
inductive Moves (slots : ℕ) (p : P) (sh : Shared P) (g : Track) : Shared P → Track → Prop
  | looks {g' : Track} : g.phase = .running → g'.phase = .running → Moves slots p sh g sh g'
  | takes : g.phase = .waiting → sh.taken < slots →
      Moves slots p sh g { sh with taken := sh.taken + 1 } { g with phase := .holding }
  | leaves : g.phase = .waiting → (sh.ports p).stop = true →
      Moves slots p sh g sh { g with phase := .released .unstarted }
  | starts : g.phase = .holding → (sh.ports p).stop = false →
      Moves slots p sh g sh { g with phase := .running }
  | bars : g.phase = .holding → (sh.ports p).stop = true →
      Moves slots p sh g sh { g with phase := .barred }
  | books (n : ℕ) : g.phase = .running →
      Moves slots p sh g (sh.put p { sh.ports p with
        applied := (sh.ports p).applied + n, redo := (sh.ports p).redo || g.hole })
        { g with phase := .booked }
  | fails (err : GoError) : g.phase = .booked → err.inFlight = g.hole →
      Moves slots p sh g (sh.put p { sh.ports p with err := (sh.ports p).err.or (some err) })
        { g with phase := .failed }
  | closes : g.phase = .failed →
      Moves slots p sh g (sh.put p { sh.ports p with stop := true }) { g with phase := .closed }
  | returns : g.phase = .barred → 0 < sh.taken →
      Moves slots p sh g { sh with taken := sh.taken - 1 } { g with phase := .released .unstarted }
  | completes : g.phase = .booked → g.hole = false → 0 < sh.taken →
      Moves slots p sh g { sh with taken := sh.taken - 1 } { g with phase := .released .well }
  | gives : g.phase = .closed → 0 < sh.taken →
      Moves slots p sh g { sh with taken := sh.taken - 1 } { g with phase := .released .failed }
  | ends (ending : Ending) : g.phase = .released ending → 0 < (sh.ports p).wg →
      Moves slots p sh g (sh.put p { sh.ports p with wg := (sh.ports p).wg - 1 })
        { g with phase := .finished ending }

/-- The operations that a running replay makes leave it running. -/
theorem after_binlogPos_phase (g : Track) (reply : PosReply) :
    (after kvstore .binlogPos g reply).phase = g.phase := by
  rw [after]
  split <;> rfl

theorem after_readLine_phase (g : Track) (line : String) :
    (after kvstore .readLine g line).phase = g.phase := by
  rw [after]
  split
  · split <;> rfl
  · rfl

theorem moves_of_serve {c : Choice} {o : Op} {r : Res o} (hallowed : Allowed o g)
    (h : serve slots p c sh o = some (r, sh')) : Moves slots p sh g sh' (after kvstore o g r) := by
  cases o with
  | takeSlot =>
    unfold serve at h
    dsimp only at h
    split at h
    · split at h
      · rename_i hfree
        cases h
        exact .takes hallowed hfree
      · cases h
    · split at h
      · rename_i hstop
        cases h
        exact .leaves hallowed hstop
      · cases h
  | stopped =>
    cases h
    rcases hallowed with hphase | hphase
    · have hafter : after kvstore .stopped g (sh.ports p).stop =
          { g with phase := if (sh.ports p).stop then .barred else .running } := if_pos hphase
      rw [hafter]
      cases hstop : (sh.ports p).stop with
      | true => exact .bars hphase hstop
      | false => exact .starts hphase hstop
    · have hafter : after kvstore .stopped g (sh.ports p).stop = g := if_neg (by rw [hphase]; decide)
      rw [hafter]
      exact .looks hphase hphase
  | dial =>
    cases h
    exact .looks hallowed hallowed
  | mkdirAll =>
    cases h
    exact .looks hallowed hallowed
  | binlogPos =>
    cases h
    exact .looks hallowed ((after_binlogPos_phase g _).trans hallowed)
  | startTool file startPos endMs =>
    cases h
    exact .looks hallowed hallowed
  | readLine =>
    cases h
    exact .looks hallowed ((after_readLine_phase g _).trans hallowed)
  | finishTool =>
    cases h
    exact .looks hallowed hallowed
  | execBatch cmds =>
    cases h
    exact .looks hallowed hallowed
  | book n inFlight =>
    obtain ⟨hphase, rfl⟩ := hallowed
    cases h
    exact .books n hphase
  | addErr err =>
    cases h
    exact .fails err hallowed.1 hallowed.2
  | closeStop =>
    cases h
    exact .closes hallowed
  | releaseSlot =>
    unfold serve at h
    dsimp only at h
    split at h
    · cases h
    · rename_i hne
      cases h
      have hpos := Nat.pos_of_ne_zero hne
      rw [after]
      rcases hallowed with hphase | hphase | ⟨hphase, hhole⟩
      · rw [hphase]
        exact .returns hphase hpos
      · rw [hphase]
        exact .gives hphase hpos
      · rw [hphase]
        exact .completes hphase hhole hpos
  | wgDone =>
    obtain ⟨ending, hphase⟩ := hallowed
    unfold serve at h
    dsimp only at h
    split at h
    · cases h
    · rename_i hne
      cases h
      have hafter : after kvstore .wgDone g () = { g with phase := .finished ending } := by
        rw [after, hphase]
      rw [hafter]
      exact .ends ending hphase (Nat.pos_of_ne_zero hne)

def slotOf (g : Track) : ℕ := if g.phase.holdsSlot then 1 else 0

def live (g : Track) : ℕ := if g.phase.isOver then 0 else 1

theorem Moves.taken (h : Moves slots p sh g sh' g') :
    sh'.taken + slotOf g = sh.taken + slotOf g' := by
  cases h <;> simp_all [slotOf, Phase.holdsSlot] <;> omega

theorem Moves.bound (h : Moves slots p sh g sh' g') (hle : sh.taken ≤ slots) : sh'.taken ≤ slots := by
  cases h <;> simp_all <;> omega

theorem Moves.wg (h : Moves slots p sh g sh' g') :
    (sh'.ports p).wg + live g = (sh.ports p).wg + live g' := by
  cases h <;> simp_all [live, Phase.isOver]
  omega

theorem Moves.others (h : Moves slots p sh g sh' g') (hq : q ≠ p) : sh'.ports q = sh.ports q := by
  cases h <;> simp_all [put_of_ne]

theorem Moves.isOver (h : Moves slots p sh g sh' g') : g.phase.isOver = false := by
  cases h <;> simp_all [Phase.isOver]

section Marks

/-- What a goroutine has done it stays to have done. -/
theorem Moves.hasClosed (h : Moves slots p sh g sh' g') (hg : g.phase.hasClosed = true) :
    g'.phase.hasClosed = true := by
  cases h <;> simp_all [Phase.hasClosed, Phase.hasFailed]

theorem Moves.hasFailed (h : Moves slots p sh g sh' g') (hg : g.phase.hasFailed = true) :
    g'.phase.hasFailed = true := by
  cases h <;> simp_all [Phase.hasFailed]

theorem Moves.hasBooked (h : Moves slots p sh g sh' g') (hg : g.phase.hasBooked = true) :
    g'.phase.hasBooked = true ∧ g'.hole = g.hole := by
  cases h <;> simp_all [Phase.hasBooked, Phase.hasFailed]

theorem Moves.stop (h : Moves slots p sh g sh' g')
    (hclosed : g.phase.hasClosed = true → (sh.ports p).stop = true) :
    (sh'.ports p).stop = true ↔ (sh.ports p).stop = true ∨ g'.phase.hasClosed = true := by
  cases h <;> simp_all [Phase.hasClosed, Phase.hasFailed]

theorem Moves.err (h : Moves slots p sh g sh' g')
    (hfailed : g.phase.hasFailed = true → (sh.ports p).err.isSome = true) :
    (sh'.ports p).err.isSome = true ↔
      (sh.ports p).err.isSome = true ∨ g'.phase.hasFailed = true := by
  cases h <;> simp_all [Phase.hasFailed]

theorem Moves.redo (h : Moves slots p sh g sh' g')
    (hbooked : g.phase.hasBooked = true ∧ g.hole = true → (sh.ports p).redo = true) :
    (sh'.ports p).redo = true ↔
      (sh.ports p).redo = true ∨ g'.phase.hasBooked = true ∧ g'.hole = true := by
  cases h <;> simp_all [Phase.hasBooked, Phase.hasFailed]

/-- The error that is collected is not in flight unless the port is to be redone. -/
theorem Moves.inFlight (h : Moves slots p sh g sh' g')
    (hbooked : g.phase.hasBooked = true ∧ g.hole = true → (sh.ports p).redo = true)
    (hflight : failedInFlight (sh.ports p).err = true → (sh.ports p).redo = true)
    (herr : failedInFlight (sh'.ports p).err = true) : (sh'.ports p).redo = true := by
  cases h with
  | books n hphase =>
    rw [put_self] at herr ⊢
    exact Bool.or_eq_true_iff.mpr (Or.inl (hflight herr))
  | fails err hphase hsame =>
    rw [put_self] at herr ⊢
    cases hfirst : (sh.ports p).err with
    | some first =>
      rw [hfirst] at herr hflight
      exact hflight herr
    | none =>
      rw [hfirst] at herr
      have hhole : g.hole = true := hsame.symm.trans herr
      exact hbooked ⟨by rw [hphase]; rfl, hhole⟩
  | closes hphase =>
    rw [put_self] at herr ⊢
    exact hflight herr
  | ends ending hphase hpos =>
    rw [put_self] at herr ⊢
    exact hflight herr
  | looks _ _ => exact hflight herr
  | takes _ _ => exact hflight herr
  | leaves _ _ => exact hflight herr
  | starts _ _ => exact hflight herr
  | bars _ _ => exact hflight herr
  | returns _ _ => exact hflight herr
  | completes _ _ _ => exact hflight herr
  | gives _ _ => exact hflight herr

/-- Whoever leaves a hole fails. -/
def Holed (g : Track) : Prop :=
  g.hole = true → g.phase = .running ∨ g.phase = .booked ∨ g.phase.hasFailed = true

theorem Moves.holed (h : Moves slots p sh g sh' g') (hg : Holed g) : Holed g' := by
  unfold Holed at hg ⊢
  cases h <;> simp_all [Phase.hasFailed]

/-- Nobody is turned away from a port that is not stopped. -/
theorem Moves.turnedAway (h : Moves slots p sh g sh' g')
    (hg : g.phase.turnedAway = true → (sh.ports p).stop = true)
    (hg' : g'.phase.turnedAway = true) : (sh'.ports p).stop = true := by
  cases h <;> simp_all [Phase.turnedAway]

theorem Moves.starting (h : Moves slots p sh g sh' g') (hstop : (sh.ports p).stop = true)
    (hg : g.phase.started = false) : g'.phase.started = false := by
  cases h <;> simp_all [Phase.started]

end Marks

end Moves

section Run

variable {P I : Type} [DecidableEq P] [DecidableEq I] [Fintype I] {plan : Plan P I} {slots : ℕ}
  {s t : Replays P I} {i j : I} {p : P}

/-- What holds however the goroutines take turns. -/
structure Sound (plan : Plan P I) (slots : ℕ) (s : Replays P I) : Prop where
  keeps : ∀ i, Keeps (plan.task i).kvstore (s.prog i) (s.track i)
  taken : s.shared.taken = ∑ i, slotOf (s.track i)
  bound : s.shared.taken ≤ slots
  wg : ∀ p, (s.shared.ports p).wg = ∑ i, if plan.port i = p then live (s.track i) else 0
  stop : ∀ p, (s.shared.ports p).stop = true ↔
    ∃ i, plan.port i = p ∧ (s.track i).phase.hasClosed = true
  err : ∀ p, (s.shared.ports p).err.isSome = true ↔
    ∃ i, plan.port i = p ∧ (s.track i).phase.hasFailed = true
  redo : ∀ p, (s.shared.ports p).redo = true ↔
    ∃ i, plan.port i = p ∧ (s.track i).phase.hasBooked = true ∧ (s.track i).hole = true
  inFlight : ∀ p, failedInFlight (s.shared.ports p).err = true → (s.shared.ports p).redo = true
  holed : ∀ i, Holed (s.track i)
  turnedAway : ∀ i, (s.track i).phase.turnedAway = true → (s.shared.ports (plan.port i)).stop = true
  returned : ∀ p r, s.returned p = some r →
    (s.shared.ports p).wg = 0 ∧ r = ((s.shared.ports p).applied, (s.shared.ports p).result)
  restored : ∀ p, s.restored p = (s.returned p).all fun r => !failedInFlight r.2

omit [DecidableEq I] in
theorem sound_opened (plan : Plan P I) (slots : ℕ) : Sound plan slots (opened plan) where
  keeps i := keeps_kvstoreRoutine (plan.task i)
  taken := by simp [opened, slotOf, Phase.holdsSlot]
  bound := Nat.zero_le slots
  wg p := rfl
  stop p := by simp [opened, Phase.hasClosed, Phase.hasFailed]
  err p := by simp [opened, Phase.hasFailed]
  redo p := by simp [opened]
  inFlight p h := by cases h
  holed i h := by cases h
  turnedAway i h := by cases h
  returned p r h := by cases h
  restored p := rfl

omit [DecidableEq I] in
/-- A goroutine that is not over is counted. -/
theorem Sound.wg_pos (h : Sound plan slots s) (hi : (s.track i).phase.isOver = false) :
    0 < (s.shared.ports (plan.port i)).wg := by
  have hlive : live (s.track i) = 1 := by rw [live, hi]; rfl
  have hle := Finset.single_le_sum (fun j _ => Nat.zero_le
    (if plan.port j = plan.port i then live (s.track j) else 0)) (Finset.mem_univ i)
  rw [← h.wg, if_pos rfl, hlive] at hle
  omega

/-- What a goroutine of its port does, the invariant follows. -/
theorem sound_turn (h : Sound plan slots s) {shared : Shared P} {g : Track}
    (hmoves : Moves slots (plan.port i) s.shared (s.track i) shared g)
    (hshared : t.shared = shared) (htrack : t.track = Function.update s.track i g)
    (hkeeps : ∀ j, Keeps (plan.task j).kvstore (t.prog j) (t.track j))
    (hreturned : t.returned = s.returned) (hrestored : t.restored = s.restored) :
    Sound plan slots t := by
  subst hshared
  have hsame : ∀ p, p ≠ plan.port i → t.shared.ports p = s.shared.ports p := fun p hp => hmoves.others hp
  -- a mark that is kept, of the kvstores of a port
  have hmark : ∀ (Q : Track → Prop), (Q (s.track i) → Q g) → ∀ p,
      (∃ j, plan.port j = p ∧ Q (t.track j)) ↔
        (∃ j, plan.port j = p ∧ Q (s.track j)) ∨ plan.port i = p ∧ Q g := by
    intro Q hQ p
    rw [htrack]
    exact Family.exists_update (P := fun j x => plan.port j = p ∧ Q x) fun hi => ⟨hi.1, hQ hi.2⟩
  have hport : ∀ (Q : Track → Prop) (b : PortState → Bool), (Q (s.track i) → Q g) →
      (∀ p, b (s.shared.ports p) = true ↔ ∃ j, plan.port j = p ∧ Q (s.track j)) →
      (b (t.shared.ports (plan.port i)) = true ↔ b (s.shared.ports (plan.port i)) = true ∨ Q g) →
      ∀ p, b (t.shared.ports p) = true ↔ ∃ j, plan.port j = p ∧ Q (t.track j) := by
    intro Q b hQ hold hnew p
    rw [hmark Q hQ p, ← hold p]
    by_cases hp : p = plan.port i
    · subst hp
      rw [hnew]
      exact or_congr_right ⟨fun hg => ⟨rfl, hg⟩, fun hg => hg.2⟩
    · rw [hsame p hp]
      exact ⟨Or.inl, fun hor => hor.resolve_right fun hi => hp hi.1.symm⟩
  have hbooked : (s.track i).phase.hasBooked = true ∧ (s.track i).hole = true →
      (s.shared.ports (plan.port i)).redo = true := fun hi => (h.redo _).mpr ⟨i, rfl, hi⟩
  refine ⟨hkeeps, ?_, ?_, ?_, ?_, ?_, ?_, ?_, ?_, ?_, ?_, ?_⟩
  · have hsum := Family.sum_update (fun _ x => slotOf x) s.track i g
    have htaken := hmoves.taken
    rw [htrack]
    have hold := h.taken
    omega
  · exact hmoves.bound h.bound
  · intro p
    have hsum := Family.sum_update (fun j x => if plan.port j = p then live x else 0) s.track i g
    have hold := h.wg p
    rw [htrack]
    by_cases hp : p = plan.port i
    · have hwg := hmoves.wg
      rw [← hp] at hwg
      rw [if_pos hp.symm, if_pos hp.symm] at hsum
      omega
    · rw [if_neg (Ne.symm hp), if_neg (Ne.symm hp)] at hsum
      rw [hsame p hp]
      omega
  · exact hport (fun x => x.phase.hasClosed = true) PortState.stop hmoves.hasClosed h.stop
      (hmoves.stop fun hi => (h.stop _).mpr ⟨i, rfl, hi⟩)
  · exact hport (fun x => x.phase.hasFailed = true) (fun port => port.err.isSome) hmoves.hasFailed
      h.err (hmoves.err fun hi => (h.err _).mpr ⟨i, rfl, hi⟩)
  · refine hport (fun x => x.phase.hasBooked = true ∧ x.hole = true) PortState.redo ?_ h.redo
      (hmoves.redo hbooked)
    rintro ⟨hi, hhole⟩
    obtain ⟨hi', hhole'⟩ := hmoves.hasBooked hi
    exact ⟨hi', hhole'.trans hhole⟩
  · intro p
    by_cases hp : p = plan.port i
    · subst hp
      exact hmoves.inFlight hbooked (h.inFlight _)
    · rw [hsame p hp]
      exact h.inFlight p
  · intro j
    rw [htrack]
    by_cases hj : j = i
    · subst hj
      rw [Function.update_self]
      exact hmoves.holed (h.holed j)
    · rw [Function.update_of_ne hj]
      exact h.holed j
  · intro j
    rw [htrack]
    by_cases hj : j = i
    · subst hj
      rw [Function.update_self]
      exact hmoves.turnedAway (h.turnedAway j)
    · rw [Function.update_of_ne hj]
      intro haway
      have hstop := h.turnedAway j haway
      by_cases hp : plan.port j = plan.port i
      · rw [hp] at hstop ⊢
        refine (hmoves.stop fun hi => (h.stop _).mpr ⟨i, rfl, hi⟩).mpr (Or.inl hstop)
      · rw [hsame _ hp]
        exact hstop
  · intro p r hr
    rw [hreturned] at hr
    obtain ⟨hwg, hresult⟩ := h.returned p r hr
    have hp : p ≠ plan.port i := by
      rintro rfl
      have hpos := h.wg_pos hmoves.isOver
      omega
    rw [hsame p hp]
    exact ⟨hwg, hresult⟩
  · rw [hreturned, hrestored]
    exact h.restored

/-- What an event does, to a sound state. -/
theorem next_cases {e : Event P I} (h : Sound plan slots s) (hnext : next plan slots s e = some t) :
    (∃ i c o k r shared, e = .turn i c ∧ s.prog i = .call o k ∧
      Moves slots (plan.port i) s.shared (s.track i) shared (after (plan.task i).kvstore o (s.track i) r) ∧
      t = { s with
        shared
        prog := Function.update s.prog i (k r)
        track := Function.update s.track i (after (plan.task i).kvstore o (s.track i) r) }) ∨
    ∃ p, e = .join p ∧ s.returned p = none ∧ (s.shared.ports p).wg = 0 ∧
      t = { s with
        returned := Function.update s.returned p
          (some ((s.shared.ports p).applied, (s.shared.ports p).result))
        restored := Function.update s.restored p (!failedInFlight (s.shared.ports p).result) } := by
  cases e with
  | turn i c =>
    unfold next at hnext
    dsimp only at hnext
    cases hprog : s.prog i with
    | done a =>
      rw [hprog] at hnext
      cases hnext
    | call o k =>
      rw [hprog] at hnext
      obtain ⟨⟨r, shared⟩, hserve, rfl⟩ := Option.map_eq_some_iff.mp hnext
      have hkeeps := h.keeps i
      rw [hprog] at hkeeps
      exact Or.inl ⟨i, c, o, k, r, shared, rfl, hprog, moves_of_serve hkeeps.1 hserve, rfl⟩
  | join p =>
    unfold next at hnext
    dsimp only at hnext
    split at hnext
    · rename_i hready
      exact Or.inr ⟨p, rfl, hready.1, hready.2, (Option.some.inj hnext).symm⟩
    · cases hnext

theorem sound_next {e : Event P I} (h : Sound plan slots s) (hnext : next plan slots s e = some t) :
    Sound plan slots t := by
  rcases next_cases h hnext with ⟨i, c, o, k, r, shared, -, hprog, hmoves, rfl⟩ |
    ⟨p, -, -, hwg, rfl⟩
  · refine sound_turn h hmoves rfl rfl ?_ rfl rfl
    intro j
    by_cases hj : j = i
    · subst hj
      have hkeeps := h.keeps j
      rw [hprog] at hkeeps
      dsimp only
      rw [Function.update_self, Function.update_self]
      exact hkeeps.2 r _ rfl
    · dsimp only
      rw [Function.update_of_ne hj, Function.update_of_ne hj]
      exact h.keeps j
  · refine ⟨h.keeps, h.taken, h.bound, h.wg, h.stop, h.err, h.redo, h.inFlight, h.holed, h.turnedAway,
      ?_, ?_⟩
    · intro q r hr
      dsimp only at hr
      by_cases hq : q = p
      · subst hq
        rw [Function.update_self] at hr
        exact ⟨hwg, (Option.some.inj hr).symm⟩
      · rw [Function.update_of_ne hq] at hr
        exact h.returned q r hr
    · intro q
      dsimp only
      by_cases hq : q = p
      · subst hq
        rw [Function.update_self, Function.update_self]
        rfl
      · rw [Function.update_of_ne hq, Function.update_of_ne hq]
        exact h.restored q

theorem sound_of_run {es : List (Event P I)} (h : Sound plan slots s)
    (hrun : Run (Steps (next plan slots)) s es t) : Sound plan slots t :=
  hrun.invariant (Sound plan slots) h sound_next

/-- A kvstore that has not started when its port is stopped never starts. -/
theorem unstarted_of_run {es : List (Event P I)} (h : Sound plan slots s)
    (hrun : Run (Steps (next plan slots)) s es t)
    (hstop : (s.shared.ports (plan.port i)).stop = true) (hi : (s.track i).phase.started = false) :
    (t.track i).phase.started = false := by
  refine (hrun.invariant (fun u => Sound plan slots u ∧ (u.shared.ports (plan.port i)).stop = true ∧
    (u.track i).phase.started = false) ⟨h, hstop, hi⟩ ?_).2.2
  rintro u e v ⟨hu, hstop, hi⟩ hnext
  refine ⟨sound_next hu hnext, ?_⟩
  rcases next_cases hu hnext with ⟨j, c, o, k, r, shared, -, hprog, hmoves, rfl⟩ | ⟨p, -, -, hwg, rfl⟩
  · dsimp only
    constructor
    · by_cases hp : plan.port i = plan.port j
      · rw [hp] at hstop ⊢
        exact (hmoves.stop fun hj => (hu.stop _).mpr ⟨j, rfl, hj⟩).mpr (Or.inl hstop)
      · rw [hmoves.others hp]
        exact hstop
    · by_cases hj : i = j
      · subst hj
        rw [Function.update_self]
        exact hmoves.starting hstop hi
      · rw [Function.update_of_ne hj]
        exact hi
  · exact ⟨hstop, hi⟩

section Ends

omit [DecidableEq I] in
theorem Sound.over_of_done (h : Sound plan slots s) {u : Unit} (hi : s.prog i = .done u) :
    ∃ ending, (s.track i).phase = .finished ending := by
  have hkeeps := h.keeps i
  rw [hi] at hkeeps
  exact hkeeps

omit [DecidableEq I] in
theorem Sound.done_of_over (h : Sound plan slots s) (hi : (s.track i).phase.isOver = true) :
    ∃ u, s.prog i = .done u := by
  have hkeeps := h.keeps i
  cases hprog : s.prog i with
  | done u => exact ⟨u, rfl⟩
  | call o k =>
    rw [hprog] at hkeeps
    have hnot := hkeeps.1.isOver
    rw [hi] at hnot
    cases hnot

omit [DecidableEq I] in
/-- A replay that has returned has waited for every kvstore of its port. -/
theorem Sound.over_of_returned (h : Sound plan slots s) {r : ℕ × Option GoError}
    (hr : s.returned (plan.port i) = some r) : (s.track i).phase.isOver = true := by
  by_contra hi
  have hpos := h.wg_pos (Bool.eq_false_iff.mpr hi)
  have hzero := (h.returned _ r hr).1
  omega

end Ends

section Progress

/-- Every kvstore has ended and every replay has returned. -/
def Over (s : Replays P I) : Prop := (∀ i, ∃ u, s.prog i = .done u) ∧ ∀ p, s.returned p ≠ none

def someChoice : Choice := ⟨true, none, .int 0, 0, "", []⟩

omit [DecidableEq I] in
/-- Only for a slot does a goroutine have to wait. -/
theorem Sound.serve_ne_none (h : Sound plan slots s) {o : Op} {k : Res o → Act Unit}
    (hprog : s.prog i = .call o k) (hslot : (s.track i).phase ≠ .waiting) :
    serve slots (plan.port i) someChoice s.shared o ≠ none := by
  have hkeeps := h.keeps i
  rw [hprog] at hkeeps
  have hallowed := hkeeps.1
  cases o with
  | takeSlot => exact absurd hallowed hslot
  | releaseSlot =>
    have hheld : slotOf (s.track i) = 1 := by
      rcases hallowed with hphase | hphase | ⟨hphase, -⟩ <;> rw [slotOf, hphase] <;> rfl
    have hle := Finset.single_le_sum (fun j _ => Nat.zero_le (slotOf (s.track j))) (Finset.mem_univ i)
    rw [← h.taken, hheld] at hle
    unfold serve
    dsimp only
    rw [if_neg (by omega)]
    exact Option.some_ne_none _
  | wgDone =>
    have hpos := h.wg_pos hallowed.isOver
    unfold serve
    dsimp only
    rw [if_neg (by omega)]
    exact Option.some_ne_none _
  | _ => exact Option.some_ne_none _

omit [Fintype I] in
theorem exists_turn {o : Op} {k : Res o → Act Unit} (hprog : s.prog i = .call o k)
    (hserve : serve slots (plan.port i) someChoice s.shared o ≠ none) :
    ∃ e t, next plan slots s e = some t := by
  cases hnext : next plan slots s (.turn i someChoice) with
  | some t => exact ⟨_, t, hnext⟩
  | none =>
    unfold next at hnext
    dsimp only at hnext
    rw [hprog] at hnext
    exact absurd (Option.map_eq_none_iff.mp hnext) hserve

/-- While not all is over, something can be done. -/
theorem exists_next (hslots : 0 < slots) (h : Sound plan slots s) (hnot : ¬ Over s) :
    ∃ e t, next plan slots s e = some t := by
  -- a goroutine past the slot can go on
  have hgo : ∀ i, (s.track i).phase ≠ .waiting → (s.track i).phase.isOver = false →
      ∃ e t, next plan slots s e = some t := by
    intro i hslot hlive
    cases hprog : s.prog i with
    | done u =>
      obtain ⟨ending, hover⟩ := h.over_of_done hprog
      rw [hover] at hlive
      cases hlive
    | call o k => exact exists_turn hprog (h.serve_ne_none hprog hslot)
  by_cases hwaiting : ∃ i, (s.track i).phase = .waiting
  · obtain ⟨i, hi⟩ := hwaiting
    by_cases hfree : s.shared.taken < slots
    · cases hprog : s.prog i with
      | done u =>
        obtain ⟨ending, hover⟩ := h.over_of_done hprog
        cases hi.symm.trans hover
      | call o k =>
        have hkeeps := h.keeps i
        rw [hprog] at hkeeps
        have hallowed := hkeeps.1
        refine exists_turn hprog ?_
        cases o <;> simp_all [Allowed, serve, someChoice]
    · -- all slots are taken, so somebody holds one
      have hheld : ∃ j, slotOf (s.track j) ≠ 0 := by
        by_contra hnone
        have hzero : ∀ j ∈ Finset.univ, slotOf (s.track j) = 0 := by
          intro j _
          by_contra hj
          exact hnone ⟨j, hj⟩
        have hsum := h.taken
        rw [Finset.sum_eq_zero hzero] at hsum
        omega
      obtain ⟨j, hj⟩ := hheld
      have hholds : (s.track j).phase.holdsSlot = true := by
        by_contra hno
        rw [slotOf, if_neg hno] at hj
        exact hj rfl
      refine hgo j ?_ ?_
      · intro hphase
        rw [hphase] at hholds
        cases hholds
      · cases hphase : (s.track j).phase <;> simp_all [Phase.holdsSlot, Phase.isOver]
  · by_cases hlive : ∃ i, (s.track i).phase.isOver = false
    · obtain ⟨i, hi⟩ := hlive
      exact hgo i (fun hphase => hwaiting ⟨i, hphase⟩) hi
    · have hover : ∀ i, (s.track i).phase.isOver = true := fun i =>
        Bool.eq_true_of_not_eq_false fun hi => hlive ⟨i, hi⟩
      have hopen : ∃ p, s.returned p = none := by
        by_contra hno
        refine hnot ⟨fun i => h.done_of_over (hover i), fun p hp => hno ⟨p, hp⟩⟩
      obtain ⟨p, hp⟩ := hopen
      have hwg : (s.shared.ports p).wg = 0 := by
        rw [h.wg p]
        refine Finset.sum_eq_zero ?_
        intro i _
        split
        · rw [live, hover i]
          rfl
        · rfl
      cases hnext : next plan slots s (.join p) with
      | some t => exact ⟨_, t, hnext⟩
      | none =>
        unfold next at hnext
        dsimp only at hnext
        rw [if_pos ⟨hp, hwg⟩] at hnext
        cases hnext

/-- The replays that have not returned. -/
def unreturned [Fintype P] (s : Replays P I) : ℕ := ∑ p, if s.returned p = none then 1 else 0

/-- The replays do not go on for ever. -/
theorem next_wf [Fintype P] (plan : Plan P I) (slots : ℕ) :
    WellFounded fun t s : Replays P I => ∃ e, next plan slots s e = some t := by
  refine Subrelation.wf ?_ (InvImage.wf (fun s : Replays P I => (unreturned s, s.prog))
    (WellFounded.prod_lex Nat.lt_wfRel.wf (Family.descends_wf Prog.goes_wf)))
  rintro t s ⟨e, hnext⟩
  cases e with
  | turn i c =>
    unfold next at hnext
    dsimp only at hnext
    cases hprog : s.prog i with
    | done a =>
      rw [hprog] at hnext
      cases hnext
    | call o k =>
      rw [hprog] at hnext
      obtain ⟨⟨r, shared⟩, -, rfl⟩ := Option.map_eq_some_iff.mp hnext
      refine Prod.Lex.right _ ⟨i, ⟨o, k, r, hprog, Function.update_self _ _ _⟩, ?_⟩
      intro j hj
      exact Function.update_of_ne hj _ _
  | join p =>
    unfold next at hnext
    dsimp only at hnext
    split at hnext
    · rename_i hready
      obtain rfl := Option.some.inj hnext
      refine Prod.Lex.left _ _ ?_
      have hsum := Family.sum_update
        (fun _ (r : Option (ℕ × Option GoError)) => if r = none then 1 else 0) s.returned p
        (some ((s.shared.ports p).applied, (s.shared.ports p).result))
      rw [if_pos hready.1, if_neg (Option.some_ne_none _)] at hsum
      exact Nat.lt_of_succ_le (Nat.le_of_eq hsum)
    · cases hnext

end Progress

section Outcome

/-- What the kvstores of the ports have come to. -/
structure PortsApart (plan : Plan P I) (slots : ℕ) (s : Replays P I) : Prop where
  bound : s.shared.taken ≤ slots
  taken : s.shared.taken = ∑ i, slotOf (s.track i)
  given : ∀ i u, s.prog i = .done u → slotOf (s.track i) = 0
  stopped : ∀ p, (s.shared.ports p).stop = true → ∃ i, plan.port i = p ∧ (s.track i).phase.hasFailed = true
  closed : ∀ i, (s.track i).phase.hasFailed = true → slotOf (s.track i) = 0 →
    (s.shared.ports (plan.port i)).stop = true
  ran : ∀ i u, s.prog i = .done u → (s.track i).phase = .finished .well ∨
    ∃ j, plan.port j = plan.port i ∧ (s.track j).phase.hasFailed = true
  waited : ∀ i, s.returned (plan.port i) ≠ none → ∃ u, s.prog i = .done u
  failed : ∀ p r, s.returned p = some r →
    (r.2.isSome = true ↔ ∃ i, plan.port i = p ∧ (s.track i).phase.hasFailed = true)
  inFlight : ∀ p r, s.returned p = some r → (failedInFlight r.2 = true ↔
    ∃ i, plan.port i = p ∧ (s.track i).phase.hasFailed = true ∧ (s.track i).hole = true)
  restored : ∀ p, s.restored p = false ↔ ∃ r, s.returned p = some r ∧ failedInFlight r.2 = true

theorem result_isSome (port : PortState) : port.result.isSome = port.err.isSome := by
  unfold PortState.result
  split
  · exact Option.isSome_map
  · rfl

/-- One error in flight is enough, whichever was collected first. -/
theorem failedInFlight_result {port : PortState} (hflight : failedInFlight port.err = true → port.redo = true)
    (herr : port.redo = true → port.err.isSome = true) :
    failedInFlight port.result = port.redo := by
  unfold PortState.result
  split
  · rename_i hredo
    obtain ⟨err, hsome⟩ := Option.isSome_iff_exists.mp (herr hredo.1)
    rw [hsome, hredo.1]
    rfl
  · rename_i hno
    cases hredo : port.redo with
    | true => exact Bool.eq_true_of_not_eq_false fun hplain => hno ⟨hredo, hplain⟩
    | false =>
      refine Bool.eq_false_iff.mpr fun hplain => ?_
      cases hredo.symm.trans (hflight hplain)

omit [DecidableEq I] in
theorem Sound.portsApart (h : Sound plan slots s) : PortsApart plan slots s := by
  have hfailed : ∀ i, (s.track i).phase.hasClosed = true → (s.track i).phase.hasFailed = true := by
    intro i hclosed
    cases hphase : (s.track i).phase <;> simp_all [Phase.hasClosed]
  have hstopped : ∀ p, (s.shared.ports p).stop = true →
      ∃ i, plan.port i = p ∧ (s.track i).phase.hasFailed = true := by
    intro p hstop
    obtain ⟨i, hi, hclosed⟩ := (h.stop p).mp hstop
    exact ⟨i, hi, hfailed i hclosed⟩
  -- where a replay has returned, whoever left a hole has failed and is booked
  have hredo : ∀ p r, s.returned p = some r → ((s.shared.ports p).redo = true ↔
      ∃ i, plan.port i = p ∧ (s.track i).phase.hasFailed = true ∧ (s.track i).hole = true) := by
    intro p r hr
    rw [h.redo p]
    constructor
    · rintro ⟨i, rfl, -, hhole⟩
      have hover := h.over_of_returned hr
      refine ⟨i, rfl, ?_, hhole⟩
      rcases h.holed i hhole with hphase | hphase | hphase
      · rw [hphase] at hover
        cases hover
      · rw [hphase] at hover
        cases hover
      · exact hphase
    · rintro ⟨i, rfl, hfail, hhole⟩
      have hover := h.over_of_returned hr
      refine ⟨i, rfl, ?_, hhole⟩
      cases hphase : (s.track i).phase <;>
        simp_all [Phase.isOver, Phase.hasFailed, Phase.hasBooked]
  have hresult : ∀ p r, s.returned p = some r → failedInFlight r.2 = (s.shared.ports p).redo := by
    intro p r hr
    obtain ⟨-, rfl⟩ := h.returned p r hr
    refine failedInFlight_result (h.inFlight p) ?_
    intro hagain
    obtain ⟨i, hi, hfail, -⟩ := (hredo p _ hr).mp hagain
    exact (h.err p).mpr ⟨i, hi, hfail⟩
  refine ⟨h.bound, h.taken, ?_, hstopped, ?_, ?_, ?_, ?_, ?_, ?_⟩
  · intro i u hi
    obtain ⟨ending, hover⟩ := h.over_of_done hi
    rw [slotOf, hover]
    rfl
  · intro i hfail hslot
    refine (h.stop _).mpr ⟨i, rfl, ?_⟩
    cases hphase : (s.track i).phase <;>
      simp_all [slotOf, Phase.hasFailed, Phase.hasClosed, Phase.holdsSlot]
  · intro i u hi
    obtain ⟨ending, hover⟩ := h.over_of_done hi
    cases ending with
    | well => exact Or.inl hover
    | failed => exact Or.inr ⟨i, rfl, by rw [hover]; rfl⟩
    | unstarted => exact Or.inr (hstopped _ (h.turnedAway i (by rw [hover]; rfl)))
  · intro i hreturned
    obtain ⟨r, hr⟩ := Option.ne_none_iff_exists'.mp hreturned
    exact h.done_of_over (h.over_of_returned hr)
  · intro p r hr
    obtain ⟨-, rfl⟩ := h.returned p r hr
    rw [result_isSome]
    exact h.err p
  · intro p r hr
    rw [hresult p r hr]
    exact hredo p r hr
  · intro p
    rw [h.restored p]
    cases s.returned p with
    | none => simp
    | some r => simp

/-- A failed kvstore stops its port and no other, and the port is redone if a hole may be left. -/
theorem port_fails_alone [Fintype P] (limits : Limits) (plan : Plan P I) {es : List (Event P I)}
    (hrun : Run (Steps (next plan (limits.kvstoreReplay (Fintype.card I)).toNat)) (opened plan) es s) :
    PortsApart plan (limits.kvstoreReplay (Fintype.card I)).toNat s ∧
    (∀ {fs t i}, Run (Steps (next plan (limits.kvstoreReplay (Fintype.card I)).toNat)) s fs t →
      (s.shared.ports (plan.port i)).stop = true → (s.track i).phase.started = false →
      (t.track i).phase.started = false) ∧
    (Over s ∨ ∃ e t, next plan (limits.kvstoreReplay (Fintype.card I)).toNat s e = some t) ∧
    ∀ f : ℕ → Replays P I, ¬ ∀ n, ∃ e,
      next plan (limits.kvstoreReplay (Fintype.card I)).toNat (f n) e = some (f (n + 1)) := by
  have h := sound_of_run (sound_opened plan (limits.kvstoreReplay (Fintype.card I)).toNat) hrun
  refine ⟨h.portsApart, ?_, ?_, ?_⟩
  · intro fs t i hfurther hstop hi
    exact unstarted_of_run h hfurther hstop hi
  · by_cases hover : Over s
    · exact Or.inl hover
    · have hpos := limits.kvstoreReplay_pos (Fintype.card I)
      exact Or.inr (exists_next (by omega) h hover)
  · intro f hf
    have hwf : IsWellFounded (Replays P I) fun t s =>
        ∃ e, next plan (limits.kvstoreReplay (Fintype.card I)).toNat s e = some t := ⟨next_wf plan _⟩
    obtain ⟨n, hn⟩ := WellFounded.not_rel_apply_succ (r := fun t s : Replays P I =>
        ∃ e, next plan (limits.kvstoreReplay (Fintype.card I)).toNat s e = some t) f
    exact hn (hf n)

end Outcome

end Run

section Runs

def smallHost : Limits := ⟨2, 0⟩

/-- One port of one kvstore, with two binlogs. -/
def oneKvstore : Plan Unit Unit := ⟨fun _ => (), fun _ => ⟨"127.0.0.1:30000", 0, ["a.log", "b.log"], 0⟩⟩

/-- One port of two kvstores. -/
def twoKvstores : Plan Unit Bool :=
  ⟨fun _ => (), fun i => ⟨"127.0.0.1:30000", if i then 1 else 0, ["a.log"], 0⟩⟩

/-- A tool that prints the binlog of this id, for a kvstore that holds those up to the position. -/
def printing (pos : ℤ) : Choice :=
  ⟨true, none, .int pos, 1, "restorebinlogv2 0 AAAAAAAAAAAAAAAAAAAAAGU= dg==", [.done]⟩

def printingNone : Choice := ⟨true, none, .int 101, 0, "", []⟩

def refusing : Choice := ⟨true, some "binlog_tool failed", .int 0, 0, "", []⟩

def turns {P I : Type} (i : I) (n : ℕ) (c : Choice) : List (Event P I) := List.replicate n (.turn i c)

/-- The first binlog goes in, the second cannot be read. -/
def betweenBatches : List (Event Unit Unit) :=
  turns () 12 (printing 100) ++ turns () 2 printingNone ++ turns () 6 refusing ++ [.join ()]

/-- The tool starts with a binlog that the kvstore holds already. -/
def beforeTheStart : List (Event Unit Unit) :=
  turns () 8 (printing 101) ++ turns () 5 refusing ++ [.join ()]

/-- The connection of the one kvstore is refused, and the error collected. -/
def refused : List (Event Unit Bool) := turns false 5 refusing

def Resumable (s : Replays Unit Unit) : Bool :=
  (s.returned ()).any fun r => r.2.isSome && !failedInFlight r.2

def Redone (s : Replays Unit Unit) : Bool := (s.returned ()).any fun r => failedInFlight r.2

/-- A port whose kvstore failed after a batch can be resumed. -/
theorem port_fails_alone_resumable :
    ∃ s, Run (Steps (next oneKvstore (smallHost.kvstoreReplay (Fintype.card Unit)).toNat))
        (opened oneKvstore) betweenBatches s ∧ Resumable s = true ∧
      PortsApart oneKvstore (smallHost.kvstoreReplay (Fintype.card Unit)).toNat s := by
  obtain ⟨s, hrun, hs⟩ := exists_run_of_exec
    (next oneKvstore (smallHost.kvstoreReplay (Fintype.card Unit)).toNat) (opened oneKvstore)
    betweenBatches Resumable (by decide +kernel)
  exact ⟨s, hrun, hs, (port_fails_alone smallHost oneKvstore hrun).1⟩

/-- A kvstore that has sent a batch fails and its port's error is not in flight; one that has sent
nothing fails and the error is; and a kvstore starts between the failure of another and the stop. -/
theorem failures_between_batches_and_late_starts :
    (∃ s, Run (Steps (next oneKvstore (smallHost.kvstoreReplay (Fintype.card Unit)).toNat))
        (opened oneKvstore) betweenBatches s ∧
      ((s.track ()).phase.hasFailed = true ∧ (s.track ()).sent = true ∧ Resumable s = true)) ∧
    (∃ s, Run (Steps (next oneKvstore (smallHost.kvstoreReplay (Fintype.card Unit)).toNat))
        (opened oneKvstore) beforeTheStart s ∧
      ((s.track ()).sent = false ∧ Redone s = true)) ∧
    ∃ s t, Run (Steps (next twoKvstores (smallHost.kvstoreReplay (Fintype.card Bool)).toNat))
        (opened twoKvstores) refused s ∧
      Run (Steps (next twoKvstores (smallHost.kvstoreReplay (Fintype.card Bool)).toNat)) s
        (turns true 2 refusing) t ∧
      ((s.track false).phase.hasFailed = true ∧ (s.track true).phase.started = false) ∧
      (t.track true).phase.started = true := by
  refine ⟨?_, ?_, ?_⟩
  · obtain ⟨s, hrun, hs⟩ := exists_run_of_exec
      (next oneKvstore (smallHost.kvstoreReplay (Fintype.card Unit)).toNat) (opened oneKvstore)
      betweenBatches (fun s => decide ((s.track ()).phase.hasFailed = true ∧ (s.track ()).sent = true ∧
        Resumable s = true)) (by decide +kernel)
    exact ⟨s, hrun, of_decide_eq_true hs⟩
  · obtain ⟨s, hrun, hs⟩ := exists_run_of_exec
      (next oneKvstore (smallHost.kvstoreReplay (Fintype.card Unit)).toNat) (opened oneKvstore)
      beforeTheStart (fun s => decide ((s.track ()).sent = false ∧ Redone s = true)) (by decide +kernel)
    exact ⟨s, hrun, of_decide_eq_true hs⟩
  · obtain ⟨s, hrun, hs⟩ := exists_run_of_exec
      (next twoKvstores (smallHost.kvstoreReplay (Fintype.card Bool)).toNat) (opened twoKvstores)
      refused (fun s => decide ((s.track false).phase.hasFailed = true ∧
          (s.track true).phase.started = false) &&
        (exec (next twoKvstores (smallHost.kvstoreReplay (Fintype.card Bool)).toNat) s
          (turns true 2 refusing)).any fun t => (t.track true).phase.started) (by decide +kernel)
    obtain ⟨hs, hrest⟩ := Bool.and_eq_true_iff.mp hs
    obtain ⟨t, hfurther, ht⟩ := exists_run_of_exec
      (next twoKvstores (smallHost.kvstoreReplay (Fintype.card Bool)).toNat) s _ _ hrest
    exact ⟨s, t, hrun, hfurther, of_decide_eq_true hs, ht⟩

end Runs

end Rollback.PlusRestorer
