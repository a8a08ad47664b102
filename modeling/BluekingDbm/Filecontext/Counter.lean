import BluekingDbm.Library.Run
import Mathlib.Data.Int.Basic

/-! A counter in a file that limits how many processes of a host do something at once. -/
namespace Filecontext

/-- What the file holds, and what a process has read of it. -/
structure Data where
  max : ℕ
  current : ℤ
  deriving DecidableEq

inductive Op
  | add
  | tryIncr
  | done
  deriving DecidableEq

/-- What is added to the current value. -/
def Op.incr : Op → ℤ
  | .add | .tryIncr => 1
  | .done => -1

/-- Where a process is: before `NewIncrFile`, between its read and its rewrite of the file, outside
all calls, before the attempt at the lock, behind it, behind the read, and before the lock is given
back, after which it may try again. -/
inductive Phase
  | closed
  | opening (data : Data)
  | ready
  | trying (op : Op)
  | locked (op : Op)
  | loaded (op : Op) (data : Data)
  | unlocking (retry : Option Op)
  deriving DecidableEq

/-- The file, its lock and the processes; and the processes that have incremented it and not yet
called `Done`, once for each time, with the number of all successful calls. -/
structure State (Pid : Type*) where
  file : Option Data
  lock : Option Pid
  procs : Pid → Phase
  holders : List Pid
  increments : ℕ
  dones : ℕ

/-- The steps of the calls. -/
inductive Action
  | open_ (max : ℕ)
  | save
  | call (op : Op)
  | tryLock
  | read
  | finish
  | unlock
  deriving DecidableEq

/-- What `NewIncrFile` has in memory when it saves: what it read, and defaults for what is not there;
a maximum of zero is replaced. -/
def opened (file : Option Data) (max : ℕ) : Data :=
  match file with
  | none => ⟨max, 0⟩
  | some data => if data.max = 0 then { data with max } else data

/-- The increment does not fit. -/
def Full (op : Op) (data : Data) : Prop := data.max < data.current + op.incr ∧ 0 < op.incr

instance (op : Op) (data : Data) : Decidable (Full op data) := inferInstanceAs (Decidable (_ ∧ _))

/-- Where a process is behind a call that is over, or is made again. -/
def again : Option Op → Phase
  | none => .ready
  | some op => .trying op

variable {Pid : Type*} [DecidableEq Pid]

def State.setPhase (s : State Pid) (p : Pid) (phase : Phase) : State Pid :=
  { s with procs := fun q => if q = p then phase else s.procs q }

/-- `Set` of the current value succeeds: the file is rewritten, and the call will return nil. -/
def State.set (s : State Pid) (p : Pid) (op : Op) (data : Data) : State Pid :=
  match op with
  | .add | .tryIncr =>
    { s with
      file := some { data with current := data.current + op.incr }
      holders := p :: s.holders
      increments := s.increments + 1 }
  | .done =>
    { s with
      file := some { data with current := data.current + op.incr }
      holders := s.holders.erase p
      dones := s.dones + 1 }

/-- A step of a process. `Done` is called by the holder of an increment of its own. -/
def next (s : State Pid) (e : Pid × Action) : Option (State Pid) :=
  let p := e.1
  match e.2, s.procs p with
  | .open_ max, .closed => some (s.setPhase p (.opening (opened s.file max)))
  | .save, .opening data => some ({ s with file := some data }.setPhase p .ready)
  | .call op, .ready =>
    if op = .done ∧ p ∉ s.holders then none else some (s.setPhase p (.trying op))
  | .tryLock, .trying op =>
    match s.lock with
    | none => some ({ s with lock := some p }.setPhase p (.locked op))
    -- without retries this is an error; else the process sleeps and tries again
    | some _ => some (s.setPhase p (if op = .tryIncr then .ready else .trying op))
  | .read, .locked op =>
    match s.file with
    | none => some (s.setPhase p (.unlocking none))
    | some data => some (s.setPhase p (.loaded op data))
  | .finish, .loaded op data =>
    if Full op data then
      some (s.setPhase p (.unlocking (if op = .tryIncr then none else some op)))
    else some ((s.set p op data).setPhase p (.unlocking none))
  | .unlock, .unlocking retry =>
    some ({ s with lock := none }.setPhase p (again retry))
  | _, _ => none

/-- No process has opened the file. -/
def initial : State Pid := ⟨none, none, fun _ => .closed, [], 0, 0⟩

/-- The stored current value; a file that is not there counts as zero. -/
def State.current (s : State Pid) : ℤ :=
  match s.file with
  | none => 0
  | some data => data.current

end Filecontext
