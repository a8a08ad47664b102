import BluekingDbm.Failover.Request
import BluekingDbm.Library.Run

/-! The passes of one analysis process. A pass pops a business and marks what it popped; each group
is handled in a goroutine of its own, which runs its switches and then clears the marks of its
instances one by one, however it ends. Passes of one process share the switch lock, so any number
of them overlap. -/
namespace Failover

open Transition

inductive TaskState
  | waiting (task : GroupTask)
  | running (req : Request)
  | ended
deriving DecidableEq

/-- Where `handleFailureGroup` is: before its tasks are spawned, waiting for them, or in the deferred
`markDoneAll` with `marked` keys behind it. -/
inductive HandlerStage
  | started
  | switching (tasks : List TaskState)
  | releasing (marked : ℕ)
deriving DecidableEq

/-- One call of `handleFailureGroup`, with the time its entries were popped at. -/
structure Handler where
  group : FailureGroup
  startedAt : ℤ
  stage : HandlerStage
deriving DecidableEq

/-- What a call of `handleFailureGroup` has to do with the marks: the keys it clears in the end,
the time they were set to, and how many it has cleared. -/
structure Hold where
  keys : List String
  startedAt : ℤ
  marked : ℕ
deriving DecidableEq

/-- It popped an entry of the instance and has not marked the instance done. -/
def Hold.Owns (h : Hold) (k : String) : Prop := k ∈ h.keys ∧ k ∉ h.keys.take h.marked

/-- It will mark the instance done. -/
def Hold.Pending (h : Hold) (k : String) : Prop := k ∈ h.keys.drop h.marked

instance (h : Hold) (k : String) : Decidable (h.Owns k) := inferInstanceAs (Decidable (_ ∧ _))

instance (h : Hold) (k : String) : Decidable (h.Pending k) := inferInstanceAs (Decidable (_ ∈ _))

def HandlerStage.marked : HandlerStage → ℕ
  | .started | .switching _ => 0
  | .releasing n => n

def HandlerStage.tasks : HandlerStage → List TaskState
  | .switching tasks => tasks
  | _ => []

/-- The switches are not over. -/
def HandlerStage.Active : HandlerStage → Prop
  | .releasing _ => False
  | _ => True

instance (st : HandlerStage) : Decidable st.Active :=
  match st with
  | .releasing _ => isFalse id
  | .started => isTrue trivial
  | .switching _ => isTrue trivial

def Handler.hold (h : Handler) : Hold :=
  ⟨collectGroupInstanceKeys h.group, h.startedAt, h.stage.marked⟩

def Handler.hosts (h : Handler) : List String := h.group.instances.map Instance.host

/-- `clock` is the last time a mark was looked at. -/
structure Am where
  mgr : BizWindowManager
  clock : ℤ
  handlers : List Handler

def Am.initial (windowDuration inflightTTL clock : ℤ) : Am :=
  ⟨newBizWindowManager windowDuration inflightTTL, clock, []⟩

def Am.holds (s : Am) : List Hold := s.handlers.map Handler.hold

inductive AmEvent
  | push (bizId : ℤ) (inst : Instance) (at' clock : ℤ)
  | popAndSwitch (bizId now : ℤ) (r : RangeOrder FailureWindowEntry)
  | spawn (i : ℕ) (r : RangeOrder (List Instance)) (metadatas : Option (List DbInstMetadata))
      (strategies : Option (List DbSwitchingStrategy))
  | panic (i : ℕ)
  | switch (i j : ℕ) (whiteList : Option (List ℤ))
  | finish (i j : ℕ)
  | wait (i : ℕ)
  | markDone (i : ℕ)

def Am.setStage (s : Am) (i : ℕ) (h : Handler) (stage : HandlerStage) : Am :=
  { s with handlers := s.handlers.set i { h with stage } }

/-- `popAndSwitchForBiz` up to the goroutines it starts. -/
def Am.popAndSwitch (s : Am) (bizId now : ℤ) (r : RangeOrder FailureWindowEntry) : Am :=
  let (entries, mgr) := s.mgr.popAndMarkStart bizId now r
  let groups := groupEntriesByCloudAndDbType bizId entries
  { s with mgr, handlers := s.handlers ++ groups.map fun group => ⟨group, now, .started⟩ }

/-- A task begins its switch, or ends without one. -/
def switchTask (cfg : WorkflowConfig) (whiteList : Option (List ℤ)) : GroupTask → TaskState
  | .notify _ => .ended
  | .switch group req =>
    match handleStrategySwitch cfg group req whiteList with
    | some req => .running req
    | none => .ended

/-- One step of one goroutine. -/
def Am.next (cfg : WorkflowConfig) (s : Am) : AmEvent → Option Am
  | .push bizId inst at' clock =>
    -- the clock of the process does not run backwards
    if clock < s.clock then none
    else some { s with mgr := (s.mgr.push bizId inst at' clock).2, clock }
  | .popAndSwitch bizId now r => some (s.popAndSwitch bizId now r)
  | .spawn i r metadatas strategies => do
    let h ← s.handlers[i]?
    if h.stage ≠ .started then none
    else
      match failureGroupTasks r h.group metadatas strategies with
      | some tasks => some (s.setStage i h (.switching (tasks.map .waiting)))
      | none => some (s.setStage i h (.releasing 0))
  | .panic i => do
    let h ← s.handlers[i]?
    if h.stage ≠ .started then none else some (s.setStage i h (.releasing 0))
  | .switch i j whiteList => do
    let h ← s.handlers[i]?
    match h.stage.tasks[j]? with
    | some (.waiting task) =>
      some (s.setStage i h (.switching (h.stage.tasks.set j (switchTask cfg whiteList task))))
    | _ => none
  | .finish i j => do
    let h ← s.handlers[i]?
    -- a panic ends the task as well
    match h.stage.tasks[j]? with
    | some (.waiting _) | some (.running _) =>
      some (s.setStage i h (.switching (h.stage.tasks.set j .ended)))
    | _ => none
  | .wait i => do
    let h ← s.handlers[i]?
    match h.stage with
    | .switching tasks =>
      if tasks.all (· = .ended) then some (s.setStage i h (.releasing 0)) else none
    | _ => none
  | .markDone i => do
    let h ← s.handlers[i]?
    match h.stage with
    | .releasing n => do
      let k ← (collectGroupInstanceKeys h.group)[n]?
      some { s.setStage i h (.releasing (n + 1)) with mgr := s.mgr.markDone k }
    | _ => none

end Failover
