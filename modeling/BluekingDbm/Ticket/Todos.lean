import BluekingDbm.Library.Program
import BluekingDbm.Ticket.Flow
import Mathlib.Data.Fintype.Basic

/-! The todos of a ticket: the calls that process one, one database operation at a time. -/
namespace Ticket.Todos

open Program Transition

inductive TodoType
  | itsm
  | approve
  | innerFailed
  | innerApprove
  | resourceReplenish
  | timer
  deriving DecidableEq

inductive TodoStatus
  | todo
  | doneSuccess
  | doneFailed
  deriving DecidableEq

inductive TodoActionType
  | approve
  | terminate
  | skip
  | change
  deriving DecidableEq

inductive OperateNodeActionType
  | transition
  | terminate
  | withdraw
  deriving DecidableEq

def DEFAULT_SYSTEM_USER : String := "system"

structure TodoRow where
  status : TodoStatus
  doneBy : String
  remark : Option String
  deriving DecidableEq

structure FlowRow where
  status : TicketFlowStatus
  remark : Option String
  deriving DecidableEq

/-- What of a todo and its ticket no call changes. -/
structure Desk where
  type : TodoType
  ticketType : String
  creator : String
  operators : List String
  helpers : List String

/-- The parameters of a call; each may be missing. -/
structure Params where
  remark : Option String
  triggerTime : Option String

/-- What is done outside of the rows of the todo and its flow. -/
inductive Outside
  | migrationTerminated
  | hotKeyRevoked
  | runNextFlow
  | releasePlaceholders
  | revokePipeline
  | operateItsm (action : OperateNodeActionType) (operator : String) (isApproved : Bool)
  | confirmNode
  | nodeCallback
  | forceFailNode
  | revokeTask
  | updateDetails
  | retryTimer

inductive Op
  | loadTodo
  | loadFlow
  | saveTodo (row : TodoRow)
  | saveTodoContext (remark : Option String)
  | saveFlowContext (remark : Option String)
  | saveFlowStatus (status : TicketFlowStatus)
  | saveFlowRevoked (remark : Option String)
  | closeTodos (operator : String)
  | saveTicketUpdater (username : String)
  | createHistory (username : String) (action : TodoActionType)
  | retryFlow
  | superuser (username : String)
  | unfinished
  | timerTask
  | outside (o : Outside)

/-- An answer of false is an exception; so is none for a user who does not exist. A timer's task comes
with the time that triggers it. -/
abbrev Res : Op → Type
  | .loadTodo => TodoRow
  | .loadFlow => FlowRow
  | .retryFlow => Bool
  | .superuser _ => Option Bool
  | .unfinished => Bool
  | .timerTask => Option String
  | .outside _ => Bool
  | _ => Unit

inductive Outcome
  | returned
  | duplicate
  | wrongOperator
  | raised
  deriving DecidableEq

abbrev Act := Prog Res

/-- The todo as a call has loaded it, and its flow once it was looked at. -/
structure TodoActor where
  todo : TodoRow
  flow : Option FlowRow

section Rows

def flowOf (a : TodoActor) : Act (FlowRow × TodoActor) :=
  match a.flow with
  | some flow => return (flow, a)
  | none => do
    let flow ← perform Op.loadFlow
    return (flow, { a with flow := some flow })

def setStatus (a : TodoActor) (username : String) (status : TodoStatus) : Act TodoActor :=
  if a.todo.status = status then return a
  else do
    let todo : TodoRow :=
      { a.todo with status, doneBy := if status = .todo then a.todo.doneBy else username }
    perform (Op.saveTodo todo)
    return { a with todo }

def setSuccess (a : TodoActor) (username : String) (action : TodoActionType) : Act TodoActor := do
  let a ← setStatus a username .doneSuccess
  perform (Op.createHistory username action)
  return a

def setTerminated (a : TodoActor) (username : String) (action : TodoActionType) :
    Act TodoActor := do
  let a ← setStatus a username .doneFailed
  let (flow, a) ← flowOf a
  if flow.status ≠ .terminated then
    perform (Op.saveFlowStatus .terminated)
    perform (Op.saveTicketUpdater username)
    perform (Op.createHistory username action)
    return { a with flow := some { flow with status := .terminated } }
  else
    perform (Op.saveTicketUpdater username)
    perform (Op.createHistory username action)
    return a

/-- Without parameters nothing is saved. -/
def updateContext (a : TodoActor) (params : Option Params) : Act TodoActor :=
  match params with
  | none => return a
  | some params =>
    match params.remark with
    | none => do
      perform (Op.saveTodoContext a.todo.remark)
      let (flow, a) ← flowOf a
      perform (Op.saveFlowContext flow.remark)
      return a
    | some remark => do
      let (flow, a) ← flowOf a
      perform (Op.saveTodoContext (some remark))
      perform (Op.saveFlowContext (some remark))
      return ⟨{ a.todo with remark := some remark }, some { flow with remark := some remark }⟩

/-- What an exception outside leaves to do. -/
def orRaise (o : Outside) (rest : Act Outcome) : Act Outcome := do
  let ok ← perform (Op.outside o)
  if ok then rest else return .raised

end Rows

section Processing

variable (desk : Desk) (username : String) (action : TodoActionType)
  (params : Option Params)

/-- `PauseTodo._process`. -/
def pauseProcess (a : TodoActor) : Act Outcome :=
  if action = .terminate then do
    let _ ← setTerminated a username action
    if desk.ticketType = "SQLSERVER_INCR_MIGRATE" ∨ desk.ticketType = "SQLSERVER_FULL_MIGRATE" then
      orRaise .migrationTerminated (return .returned)
    else if desk.ticketType = "REDIS_HOT_KEY_ANALYSIS" then
      orRaise .hotKeyRevoked (return .returned)
    else return .returned
  else do
    let _ ← setSuccess a username action
    let unfinished ← perform Op.unfinished
    if unfinished then return .returned else orRaise .runNextFlow (return .returned)

/-- `ResourceReplenishTodo._process`. -/
def replenishProcess (a : TodoActor) : Act Outcome :=
  if action = .terminate then do
    let _ ← setTerminated a username action
    return .returned
  else do
    let (_, a) ← flowOf a
    let ok ← perform Op.retryFlow
    if ok then
      -- the flow is read again
      let flow ← perform Op.loadFlow
      if flow.status = .succeeded then
        let _ ← setSuccess { a with flow := some flow } username action
        return .returned
      else return .returned
    else return .raised

/-- `InnerFlow.revoke`, and what follows it. -/
def revokeFlow (remark : Option String) (rest : Act Outcome) : Act Outcome :=
  orRaise .releasePlaceholders do
    perform (Op.saveFlowRevoked remark)
    perform (Op.saveTicketUpdater username)
    perform (Op.closeTodos username)
    orRaise .revokePipeline rest

/-- `FailedTodo._process`. The flow that is revoked is the todo's own object. -/
def failedProcess (a : TodoActor) : Act Outcome :=
  if action = .terminate then do
    let (_, a) ← flowOf a
    let remark := params.bind Params.remark
    revokeFlow username remark do
      let _ ← setTerminated { a with flow := some ⟨.terminated, remark⟩ } username action
      return .returned
  else do
    let (_, _) ← flowOf a
    let ok ← perform Op.retryFlow
    return if ok then .returned else .raised

/-- `PipelineTodo._process`. -/
def pipelineProcess (a : TodoActor) : Act Outcome :=
  orRaise .confirmNode <|
    if action = .terminate then do
      let _ ← setStatus a username .doneFailed
      orRaise .forceFailNode (return .returned)
    else do
      let ok ← perform (Op.outside .nodeCallback)
      if ok then
        let _ ← setSuccess a username action
        return .returned
      else
        perform (Op.createHistory username action)
        return .raised

/-- `ItsmTodo._process`. -/
def itsmProcess (a : TodoActor) : Act Outcome :=
  match action with
  | .terminate =>
    if username = DEFAULT_SYSTEM_USER then
      orRaise (.operateItsm .terminate "admin" false) do
        let _ ← setTerminated a "admin" action
        return .returned
    else
      orRaise (.operateItsm (if username = desk.creator then .withdraw else .transition) username
          false) do
        let _ ← setTerminated a username action
        return .returned
  | .approve =>
    let username := if username ∈ desk.operators ++ desk.helpers then username else "admin"
    orRaise (.operateItsm .transition username true) do
      let _ ← setSuccess a username action
      return .returned
  | _ => return .returned

/-- `TimerTodo._process`; the context that it changes is saved with the status. -/
def timerProcess (a : TodoActor) : Act Outcome := do
  let (flow, a) ← flowOf a
  let task ← perform Op.timerTask
  match task with
  | none => return .raised
  | some triggerTime =>
    if flow.status ≠ .running then return .raised
    else
      orRaise .revokeTask <|
        match action with
        | .terminate => do
          let todo := { a.todo with remark := some (username ++ "终止了定时任务") }
          let _ ← setTerminated { a with todo } username action
          return .returned
        | .skip => do
          let todo := { a.todo with remark := some ("原定时时间: " ++ triggerTime) }
          let _ ← setSuccess { a with todo } username action
          orRaise .updateDetails (orRaise .runNextFlow (return .returned))
        | .change =>
          match params.bind Params.triggerTime with
          | none => return .raised
          | some newTime => do
            perform (Op.saveTodo { a.todo with
              remark := some ("由" ++ triggerTime ++ "修改为" ++ newTime), doneBy := username })
            orRaise .updateDetails (orRaise .retryTimer (return .returned))
        | .approve => return .returned

/-- `_process` of the actor of the todo's type. -/
def innerProcess (a : TodoActor) : Act Outcome :=
  match desk.type with
  | .approve => pauseProcess desk username action a
  | .resourceReplenish => replenishProcess username action a
  | .innerFailed => failedProcess username action params a
  | .innerApprove => pipelineProcess username action a
  | .itsm => itsmProcess desk username action a
  | .timer => timerProcess username action params a

/-- What `process` does for a user who is not the system. Superusers have no say before the ticket
is carried out. -/
def processAs (a : TodoActor) : Act Outcome := do
  let superuser : Option Bool ←
    if desk.type = .approve then pure (some false) else perform (Op.superuser username)
  match superuser with
  | none => return .raised
  | some superuser =>
    if superuser = false ∧ username ∉ desk.operators ++ desk.helpers then return .wrongOperator
    else do
      let a ← updateContext a params
      innerProcess desk username action params a

/-- `TodoActor.process` of a todo that the call has loaded. Its creator may decide on an approval. -/
def process : Act Outcome := do
  let todo ← perform Op.loadTodo
  let a : TodoActor := ⟨todo, none⟩
  if todo.status ≠ .todo then return .duplicate
  else if username = DEFAULT_SYSTEM_USER ∨ (desk.type = .itsm ∧ username = desk.creator) then
    innerProcess desk username action params a
  else processAs desk username action params a

end Processing

section Interleaving

/-- One call of `process`. -/
structure Call where
  username : String
  action : TodoActionType
  params : Option Params

structure Rows where
  todo : TodoRow
  flow : FlowRow
  updater : String
  history : List (String × TodoActionType)

/-- What is left open: whether what is outside goes well, who is a superuser, and what a retried flow
comes to. -/
structure Choice where
  ok : Bool
  superuser : Option Bool
  triggerTime : Option String
  retried : { status : TicketFlowStatus // status ≠ .terminated }

def serve (c : Choice) (rows : Rows) : (o : Op) → Res o × Rows
  | .loadTodo => (rows.todo, rows)
  | .loadFlow => (rows.flow, rows)
  | .saveTodo row => ((), { rows with todo := row })
  | .saveTodoContext remark => ((), { rows with todo := { rows.todo with remark } })
  | .saveFlowContext remark => ((), { rows with flow := { rows.flow with remark } })
  | .saveFlowStatus status => ((), { rows with flow := { rows.flow with status } })
  | .saveFlowRevoked remark => ((), { rows with flow := ⟨.terminated, remark⟩ })
  | .closeTodos operator =>
    ((), { rows with todo :=
      if rows.todo.status = .todo then { rows.todo with status := .doneFailed, doneBy := operator }
      else rows.todo })
  | .saveTicketUpdater username => ((), { rows with updater := username })
  | .createHistory username action =>
    ((), { rows with history := rows.history ++ [(username, action)] })
  | .retryFlow => (c.ok, { rows with flow := { rows.flow with status := c.retried.1 } })
  | .superuser _ => (c.superuser, rows)
  | .unfinished => (c.ok, rows)
  | .timerTask => (c.triggerTime, rows)
  | .outside _ => (c.ok, rows)

/-- What a call has done to the todo: nothing yet; it has loaded it open, and may have revoked the flow
already; it has set the status; or it was turned away. -/
inductive Phase
  | fresh
  | reading
  | revoking
  | decided
  | refused
  deriving DecidableEq

/-- The phase after an operation. -/
def after : (o : Op) → Phase → Res o → Phase
  | .loadTodo, _, row => if row.status = .todo then .reading else .refused
  | .saveTodo row, phase, _ => if row.status = .todo then phase else .decided
  | .saveFlowRevoked _, _, _ => .revoking
  | .closeTodos _, _, _ => .decided
  | _, phase, _ => phase

variable {I : Type*} [DecidableEq I]

/-- The rows and the calls under way, each with its phase beside it. -/
structure Office (I : Type*) where
  rows : Rows
  prog : I → Act Outcome
  phase : I → Phase

def opened (desk : Desk) (calls : I → Call) (rows : Rows) : Office I where
  rows
  prog i := process desk (calls i).username (calls i).action (calls i).params
  phase _ := .fresh

/-- One call makes its next operation. -/
def next (s : Office I) (e : I × Choice) : Option (Office I) :=
  match s.prog e.1 with
  | .done _ => none
  | .call o k =>
    let answered := serve e.2 s.rows o
    some {
      rows := answered.2
      prog := Function.update s.prog e.1 (k answered.1)
      phase := Function.update s.phase e.1 (after o (s.phase e.1) answered.1) }

end Interleaving

section Calls

/-- The status that a call sets when it decides. -/
def decisionOf : TodoActionType → TodoStatus
  | .terminate => .doneFailed
  | _ => .doneSuccess

/-- What returns without a decision: a replenishment without resources, the retry of a failed task,
and the actions that a type of todo does not decide on. -/
def LeavesOpen : TodoType → TodoActionType → Prop
  | .resourceReplenish, action => action ≠ .terminate
  | .innerFailed, action => action ≠ .terminate
  | .timer, action => action ≠ .terminate ∧ action ≠ .skip
  | .itsm, action => action ≠ .terminate ∧ action ≠ .approve
  | _, _ => False

/-- When a call makes an operation. -/
def Allowed (action : TodoActionType) : Op → Phase → Prop
  | .loadTodo, phase => phase = .fresh
  | .saveTodo row, phase =>
    phase = .reading ∧ (row.status = .todo ∨ row.status = decisionOf action) ∨
      phase = .decided ∧ row.status = decisionOf action
  | .saveFlowStatus _, phase => action = .terminate ∧ phase = .decided
  | .saveFlowRevoked _, phase => action = .terminate ∧ phase = .reading
  | .closeTodos _, phase => action = .terminate ∧ phase = .revoking
  | _, phase => phase ≠ .fresh ∧ phase ≠ .refused

/-- How a call ends. -/
structure Ends (type : TodoType) (action : TodoActionType) (outcome : Outcome) (phase : Phase) :
    Prop where
  duplicate : outcome = .duplicate ↔ phase = .refused
  stands : phase = .reading ∨ phase = .decided ∨ phase = .refused
  returned : outcome = .returned → phase = .decided ∨ LeavesOpen type action

def Keeps (type : TodoType) (action : TodoActionType) : Act Outcome → Phase → Prop :=
  Ensures (Allowed action) (fun o phase r phase' => phase' = after o phase r) (Ends type action)

variable {type : TodoType} {action : TodoActionType} {phase : Phase} {a : TodoActor}
  {desk : Desk} {username : String} {params : Option Params}

theorem keeps_call {o : Op} {f : Res o → Act Outcome} (hallowed : Allowed action o phase)
    (hf : ∀ r, Keeps type action (f r) (after o phase r)) :
    Keeps type action (perform o >>= f) phase := by
  refine ⟨hallowed, ?_⟩
  rintro r phase' rfl
  exact hf r

/-- A call that has loaded the todo open. -/
def Loaded (phase : Phase) : Prop := phase = .reading ∨ phase = .decided

theorem Loaded.passive (h : Loaded phase) : phase ≠ .fresh ∧ phase ≠ .refused := by
  rcases h with rfl | rfl
  · constructor <;> intro h <;> cases h
  · constructor <;> intro h <;> cases h

theorem keeps_raised (h : Loaded phase) {outcome : Outcome} (hdup : outcome ≠ .duplicate)
    (hreturned : outcome ≠ .returned) : Keeps type action (.done outcome) phase := by
  refine ⟨⟨fun hsame => absurd hsame hdup, fun hsame => absurd hsame h.passive.2⟩, ?_,
    fun hsame => absurd hsame hreturned⟩
  rcases h with h | h
  · exact Or.inl h
  · exact Or.inr (Or.inl h)

theorem keeps_returned (h : phase = .decided ∨ phase = .reading ∧ LeavesOpen type action) :
    Keeps type action (.done .returned) phase := by
  rcases h with rfl | ⟨rfl, hopen⟩
  · refine ⟨?_, Or.inr (Or.inl rfl), fun _ => Or.inl rfl⟩
    constructor <;> intro h <;> cases h
  · refine ⟨?_, Or.inl rfl, fun _ => Or.inr hopen⟩
    constructor <;> intro h <;> cases h

theorem keeps_orRaise {o : Outside} {rest : Act Outcome} (h : Loaded phase)
    (hrest : Keeps type action rest phase) : Keeps type action (orRaise o rest) phase := by
  refine keeps_call h.passive ?_
  intro ok
  cases ok with
  | false => exact keeps_raised h (by decide) (by decide)
  | true => exact hrest

theorem keeps_flowOf {f : FlowRow × TodoActor → Act Outcome} (h : Loaded phase)
    (hf : ∀ flow a', a'.todo = a.todo → Keeps type action (f (flow, a')) phase) :
    Keeps type action (flowOf a >>= f) phase := by
  unfold flowOf
  split
  · exact hf _ a rfl
  · refine keeps_call h.passive ?_
    intro flow
    exact hf flow _ rfl

theorem keeps_setStatus {status : TodoStatus} {f : TodoActor → Act Outcome} (h : Loaded phase)
    (hopen : a.todo.status = .todo) (hstatus : status = decisionOf action)
    (hf : ∀ a', Keeps type action (f a') .decided) :
    Keeps type action (setStatus a username status >>= f) phase := by
  have hdone : status ≠ .todo := by
    rw [hstatus]
    cases action <;> decide
  unfold setStatus
  rw [if_neg (by rw [hopen]; exact Ne.symm hdone)]
  refine keeps_call ?_ ?_
  · rcases h with h | h
    · exact Or.inl ⟨h, Or.inr hstatus⟩
    · exact Or.inr ⟨h, hstatus⟩
  · intro _
    have hafter : after (.saveTodo { a.todo with
        status, doneBy := if status = .todo then a.todo.doneBy else username }) phase () =
          .decided := if_neg hdone
    rw [hafter]
    exact hf _

theorem decided_passive : Phase.decided ≠ .fresh ∧ Phase.decided ≠ .refused :=
  Loaded.passive (Or.inr rfl)

theorem keeps_setSuccess {action' : TodoActionType} {f : TodoActor → Act Outcome} (h : Loaded phase)
    (hopen : a.todo.status = .todo) (haction : action ≠ .terminate)
    (hf : ∀ a', Keeps type action (f a') .decided) :
    Keeps type action (setSuccess a username action' >>= f) phase := by
  have hstatus : TodoStatus.doneSuccess = decisionOf action := by
    cases action with
    | terminate => exact absurd rfl haction
    | approve => rfl
    | skip => rfl
    | change => rfl
  unfold setSuccess
  rw [Prog.bind_assoc]
  refine keeps_setStatus h hopen hstatus ?_
  intro a'
  refine keeps_call decided_passive ?_
  intro _
  exact hf a'

theorem keeps_setTerminated {action' : TodoActionType} {f : TodoActor → Act Outcome}
    (h : Loaded phase) (hopen : a.todo.status = .todo) (haction : action = .terminate)
    (hf : ∀ a', Keeps type action (f a') .decided) :
    Keeps type action (setTerminated a username action' >>= f) phase := by
  unfold setTerminated
  rw [Prog.bind_assoc]
  refine keeps_setStatus h hopen (by rw [haction]; rfl) ?_
  intro a'
  rw [Prog.bind_assoc]
  refine keeps_flowOf (Or.inr rfl) ?_
  intro flow a'' _
  dsimp only
  split
  · refine keeps_call ⟨haction, rfl⟩ ?_
    intro _
    refine keeps_call decided_passive ?_
    intro _
    refine keeps_call decided_passive ?_
    intro _
    exact hf _
  · refine keeps_call decided_passive ?_
    intro _
    refine keeps_call decided_passive ?_
    intro _
    exact hf _

theorem keeps_updateContext {f : TodoActor → Act Outcome} (h : Loaded phase)
    (hf : ∀ a', a'.todo.status = a.todo.status → Keeps type action (f a') phase) :
    Keeps type action (updateContext a params >>= f) phase := by
  unfold updateContext
  split
  · exact hf a rfl
  · split
    · rw [Prog.bind_assoc]
      refine keeps_call h.passive ?_
      intro _
      rw [Prog.bind_assoc]
      refine keeps_flowOf h ?_
      intro flow a' htodo
      refine keeps_call h.passive ?_
      intro _
      exact hf a' (congrArg TodoRow.status htodo)
    · rw [Prog.bind_assoc]
      refine keeps_flowOf h ?_
      intro flow a' htodo
      refine keeps_call h.passive ?_
      intro _
      refine keeps_call h.passive ?_
      intro _
      have hstatus : a'.todo.status = a.todo.status := congrArg TodoRow.status htodo
      exact hf _ hstatus

theorem keeps_done : Keeps type action (.done .returned) .decided := keeps_returned (Or.inl rfl)

theorem keeps_pause (hopen : a.todo.status = .todo) :
    Keeps type action (pauseProcess desk username action a) .reading := by
  unfold pauseProcess
  split
  · rename_i haction
    refine keeps_setTerminated (Or.inl rfl) hopen haction ?_
    intro _
    split
    · exact keeps_orRaise (Or.inr rfl) keeps_done
    · split
      · exact keeps_orRaise (Or.inr rfl) keeps_done
      · exact keeps_done
  · rename_i haction
    refine keeps_setSuccess (Or.inl rfl) hopen haction ?_
    intro _
    refine keeps_call decided_passive ?_
    intro unfinished
    split
    · exact keeps_done
    · exact keeps_orRaise (Or.inr rfl) keeps_done

theorem reading_passive : Phase.reading ≠ .fresh ∧ Phase.reading ≠ .refused :=
  Loaded.passive (Or.inl rfl)

theorem keeps_replenish (htype : type = .resourceReplenish) (hopen : a.todo.status = .todo) :
    Keeps type action (replenishProcess username action a) .reading := by
  unfold replenishProcess
  split
  · rename_i haction
    refine keeps_setTerminated (Or.inl rfl) hopen haction ?_
    intro _
    exact keeps_done
  · rename_i haction
    have hleft : LeavesOpen type action := by
      rw [htype]
      exact haction
    refine keeps_flowOf (Or.inl rfl) ?_
    intro flow a' htodo
    refine keeps_call reading_passive ?_
    intro ok
    split
    · refine keeps_call reading_passive ?_
      intro flow'
      split
      · refine keeps_setSuccess (Or.inl rfl) ((congrArg TodoRow.status htodo).trans hopen) haction ?_
        intro _
        exact keeps_done
      · exact keeps_returned (Or.inr ⟨rfl, hleft⟩)
    · exact keeps_raised (Or.inl rfl) (by decide) (by decide)

theorem keeps_failed (htype : type = .innerFailed) (hopen : a.todo.status = .todo) :
    Keeps type action (failedProcess username action params a) .reading := by
  unfold failedProcess
  split
  · rename_i haction
    refine keeps_flowOf (Or.inl rfl) ?_
    intro flow a' htodo
    refine keeps_orRaise (Or.inl rfl) ?_
    refine keeps_call ⟨haction, rfl⟩ ?_
    intro _
    have hrevoking : Phase.revoking ≠ .fresh ∧ Phase.revoking ≠ .refused := by decide
    refine keeps_call hrevoking ?_
    intro _
    refine keeps_call ⟨haction, rfl⟩ ?_
    intro _
    refine keeps_orRaise (Or.inr rfl) ?_
    refine keeps_setTerminated (Or.inr rfl) ((congrArg TodoRow.status htodo).trans hopen) haction ?_
    intro _
    exact keeps_done
  · rename_i haction
    have hleft : LeavesOpen type action := by
      rw [htype]
      exact haction
    refine keeps_flowOf (Or.inl rfl) ?_
    intro flow a' htodo
    refine keeps_call reading_passive ?_
    intro ok
    cases ok with
    | false => exact keeps_raised (Or.inl rfl) (by decide) (by decide)
    | true => exact keeps_returned (Or.inr ⟨rfl, hleft⟩)

theorem keeps_pipeline (hopen : a.todo.status = .todo) :
    Keeps type action (pipelineProcess username action a) .reading := by
  unfold pipelineProcess
  refine keeps_orRaise (Or.inl rfl) ?_
  split
  · rename_i haction
    refine keeps_setStatus (Or.inl rfl) hopen (by rw [haction]; rfl) ?_
    intro _
    exact keeps_orRaise (Or.inr rfl) keeps_done
  · rename_i haction
    refine keeps_call reading_passive ?_
    intro ok
    split
    · refine keeps_setSuccess (Or.inl rfl) hopen haction ?_
      intro _
      exact keeps_done
    · refine keeps_call reading_passive ?_
      intro _
      exact keeps_raised (Or.inl rfl) (by decide) (by decide)

theorem keeps_itsm (htype : type = .itsm) (hopen : a.todo.status = .todo) :
    Keeps type action (itsmProcess desk username action a) .reading := by
  unfold itsmProcess
  cases action with
  | terminate =>
    dsimp only
    split
    · refine keeps_orRaise (Or.inl rfl) ?_
      refine keeps_setTerminated (Or.inl rfl) hopen rfl ?_
      intro _
      exact keeps_done
    · refine keeps_orRaise (Or.inl rfl) ?_
      refine keeps_setTerminated (Or.inl rfl) hopen rfl ?_
      intro _
      exact keeps_done
  | approve =>
    refine keeps_orRaise (Or.inl rfl) ?_
    refine keeps_setSuccess (Or.inl rfl) hopen (by decide) ?_
    intro _
    exact keeps_done
  | skip => exact keeps_returned (Or.inr ⟨rfl, by rw [htype]; exact ⟨by decide, by decide⟩⟩)
  | change => exact keeps_returned (Or.inr ⟨rfl, by rw [htype]; exact ⟨by decide, by decide⟩⟩)

theorem keeps_timer (htype : type = .timer) (hopen : a.todo.status = .todo) :
    Keeps type action (timerProcess username action params a) .reading := by
  unfold timerProcess
  refine keeps_flowOf (Or.inl rfl) ?_
  intro flow a' htodo
  have hopen' : a'.todo.status = .todo := (congrArg TodoRow.status htodo).trans hopen
  refine keeps_call reading_passive ?_
  intro task
  cases task with
  | none => exact keeps_raised (Or.inl rfl) (by decide) (by decide)
  | some triggerTime =>
    dsimp only
    split
    · exact keeps_raised (Or.inl rfl) (by decide) (by decide)
    · refine keeps_orRaise (Or.inl rfl) ?_
      cases action with
      | terminate =>
        refine keeps_setTerminated (Or.inl rfl) hopen' rfl ?_
        intro _
        exact keeps_done
      | skip =>
        refine keeps_setSuccess (Or.inl rfl) hopen' (by decide) ?_
        intro _
        exact keeps_orRaise (Or.inr rfl) (keeps_orRaise (Or.inr rfl) keeps_done)
      | change =>
        have hleft : LeavesOpen type .change := by
          rw [htype]
          exact ⟨by decide, by decide⟩
        dsimp only
        split
        · exact keeps_raised (Or.inl rfl) (by decide) (by decide)
        · refine keeps_call (Or.inl ⟨rfl, Or.inl hopen'⟩) ?_
          intro _
          -- the todo stays open, so the call is still only reading
          rw [after, if_pos hopen']
          exact keeps_orRaise (Or.inl rfl)
            (keeps_orRaise (Or.inl rfl) (keeps_returned (Or.inr ⟨rfl, hleft⟩)))
      | approve =>
        exact keeps_returned (Or.inr ⟨rfl, by rw [htype]; exact ⟨by decide, by decide⟩⟩)

/-- Every call keeps to the phases. -/
theorem keeps_process (desk : Desk) (username : String) (action : TodoActionType)
    (params : Option Params) :
    Keeps desk.type action (process desk username action params) .fresh := by
  have hinner : ∀ a : TodoActor, a.todo.status = .todo →
      Keeps desk.type action (innerProcess desk username action params a) .reading := by
    intro a hopen
    unfold innerProcess
    cases htype : desk.type with
    | approve => exact keeps_pause hopen
    | resourceReplenish => exact keeps_replenish rfl hopen
    | innerFailed => exact keeps_failed rfl hopen
    | innerApprove => exact keeps_pipeline hopen
    | itsm => exact keeps_itsm rfl hopen
    | timer => exact keeps_timer rfl hopen
  unfold process
  refine keeps_call rfl ?_
  intro todo
  by_cases hopen : todo.status = .todo
  · have hafter : after .loadTodo .fresh todo = .reading := if_pos hopen
    rw [hafter]
    dsimp only
    rw [if_neg (fun hne => hne hopen)]
    split
    · exact hinner _ hopen
    · unfold processAs
      have hchecked : ∀ superuser : Option Bool, Keeps desk.type action
          (match superuser with
            | none => return .raised
            | some superuser =>
              if superuser = false ∧ username ∉ desk.operators ++ desk.helpers then
                return .wrongOperator
              else do
                let a ← updateContext ⟨todo, none⟩ params
                innerProcess desk username action params a) .reading := by
        intro superuser
        cases superuser with
        | none => exact keeps_raised (Or.inl rfl) (by decide) (by decide)
        | some superuser =>
          dsimp only
          split
          · exact keeps_raised (Or.inl rfl) (by decide) (by decide)
          · refine keeps_updateContext (Or.inl rfl) ?_
            intro a' hstatus
            exact hinner a' (hstatus.trans hopen)
      split
      · exact hchecked (some false)
      · refine keeps_call reading_passive ?_
        intro superuser
        exact hchecked superuser
  · have hafter : after .loadTodo .fresh todo = .refused := if_neg hopen
    rw [hafter]
    dsimp only
    rw [if_pos hopen]
    refine ⟨⟨fun _ => rfl, fun _ => rfl⟩, Or.inr (Or.inr rfl), ?_⟩
    intro h
    cases h

end Calls

section Deciding

variable {I : Type*} [DecidableEq I] {desk : Desk} {calls : I → Call} {s t : Office I} {i j : I}
  {e : I × Choice}

def underWay : Act Outcome → Bool
  | .done _ => false
  | .call _ _ => true

def loadsNext : Act Outcome → Bool
  | .call .loadTodo _ => true
  | _ => false

/-- A call that has loaded the todo open and has not set its status yet. -/
def Critical (s : Office I) (i : I) : Prop :=
  (s.phase i = .reading ∨ s.phase i = .revoking) ∧ underWay (s.prog i) = true

instance (s : Office I) (i : I) : Decidable (Critical s i) := inferInstanceAs (Decidable (_ ∧ _))

/-- No call loads the todo while another is about to decide it. -/
def Undisturbed (s : Office I) (e : I × Choice) : Prop :=
  loadsNext (s.prog e.1) = true → ∀ j, ¬ Critical s j

instance [Fintype I] (s : Office I) (e : I × Choice) : Decidable (Undisturbed s e) :=
  inferInstanceAs (Decidable (_ → _))

structure Sound (desk : Desk) (calls : I → Call) (s : Office I) : Prop where
  keeps : ∀ i, Keeps desk.type (calls i).action (s.prog i) (s.phase i)
  critical : ∀ i, Critical s i → s.rows.todo.status = .todo
  alone : ∀ i j, Critical s i → Critical s j → i = j
  one : ∀ i j, s.phase i = .decided → s.phase j = .decided → i = j
  decided : ∀ i, s.phase i = .decided → s.rows.todo.status = decisionOf (calls i).action
  undecided : (∀ i, s.phase i ≠ .decided) → s.rows.todo.status = .todo
  flow : s.rows.flow.status = .terminated →
    ∃ i, (calls i).action = .terminate ∧ (s.phase i = .revoking ∨ s.phase i = .decided)

theorem decisionOf_ne (action : TodoActionType) : decisionOf action ≠ .todo := by
  cases action <;> decide

section Step

variable {phase : Phase}

/-- Who is about to decide after a step was so before it, but for the call that made it. -/
theorem critical_of_step (hother : ∀ j, j ≠ i → t.prog j = s.prog j)
    (hphase : t.phase = Function.update s.phase i phase) (hj : j ≠ i) :
    Critical t j ↔ Critical s j := by
  rw [Critical, Critical, hother j hj, hphase, Function.update_of_ne hj]

/-- An operation that neither decides nor begins to: the phases and the status stay. -/
theorem sound_of_passive (h : Sound desk calls s) (hwas : underWay (s.prog i) = true)
    (hother : ∀ j, j ≠ i → t.prog j = s.prog j) (hphase : t.phase = s.phase)
    (hkeeps : ∀ j, Keeps desk.type (calls j).action (t.prog j) (t.phase j))
    (hstatus : t.rows.todo.status = s.rows.todo.status)
    (hflow : t.rows.flow.status = .terminated →
      ∃ i, (calls i).action = .terminate ∧ (s.phase i = .revoking ∨ s.phase i = .decided)) :
    Sound desk calls t := by
  have hcritical : ∀ j, Critical t j → Critical s j := by
    intro j hj
    by_cases hji : j = i
    · subst hji
      exact ⟨by rw [← hphase]; exact hj.1, hwas⟩
    · rw [Critical, ← hother j hji, ← hphase]
      exact hj
  refine ⟨hkeeps, ?_, ?_, ?_, ?_, ?_, ?_⟩
  · intro j hj
    rw [hstatus]
    exact h.critical j (hcritical j hj)
  · intro j k hj hk
    exact h.alone j k (hcritical j hj) (hcritical k hk)
  · rw [hphase]
    exact h.one
  · rw [hphase, hstatus]
    exact h.decided
  · rw [hphase, hstatus]
    exact h.undecided
  · rw [hphase]
    exact hflow

/-- The call that is about to decide sets the status. -/
theorem sound_of_decision (h : Sound desk calls s) (hi : Critical s i)
    (hother : ∀ j, j ≠ i → t.prog j = s.prog j)
    (hphase : t.phase = Function.update s.phase i .decided)
    (hkeeps : ∀ j, Keeps desk.type (calls j).action (t.prog j) (t.phase j))
    (hstatus : t.rows.todo.status = decisionOf (calls i).action)
    (hflow : t.rows.flow.status = s.rows.flow.status) : Sound desk calls t := by
  have hself : t.phase i = .decided := by rw [hphase, Function.update_self]
  have hnone : ∀ j, ¬ Critical t j := by
    intro j hj
    by_cases hji : j = i
    · subst hji
      rcases hj.1 with hj | hj <;> rw [hself] at hj <;> cases hj
    · exact hji (h.alone j i ((critical_of_step hother hphase hji).mp hj) hi)
  have honly : ∀ j, t.phase j = .decided → j = i := by
    intro j hj
    by_contra hji
    rw [hphase, Function.update_of_ne hji] at hj
    exact decisionOf_ne _ ((h.decided j hj).symm.trans (h.critical i hi))
  refine ⟨hkeeps, ?_, ?_, ?_, ?_, ?_, ?_⟩
  · intro j hj
    exact absurd hj (hnone j)
  · intro j k hj
    exact absurd hj (hnone j)
  · intro j k hj hk
    exact (honly j hj).trans (honly k hk).symm
  · intro j hj
    rw [honly j hj]
    exact hstatus
  · intro hall
    exact absurd hself (hall i)
  · intro hterminated
    obtain ⟨j, haction, hj⟩ := h.flow (hflow.symm.trans hterminated)
    by_cases hji : j = i
    · exact ⟨j, haction, Or.inr (hji ▸ hself)⟩
    · rw [hphase]
      exact ⟨j, haction, by rwa [Function.update_of_ne hji]⟩

/-- The call that is about to decide revokes the flow first. -/
theorem sound_of_revocation (h : Sound desk calls s) (hi : Critical s i)
    (hother : ∀ j, j ≠ i → t.prog j = s.prog j)
    (hphase : t.phase = Function.update s.phase i .revoking)
    (hkeeps : ∀ j, Keeps desk.type (calls j).action (t.prog j) (t.phase j))
    (hstatus : t.rows.todo.status = s.rows.todo.status)
    (haction : (calls i).action = .terminate) : Sound desk calls t := by
  have hself : t.phase i = .revoking := by rw [hphase, Function.update_self]
  have hcritical : ∀ j, Critical t j → j = i := by
    intro j hj
    by_contra hji
    exact hji (h.alone j i ((critical_of_step hother hphase hji).mp hj) hi)
  have hnone : ∀ j, t.phase j ≠ .decided := by
    intro j hj
    have hji : j ≠ i := by
      rintro rfl
      rw [hself] at hj
      cases hj
    rw [hphase, Function.update_of_ne hji] at hj
    exact decisionOf_ne _ ((h.decided j hj).symm.trans (h.critical i hi))
  have hopen := h.critical i hi
  refine ⟨hkeeps, ?_, ?_, ?_, ?_, ?_, ?_⟩
  · intro j _
    exact hstatus.trans hopen
  · intro j k hj hk
    exact (hcritical j hj).trans (hcritical k hk).symm
  · intro j k hj
    exact absurd hj (hnone j)
  · intro j hj
    exact absurd hj (hnone j)
  · intro _
    exact hstatus.trans hopen
  · intro _
    exact ⟨i, haction, Or.inl hself⟩

/-- A call loads the todo while none is about to decide it. -/
theorem sound_of_load (h : Sound desk calls s) (hfresh : s.phase i = .fresh)
    (hnone : ∀ j, ¬ Critical s j) (hother : ∀ j, j ≠ i → t.prog j = s.prog j)
    (hphase : t.phase =
      Function.update s.phase i (if s.rows.todo.status = .todo then .reading else .refused))
    (hkeeps : ∀ j, Keeps desk.type (calls j).action (t.prog j) (t.phase j))
    (hrows : t.rows = s.rows) : Sound desk calls t := by
  have hself : t.phase i = if s.rows.todo.status = .todo then .reading else .refused := by
    rw [hphase, Function.update_self]
  have hcritical : ∀ j, Critical t j → j = i := by
    intro j hj
    by_contra hji
    exact hnone j ((critical_of_step hother hphase hji).mp hj)
  have hsame : ∀ j p, p = .decided ∨ p = .revoking → (t.phase j = p ↔ s.phase j = p) := by
    intro j p hp
    by_cases hji : j = i
    · rw [hji, hself, hfresh]
      rcases hp with rfl | rfl <;> split <;> simp
    · rw [hphase, Function.update_of_ne hji]
  refine ⟨hkeeps, ?_, ?_, ?_, ?_, ?_, ?_⟩
  · intro j hj
    rw [hrows]
    by_contra hdone
    have hloaded := hj.1
    rw [hcritical j hj, hself, if_neg hdone] at hloaded
    rcases hloaded with hloaded | hloaded <;> cases hloaded
  · intro j k hj hk
    exact (hcritical j hj).trans (hcritical k hk).symm
  · intro j k hj hk
    exact h.one j k ((hsame j _ (Or.inl rfl)).mp hj) ((hsame k _ (Or.inl rfl)).mp hk)
  · intro j hj
    rw [hrows]
    exact h.decided j ((hsame j _ (Or.inl rfl)).mp hj)
  · intro hall
    rw [hrows]
    exact h.undecided fun j hj => hall j ((hsame j _ (Or.inl rfl)).mpr hj)
  · intro hterminated
    rw [hrows] at hterminated
    obtain ⟨j, haction, hj | hj⟩ := h.flow hterminated
    · exact ⟨j, haction, Or.inl ((hsame j _ (Or.inr rfl)).mpr hj)⟩
    · exact ⟨j, haction, Or.inr ((hsame j _ (Or.inl rfl)).mpr hj)⟩

/-- One operation of one call keeps the office sound. -/
theorem sound_next (h : Sound desk calls s) (hguard : Undisturbed s e) (hnext : next s e = some t) :
    Sound desk calls t := by
  obtain ⟨i, c⟩ := e
  unfold next at hnext
  dsimp only at hnext
  cases hprog : s.prog i with
  | done outcome =>
    rw [hprog] at hnext
    cases hnext
  | call o k =>
    rw [hprog] at hnext
    have hwas : underWay (s.prog i) = true := by rw [hprog]; rfl
    have hcall := h.keeps i
    rw [hprog] at hcall
    obtain ⟨hallowed, hrest⟩ := hcall
    have hafter := hrest (serve c s.rows o).1 _ rfl
    obtain rfl := Option.some.inj hnext
    have hother : ∀ j, j ≠ i →
        Function.update s.prog i (k (serve c s.rows o).1) j = s.prog j :=
      fun j hj => Function.update_of_ne hj _ _
    have hkeeps : ∀ j, Keeps desk.type (calls j).action
        (Function.update s.prog i (k (serve c s.rows o).1) j)
        (Function.update s.phase i (after o (s.phase i) (serve c s.rows o).1) j) := by
      intro j
      by_cases hji : j = i
      · subst hji
        rw [Function.update_self, Function.update_self]
        exact hafter
      · rw [Function.update_of_ne hji, Function.update_of_ne hji]
        exact h.keeps j
    have hpassive : after o (s.phase i) (serve c s.rows o).1 = s.phase i →
        (serve c s.rows o).2.todo.status = s.rows.todo.status →
        ((serve c s.rows o).2.flow.status = .terminated → s.rows.flow.status = .terminated) →
        Sound desk calls ⟨(serve c s.rows o).2, Function.update s.prog i (k (serve c s.rows o).1),
          Function.update s.phase i (after o (s.phase i) (serve c s.rows o).1)⟩ := by
      intro hphase hstatus hflow
      exact @sound_of_passive _ _ desk calls s _ i h hwas hother
        (by rw [hphase, Function.update_eq_self]) hkeeps hstatus fun ht => h.flow (hflow ht)
    cases o with
    | loadTodo =>
      refine sound_of_load h hallowed (hguard ?_) hother rfl hkeeps rfl
      dsimp only
      rw [hprog]
      rfl
    | saveTodo row =>
      rcases hallowed with ⟨hreading, hrow | hrow⟩ | ⟨hdecided, hrow⟩
      · have hopen := h.critical i ⟨Or.inl hreading, hwas⟩
        exact hpassive (if_pos hrow) (hrow.trans hopen.symm) id
      · have hphase : after (.saveTodo row) (s.phase i) () = .decided :=
          if_neg (by rw [hrow]; exact decisionOf_ne _)
        refine sound_of_decision h ⟨Or.inl hreading, hwas⟩ hother ?_ hkeeps hrow rfl
        exact congrArg (Function.update s.phase i) hphase
      · have hphase : after (.saveTodo row) (s.phase i) () = .decided :=
          if_neg (by rw [hrow]; exact decisionOf_ne _)
        exact hpassive (hphase.trans hdecided.symm) (hrow.trans (h.decided i hdecided).symm) id
    | saveFlowStatus status =>
      exact sound_of_passive h hwas hother (Function.update_eq_self _ _) hkeeps rfl
        fun _ => ⟨i, hallowed.1, Or.inr hallowed.2⟩
    | saveFlowRevoked remark =>
      exact sound_of_revocation h ⟨Or.inl hallowed.2, hwas⟩ hother rfl hkeeps rfl hallowed.1
    | closeTodos operator =>
      have hcritical : Critical s i := ⟨Or.inr hallowed.2, hwas⟩
      refine sound_of_decision h hcritical hother rfl hkeeps ?_ rfl
      rw [hallowed.1]
      have hopen := h.critical i hcritical
      exact congrArg TodoRow.status (if_pos hopen)
    | retryFlow => exact hpassive rfl rfl fun ht => absurd ht c.retried.2
    | loadFlow => exact hpassive rfl rfl id
    | saveTodoContext remark => exact hpassive rfl rfl id
    | saveFlowContext remark => exact hpassive rfl rfl id
    | saveTicketUpdater username => exact hpassive rfl rfl id
    | createHistory username action => exact hpassive rfl rfl id
    | superuser username => exact hpassive rfl rfl id
    | unfinished => exact hpassive rfl rfl id
    | timerTask => exact hpassive rfl rfl id
    | outside o => exact hpassive rfl rfl id

end Step

omit [DecidableEq I] in
theorem sound_opened (desk : Desk) (calls : I → Call) {rows : Rows} (hopen : rows.todo.status = .todo)
    (hflow : rows.flow.status ≠ .terminated) : Sound desk calls (opened desk calls rows) := by
  have hfresh : ∀ j, ¬ Critical (opened desk calls rows) j := by
    rintro j ⟨hj | hj, -⟩ <;> cases hj
  refine ⟨?_, ?_, ?_, ?_, ?_, ?_, ?_⟩
  · intro j
    exact keeps_process desk (calls j).username (calls j).action (calls j).params
  · intro j hj
    exact absurd hj (hfresh j)
  · intro j k hj
    exact absurd hj (hfresh j)
  · intro j k hj
    cases hj
  · intro j hj
    cases hj
  · intro _
    exact hopen
  · intro hterminated
    exact absurd hterminated hflow

theorem sound_of_run {es : List (I × Choice)} (h : Sound desk calls s)
    (hrun : Run (Guarded Undisturbed (Steps next)) s es t) : Sound desk calls t := by
  refine hrun.invariant (Sound desk calls) h ?_
  rintro s e t h ⟨hguard, hnext⟩
  exact sound_next h hguard hnext

omit [DecidableEq I] in
/-- A call that revokes the flow is under way. -/
theorem Sound.critical_of_revoking (h : Sound desk calls s) (hi : s.phase i = .revoking) :
    Critical s i := by
  refine ⟨Or.inr hi, ?_⟩
  have hkeeps := h.keeps i
  cases hprog : s.prog i with
  | call o k => rfl
  | done outcome =>
    rw [hprog] at hkeeps
    rcases Ends.stands hkeeps with hphase | hphase | hphase
    · cases hi.symm.trans hphase
    · cases hi.symm.trans hphase
    · cases hi.symm.trans hphase

omit [DecidableEq I] in
/-- Where a decision stands, the flow was terminated by the call that took it. -/
theorem Sound.terminate_of_flow (h : Sound desk calls s) (hflow : s.rows.flow.status = .terminated)
    (hi : s.phase i = .decided) : (calls i).action = .terminate := by
  obtain ⟨j, haction, hj | hj⟩ := h.flow hflow
  · have hopen := h.critical j (h.critical_of_revoking hj)
    exact absurd ((h.decided i hi).symm.trans hopen) (decisionOf_ne _)
  · rw [h.one i j hi hj]
    exact haction

omit [DecidableEq I] in
theorem Sound.ends (h : Sound desk calls s) {outcome : Outcome} (hi : s.prog i = .done outcome) :
    Ends desk.type (calls i).action outcome (s.phase i) := by
  have hkeeps := h.keeps i
  rw [hi] at hkeeps
  exact hkeeps

/-- What the calls have come to when one of them at most decides. -/
structure DecidedOnce (desk : Desk) (calls : I → Call) (s : Office I) : Prop where
  one : ∀ i j, s.phase i = .decided → s.phase j = .decided → i = j
  decided : ∀ i, s.phase i = .decided → s.rows.todo.status = decisionOf (calls i).action
  undecided : (∀ i, s.phase i ≠ .decided) → s.rows.todo.status = .todo
  terminate : s.rows.flow.status = .terminated →
    ∀ i, s.phase i = .decided → (calls i).action = .terminate
  terminated : s.rows.flow.status = .terminated → (∀ i, underWay (s.prog i) = false) →
    ∃ i, (calls i).action = .terminate ∧ s.phase i = .decided
  returned : ∀ i, s.prog i = .done .returned →
    s.phase i = .decided ∨ LeavesOpen desk.type (calls i).action
  duplicate : ∀ i outcome, s.prog i = .done outcome →
    (outcome = .duplicate ↔ s.phase i = .refused)

/-- Of calls that load the todo while no other is about to decide it, one at most decides it. -/
theorem decided_once (desk : Desk) (calls : I → Call) {rows : Rows}
    (hopen : rows.todo.status = .todo) (hflow : rows.flow.status ≠ .terminated)
    {es : List (I × Choice)}
    (hrun : Run (Guarded Undisturbed (Steps next)) (opened desk calls rows) es s) :
    DecidedOnce desk calls s := by
  have h := sound_of_run (sound_opened desk calls hopen hflow) hrun
  refine ⟨h.one, h.decided, h.undecided, ?_, ?_, ?_, ?_⟩
  · intro hterminated i hi
    exact h.terminate_of_flow hterminated hi
  · intro hterminated hover
    obtain ⟨i, haction, hi | hi⟩ := h.flow hterminated
    · have hwas := (h.critical_of_revoking hi).2
      rw [hover i] at hwas
      cases hwas
    · exact ⟨i, haction, hi⟩
  · intro i hi
    exact (h.ends hi).returned rfl
  · intro i outcome hi
    exact (h.ends hi).duplicate

end Deciding

section Runs

def pauseDesk : Desk := ⟨.approve, "MYSQL_SINGLE_APPLY", "kim", ["kim", "lee"], []⟩

def replenishDesk : Desk := ⟨.resourceReplenish, "MYSQL_SINGLE_APPLY", "kim", ["kim", "lee"], []⟩

/-- One approves, the other terminates. -/
def twoCalls : Bool → Call
  | false => ⟨"kim", .approve, none⟩
  | true => ⟨"lee", .terminate, none⟩

def openRows : Rows := ⟨⟨.todo, "", none⟩, ⟨.running, none⟩, "", []⟩

/-- All goes well; nothing else is unfinished. -/
def smooth : Choice := ⟨true, some false, none, ⟨.failed, by decide⟩⟩

def turns (i : Bool) (n : Nat) : List (Bool × Choice) := List.replicate n (i, smooth)

def outcomeOf : Act Outcome → Option Outcome
  | .done outcome => some outcome
  | .call _ _ => none

/-- The first call ends before the second loads the todo. -/
def oneAfterTheOther : List (Bool × Choice) := turns false 4 ++ turns true 1

/-- Both have loaded the todo when the first decides. -/
def bothLoaded : List (Bool × Choice) := turns false 1 ++ turns true 1 ++ turns false 3 ++ turns true 5

def Returned (s : Office Bool) (i : Bool) : Prop := outcomeOf (s.prog i) = some .returned

instance (s : Office Bool) (i : Bool) : Decidable (Returned s i) :=
  inferInstanceAs (Decidable (_ = _))

/-- The approval stands and the termination is turned away. -/
theorem decided_once_approved :
    ∃ s, Run (Guarded Undisturbed (Steps next)) (opened pauseDesk twoCalls openRows)
        oneAfterTheOther s ∧
      (Returned s false ∧ outcomeOf (s.prog true) = some .duplicate ∧
        s.rows.todo.status = .doneSuccess) ∧ DecidedOnce pauseDesk twoCalls s := by
  obtain ⟨s, hrun, hs⟩ := exists_guarded_run next Undisturbed (opened pauseDesk twoCalls openRows)
    oneAfterTheOther (fun s => decide (Returned s false ∧
      outcomeOf (s.prog true) = some .duplicate ∧ s.rows.todo.status = .doneSuccess))
    (by decide +kernel)
  exact ⟨s, hrun, of_decide_eq_true hs,
    decided_once pauseDesk twoCalls (by decide) (by decide) hrun⟩

/-- An approval and a termination both return with the todo decided, each having loaded it open; and
an approval without resources returns with the todo left open. -/
theorem two_decide_and_none_decides :
    (∃ s, Run (Steps next) (opened pauseDesk twoCalls openRows) bothLoaded s ∧
      (∀ i, Returned s i ∧ s.phase i = .decided) ∧ s.rows.flow.status = .terminated) ∧
    ∃ s, Run (Guarded Undisturbed (Steps next)) (opened replenishDesk twoCalls openRows)
        (turns false 5) s ∧
      Returned s false ∧ (∀ i, s.phase i ≠ .decided) ∧ s.rows.todo.status = .todo := by
  constructor
  · obtain ⟨s, hrun, hs⟩ := exists_run_of_exec next (opened pauseDesk twoCalls openRows) bothLoaded
      (fun s => decide ((∀ i, Returned s i ∧ s.phase i = .decided) ∧
        s.rows.flow.status = .terminated)) (by decide +kernel)
    exact ⟨s, hrun, of_decide_eq_true hs⟩
  · obtain ⟨s, hrun, hs⟩ := exists_guarded_run next Undisturbed
      (opened replenishDesk twoCalls openRows) (turns false 5)
      (fun s => decide (Returned s false ∧ (∀ i, s.phase i ≠ .decided) ∧
        s.rows.todo.status = .todo)) (by decide +kernel)
    exact ⟨s, hrun, of_decide_eq_true hs⟩

end Runs

end Ticket.Todos
