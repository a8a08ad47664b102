import BluekingDbm.Ticket.Status

/-! Running, retrying and terminating flows, and keeping the ticket's status up to date. -/
namespace Ticket

open Program

section Handlers

def runStatusHandler (flow : Flow) (flowObjId : String) : Act Flow :=
  saveAs .run flow { flow with flowObjId := flowObjId, status := .running } [.flowObjId, .status]

def FlowErrCode.getErrCode (err : RunErr) (retryType : Option FlowRetryType) : Option FlowErrCode :=
  match err with
  | .exclusive _ =>
    match retryType with
    | some .manualRetry => some .manualExclusiveError
    | some .autoRetry => some .autoExclusiveError
    | none => none
  | _ => some .generalError

/-- A flow that will be retried by itself counts as running. -/
def runErrorStatusHandler (flow : Flow) (err : RunErr) : Act Unit := do
  let errCode := FlowErrCode.getErrCode err flow.retryType
  let flow ← saveAs .runError flow { flow with
    errMsg := some (err.text ++ ", traceback: ")
    errCode := errCode
    status := .failed } [.errCode, .errMsg, .status]
  if errCode = some .autoExclusiveError then
    let _ ← runStatusHandler flow flow.flowObjId
    return ()
  else return ()

def flushErrorStatusHandler (flow : Flow) : Act Flow :=
  saveAs .flushError flow { flow with
    errMsg := none
    errCode := none
    status := .running
    context := ⟨false, none, none⟩ } [.errMsg, .status, .errCode, .context]

/-- The system user terminates what has expired; `expireTime` is the time that was configured. -/
def flushRevokeStatusHandler (flow : Flow) (remark : String) (expireTime : Option ℤ) : Act Flow :=
  saveAs .flushRevoke flow { flow with
    status := .terminated
    errCode := if expireTime.isSome then some .systemTerminatedError else some .generalError
    context := { flow.context with
      remark := some remark
      expireTime := if expireTime.isSome then expireTime else flow.context.expireTime } }
    [.status, .errCode, .context]

/-- `TodoActor.update_context`; without parameters nothing is saved. -/
def updateContext (flow : Flow) (params : Option (Option String)) : Act Flow :=
  match params with
  | none => return flow
  | some remark => saveAs .context flow { flow with
      context := if remark.isSome then { flow.context with remark := remark } else flow.context }
      [.context]

end Handlers

section Running

/-- The `_run` of the classes that keep the `run` of the base class. A timer notes down whether its
time has passed. -/
def plainBody (flow : Flow) : Act (Flow × Except RunErr String) := do
  let result : Except RunErr String ← ask .outcome
  if flow.flowType = .timer ∧ result.isOk then
    let expired : Bool ← ask .triggerExpired
    let flow ← saveAs .details flow
      { flow with details := { flow.details with expiredFlag := some expired } } [.details]
    return (flow, result)
  else return (flow, result)

/-- `BaseTicketFlow.run`; the operation records that it leaves are not part of the rows. -/
def baseRun (flow : Flow) : Act Unit := do
  let acked : Bool ← perform (Op.checkFlowAck flow.id)
  if acked then return ()
  else
    perform (Op.startBody flow.id)
    let (flow, result) ← plainBody flow
    match result with
    | .error err => runErrorStatusHandler flow err
    | .ok flowObjId =>
      let _ ← runStatusHandler flow flowObjId
      return ()

def rootIdOf (flow : Flow) : Act String :=
  if flow.flowObjId ≠ "" then return flow.flowObjId else ask .generateRootId

/-- `InnerFlow._run`, on an object that is loaded again. -/
def taskBody (flow : Flow) : Act Unit := do
  let flow ← perform (Op.getFlow flow.id)
  let result : Except RunErr String ← ask .outcome
  match result with
  | .error err => runErrorStatusHandler flow err
  | .ok _ => return ()

/-- The run of a task: the status first, then the checks and the callback, then the body, which may be
left to a task of its own. -/
def taskRun (asynchronous : Act Bool) (flow : Flow) : Act Unit := do
  let acked : Bool ← perform (Op.checkFlowAck flow.id)
  if acked then return ()
  else
    let rootId ← rootIdOf flow
    let flow ← runStatusHandler flow rootId
    let checked : Except RunErr String ← ask .outcome
    match checked with
    | .error err => runErrorStatusHandler flow err
    | .ok _ =>
      let async ← asynchronous
      perform (Op.startBody flow.id)
      if async then
        perform (Op.applyAsync flow.id)
        let _ ← saveAs .details flow flow [.details]
        return ()
      else taskBody flow

/-- `async_run_flow`. -/
def asyncRunFlow (id : ℕ) : Act Unit := do
  let flow : Flow ← perform (Op.getFlow id)
  taskBody flow

/-- `InnerFlow.run`. -/
def innerRun (flow : Flow) : Act Unit := taskRun (ask .asyncBuild) flow

/-- `SimpleTaskFlow.run`. -/
def simpleTaskRun (flow : Flow) : Act Unit := taskRun (return false) flow

/-- What `ResourceApplyFlow.run` does about an error. -/
def resourceApplyError (flow : Flow) (err : RunErr) : Act Unit :=
  match err with
  | .insufficient text => do
    let _ ← saveAs .lack flow
      { flow with errMsg := some ("资源不足申请失败，请前往补货后重试" ++ text) } [.errMsg]
    return ()
  | .exclusive _ => runErrorStatusHandler flow err
  | .other _ => runErrorStatusHandler flow err

/-- `ResourceApplyFlow._run`: the flow that comes next is given its root id and the machines. -/
def resourceApplyBody (flow : Flow) : Act Unit := do
  let next : Option Flow ← perform Op.nextFlow
  match next with
  | none => resourceApplyError flow (.other "'NoneType' object has no attribute 'flow_type'")
  | some nextFlow =>
    if nextFlow.flowType ≠ .innerFlow then
      resourceApplyError flow (.other "资源申请下一个节点不为部署节点，请重新编排")
    else
      let rootId ← ask .generateRootId
      let nextFlow ← saveAs .whole nextFlow { nextFlow with flowObjId := rootId } allFields
      let applied : Except RunErr String ← ask .outcome
      match applied with
      | .error err => resourceApplyError flow err
      | .ok _ =>
        let _ ← saveAs .details nextFlow nextFlow [.details]
        let flow ← saveAs .details flow
          { flow with details := { flow.details with resourceApplyStatus := true } } [.details]
        let called : Except RunErr String ← ask .outcome
        match called with
        | .error err => resourceApplyError flow err
        | .ok _ => return ()

/-- `ResourceApplyFlow.run`. -/
def resourceApplyRun (flow : Flow) : Act Unit := do
  let acked : Bool ← perform (Op.checkFlowAck flow.id)
  if acked then return ()
  else
    let rootId ← ask .generateRootId
    let flow ← runStatusHandler flow rootId
    perform (Op.startBody flow.id)
    resourceApplyBody flow

/-- The `run` of the class of a flow's type. What some of them call in the end, `run_next_flow`, is a
call of its own. -/
def run (flow : Flow) : Act Unit :=
  match flow.flowType with
  | .bkItsm => baseRun flow
  | .innerFlow => innerRun flow
  | .quickInnerFlow => innerRun flow
  | .ignoreResultInnerFlow => innerRun flow
  | .pause => baseRun flow
  | .delivery => baseRun flow
  | .describeTask => baseRun flow
  | .timer => baseRun flow
  | .resourceApply => resourceApplyRun flow
  | .resourceDelivery => baseRun flow
  | .resourceBatchDelivery => baseRun flow
  | .resourceBatchApply => resourceApplyRun flow
  | .hostRecycle => simpleTaskRun flow
  | .resourceHcmReplenish => simpleTaskRun flow

/-- `BaseTicketFlow._retry`, with the `run` of the class. -/
def retryWith (run : Flow → Act Unit) (flow : Flow) : Act Unit := do
  let flow ← flushErrorStatusHandler flow
  run flow

/-- The `retry` of the class of a flow's type. -/
def retry (flow : Flow) : Act Unit :=
  if flow.flowType = .resourceHcmReplenish then do
    let flow ← saveAs .details flow { flow with flowObjId := "" } [.flowObjId]
    retryWith run flow
  else retryWith run flow

end Running

/-- `Ticket.current_flow`. -/
def currentFlow : Act (Option Flow) := do
  let any : Bool ← perform Op.anyStarted
  if any then perform Op.lastStarted else perform Op.nextFlow

/-- Without a current flow its id cannot be asked for, and an error is raised. -/
def runNextFlow : Act Unit := do
  let next : Option Flow ← perform Op.nextFlow
  let current ← currentFlow
  match next with
  | none => return ()
  | some nextFlow =>
    let first : Option Flow ← perform Op.firstFlow
    let isInitFlow : Bool := decide (first.map Flow.id = some nextFlow.id)
    match current with
    | none => return ()
    | some currentFlow =>
      if currentFlow.id ≥ nextFlow.id ∧ isInitFlow = false then return ()
      else
        let currentFlowStatus ← status currentFlow
        if isInitFlow = true ∨ currentFlowStatus ∈ flowFinishedStatus then run nextFlow
        else return ()

section Ticket

def readStatuses : List Flow → Act (List (Flow × TicketFlowStatus))
  | [] => return []
  | flow :: flows => do
    let flowStatus ← status flow
    let rest ← readStatuses flows
    return (flow, flowStatus) :: rest

/-- What the statuses come to; of several running flows the one listed last counts. -/
def targetStatus (seen : List (Flow × TicketFlowStatus)) : Option TicketStatus :=
  let statuses := seen.map Prod.snd
  if .terminated ∈ statuses then some .terminated
  else if .failed ∈ statuses then some .failed
  else if .revoked ∈ statuses then some .revoked
  else if .running ∈ statuses then
    (seen.reverse.find? fun e => decide (e.2 = .running)).map fun e =>
      runningFlowTicketStatus e.1.flowType
  else if ∀ flowStatus ∈ statuses, flowStatus ∈ flowFinishedStatus then some .succeeded
  else none

def updateTicketStatus : Act Unit := do
  let flows : List Flow ← perform Op.listFlows
  let seen ← readStatuses flows
  match targetStatus seen with
  | none => perform (Op.leaveTicket seen)
  | some target => perform (Op.writeTicket seen target)

end Ticket

/-- What workers are asked to do. Each loads the flow that it is about before it does anything else. -/
inductive Call
  | runNextFlow
  | run (id : ℕ)
  | retry (id : ℕ)
  | retryExclusiveInnerFlow (id : ℕ)
  | confirmTodo (id : ℕ) (params : Option (Option String))
  | terminateTodo (id : ℕ) (params : Option (Option String))
  | revoke (id : ℕ) (remark : String) (expireTime : Option ℤ)
  | readStatus (id : ℕ)
  | addRelatedTicket (done : Bool)
  | updateTicketStatus

def Call.act : Call → Act Unit
  | .runNextFlow => Ticket.runNextFlow
  | .run id => do
    let flow : Flow ← perform (Op.getFlow id)
    Ticket.run flow
  | .retry id => do
    let flow : Flow ← perform (Op.getFlow id)
    Ticket.retry flow
  | .retryExclusiveInnerFlow id => do
    let flow : Flow ← perform (Op.getFlow id)
    if flow.errCode = some .autoExclusiveError then retryWith innerRun flow else return ()
  | .confirmTodo id params => do
    let flow : Flow ← perform (Op.getFlow id)
    let flow ← updateContext flow params
    Ticket.retry flow
  | .terminateTodo id params => do
    let flow : Flow ← perform (Op.getFlow id)
    let flow ← updateContext flow params
    let _ ← updateStatus .flushRevoke flow .terminated
    return ()
  | .revoke id remark expireTime => do
    let flow : Flow ← perform (Op.getFlow id)
    let _ ← flushRevokeStatusHandler flow remark expireTime
    return ()
  | .readStatus id => do
    let flow : Flow ← perform (Op.getFlow id)
    let _ ← status flow
    return ()
  | .addRelatedTicket done => perform (Op.createFlow done)
  | .updateTicketStatus => Ticket.updateTicketStatus

/-- The workers of a ticket. -/
abbrev Office := Crew Res Database

/-- A save of a row starts an update of the ticket's status, and a task is started for a body that is
left to it. -/
def follow : (o : Op) → Res o → List (Act Unit)
  | .applyAsync id, _ => [asyncRunFlow id]
  | o, r => if savesFlow o r then [updateTicketStatus] else []

theorem follow_cases {o : Op} {r : Res o} {p : Act Unit} (hp : p ∈ follow o r) :
    (∃ id, o = .applyAsync id ∧ p = asyncRunFlow id) ∨ p = updateTicketStatus := by
  unfold follow at hp
  split at hp
  · exact .inl ⟨_, rfl, List.mem_singleton.mp hp⟩
  · split at hp
    · exact .inr (List.mem_singleton.mp hp)
    · cases hp

abbrev Event := Program.Event Call ((o : Op) → Res o)

def next (s : Office) (e : Event) : Option Office := s.next Call.act serve follow e

/-- Answers to run on: the listing, and what is said of all that is not in the rows. -/
def answering (listing : List Flow) (say : (q : Query) → Answer q) : (o : Op) → Res o
  | .listFlows => listing
  | .nextFlow => none
  | .anyStarted => false
  | .lastStarted => none
  | .firstFlow => none
  | .getFlow _ => newFlow [] false
  | .checkFlowAck _ => false
  | .startBody _ => ()
  | .applyAsync _ => ()
  | .save .. => ()
  | .createFlow _ => ()
  | .ask q => say q
  | .writeTicket .. => ()
  | .leaveTicket _ => ()

/-- Nothing is unfinished, and what a flow's own code comes to is `result`. -/
def saying (tree : Option StateType) (result : Except RunErr String) : (q : Query) → Answer q
  | .todoUnfinished => false
  | .lackUnfinished => false
  | .flowTree _ => tree
  | .ticketApprovalResult _ => (.running, false)
  | .triggerLater => false
  | .triggerExpired => false
  | .generateRootId => "root"
  | .countReached => false
  | .asyncBuild => false
  | .outcome => result

/-- `n` operations of a worker in a row. -/
def turns (worker n : ℕ) (answers : (o : Op) → Res o) : List Event :=
  List.replicate n (.turn worker answers)

/-- Nobody has done anything yet. -/
structure Fresh (s : Office) : Prop where
  procs : s.procs = []
  door : s.store.door = []
  trace : s.store.trace = []

end Ticket
