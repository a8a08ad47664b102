import BluekingDbm.Ticket.Database

/-! How a flow's status is asked for. Asking may store what was found out. -/
namespace Ticket

open Program

def ask (q : Query) : Act (Answer q) := perform (Op.ask q)

def saveAs (origin : Origin) (held flow : Flow) (updateFields : List Field) : Act Flow := do
  perform (Op.save origin held flow updateFields)
  return flow

/-- `Flow.update_status`. -/
def updateStatus (origin : Origin) (flow : Flow) (status : TicketFlowStatus) : Act TicketFlowStatus :=
  if flow.status ≠ status then do
    let _ ← saveAs origin flow { flow with status := status } [.status]
    return status
  else return status

/-- `InnerFlow._status`; the task's todo that it keeps in step is not part of the rows. -/
def innerStatus (flow : Flow) : Act TicketFlowStatus :=
  if flow.hasErrMsg ∧ flow.errCode = some .autoExclusiveError then return .running
  else do
    let flowTree ← ask (.flowTree flow.flowObjId)
    match flowTree with
    | none => updateStatus .getter flow flow.status
    | some state => updateStatus .getter flow (bambooStateTicketState state)

/-- `QuickInnerFlow._status`. -/
def quickInnerStatus : Act TicketFlowStatus := return .succeeded

/-- `IgnoreResultInnerFlow._status`. -/
def ignoreResultInnerStatus (flow : Flow) : Act TicketFlowStatus := do
  let status ← innerStatus flow
  if status ∈ [.failed, .succeeded, .revoked, .terminated] then return .succeeded
  else return status

/-- `HCMReplenishResourceTaskFlow._status`. -/
def hcmReplenishStatus (flow : Flow) : Act TicketFlowStatus := do
  let flowTree ← ask (.flowTree flow.flowObjId)
  match flowTree with
  | none => return flow.status
  | some state =>
    if bambooStateTicketState state ≠ .succeeded then
      updateStatus .getter flow (bambooStateTicketState state)
    else
      let reached : Bool ← ask .countReached
      if reached then
        if flow.status ≠ .succeeded then
          let _ ← saveAs .getter flow { flow with status := .succeeded } allFields
          return .succeeded
        else return .succeeded
      else
        -- fewer hosts than were ordered: the error stays in the object unless the status changes
        if flow.status ≠ .failed then
          let _ ← saveAs .getter flow { flow with
            status := .failed
            errMsg := some "海磊资源申请不足"
            errCode := some .hcmApplyLackResourceError } allFields
          return .failed
        else return .failed

/-- `PauseFlow._status`. -/
def pauseStatus (flow : Flow) : Act TicketFlowStatus := do
  let unfinished : Bool ← ask .todoUnfinished
  if unfinished then updateStatus .getter flow .running
  else updateStatus .getter flow .succeeded

/-- Only an expired timer waits for its todo. -/
def overdue (expired : Bool) : Act Bool :=
  if expired then ask .todoUnfinished else return false

/-- `TimerFlow._status`. -/
def timerStatus (flow : Flow) : Act TicketFlowStatus :=
  match flow.details.expiredFlag with
  | none => return .pending
  | some expired => do
    let unfinished ← overdue expired
    if unfinished then updateStatus .getter flow .running
    else
      let later : Bool ← ask .triggerLater
      if later then updateStatus .getter flow .running
      else updateStatus .getter flow .succeeded

/-- `DeliveryFlow._status`. -/
def deliveryStatus (flow : Flow) : Act TicketFlowStatus := updateStatus .getter flow .succeeded

/-- `ItsmFlow._status`. -/
def itsmStatus (flow : Flow) : Act TicketFlowStatus := do
  let result ← ask (.ticketApprovalResult flow.flowObjId)
  match result with
  | (.running, _) => updateStatus .getter flow .running
  | (.revoked, _) => updateStatus .getter flow .terminated
  | (.finished, true) => updateStatus .getter flow .succeeded
  | (.finished, false) => updateStatus .getter flow .terminated
  | (.terminated, _) => updateStatus .getter flow .terminated

/-- `ResourceApplyFlow._status`. -/
def resourceApplyStatus (flow : Flow) : Act TicketFlowStatus :=
  if flow.flowObjId = "" then updateStatus .getter flow .pending
  else if flow.details.resourceApplyStatus then updateStatus .getter flow .succeeded
  else if flow.hasErrMsg then do
    let lacking : Bool ← ask .lackUnfinished
    if lacking then updateStatus .getter flow .running
    else return flow.status
  else updateStatus .getter flow .running

/-- The `_status` of the class of a flow's type. -/
def ownStatus (flow : Flow) : Act TicketFlowStatus :=
  match flow.flowType with
  | .bkItsm => itsmStatus flow
  | .innerFlow => innerStatus flow
  | .quickInnerFlow => quickInnerStatus
  | .ignoreResultInnerFlow => ignoreResultInnerStatus flow
  | .pause => pauseStatus flow
  | .delivery => deliveryStatus flow
  | .describeTask => deliveryStatus flow
  | .timer => timerStatus flow
  | .resourceApply => resourceApplyStatus flow
  | .resourceDelivery => deliveryStatus flow
  | .resourceBatchDelivery => deliveryStatus flow
  | .resourceBatchApply => resourceApplyStatus flow
  | .hostRecycle => innerStatus flow
  | .resourceHcmReplenish => hcmReplenishStatus flow

/-- The types whose class has a status of its own instead of the guarded one. -/
def isResourceApply (flow : Flow) : Bool :=
  decide (flow.flowType = .resourceApply ∨ flow.flowType = .resourceBatchApply)

/-- `BaseTicketFlow.status`. -/
def baseStatus (flow : Flow) : Act TicketFlowStatus :=
  if flow.status ∈ flowFinishedStatus then return flow.status
  else if flow.status ∈ [.revoked, .terminated] then return flow.status
  else if flow.hasErrMsg then
    if flow.flowType ∈ flowTaskTypes then ownStatus flow
    else return .failed
  else if flow.status ∈ [.running, .failed] then ownStatus flow
  else return .pending

def status (flow : Flow) : Act TicketFlowStatus :=
  if isResourceApply flow then resourceApplyStatus flow else baseStatus flow

end Ticket
