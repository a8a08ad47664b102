import Mathlib.Data.Int.Basic
import Mathlib.Data.List.Basic

/-! The flows of a ticket: their rows in the database, and the objects that are loaded from them. -/
namespace Ticket

inductive FlowType
  | bkItsm
  | innerFlow
  | quickInnerFlow
  | ignoreResultInnerFlow
  | pause
  | delivery
  | describeTask
  | timer
  | resourceApply
  | resourceDelivery
  | resourceBatchDelivery
  | resourceBatchApply
  | hostRecycle
  | resourceHcmReplenish
deriving DecidableEq

inductive TicketFlowStatus
  | pending
  | running
  | succeeded
  | terminated
  | failed
  | revoked
  | skipped
deriving DecidableEq

inductive TicketStatus
  | pending
  | approve
  | resourceReplenish
  | todo
  | timer
  | running
  | succeeded
  | failed
  | revoked
  | terminated
deriving DecidableEq

inductive FlowErrCode
  | generalError
  | autoExclusiveError
  | manualExclusiveError
  | systemTerminatedError
  | hcmApplyLackResourceError
deriving DecidableEq

inductive FlowRetryType
  | manualRetry
  | autoRetry
deriving DecidableEq

def flowFinishedStatus : List TicketFlowStatus := [.skipped, .succeeded]

def flowTaskTypes : List FlowType := [.innerFlow, .hostRecycle, .resourceHcmReplenish]

/-- `RUNNING_FLOW__TICKET_STATUS`, with its default. -/
def runningFlowTicketStatus : FlowType → TicketStatus
  | .bkItsm => .approve
  | .resourceApply => .resourceReplenish
  | .resourceBatchApply => .resourceReplenish
  | .pause => .todo
  | .innerFlow => .running
  | .timer => .timer
  | _ => .running

/-- The states of a bamboo pipeline that are told apart. -/
inductive StateType
  | finished
  | failed
  | revoked
  | running
deriving DecidableEq

/-- `BAMBOO_STATE__TICKET_STATE_MAP`. -/
def bambooStateTicketState : StateType → TicketFlowStatus
  | .finished => .succeeded
  | .failed => .failed
  | .revoked => .terminated
  | .running => .running

/-- The entries of the context column; `ack` is false where it is missing. -/
structure Context where
  ack : Bool
  remark : Option String
  expireTime : Option ℤ
deriving DecidableEq

/-- The entries of the details column that the flow manager goes by. -/
structure Details where
  resourceApplyStatus : Bool
  expiredFlag : Option Bool
deriving DecidableEq

structure Flow where
  id : ℕ
  flowType : FlowType
  flowObjId : String
  details : Details
  status : TicketFlowStatus
  errMsg : Option String
  errCode : Option FlowErrCode
  retryType : Option FlowRetryType
  context : Context
deriving DecidableEq

/-- An error message that says something. -/
def Flow.hasErrMsg (flow : Flow) : Bool :=
  match flow.errMsg with
  | none => false
  | some msg => decide (msg ≠ "")

/-- The columns that a save may name. -/
inductive Field
  | flowObjId
  | details
  | status
  | errMsg
  | errCode
  | context
deriving DecidableEq

/-- `flow.save()` without `update_fields`. -/
def allFields : List Field := [.flowObjId, .details, .status, .errMsg, .errCode, .context]

/-- What a save of `flow` makes of a row. -/
def Flow.store (row flow : Flow) (updateFields : List Field) : Flow where
  id := row.id
  flowType := row.flowType
  flowObjId := if .flowObjId ∈ updateFields then flow.flowObjId else row.flowObjId
  details := if .details ∈ updateFields then flow.details else row.details
  status := if .status ∈ updateFields then flow.status else row.status
  errMsg := if .errMsg ∈ updateFields then flow.errMsg else row.errMsg
  errCode := if .errCode ∈ updateFields then flow.errCode else row.errCode
  retryType := row.retryType
  context := if .context ∈ updateFields then flow.context else row.context

end Ticket
