import Mathlib.Algebra.Order.Floor.Ring
import Mathlib.Data.Rat.Floor
import BluekingDbm.Library.Redis

/-! The dispatch job record, its deterministic id and queue-wait deadline, and the Redis keys of one dispatch
namespace. The count hash carries no TTL of its own here, and the metrics keys are left out: no decision
reads them. -/
namespace Dispatch

/-- The stored payload. `workItemData`, a JSON object, is kept as its text. -/
structure DispatchJob where
  jobId : String
  taskKey : String
  ns : String := ""
  workItemId : String := ""
  workItemData : String := ""
  payloadJson : String := ""
  configJson : String := ""
  retryCount : ℤ := 0
  createdAt : ℚ := 0
  readyAt : ℚ := 0
  waitDeadlineAt : ℚ := 0
  deriving DecidableEq

/-- How many jobs one admission or reservation call may touch. -/
def dispatchLuaBatchSize : ℕ := 25

def buildJobId (taskKey workItemId : String) : String := taskKey ++ ":" ++ workItemId

/-- The deadline and the TTL that is left of the wait budget; no TTL where the deadline has
passed. A `waitDeadlineAt` of 0 is unset and starts the budget. -/
def computeWaitDeadline (now readyAt : ℚ) (waitTtl : ℤ) (waitDeadlineAt : ℚ) : ℚ × Option ℕ :=
  let waitTtl := max 1 waitTtl
  if waitDeadlineAt = 0 then
    let deadline := max now readyAt + waitTtl
    (deadline, some ⌈deadline - now⌉.toNat)
  else
    let ttl := min waitTtl ⌈waitDeadlineAt - now⌉
    if ttl < 1 then (waitDeadlineAt, none) else (waitDeadlineAt, some ttl.toNat)

def startsWith (text start : String) : Bool := start.toList.isPrefixOf text.toList

/-- Longest-prefix match against the registered task keys; the empty string for no match. -/
def resolveTaskKeyFromJobId (jobId : String) (registered : List String) : String :=
  registered.foldl
    (fun matched taskKey =>
      if startsWith jobId (taskKey ++ ":") && matched.length < taskKey.length then taskKey
      else matched) ""

def workItemIdFromJobId (jobId taskKey : String) : String :=
  let start := taskKey ++ ":"
  if taskKey ≠ "" ∧ startsWith jobId start then String.ofList (jobId.toList.drop start.length)
  else ""

section Deadline

variable {now readyAt deadline wait : ℚ} {waitTtl : ℤ} {n : ℕ}

theorem computeWaitDeadline_ttl_pos
    (h : (computeWaitDeadline now readyAt waitTtl wait).2 = some n) : 1 ≤ n := by
  unfold computeWaitDeadline at h
  split at h
  · have hpos : (0 : ℚ) < max now readyAt + (max 1 waitTtl : ℤ) - now := by
      have h1 : (1 : ℚ) ≤ ((max 1 waitTtl : ℤ) : ℚ) := by exact_mod_cast le_max_left 1 waitTtl
      have h2 := le_max_left now readyAt
      linarith
    have := Int.ceil_pos.mpr hpos
    simp only [Option.some.injEq] at h
    omega
  · simp only at h
    split at h
    · simp at h
    · simp only [Option.some.injEq] at h
      omega

/-- A budget that starts now is covered by its TTL. -/
theorem computeWaitDeadline_covered
    (h : computeWaitDeadline now readyAt waitTtl 0 = (deadline, some n)) : deadline ≤ now + n := by
  simp only [computeWaitDeadline, if_true, Prod.mk.injEq, Option.some.injEq] at h
  obtain ⟨rfl, rfl⟩ := h
  have hc := Int.le_ceil (max now readyAt + (max 1 waitTtl : ℤ) - now)
  have hn := Int.self_le_toNat ⌈max now readyAt + (max 1 waitTtl : ℤ) - now⌉
  have : ((⌈max now readyAt + (max 1 waitTtl : ℤ) - now⌉ : ℤ) : ℚ) ≤
      (⌈max now readyAt + (max 1 waitTtl : ℤ) - now⌉.toNat : ℕ) := by exact_mod_cast hn
  linarith

end Deadline

open Redis

/-- A field of the `task_counts` hash. -/
inductive CountField
  | pending (taskKey : String)
  | reserved (taskKey : String)
  deriving DecidableEq

/-- `jobs` is indexed by job id and `dedupe` by the part of the key after `dispatch:{ns}:dedupe:`;
`ticks` holds the tick counters and `producerGate` says whether the gate key exists. -/
structure Namespace where
  pending : SortedSet String
  reserved : SortedSet String
  jobs : Keyspace String DispatchJob
  dedupe : Keyspace String String
  taskCounts : Counters CountField
  ticks : Keyspace ℤ ℕ
  producerGate : Bool

def Namespace.empty : Namespace where
  pending := ∅
  reserved := ∅
  jobs := fun _ => none
  dedupe := fun _ => none
  taskCounts := fun _ => none
  ticks := fun _ => none
  producerGate := false

variable {ns : Namespace} {now : ℚ} {key : Option String} {n : ℤ} {taskKey jobId : String}
  {field : String → CountField}

def dedupeKey (taskKey workItemId : String) : String := taskKey ++ ":" ++ workItemId

/-- The dedupe key of a job, absent where the job has no task key or no work item id. -/
def jobDedupeKey (taskKey workItemId : String) : Option String :=
  if taskKey ≠ "" ∧ workItemId ≠ "" then some (dedupeKey taskKey workItemId) else none

def Namespace.getJob (ns : Namespace) (now : ℚ) (jobId : String) : Option DispatchJob :=
  getKey ns.jobs now jobId

/-- DEL of a dedupe key that was passed. -/
def Namespace.clearDedupe (ns : Namespace) (key : Option String) : Namespace :=
  match key with
  | some k => { ns with dedupe := delKey ns.dedupe k }
  | none => ns

/-- One move of a derived count; without a task key there is nothing to count. -/
def moveField (counts : Counters CountField) (field : String → CountField) (taskKey : String)
    (n : ℤ) : Counters CountField :=
  if taskKey = "" then counts else hincrbyPrune counts (field taskKey) n

def Namespace.moveCount (ns : Namespace) (field : String → CountField) (taskKey : String) (n : ℤ) :
    Namespace :=
  { ns with taskCounts := moveField ns.taskCounts field taskKey n }

/-- No job holds a slot while it waits. -/
def Namespace.Disjoint (ns : Namespace) : Prop := ∀ id, id ∈ ns.pending → id ∉ ns.reserved

section Fields

@[simp] theorem clearDedupe_pending : (ns.clearDedupe key).pending = ns.pending := by
  cases key <;> rfl

@[simp] theorem clearDedupe_reserved : (ns.clearDedupe key).reserved = ns.reserved := by
  cases key <;> rfl

@[simp] theorem clearDedupe_jobs : (ns.clearDedupe key).jobs = ns.jobs := by
  cases key <;> rfl

@[simp] theorem clearDedupe_taskCounts : (ns.clearDedupe key).taskCounts = ns.taskCounts := by
  cases key <;> rfl

@[simp] theorem clearDedupe_ticks : (ns.clearDedupe key).ticks = ns.ticks := by
  cases key <;> rfl

@[simp] theorem moveCount_pending : (ns.moveCount field taskKey n).pending = ns.pending := rfl

@[simp] theorem moveCount_reserved : (ns.moveCount field taskKey n).reserved = ns.reserved := rfl

@[simp] theorem moveCount_jobs : (ns.moveCount field taskKey n).jobs = ns.jobs := rfl

@[simp] theorem moveCount_dedupe : (ns.moveCount field taskKey n).dedupe = ns.dedupe := rfl

@[simp] theorem moveCount_ticks : (ns.moveCount field taskKey n).ticks = ns.ticks := rfl

@[simp] theorem moveCount_taskCounts :
    (ns.moveCount field taskKey n).taskCounts = moveField ns.taskCounts field taskKey n := rfl

theorem moveField_ne {counts : Counters CountField} {f : CountField} (h : f ≠ field taskKey) :
    moveField counts field taskKey n f = counts f := by
  unfold moveField
  split
  · rfl
  · exact hincrbyPrune_ne h n

end Fields

end Dispatch
