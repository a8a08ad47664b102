import BluekingDbm.Dispatch.Store

/-! Terminal transitions of one job: finalize, requeue, and the purge of an orphan. -/
namespace Dispatch

open Redis

/-- `FINALIZE_JOB_LUA`: the payload and the dedupe key go whether or not a slot was held. -/
def finalizeJobLua (jobId : String) (key : Option String) (taskKey : String) (ns : Namespace) :
    ℕ × Namespace :=
  let removed := zremReply ns.reserved jobId
  let ns := { ns with reserved := zrem ns.reserved jobId, jobs := delKey ns.jobs jobId }
  let ns := ns.clearDedupe key
  (removed, if removed > 0 then ns.moveCount .reserved taskKey (-1) else ns)

/-- `REQUEUE_JOB_LUA`: a job that lost its slot is not revived. -/
def requeueJobLua (now : ℚ) (jobId : String) (jobSnapshot : DispatchJob) (queueWaitTtl : ℕ)
    (score : ℚ) (taskKey : String) (ns : Namespace) : ℕ × Namespace :=
  let removed := zremReply ns.reserved jobId
  let ns := { ns with reserved := zrem ns.reserved jobId }
  if removed = 0 then (0, ns)
  else
    let ns := { ns with
      jobs := setEx ns.jobs now jobId jobSnapshot queueWaitTtl
      pending := zadd ns.pending score jobId }
    (removed, (ns.moveCount .reserved taskKey (-1)).moveCount .pending taskKey 1)

/-- `PURGE_JOB_LUA`. -/
def purgeJobLua (jobId taskKey : String) (ns : Namespace) : (ℕ × ℕ) × Namespace :=
  let pendingRemoved := zremReply ns.pending jobId
  let reservedRemoved := zremReply ns.reserved jobId
  let ns := { ns with pending := zrem ns.pending jobId, reserved := zrem ns.reserved jobId }
  let ns := if pendingRemoved > 0 then ns.moveCount .pending taskKey (-1) else ns
  let ns := if reservedRemoved > 0 then ns.moveCount .reserved taskKey (-1) else ns
  ((pendingRemoved, reservedRemoved), ns)

/-- The trailing DELs of a discard, outside any script: the payload and the dedupe key. -/
def Namespace.cleanup (ns : Namespace) (jobId : String) (key : Option String) : Namespace :=
  Namespace.clearDedupe { ns with jobs := delKey ns.jobs jobId } key

inductive RequeueResult
  | requeued
  | waitBudgetSpent
  | slotLost
  deriving DecidableEq

/-- `QueueLifecycle.finalize_job`. -/
def finalizeJob (jobId taskKey workItemId : String) (ns : Namespace) : ℕ × Namespace :=
  finalizeJobLua jobId (jobDedupeKey taskKey workItemId) taskKey ns

/-- The job as `requeue` writes it back. -/
def requeuedJob (job : DispatchJob) (readyAt deadline : ℚ) : DispatchJob :=
  { job with readyAt := readyAt, waitDeadlineAt := deadline }

/-- `QueueLifecycle.requeue`, up to the discard of a job whose deadline has passed. -/
def requeue (now : ℚ) (job : DispatchJob) (readyAt : ℚ) (queueWaitTtl : ℤ) (ns : Namespace) :
    RequeueResult × Namespace :=
  match computeWaitDeadline now readyAt queueWaitTtl job.waitDeadlineAt with
  | (_, none) => (.waitBudgetSpent, ns)
  | (deadline, some waitTtl) =>
    let (removed, ns) := requeueJobLua now job.jobId (requeuedJob job readyAt deadline)
      (max 1 waitTtl) readyAt job.taskKey ns
    (if removed = 0 then .slotLost else .requeued, ns)

section Fields

variable {now score : ℚ} {jobId taskKey : String} {key : Option String} {ns : Namespace}
  {jobSnapshot : DispatchJob} {ttl : ℕ}

@[simp] theorem finalizeJobLua_pending :
    (finalizeJobLua jobId key taskKey ns).2.pending = ns.pending := by
  simp only [finalizeJobLua]; split <;> simp

@[simp] theorem finalizeJobLua_reserved :
    (finalizeJobLua jobId key taskKey ns).2.reserved = zrem ns.reserved jobId := by
  simp only [finalizeJobLua]; split <;> simp

@[simp] theorem finalizeJobLua_jobs :
    (finalizeJobLua jobId key taskKey ns).2.jobs = delKey ns.jobs jobId := by
  simp only [finalizeJobLua]; split <;> simp

@[simp] theorem finalizeJobLua_dedupe :
    (finalizeJobLua jobId key taskKey ns).2.dedupe = (ns.clearDedupe key).dedupe := by
  simp only [finalizeJobLua]; split <;> cases key <;> simp [Namespace.clearDedupe]

@[simp] theorem finalizeJobLua_ticks :
    (finalizeJobLua jobId key taskKey ns).2.ticks = ns.ticks := by
  simp only [finalizeJobLua]; split <;> simp

theorem requeueJobLua_of_not_mem (h : jobId ∉ ns.reserved) :
    requeueJobLua now jobId jobSnapshot ttl score taskKey ns = (0, ns) := by
  simp [requeueJobLua, zremReply, h, zrem_of_not_mem h]

theorem requeueJobLua_of_mem (h : jobId ∈ ns.reserved) :
    requeueJobLua now jobId jobSnapshot ttl score taskKey ns =
      (1, (Namespace.moveCount { ns with
        reserved := zrem ns.reserved jobId
        jobs := setEx ns.jobs now jobId jobSnapshot ttl
        pending := zadd ns.pending score jobId } .reserved taskKey (-1)).moveCount
          .pending taskKey 1) := by
  simp [requeueJobLua, zremReply, h]

@[simp] theorem purgeJobLua_pending :
    (purgeJobLua jobId taskKey ns).2.pending = zrem ns.pending jobId := by
  simp only [purgeJobLua]; split <;> split <;> simp

@[simp] theorem purgeJobLua_reserved :
    (purgeJobLua jobId taskKey ns).2.reserved = zrem ns.reserved jobId := by
  simp only [purgeJobLua]; split <;> split <;> simp

@[simp] theorem purgeJobLua_jobs : (purgeJobLua jobId taskKey ns).2.jobs = ns.jobs := by
  simp only [purgeJobLua]; split <;> split <;> simp

@[simp] theorem purgeJobLua_dedupe : (purgeJobLua jobId taskKey ns).2.dedupe = ns.dedupe := by
  simp only [purgeJobLua]; split <;> split <;> simp

@[simp] theorem purgeJobLua_ticks : (purgeJobLua jobId taskKey ns).2.ticks = ns.ticks := by
  simp only [purgeJobLua]; split <;> split <;> simp

@[simp] theorem cleanup_pending : (ns.cleanup jobId key).pending = ns.pending := by
  simp [Namespace.cleanup]

@[simp] theorem cleanup_reserved : (ns.cleanup jobId key).reserved = ns.reserved := by
  simp [Namespace.cleanup]

@[simp] theorem cleanup_jobs : (ns.cleanup jobId key).jobs = delKey ns.jobs jobId := by
  simp [Namespace.cleanup]

@[simp] theorem cleanup_taskCounts : (ns.cleanup jobId key).taskCounts = ns.taskCounts := by
  simp [Namespace.cleanup]

@[simp] theorem cleanup_ticks : (ns.cleanup jobId key).ticks = ns.ticks := by
  simp [Namespace.cleanup]

theorem purgeJobLua_of_not_mem (hp : jobId ∉ ns.pending) (hr : jobId ∉ ns.reserved) :
    purgeJobLua jobId taskKey ns = ((0, 0), ns) := by
  simp [purgeJobLua, zremReply, hp, hr, zrem_of_not_mem]

end Fields

end Dispatch
