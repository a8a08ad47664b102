import BluekingDbm.Library.Loop
import BluekingDbm.Dispatch.Store

/-! Admission: the atomic script that lets a batch of jobs in, and the call that prepares it. -/
namespace Dispatch

open Redis

inductive EnqueueStatus
  | accepted
  | duplicate
  | capacityRejected
  | deadlineExpired
  | producerPaused
  | unavailable
  deriving DecidableEq

/-- What the script is passed for one job. -/
structure EnqueueEntry where
  jobId : String
  dedupeKey : Option String
  score : ℚ
  jobSnapshot : DispatchJob
  pendingRecordTtl : ℕ

/-- The variables of the script's loop. -/
structure EnqueueLoop where
  ns : Namespace
  admitted : ℕ
  acceptedCount : ℕ
  statuses : List EnqueueStatus

def EnqueueLoop.finish (loop : EnqueueLoop) (status : EnqueueStatus) : EnqueueLoop :=
  { loop with statuses := loop.statuses ++ [status] }

/-- Already known to the queue: pending, reserved, or an active dedupe key. -/
def Namespace.holdsIdentity (ns : Namespace) (now : ℚ) (entry : EnqueueEntry) : Bool :=
  entry.jobId ∈ ns.pending || entry.jobId ∈ ns.reserved ||
    match entry.dedupeKey with
    | some key => existsKey ns.dedupe now key
    | none => false

/-- SET NX of the dedupe key; `none` where the key was taken. -/
def Namespace.claimDedupe (ns : Namespace) (now : ℚ) (checkDedupe : Bool) (entry : EnqueueEntry) :
    Option Namespace :=
  match checkDedupe, entry.dedupeKey with
  | true, some key =>
    (setNxEx ns.dedupe now key entry.jobId entry.pendingRecordTtl).map fun dedupe =>
      { ns with dedupe := dedupe }
  | _, _ => some ns

/-- SET of the payload and ZADD to pending. -/
def Namespace.enter (ns : Namespace) (now : ℚ) (entry : EnqueueEntry) : Namespace :=
  { ns with
    jobs := setEx ns.jobs now entry.jobId entry.jobSnapshot entry.pendingRecordTtl
    pending := zadd ns.pending entry.score entry.jobId }

def EnqueueLoop.accept (loop : EnqueueLoop) (now : ℚ) (claimed : Namespace) (entry : EnqueueEntry) :
    EnqueueLoop where
  ns := claimed.enter now entry
  admitted := loop.admitted + 1
  acceptedCount := loop.acceptedCount + 1
  statuses := loop.statuses ++ [.accepted]

def enqueueOne (now : ℚ) (maxAdmitted : ℕ) (checkDedupe producerPaused : Bool) (loop : EnqueueLoop)
    (entry : EnqueueEntry) : EnqueueLoop :=
  if producerPaused then loop.finish .producerPaused
  else if checkDedupe && loop.ns.holdsIdentity now entry then loop.finish .duplicate
  else if maxAdmitted ≤ loop.admitted then loop.finish .capacityRejected
  else
    match loop.ns.claimDedupe now checkDedupe entry with
    | none => loop.finish .duplicate
    | some claimed => loop.accept now claimed entry

/-- The gate is read once; the sizes are read once and then counted along. -/
def enqueueLoop (now : ℚ) (maxAdmitted : ℕ) (checkDedupe : Bool) (entries : List EnqueueEntry)
    (ns : Namespace) : EnqueueLoop :=
  entries.foldl (enqueueOne now maxAdmitted checkDedupe ns.producerGate)
    { ns, admitted := zcard ns.pending + zcard ns.reserved, acceptedCount := 0, statuses := [] }

/-- `ENQUEUE_JOBS_LUA`. -/
def enqueueJobsLua (now : ℚ) (maxAdmitted : ℕ) (checkDedupe : Bool) (taskKey : String)
    (entries : List EnqueueEntry) (ns : Namespace) : List EnqueueStatus × Namespace :=
  let loop := enqueueLoop now maxAdmitted checkDedupe entries ns
  (loop.statuses,
    if loop.acceptedCount > 0 then loop.ns.moveCount .pending taskKey loop.acceptedCount
    else loop.ns)

/-- A job with its deadline resolved and the TTL of its records; `none` where nothing is left of
its wait budget. -/
def prepareJob (now : ℚ) (job : DispatchJob) (queueWaitTtl : ℤ) : Option (DispatchJob × ℕ) :=
  match computeWaitDeadline now job.readyAt queueWaitTtl job.waitDeadlineAt with
  | (deadline, some ttl) => some ({ job with waitDeadlineAt := deadline }, ttl)
  | (_, none) => none

def enqueueEntry (dedupeEnqueue : Bool) (prepared : DispatchJob × ℕ) : EnqueueEntry where
  jobId := prepared.1.jobId
  dedupeKey := if dedupeEnqueue then jobDedupeKey prepared.1.taskKey prepared.1.workItemId else none
  score := prepared.1.readyAt
  jobSnapshot := prepared.1
  pendingRecordTtl := prepared.2

/-- The replies of the script, put back at the jobs it was called for. -/
def placeStatuses : List (Option (DispatchJob × ℕ)) → List EnqueueStatus → List EnqueueStatus
  | [], _ => []
  | none :: jobs, results => .deadlineExpired :: placeStatuses jobs results
  | some _ :: jobs, [] => .unavailable :: placeStatuses jobs []
  | some _ :: jobs, result :: results => result :: placeStatuses jobs results

/-- `QueueAdmission.enqueue_jobs`, the script succeeding. -/
def enqueueJobs (now : ℚ) (jobs : List DispatchJob) (dedupeEnqueue : Bool)
    (queueWaitTtls : List ℤ) (maxAdmittedJobs : ℤ) (ns : Namespace) :
    Except String (List EnqueueStatus × Namespace) :=
  match jobs with
  | [] => .ok ([], ns)
  | first :: _ =>
    if jobs.length ≠ queueWaitTtls.length then
      .error "jobs and queue_wait_ttls must have the same length"
    else if dispatchLuaBatchSize < jobs.length then
      .error "admission batch cannot exceed 25 jobs"
    else if jobs.any (fun job => job.taskKey ≠ first.taskKey) then
      .error "all jobs in an admission batch must share one task_key"
    else
      let prepared := (jobs.zip queueWaitTtls).map fun (job, ttl) => prepareJob now job ttl
      let entries := (prepared.filterMap id).map (enqueueEntry dedupeEnqueue)
      if entries.isEmpty then .ok (placeStatuses prepared [], ns)
      else
        let (results, ns) := enqueueJobsLua now (max 1 maxAdmittedJobs).toNat dedupeEnqueue
          first.taskKey entries ns
        .ok (placeStatuses prepared results, ns)

section Loop

variable {now : ℚ} {maxAdmitted : ℕ} {checkDedupe paused : Bool} {loop next : EnqueueLoop}
  {entry : EnqueueEntry} {entries : List EnqueueEntry} {ns claimed : Namespace}

/-- Claiming a dedupe key touches nothing else. -/
theorem claimDedupe_frame (h : ns.claimDedupe now checkDedupe entry = some claimed) :
    claimed = { ns with dedupe := claimed.dedupe } ∧
      ∀ k, entry.dedupeKey ≠ some k → claimed.dedupe k = ns.dedupe k := by
  unfold Namespace.claimDedupe at h
  split at h
  · rename_i key hkey
    obtain ⟨dedupe, hd, rfl⟩ := Option.map_eq_some_iff.mp h
    refine ⟨rfl, fun k hk => ?_⟩
    simp only [setNxEx, Option.ite_none_left_eq_some, Option.some.injEq] at hd
    obtain ⟨-, rfl⟩ := hd
    exact setEx_ne fun he => hk (by rw [hkey, he])
  · cases h
    exact ⟨rfl, fun _ _ => rfl⟩

/-- What one turn of the loop can do: reject, or accept behind all the guards. -/
theorem enqueueOne_cases
    (h : enqueueOne now maxAdmitted checkDedupe paused loop entry = next) :
    (∃ status, status ≠ .accepted ∧ next = loop.finish status) ∨
    ∃ claimed, loop.ns.claimDedupe now checkDedupe entry = some claimed ∧ paused = false ∧
      (checkDedupe = true → loop.ns.holdsIdentity now entry = false) ∧
      loop.admitted < maxAdmitted ∧ next = loop.accept now claimed entry := by
  subst h
  unfold enqueueOne
  split
  · exact .inl ⟨.producerPaused, by simp, rfl⟩
  · split
    · exact .inl ⟨.duplicate, by simp, rfl⟩
    · split
      · exact .inl ⟨.capacityRejected, by simp, rfl⟩
      · split
        · exact .inl ⟨.duplicate, by simp, rfl⟩
        · rename_i hp hi hm _ claimed hc
          refine .inr ⟨claimed, hc, by simpa using hp, ?_, by omega, rfl⟩
          intro hd
          simpa [hd] using hi

/-- A property of the entries seen so far and of the loop variables survives the loop when
rejecting and accepting keep it. -/
theorem enqueueLoop_prefix {P : List EnqueueEntry → EnqueueLoop → Prop}
    (hinit : P [] ⟨ns, zcard ns.pending + zcard ns.reserved, 0, []⟩)
    (hfinish : ∀ done entry rest loop status, entries = done ++ entry :: rest →
      status ≠ .accepted →
      enqueueOne now maxAdmitted checkDedupe ns.producerGate loop entry = loop.finish status →
      P done loop → P (done ++ [entry]) (loop.finish status))
    (haccept : ∀ done entry rest loop claimed, entries = done ++ entry :: rest →
      loop.ns.claimDedupe now checkDedupe entry = some claimed → ns.producerGate = false →
      (checkDedupe = true → loop.ns.holdsIdentity now entry = false) →
      loop.admitted < maxAdmitted → P done loop →
      P (done ++ [entry]) (loop.accept now claimed entry)) :
    P entries (enqueueLoop now maxAdmitted checkDedupe entries ns) := by
  refine Loop.foldl_prefix hinit fun done entry rest loop hentries hloop => ?_
  rcases enqueueOne_cases rfl with ⟨status, hs, he⟩ | ⟨claimed, hc, hp, hi, hm, he⟩
  · rw [he]
    exact hfinish done entry rest loop status hentries hs he hloop
  · rw [he]
    exact haccept done entry rest loop claimed hentries hc hp hi hm hloop

/-- The same rule for a property of the loop variables alone. -/
theorem enqueueLoop_induction {P : EnqueueLoop → Prop}
    (hinit : P ⟨ns, zcard ns.pending + zcard ns.reserved, 0, []⟩)
    (hfinish : ∀ loop status, status ≠ .accepted → P loop → P (loop.finish status))
    (haccept : ∀ loop claimed, ∀ entry ∈ entries,
      loop.ns.claimDedupe now checkDedupe entry = some claimed → ns.producerGate = false →
      (checkDedupe = true → loop.ns.holdsIdentity now entry = false) →
      loop.admitted < maxAdmitted → P loop → P (loop.accept now claimed entry)) :
    P (enqueueLoop now maxAdmitted checkDedupe entries ns) := by
  refine enqueueLoop_prefix (P := fun _ => P) hinit ?_ ?_
  · exact fun _ _ _ loop status _ hs _ hl => hfinish loop status hs hl
  · intro done entry rest loop claimed hentries hc hp hi hm hl
    exact haccept loop claimed entry (by simp [hentries]) hc hp hi hm hl

section Fields

variable {taskKey : String}

@[simp] theorem enqueueJobsLua_pending :
    (enqueueJobsLua now maxAdmitted checkDedupe taskKey entries ns).2.pending =
      (enqueueLoop now maxAdmitted checkDedupe entries ns).ns.pending := by
  simp only [enqueueJobsLua]; split <;> rfl

@[simp] theorem enqueueJobsLua_reserved :
    (enqueueJobsLua now maxAdmitted checkDedupe taskKey entries ns).2.reserved =
      (enqueueLoop now maxAdmitted checkDedupe entries ns).ns.reserved := by
  simp only [enqueueJobsLua]; split <;> rfl

@[simp] theorem enqueueJobsLua_jobs :
    (enqueueJobsLua now maxAdmitted checkDedupe taskKey entries ns).2.jobs =
      (enqueueLoop now maxAdmitted checkDedupe entries ns).ns.jobs := by
  simp only [enqueueJobsLua]; split <;> rfl

@[simp] theorem enqueueJobsLua_dedupe :
    (enqueueJobsLua now maxAdmitted checkDedupe taskKey entries ns).2.dedupe =
      (enqueueLoop now maxAdmitted checkDedupe entries ns).ns.dedupe := by
  simp only [enqueueJobsLua]; split <;> rfl

@[simp] theorem enqueueJobsLua_ticks :
    (enqueueJobsLua now maxAdmitted checkDedupe taskKey entries ns).2.ticks =
      (enqueueLoop now maxAdmitted checkDedupe entries ns).ns.ticks := by
  simp only [enqueueJobsLua]; split <;> rfl

theorem enqueueJobsLua_statuses :
    (enqueueJobsLua now maxAdmitted checkDedupe taskKey entries ns).1 =
      (enqueueLoop now maxAdmitted checkDedupe entries ns).statuses := rfl

end Fields

theorem not_mem_of_holdsIdentity (h : ns.holdsIdentity now entry = false) :
    entry.jobId ∉ ns.pending ∧ entry.jobId ∉ ns.reserved := by
  simp only [Namespace.holdsIdentity, Bool.or_eq_false_iff, decide_eq_false_iff_not] at h
  exact h.1

end Loop

end Dispatch
