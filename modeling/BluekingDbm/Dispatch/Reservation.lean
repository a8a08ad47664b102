import BluekingDbm.Dispatch.Store

/-! Reservation: the atomic script that moves ready jobs into concurrency slots under the reserved
ceiling and the tick budget. -/
namespace Dispatch

open Redis

inductive ReservationStatus
  | reserved
  | missing
  | capacityFull
  | tickBudgetExhausted
  | unavailable
  deriving DecidableEq

/-- What the script is passed for one job. -/
structure ReserveEntry where
  jobId : String
  dedupeKey : Option String
  jobSnapshot : DispatchJob
  reservedRecordTtl : ℕ
  taskKey : String

/-- The variables of the script's loop. -/
structure ReserveLoop where
  ns : Namespace
  reservedCount : ℕ
  used : ℕ
  newlyReserved : ℕ
  statuses : List ReservationStatus

def ReserveLoop.finish (loop : ReserveLoop) (status : ReservationStatus) : ReserveLoop :=
  { loop with statuses := loop.statuses ++ [status] }

/-- EXPIRE of a dedupe key that was passed. -/
def Namespace.renewDedupe (ns : Namespace) (now : ℚ) (key : Option String) (ttl : ℕ) : Namespace :=
  match key with
  | some k => { ns with dedupe := expireKey ns.dedupe now k ttl }
  | none => ns

/-- The writes of the script for one reserved job. -/
def Namespace.promote (ns : Namespace) (now : ℚ) (entry : ReserveEntry) : Namespace :=
  let ns := { ns with
    pending := zrem ns.pending entry.jobId
    reserved := zadd ns.reserved now entry.jobId
    jobs := setEx ns.jobs now entry.jobId entry.jobSnapshot entry.reservedRecordTtl }
  let ns := ns.renewDedupe now entry.dedupeKey entry.reservedRecordTtl
  let ns := ns.moveCount .pending entry.taskKey (-1)
  ns.moveCount .reserved entry.taskKey 1

def ReserveLoop.promote (loop : ReserveLoop) (now : ℚ) (entry : ReserveEntry) : ReserveLoop where
  ns := loop.ns.promote now entry
  reservedCount := loop.reservedCount + 1
  used := loop.used + 1
  newlyReserved := loop.newlyReserved + 1
  statuses := loop.statuses ++ [.reserved]

def reserveOne (now : ℚ) (maxReserved tickBudget : ℕ) (loop : ReserveLoop) (entry : ReserveEntry) :
    ReserveLoop :=
  if entry.jobId ∉ loop.ns.pending then loop.finish .missing
  else if maxReserved ≤ loop.reservedCount then loop.finish .capacityFull
  else if tickBudget ≤ loop.used then loop.finish .tickBudgetExhausted
  else loop.promote now entry

def Namespace.tickUsed (ns : Namespace) (now : ℚ) (tickId : ℤ) : ℕ :=
  (getKey ns.ticks now tickId).getD 0

def reserveLoop (now : ℚ) (maxReserved tickBudget : ℕ) (tickId : ℤ) (entries : List ReserveEntry)
    (ns : Namespace) : ReserveLoop :=
  entries.foldl (reserveOne now maxReserved tickBudget)
    { ns, reservedCount := zcard ns.reserved, used := ns.tickUsed now tickId, newlyReserved := 0,
      statuses := [] }

/-- `PUMP_INTERVAL_SECONDS * 6`. -/
def tickCounterTtlSeconds : ℕ := 10 * 6

/-- `RESERVE_JOB_LUA`. -/
def reserveJobLua (now : ℚ) (maxReserved tickBudget : ℕ) (tickId : ℤ) (entries : List ReserveEntry)
    (ns : Namespace) : List ReservationStatus × Namespace :=
  let loop := reserveLoop now maxReserved tickBudget tickId entries ns
  (loop.statuses,
    if loop.newlyReserved > 0 then
      { loop.ns with ticks := setEx loop.ns.ticks now tickId loop.used tickCounterTtlSeconds }
    else loop.ns)

def reserveEntry (job : DispatchJob) (reservedRecordTtl : ℤ) : ReserveEntry where
  jobId := job.jobId
  dedupeKey := jobDedupeKey job.taskKey job.workItemId
  jobSnapshot := { job with waitDeadlineAt := 0 }
  reservedRecordTtl := (max 1 reservedRecordTtl).toNat
  taskKey := job.taskKey

/-- `QueueReservation.reserve_jobs`, the script succeeding. -/
def reserveJobs (now : ℚ) (jobs : List DispatchJob) (maxReserved : ℤ)
    (reservedRecordTtls : List ℤ) (tickId tickBudget : ℤ) (ns : Namespace) :
    Except String (List ReservationStatus × Namespace) :=
  if jobs.isEmpty then .ok ([], ns)
  else if jobs.length ≠ reservedRecordTtls.length then
    .error "jobs and reserved_record_ttls must have the same length"
  else if dispatchLuaBatchSize < jobs.length then
    .error "reservation chunk cannot exceed 25 jobs"
  else
    .ok (reserveJobLua now (max 1 maxReserved).toNat (max 1 tickBudget).toNat tickId
      ((jobs.zip reservedRecordTtls).map fun (job, ttl) => reserveEntry job ttl) ns)

section Loop

variable {now : ℚ} {maxReserved tickBudget : ℕ} {tickId : ℤ} {loop next : ReserveLoop}
  {entry : ReserveEntry} {entries : List ReserveEntry} {ns : Namespace} {key : Option String}
  {ttl : ℕ}

@[simp] theorem renewDedupe_pending : (ns.renewDedupe now key ttl).pending = ns.pending := by
  cases key <;> rfl

@[simp] theorem renewDedupe_reserved : (ns.renewDedupe now key ttl).reserved = ns.reserved := by
  cases key <;> rfl

@[simp] theorem renewDedupe_jobs : (ns.renewDedupe now key ttl).jobs = ns.jobs := by
  cases key <;> rfl

@[simp] theorem renewDedupe_taskCounts :
    (ns.renewDedupe now key ttl).taskCounts = ns.taskCounts := by
  cases key <;> rfl

@[simp] theorem renewDedupe_ticks : (ns.renewDedupe now key ttl).ticks = ns.ticks := by
  cases key <;> rfl

theorem promote_pending : (ns.promote now entry).pending = zrem ns.pending entry.jobId := by
  simp [Namespace.promote]

theorem promote_reserved : (ns.promote now entry).reserved = zadd ns.reserved now entry.jobId := by
  simp [Namespace.promote]

theorem promote_jobs : (ns.promote now entry).jobs =
    setEx ns.jobs now entry.jobId entry.jobSnapshot entry.reservedRecordTtl := by
  simp [Namespace.promote]

theorem promote_ticks : (ns.promote now entry).ticks = ns.ticks := by
  simp [Namespace.promote]

/-- What one turn of the loop can do: leave the queue alone, or move a pending job into a slot
behind both ceilings. -/
theorem reserveOne_cases (h : reserveOne now maxReserved tickBudget loop entry = next) :
    (∃ status, status ≠ .reserved ∧ next = loop.finish status) ∨
    (entry.jobId ∈ loop.ns.pending ∧ loop.reservedCount < maxReserved ∧ loop.used < tickBudget ∧
      next = loop.promote now entry) := by
  subst h
  unfold reserveOne
  split
  · exact .inl ⟨.missing, by simp, rfl⟩
  · split
    · exact .inl ⟨.capacityFull, by simp, rfl⟩
    · split
      · exact .inl ⟨.tickBudgetExhausted, by simp, rfl⟩
      · rename_i hm hr ht
        exact .inr ⟨not_not.mp hm, by omega, by omega, rfl⟩

/-- A property of the loop variables survives the loop when refusing and promoting keep it. -/
theorem reserveLoop_induction {P : ReserveLoop → Prop}
    (hinit : P ⟨ns, zcard ns.reserved, ns.tickUsed now tickId, 0, []⟩)
    (hfinish : ∀ loop status, status ≠ .reserved → P loop → P (loop.finish status))
    (hpromote : ∀ loop, ∀ entry ∈ entries, entry.jobId ∈ loop.ns.pending →
      loop.reservedCount < maxReserved → loop.used < tickBudget → P loop →
      P (loop.promote now entry)) :
    P (reserveLoop now maxReserved tickBudget tickId entries ns) := by
  refine List.foldlRecOn entries _ hinit fun loop hloop entry hentry => ?_
  rcases reserveOne_cases rfl with ⟨status, hs, he⟩ | ⟨hp, hr, hu, he⟩
  · rw [he]
    exact hfinish loop status hs hloop
  · rw [he]
    exact hpromote loop entry hentry hp hr hu hloop

section Fields

@[simp] theorem reserveJobLua_pending :
    (reserveJobLua now maxReserved tickBudget tickId entries ns).2.pending =
      (reserveLoop now maxReserved tickBudget tickId entries ns).ns.pending := by
  simp only [reserveJobLua]; split <;> rfl

@[simp] theorem reserveJobLua_reserved :
    (reserveJobLua now maxReserved tickBudget tickId entries ns).2.reserved =
      (reserveLoop now maxReserved tickBudget tickId entries ns).ns.reserved := by
  simp only [reserveJobLua]; split <;> rfl

@[simp] theorem reserveJobLua_jobs :
    (reserveJobLua now maxReserved tickBudget tickId entries ns).2.jobs =
      (reserveLoop now maxReserved tickBudget tickId entries ns).ns.jobs := by
  simp only [reserveJobLua]; split <;> rfl

@[simp] theorem reserveJobLua_dedupe :
    (reserveJobLua now maxReserved tickBudget tickId entries ns).2.dedupe =
      (reserveLoop now maxReserved tickBudget tickId entries ns).ns.dedupe := by
  simp only [reserveJobLua]; split <;> rfl

@[simp] theorem reserveJobLua_taskCounts :
    (reserveJobLua now maxReserved tickBudget tickId entries ns).2.taskCounts =
      (reserveLoop now maxReserved tickBudget tickId entries ns).ns.taskCounts := by
  simp only [reserveJobLua]; split <;> rfl

end Fields

end Loop

end Dispatch
