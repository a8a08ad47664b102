import BluekingDbm.Dispatch.Hydration

/-! One tick of the pump on one queue, with nobody else writing to it: orphans are reaped, the ready
jobs are peeked, hydrated, reserved in chunks and published. -/
namespace Dispatch

open Redis

/-- What a tick meets: its limits, the lives of the records, the ids that the reaper scans, which
calls raise, what the deadline leaves out, and what the clock reads. -/
structure PumpEnv where
  registry : Registry
  queue : String
  maxReserved : ℤ
  tickId : ℤ
  tickBudget : ℤ
  reservedRecordTtl : DispatchJob → ℤ
  queueWaitTtl : DispatchJob → ℤ
  scanned : List String
  mgetRaises : Bool
  evalRaises : ℕ → Bool
  publishRaises : ℕ → ℕ → Bool
  missed : Bool
  late : ℕ → Bool
  reapAt : ℚ
  peekAt : ℚ
  hydrateAt : ℚ
  reserveAt : ℕ → ℚ
  requeueAt : ℕ → ℚ

/-- The order of a sorted set: by score, then by member. -/
def precedes (a b : Sigma fun _ : String => ℚ) : Bool := a.2 < b.2 ∨ a.2 = b.2 ∧ a.1 ≤ b.1

/-- All of ZRANGEBYSCORE from `-inf` to a score. -/
def zrangebyscore (z : SortedSet String) (high : ℚ) : List String :=
  ((z.entries.filter (·.2 ≤ high)).mergeSort precedes).map Sigma.fst

/-- `DispatchQueue.peek_ready`. -/
def peekReady (ns : Namespace) (now : ℚ) (limit : ℕ) : List String :=
  (zrangebyscore ns.pending now).take (max 1 limit)

/-- `QueueLifecycle.requeue`, with the discard of a job whose deadline has passed. -/
def requeueOrDiscard (env : Registry) (now : ℚ) (queue : String) (job : DispatchJob) (readyAt : ℚ)
    (queueWaitTtl : ℤ) (fleet : Fleet) : Fleet :=
  match requeue now job readyAt queueWaitTtl (fleet queue) with
  | (.waitBudgetSpent, _) =>
    discardOrphanedJob env now queue job.jobId job.taskKey job.ns "" fleet
  | (_, ns) => Function.update fleet queue ns

/-- `_requeue_reserved_tail`, behind the index that the tail begins at. -/
def requeueReservedTail (env : PumpEnv) : ℕ → List (DispatchJob × ReservationStatus) → Fleet → Fleet
  | _, [], fleet => fleet
  | index, (job, status) :: tail, fleet =>
    requeueReservedTail env (index + 1) tail
      (if status = .reserved then
        requeueOrDiscard env.registry (env.requeueAt index) env.queue job job.readyAt
          (env.queueWaitTtl job) fleet
      else fleet)

/-- What the loop over one chunk comes to: the ids it publishes, and from where on it gave up. -/
structure Publishing where
  published : List String
  failed : Option (ℕ × List (DispatchJob × ReservationStatus))

def publish (raises : ℕ → Bool) : ℕ → List (DispatchJob × ReservationStatus) → Publishing
  | _, [] => ⟨[], none⟩
  | index, (job, status) :: rest =>
    if status ≠ .reserved then publish raises (index + 1) rest
    else if raises index then ⟨[], some (index, (job, status) :: rest)⟩
    else
      let later := publish raises (index + 1) rest
      { later with published := job.jobId :: later.published }

/-- Backpressure or a dead EVAL. -/
def blocks (status : ReservationStatus) : Bool := status ≠ .missing ∧ status ≠ .reserved

/-- The reservation of a chunk; where the EVAL raised, nothing is known of its jobs. -/
def PumpEnv.reserve (env : PumpEnv) (k : ℕ) (chunk : List DispatchJob) (ns : Namespace) :
    List ReservationStatus × Namespace :=
  if env.evalRaises k then (chunk.map fun _ => .unavailable, ns)
  else
    reserveJobLua (env.reserveAt k) (max 1 env.maxReserved).toNat (max 1 env.tickBudget).toNat
      env.tickId (chunk.map fun job => reserveEntry job (env.reservedRecordTtl job)) ns

/-- The queues, and the ids published so far. -/
structure PumpRun where
  fleet : Fleet
  published : List String

/-- The chunks from one on, as many as are left. -/
def reserveChunks (env : PumpEnv) : (left k : ℕ) → List DispatchJob → PumpRun → PumpRun
  | 0, _, _, run => run
  | left + 1, k, jobs, run =>
    if env.late k then run
    else
      let chunk := jobs.take dispatchLuaBatchSize
      let reply := env.reserve k chunk (run.fleet env.queue)
      let fleet := Function.update run.fleet env.queue reply.2
      let pairs := chunk.zip reply.1
      let loop := publish (env.publishRaises k) 0 pairs
      match loop.failed with
      | some (index, tail) =>
        ⟨requeueReservedTail env index tail fleet, run.published ++ loop.published⟩
      | none =>
        if reply.1.any blocks then ⟨fleet, run.published ++ loop.published⟩
        else
          reserveChunks env left (k + 1) (jobs.drop dispatchLuaBatchSize)
            ⟨fleet, run.published ++ loop.published⟩

/-- `_reserve_and_publish`. -/
def reserveAndPublish (env : PumpEnv) (jobs : List DispatchJob) (fleet : Fleet) : PumpRun :=
  reserveChunks env ((jobs.length + dispatchLuaBatchSize - 1) / dispatchLuaBatchSize) 0 jobs
    ⟨fleet, []⟩

/-- `OrphanReaper.reap_orphaned_queue_jobs`. -/
def reapOrphanedQueueJobs (env : PumpEnv) (fleet : Fleet) : Fleet :=
  env.scanned.foldl (fun fleet jobId =>
    if ((fleet env.queue).getJob env.reapAt jobId).isSome then fleet
    else
      let taskKey := resolveTaskKeyFromJobId jobId env.registry.registered
      discardOrphanedJob env.registry env.reapAt env.queue jobId taskKey env.queue
        (workItemIdFromJobId jobId taskKey) fleet) fleet

/-- `_pump_queue`, with the budget that was decided on. -/
def pumpQueue (env : PumpEnv) (fleet : Fleet) : PumpRun :=
  if env.missed then ⟨fleet, []⟩
  else
    let fleet := reapOrphanedQueueJobs env fleet
    let jobIds := peekReady (fleet env.queue) env.peekAt (max 10 (env.tickBudget * 3)).toNat
    if env.tickBudget ≤ 0 ∨ jobIds = [] then ⟨fleet, []⟩
    else
      let hydration := hydrateAndDropStale env.registry env.hydrateAt env.queue jobIds
        env.tickBudget.toNat env.mgetRaises fleet
      reserveAndPublish env hydration.1.1 hydration.2

section Order

variable {z : SortedSet String} {high : ℚ} {id : String}

theorem precedes_trans (a b c : Sigma fun _ : String => ℚ) (hab : precedes a b = true)
    (hbc : precedes b c = true) : precedes a c = true := by
  unfold precedes at *
  rw [decide_eq_true_eq] at *
  rcases hab with hab | ⟨hab, hle⟩
  · rcases hbc with hbc | ⟨hbc, -⟩
    · exact Or.inl (hab.trans hbc)
    · exact Or.inl (hbc ▸ hab)
  · rcases hbc with hbc | ⟨hbc, hle'⟩
    · exact Or.inl (hab ▸ hbc)
    · exact Or.inr ⟨hab.trans hbc, String.le_trans hle hle'⟩

theorem precedes_total (a b : Sigma fun _ : String => ℚ) : (precedes a b || precedes b a) = true := by
  unfold precedes
  rw [Bool.or_eq_true, decide_eq_true_eq, decide_eq_true_eq]
  rcases lt_trichotomy a.2 b.2 with hlt | heq | hgt
  · exact Or.inl (Or.inl hlt)
  · rcases String.le_total a.1 b.1 with hle | hle
    · exact Or.inl (Or.inr ⟨heq, hle⟩)
    · exact Or.inr (Or.inr ⟨heq.symm, hle⟩)
  · exact Or.inr (Or.inl hgt)

/-- What is ready is pending with a score that is not above the bound. -/
theorem mem_zrangebyscore :
    id ∈ zrangebyscore z high ↔ ∃ score, zscore z id = some score ∧ score ≤ high := by
  unfold zrangebyscore zscore
  rw [List.mem_map]
  constructor
  · rintro ⟨⟨key, score⟩, hmem, rfl⟩
    obtain ⟨hin, hle⟩ := List.mem_filter.mp ((List.mergeSort_perm _ _).mem_iff.mp hmem)
    exact ⟨score, AList.mem_lookup_iff.mpr hin, of_decide_eq_true hle⟩
  · rintro ⟨score, hlookup, hle⟩
    refine ⟨⟨id, score⟩, (List.mergeSort_perm _ _).mem_iff.mpr (List.mem_filter.mpr ⟨?_, ?_⟩), rfl⟩
    · exact AList.mem_lookup_iff.mp hlookup
    · exact decide_eq_true hle

theorem nodup_zrangebyscore : (zrangebyscore z high).Nodup := by
  unfold zrangebyscore
  have hperm := (List.mergeSort_perm (z.entries.filter (·.2 ≤ high)) precedes).map Sigma.fst
  rw [hperm.nodup_iff]
  exact (List.filter_sublist.map Sigma.fst).nodup z.keys_nodup

end Order

/-- The jobs that a reservation put into slots. -/
def reservedJobs (pairs : List (DispatchJob × ReservationStatus)) : List DispatchJob :=
  pairs.filterMap fun p => if p.2 = .reserved then some p.1 else none

def reservedIds (pairs : List (DispatchJob × ReservationStatus)) : List String :=
  (reservedJobs pairs).map DispatchJob.jobId

/-- One job is where it was: pending with the same score or not, in a slot or not, and with the same
payload. -/
structure Same (id : String) (before after : Namespace) : Prop where
  pending : zscore after.pending id = zscore before.pending id
  reserved : id ∈ after.reserved ↔ id ∈ before.reserved
  jobs : after.jobs id = before.jobs id

/-- The jobs `ids` were pending and are in slots. -/
structure Promoted (ids : List String) (before after : Namespace) : Prop where
  nodup : ids.Nodup
  waited : ∀ id ∈ ids, id ∈ before.pending
  promoted : ∀ id ∈ ids, id ∉ after.pending ∧ id ∈ after.reserved
  same : ∀ id, id ∉ ids → Same id before after

section Chunk

variable {env : PumpEnv} {k index : ℕ} {now : ℚ} {ns before between after : Namespace}
  {chunk : List DispatchJob} {pairs tail : List (DispatchJob × ReservationStatus)}
  {raises : ℕ → Bool} {id : String} {entry : ReserveEntry} {ids : List String}

theorem Same.refl (id : String) (ns : Namespace) : Same id ns ns := ⟨rfl, Iff.rfl, rfl⟩

theorem Same.trans (h : Same id before between) (h' : Same id between after) : Same id before after :=
  ⟨h'.pending.trans h.pending, h'.reserved.trans h.reserved, h'.jobs.trans h.jobs⟩

theorem Same.mem_pending (h : Same id before after) : id ∈ after.pending ↔ id ∈ before.pending := by
  rw [← zscore_isSome, ← zscore_isSome, h.pending]

theorem zscore_zrem_ne {z : SortedSet String} {a b : String} (h : b ≠ a) :
    zscore (zrem z a) b = zscore z b := AList.lookup_erase_ne h

theorem same_promote (h : id ≠ entry.jobId) : Same id ns (ns.promote now entry) := by
  constructor
  · rw [promote_pending, zscore_zrem_ne h]
  · rw [promote_reserved, mem_zadd]
    exact or_iff_right h
  · rw [promote_jobs, setEx_ne h]

/-- A discard harms no other job. -/
theorem same_wipe {jobId : String} {plan : DiscardPlan} (h : id ≠ jobId) :
    Same id ns (ns.wipe jobId plan) := by
  constructor
  · simp [Namespace.wipe, zscore_zrem_ne h]
  · simp [Namespace.wipe, h]
  · simp [Namespace.wipe, delKey_ne h]

theorem same_discard {registry : Registry} {queue jobId taskKey target workItemId n : String}
    {fleet : Fleet} (h : id ≠ jobId) : Same id (fleet n)
      (discardOrphanedJob registry now queue jobId taskKey target workItemId fleet n) := by
  rw [discardOrphanedJob_apply]
  split
  · exact same_wipe h
  · exact Same.refl id _

/-- A discard for a known queue. -/
theorem discard_target {registry : Registry} {queue jobId taskKey target workItemId : String}
    {fleet : Fleet} (h : target ≠ "") :
    discardOrphanedJob registry now queue jobId taskKey target workItemId fleet target =
      (fleet target).wipe jobId
        (discardPlan registry ((fleet queue).getJob now jobId) jobId taskKey target workItemId) := by
  have htarget : (discardPlan registry ((fleet queue).getJob now jobId) jobId taskKey target
      workItemId).target = target := discardPlan_target h
  rw [discardOrphanedJob_apply, if_pos]
  unfold DiscardPlan.Reaches
  rw [htarget, if_pos h]

/-- A pending job that gets a slot joins those that have got one. -/
theorem Promoted.snoc (h : Promoted ids before between) (hid : entry.jobId ∈ between.pending) :
    Promoted (ids ++ [entry.jobId]) before (between.promote now entry) := by
  have hnew : entry.jobId ∉ ids := fun hin => (h.promoted _ hin).1 hid
  constructor
  · exact List.nodup_append.mpr ⟨h.nodup, List.nodup_singleton _, fun a ha b hb hab =>
      hnew (List.mem_singleton.mp hb ▸ hab ▸ ha)⟩
  · intro id hin
    rcases List.mem_append.mp hin with hold | hlast
    · exact h.waited id hold
    · rw [List.mem_singleton.mp hlast]
      exact (h.same _ hnew).mem_pending.mp hid
  · intro id hin
    by_cases hlast : id = entry.jobId
    · subst hlast
      rw [promote_pending, promote_reserved, mem_zrem, mem_zadd]
      exact ⟨fun hmem => hmem.1 rfl, Or.inl rfl⟩
    · have hold : id ∈ ids := by
        rcases List.mem_append.mp hin with hold | hmem
        · exact hold
        · exact absurd (List.mem_singleton.mp hmem) hlast
      obtain ⟨hpending, hreserved⟩ := h.promoted id hold
      have hsame : Same id between (between.promote now entry) := same_promote hlast
      exact ⟨fun hmem => hpending (hsame.mem_pending.mp hmem), hsame.reserved.mpr hreserved⟩
  · intro id hin
    have hnot : id ∉ ids ∧ id ≠ entry.jobId := by simpa using hin
    exact (h.same id hnot.1).trans (same_promote hnot.2)

/-- The slots that a run of the reservation script fills. -/
theorem promoted_reserveJobLua (now : ℚ) (maxReserved tickBudget : ℕ) (tickId : ℤ)
    (chunk : List DispatchJob) (entryOf : DispatchJob → ReserveEntry)
    (hid : ∀ job, (entryOf job).jobId = job.jobId) (ns : Namespace) :
    let reply := reserveJobLua now maxReserved tickBudget tickId (chunk.map entryOf) ns
    reply.1.length = chunk.length ∧ Promoted (reservedIds (chunk.zip reply.1)) ns reply.2 := by
  have hloop : let loop := reserveLoop now maxReserved tickBudget tickId (chunk.map entryOf) ns
      loop.statuses.length = chunk.length ∧
        Promoted (reservedIds (chunk.zip loop.statuses)) ns loop.ns := by
    unfold reserveLoop
    rw [List.foldl_map]
    refine Loop.foldl_prefix (P := fun done (loop : ReserveLoop) =>
      loop.statuses.length = done.length ∧
        Promoted (reservedIds (done.zip loop.statuses)) ns loop.ns) ?_ ?_
    · exact ⟨rfl, List.nodup_nil, by simp [reservedIds, reservedJobs],
        by simp [reservedIds, reservedJobs], fun id _ => Same.refl id ns⟩
    · rintro done job rest loop - ⟨hlength, hpromoted⟩
      have hids : ∀ status, reservedIds ((done ++ [job]).zip (loop.statuses ++ [status])) =
          reservedIds (done.zip loop.statuses) ++ if status = .reserved then [job.jobId] else [] := by
        intro status
        rw [List.zip_append hlength.symm, reservedIds, reservedJobs, List.filterMap_append,
          List.map_append]
        split <;> simp_all [reservedIds, reservedJobs]
      rcases reserveOne_cases rfl with ⟨status, hstatus, hnext⟩ | ⟨hpending, -, -, hnext⟩
      · rw [hnext]
        refine ⟨by simp [ReserveLoop.finish, hlength], ?_⟩
        have hsame := hids status
        rw [if_neg hstatus, List.append_nil] at hsame
        exact hsame ▸ hpromoted
      · rw [hnext]
        refine ⟨by simp [ReserveLoop.promote, hlength], ?_⟩
        have hmore := hids .reserved
        rw [if_pos rfl, ← hid job] at hmore
        exact hmore ▸ hpromoted.snoc hpending
  refine ⟨hloop.1, ?_⟩
  obtain ⟨hnodup, hwaited, hpromoted, hsame⟩ := hloop.2
  refine ⟨hnodup, hwaited, ?_, ?_⟩
  · intro id hin
    rw [reserveJobLua_pending, reserveJobLua_reserved]
    exact hpromoted id hin
  · intro id hin
    obtain ⟨hp, hr, hj⟩ := hsame id hin
    constructor
    · rw [reserveJobLua_pending, hp]
    · rw [reserveJobLua_reserved, hr]
    · rw [reserveJobLua_jobs, hj]

theorem reservedIds_unavailable (chunk : List DispatchJob) :
    reservedIds (chunk.zip (chunk.map fun _ => ReservationStatus.unavailable)) = [] := by
  induction chunk with
  | nil => rfl
  | cons job chunk ih => simpa [reservedIds, reservedJobs] using ih

/-- The slots that the reservation of a chunk fills. -/
theorem promoted_reserve (env : PumpEnv) (k : ℕ) (chunk : List DispatchJob) (ns : Namespace) :
    (env.reserve k chunk ns).1.length = chunk.length ∧
      Promoted (reservedIds (chunk.zip (env.reserve k chunk ns).1)) ns (env.reserve k chunk ns).2 := by
  unfold PumpEnv.reserve
  split
  · dsimp only
    rw [reservedIds_unavailable]
    exact ⟨by simp, List.nodup_nil, by simp, by simp, fun id _ => Same.refl id ns⟩
  · exact promoted_reserveJobLua _ _ _ _ _ _ (fun _ => rfl) ns

/-- The loop publishes what is reserved up to the tail that it gives back. -/
theorem publish_spec :
    reservedIds pairs = (publish raises index pairs).published ++
      ((publish raises index pairs).failed.elim [] fun failed => reservedIds failed.2) ∧
    ∀ failed, (publish raises index pairs).failed = some failed → failed.2 <:+ pairs := by
  induction pairs generalizing index with
  | nil => exact ⟨rfl, fun failed hnone => by cases hnone⟩
  | cons pair pairs ih =>
    obtain ⟨job, status⟩ := pair
    obtain ⟨hsplit, htail⟩ := @ih (index + 1)
    unfold publish
    split
    · rename_i hstatus
      refine ⟨?_, fun failed hfailed => (htail failed hfailed).trans (List.suffix_cons _ _)⟩
      rw [← hsplit]
      simp [reservedIds, reservedJobs, hstatus]
    · rename_i hstatus
      obtain rfl := not_not.mp hstatus
      split
      · refine ⟨rfl, fun failed hfailed => ?_⟩
        obtain rfl := Option.some.inj hfailed
        exact List.suffix_refl _
      · refine ⟨?_, fun failed hfailed => (htail failed hfailed).trans (List.suffix_cons _ _)⟩
        rw [List.cons_append, ← hsplit]
        simp [reservedIds, reservedJobs]

end Chunk

end Dispatch
