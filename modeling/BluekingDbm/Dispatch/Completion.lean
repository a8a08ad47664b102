import BluekingDbm.Dispatch.Scripts

/-! Workers against the queue. Ids are deterministic, so successive admissions of one work item share
every key, and a worker that outlived its reservation meets the keys of a later admission. -/
namespace Dispatch

open Redis Transition

/-- A worker between reading the payload and finalizing: the reservation it was sent for, and its
copy of the job. -/
structure Worker where
  grant : ℕ
  jobId : String
  job : DispatchJob
  deriving DecidableEq

/-- The queue, the messages not yet delivered and the running workers. `steps` numbers the events,
`slot` remembers the event that reserved each held slot, and `deadline` the wait deadline with which
each job last entered pending. -/
structure CompletionState where
  now : ℚ
  ns : Namespace
  steps : ℕ
  messages : List (ℕ × String)
  workers : List Worker
  slot : String → Option ℕ
  deadline : String → ℚ

def CompletionState.initial (now : ℚ) : CompletionState :=
  ⟨now, .empty, 0, [], [], fun _ => none, fun _ => 0⟩

/-- `deletePayload` and `deleteDedupe` are the trailing DELs of a discard, one command each. -/
inductive CompletionEvent
  | enqueue (jobs : List DispatchJob) (queueWaitTtls : List ℤ) (maxAdmittedJobs : ℤ)
  | reserve (jobs : List DispatchJob) (maxReserved : ℤ) (reservedRecordTtls : List ℤ)
      (tickId tickBudget : ℤ)
  | start (grant : ℕ) (jobId : String)
  | requeue (worker : Worker) (readyAt : ℚ) (queueWaitTtl : ℤ)
  | finalize (worker : Worker)
  | purge (jobId taskKey : String)
  | deletePayload (jobId : String)
  | deleteDedupe (key : String)
  | elapse (seconds : ℚ)

/-- The ids that came into a slot. -/
def newlyReserved (before after : Namespace) : List String :=
  after.reserved.keys.filter fun id => id ∉ before.reserved

/-- The state after the keys have become `ns`: a message goes out for every slot just taken. -/
def CompletionState.track (s : CompletionState) (ns : Namespace) : CompletionState :=
  { s with
    ns
    steps := s.steps + 1
    messages := s.messages ++ (newlyReserved s.ns ns).map fun id => (s.steps, id)
    slot := fun id =>
      if id ∈ ns.reserved then if id ∈ s.ns.reserved then s.slot id else some s.steps else none
    deadline := fun id =>
      if id ∈ ns.pending ∧ id ∉ s.ns.pending then
        (ns.jobs id).elim 0 fun entry => entry.value.waitDeadlineAt
      else s.deadline id }

/-- The copy with which a failed attempt is put back. -/
def Worker.attempt (worker : Worker) : DispatchJob :=
  { worker.job with retryCount := worker.job.retryCount + 1 }

/-- The FINALIZE call at the end of `execute_job`. -/
def Worker.finalize (worker : Worker) (ns : Namespace) : Namespace :=
  (finalizeJob worker.jobId worker.job.taskKey worker.job.workItemId ns).2

def CompletionState.next (s : CompletionState) : CompletionEvent → Option CompletionState
  | .enqueue jobs queueWaitTtls maxAdmittedJobs =>
    -- `submit` builds its jobs with the deadline unset
    if jobs.all fun job => job.waitDeadlineAt = 0 then
      match enqueueJobs s.now jobs true queueWaitTtls maxAdmittedJobs s.ns with
      | .ok (_, ns) => some (s.track ns)
      | .error _ => none
    else none
  | .reserve jobs maxReserved reservedRecordTtls tickId tickBudget =>
    match reserveJobs s.now jobs maxReserved reservedRecordTtls tickId tickBudget s.ns with
    | .ok (_, ns) => some (s.track ns)
    | .error _ => none
  | .start grant jobId =>
    if (grant, jobId) ∈ s.messages then
      let s := { s with messages := s.messages.erase (grant, jobId) }
      match s.ns.getJob s.now jobId with
      | some job => some { s with workers := ⟨grant, jobId, job⟩ :: s.workers }
      | none => some s
    else none
  | .requeue worker readyAt queueWaitTtl =>
    if worker ∈ s.workers then
      match requeue s.now worker.attempt readyAt queueWaitTtl s.ns with
      | (.requeued, ns) => some { s.track ns with workers := s.workers.erase worker }
      | _ => some s
    else none
  | .finalize worker =>
    if worker ∈ s.workers then
      some { s.track (worker.finalize s.ns) with workers := s.workers.erase worker }
    else none
  | .purge jobId taskKey => some (s.track (purgeJobLua jobId taskKey s.ns).2)
  | .deletePayload jobId => some (s.track { s.ns with jobs := delKey s.ns.jobs jobId })
  | .deleteDedupe key => some (s.track { s.ns with dedupe := delKey s.ns.dedupe key })
  | .elapse seconds => if 0 ≤ seconds then some { s with now := s.now + seconds } else none

/-- The slot that the worker was sent for is gone, or is held by a later reservation. -/
def CompletionState.Stale (s : CompletionState) (worker : Worker) : Prop :=
  s.slot worker.jobId ≠ some worker.grant

instance CompletionState.decidableStale (s : CompletionState) (worker : Worker) :
    Decidable (s.Stale worker) :=
  inferInstanceAs (Decidable (_ ≠ _))

/-- No job has the worker's id in a slot, and a pending one has nothing that FINALIZE deletes. -/
structure CompletionState.Clear (s : CompletionState) (worker : Worker) : Prop where
  reserved : worker.jobId ∉ s.ns.reserved
  payload : worker.jobId ∈ s.ns.pending → s.ns.getJob s.now worker.jobId = none
  dedupe : worker.jobId ∈ s.ns.pending →
    ∀ key ∈ jobDedupeKey worker.job.taskKey worker.job.workItemId,
      getKey s.ns.dedupe s.now key = none

/-- A worker that lost its slot finalizes only what no later admission owns and puts nothing back
over a later reservation under a deadline of its own; a discard ends before the job is admitted
again. -/
def Orderly (s : CompletionState) : CompletionEvent → Prop
  | .finalize worker => s.Stale worker → s.Clear worker
  | .requeue worker _ _ =>
    s.Stale worker → worker.jobId ∈ s.ns.reserved → worker.job.waitDeadlineAt = 0
  | .deletePayload jobId => jobId ∈ s.ns.pending → s.ns.getJob s.now jobId = none
  | _ => True

/-- The keys of the job that now goes by the worker's id are the same after its FINALIZE. -/
structure CompletionState.Spares (s : CompletionState) (worker : Worker) : Prop where
  pending : worker.jobId ∈ (worker.finalize s.ns).pending ↔ worker.jobId ∈ s.ns.pending
  reserved : worker.jobId ∈ (worker.finalize s.ns).reserved ↔ worker.jobId ∈ s.ns.reserved
  payload : (worker.finalize s.ns).getJob s.now worker.jobId = s.ns.getJob s.now worker.jobId
  dedupe : ∀ key ∈ jobDedupeKey worker.job.taskKey worker.job.workItemId,
    getKey (worker.finalize s.ns).dedupe s.now key = getKey s.ns.dedupe s.now key

section Finalize

variable {s : CompletionState} {worker : Worker} {ns : Namespace}

theorem worker_finalize_pending : (worker.finalize ns).pending = ns.pending := by
  simp [Worker.finalize, finalizeJob]

theorem worker_finalize_reserved :
    (worker.finalize ns).reserved = zrem ns.reserved worker.jobId := by
  simp [Worker.finalize, finalizeJob]

theorem worker_finalize_jobs : (worker.finalize ns).jobs = delKey ns.jobs worker.jobId := by
  simp [Worker.finalize, finalizeJob]

theorem worker_finalize_getJob {now : ℚ} : (worker.finalize ns).getJob now worker.jobId = none := by
  rw [Namespace.getJob, worker_finalize_jobs]
  exact getKey_delKey_self

theorem worker_finalize_dedupe {now : ℚ} {key : String}
    (h : key ∈ jobDedupeKey worker.job.taskKey worker.job.workItemId) :
    getKey (worker.finalize ns).dedupe now key = none := by
  simp only [Worker.finalize, finalizeJob, finalizeJobLua_dedupe, Option.mem_def.mp h]
  exact getKey_delKey_self

/-- Exactly what a FINALIZE must not find, for the present owner of the id to be spared. -/
theorem spares_iff_clear :
    (worker.jobId ∈ s.ns.pending ∨ worker.jobId ∈ s.ns.reserved → s.Spares worker) ↔
      s.Clear worker := by
  constructor
  · intro h
    refine ⟨fun hr => ?_, fun hp => ?_, fun hp key hkey => ?_⟩
    · have hkept := (h (.inr hr)).reserved.mpr hr
      rw [worker_finalize_reserved] at hkept
      exact (mem_zrem.mp hkept).1 rfl
    · exact (h (.inl hp)).payload.symm.trans worker_finalize_getJob
    · exact ((h (.inl hp)).dedupe key hkey).symm.trans (worker_finalize_dedupe hkey)
  · intro h hin
    have hp : worker.jobId ∈ s.ns.pending := hin.resolve_right h.reserved
    refine ⟨by rw [worker_finalize_pending], ?_, ?_, fun key hkey => ?_⟩
    · rw [worker_finalize_reserved, zrem_of_not_mem h.reserved]
    · rw [worker_finalize_getJob, h.payload hp]
    · rw [worker_finalize_dedupe hkey, h.dedupe hp key hkey]

end Finalize

/-- The payload stays readable until the wait deadline in it. -/
def Covers (deadline : ℚ) (entry : Entry DispatchJob) : Prop :=
  ∃ t, entry.expireAt = some t ∧ deadline ≤ t

/-- What an operation may do to the waiting jobs: those that stay keep a payload that could be read,
and those that come bring one that outlives their wait. -/
def WaitersKept (now : ℚ) (before after : Namespace) : Prop :=
  ∀ id ∈ after.pending,
    if id ∈ before.pending then
      after.jobs id = before.jobs id ∨ before.getJob now id = none
    else ∃ entry, after.jobs id = some entry ∧ Covers entry.value.waitDeadlineAt entry

/-- Each payload is stored under its own id, and reservation has cleared its deadline. -/
structure PayloadsSound (ns : Namespace) : Prop where
  stored : ∀ id entry, ns.jobs id = some entry → entry.value.jobId = id
  cleared : ∀ id ∈ ns.reserved, ∀ entry, ns.jobs id = some entry → entry.value.waitDeadlineAt = 0

section Scripts

variable {now readyAt : ℚ} {ns after : Namespace} {id : String} {jobs : List DispatchJob}
  {job snapshot : DispatchJob} {ttl : ℕ}

theorem waitersKept_of_fewer (h : ∀ id ∈ after.pending, id ∈ ns.pending)
    (hjobs : ∀ id ∈ after.pending, after.jobs id = ns.jobs id ∨ ns.getJob now id = none) :
    WaitersKept now ns after := by
  intro id hid
  rw [if_pos (h id hid)]
  exact hjobs id hid

/-- Fewer payloads and fewer slots leave nothing unsound. -/
theorem PayloadsSound.of_fewer (h : PayloadsSound ns)
    (hjobs : ∀ id entry, after.jobs id = some entry → ns.jobs id = some entry)
    (hreserved : ∀ id ∈ after.reserved, id ∈ ns.reserved) : PayloadsSound after where
  stored id entry he := h.stored id entry (hjobs id entry he)
  cleared id hid entry he := h.cleared id (hreserved id hid) entry (hjobs id entry he)

/-- A payload written under its own id, cleared where the id is in a slot. -/
theorem PayloadsSound.write (h : PayloadsSound ns) (hid : snapshot.jobId = id)
    (hjobs : after.jobs = setEx ns.jobs now id snapshot ttl)
    (hreserved : ∀ x ∈ after.reserved, x ≠ id → x ∈ ns.reserved)
    (hcleared : id ∈ after.reserved → snapshot.waitDeadlineAt = 0) : PayloadsSound after where
  stored x entry he := by
    rw [hjobs] at he
    by_cases hx : x = id
    · subst hx
      rw [setEx_self] at he
      cases he
      exact hid
    · rw [setEx_ne hx] at he
      exact h.stored x entry he
  cleared x hx entry he := by
    rw [hjobs] at he
    by_cases hxid : x = id
    · subst hxid
      rw [setEx_self] at he
      cases he
      exact hcleared hx
    · rw [setEx_ne hxid] at he
      exact h.cleared x (hreserved x hx hxid) entry he

theorem delKey_eq_some {x : String} {entry : Entry DispatchJob}
    (h : delKey ns.jobs id x = some entry) : ns.jobs x = some entry := by
  by_cases hx : x = id
  · subst hx
    rw [delKey_self] at h
    cases h
  · rwa [delKey_ne hx] at h

/-- An entry carries its job under the job's own id, with a TTL that covers the wait. -/
structure EnqueueEntry.Fits (now : ℚ) (entry : EnqueueEntry) : Prop where
  jobId : entry.jobSnapshot.jobId = entry.jobId
  covered : entry.jobSnapshot.waitDeadlineAt ≤ now + entry.pendingRecordTtl

theorem prepareJob_fits {waitTtl : ℤ} {prepared : DispatchJob × ℕ} {dedupeEnqueue : Bool}
    (hjob : job.waitDeadlineAt = 0) (h : prepareJob now job waitTtl = some prepared) :
    (enqueueEntry dedupeEnqueue prepared).Fits now := by
  unfold prepareJob at h
  rw [hjob] at h
  split at h
  · rename_i deadline n hdeadline
    cases h
    exact ⟨rfl, computeWaitDeadline_covered hdeadline⟩
  · cases h

/-- An admission that succeeds is the script run on fitting entries, or nothing at all. -/
theorem enqueueJobs_cases {queueWaitTtls : List ℤ} {maxAdmittedJobs : ℤ}
    {statuses : List EnqueueStatus} (hjobs : ∀ job ∈ jobs, job.waitDeadlineAt = 0)
    (h : enqueueJobs now jobs true queueWaitTtls maxAdmittedJobs ns = .ok (statuses, after)) :
    after = ns ∨ ∃ maxAdmitted taskKey entries, (∀ entry ∈ entries, entry.Fits now) ∧
      after = (enqueueJobsLua now maxAdmitted true taskKey entries ns).2 := by
  unfold enqueueJobs at h
  split at h
  · cases h
    exact .inl rfl
  · split at h
    · cases h
    · split at h
      · cases h
      · split at h
        · cases h
        · simp only at h
          split at h
          · cases h
            exact .inl rfl
          · cases h
            refine .inr ⟨_, _, _, fun entry hentry => ?_, rfl⟩
            obtain ⟨prepared, hprepared, rfl⟩ := List.mem_map.mp hentry
            obtain ⟨found, hfound, hsome⟩ := List.mem_filterMap.mp hprepared
            obtain ⟨⟨job, waitTtl⟩, hzip, rfl⟩ := List.mem_map.mp hfound
            exact prepareJob_fits (hjobs job (List.of_mem_zip hzip).1) hsome

/-- What the loop of ENQUEUE has done to the waiting jobs when it checks for duplicates. -/
structure Admitting (now : ℚ) (ns : Namespace) (loop : EnqueueLoop) : Prop where
  payloads : PayloadsSound loop.ns
  disjoint : loop.ns.Disjoint
  waiters : WaitersKept now ns loop.ns
  old : ∀ id ∈ ns.pending, id ∈ loop.ns.pending

theorem Admitting.accept {loop : EnqueueLoop} {claimed : Namespace} {entry : EnqueueEntry}
    (h : Admitting now ns loop) (hfits : entry.Fits now)
    (hc : loop.ns.claimDedupe now true entry = some claimed)
    (hi : loop.ns.holdsIdentity now entry = false) :
    Admitting now ns (loop.accept now claimed entry) := by
  obtain ⟨hp, hr⟩ := not_mem_of_holdsIdentity hi
  rw [(claimDedupe_frame hc).1]
  refine ⟨?_, disjoint_enter h.disjoint hr, fun id hid => ?_, fun id hid => ?_⟩
  · exact h.payloads.write hfits.jobId rfl (fun x hx _ => hx) fun hin => absurd hin hr
  · rcases mem_zadd.mp hid with rfl | hid
    · rw [if_neg fun hin => hp (h.old _ hin)]
      exact ⟨_, setEx_self, _, rfl, hfits.covered⟩
    · have hne : id ≠ entry.jobId := fun he => hp (he ▸ hid)
      have hkept := h.waiters id hid
      simpa only [EnqueueLoop.accept, Namespace.enter, setEx_ne hne] using hkept
  · exact mem_zadd.mpr (.inr (h.old id hid))

theorem admitting {maxAdmitted : ℕ} {entries : List EnqueueEntry} (hns : PayloadsSound ns)
    (hd : ns.Disjoint) (hfits : ∀ entry ∈ entries, entry.Fits now) :
    Admitting now ns (enqueueLoop now maxAdmitted true entries ns) := by
  refine enqueueLoop_induction ?_ (fun _ _ _ h => ⟨h.1, h.2, h.3, h.4⟩) ?_
  · exact ⟨hns, hd, waitersKept_of_fewer (fun _ h => h) fun _ _ => .inl rfl, fun _ h => h⟩
  · intro loop claimed entry hentry hc _ hi _ h
    exact h.accept (hfits entry hentry) hc (hi rfl)

/-- What the loop of RESERVE has done: the jobs still waiting are untouched. -/
structure Reserving (ns : Namespace) (loop : ReserveLoop) : Prop where
  payloads : PayloadsSound loop.ns
  disjoint : loop.ns.Disjoint
  waiters : ∀ id ∈ loop.ns.pending, id ∈ ns.pending ∧ loop.ns.jobs id = ns.jobs id

theorem Reserving.promote {loop : ReserveLoop} {waitTtl : ℤ} (h : Reserving ns loop) :
    Reserving ns (loop.promote now (reserveEntry job waitTtl)) := by
  refine ⟨?_, disjoint_promote h.disjoint, fun id hid => ?_⟩
  · let entry := reserveEntry job waitTtl
    have hid : entry.jobSnapshot.jobId = entry.jobId := rfl
    refine h.payloads.write hid promote_jobs (fun x hx hne => ?_) fun _ => rfl
    rw [ReserveLoop.promote, promote_reserved] at hx
    exact (mem_zadd.mp hx).resolve_left hne
  · rw [ReserveLoop.promote, promote_pending] at hid
    obtain ⟨hne, hid⟩ := mem_zrem.mp hid
    obtain ⟨hold, hjobs⟩ := h.waiters id hid
    refine ⟨hold, ?_⟩
    rw [ReserveLoop.promote, promote_jobs, setEx_ne hne, hjobs]

theorem reserving {maxReserved tickBudget : ℕ} {tickId : ℤ} {entries : List ReserveEntry}
    (hns : PayloadsSound ns) (hd : ns.Disjoint)
    (hentries : ∀ entry ∈ entries, ∃ job waitTtl, entry = reserveEntry job waitTtl) :
    Reserving ns (reserveLoop now maxReserved tickBudget tickId entries ns) := by
  refine reserveLoop_induction ⟨hns, hd, fun _ h => ⟨h, rfl⟩⟩
    (fun _ _ _ h => ⟨h.1, h.2, h.3⟩) ?_
  intro loop entry hentry _ _ _ h
  obtain ⟨job, waitTtl, rfl⟩ := hentries entry hentry
  exact h.promote

/-- What every script does to a sound queue. -/
structure ScriptKept (now : ℚ) (before after : Namespace) : Prop where
  payloads : PayloadsSound after
  disjoint : after.Disjoint
  waiters : WaitersKept now before after

theorem scriptKept_self (hns : PayloadsSound ns) (hd : ns.Disjoint) : ScriptKept now ns ns :=
  ⟨hns, hd, waitersKept_of_fewer (fun _ h => h) fun _ _ => .inl rfl⟩

theorem scriptKept_enqueue {queueWaitTtls : List ℤ} {maxAdmittedJobs : ℤ}
    {statuses : List EnqueueStatus} (hns : PayloadsSound ns) (hd : ns.Disjoint)
    (hjobs : ∀ job ∈ jobs, job.waitDeadlineAt = 0)
    (h : enqueueJobs now jobs true queueWaitTtls maxAdmittedJobs ns = .ok (statuses, after)) :
    ScriptKept now ns after := by
  rcases enqueueJobs_cases hjobs h with rfl | ⟨maxAdmitted, taskKey, entries, hfits, rfl⟩
  · exact scriptKept_self hns hd
  · obtain ⟨hpay, hdis, hwait, -⟩ : Admitting now ns (enqueueLoop now maxAdmitted true entries ns) :=
      admitting hns hd hfits
    refine ⟨hpay.of_fewer (by simp) (by simp), ?_, ?_⟩
    · simpa [Namespace.Disjoint] using hdis
    · simpa [WaitersKept] using hwait

theorem scriptKept_reserveJobLua {maxReserved tickBudget : ℕ} {tickId : ℤ}
    {entries : List ReserveEntry} (hns : PayloadsSound ns) (hd : ns.Disjoint)
    (hentries : ∀ entry ∈ entries, ∃ job waitTtl, entry = reserveEntry job waitTtl) :
    ScriptKept now ns (reserveJobLua now maxReserved tickBudget tickId entries ns).2 := by
  obtain ⟨hpay, -, hwait⟩ :
      Reserving ns (reserveLoop now maxReserved tickBudget tickId entries ns) :=
    reserving hns hd hentries
  refine ⟨hpay.of_fewer (by simp) (by simp), disjoint_reserve hd, waitersKept_of_fewer ?_ ?_⟩
  · intro id hid
    rw [reserveJobLua_pending] at hid
    exact (hwait id hid).1
  · intro id hid
    rw [reserveJobLua_pending] at hid
    rw [reserveJobLua_jobs]
    exact .inl (hwait id hid).2

theorem scriptKept_reserve {maxReserved tickId tickBudget : ℤ} {ttls : List ℤ}
    {statuses : List ReservationStatus} (hns : PayloadsSound ns) (hd : ns.Disjoint)
    (h : reserveJobs now jobs maxReserved ttls tickId tickBudget ns = .ok (statuses, after)) :
    ScriptKept now ns after := by
  unfold reserveJobs at h
  split at h
  · cases h
    exact scriptKept_self hns hd
  · split at h
    · cases h
    · split at h
      · cases h
      · cases h
        refine scriptKept_reserveJobLua hns hd fun entry hentry => ?_
        obtain ⟨⟨job, waitTtl⟩, -, rfl⟩ := List.mem_map.mp hentry
        exact ⟨job, waitTtl, rfl⟩

theorem scriptKept_purge {taskKey : String} (hns : PayloadsSound ns) (hd : ns.Disjoint) :
    ScriptKept now ns (purgeJobLua id taskKey ns).2 := by
  refine ⟨hns.of_fewer ?_ ?_, disjoint_purge hd, waitersKept_of_fewer ?_ ?_⟩
  · simp
  · intro x hx
    rw [purgeJobLua_reserved] at hx
    exact (mem_zrem.mp hx).2
  · intro x hx
    rw [purgeJobLua_pending] at hx
    exact (mem_zrem.mp hx).2
  · simp

theorem scriptKept_deletePayload (hns : PayloadsSound ns) (hd : ns.Disjoint)
    (h : id ∈ ns.pending → ns.getJob now id = none) :
    ScriptKept now ns { ns with jobs := delKey ns.jobs id } := by
  refine ⟨hns.of_fewer (fun _ _ => delKey_eq_some) fun _ h => h, hd,
    waitersKept_of_fewer (fun _ h => h) fun x hx => ?_⟩
  by_cases hxid : x = id
  · subst hxid
    exact .inr (h hx)
  · exact .inl (delKey_ne hxid)

theorem scriptKept_finalize {worker : Worker} (hns : PayloadsSound ns) (hd : ns.Disjoint)
    (h : worker.jobId ∈ ns.pending → ns.getJob now worker.jobId = none) :
    ScriptKept now ns (worker.finalize ns) := by
  obtain ⟨hpay, -, hwait⟩ := scriptKept_deletePayload hns hd h
  refine ⟨hpay.of_fewer ?_ ?_, disjoint_finalize hd, ?_⟩
  · simp [worker_finalize_jobs]
  · intro x hx
    rw [worker_finalize_reserved] at hx
    exact (mem_zrem.mp hx).2
  · simpa [WaitersKept, worker_finalize_pending, worker_finalize_jobs] using hwait

/-- A requeue under a fresh budget. -/
theorem scriptKept_requeue {queueWaitTtl : ℤ} {result : RequeueResult} (hns : PayloadsSound ns)
    (hd : ns.Disjoint) (hjob : job.jobId ∈ ns.reserved → job.waitDeadlineAt = 0)
    (h : requeue now job readyAt queueWaitTtl ns = (result, after)) : ScriptKept now ns after := by
  by_cases hr : job.jobId ∈ ns.reserved
  · have hp : job.jobId ∉ ns.pending := fun hp => hd _ hp hr
    unfold requeue at h
    rw [hjob hr] at h
    split at h
    · cases h
      exact scriptKept_self hns hd
    · rename_i deadline n hdeadline
      have hcover := computeWaitDeadline_covered hdeadline
      have hpos := computeWaitDeadline_ttl_pos (by rw [hdeadline])
      rw [max_eq_right hpos, requeueJobLua_of_mem hr] at h
      cases h
      refine ⟨?_, ?_, fun id hid => ?_⟩
      · have hid : (requeuedJob job readyAt deadline).jobId = job.jobId := rfl
        refine hns.write hid rfl (fun x hx _ => (mem_zrem.mp hx).2) fun hin => ?_
        exact absurd rfl (mem_zrem.mp hin).1
      · have hdis : (requeueJobLua now job.jobId (requeuedJob job readyAt deadline) n readyAt
            job.taskKey ns).2.Disjoint := disjoint_requeue hd
        rwa [requeueJobLua_of_mem hr] at hdis
      · rcases mem_zadd.mp hid with rfl | hid
        · rw [if_neg hp]
          exact ⟨_, setEx_self, _, rfl, hcover⟩
        · have hne : id ≠ job.jobId := fun he => hp (he ▸ hid)
          rw [if_pos hid]
          exact .inl (setEx_ne hne)
  · unfold requeue at h
    split at h
    · cases h
      exact scriptKept_self hns hd
    · rw [requeueJobLua_of_not_mem hr] at h
      cases h
      exact scriptKept_self hns hd

end Scripts

/-- Every job in pending has its payload until its wait deadline; reservations are numbered in the
order of the events, and a worker that still holds its slot took it from a cleared payload. -/
structure CompletionState.Sound (s : CompletionState) : Prop where
  disjoint : s.ns.Disjoint
  payloads : PayloadsSound s.ns
  held : ∀ id grant, s.slot id = some grant → id ∈ s.ns.reserved ∧ grant < s.steps
  sent : ∀ message ∈ s.messages, message.1 < s.steps
  workers : ∀ worker ∈ s.workers, worker.grant < s.steps ∧ worker.job.jobId = worker.jobId ∧
    (¬ s.Stale worker → worker.job.waitDeadlineAt = 0)
  covered : ∀ id ∈ s.ns.pending, s.now < s.deadline id →
    ∃ entry, s.ns.jobs id = some entry ∧ Covers (s.deadline id) entry

section Steps

variable {s t : CompletionState} {ns : Namespace} {worker : Worker} {e : CompletionEvent}
  {es : List CompletionEvent}

theorem completion_initial {now : ℚ} : (CompletionState.initial now).Sound where
  disjoint := disjoint_empty
  payloads := ⟨nofun, nofun⟩
  held := nofun
  sent := nofun
  workers := nofun
  covered _ h := absurd h not_mem_empty

theorem live_of_covers {now deadline : ℚ} {entry : Entry DispatchJob} (h : Covers deadline entry)
    (hnow : now < deadline) : entry.live now := by
  obtain ⟨t, ht, hle⟩ := h
  simp [Entry.live, ht, hnow.trans_le hle]

/-- A job that waits within its deadline can be read. -/
theorem CompletionState.Sound.readable {id : String} (h : s.Sound) (hid : id ∈ s.ns.pending)
    (hnow : s.now < s.deadline id) : (s.ns.getJob s.now id).isSome := by
  obtain ⟨entry, hentry, hcovers⟩ := h.covered id hid hnow
  have hget : s.ns.getJob s.now id = some entry.value :=
    getKey_eq_some.mpr ⟨entry, hentry, live_of_covers hcovers hnow, rfl⟩
  simp [hget]

/-- A slot that a worker still holds was not touched in between. -/
theorem CompletionState.Sound.slot_of_track (h : s.Sound) (hw : worker ∈ s.workers)
    (hslot : ¬ (s.track ns).Stale worker) : ¬ s.Stale worker := by
  have hold := (h.workers worker hw).1
  simp only [CompletionState.Stale, CompletionState.track, not_not] at hslot ⊢
  split at hslot
  · split at hslot
    · exact hslot
    · have := Option.some.inj hslot
      omega
  · cases hslot

theorem CompletionState.Sound.track (h : s.Sound) (hns : ScriptKept s.now s.ns ns) :
    (s.track ns).Sound where
  disjoint := hns.disjoint
  payloads := hns.payloads
  held id grant hslot := by
    simp only [CompletionState.track] at hslot ⊢
    split at hslot
    · rename_i hid
      split at hslot
      · have := (h.held id grant hslot).2
        exact ⟨hid, by omega⟩
      · cases hslot
        exact ⟨hid, by omega⟩
    · cases hslot
  sent message hmessage := by
    rcases List.mem_append.mp hmessage with hmessage | hmessage
    · have := h.sent message hmessage
      exact Nat.lt_succ_of_lt this
    · obtain ⟨id, -, rfl⟩ := List.mem_map.mp hmessage
      exact Nat.lt_succ_self s.steps
  workers worker hw := by
    obtain ⟨hold, hid, hcleared⟩ := h.workers worker hw
    exact ⟨Nat.lt_succ_of_lt hold, hid, fun hslot => hcleared (h.slot_of_track hw hslot)⟩
  covered id hid hnow := by
    have hkept := hns.waiters id hid
    simp only [CompletionState.track] at hid hnow ⊢
    by_cases hp : id ∈ s.ns.pending
    · simp only [hp, not_true_eq_false, and_false, if_false, if_true] at hnow hkept ⊢
      rcases hkept with hkept | hgone
      · obtain ⟨entry, hentry, hcovers⟩ := h.covered id hp hnow
        exact ⟨entry, hkept.trans hentry, hcovers⟩
      · have := h.readable hp hnow
        simp [hgone] at this
    · simp only [hp, if_false] at hkept
      obtain ⟨entry, hentry, hcovers⟩ := hkept
      exact ⟨entry, hentry, by simpa [hp, hid, hentry] using hcovers⟩

/-- A worker that is done takes nothing with it. -/
theorem CompletionState.Sound.dismiss (h : s.Sound) :
    CompletionState.Sound { s with workers := s.workers.erase worker } where
  disjoint := h.disjoint
  payloads := h.payloads
  held := h.held
  sent := h.sent
  workers w hw := h.workers w (List.mem_of_mem_erase hw)
  covered := h.covered

/-- A worker copies the payload under its id; while its slot is held that payload is cleared. -/
theorem CompletionState.Sound.start {grant : ℕ} {jobId : String} {job : DispatchJob} (h : s.Sound)
    (hm : (grant, jobId) ∈ s.messages) (hjob : s.ns.getJob s.now jobId = some job) :
    CompletionState.Sound { s with
      messages := s.messages.erase (grant, jobId)
      workers := ⟨grant, jobId, job⟩ :: s.workers } where
  disjoint := h.disjoint
  payloads := h.payloads
  held := h.held
  sent m hmem := h.sent m (List.mem_of_mem_erase hmem)
  workers worker hw := by
    rcases List.mem_cons.mp hw with rfl | hw
    · obtain ⟨entry, hentry, -, rfl⟩ := getKey_eq_some.mp hjob
      refine ⟨h.sent _ hm, h.payloads.stored jobId entry hentry, fun hslot => ?_⟩
      have hheld := h.held jobId grant (not_not.mp hslot)
      exact h.payloads.cleared jobId hheld.1 entry hentry
    · exact h.workers worker hw
  covered := h.covered

theorem CompletionState.Sound.finalize (h : s.Sound) (he : s.Stale worker → s.Clear worker) :
    ScriptKept s.now s.ns (worker.finalize s.ns) := by
  refine scriptKept_finalize h.payloads h.disjoint fun hp => ?_
  by_cases hslot : s.Stale worker
  · exact (he hslot).payload hp
  · have hheld := h.held _ _ (not_not.mp hslot)
    exact absurd hheld.1 (h.disjoint _ hp)

theorem CompletionState.Sound.requeue {readyAt : ℚ} {waitTtl : ℤ} {result : RequeueResult}
    (h : s.Sound) (hw : worker ∈ s.workers) (he : Orderly s (.requeue worker readyAt waitTtl))
    (hns : requeue s.now worker.attempt readyAt waitTtl s.ns = (result, ns)) :
    ScriptKept s.now s.ns ns := by
  obtain ⟨-, hid, hcleared⟩ := h.workers worker hw
  refine scriptKept_requeue h.payloads h.disjoint (fun hr => ?_) hns
  by_cases hslot : s.Stale worker
  · exact he hslot (hid ▸ hr)
  · exact hcleared hslot

theorem completion_step (h : s.Sound) (he : Orderly s e) (hs : s.next e = some t) : t.Sound := by
  cases e with
  | enqueue jobs queueWaitTtls maxAdmittedJobs =>
    simp only [CompletionState.next, List.all_eq_true, decide_eq_true_eq] at hs
    split at hs
    · rename_i hjobs
      split at hs
      · rename_i hns
        cases hs
        exact h.track (scriptKept_enqueue h.payloads h.disjoint hjobs hns)
      · cases hs
    · cases hs
  | reserve jobs maxReserved reservedRecordTtls tickId tickBudget =>
    simp only [CompletionState.next] at hs
    split at hs
    · rename_i hns
      cases hs
      exact h.track (scriptKept_reserve h.payloads h.disjoint hns)
    · cases hs
  | start grant jobId =>
    simp only [CompletionState.next] at hs
    split at hs
    · rename_i hm
      split at hs
      · rename_i hjob
        cases hs
        exact h.start hm hjob
      · cases hs
        exact ⟨h.disjoint, h.payloads, h.held, fun m hmem => h.sent m (List.mem_of_mem_erase hmem),
          h.workers, h.covered⟩
    · cases hs
  | requeue worker readyAt queueWaitTtl =>
    simp only [CompletionState.next] at hs
    split at hs
    · rename_i hw
      split at hs
      · rename_i hns
        cases hs
        exact (h.track (h.requeue hw he hns)).dismiss
      · cases hs
        exact h
    · cases hs
  | finalize worker =>
    simp only [CompletionState.next] at hs
    split at hs
    · cases hs
      exact (h.track (h.finalize he)).dismiss
    · cases hs
  | purge jobId taskKey =>
    cases hs
    exact h.track (scriptKept_purge h.payloads h.disjoint)
  | deletePayload jobId =>
    cases hs
    exact h.track (scriptKept_deletePayload h.payloads h.disjoint he)
  | deleteDedupe key =>
    cases hs
    exact h.track ⟨⟨h.payloads.stored, h.payloads.cleared⟩, h.disjoint,
      waitersKept_of_fewer (fun _ hid => hid) fun _ _ => .inl rfl⟩
  | elapse seconds =>
    simp only [CompletionState.next] at hs
    split at hs
    · cases hs
      refine ⟨h.disjoint, h.payloads, h.held, h.sent, h.workers, fun id hid hnow => ?_⟩
      have hlater : s.now + seconds < s.deadline id := hnow
      exact h.covered id hid (by linarith)
    · cases hs

theorem completion_reachable {now : ℚ}
    (h : Run (Guarded Orderly (Steps CompletionState.next)) (.initial now) es s) : s.Sound :=
  h.invariant CompletionState.Sound completion_initial fun hi hs => completion_step hi hs.1 hs.2

end Steps

/-- The worker of the first reservation of the sample job. -/
def portraitWorker : Worker := ⟨1, portraitJob.jobId, portraitJob⟩

/-- The sample job, admitted again after its first reservation was purged, has its payload and its
dedupe key while it waits, and neither after the FINALIZE of the first worker. -/
def CompletionState.Stripped (s : CompletionState) : Bool :=
  let id := portraitJob.jobId
  let key := dedupeKey "portrait" "7"
  let waits (s : CompletionState) : Bool := id ∈ s.ns.pending && s.now < s.deadline id
  portraitWorker ∈ s.workers && s.Stale portraitWorker && waits s &&
    (s.ns.getJob s.now id).isSome && existsKey s.ns.dedupe s.now key &&
    (s.next (.finalize portraitWorker)).any fun s =>
      waits s && (s.ns.getJob s.now id).isNone && !existsKey s.ns.dedupe s.now key

end Dispatch
