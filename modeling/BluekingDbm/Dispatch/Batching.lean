import BluekingDbm.Dispatch.Ledger
import BluekingDbm.Dispatch.TaskCounts
import Mathlib.Data.Finset.Card

/-! A list of jobs admitted in batches against the same list admitted one job at a time. -/
namespace Dispatch

open Redis

/-- A job and the queue-wait TTL that it is submitted with. -/
abbrev Submission := DispatchJob × ℤ

/-- Batches admitted one after the other, at one time, no call failing. -/
def admitBatches (now : ℚ) (dedupeEnqueue : Bool) (maxAdmittedJobs : ℤ) :
    List (List Submission) → Namespace → Except String (List EnqueueStatus × Namespace)
  | [], ns => .ok ([], ns)
  | batch :: batches, ns => do
    let (statuses, ns) ← enqueueJobs now (batch.map Prod.fst) dedupeEnqueue (batch.map Prod.snd)
      maxAdmittedJobs ns
    let (later, ns) ← admitBatches now dedupeEnqueue maxAdmittedJobs batches ns
    .ok (statuses ++ later, ns)

/-- The statuses, the pending set, the payloads, the dedupe keys and the pending count of the task
are the same. -/
structure SameAdmission (taskKey : String) (r r' : List EnqueueStatus × Namespace) : Prop where
  statuses : r.1 = r'.1
  pending : r.2.pending = r'.2.pending
  jobs : r.2.jobs = r'.2.jobs
  dedupe : r.2.dedupe = r'.2.dedupe
  count : r.2.taskCounts (.pending taskKey) = r'.2.taskCounts (.pending taskKey)

/-- The batches and the single jobs are all let in without an error and do the same. -/
def Refines (now : ℚ) (dedupeEnqueue : Bool) (maxAdmittedJobs : ℤ) (taskKey : String)
    (batches : List (List Submission)) (ns : Namespace) : Prop :=
  ∃ r r', admitBatches now dedupeEnqueue maxAdmittedJobs batches ns = .ok r ∧
    admitBatches now dedupeEnqueue maxAdmittedJobs (batches.flatten.map ([·])) ns = .ok r' ∧
    SameAdmission taskKey r r'

/-- One turn of the loop, taken by a job that may have no wait budget left. -/
def admitOne (now : ℚ) (maxAdmitted : ℕ) (dedupeEnqueue paused : Bool) (loop : EnqueueLoop)
    (job : Submission) : EnqueueLoop :=
  match prepareJob now job.1 job.2 with
  | none => loop.finish .deadlineExpired
  | some prepared =>
    enqueueOne now maxAdmitted dedupeEnqueue paused loop (enqueueEntry dedupeEnqueue prepared)

/-- The loop variables before the first turn. -/
def Namespace.opened (ns : Namespace) : EnqueueLoop := ⟨ns, ns.admitted, 0, []⟩

/-- The count hash with `n` more pending jobs of the task, untouched for none. -/
def counted (counts : Counters CountField) (taskKey : String) (n : ℕ) : Counters CountField :=
  if n > 0 then moveField counts .pending taskKey n else counts

/-- The update of the count hash behind the loop. -/
def EnqueueLoop.settle (loop : EnqueueLoop) (taskKey : String) : Namespace :=
  { loop.ns with taskCounts := counted loop.ns.taskCounts taskKey loop.acceptedCount }

/-- What one call does to a batch it does not refuse. -/
def admitBatch (now : ℚ) (maxAdmitted : ℕ) (dedupeEnqueue : Bool) (taskKey : String)
    (batch : List Submission) (ns : Namespace) : List EnqueueStatus × Namespace :=
  let loop := batch.foldl (admitOne now maxAdmitted dedupeEnqueue ns.producerGate) ns.opened
  (loop.statuses, loop.settle taskKey)

/-- What the calls do to batches that none of them refuses. -/
def admitAll (now : ℚ) (maxAdmitted : ℕ) (dedupeEnqueue : Bool) (taskKey : String) :
    List (List Submission) → Namespace → List EnqueueStatus × Namespace
  | [], ns => ([], ns)
  | batch :: batches, ns =>
    let first := admitBatch now maxAdmitted dedupeEnqueue taskKey batch ns
    let later := admitAll now maxAdmitted dedupeEnqueue taskKey batches first.2
    (first.1 ++ later.1, later.2)

section Turns

variable {now : ℚ} {maxAdmitted : ℕ} {dedupeEnqueue paused : Bool} {taskKey : String}
  {loop single : EnqueueLoop} {ns claimed : Namespace} {counts : Counters CountField}
  {entry : EnqueueEntry} {job : Submission} {jobs : List Submission}

/-- No decision and no write of a turn depends on the count hash. -/
theorem claimDedupe_counts :
    Namespace.claimDedupe { ns with taskCounts := counts } now dedupeEnqueue entry =
      (ns.claimDedupe now dedupeEnqueue entry).map fun ns => { ns with taskCounts := counts } := by
  unfold Namespace.claimDedupe
  split
  · simp only [Option.map_map]
    rfl
  · rfl

/-- What one turn does to two loops whose namespaces differ in the count hash only and that agree on
whether there is room. -/
theorem enqueueOne_alike (now : ℚ) (maxAdmitted : ℕ) (dedupeEnqueue : Bool) (entry : EnqueueEntry)
    (hns : loop.ns = { single.ns with taskCounts := counts })
    (hroom : paused = false → (maxAdmitted ≤ loop.admitted ↔ maxAdmitted ≤ single.admitted)) :
    (∃ status, status ≠ .accepted ∧
      enqueueOne now maxAdmitted dedupeEnqueue paused loop entry = loop.finish status ∧
      enqueueOne now maxAdmitted dedupeEnqueue paused single entry = single.finish status) ∨
    ∃ claimed, single.ns.claimDedupe now dedupeEnqueue entry = some claimed ∧ paused = false ∧
      (dedupeEnqueue = true → single.ns.holdsIdentity now entry = false) ∧
      single.admitted < maxAdmitted ∧
      enqueueOne now maxAdmitted dedupeEnqueue paused loop entry =
        loop.accept now { claimed with taskCounts := counts } entry ∧
      enqueueOne now maxAdmitted dedupeEnqueue paused single entry =
        single.accept now claimed entry := by
  have hholds : loop.ns.holdsIdentity now entry = single.ns.holdsIdentity now entry := by
    rw [hns]
    rfl
  have hclaim : loop.ns.claimDedupe now dedupeEnqueue entry =
      (single.ns.claimDedupe now dedupeEnqueue entry).map
        fun ns => { ns with taskCounts := counts } := by
    rw [hns]
    exact claimDedupe_counts
  unfold enqueueOne
  rw [hholds, hclaim]
  cases paused with
  | true => exact .inl ⟨.producerPaused, by simp, rfl, rfl⟩
  | false =>
    cases hdup : dedupeEnqueue && single.ns.holdsIdentity now entry with
    | true => exact .inl ⟨.duplicate, by simp, by simp, by simp⟩
    | false =>
      by_cases hfull : maxAdmitted ≤ single.admitted
      · exact .inl ⟨.capacityRejected, by simp, by simp [(hroom rfl).mpr hfull], by simp [hfull]⟩
      · have hfull' : ¬ maxAdmitted ≤ loop.admitted := fun h => hfull ((hroom rfl).mp h)
        cases hc : single.ns.claimDedupe now dedupeEnqueue entry with
        | none => exact .inl ⟨.duplicate, by simp, by simp [hfull'], by simp [hfull]⟩
        | some claimed =>
          refine .inr ⟨claimed, rfl, rfl, fun hd => ?_, by omega, by simp [hfull'],
            by simp [hfull]⟩
          simpa [hd] using hdup

/-- The turns of the jobs are the turns of the entries made of them, the statuses put back at the
jobs. -/
theorem foldl_admitOne (single : EnqueueLoop) (statuses : List EnqueueStatus) :
    ∃ new, (((jobs.map fun job => prepareJob now job.1 job.2).filterMap id).map
        (enqueueEntry dedupeEnqueue)).foldl (enqueueOne now maxAdmitted dedupeEnqueue paused) single =
      { jobs.foldl (admitOne now maxAdmitted dedupeEnqueue paused) { single with statuses } with
        statuses := single.statuses ++ new } ∧
      (jobs.foldl (admitOne now maxAdmitted dedupeEnqueue paused)
        { single with statuses }).statuses =
        statuses ++ placeStatuses (jobs.map fun job => prepareJob now job.1 job.2) new := by
  induction jobs generalizing single statuses with
  | nil => exact ⟨[], by simp, by simp [placeStatuses]⟩
  | cons job jobs ih =>
    cases hp : prepareJob now job.1 job.2 with
    | none =>
      obtain ⟨new, hrun, hstatuses⟩ := ih single (statuses ++ [.deadlineExpired])
      refine ⟨new, ?_, ?_⟩
      · simpa [hp, admitOne, EnqueueLoop.finish] using hrun
      · simpa [hp, admitOne, EnqueueLoop.finish, placeStatuses] using hstatuses
    | some prepared =>
      rcases @enqueueOne_alike paused { single with statuses } single single.ns.taskCounts now
        maxAdmitted dedupeEnqueue (enqueueEntry dedupeEnqueue prepared) rfl fun _ => Iff.rfl with
        ⟨status, -, hloop, hsingle⟩ | ⟨claimed, hc, -, -, -, hloop, hsingle⟩
      · obtain ⟨new, hrun, hstatuses⟩ := ih (single.finish status) (statuses ++ [status])
        refine ⟨status :: new, ?_, ?_⟩
        · simpa [hp, admitOne, hloop, hsingle, EnqueueLoop.finish] using hrun
        · simpa [hp, admitOne, hloop, EnqueueLoop.finish, placeStatuses] using hstatuses
      · obtain ⟨new, hrun, hstatuses⟩ := ih (single.accept now claimed (enqueueEntry dedupeEnqueue
          prepared)) (statuses ++ [.accepted])
        have hclaimed : { claimed with taskCounts := single.ns.taskCounts } = claimed := by
          rw [(claimDedupe_frame hc).1]
        refine ⟨.accepted :: new, ?_, ?_⟩
        · simpa [hp, admitOne, hloop, hclaimed, hsingle, EnqueueLoop.accept] using hrun
        · simpa [hp, admitOne, hloop, hclaimed, EnqueueLoop.accept, placeStatuses] using hstatuses

theorem moveCount_settle :
    (if loop.acceptedCount > 0 then loop.ns.moveCount .pending taskKey loop.acceptedCount
      else loop.ns) = loop.settle taskKey := by
  unfold EnqueueLoop.settle counted
  split <;> rfl

/-- A batch is the script on the entries made of its jobs. -/
theorem admitBatch_eq :
    admitBatch now maxAdmitted dedupeEnqueue taskKey jobs ns =
      (placeStatuses (jobs.map fun job => prepareJob now job.1 job.2)
        (enqueueJobsLua now maxAdmitted dedupeEnqueue taskKey
          (((jobs.map fun job => prepareJob now job.1 job.2).filterMap id).map
            (enqueueEntry dedupeEnqueue)) ns).1,
        (enqueueJobsLua now maxAdmitted dedupeEnqueue taskKey
          (((jobs.map fun job => prepareJob now job.1 job.2).filterMap id).map
            (enqueueEntry dedupeEnqueue)) ns).2) := by
  obtain ⟨new, hrun, hstatuses⟩ := @foldl_admitOne now maxAdmitted dedupeEnqueue ns.producerGate jobs
    ns.opened []
  have hloop : enqueueLoop now maxAdmitted dedupeEnqueue
      (((jobs.map fun job => prepareJob now job.1 job.2).filterMap id).map
        (enqueueEntry dedupeEnqueue)) ns = _ := hrun
  simp only [enqueueJobsLua, moveCount_settle, hloop]
  exact Prod.ext hstatuses rfl

/-- A call that the jobs pass is the loop over the jobs and the update behind it. -/
theorem enqueueJobs_eq {m : ℤ} (hlength : jobs.length ≤ dispatchLuaBatchSize)
    (htask : ∀ job ∈ jobs, job.1.taskKey = taskKey) :
    enqueueJobs now (jobs.map Prod.fst) dedupeEnqueue (jobs.map Prod.snd) m ns =
      .ok (admitBatch now (max 1 m).toNat dedupeEnqueue taskKey jobs ns) := by
  rw [admitBatch_eq]
  have hzip : ((jobs.map Prod.fst).zip (jobs.map Prod.snd)).map
      (fun p => prepareJob now p.1 p.2) = jobs.map fun job => prepareJob now job.1 job.2 := by
    rw [List.zip_map', List.map_map]
    rfl
  cases jobs with
  | nil => rfl
  | cons first rest =>
    have hfirst := htask first List.mem_cons_self
    have hsame : ((first :: rest).map Prod.fst).any (fun job => job.taskKey ≠ first.1.taskKey) =
        false := by
      rw [List.any_eq_false]
      intro job hjob
      obtain ⟨pair, hpair, rfl⟩ := List.mem_map.mp hjob
      simp [htask pair hpair, hfirst]
    simp only [List.map_cons] at hsame hzip
    simp only [enqueueJobs, List.map_cons, List.length_cons, List.length_map, ne_eq,
      not_true_eq_false, if_false, hzip]
    rw [if_neg (by simpa using hlength), if_neg (by simpa using hsame), hfirst]
    split
    · rename_i hempty
      rw [List.isEmpty_iff] at hempty
      rw [hempty]
      rfl
    · rfl

end Turns

section Simulation

variable {now : ℚ} {maxAdmitted : ℕ} {dedupeEnqueue paused : Bool} {taskKey : String}
  {loop : EnqueueLoop} {ns : Namespace} {counts : Counters CountField} {job : Submission}
  {jobs : List Submission} {batches more : List (List Submission)} {n : ℕ}
  {r : List EnqueueStatus × Namespace}

theorem admitBatches_eq {m : ℤ} (hlength : ∀ batch ∈ batches, batch.length ≤ dispatchLuaBatchSize)
    (htask : ∀ job ∈ batches.flatten, job.1.taskKey = taskKey) :
    admitBatches now dedupeEnqueue m batches ns =
      .ok (admitAll now (max 1 m).toNat dedupeEnqueue taskKey batches ns) := by
  induction batches generalizing ns with
  | nil => rfl
  | cons batch batches ih =>
    have hfirst : ∀ job ∈ batch, job.1.taskKey = taskKey := fun job hjob =>
      htask job (by simp [hjob])
    have hlater : ∀ job ∈ batches.flatten, job.1.taskKey = taskKey := fun job hjob =>
      htask job (by simp only [List.flatten_cons, List.mem_append, hjob, or_true])
    simp only [admitBatches, enqueueJobs_eq (hlength batch List.mem_cons_self) hfirst]
    show (admitBatches _ _ _ _ _ >>= _) = _
    rw [ih (fun b hb => hlength b (List.mem_cons_of_mem _ hb)) hlater]
    rfl

theorem admitAll_append :
    admitAll now maxAdmitted dedupeEnqueue taskKey (batches ++ more) ns =
      ((admitAll now maxAdmitted dedupeEnqueue taskKey batches ns).1 ++
        (admitAll now maxAdmitted dedupeEnqueue taskKey more
          (admitAll now maxAdmitted dedupeEnqueue taskKey batches ns).2).1,
      (admitAll now maxAdmitted dedupeEnqueue taskKey more
        (admitAll now maxAdmitted dedupeEnqueue taskKey batches ns).2).2) := by
  induction batches generalizing ns with
  | nil => rfl
  | cons batch batches ih => simp [admitAll, ih]

/-- One job more on a count that is not negative. -/
theorem counted_succ (h : 0 ≤ (counts (.pending taskKey)).getD 0) :
    counted (counted counts taskKey n) taskKey 1 = counted counts taskKey (n + 1) := by
  cases n with
  | zero => simp [counted]
  | succ n =>
    simp only [counted, gt_iff_lt, Nat.succ_pos, if_true, Nat.lt_one_iff, moveField]
    split
    · rfl
    · rw [hincrbyPrune_add (by push_cast; omega)]
      push_cast
      rfl

/-- The single jobs have been admitted with the replies of the loop and have left what the loop
leaves once its count is written. -/
structure Alike (taskKey : String) (paused : Bool) (loop : EnqueueLoop)
    (r : List EnqueueStatus × Namespace) : Prop where
  statuses : r.1 = loop.statuses
  settled : r.2 = loop.settle taskKey
  gate : loop.ns.producerGate = paused
  count : 0 ≤ (loop.ns.taskCounts (.pending taskKey)).getD 0

theorem alike_opened (hcount : 0 ≤ (ns.taskCounts (.pending taskKey)).getD 0) :
    Alike taskKey ns.producerGate ns.opened ([], ns) :=
  ⟨rfl, rfl, rfl, hcount⟩

/-- A turn of the loop and the next single job, agreeing on whether there is room, do the same. -/
theorem alike_step (h : Alike taskKey paused loop r)
    (hroom : (prepareJob now job.1 job.2).isSome → paused = false →
      (maxAdmitted ≤ loop.admitted ↔ maxAdmitted ≤ loop.ns.admitted)) :
    Alike taskKey paused (admitOne now maxAdmitted dedupeEnqueue paused loop job)
      (r.1 ++ (admitBatch now maxAdmitted dedupeEnqueue taskKey [job] r.2).1,
        (admitBatch now maxAdmitted dedupeEnqueue taskKey [job] r.2).2) := by
  obtain ⟨statuses, ns⟩ := r
  obtain ⟨hstatuses, rfl, hgate, hcount⟩ := h
  obtain rfl : statuses = loop.statuses := hstatuses
  have hpaused : (loop.settle taskKey).producerGate = paused := hgate
  simp only [admitBatch, List.foldl_cons, List.foldl_nil, hpaused, admitOne]
  cases hp : prepareJob now job.1 job.2 with
  | none => exact ⟨by simp [EnqueueLoop.finish, Namespace.opened], rfl, hgate, hcount⟩
  | some prepared =>
    rcases @enqueueOne_alike paused loop (loop.settle taskKey).opened loop.ns.taskCounts now
      maxAdmitted dedupeEnqueue (enqueueEntry dedupeEnqueue prepared) rfl (hroom (by simp [hp])) with
      ⟨status, -, hloop, hsingle⟩ | ⟨claimed, hc, -, -, -, hloop, hsingle⟩
    · simp only [hloop, hsingle]
      exact ⟨by simp [EnqueueLoop.finish, Namespace.opened], rfl, hgate, hcount⟩
    · have hclaimed := (claimDedupe_frame hc).1
      simp only [hloop, hsingle]
      rw [hclaimed]
      refine ⟨by simp [EnqueueLoop.accept, Namespace.opened], ?_, hgate, hcount⟩
      simp only [EnqueueLoop.settle, EnqueueLoop.accept, Namespace.enter, Namespace.opened,
        Nat.zero_add, counted_succ hcount]

/-- A turn gives the job a status, or it takes its key and enters it behind an open gate. -/
theorem admitOne_cases (now : ℚ) (maxAdmitted : ℕ) (dedupeEnqueue paused : Bool)
    (loop : EnqueueLoop) (job : Submission) :
    (∃ status, admitOne now maxAdmitted dedupeEnqueue paused loop job = loop.finish status) ∨
    ∃ claimed entry, loop.ns.claimDedupe now dedupeEnqueue entry = some claimed ∧ paused = false ∧
      (dedupeEnqueue = true → loop.ns.holdsIdentity now entry = false) ∧
      admitOne now maxAdmitted dedupeEnqueue paused loop job = loop.accept now claimed entry := by
  unfold admitOne
  cases hp : prepareJob now job.1 job.2 with
  | none => exact .inl ⟨.deadlineExpired, rfl⟩
  | some prepared =>
    rcases @enqueueOne_cases now maxAdmitted dedupeEnqueue paused loop _
      (enqueueEntry dedupeEnqueue prepared) rfl with
      ⟨status, -, hnext⟩ | ⟨claimed, hc, hopen, hnew, -, hnext⟩
    · exact .inl ⟨status, hnext⟩
    · exact .inr ⟨claimed, _, hc, hopen, hnew, hnext⟩

/-- Where every accepted job is a new member the running count is the size of the two sets. -/
theorem admitOne_tracks (hmode : dedupeEnqueue = true ∨ paused = true)
    (h : loop.admitted = loop.ns.admitted) :
    (admitOne now maxAdmitted dedupeEnqueue paused loop job).admitted =
      (admitOne now maxAdmitted dedupeEnqueue paused loop job).ns.admitted := by
  rcases admitOne_cases now maxAdmitted dedupeEnqueue paused loop job with
    ⟨status, hnext⟩ | ⟨claimed, entry, hc, hopen, hnew, hnext⟩
  · rw [hnext]
    exact h
  · rcases hmode with hmode | hmode
    · have hnot := (not_mem_of_holdsIdentity (hnew hmode)).1
      rw [hnext, (claimDedupe_frame hc).1]
      simp only [EnqueueLoop.accept, Namespace.enter, Namespace.admitted,
        zcard_zadd_of_not_mem hnot] at h ⊢
      omega
    · rw [hmode] at hopen
      cases hopen

/-- A batch does what its jobs do one at a time, if every turn agrees with the single job on whether
there is room. -/
theorem admitBatch_refines {P : List Submission → EnqueueLoop → Prop}
    (hcount : 0 ≤ (ns.taskCounts (.pending taskKey)).getD 0) (hinit : P [] ns.opened)
    (hstep : ∀ done job rest loop, jobs = done ++ job :: rest → loop.ns.producerGate =
      ns.producerGate → P done loop →
        P (done ++ [job]) (admitOne now maxAdmitted dedupeEnqueue ns.producerGate loop job))
    (hroom : ∀ done job rest loop, jobs = done ++ job :: rest → P done loop →
      (prepareJob now job.1 job.2).isSome → ns.producerGate = false →
        (maxAdmitted ≤ loop.admitted ↔ maxAdmitted ≤ loop.ns.admitted)) :
    admitBatch now maxAdmitted dedupeEnqueue taskKey jobs ns =
      admitAll now maxAdmitted dedupeEnqueue taskKey (jobs.map ([·])) ns := by
  have hrun : Alike taskKey ns.producerGate
      (jobs.foldl (admitOne now maxAdmitted dedupeEnqueue ns.producerGate) ns.opened)
      (admitAll now maxAdmitted dedupeEnqueue taskKey (jobs.map ([·])) ns) ∧
        P jobs (jobs.foldl (admitOne now maxAdmitted dedupeEnqueue ns.producerGate) ns.opened) := by
    refine Loop.foldl_prefix
      (P := fun done loop => Alike taskKey ns.producerGate loop
        (admitAll now maxAdmitted dedupeEnqueue taskKey (done.map ([·])) ns) ∧ P done loop)
      ⟨alike_opened hcount, hinit⟩ ?_
    intro done job rest loop hjobs ⟨halike, hP⟩
    refine ⟨?_, hstep done job rest loop hjobs halike.gate hP⟩
    rw [List.map_append, admitAll_append]
    simpa [admitAll] using alike_step halike (hroom done job rest loop hjobs hP)
  exact Prod.ext hrun.1.statuses.symm hrun.1.settled.symm

/-- A turn leaves the gate and the count hash alone. -/
theorem admitOne_frame :
    (admitOne now maxAdmitted dedupeEnqueue paused loop job).ns.producerGate =
        loop.ns.producerGate ∧
      (admitOne now maxAdmitted dedupeEnqueue paused loop job).ns.taskCounts =
        loop.ns.taskCounts := by
  rcases admitOne_cases now maxAdmitted dedupeEnqueue paused loop job with
    ⟨status, hnext⟩ | ⟨claimed, entry, hc, -, -, hnext⟩
  · rw [hnext]
    exact ⟨rfl, rfl⟩
  · rw [hnext, (claimDedupe_frame hc).1]
    exact ⟨rfl, rfl⟩

theorem counted_nonneg (h : 0 ≤ (counts (.pending taskKey)).getD 0) :
    0 ≤ (counted counts taskKey n (.pending taskKey)).getD 0 := by
  unfold counted moveField
  split
  · split
    · exact h
    · simp only [hincrbyPrune, Function.update_self]
      split
      · simp
      · rename_i hpos
        simpa using le_of_lt (not_le.mp hpos)
  · exact h

theorem CountsPositive.nonneg (h : CountsPositive counts) (taskKey : String) :
    0 ≤ (counts (.pending taskKey)).getD 0 := by
  cases hn : counts (.pending taskKey) with
  | none => exact le_rfl
  | some n => exact le_of_lt (h _ n hn)

/-- Admitting keeps the gate as it is and the count of the task from being negative. -/
theorem admitBatch_frame (hcount : 0 ≤ (ns.taskCounts (.pending taskKey)).getD 0) :
    (admitBatch now maxAdmitted dedupeEnqueue taskKey jobs ns).2.producerGate = ns.producerGate ∧
      0 ≤ ((admitBatch now maxAdmitted dedupeEnqueue taskKey jobs ns).2.taskCounts
        (.pending taskKey)).getD 0 := by
  have hloop : ∀ loop : EnqueueLoop, loop.ns.producerGate = ns.producerGate ∧
      loop.ns.taskCounts = ns.taskCounts →
      (jobs.foldl (admitOne now maxAdmitted dedupeEnqueue ns.producerGate) loop).ns.producerGate =
        ns.producerGate ∧
      (jobs.foldl (admitOne now maxAdmitted dedupeEnqueue ns.producerGate) loop).ns.taskCounts =
        ns.taskCounts := by
    induction jobs with
    | nil => exact fun _ h => h
    | cons job jobs ih =>
      intro loop h
      obtain ⟨hgate, hcounts⟩ := @admitOne_frame now maxAdmitted dedupeEnqueue ns.producerGate loop
        job
      exact ih _ ⟨hgate.trans h.1, hcounts.trans h.2⟩
  obtain ⟨hgate, hcounts⟩ := hloop ns.opened ⟨rfl, rfl⟩
  refine ⟨hgate, ?_⟩
  simp only [admitBatch, EnqueueLoop.settle, hcounts]
  exact counted_nonneg hcount

theorem admitAll_frame (hcount : 0 ≤ (ns.taskCounts (.pending taskKey)).getD 0) :
    (admitAll now maxAdmitted dedupeEnqueue taskKey batches ns).2.producerGate = ns.producerGate ∧
      0 ≤ ((admitAll now maxAdmitted dedupeEnqueue taskKey batches ns).2.taskCounts
        (.pending taskKey)).getD 0 := by
  induction batches generalizing ns with
  | nil => exact ⟨rfl, hcount⟩
  | cons batch batches ih =>
    obtain ⟨hgate, hcount'⟩ := @admitBatch_frame now maxAdmitted dedupeEnqueue taskKey ns batch hcount
    obtain ⟨hgates, hcounts⟩ := ih hcount'
    exact ⟨hgates.trans hgate, hcounts⟩

/-- The batches do what the single jobs do, if each batch does where the jobs before it were
admitted one at a time. -/
theorem admitAll_refines (before : List Submission)
    (hbatch : ∀ done batch after, before ++ batches.flatten = done ++ batch ++ after →
      batch ∈ batches →
        admitBatch now maxAdmitted dedupeEnqueue taskKey batch
            (admitAll now maxAdmitted dedupeEnqueue taskKey (done.map ([·])) ns).2 =
          admitAll now maxAdmitted dedupeEnqueue taskKey (batch.map ([·]))
            (admitAll now maxAdmitted dedupeEnqueue taskKey (done.map ([·])) ns).2) :
    admitAll now maxAdmitted dedupeEnqueue taskKey batches
        (admitAll now maxAdmitted dedupeEnqueue taskKey (before.map ([·])) ns).2 =
      admitAll now maxAdmitted dedupeEnqueue taskKey (batches.flatten.map ([·]))
        (admitAll now maxAdmitted dedupeEnqueue taskKey (before.map ([·])) ns).2 := by
  induction batches generalizing before with
  | nil => rfl
  | cons batch batches ih =>
    have hfirst := hbatch before batch batches.flatten (by simp) List.mem_cons_self
    have hlater := ih (before ++ batch) fun done b after hsplit hb =>
      hbatch done b after (by simpa using hsplit) (List.mem_cons_of_mem _ hb)
    rw [List.map_append, admitAll_append] at hlater
    rw [List.flatten_cons, List.map_append, admitAll_append, ← hlater]
    simp only [admitAll, hfirst]

end Simulation

/-- The ids of the jobs that have some wait budget left. -/
def candidateIds (now : ℚ) (jobs : List Submission) : List String :=
  (jobs.filter fun job => (prepareJob now job.1 job.2).isSome).map fun job => job.1.jobId

/-- How many members the ids would add to pending. -/
def Namespace.freshIds (ns : Namespace) (ids : List String) : ℕ :=
  (ids.toFinset.filter (· ∉ ns.pending)).card

/-- Where the jobs before a job leave room for it, the room does not depend on whether the up to 24
jobs directly before it repeat an id. -/
def Roomy (now : ℚ) (maxAdmitted : ℕ) (ns : Namespace) (jobs : List Submission) : Prop :=
  ∀ before window job after, jobs = before ++ window ++ job :: after →
    window.length < dispatchLuaBatchSize → (prepareJob now job.1 job.2).isSome →
      ns.admitted + ns.freshIds (candidateIds now (before ++ window)) < maxAdmitted →
        ns.admitted + ns.freshIds (candidateIds now before) + (candidateIds now window).length <
          maxAdmitted

/-- Pending has been filled with the ids, at least until there was no room. -/
structure Filled (maxAdmitted : ℕ) (ns : Namespace) (ids : List String) (filled : Namespace) :
    Prop where
  reserved : filled.reserved = ns.reserved
  members : ∀ id ∈ filled.pending, id ∈ ns.pending ∨ id ∈ ids
  kept : ∀ id ∈ ns.pending, id ∈ filled.pending
  all : filled.admitted < maxAdmitted → ∀ id ∈ ids, id ∈ filled.pending

section Room

variable {now : ℚ} {maxAdmitted : ℕ} {taskKey : String} {loop : EnqueueLoop}
  {ns filled : Namespace} {job : Submission} {jobs done : List Submission} {ids more : List String}

theorem candidateIds_append :
    candidateIds now (jobs ++ done) = candidateIds now jobs ++ candidateIds now done := by
  simp [candidateIds]

theorem zcard_eq_card (z : SortedSet String) : zcard z = z.keys.toFinset.card :=
  (List.toFinset_card_of_nodup z.keys_nodup).symm

/-- The members of a sorted set and the ids that are not among them. -/
theorem card_with_fresh :
    zcard ns.pending + ns.freshIds ids = (ns.pending.keys.toFinset ∪ ids.toFinset).card := by
  rw [zcard_eq_card, Namespace.freshIds, ← Finset.union_sdiff_self_eq_union,
    Finset.card_union_of_disjoint Finset.disjoint_sdiff]
  congr 2
  ext id
  simp [AList.mem_keys]

theorem freshIds_mono (h : ids ⊆ more) : ns.freshIds ids ≤ ns.freshIds more := by
  apply Finset.card_le_card
  apply Finset.filter_subset_filter
  exact fun id hid => List.mem_toFinset.mpr (h (List.mem_toFinset.mp hid))

theorem Filled.le (h : Filled maxAdmitted ns ids filled) :
    filled.admitted ≤ ns.admitted + ns.freshIds ids := by
  have hcard : zcard filled.pending ≤ zcard ns.pending + ns.freshIds ids := by
    rw [card_with_fresh, zcard_eq_card]
    apply Finset.card_le_card
    intro id hid
    simpa [AList.mem_keys] using h.members id (AList.mem_keys.mp (List.mem_toFinset.mp hid))
  simp only [Namespace.admitted, h.reserved]
  omega

theorem Filled.eq (h : Filled maxAdmitted ns ids filled) (hroom : filled.admitted < maxAdmitted) :
    filled.admitted = ns.admitted + ns.freshIds ids := by
  have hcard : zcard ns.pending + ns.freshIds ids ≤ zcard filled.pending := by
    rw [card_with_fresh, zcard_eq_card]
    apply Finset.card_le_card
    intro id hid
    rw [Finset.mem_union, List.mem_toFinset, List.mem_toFinset] at hid
    rw [List.mem_toFinset]
    rcases hid with hid | hid
    · exact AList.mem_keys.mp (h.kept id (AList.mem_keys.mpr hid))
    · exact AList.mem_keys.mp (h.all hroom id hid)
  have hle := h.le
  simp only [Namespace.admitted, h.reserved] at hle ⊢
  omega

theorem prepareJob_jobId {wait : ℤ} {prepared : DispatchJob × ℕ}
    (h : prepareJob now job.1 wait = some prepared) : prepared.1.jobId = job.1.jobId := by
  unfold prepareJob at h
  split at h
  · cases h
    rfl
  · cases h

/-- What a turn does without dedupe and behind an open gate. -/
theorem admitOne_open {prepared : DispatchJob × ℕ}
    (hp : prepareJob now job.1 job.2 = some prepared) :
    admitOne now maxAdmitted false false loop job =
      if loop.admitted < maxAdmitted then loop.accept now loop.ns (enqueueEntry false prepared)
      else loop.finish .capacityRejected := by
  simp only [admitOne, hp]
  split
  · rename_i hroom
    exact enqueueOne_fills hroom
  · rename_i hfull
    simp [enqueueOne, Nat.not_lt.mp hfull]

/-- Without dedupe and behind an open gate a turn adds its id, or there is no room. -/
theorem filled_step (h : Filled maxAdmitted ns ids loop.ns)
    (hroom : (prepareJob now job.1 job.2).isSome → loop.ns.admitted < maxAdmitted →
      loop.admitted < maxAdmitted) :
    Filled maxAdmitted ns (ids ++ candidateIds now [job])
      (admitOne now maxAdmitted false false loop job).ns := by
  cases hp : prepareJob now job.1 job.2 with
  | none => simpa [admitOne, hp, candidateIds, EnqueueLoop.finish] using h
  | some prepared =>
    have hcandidate : candidateIds now [job] = [job.1.jobId] := by simp [candidateIds, hp]
    have hid : (enqueueEntry false prepared).jobId = job.1.jobId := prepareJob_jobId hp
    rw [hcandidate, admitOne_open hp]
    split
    · rename_i hopen
      have hmono : loop.ns.admitted ≤ (loop.ns.enter now (enqueueEntry false prepared)).admitted :=
        Nat.add_le_add_right zcard_le_zadd _
      refine ⟨h.reserved, fun id hmem => ?_, fun id hmem => ?_, fun hstill id hmem => ?_⟩
      · simp only [EnqueueLoop.accept, Namespace.enter, mem_zadd, hid] at hmem
        rcases hmem with rfl | hmem
        · exact .inr (by simp)
        · exact (h.members id hmem).imp_right fun hin => by simp [hin]
      · simp only [EnqueueLoop.accept, Namespace.enter, mem_zadd]
        exact .inr (h.kept id hmem)
      · simp only [EnqueueLoop.accept, Namespace.enter, mem_zadd, hid]
        rcases List.mem_append.mp hmem with hmem | hmem
        · exact .inr (h.all (lt_of_le_of_lt hmono hstill) id hmem)
        · exact .inl (List.mem_singleton.mp hmem)
    · rename_i hfull
      refine ⟨h.reserved, fun id hmem => ?_, h.kept, fun hstill => ?_⟩
      · exact (h.members id hmem).imp_right fun hin => by simp [hin]
      · exact absurd (hroom (by simp [hp]) hstill) hfull

theorem filled_ones (hgate : ns.producerGate = false)
    (hcount : 0 ≤ (ns.taskCounts (.pending taskKey)).getD 0) :
    Filled maxAdmitted ns (candidateIds now done)
      (admitAll now maxAdmitted false taskKey (done.map ([·])) ns).2 := by
  induction done using List.reverseRecOn with
  | nil => exact ⟨rfl, fun id hid => .inl hid, fun id hid => hid, fun _ id hid => by cases hid⟩
  | append_singleton done job ih =>
    have hopen := (@admitAll_frame now maxAdmitted false taskKey ns (done.map ([·])) hcount).1
    rw [List.map_append, admitAll_append, candidateIds_append]
    have hnext := @filled_step now maxAdmitted (admitAll now maxAdmitted false taskKey
      (done.map ([·])) ns).2.opened ns job _ ih fun _ h => h
    simp only [List.map_cons, List.map_nil, admitAll, admitBatch, List.foldl_cons, List.foldl_nil,
      hopen, hgate]
    exact ⟨hnext.reserved, hnext.members, hnext.kept, hnext.all⟩

theorem admitBatch_refines_checked {dedupeEnqueue : Bool}
    (hmode : dedupeEnqueue = true ∨ ns.producerGate = true)
    (hcount : 0 ≤ (ns.taskCounts (.pending taskKey)).getD 0) :
    admitBatch now maxAdmitted dedupeEnqueue taskKey jobs ns =
      admitAll now maxAdmitted dedupeEnqueue taskKey (jobs.map ([·])) ns := by
  refine admitBatch_refines (P := fun _ loop => loop.admitted = loop.ns.admitted) hcount rfl ?_ ?_
  · intro done job rest loop _ _ htracks
    exact admitOne_tracks hmode htracks
  · intro done job rest loop _ htracks _ _
    rw [htracks]

/-- The loop variables of a batch without dedupe, the jobs `before` and `done` behind it. -/
structure Rooming (now : ℚ) (maxAdmitted : ℕ) (ns start : Namespace) (before done : List Submission)
    (loop : EnqueueLoop) : Prop where
  filled : Filled maxAdmitted ns (candidateIds now (before ++ done)) loop.ns
  atLeast : loop.ns.admitted ≤ loop.admitted
  counted : loop.ns.admitted < maxAdmitted →
    loop.admitted = start.admitted + (candidateIds now done).length

theorem rooming_step {start : Namespace} {before : List Submission}
    (h : Rooming now maxAdmitted ns start before done loop)
    (hroom : (prepareJob now job.1 job.2).isSome → loop.ns.admitted < maxAdmitted →
      loop.admitted < maxAdmitted) :
    Rooming now maxAdmitted ns start before (done ++ [job])
      (admitOne now maxAdmitted false false loop job) := by
  have hfilled : Filled maxAdmitted ns (candidateIds now (before ++ (done ++ [job])))
      (admitOne now maxAdmitted false false loop job).ns := by
    rw [← List.append_assoc, candidateIds_append]
    exact filled_step h.filled hroom
  refine ⟨hfilled, ?_, ?_⟩
  · cases hp : prepareJob now job.1 job.2 with
    | none => simpa [admitOne, hp, EnqueueLoop.finish] using h.atLeast
    | some prepared =>
      have hatLeast := h.atLeast
      rw [admitOne_open hp]
      split
      · have hadd := @zcard_zadd_le _ loop.ns.pending (enqueueEntry false prepared).jobId
          (enqueueEntry false prepared).score _
        simp only [EnqueueLoop.accept, Namespace.enter, Namespace.admitted] at hatLeast ⊢
        omega
      · exact hatLeast
  · cases hp : prepareJob now job.1 job.2 with
    | none => simpa [admitOne, hp, EnqueueLoop.finish, candidateIds_append, candidateIds] using h.counted
    | some prepared =>
      rw [admitOne_open hp]
      split
      · intro hstill
        have hadd : loop.ns.admitted ≤ (loop.ns.enter now (enqueueEntry false prepared)).admitted :=
          Nat.add_le_add_right zcard_le_zadd _
        have := h.counted (lt_of_le_of_lt hadd hstill)
        have hone : (candidateIds now [job]).length = 1 := by simp [candidateIds, hp]
        simp only [EnqueueLoop.accept, candidateIds_append, List.length_append, hone]
        omega
      · rename_i hfull
        intro hstill
        exact absurd (hroom (by simp [hp]) hstill) hfull

theorem admitBatch_refines_roomy {before batch after : List Submission}
    (hgate : ns.producerGate = false) (hcount : 0 ≤ (ns.taskCounts (.pending taskKey)).getD 0)
    (hroomy : Roomy now maxAdmitted ns (before ++ batch ++ after))
    (hlength : batch.length ≤ dispatchLuaBatchSize) :
    admitBatch now maxAdmitted false taskKey batch
        (admitAll now maxAdmitted false taskKey (before.map ([·])) ns).2 =
      admitAll now maxAdmitted false taskKey (batch.map ([·]))
        (admitAll now maxAdmitted false taskKey (before.map ([·])) ns).2 := by
  have hstart : Filled maxAdmitted ns (candidateIds now before)
      (admitAll now maxAdmitted false taskKey (before.map ([·])) ns).2 := filled_ones hgate hcount
  obtain ⟨hopen, hcount'⟩ := @admitAll_frame now maxAdmitted false taskKey ns (before.map ([·]))
    hcount
  generalize (admitAll now maxAdmitted false taskKey (before.map ([·])) ns).2 = start at *
  rw [hgate] at hopen
  have hroom : ∀ done job rest loop, batch = done ++ job :: rest →
      Rooming now maxAdmitted ns start before done loop → (prepareJob now job.1 job.2).isSome →
        loop.ns.admitted < maxAdmitted → loop.admitted < maxAdmitted := by
    intro done job rest loop hbatch hloop hprepared hstill
    have hle := hstart.le
    have heq := hloop.filled.eq hstill
    have hshort : done.length < dispatchLuaBatchSize := by
      have := congrArg List.length hbatch
      simp only [List.length_append, List.length_cons] at this
      omega
    have := hroomy before done job (rest ++ after) (by simp [hbatch]) hshort hprepared (by omega)
    rw [hloop.counted hstill]
    omega
  refine admitBatch_refines (P := Rooming now maxAdmitted ns start before) hcount' ?_ ?_ ?_
  · rw [← List.append_nil before] at hstart
    exact ⟨hstart, le_rfl, fun _ => rfl⟩
  · intro done job rest loop hbatch _ hloop
    rw [hopen]
    exact rooming_step hloop (hroom done job rest loop hbatch hloop)
  · intro done job rest loop hbatch hloop hprepared _
    have hatLeast := hloop.atLeast
    have := hroom done job rest loop hbatch hloop hprepared
    omega

/-- Without dedupe the running count goes up with every job until it reaches the limit. -/
theorem admitted_foldl (hfull : maxAdmitted ≤ loop.admitted + (candidateIds now jobs).length) :
    maxAdmitted ≤ (jobs.foldl (admitOne now maxAdmitted false false) loop).admitted := by
  induction jobs generalizing loop with
  | nil => exact hfull
  | cons job jobs ih =>
    apply ih
    have hcons : candidateIds now (job :: jobs) = candidateIds now [job] ++ candidateIds now jobs :=
      @candidateIds_append now [job] jobs
    rw [hcons, List.length_append] at hfull
    cases hp : prepareJob now job.1 job.2 with
    | none => simpa [candidateIds, admitOne, hp, EnqueueLoop.finish] using hfull
    | some prepared =>
      have hone : (candidateIds now [job]).length = 1 := by simp [candidateIds, hp]
      rw [admitOne_open hp]
      split
      · simp only [EnqueueLoop.accept]
        omega
      · simp only [EnqueueLoop.finish]
        omega

theorem length_statuses {dedupeEnqueue paused : Bool} :
    (jobs.foldl (admitOne now maxAdmitted dedupeEnqueue paused) loop).statuses.length =
      loop.statuses.length + jobs.length := by
  induction jobs generalizing loop with
  | nil => rfl
  | cons job jobs ih =>
    have hone : (admitOne now maxAdmitted dedupeEnqueue paused loop job).statuses.length =
        loop.statuses.length + 1 := by
      rcases admitOne_cases now maxAdmitted dedupeEnqueue paused loop job with
        ⟨status, hnext⟩ | ⟨claimed, entry, -, -, -, hnext⟩
      · simp [hnext, EnqueueLoop.finish]
      · simp [hnext, EnqueueLoop.accept]
    rw [List.foldl_cons, ih, hone, List.length_cons]
    omega

theorem length_admitAll {dedupeEnqueue : Bool} :
    (admitAll now maxAdmitted dedupeEnqueue taskKey (jobs.map ([·])) ns).1.length = jobs.length := by
  induction jobs generalizing ns with
  | nil => rfl
  | cons job jobs ih =>
    simp only [List.map_cons, admitAll, List.length_append, ih, admitBatch, length_statuses]
    simp [Namespace.opened, Nat.add_comm]

theorem flatten_ones : (jobs.map ([·])).flatten = jobs := by
  rw [← List.flatMap_def]
  exact List.flatMap_singleton' jobs

theorem admitBatch_one {prepared : DispatchJob × ℕ} (hgate : ns.producerGate = false)
    (hp : prepareJob now job.1 job.2 = some prepared) (hroom : ns.admitted < maxAdmitted) :
    (admitBatch now maxAdmitted false taskKey [job] ns).1 = [.accepted] := by
  have hopened : ns.opened.admitted < maxAdmitted := hroom
  simp only [admitBatch, hgate, List.foldl_cons, List.foldl_nil, admitOne_open hp, if_pos hopened]
  rfl

/-- The last job of a batch is rejected when counting every job before it uses up the room. -/
theorem admitBatch_full {prepared : DispatchJob × ℕ} (hgate : ns.producerGate = false)
    (hp : prepareJob now job.1 job.2 = some prepared)
    (hfull : maxAdmitted ≤ ns.admitted + (candidateIds now jobs).length) :
    ∃ statuses : List EnqueueStatus, statuses.length = jobs.length ∧
      (admitBatch now maxAdmitted false taskKey (jobs ++ [job]) ns).1 =
        statuses ++ [.capacityRejected] := by
  have hcounted : maxAdmitted ≤ (jobs.foldl (admitOne now maxAdmitted false false)
      ns.opened).admitted := admitted_foldl hfull
  refine ⟨(jobs.foldl (admitOne now maxAdmitted false false) ns.opened).statuses, ?_, ?_⟩
  · rw [length_statuses]
    exact Nat.zero_add _
  · simp only [admitBatch, hgate, List.foldl_append, List.foldl_cons, List.foldl_nil,
      admitOne_open hp, if_neg (not_lt.mpr hcounted)]
    rfl

/-- A job that is rejected only because of repeated ids before it makes its batch differ. -/
theorem roomy_of_refines (hgate : ns.producerGate = false)
    (hcount : 0 ≤ (ns.taskCounts (.pending taskKey)).getD 0)
    (hrefines : ∀ batches, batches.flatten = jobs →
      (∀ batch ∈ batches, batch.length ≤ dispatchLuaBatchSize) →
        (admitAll now maxAdmitted false taskKey batches ns).1 =
          (admitAll now maxAdmitted false taskKey (jobs.map ([·])) ns).1) :
    Roomy now maxAdmitted ns jobs := by
  intro before window job after hjobs hshort hprepared hroom
  by_contra hfull
  obtain ⟨prepared, hp⟩ := Option.isSome_iff_exists.mp hprepared
  have hsmall : ∀ batch ∈ before.map ([·]) ++ (window ++ [job]) :: after.map ([·]),
      batch.length ≤ dispatchLuaBatchSize := by
    intro batch hbatch
    simp only [List.mem_append, List.mem_cons, List.mem_map] at hbatch
    rcases hbatch with ⟨one, -, rfl⟩ | rfl | ⟨one, -, rfl⟩
    · exact Nat.le_add_left 1 24
    · simpa using Nat.succ_le_of_lt hshort
    · exact Nat.le_add_left 1 24
  have hflat : (before.map ([·]) ++ (window ++ [job]) :: after.map ([·])).flatten = jobs := by
    rw [List.flatten_append, List.flatten_cons, flatten_ones, flatten_ones, hjobs]
    simp
  have hsame := hrefines _ hflat hsmall
  have hfilled : ∀ seen : List Submission, Filled maxAdmitted ns (candidateIds now seen)
      (admitAll now maxAdmitted false taskKey (seen.map ([·])) ns).2 := fun _ =>
    filled_ones hgate hcount
  have hopen : ∀ seen : List Submission,
      (admitAll now maxAdmitted false taskKey (seen.map ([·])) ns).2.producerGate = false :=
    fun _ => (admitAll_frame hcount).1.trans hgate
  have hless := @freshIds_mono ns _ (candidateIds now (before ++ window))
    (candidateIds_append ▸ List.subset_append_left _ (candidateIds now window))
  have hbefore := (hfilled before).le
  have hwindow := (hfilled (before ++ window)).le
  have heq := (hfilled before).eq (by omega)
  have hone := @admitBatch_one now maxAdmitted taskKey _ job prepared (hopen (before ++ window)) hp
    (by omega)
  obtain ⟨statuses, hlength, hlast⟩ := @admitBatch_full now maxAdmitted taskKey _ job window prepared
    (hopen before) hp (by omega)
  rw [hjobs, List.map_append, List.map_cons, admitAll_append, admitAll_append] at hsame
  simp only [admitAll, hone, hlast] at hsame
  rw [List.append_assoc, List.singleton_append, List.singleton_append, ← List.append_assoc] at hsame
  have hlengths := List.append_inj_right hsame
    (by rw [List.length_append, length_admitAll, length_admitAll, List.length_append, hlength])
  cases (List.cons.inj hlengths).1

theorem admitAll_eq_ones {dedupeEnqueue : Bool} {batches : List (List Submission)}
    (hcount : 0 ≤ (ns.taskCounts (.pending taskKey)).getD 0)
    (hmode : dedupeEnqueue = true ∨ ns.producerGate = true ∨
      Roomy now maxAdmitted ns batches.flatten)
    (hlength : ∀ batch ∈ batches, batch.length ≤ dispatchLuaBatchSize) :
    admitAll now maxAdmitted dedupeEnqueue taskKey batches ns =
      admitAll now maxAdmitted dedupeEnqueue taskKey (batches.flatten.map ([·])) ns := by
  refine @admitAll_refines now maxAdmitted dedupeEnqueue taskKey ns batches [] ?_
  intro done batch after hsplit hmem
  rw [List.nil_append] at hsplit
  obtain ⟨hgate, hcount'⟩ := @admitAll_frame now maxAdmitted dedupeEnqueue taskKey ns
    (done.map ([·])) hcount
  by_cases hchecked : dedupeEnqueue = true ∨ ns.producerGate = true
  · exact admitBatch_refines_checked (hchecked.imp_right hgate.trans) hcount'
  · have hroomy := (or_assoc.mpr hmode).resolve_left hchecked
    obtain ⟨rfl, hopen⟩ : dedupeEnqueue = false ∧ ns.producerGate = false := by
      simpa using hchecked
    exact admitBatch_refines_roomy hopen hcount (hsplit ▸ hroomy) (hlength batch hmem)

/-- Admitting in batches does what admitting one at a time does exactly when duplicates are checked
for, or the gate is closed, or no job is turned away only because of repeated ids before it. -/
theorem batches_refine_iff {dedupeEnqueue : Bool} {m : ℤ}
    (htask : ∀ job ∈ jobs, job.1.taskKey = taskKey) (hcounts : CountsPositive ns.taskCounts) :
    (∀ batches, batches.flatten = jobs →
      (∀ batch ∈ batches, batch.length ≤ dispatchLuaBatchSize) →
        Refines now dedupeEnqueue m taskKey batches ns) ↔
    dedupeEnqueue = true ∨ ns.producerGate = true ∨ Roomy now (max 1 m).toNat ns jobs := by
  have hcount := hcounts.nonneg taskKey
  have hrun : ∀ batches : List (List Submission), batches.flatten = jobs →
      (∀ batch ∈ batches, batch.length ≤ dispatchLuaBatchSize) →
        admitBatches now dedupeEnqueue m batches ns =
          .ok (admitAll now (max 1 m).toNat dedupeEnqueue taskKey batches ns) :=
    fun batches hflat hlength => admitBatches_eq hlength (by rwa [hflat])
  have hsingle : admitBatches now dedupeEnqueue m (jobs.map ([·])) ns =
      .ok (admitAll now (max 1 m).toNat dedupeEnqueue taskKey (jobs.map ([·])) ns) := by
    apply hrun _ flatten_ones
    intro batch hbatch
    obtain ⟨one, -, rfl⟩ := List.mem_map.mp hbatch
    exact Nat.le_add_left 1 24
  constructor
  · intro hrefines
    rcases Bool.eq_false_or_eq_true dedupeEnqueue with hd | hd
    · exact .inl hd
    rcases Bool.eq_false_or_eq_true ns.producerGate with hg | hg
    · exact .inr (.inl hg)
    refine .inr (.inr (roomy_of_refines hg hcount fun batches hflat hlength => ?_))
    obtain ⟨r, r', hr, hr', hsame⟩ := hrefines batches hflat hlength
    rw [hrun batches hflat hlength] at hr
    rw [hflat, hsingle] at hr'
    subst hd
    cases hr
    cases hr'
    exact hsame.statuses
  · intro hmode batches hflat hlength
    subst hflat
    refine ⟨_, _, hrun batches rfl hlength, hsingle, ?_⟩
    rw [admitAll_eq_ones hcount hmode hlength]
    exact ⟨rfl, rfl, rfl, rfl, rfl⟩

end Room

/-- A work item of the sample task, with 600 seconds to wait. -/
def portraitItem (workItemId : String) : Submission :=
  ({ portraitJob with jobId := buildJobId "portrait" workItemId, workItemId }, 600)

theorem batches_refine_iff_checked :
    Refines 0 true 2 "portrait" [[portraitItem "7", portraitItem "7"], [portraitItem "8"]]
      .empty := by
  refine (batches_refine_iff ?_ fun _ _ hn => by cases hn).mpr (.inl rfl) _ rfl (by decide)
  simp [portraitItem, portraitJob]

/-- Two places, and work item 7 submitted twice before 8: the batch turns 8 away, behind two accepted
jobs that are one member. -/
theorem batch_counts_repeated_id :
    (admitBatches 0 false 2 [[portraitItem "7", portraitItem "7", portraitItem "8"]] .empty).map
        Prod.fst = .ok [.accepted, .accepted, .capacityRejected] ∧
      (admitBatches 0 false 2 [[portraitItem "7"], [portraitItem "7"], [portraitItem "8"]]
        .empty).map Prod.fst = .ok [.accepted, .accepted, .accepted] ∧
      ¬ Refines 0 false 2 "portrait" [[portraitItem "7", portraitItem "7", portraitItem "8"]]
        .empty := by
  have hbatch : (admitBatches 0 false 2 [[portraitItem "7", portraitItem "7", portraitItem "8"]]
      .empty).map Prod.fst = .ok [.accepted, .accepted, .capacityRejected] := by decide +kernel
  have hsingle : (admitBatches 0 false 2 [[portraitItem "7"], [portraitItem "7"],
      [portraitItem "8"]] .empty).map Prod.fst = .ok [.accepted, .accepted, .accepted] := by
    decide +kernel
  refine ⟨hbatch, hsingle, fun ⟨r, r', hr, hr', hsame⟩ => ?_⟩
  have hones : [[portraitItem "7", portraitItem "7", portraitItem "8"]].flatten.map ([·]) =
      [[portraitItem "7"], [portraitItem "7"], [portraitItem "8"]] := rfl
  rw [hones] at hr'
  rw [hr] at hbatch
  rw [hr'] at hsingle
  have hne := (Except.ok.inj hbatch).symm.trans (hsame.statuses.trans (Except.ok.inj hsingle))
  exact absurd hne (by decide)

end Dispatch
