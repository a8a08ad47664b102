import BluekingDbm.Dispatch.Pump

/-! What becomes of the jobs of a tick whose publishing fails. -/
namespace Dispatch

open Redis

/-- The queue's record of a job: the payload is the job, and the job waits at its own time. -/
structure Recorded (queue : String) (ns : Namespace) (job : DispatchJob) : Prop where
  stored : (ns.jobs job.jobId).map Entry.value = some job
  owned : job.ns = queue
  scored : ∀ score, zscore ns.pending job.jobId = some score → score = job.readyAt

/-- The job is pending at its own time, and nothing of its payload has changed but the deadline. -/
structure Waiting (deadline : ℚ) (job : DispatchJob) (ns : Namespace) : Prop where
  score : zscore ns.pending job.jobId = some job.readyAt
  slot : job.jobId ∉ ns.reserved
  payload : (ns.jobs job.jobId).map Entry.value = some { job with waitDeadlineAt := deadline }

/-- Nothing is left of the job. -/
structure Discarded (job : DispatchJob) (ns : Namespace) : Prop where
  pending : job.jobId ∉ ns.pending
  slot : job.jobId ∉ ns.reserved
  payload : ns.jobs job.jobId = none

/-- The wait deadline of the job has passed when the clock is read for its requeue. -/
def DeadlinePassed (env : PumpEnv) (job : DispatchJob) : Prop :=
  job.waitDeadlineAt ≠ 0 ∧ ∃ n, job.waitDeadlineAt ≤ env.requeueAt n

/-- What can become of a job, where `Kept` says which deadlines a job that waits may have. -/
inductive Fate (env : PumpEnv) (Kept : DispatchJob → ℚ → Prop) (published : List String)
    (job : DispatchJob) (ns : Namespace) : Prop
  | published (hpublished : job.jobId ∈ published) (hslot : job.jobId ∈ ns.reserved)
  | waiting {deadline : ℚ} (hkept : Kept job deadline) (hwaiting : Waiting deadline job ns)
  | discarded (hpassed : DeadlinePassed env job) (hgone : Discarded job ns)

/-- The deadline is that of the job. -/
def Unextended (job : DispatchJob) (deadline : ℚ) : Prop := deadline = job.waitDeadlineAt

/-- The deadline is that of the job, or the job had none. -/
def NeverExtended (job : DispatchJob) (deadline : ℚ) : Prop :=
  job.waitDeadlineAt ≠ 0 → deadline = job.waitDeadlineAt

section Requeue

variable {env : PumpEnv} {registry : Registry} {queue : String} {now readyAt : ℚ} {ttl : ℤ}
  {job other : DispatchJob} {fleet : Fleet} {deadline : ℚ} {index n : ℕ} {id : String}
  {before after : Namespace} {pairs : List (DispatchJob × ReservationStatus)}

/-- An existing deadline is not extended, and no time is left only where it has passed. -/
theorem computeWaitDeadline_kept (hset : job.waitDeadlineAt ≠ 0) :
    (computeWaitDeadline now readyAt ttl job.waitDeadlineAt).1 = job.waitDeadlineAt := by
  unfold computeWaitDeadline
  rw [if_neg hset]
  dsimp only
  split <;> rfl

theorem computeWaitDeadline_spent
    (h : (computeWaitDeadline now readyAt ttl job.waitDeadlineAt).2 = none) :
    job.waitDeadlineAt ≠ 0 ∧ job.waitDeadlineAt ≤ now := by
  unfold computeWaitDeadline at h
  dsimp only at h
  split at h
  · cases h
  · rename_i hset
    refine ⟨hset, ?_⟩
    split at h
    · rename_i hspent
      have hceil : ⌈job.waitDeadlineAt - now⌉ ≤ 0 := by omega
      have hdiff := Int.ceil_le.mp hceil
      rw [Int.cast_zero] at hdiff
      linarith
    · cases h

theorem Waiting.of_same (h : Waiting deadline job before) (hsame : Same job.jobId before after) :
    Waiting deadline job after := by
  refine ⟨hsame.pending.trans h.score, fun hin => h.slot (hsame.reserved.mp hin), ?_⟩
  rw [hsame.jobs, h.payload]

theorem Discarded.of_same (h : Discarded job before) (hsame : Same job.jobId before after) :
    Discarded job after :=
  ⟨fun hin => h.pending (hsame.mem_pending.mp hin), fun hin => h.slot (hsame.reserved.mp hin),
    hsame.jobs.trans h.payload⟩

/-- A requeue touches no other job. -/
theorem same_requeueOrDiscard (hid : id ≠ job.jobId) :
    Same id (fleet queue) (requeueOrDiscard registry now queue job readyAt ttl fleet queue) := by
  unfold requeueOrDiscard requeue
  cases hdeadline : computeWaitDeadline now readyAt ttl job.waitDeadlineAt with
  | mk deadline left =>
    cases left with
    | none =>
      dsimp only
      exact same_discard hid
    | some left =>
      dsimp only
      by_cases hslot : job.jobId ∈ (fleet queue).reserved
      · rw [requeueJobLua_of_mem hslot]
        dsimp only
        rw [if_neg (by decide)]
        dsimp only
        rw [Function.update_self]
        constructor
        · simp [zscore_zadd_ne hid]
        · simp [hid]
        · simp [setEx_ne hid]
      · rw [requeueJobLua_of_not_mem hslot]
        dsimp only
        rw [if_pos rfl]
        dsimp only
        rw [Function.update_self]
        exact Same.refl id _

/-- A job in a slot waits again, or its deadline has passed. -/
theorem requeueOrDiscard_spec (hq : queue ≠ "") (howned : job.ns = queue)
    (hslot : job.jobId ∈ (fleet queue).reserved) :
    (∃ deadline, NeverExtended job deadline ∧
      Waiting deadline job (requeueOrDiscard registry now queue job job.readyAt ttl fleet queue)) ∨
    (job.waitDeadlineAt ≠ 0 ∧ job.waitDeadlineAt ≤ now) ∧
      Discarded job (requeueOrDiscard registry now queue job job.readyAt ttl fleet queue) := by
  unfold requeueOrDiscard requeue
  have hkept := @computeWaitDeadline_kept now job.readyAt ttl job
  have hspent := @computeWaitDeadline_spent now job.readyAt ttl job
  generalize computeWaitDeadline now job.readyAt ttl job.waitDeadlineAt = reply at hkept hspent ⊢
  obtain ⟨deadline, left⟩ := reply
  cases left with
  | none =>
    right
    refine ⟨hspent rfl, ?_⟩
    dsimp only
    rw [howned, discard_target hq]
    constructor
    · simp [Namespace.wipe]
    · simp [Namespace.wipe]
    · simp [Namespace.wipe, delKey_self]
  | some left =>
    left
    refine ⟨deadline, hkept, ?_⟩
    dsimp only
    rw [requeueJobLua_of_mem hslot]
    dsimp only
    rw [if_neg (by decide)]
    dsimp only
    rw [Function.update_self]
    constructor
    · simp
    · simp
    · simp [setEx_self, requeuedJob]

/-- A job that was reserved and not published waits again, or its deadline has passed. -/
def GivenBack (env : PumpEnv) (job : DispatchJob) (ns : Namespace) : Prop :=
  (∃ deadline, NeverExtended job deadline ∧ Waiting deadline job ns) ∨
    DeadlinePassed env job ∧ Discarded job ns

theorem GivenBack.of_same (h : GivenBack env job before) (hsame : Same job.jobId before after) :
    GivenBack env job after := by
  rcases h with ⟨deadline, hkept, hwaiting⟩ | ⟨hpassed, hgone⟩
  · exact Or.inl ⟨deadline, hkept, hwaiting.of_same hsame⟩
  · exact Or.inr ⟨hpassed, hgone.of_same hsame⟩

theorem mem_reservedIds : id ∈ reservedIds pairs ↔ ∃ job, (job, .reserved) ∈ pairs ∧ job.jobId = id := by
  simp [reservedIds, reservedJobs]

/-- The tail gives back its reserved jobs and touches no other one. -/
theorem requeueReservedTail_spec (hq : env.queue ≠ "") (hnodup : (reservedIds pairs).Nodup)
    (hslots : ∀ id ∈ reservedIds pairs, id ∈ (fleet env.queue).reserved) :
    (∀ id, id ∉ reservedIds pairs →
      Same id (fleet env.queue) (requeueReservedTail env index pairs fleet env.queue)) ∧
    ∀ job, (job, .reserved) ∈ pairs → job.ns = env.queue →
      GivenBack env job (requeueReservedTail env index pairs fleet env.queue) := by
  induction pairs generalizing index fleet with
  | nil => exact ⟨fun id _ => Same.refl id _, fun job hin => by cases hin⟩
  | cons pair pairs ih =>
    obtain ⟨job, status⟩ := pair
    unfold requeueReservedTail
    by_cases hstatus : status = .reserved
    · subst hstatus
      rw [if_pos rfl]
      have hcons : reservedIds ((job, .reserved) :: pairs) = job.jobId :: reservedIds pairs := rfl
      rw [hcons] at hnodup hslots ⊢
      obtain ⟨hnew, hnodup⟩ := List.nodup_cons.mp hnodup
      obtain ⟨hslot, hslots⟩ := List.forall_mem_cons.mp hslots
      set between := requeueOrDiscard env.registry (env.requeueAt index) env.queue job job.readyAt
        (env.queueWaitTtl job) fleet with hbetween
      have hframe : ∀ id, id ≠ job.jobId → Same id (fleet env.queue) (between env.queue) :=
        fun id hid => same_requeueOrDiscard hid
      have hback : job.ns = env.queue → GivenBack env job (between env.queue) := by
        intro hjob
        rcases requeueOrDiscard_spec hq hjob hslot with hwaiting | ⟨⟨hset, hpassed⟩, hgone⟩
        · exact Or.inl hwaiting
        · exact Or.inr ⟨⟨hset, index, hpassed⟩, hgone⟩
      have hleft : ∀ id ∈ reservedIds pairs, id ∈ (between env.queue).reserved := by
        intro id hid
        have hne : id ≠ job.jobId := fun heq => hnew (heq ▸ hid)
        exact (hframe id hne).reserved.mpr (hslots id hid)
      obtain ⟨hsame, hgiven⟩ := @ih between (index + 1) hnodup hleft
      constructor
      · intro id hid
        have hboth : id ≠ job.jobId ∧ id ∉ reservedIds pairs := by simpa using hid
        exact (hframe id hboth.1).trans (hsame id hboth.2)
      · intro other hother
        rcases List.mem_cons.mp hother with heq | hin
        · obtain rfl : other = job := congrArg Prod.fst heq
          exact fun howned => (hback howned).of_same (hsame _ hnew)
        · exact hgiven other hin
    · rw [if_neg hstatus]
      have hcons : reservedIds ((job, status) :: pairs) = reservedIds pairs := by
        simp [reservedIds, reservedJobs, hstatus]
      rw [hcons] at hnodup hslots ⊢
      obtain ⟨hsame, hgiven⟩ := @ih fleet (index + 1) hnodup hslots
      refine ⟨hsame, fun other hother => ?_⟩
      rcases List.mem_cons.mp hother with heq | hin
      · exact absurd (congrArg Prod.snd heq).symm hstatus
      · exact hgiven other hin

end Requeue

section Chunks

variable {env : PumpEnv} {jobs all : List DispatchJob} {run : PumpRun} {start : Namespace}
  {left k : ℕ} {id : String}

/-- Between two chunks: what is published was pending and has a slot, and nothing else has moved. -/
structure Progress (env : PumpEnv) (start : Namespace) (run : PumpRun) : Prop where
  published : ∀ id ∈ run.published, id ∈ start.pending ∧ id ∉ (run.fleet env.queue).pending ∧
    id ∈ (run.fleet env.queue).reserved
  same : ∀ id, id ∉ run.published → Same id start (run.fleet env.queue)

/-- At the end: what is published was pending and has a slot, and any other job is where it was, or is
one of the queue's own that was given back. -/
structure Settled (env : PumpEnv) (all : List DispatchJob) (start : Namespace) (run : PumpRun) :
    Prop where
  published : ∀ id ∈ run.published, id ∈ start.pending ∧ id ∉ (run.fleet env.queue).pending ∧
    id ∈ (run.fleet env.queue).reserved
  kept : ∀ id, id ∉ run.published → Same id start (run.fleet env.queue) ∨
    id ∈ start.pending ∧ ∃ job ∈ all, job.jobId = id ∧
      (job.ns = env.queue → GivenBack env job (run.fleet env.queue))

theorem Progress.settled (h : Progress env start run) : Settled env all start run :=
  ⟨h.published, fun id hid => Or.inl (h.same id hid)⟩

/-- One chunk: its reservation, and what of it is published. -/
theorem Progress.chunk {ids : List String} {after : Namespace}
    (h : Progress env start run) (hpromoted : Promoted ids (run.fleet env.queue) after) :
    (∀ id ∈ ids, id ∉ run.published ∧ id ∈ start.pending) ∧
      Progress env start ⟨Function.update run.fleet env.queue after, run.published ++ ids⟩ := by
  have hnew : ∀ id ∈ ids, id ∉ run.published ∧ id ∈ start.pending := by
    intro id hid
    have hwaited := hpromoted.waited id hid
    have hnot : id ∉ run.published := fun hin => (h.published id hin).2.1 hwaited
    exact ⟨hnot, (h.same id hnot).mem_pending.mp hwaited⟩
  refine ⟨hnew, ?_, ?_⟩
  · intro id hid
    dsimp only
    rw [Function.update_self]
    rcases List.mem_append.mp hid with hold | hin
    · obtain ⟨hpending, hgone, hslot⟩ := h.published id hold
      have hsame := hpromoted.same id fun hin => (hnew id hin).1 hold
      exact ⟨hpending, fun hmem => hgone (hsame.mem_pending.mp hmem), hsame.reserved.mpr hslot⟩
    · exact ⟨(hnew id hin).2, hpromoted.promoted id hin⟩
  · intro id hid
    dsimp only at hid ⊢
    rw [Function.update_self]
    have hnot : id ∉ run.published ∧ id ∉ ids := by simpa using hid
    exact (h.same id hnot.1).trans (hpromoted.same id hnot.2)

/-- A job that is given back has no slot. -/
theorem GivenBack.slot {job : DispatchJob} {ns : Namespace} (h : GivenBack env job ns) :
    job.jobId ∉ ns.reserved := by
  rcases h with ⟨deadline, -, hwaiting⟩ | ⟨-, hgone⟩
  · exact hwaiting.slot
  · exact hgone.slot

theorem settled_reserveChunks (hq : env.queue ≠ "") (h : Progress env start run)
    (hjobs : ∀ job ∈ jobs, job ∈ all) :
    Settled env all start (reserveChunks env left k jobs run) := by
  induction left generalizing k jobs run with
  | zero => exact h.settled
  | succ left ih =>
    unfold reserveChunks
    by_cases hlate : env.late k = true
    · rw [if_pos hlate]
      exact h.settled
    · rw [if_neg hlate]
      dsimp only
      set chunk := jobs.take dispatchLuaBatchSize with hchunk
      obtain ⟨-, hpromoted⟩ := promoted_reserve env k chunk (run.fleet env.queue)
      obtain ⟨hsplit, htail⟩ := @publish_spec 0
        (chunk.zip (env.reserve k chunk (run.fleet env.queue)).1) (env.publishRaises k)
      obtain ⟨hnew, hprogress⟩ := h.chunk hpromoted
      generalize env.reserve k chunk (run.fleet env.queue) = reply at *
      generalize hloop : publish (env.publishRaises k) 0 (chunk.zip reply.1) = loop at *
      obtain ⟨published, failed⟩ := loop
      cases failed with
      | none =>
        dsimp only [Option.elim_none] at hsplit ⊢
        rw [List.append_nil] at hsplit
        rw [hsplit] at hprogress
        split
        · exact hprogress.settled
        · exact ih hprogress fun job hin => hjobs job (List.mem_of_mem_drop hin)
      | some failed =>
        obtain ⟨index, tail⟩ := failed
        dsimp only [Option.elim_some] at hsplit ⊢
        have hsuffix : tail <:+ chunk.zip reply.1 := htail (index, tail) rfl
        have hchunkjobs : ∀ pair ∈ tail, pair.1 ∈ all := by
          intro pair hpair
          have hin := (List.of_mem_zip (hsuffix.subset hpair)).1
          exact hjobs pair.1 (List.mem_of_mem_take hin)
        have hnodup := hpromoted.nodup
        rw [hsplit] at hnodup hnew
        obtain ⟨-, htailnodup, hdisjoint⟩ := List.nodup_append.mp hnodup
        have hslots : ∀ id ∈ reservedIds tail,
            id ∈ (Function.update run.fleet env.queue reply.2 env.queue).reserved := by
          intro id hid
          rw [Function.update_self]
          exact (hpromoted.promoted id (by rw [hsplit]; exact List.mem_append_right _ hid)).2
        obtain ⟨hsame, hgiven⟩ := @requeueReservedTail_spec env
          (Function.update run.fleet env.queue reply.2) index tail hq htailnodup hslots
        rw [hsplit] at hprogress
        constructor
        · intro id hid
          have hall : id ∈ run.published ++ (published ++ reservedIds tail) := by
            rw [← List.append_assoc]
            exact List.mem_append_left _ hid
          have hnot : id ∉ reservedIds tail := by
            intro htailid
            rcases List.mem_append.mp hid with hold | hin
            · exact (hnew id (List.mem_append_right _ htailid)).1 hold
            · exact hdisjoint id hin id htailid rfl
          obtain ⟨hpending, hgone, hslot⟩ := hprogress.published id hall
          have hframe := hsame id hnot
          exact ⟨hpending, fun hin => hgone (hframe.mem_pending.mp hin), hframe.reserved.mpr hslot⟩
        · intro id hid
          by_cases htailid : id ∈ reservedIds tail
          · obtain ⟨job, hjob, rfl⟩ := mem_reservedIds.mp htailid
            exact Or.inr ⟨(hnew _ (List.mem_append_right _ htailid)).2, job, hchunkjobs _ hjob, rfl,
              hgiven job hjob⟩
          · have hnot : id ∉ run.published ++ (published ++ reservedIds tail) := by
              intro hin
              rw [← List.append_assoc] at hin
              rcases List.mem_append.mp hin with hold | hlast
              · exact hid hold
              · exact htailid hlast
            exact Or.inl ((hprogress.same id hnot).trans (hsame id htailid))

end Chunks

/-- Whatever of a tick's publishing fails: a job that was pending is published and has a slot, or
waits at its own time with nothing changed but a deadline that it did not have, or is discarded since
its deadline has passed. One that was not pending is left alone, and no slot is left to a job that is
not published. -/
theorem publish_failure_fates {env : PumpEnv} {fleet : Fleet} {jobs : List DispatchJob}
    (hq : env.queue ≠ "") (hdisjoint : (fleet env.queue).Disjoint)
    (hrecorded : ∀ job ∈ jobs, Recorded env.queue (fleet env.queue) job) :
    let run := reserveAndPublish env jobs fleet
    (∀ job ∈ jobs, if job.jobId ∈ (fleet env.queue).pending then
        Fate env NeverExtended run.published job (run.fleet env.queue)
      else Same job.jobId (fleet env.queue) (run.fleet env.queue)) ∧
    ∀ id ∈ (run.fleet env.queue).reserved, id ∈ (fleet env.queue).reserved ∨ id ∈ run.published := by
  intro run
  have hstart : Progress env (fleet env.queue) ⟨fleet, []⟩ :=
    ⟨by simp, fun id _ => Same.refl id _⟩
  have hsettled : Settled env jobs (fleet env.queue) run :=
    settled_reserveChunks hq hstart fun job hjob => hjob
  clear_value run
  constructor
  · intro job hjob
    obtain ⟨hstored, howned, hscored⟩ := hrecorded job hjob
    split
    · rename_i hpending
      by_cases hpublished : job.jobId ∈ run.published
      · exact .published hpublished (hsettled.published _ hpublished).2.2
      · rcases hsettled.kept _ hpublished with hsame | ⟨-, other, hother, hid, hback⟩
        · obtain ⟨score, hscore⟩ := Option.isSome_iff_exists.mp (zscore_isSome.mpr hpending)
          refine .waiting (fun _ => rfl) ⟨?_, ?_, hsame.jobs ▸ hstored⟩
          · rw [hsame.pending, hscore, hscored score hscore]
          · exact fun hin => hdisjoint _ hpending (hsame.reserved.mp hin)
        · have hsame : other = job := by
            have hstored' := (hrecorded other hother).stored
            rw [hid, hstored] at hstored'
            exact (Option.some.inj hstored').symm
          subst hsame
          rcases hback howned with ⟨deadline, hkept, hwaiting⟩ | ⟨hpassed, hgone⟩
          · exact .waiting hkept hwaiting
          · exact .discarded hpassed hgone
    · rename_i hpending
      have hpublished : job.jobId ∉ run.published := fun hin =>
        hpending (hsettled.published _ hin).1
      rcases hsettled.kept _ hpublished with hsame | ⟨hin, -⟩
      · exact hsame
      · exact absurd hin hpending
  · intro id hslot
    by_cases hpublished : id ∈ run.published
    · exact Or.inr hpublished
    · rcases hsettled.kept _ hpublished with hsame | ⟨-, job, hjob, rfl, hback⟩
      · exact Or.inl (hsame.reserved.mp hslot)
      · exact absurd hslot (hback (hrecorded job hjob).owned).slot

/-- A tick at which no publishing succeeds. -/
def brokerDown : PumpEnv where
  registry := portraitRegistry
  queue := "ai"
  maxReserved := 10
  tickId := 1
  tickBudget := 10
  reservedRecordTtl := fun _ => 60
  queueWaitTtl := fun _ => 5
  scanned := []
  mgetRaises := false
  evalRaises := fun _ => false
  publishRaises := fun _ _ => true
  missed := false
  late := fun _ => false
  reapAt := 1
  peekAt := 1
  hydrateAt := 1
  reserveAt := fun _ => 1
  requeueAt := fun _ => 1

/-- A job that waits from time 0 on, until the deadline if there is one. -/
def waitingJob (deadline : ℚ) : DispatchJob :=
  { portraitJob with ns := "ai", waitDeadlineAt := deadline }

def waitingFleet (deadline : ℚ) : Fleet := fun _ =>
  { Namespace.empty with
    pending := zadd ∅ 0 portraitJob.jobId
    jobs := setEx (fun _ => none) 0 portraitJob.jobId (waitingJob deadline) 5 }

theorem waitingFleet_disjoint (deadline : ℚ) : (waitingFleet deadline "ai").Disjoint :=
  fun _ _ hin => not_mem_empty hin

theorem waitingJob_recorded (deadline : ℚ) :
    Recorded "ai" (waitingFleet deadline "ai") (waitingJob deadline) := by
  refine ⟨?_, rfl, fun score hscore => ?_⟩
  · show ((setEx (fun _ => none) 0 portraitJob.jobId (waitingJob deadline) 5)
      portraitJob.jobId).map Entry.value = some (waitingJob deadline)
    rw [setEx_self]
    rfl
  · rw [waitingFleet] at hscore
    change zscore (zadd ∅ 0 portraitJob.jobId) portraitJob.jobId = some score at hscore
    rw [zscore_zadd_self] at hscore
    exact (Option.some.inj hscore).symm

theorem publish_failure_fates_waiting :
    Fate brokerDown NeverExtended (reserveAndPublish brokerDown [waitingJob 5] (waitingFleet 5)).published
      (waitingJob 5) ((reserveAndPublish brokerDown [waitingJob 5] (waitingFleet 5)).fleet "ai") := by
  have hfates := (@publish_failure_fates brokerDown (waitingFleet 5) [waitingJob 5] (by decide)
    (waitingFleet_disjoint 5) fun job hjob => by
      rw [List.mem_singleton.mp hjob]
      exact waitingJob_recorded 5).1 (waitingJob 5) (List.mem_singleton.mpr rfl)
  rwa [if_pos (by decide +kernel)] at hfates

/-- A job without a deadline comes back with one. -/
theorem publish_failure_starts_deadline :
    ¬ ∀ (env : PumpEnv) (fleet : Fleet) (jobs : List DispatchJob), env.queue ≠ "" →
      (∀ k, env.evalRaises k = false) → (fleet env.queue).Disjoint →
      (∀ job ∈ jobs, Recorded env.queue (fleet env.queue) job) →
      ∀ job ∈ jobs, job.jobId ∈ (fleet env.queue).pending →
        Fate env Unextended (reserveAndPublish env jobs fleet).published job
          ((reserveAndPublish env jobs fleet).fleet env.queue) := by
  intro hall
  have hfate := hall brokerDown (waitingFleet 0) [waitingJob 0] (by decide) (fun _ => rfl)
    (waitingFleet_disjoint 0) (fun job hjob => by
      rw [List.mem_singleton.mp hjob]
      exact waitingJob_recorded 0) (waitingJob 0) (List.mem_singleton.mpr rfl) (by decide +kernel)
  have hnone : (reserveAndPublish brokerDown [waitingJob 0] (waitingFleet 0)).published = [] := by
    decide +kernel
  have hdeadline : (((reserveAndPublish brokerDown [waitingJob 0] (waitingFleet 0)).fleet "ai").jobs
      portraitJob.jobId).map (fun entry => entry.value.waitDeadlineAt) = some 6 := by decide +kernel
  rcases hfate with ⟨hpublished, -⟩ | ⟨hkept, hwaiting⟩ | ⟨hpassed, -⟩
  · rw [hnone] at hpublished
    cases hpublished
  · have hpayload := congrArg (Option.map DispatchJob.waitDeadlineAt) hwaiting.payload
    rw [Option.map_map] at hpayload
    have hsix := hdeadline.symm.trans hpayload
    rw [hkept] at hsix
    exact absurd hsix (by decide +kernel)
  · exact hpassed.1 rfl

end Dispatch
