import BluekingDbm.Dispatch.PublishFailure

/-! The order in which a tick publishes. -/
namespace Dispatch

open Redis

/-- The payload is there, and its wait deadline has not passed. -/
def Namespace.isLive (ns : Namespace) (now : ℚ) (id : String) : Bool :=
  (ns.getJob now id).any fun job => ¬ job.expired now

/-- The jobs that a tick could publish, in the order of their scores and ids. -/
def liveReady (env : PumpEnv) (ns : Namespace) : List String :=
  (zrangebyscore ns.pending env.peekAt).filter (ns.isLive env.hydrateAt)

/-- Each payload is stored under its job's own id. -/
def Filed (ns : Namespace) : Prop := ∀ id entry, ns.jobs id = some entry → entry.value.jobId = id

/-- One pending job comes before another. -/
def Earlier (z : SortedSet String) (a b : String) : Prop :=
  ∃ qa qb, zscore z a = some qa ∧ zscore z b = some qb ∧ (qa < qb ∨ qa = qb ∧ a < b)

section Sorting

variable {z : SortedSet String} {high : ℚ} {a b : String}

theorem sorted_zrangebyscore :
    (zrangebyscore z high).Pairwise fun a b => ∃ qa qb, zscore z a = some qa ∧ zscore z b = some qb ∧
      (qa < qb ∨ qa = qb ∧ a ≤ b) := by
  unfold zrangebyscore
  rw [List.pairwise_map]
  refine (List.pairwise_mergeSort precedes_trans precedes_total _).imp_of_mem ?_
  intro x y hx hy hxy
  have hscore : ∀ e ∈ (z.entries.filter (·.2 ≤ high)).mergeSort precedes, zscore z e.1 = some e.2 := by
    intro e he
    have hin := (List.mergeSort_perm _ _).mem_iff.mp he
    exact AList.mem_lookup_iff.mpr (List.mem_filter.mp hin).1
  exact ⟨x.2, y.2, hscore x hx, hscore y hy, of_decide_eq_true hxy⟩

/-- What comes earlier stands in front. -/
theorem not_earlier_of_sublist (h : [b, a].Sublist (zrangebyscore z high)) : ¬ Earlier z a b := by
  rintro ⟨qa, qb, hqa, hqb, hab⟩
  have hpair := sorted_zrangebyscore.sublist h
  obtain ⟨qb', qa', hqb', hqa', hba⟩ := (List.pairwise_pair).mp hpair
  obtain rfl := Option.some.inj (hqa.symm.trans hqa')
  obtain rfl := Option.some.inj (hqb.symm.trans hqb')
  rcases hab with hlt | ⟨rfl, hlt⟩
  · rcases hba with hgt | ⟨heq, -⟩
    · exact absurd (hlt.trans hgt) (lt_irrefl _)
    · exact absurd heq hlt.ne'
  · rcases hba with hgt | ⟨-, hle⟩
    · exact absurd hgt (lt_irrefl _)
    · exact absurd hlt (String.not_lt.mpr hle)

end Sorting

section Reserving

variable {now : ℚ} {maxReserved tickBudget : ℕ} {loop : ReserveLoop} {entries : List ReserveEntry}

/-- Without room nothing more is reserved. -/
theorem reserve_full (hfull : maxReserved ≤ loop.reservedCount ∨ tickBudget ≤ loop.used)
    (hpending : ∀ entry ∈ entries, entry.jobId ∈ loop.ns.pending) :
    ∃ rest, (entries.foldl (reserveOne now maxReserved tickBudget) loop).statuses =
      loop.statuses ++ rest ∧ rest.length = entries.length ∧ ∀ status ∈ rest, blocks status = true := by
  induction entries generalizing loop with
  | nil => exact ⟨[], by simp, rfl, by simp⟩
  | cons entry entries ih =>
    obtain ⟨hentry, hentries⟩ := List.forall_mem_cons.mp hpending
    obtain ⟨status, hblocks, hnext⟩ : ∃ status, blocks status = true ∧
        reserveOne now maxReserved tickBudget loop entry = loop.finish status := by
      unfold reserveOne
      rw [if_neg (not_not.mpr hentry)]
      split
      · exact ⟨.capacityFull, by decide, rfl⟩
      · rename_i hroom
        have hused : tickBudget ≤ loop.used := by omega
        rw [if_pos hused]
        exact ⟨.tickBudgetExhausted, by decide, rfl⟩
    rw [List.foldl_cons, hnext]
    obtain ⟨rest, hstatuses, hlength, hrest⟩ := @ih (loop.finish status) hfull hentries
    refine ⟨status :: rest, ?_, by simp [hlength], List.forall_mem_cons.mpr ⟨hblocks, hrest⟩⟩
    rw [hstatuses]
    simp [ReserveLoop.finish]

/-- Pending jobs are reserved in order until there is no more room. -/
theorem reserve_shape (hnodup : (entries.map ReserveEntry.jobId).Nodup)
    (hpending : ∀ entry ∈ entries, entry.jobId ∈ loop.ns.pending) :
    ∃ m rest, (entries.foldl (reserveOne now maxReserved tickBudget) loop).statuses =
      loop.statuses ++ (List.replicate m .reserved ++ rest) ∧ m + rest.length = entries.length ∧
        ∀ status ∈ rest, blocks status = true := by
  induction entries generalizing loop with
  | nil => exact ⟨0, [], by simp, rfl, by simp⟩
  | cons entry entries ih =>
    by_cases hfull : maxReserved ≤ loop.reservedCount ∨ tickBudget ≤ loop.used
    · obtain ⟨rest, hstatuses, hlength, hrest⟩ := @reserve_full now _ _ loop (entry :: entries) hfull
        hpending
      exact ⟨0, rest, hstatuses, by simpa using hlength, hrest⟩
    · obtain ⟨hentry, hentries⟩ := List.forall_mem_cons.mp hpending
      obtain ⟨hnew, hnodup⟩ := List.nodup_cons.mp hnodup
      have hnext : reserveOne now maxReserved tickBudget loop entry = loop.promote now entry := by
        unfold reserveOne
        rw [if_neg (not_not.mpr hentry), if_neg (by omega), if_neg (by omega)]
      have hstill : ∀ other ∈ entries, other.jobId ∈ (loop.promote now entry).ns.pending := by
        intro other hother
        have hne : other.jobId ≠ entry.jobId := fun heq =>
          hnew (List.mem_map.mpr ⟨other, hother, heq⟩)
        exact (same_promote hne).mem_pending.mpr (hentries other hother)
      obtain ⟨m, rest, hstatuses, hlength, hrest⟩ := @ih (loop.promote now entry) hnodup hstill
      refine ⟨m + 1, rest, ?_, by simp only [List.length_cons]; omega, hrest⟩
      rw [List.foldl_cons, hnext, hstatuses]
      simp [ReserveLoop.promote, List.replicate_succ]

end Reserving

section Publishing

variable {env : PumpEnv} {k m left index : ℕ} {chunk jobs : List DispatchJob} {ns : Namespace}
  {statuses rest : List ReservationStatus} {run : PumpRun} {raises : ℕ → Bool} {fleet : Fleet}
  {ids : List String} {id : String}

theorem reservedIds_of_blocks (h : ∀ status ∈ rest, blocks status = true) :
    reservedIds (chunk.zip rest) = [] := by
  have hnone : reservedJobs (chunk.zip rest) = [] := by
    rw [reservedJobs, List.filterMap_eq_nil_iff]
    rintro ⟨job, status⟩ hin
    have hblocks := h status (List.of_mem_zip hin).2
    have hne : status ≠ .reserved := by
      rintro rfl
      cases hblocks
    exact if_neg hne
  rw [reservedIds, hnone, List.map_nil]

theorem reservedIds_replicate (chunk : List DispatchJob) :
    reservedIds (chunk.zip (List.replicate chunk.length .reserved)) =
      chunk.map DispatchJob.jobId := by
  induction chunk with
  | nil => rfl
  | cons job chunk ih =>
    rw [List.length_cons, List.replicate_succ, List.zip_cons_cons, List.map_cons, ← ih]
    rfl

/-- The reserved jobs of a chunk are its first ones, up to the first that does not fit. -/
theorem reservedIds_shape (hlength : m + rest.length = chunk.length)
    (hrest : ∀ status ∈ rest, blocks status = true) :
    reservedIds (chunk.zip (List.replicate m .reserved ++ rest)) =
      (chunk.take m).map DispatchJob.jobId := by
  have hfirst : (chunk.take m).length = m := by
    rw [List.length_take]
    omega
  have hsplit : chunk.zip (List.replicate m .reserved ++ rest) =
      (chunk.take m).zip (List.replicate m .reserved) ++ (chunk.drop m).zip rest := by
    rw [← List.zip_append (by rw [hfirst, List.length_replicate]), List.take_append_drop]
  have happend : ∀ xs ys, reservedIds (xs ++ ys) = reservedIds xs ++ reservedIds ys := by
    intro xs ys
    rw [reservedIds, reservedJobs, List.filterMap_append, List.map_append]
    rfl
  have hreplicate := reservedIds_replicate (chunk.take m)
  rw [hfirst] at hreplicate
  rw [hsplit, happend, reservedIds_of_blocks hrest, hreplicate, List.append_nil]

/-- A chunk is published in order, and completely where nothing stands in the way. -/
theorem publish_shape (hlength : m + rest.length = chunk.length)
    (hrest : ∀ status ∈ rest, blocks status = true) :
    let loop := publish raises index (chunk.zip (List.replicate m .reserved ++ rest))
    loop.published <+: chunk.map DispatchJob.jobId ∧
      (loop.failed = none → (List.replicate m ReservationStatus.reserved ++ rest).any blocks = false →
        loop.published = chunk.map DispatchJob.jobId) := by
  intro loop
  have hspec : _ = loop.published ++ _ := publish_spec.1
  rw [reservedIds_shape hlength hrest] at hspec
  have htake : (chunk.take m).map DispatchJob.jobId <+: chunk.map DispatchJob.jobId :=
    (List.take_prefix m chunk).map DispatchJob.jobId
  constructor
  · exact (hspec ▸ List.prefix_append _ _).trans htake
  · intro hfailed hfree
    have hempty : rest = [] := by
      rw [List.any_append, Bool.or_eq_false_iff] at hfree
      rcases rest with _ | ⟨status, rest⟩
      · rfl
      · rw [List.any_cons, hrest status List.mem_cons_self] at hfree
        cases hfree.2
    have hall : m = chunk.length := by simpa [hempty] using hlength
    rw [hfailed, Option.elim_none, List.append_nil, hall, List.take_length] at hspec
    exact hspec.symm

theorem shape_reserve (hnodup : (chunk.map DispatchJob.jobId).Nodup)
    (hpending : ∀ job ∈ chunk, job.jobId ∈ ns.pending) :
    ∃ m rest, (env.reserve k chunk ns).1 = List.replicate m .reserved ++ rest ∧
      m + rest.length = chunk.length ∧ ∀ status ∈ rest, blocks status = true := by
  unfold PumpEnv.reserve
  split
  · refine ⟨0, chunk.map fun _ => .unavailable, rfl, by simp, ?_⟩
    intro status hstatus
    obtain ⟨job, -, rfl⟩ := List.mem_map.mp hstatus
    rfl
  · have hids : (chunk.map fun job => reserveEntry job (env.reservedRecordTtl job)).map
        ReserveEntry.jobId = chunk.map DispatchJob.jobId := by
      rw [List.map_map]
      rfl
    have hentries : ∀ entry ∈ chunk.map fun job => reserveEntry job (env.reservedRecordTtl job),
        entry.jobId ∈ ns.pending := by
      intro entry hentry
      obtain ⟨job, hjob, rfl⟩ := List.mem_map.mp hentry
      exact hpending job hjob
    obtain ⟨m, rest, hstatuses, hlength, hrest⟩ := @reserve_shape (env.reserveAt k)
      (max 1 env.maxReserved).toNat (max 1 env.tickBudget).toNat
      ⟨ns, zcard ns.reserved, ns.tickUsed (env.reserveAt k) env.tickId, 0, []⟩ _
      (hids ▸ hnodup) hentries
    exact ⟨m, rest, hstatuses, by simpa using hlength, hrest⟩

/-- The chunks are published in order: what is published is the first of the jobs. -/
theorem published_reserveChunks (hnodup : (jobs.map DispatchJob.jobId).Nodup)
    (hpending : ∀ job ∈ jobs, job.jobId ∈ (run.fleet env.queue).pending) :
    ∃ first, (reserveChunks env left k jobs run).published = run.published ++ first ∧
      first <+: jobs.map DispatchJob.jobId := by
  induction left generalizing k jobs run with
  | zero => exact ⟨[], by simp [reserveChunks], List.nil_prefix⟩
  | succ left ih =>
    unfold reserveChunks
    split
    · exact ⟨[], by simp, List.nil_prefix⟩
    · dsimp only
      have hjobs : jobs.map DispatchJob.jobId = (jobs.take dispatchLuaBatchSize).map DispatchJob.jobId ++
          (jobs.drop dispatchLuaBatchSize).map DispatchJob.jobId := by
        rw [← List.map_append, List.take_append_drop]
      rw [hjobs] at hnodup ⊢
      obtain ⟨hfront, hback, hapart⟩ := List.nodup_append.mp hnodup
      have hwaiting : ∀ job ∈ jobs.take dispatchLuaBatchSize, job.jobId ∈ (run.fleet env.queue).pending :=
        fun job hjob => hpending job (List.mem_of_mem_take hjob)
      obtain ⟨m, rest, hstatuses, hlength, hrest⟩ := @shape_reserve env k _ _ hfront hwaiting
      obtain ⟨-, hpromoted⟩ := promoted_reserve env k (jobs.take dispatchLuaBatchSize)
        (run.fleet env.queue)
      generalize env.reserve k (jobs.take dispatchLuaBatchSize) (run.fleet env.queue) = reply at *
      obtain ⟨statuses, after⟩ := reply
      dsimp only at hstatuses hpromoted ⊢
      subst hstatuses
      obtain ⟨hfirst, hwhole⟩ := @publish_shape m 0 _ rest (env.publishRaises k) hlength hrest
      rw [reservedIds_shape hlength hrest] at hpromoted
      generalize publish (env.publishRaises k) 0 ((jobs.take dispatchLuaBatchSize).zip
        (List.replicate m .reserved ++ rest)) = loop at *
      cases hfailed : loop.failed with
      | some failed => exact ⟨loop.published, rfl, hfirst.trans (List.prefix_append _ _)⟩
      | none =>
        dsimp only
        split
        · exact ⟨loop.published, rfl, hfirst.trans (List.prefix_append _ _)⟩
        · rename_i hfree
          have hall := hwhole hfailed (Bool.eq_false_of_not_eq_true hfree)
          have hleft : ∀ job ∈ jobs.drop dispatchLuaBatchSize,
              job.jobId ∈ (Function.update run.fleet env.queue after env.queue).pending := by
            intro job hjob
            rw [Function.update_self]
            have hnot : job.jobId ∉ ((jobs.take dispatchLuaBatchSize).take m).map DispatchJob.jobId := by
              intro hin
              obtain ⟨other, hother, heq⟩ := List.mem_map.mp hin
              exact hapart other.jobId (List.mem_map_of_mem (List.mem_of_mem_take hother)) job.jobId
                (List.mem_map_of_mem hjob) heq
            exact (hpromoted.same _ hnot).mem_pending.mpr (hpending job (List.mem_of_mem_drop hjob))
          obtain ⟨first, hpublished, hstart⟩ := @ih (k + 1) _
            ⟨Function.update run.fleet env.queue after, run.published ++ loop.published⟩ hback hleft
          refine ⟨loop.published ++ first, ?_, ?_⟩
          · rw [hpublished, List.append_assoc]
          · rw [hall]
            exact (List.prefix_append_right_inj _).mpr hstart

end Publishing

section Ready

variable {env : PumpEnv} {registry : Registry} {now : ℚ} {queue id n : String} {fleet : Fleet}
  {before after : Namespace} {jobIds : List String}

theorem isLive_iff : before.isLive now id = true ↔ ∃ job, before.Live now id job := by
  unfold Namespace.isLive Namespace.Live
  rw [Option.any_eq_true]
  simp

theorem jobs_discard {jobId taskKey target workItemId : String} {entry : Entry DispatchJob}
    (h : (discardOrphanedJob registry now queue jobId taskKey target workItemId fleet n).jobs id =
      some entry) : (fleet n).jobs id = some entry := by
  rw [discardOrphanedJob_apply] at h
  split at h
  · by_cases hid : id = jobId
    · subst hid
      simp [Namespace.wipe, delKey_self] at h
    · rwa [(same_wipe hid).jobs] at h
  · exact h

/-- The reaper leaves the jobs alone that have a payload. -/
theorem reap_spec :
    (∀ id, ((fleet env.queue).getJob env.reapAt id).isSome →
      Same id (fleet env.queue) (reapOrphanedQueueJobs env fleet env.queue)) ∧
    ∀ id entry, (reapOrphanedQueueJobs env fleet env.queue).jobs id = some entry →
      (fleet env.queue).jobs id = some entry := by
  unfold reapOrphanedQueueJobs
  refine Loop.foldl_prefix (P := fun _ (reaped : Fleet) =>
    (∀ id, ((fleet env.queue).getJob env.reapAt id).isSome →
      Same id (fleet env.queue) (reaped env.queue)) ∧
    ∀ id entry, (reaped env.queue).jobs id = some entry → (fleet env.queue).jobs id = some entry) ?_ ?_
  · exact ⟨fun id _ => Same.refl id _, fun _ _ => id⟩
  · rintro done jobId rest reaped - ⟨hsame, hjobs⟩
    split
    · exact ⟨hsame, hjobs⟩
    · rename_i hmissing
      refine ⟨fun id hid => ?_, fun id entry hentry => hjobs id entry (jobs_discard hentry)⟩
      have hread : (reaped env.queue).getJob env.reapAt id = (fleet env.queue).getJob env.reapAt id :=
        getKey_congr (hsame id hid).jobs
      have hne : id ≠ jobId := by
        rintro rfl
        exact hmissing (hread ▸ hid)
      exact (hsame id hid).trans (same_discard hne)

/-- The hydrated jobs are the live ones, and these stay as they are. -/
theorem hydrate_spec (hfiled : Filed (fleet queue)) :
    let h := jobIds.foldl (hydrateOne registry now queue (getJobs (fleet queue) now false)) ⟨[], 0, fleet⟩
    h.hydrated.map DispatchJob.jobId = jobIds.filter ((fleet queue).isLive now) ∧
      ∀ id, (fleet queue).isLive now id = true → Same id (fleet queue) (h.fleet queue) := by
  refine Loop.foldl_prefix (P := fun done (h : Hydration) =>
    h.hydrated.map DispatchJob.jobId = done.filter ((fleet queue).isLive now) ∧
      ∀ id, (fleet queue).isLive now id = true → Same id (fleet queue) (h.fleet queue)) ?_ ?_
  · exact ⟨rfl, fun id _ => Same.refl id _⟩
  · rintro done jobId rest h - ⟨hids, hsame⟩
    have hdead : (fleet queue).isLive now jobId ≠ true → ∀ taskKey,
        h.hydrated.map DispatchJob.jobId = (done ++ [jobId]).filter ((fleet queue).isLive now) ∧
        ∀ id, (fleet queue).isLive now id = true → Same id (fleet queue)
          (discardOrphanedJob registry now queue jobId taskKey queue "" h.fleet queue) := by
      intro hnot taskKey
      refine ⟨by rw [List.filter_append, List.filter_singleton]; simp [hids, hnot], fun id hid => ?_⟩
      have hne : id ≠ jobId := by
        rintro rfl
        exact hnot hid
      exact (hsame id hid).trans (same_discard hne)
    unfold hydrateOne
    cases hread : getJobs (fleet queue) now false jobId with
    | none =>
      apply hdead
      intro hlive
      obtain ⟨job, hjob, -⟩ := isLive_iff.mp hlive
      cases hread.symm.trans hjob
    | some job =>
      dsimp only
      split
      · rename_i hexpired
        apply hdead
        intro hlive
        obtain ⟨other, hother, hnot⟩ := isLive_iff.mp hlive
        obtain rfl := Option.some.inj (hread.symm.trans hother)
        exact hnot hexpired
      · rename_i hfresh
        have hlive : (fleet queue).isLive now jobId = true := isLive_iff.mpr ⟨job, hread, hfresh⟩
        have hid : job.jobId = jobId := by
          obtain ⟨entry, hentry, -, rfl⟩ := getKey_eq_some.mp (show getKey _ now jobId = some job from hread)
          exact hfiled jobId entry hentry
        refine ⟨?_, hsame⟩
        rw [List.map_append, hids, List.filter_append, List.filter_singleton, hlive, List.map_singleton,
          hid]
        rfl

theorem hydrate_raised :
    (jobIds.foldl (hydrateOne registry now queue (getJobs (fleet queue) now true))
      ⟨[], 0, fleet⟩).hydrated = [] :=
  Loop.foldl_prefix (P := fun _ (h : Hydration) => h.hydrated = []) rfl fun _ _ _ _ _ h => h

/-- What the ready list depends on: the payloads, and the scores of those that are live. -/
theorem liveReady_congr (h : ∀ id, before.isLive env.hydrateAt id = true → Same id before after)
    (hjobs : ∀ id entry, after.jobs id = some entry → before.jobs id = some entry) :
    liveReady env after = liveReady env before := by
  have hlive : ∀ id, after.isLive env.hydrateAt id = true ↔ before.isLive env.hydrateAt id = true := by
    intro id
    constructor
    · intro hafter
      obtain ⟨job, hjob, hfresh⟩ := isLive_iff.mp hafter
      obtain ⟨entry, hentry, hexpire, hvalue⟩ := getKey_eq_some.mp hjob
      exact isLive_iff.mpr ⟨job, getKey_eq_some.mpr ⟨entry, hjobs id entry hentry, hexpire, hvalue⟩,
        hfresh⟩
    · intro hbefore
      obtain ⟨job, hjob, hfresh⟩ := isLive_iff.mp hbefore
      refine isLive_iff.mpr ⟨job, ?_, hfresh⟩
      rw [← hjob]
      exact getKey_congr (h id hbefore).jobs
  have hnodup : ∀ ns : Namespace, (liveReady env ns).Nodup := fun ns =>
    List.filter_sublist.nodup nodup_zrangebyscore
  have hmem : ∀ id, id ∈ liveReady env after ↔ id ∈ liveReady env before := by
    intro id
    unfold liveReady
    rw [List.mem_filter, List.mem_filter, hlive id]
    refine and_congr_left fun hid => ?_
    rw [mem_zrangebyscore, mem_zrangebyscore, (h id hid).pending]
  have hsorted : (liveReady env before).Pairwise fun a b => ∃ qa qb, zscore before.pending a = some qa ∧
      zscore before.pending b = some qb ∧ (qa < qb ∨ qa = qb ∧ a ≤ b) :=
    sorted_zrangebyscore.sublist List.filter_sublist
  have hsorted' : (liveReady env after).Pairwise fun a b => ∃ qa qb,
      zscore before.pending a = some qa ∧ zscore before.pending b = some qb ∧
        (qa < qb ∨ qa = qb ∧ a ≤ b) := by
    refine (sorted_zrangebyscore.sublist List.filter_sublist).imp_of_mem ?_
    rintro a b ha hb ⟨qa, qb, hqa, hqb, hle⟩
    rw [(h a ((hlive a).mp (List.mem_filter.mp ha).2)).pending] at hqa
    rw [(h b ((hlive b).mp (List.mem_filter.mp hb).2)).pending] at hqb
    exact ⟨qa, qb, hqa, hqb, hle⟩
  refine ((List.perm_ext_iff_of_nodup (hnodup after) (hnodup before)).mpr hmem).eq_of_pairwise ?_
    hsorted' hsorted
  rintro a b - - ⟨qa, qb, hqa, hqb, hab⟩ ⟨qb', qa', hqb', hqa', hba⟩
  obtain rfl := Option.some.inj (hqa.symm.trans hqa')
  obtain rfl := Option.some.inj (hqb.symm.trans hqb')
  rcases hab with hlt | ⟨heq, hle⟩
  · rcases hba with hgt | ⟨heq, -⟩
    · exact absurd (hlt.trans hgt) (lt_irrefl _)
    · exact absurd heq hlt.ne'
  · rcases hba with hgt | ⟨-, hge⟩
    · exact absurd heq hgt.ne'
    · exact String.le_antisymm hle hge

/-- What a tick publishes is the first of the live ready jobs, behind the reaper. -/
theorem published_prefix (hfiled : Filed (fleet env.queue)) (hclock : env.reapAt ≤ env.hydrateAt) :
    (pumpQueue env fleet).published <+: liveReady env (fleet env.queue) := by
  obtain ⟨hsame, hjobs⟩ := @reap_spec env fleet
  have hready : liveReady env (reapOrphanedQueueJobs env fleet env.queue) =
      liveReady env (fleet env.queue) := by
    refine liveReady_congr (fun id hlive => hsame id ?_) hjobs
    obtain ⟨job, hjob, -⟩ := isLive_iff.mp hlive
    rw [Namespace.getJob, getKey_of_later hjob hclock]
    rfl
  have hrefiled : Filed (reapOrphanedQueueJobs env fleet env.queue) :=
    fun id entry hentry => hfiled id entry (hjobs id entry hentry)
  unfold pumpQueue
  split
  · exact List.nil_prefix
  · dsimp only
    rw [← hready]
    generalize reapOrphanedQueueJobs env fleet = reaped at *
    split
    · exact List.nil_prefix
    · have hpeeked : peekReady (reaped env.queue) env.peekAt (max 10 (env.tickBudget * 3)).toNat <+:
          zrangebyscore (reaped env.queue).pending env.peekAt := List.take_prefix _ _
      generalize peekReady (reaped env.queue) env.peekAt (max 10 (env.tickBudget * 3)).toNat =
        jobIds at hpeeked
      have hfiltered : jobIds.filter ((reaped env.queue).isLive env.hydrateAt) <+:
          liveReady env (reaped env.queue) := hpeeked.filter _
      unfold hydrateAndDropStale
      dsimp only
      cases hraises : env.mgetRaises with
      | true =>
        rw [hydrate_raised, List.take_nil]
        exact List.nil_prefix
      | false =>
        obtain ⟨hids, hkept⟩ := @hydrate_spec env.registry env.hydrateAt env.queue reaped jobIds hrefiled
        generalize jobIds.foldl (hydrateOne env.registry env.hydrateAt env.queue
          (getJobs (reaped env.queue) env.hydrateAt false)) ⟨[], 0, reaped⟩ = hydration at hids hkept ⊢
        have htaken : (hydration.hydrated.take env.tickBudget.toNat).map DispatchJob.jobId <+:
            jobIds.filter ((reaped env.queue).isLive env.hydrateAt) := by
          rw [← hids]
          exact (List.take_prefix _ _).map DispatchJob.jobId
        have hnodup : ((hydration.hydrated.take env.tickBudget.toNat).map DispatchJob.jobId).Nodup :=
          (htaken.sublist.trans (hfiltered.sublist.trans List.filter_sublist)).nodup
            nodup_zrangebyscore
        have hpending : ∀ job ∈ hydration.hydrated.take env.tickBudget.toNat,
            job.jobId ∈ (hydration.fleet env.queue).pending := by
          intro job hjob
          have hin := (htaken.trans hfiltered).subset (List.mem_map_of_mem hjob)
          obtain ⟨hrange, hlive⟩ := List.mem_filter.mp hin
          obtain ⟨score, hscore, -⟩ := mem_zrangebyscore.mp hrange
          refine (hkept _ hlive).mem_pending.mpr (zscore_isSome.mp ?_)
          rw [hscore]
          rfl
        obtain ⟨first, hpublished, hstart⟩ := @published_reserveChunks env 0
          ((hydration.hydrated.take env.tickBudget.toNat).length + dispatchLuaBatchSize - 1 |>.div
            dispatchLuaBatchSize) _ ⟨hydration.fleet, []⟩ hnodup hpending
        rw [List.nil_append] at hpublished
        have hfirst : (reserveAndPublish env (hydration.hydrated.take env.tickBudget.toNat)
            hydration.fleet).published = first := hpublished
        rw [hfirst]
        exact hstart.trans (htaken.trans hfiltered)

/-- What is published waits no more. -/
theorem published_not_pending (hq : env.queue ≠ "") (hid : id ∈ (pumpQueue env fleet).published) :
    id ∉ ((pumpQueue env fleet).fleet env.queue).pending := by
  unfold pumpQueue at hid ⊢
  split
  · rename_i hmissed
    rw [if_pos hmissed] at hid
    cases hid
  · rename_i hmissed
    rw [if_neg hmissed] at hid
    dsimp only at hid ⊢
    split
    · rename_i hidle
      rw [if_pos hidle] at hid
      cases hid
    · rename_i hidle
      rw [if_neg hidle] at hid
      generalize (hydrateAndDropStale _ _ _ _ _ _ _ : (List DispatchJob × ℕ) × Fleet) = hydration at *
      have hstart : Progress env (hydration.2 env.queue) ⟨hydration.2, []⟩ :=
        ⟨by simp, fun id _ => Same.refl id _⟩
      have hsettled : Settled env hydration.1.1 (hydration.2 env.queue)
          (reserveAndPublish env hydration.1.1 hydration.2) :=
        settled_reserveChunks hq hstart fun job hjob => hjob
      exact (hsettled.published id hid).2.1

end Ready

end Dispatch
