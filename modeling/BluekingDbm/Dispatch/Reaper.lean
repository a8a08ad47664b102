import BluekingDbm.Library.Loop
import BluekingDbm.Dispatch.Lifecycle

/-! Discarding an orphaned job: the purge of its membership, and the trailing deletes of its payload
and dedupe key in the namespaces it was found in. Every namespace has keys of its own. -/
namespace Dispatch

open Redis

/-- The keys of every namespace. -/
abbrev Fleet := String → Namespace

/-- What a process knows of the queues and tasks: the registered queues, the task keys in
`dispatch:registered` (none where the read failed), the namespace of each task that this process
registered, and the namespaces in the route table (none where the read failed). -/
structure Registry where
  queues : List String
  registered : List String
  tasks : List (String × String)
  routed : List String

/-- Python's `a or b` on strings. -/
def orStr (a b : String) : String := if a = "" then b else a

/-- What a discard resolved before its first write. -/
structure DiscardPlan where
  taskKey : String
  target : String
  workItemId : String

/-- The names a discard goes by: those it was passed, then those it resolves, then those of the
payload, if that is still there. -/
def discardPlan (env : Registry) (job : Option DispatchJob)
    (jobId taskKey target workItemId : String) : DiscardPlan :=
  let taskKey := orStr taskKey (resolveTaskKeyFromJobId jobId env.registered)
  let plan : DiscardPlan :=
    match job with
    | some job => ⟨orStr taskKey job.taskKey, orStr target job.ns, orStr workItemId job.workItemId⟩
    | none => ⟨taskKey, target, workItemId⟩
  if plan.workItemId = "" ∧ plan.taskKey ≠ "" then
    { plan with workItemId := workItemIdFromJobId jobId plan.taskKey }
  else plan

/-- The dedupe key that the discard deletes. -/
def DiscardPlan.key (plan : DiscardPlan) : Option String :=
  jobDedupeKey plan.taskKey plan.workItemId

/-- Purge and trailing deletes in one namespace. -/
def Namespace.wipe (ns : Namespace) (jobId : String) (plan : DiscardPlan) : Namespace :=
  (purgeJobLua jobId plan.taskKey ns).2.cleanup jobId plan.key

/-- The purge of every registered queue, with the namespaces where it found the job. -/
def purgeEverywhere (queues : List String) (jobId taskKey : String) (fleet : Fleet) :
    List String × Fleet :=
  queues.foldl
    (fun (hits, fleet) ns =>
      let ((pendingHit, reservedHit), after) := purgeJobLua jobId taskKey (fleet ns)
      (if pendingHit > 0 ∨ reservedHit > 0 then hits ++ [ns] else hits,
        Function.update fleet ns after)) ([], fleet)

def cleanupEach (namespaces : List String) (jobId : String) (key : Option String) (fleet : Fleet) :
    Fleet :=
  namespaces.foldl (fun fleet ns => Function.update fleet ns ((fleet ns).cleanup jobId key)) fleet

/-- `OrphanReaper.discard_orphaned_job`, each Redis call succeeding, without its metrics. -/
def discardOrphanedJob (env : Registry) (now : ℚ)
    (queue jobId taskKey target workItemId : String) (fleet : Fleet) : Fleet :=
  let plan := discardPlan env ((fleet queue).getJob now jobId) jobId taskKey target workItemId
  if plan.target ≠ "" then
    Function.update fleet plan.target ((fleet plan.target).wipe jobId plan)
  else
    let (hits, fleet) := purgeEverywhere env.queues jobId plan.taskKey fleet
    cleanupEach hits jobId plan.key fleet

section Everywhere

variable {queues done : List String} {jobId taskKey : String} {fleet : Fleet} {ns : String}
  {key : Option String} {plan : DiscardPlan}

/-- The job is a member of the namespace. -/
def Namespace.Holds (ns : Namespace) (jobId : String) : Prop :=
  jobId ∈ ns.pending ∨ jobId ∈ ns.reserved

instance (ns : Namespace) (jobId : String) : Decidable (ns.Holds jobId) :=
  inferInstanceAs (Decidable (_ ∨ _))

theorem purge_hit_iff {n : Namespace} :
    (purgeJobLua jobId taskKey n).1.1 > 0 ∨ (purgeJobLua jobId taskKey n).1.2 > 0 ↔
      n.Holds jobId := by
  simp only [purgeJobLua, zremReply, Namespace.Holds]
  split <;> split <;> simp_all

/-- A second purge finds nothing. -/
theorem not_holds_purge {n : Namespace} : ¬ (purgeJobLua jobId taskKey n).2.Holds jobId := by
  simp [Namespace.Holds]

theorem purge_of_not_holds {n : Namespace} (h : ¬ n.Holds jobId) :
    purgeJobLua jobId taskKey n = ((0, 0), n) := by
  obtain ⟨hp, hr⟩ := not_or.mp h
  exact purgeJobLua_of_not_mem hp hr

/-- The state of the sweep: each queue passed is purged, and exactly those that held the job are
recorded, once. -/
structure Swept (fleet : Fleet) (jobId taskKey : String) (done : List String)
    (state : List String × Fleet) : Prop where
  hits : ∀ ns, ns ∈ state.1 ↔ ns ∈ done ∧ (fleet ns).Holds jobId
  nodup : state.1.Nodup
  purged : ∀ ns, state.2 ns =
    if ns ∈ done then (purgeJobLua jobId taskKey (fleet ns)).2 else fleet ns

theorem swept_purgeEverywhere :
    Swept fleet jobId taskKey queues (purgeEverywhere queues jobId taskKey fleet) := by
  refine Loop.foldl_prefix ⟨by simp, List.nodup_nil, by simp⟩ ?_
  rintro done ns rest ⟨hits, swept⟩ - h
  by_cases hdone : ns ∈ done
  · -- a queue met again is found empty
    have hswept : swept ns = (purgeJobLua jobId taskKey (fleet ns)).2 := by
      simpa [hdone] using h.purged ns
    have hagain : purgeJobLua jobId taskKey (swept ns) = ((0, 0), swept ns) :=
      purge_of_not_holds (by rw [hswept]; exact not_holds_purge)
    simp only [hagain, gt_iff_lt, lt_self_iff_false, or_self, if_false, Function.update_eq_self]
    refine ⟨fun n => ?_, h.nodup, fun n => ?_⟩
    · rw [h.hits n]
      by_cases hn : n = ns <;> simp_all
    · rw [h.purged n]
      by_cases hn : n = ns <;> simp_all
  · have hswept : swept ns = fleet ns := by simpa [hdone] using h.purged ns
    have hnew : ns ∉ hits := fun hin => hdone ((h.hits ns).mp hin).1
    refine ⟨fun n => ?_, ?_, fun n => ?_⟩
    · have hn := h.hits n
      simp only [purge_hit_iff, hswept]
      by_cases he : n = ns
      · subst he
        split <;> simp_all
      · split <;> simp_all
    · simp only [purge_hit_iff]
      split
      · exact List.nodup_append.mpr ⟨h.nodup, by simp, by rintro a ha _ hb rfl; simp_all⟩
      · exact h.nodup
    · by_cases he : n = ns
      · subst he
        simp [hswept]
      · have hn := h.purged n
        simp_all

theorem cleanupEach_apply (h : queues.Nodup) :
    cleanupEach queues jobId key fleet ns =
      if ns ∈ queues then (fleet ns).cleanup jobId key else fleet ns := by
  unfold cleanupEach
  induction queues generalizing fleet with
  | nil => rfl
  | cons q queues ih =>
    obtain ⟨hq, hn⟩ := List.nodup_cons.mp h
    rw [List.foldl_cons, ih hn]
    by_cases he : ns = q
    · subst he
      simp [hq]
    · simp [he]

/-- Without a target the discard wipes the registered queues that hold the job, and no other. -/
theorem purgeEverywhere_cleanup :
    cleanupEach (purgeEverywhere queues jobId plan.taskKey fleet).1 jobId plan.key
        (purgeEverywhere queues jobId plan.taskKey fleet).2 ns =
      if ns ∈ queues ∧ (fleet ns).Holds jobId then (fleet ns).wipe jobId plan else fleet ns := by
  have h : Swept fleet jobId plan.taskKey queues (purgeEverywhere queues jobId plan.taskKey fleet) :=
    swept_purgeEverywhere
  rw [cleanupEach_apply h.nodup, h.purged ns]
  by_cases hq : ns ∈ queues
  · by_cases hh : (fleet ns).Holds jobId
    · simp [(h.hits ns).mpr ⟨hq, hh⟩, hq, hh, Namespace.wipe]
    · have hout : ns ∉ (purgeEverywhere queues jobId plan.taskKey fleet).1 :=
        fun hin => hh ((h.hits ns).mp hin).2
      simp [hout, hq, hh, purge_of_not_holds hh]
  · have hout : ns ∉ (purgeEverywhere queues jobId plan.taskKey fleet).1 :=
      fun hin => hq ((h.hits ns).mp hin).1
    simp [hout, hq]

/-- The namespaces that a discard wipes. -/
def DiscardPlan.Reaches (plan : DiscardPlan) (env : Registry) (jobId : String) (fleet : Fleet)
    (ns : String) : Prop :=
  if plan.target ≠ "" then ns = plan.target else ns ∈ env.queues ∧ (fleet ns).Holds jobId

instance (plan : DiscardPlan) (env : Registry) (jobId : String) (fleet : Fleet) (ns : String) :
    Decidable (plan.Reaches env jobId fleet ns) :=
  inferInstanceAs (Decidable (if plan.target ≠ "" then _ else _))

/-- A discard is a wipe of the namespaces it reaches, by names resolved from the state before. -/
theorem discardOrphanedJob_apply {env : Registry} {now : ℚ} {queue target workItemId : String} :
    let plan := discardPlan env ((fleet queue).getJob now jobId) jobId taskKey target workItemId
    discardOrphanedJob env now queue jobId taskKey target workItemId fleet ns =
      if plan.Reaches env jobId fleet ns then (fleet ns).wipe jobId plan else fleet ns := by
  intro plan
  unfold discardOrphanedJob DiscardPlan.Reaches
  by_cases ht : plan.target ≠ ""
  · by_cases he : ns = plan.target
    · simp [plan, ht, he]
    · simp [plan, ht, he]
  · simp only [plan, ht, if_false]
    exact purgeEverywhere_cleanup

end Everywhere

end Dispatch
