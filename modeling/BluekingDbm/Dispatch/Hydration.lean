import BluekingDbm.Dispatch.Scripts
import BluekingDbm.Dispatch.Reaper

/-! Payload reads of the pump and of the worker. A read that raises answers like an absent payload,
and both discard what they could not read. -/
namespace Dispatch

open Redis

/-- `DispatchQueue.get_jobs`: nothing at all where MGET raised. -/
def getJobs (ns : Namespace) (now : ℚ) (raised : Bool) (jobId : String) : Option DispatchJob :=
  if raised then none else ns.getJob now jobId

structure Hydration where
  hydrated : List DispatchJob
  missingCount : ℕ
  fleet : Fleet

/-- The wait budget of the job has run out. -/
def DispatchJob.expired (job : DispatchJob) (now : ℚ) : Prop :=
  job.waitDeadlineAt ≠ 0 ∧ job.waitDeadlineAt ≤ now

instance (job : DispatchJob) (now : ℚ) : Decidable (job.expired now) :=
  inferInstanceAs (Decidable (_ ∧ _))

def hydrateOne (env : Registry) (now : ℚ) (queue : String) (jobs : String → Option DispatchJob)
    (h : Hydration) (jobId : String) : Hydration :=
  match jobs jobId with
  | none =>
    { h with
      missingCount := h.missingCount + 1
      fleet := discardOrphanedJob env now queue jobId "" queue "" h.fleet }
  | some job =>
    if job.expired now then
      { h with fleet := discardOrphanedJob env now queue jobId job.taskKey queue "" h.fleet }
    else { h with hydrated := h.hydrated ++ [job] }

/-- `_hydrate_and_drop_stale`, where `raised` says that MGET raised. -/
def hydrateAndDropStale (env : Registry) (now : ℚ) (queue : String) (jobIds : List String)
    (budget : ℕ) (raised : Bool) (fleet : Fleet) : (List DispatchJob × ℕ) × Fleet :=
  let jobs := getJobs (fleet queue) now raised
  let h := jobIds.foldl (hydrateOne env now queue jobs) ⟨[], 0, fleet⟩
  ((h.hydrated.take budget, h.missingCount), h.fleet)

/-- Longest-prefix resolution through the tasks that this process registered. -/
def namespaceForJobId (env : Registry) (jobId : String) : String :=
  let taskKey := resolveTaskKeyFromJobId jobId (env.tasks.map Prod.fst)
  if taskKey = "" then "" else (env.tasks.lookup taskKey).getD ""

/-- `sorted(candidate_namespaces())`. -/
def candidateNamespaces (env : Registry) : List String :=
  ((env.queues ++ env.tasks.map Prod.snd ++ env.routed).filter (· ≠ "")).dedup.mergeSort

/-- `DispatchTask.fetch_job`, where `raised` says for which namespaces GET raises. -/
def fetchJob (env : Registry) (now : ℚ) (raised : String → Bool) (jobId : String) (fleet : Fleet) :
    Option DispatchJob :=
  let ns := namespaceForJobId env jobId
  if ns ≠ "" then getJobs (fleet ns) now (raised ns) jobId
  else (candidateNamespaces env).findSome? fun ns => getJobs (fleet ns) now (raised ns) jobId

/-- `DispatchTask.execute_job` up to the execution of a job that was found. -/
def executeJob (env : Registry) (now : ℚ) (raised : String → Bool) (jobId : String)
    (fleet : Fleet) : DispatchJob ⊕ Fleet :=
  match fetchJob env now raised jobId fleet with
  | some job => .inl job
  | none =>
    let ns := namespaceForJobId env jobId
    .inr (if ns ≠ "" then discardOrphanedJob env now ns jobId "" "" "" fleet else fleet)

/-- A stored payload whose wait budget has not run out. -/
def Namespace.Live (ns : Namespace) (now : ℚ) (jobId : String) (job : DispatchJob) : Prop :=
  ns.getJob now jobId = some job ∧ ¬ job.expired now

/-- No live job loses its membership, its payload or its dedupe key. -/
structure Unharmed (now : ℚ) (before after : Namespace) : Prop where
  pending : ∀ id job, before.Live now id job → (id ∈ after.pending ↔ id ∈ before.pending)
  reserved : ∀ id job, before.Live now id job → (id ∈ after.reserved ↔ id ∈ before.reserved)
  payload : ∀ id job, before.Live now id job → after.getJob now id = some job
  dedupe : ∀ id job, before.Live now id job → ∀ k, jobDedupeKey job.taskKey job.workItemId = some k →
    getKey after.dedupe now k = getKey before.dedupe now k

/-- Neither the id nor the dedupe key of a discard is that of a live job. -/
def Namespace.Spares (ns : Namespace) (now : ℚ) (jobId : String) (key : Option String) : Prop :=
  ∀ id job, ns.Live now id job → id ≠ jobId ∧
    ∀ k, key = some k → jobDedupeKey job.taskKey job.workItemId = some k →
      getKey ns.dedupe now k = none

section Wiped

variable {now : ℚ} {ids ids' keys keys' : List String} {before between after ns : Namespace}
  {jobId : String} {plan : DiscardPlan}

/-- `after` is `before` without the jobs `ids` and the dedupe keys `keys`. -/
structure Wiped (ids keys : List String) (before after : Namespace) : Prop where
  pending : ∀ id, id ∈ after.pending ↔ id ∈ before.pending ∧ id ∉ ids
  reserved : ∀ id, id ∈ after.reserved ↔ id ∈ before.reserved ∧ id ∉ ids
  jobs : ∀ id, after.jobs id = if id ∈ ids then none else before.jobs id
  dedupe : ∀ k, after.dedupe k = if k ∈ keys then none else before.dedupe k

theorem Wiped.refl (ns : Namespace) : Wiped [] [] ns ns := by
  constructor <;> simp

theorem Wiped.trans (h : Wiped ids keys before between) (h' : Wiped ids' keys' between after) :
    Wiped (ids ++ ids') (keys ++ keys') before after := by
  refine ⟨fun id => ?_, fun id => ?_, fun id => ?_, fun k => ?_⟩
  · rw [h'.pending, h.pending, List.mem_append]
    tauto
  · rw [h'.reserved, h.reserved, List.mem_append]
    tauto
  · rw [h'.jobs, h.jobs]
    by_cases hi : id ∈ ids' <;> simp [hi]
  · rw [h'.dedupe, h.dedupe]
    by_cases hk : k ∈ keys' <;> simp [hk]

theorem wiped_wipe : Wiped [jobId] plan.key.toList ns (ns.wipe jobId plan) := by
  refine ⟨fun id => ?_, fun id => ?_, fun id => ?_, fun k => ?_⟩
  · simp [Namespace.wipe, and_comm]
  · simp [Namespace.wipe, and_comm]
  · by_cases hi : id = jobId
    · subst hi
      simp [Namespace.wipe, delKey_self]
    · simp [Namespace.wipe, delKey_ne hi, hi]
  · cases hkey : plan.key with
    | none => simp [Namespace.wipe, Namespace.cleanup, Namespace.clearDedupe, hkey]
    | some key =>
      by_cases hk : k = key
      · subst hk
        simp [Namespace.wipe, Namespace.cleanup, Namespace.clearDedupe, hkey, delKey_self]
      · simp [Namespace.wipe, Namespace.cleanup, Namespace.clearDedupe, hkey, delKey_ne hk, hk]

/-- A wipe harms nobody exactly when it names no live job and no dedupe key that one holds. -/
theorem unharmed_iff_of_wiped (h : Wiped ids keys before after) :
    Unharmed now before after ↔ ∀ id job, before.Live now id job → id ∉ ids ∧
      ∀ k ∈ keys, jobDedupeKey job.taskKey job.workItemId = some k →
        getKey before.dedupe now k = none := by
  constructor
  · intro hu id job hl
    refine ⟨fun hin => ?_, fun k hk hkey => ?_⟩
    · have hp := hu.payload id job hl
      simp [Namespace.getJob, getKey, h.jobs, hin] at hp
    · have hd := hu.dedupe id job hl k hkey
      rw [← hd]
      simp [getKey, h.dedupe, hk]
  · intro hs
    refine ⟨fun id job hl => ?_, fun id job hl => ?_, fun id job hl => ?_,
      fun id job hl k hkey => ?_⟩
    · simp [h.pending, (hs id job hl).1]
    · simp [h.reserved, (hs id job hl).1]
    · have hj := hl.1
      rw [← hj]
      exact getKey_congr (by simp [h.jobs, (hs id job hl).1])
    · by_cases hk : k ∈ keys
      · rw [(hs id job hl).2 k hk hkey]
        simp [getKey, h.dedupe, hk]
      · exact getKey_congr (by simp [h.dedupe, hk])

theorem unharmed_wipe_iff :
    Unharmed now ns (ns.wipe jobId plan) ↔ ns.Spares now jobId plan.key := by
  rw [unharmed_iff_of_wiped wiped_wipe]
  simp [Namespace.Spares, Option.mem_toList]

theorem unharmed_refl : Unharmed now ns ns :=
  (unharmed_iff_of_wiped (Wiped.refl ns)).mpr (by simp)

end Wiped

section Pump

variable {env : Registry} {now : ℚ} {queue : String} {jobIds : List String} {budget : ℕ}
  {fleet after : Fleet} {jobId : String}

/-- What the pump resolves for a peeked id that it could not read. -/
def unreadPlan (env : Registry) (now : ℚ) (queue jobId : String) (fleet : Fleet) : DiscardPlan :=
  discardPlan env ((fleet queue).getJob now jobId) jobId "" queue ""

theorem orStr_of_ne {a b : String} (h : a ≠ "") : orStr a b = a := by simp [orStr, h]

theorem discardPlan_target {job : Option DispatchJob} {taskKey target workItemId : String}
    (h : target ≠ "") : (discardPlan env job jobId taskKey target workItemId).target = target := by
  cases job with
  | none =>
    simp only [discardPlan]
    split <;> rfl
  | some job =>
    simp only [discardPlan]
    split <;> exact orStr_of_ne h

/-- A discard for a known queue is a wipe of that queue alone. -/
theorem discard_known (hq : queue ≠ "") (n : String) :
    discardOrphanedJob env now queue jobId "" queue "" fleet n =
      if n = queue then (fleet n).wipe jobId (unreadPlan env now queue jobId fleet)
      else fleet n := by
  have ht : (unreadPlan env now queue jobId fleet).target = queue := discardPlan_target hq
  have happly : discardOrphanedJob env now queue jobId "" queue "" fleet n = _ :=
    discardOrphanedJob_apply
  rw [happly]
  change (if (unreadPlan env now queue jobId fleet).Reaches env jobId fleet n then _ else _) = _
  simp only [DiscardPlan.Reaches, ht, hq, ne_eq, not_false_eq_true, if_true]
  rfl

/-- The pump after a failed MGET: the ids passed so far are wiped, each under the names resolved
from the state before, and no other queue is touched. -/
theorem wiped_unread (hq : queue ≠ "") (hids : jobIds.Nodup) :
    let h := hydrateAndDropStale env now queue jobIds budget true fleet
    (∀ n, n ≠ queue → h.2 n = fleet n) ∧
      Wiped jobIds (jobIds.flatMap fun id => (unreadPlan env now queue id fleet).key.toList)
        (fleet queue) (h.2 queue) := by
  refine Loop.foldl_prefix (P := fun done (h : Hydration) => (∀ n, n ≠ queue → h.fleet n = fleet n) ∧
    Wiped done (done.flatMap fun id => (unreadPlan env now queue id fleet).key.toList)
      (fleet queue) (h.fleet queue)) ⟨fun _ _ => rfl, Wiped.refl _⟩ ?_
  intro done id rest h hsplit ⟨hother, hwiped⟩
  have hnew : id ∉ done := by
    rw [hsplit, List.nodup_append] at hids
    intro hin
    exact hids.2.2 id hin id (by simp) rfl
  have hread : (h.fleet queue).getJob now id = (fleet queue).getJob now id :=
    getKey_congr (by simp [hwiped.jobs, hnew])
  have hplan : unreadPlan env now queue id h.fleet = unreadPlan env now queue id fleet := by
    simp only [unreadPlan, hread]
  simp only [hydrateOne, getJobs, if_true]
  refine ⟨fun n hn => ?_, ?_⟩
  · rw [discard_known hq, if_neg hn]
    exact hother n hn
  · rw [discard_known hq, if_pos rfl, hplan, List.flatMap_append]
    simpa using hwiped.trans wiped_wipe

theorem unread_unharmed_iff (hq : queue ≠ "") (hids : jobIds.Nodup) :
    (∀ n, Unharmed now (fleet n)
        ((hydrateAndDropStale env now queue jobIds budget true fleet).2 n)) ↔
      ∀ id ∈ jobIds, (fleet queue).Spares now id (unreadPlan env now queue id fleet).key := by
  obtain ⟨hother, hwiped⟩ := @wiped_unread env now queue jobIds budget fleet hq hids
  have hqueue : Unharmed now _ _ ↔ _ := unharmed_iff_of_wiped hwiped
  constructor
  · intro hu id hid other job hl
    obtain ⟨hne, hkeys⟩ := hqueue.mp (hu queue) other job hl
    refine ⟨fun he => hne (he ▸ hid), fun k hk hkey => hkeys k ?_ hkey⟩
    exact List.mem_flatMap.mpr ⟨id, hid, by simp [hk]⟩
  · intro hs n
    by_cases hn : n = queue
    · subst hn
      refine hqueue.mpr fun other job hl => ⟨fun hin => ?_, fun k hk hkey => ?_⟩
      · exact (hs other hin other job hl).1 rfl
      · obtain ⟨id, hid, hk⟩ := List.mem_flatMap.mp hk
        exact (hs id hid other job hl).2 k (by simpa using hk) hkey
    · rw [hother n hn]
      exact unharmed_refl

end Pump

section Worker

variable {env : Registry} {now : ℚ} {fleet after : Fleet} {jobId : String}
  {raised : String → Bool}

/-- What the worker resolves for a delivered id whose payload it did not get. -/
def undeliveredPlan (env : Registry) (now : ℚ) (jobId : String) (fleet : Fleet) : DiscardPlan :=
  discardPlan env ((fleet (namespaceForJobId env jobId)).getJob now jobId) jobId "" "" ""

/-- The condition for a worker: the discard, if there is one, spares every live job of every
namespace it reaches. -/
def DeliverySpares (env : Registry) (now : ℚ) (jobId : String) (fleet : Fleet) : Prop :=
  namespaceForJobId env jobId ≠ "" → ∀ n,
    (undeliveredPlan env now jobId fleet).Reaches env jobId fleet n →
      (fleet n).Spares now jobId (undeliveredPlan env now jobId fleet).key

theorem undelivered_unharmed_iff (h : executeJob env now raised jobId fleet = .inr after) :
    (∀ n, Unharmed now (fleet n) (after n)) ↔ DeliverySpares env now jobId fleet := by
  unfold executeJob at h
  split at h
  · cases h
  · obtain rfl := Sum.inr.inj h
    by_cases hns : namespaceForJobId env jobId = ""
    · simp [DeliverySpares, hns, unharmed_refl]
    · have happly : ∀ n, discardOrphanedJob env now (namespaceForJobId env jobId) jobId "" "" "" fleet n
          = if (undeliveredPlan env now jobId fleet).Reaches env jobId fleet n then
              (fleet n).wipe jobId (undeliveredPlan env now jobId fleet) else fleet n :=
        fun _ => discardOrphanedJob_apply
      simp only [ne_eq, hns, not_false_eq_true, if_true, happly, DeliverySpares, forall_const]
      refine forall_congr' fun n => ?_
      by_cases hr : (undeliveredPlan env now jobId fleet).Reaches env jobId fleet n
      · simp only [hr, if_true, forall_const]
        exact unharmed_wipe_iff
      · simp [hr, unharmed_refl]

end Worker

/-- One queue and its one task. -/
def portraitRegistry : Registry where
  queues := ["ai"]
  registered := ["portrait"]
  tasks := [("portrait", "ai")]
  routed := []

end Dispatch
