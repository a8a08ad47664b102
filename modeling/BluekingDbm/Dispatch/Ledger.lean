import BluekingDbm.Dispatch.Ceilings

/-! The admission ledger: what was accepted is pending, reserved, or was removed. -/
namespace Dispatch

open Redis Transition

/-- The queue beside the admissions reported accepted and the members that finalize and purge
reported removed. -/
structure LedgerAudit where
  queue : QueueState
  accepted : ℕ
  removed : ℕ

def LedgerAudit.initial (now : ℚ) : LedgerAudit := ⟨.initial now, 0, 0⟩

/-- What the ledger adds to a step of the queue, read from the replies of the scripts. -/
def LedgerAudit.record (a : LedgerAudit) (e : ScriptEvent) (queue : QueueState) : LedgerAudit :=
  match e with
  | .enqueue maxAdmitted checkDedupe taskKey entries =>
    let statuses := (enqueueJobsLua a.queue.now maxAdmitted checkDedupe taskKey entries
      a.queue.ns).1
    { a with queue, accepted := a.accepted + statuses.count .accepted }
  | .finalize jobId key taskKey =>
    { a with queue, removed := a.removed + (finalizeJobLua jobId key taskKey a.queue.ns).1 }
  | .purge jobId taskKey =>
    let reply := (purgeJobLua jobId taskKey a.queue.ns).1
    { a with queue, removed := a.removed + (reply.1 + reply.2) }
  | _ => { a with queue }

def LedgerAudit.next (a : LedgerAudit) (e : ScriptEvent) : Option LedgerAudit :=
  (a.queue.next e).map (a.record e)

def LedgerAudit.Balanced (a : LedgerAudit) : Prop :=
  a.accepted = zcard a.queue.ns.pending + zcard a.queue.ns.reserved + a.removed

/-- An admission merges into nothing and overwrites nothing: each member keeps its place, its
score and its payload, and each accepted entry stands in pending with its own. -/
structure Unmerged (before after : Namespace) (entries : List EnqueueEntry)
    (statuses : List EnqueueStatus) : Prop where
  pending : ∀ id ∈ before.pending, zscore after.pending id = zscore before.pending id
  reserved : after.reserved = before.reserved
  payload : ∀ id, id ∈ before.pending ∨ id ∈ before.reserved → after.jobs id = before.jobs id
  accepted : ∀ p ∈ entries.zip statuses, p.2 = .accepted →
    zscore after.pending p.1.jobId = some p.1.score ∧
      (after.jobs p.1.jobId).map Entry.value = some p.1.jobSnapshot

/-- The ids that an admission without dedupe lets in: as many as fit, in the order given. -/
def admissibleIds (maxAdmitted : ℕ) (ns : Namespace) (entries : List EnqueueEntry) : List String :=
  (entries.take (maxAdmitted - ns.admitted)).map EnqueueEntry.jobId

/-- No id that fits is repeated, and none is inside the queue. -/
structure FreshBatch (maxAdmitted : ℕ) (ns : Namespace) (entries : List EnqueueEntry) : Prop where
  nodup : (admissibleIds maxAdmitted ns entries).Nodup
  fresh : ∀ id ∈ admissibleIds maxAdmitted ns entries, id ∉ ns.pending ∧ id ∉ ns.reserved

/-- The admission checks for duplicates, or admits nothing, or has no duplicate to check for. -/
def NoMerge (ns : Namespace) : ScriptEvent → Prop
  | .enqueue maxAdmitted checkDedupe _ entries =>
    checkDedupe = true ∨ ns.producerGate = true ∨ FreshBatch maxAdmitted ns entries
  | _ => True

section Admission

variable {now : ℚ} {maxAdmitted : ℕ} {checkDedupe : Bool} {ns claimed : Namespace}
  {loop : EnqueueLoop} {entry : EnqueueEntry} {done rest entries : List EnqueueEntry}
  {taskKey : String} {status : EnqueueStatus}

/-- The loop variables while every accepted job is a new member. -/
structure Admissions (ns : Namespace) (done : List EnqueueEntry) (loop : EnqueueLoop) : Prop where
  disjoint : loop.ns.Disjoint
  counted : loop.admitted = ns.admitted + loop.acceptedCount
  card : zcard loop.ns.pending = zcard ns.pending + loop.acceptedCount
  replies : loop.statuses.count .accepted = loop.acceptedCount
  length : loop.statuses.length = done.length
  unmerged : Unmerged ns loop.ns done loop.statuses

theorem admissions_initial (h : ns.Disjoint) :
    Admissions ns [] ⟨ns, zcard ns.pending + zcard ns.reserved, 0, []⟩ :=
  ⟨h, rfl, rfl, rfl, rfl, fun _ _ => rfl, rfl, fun _ _ => rfl, by simp⟩

theorem Admissions.finish (h : Admissions ns done loop) (hs : status ≠ .accepted) :
    Admissions ns (done ++ [entry]) (loop.finish status) where
  disjoint := h.disjoint
  counted := h.counted
  card := h.card
  replies := by simpa [EnqueueLoop.finish, List.count_append, hs] using h.replies
  length := by simpa [EnqueueLoop.finish] using h.length
  unmerged := by
    refine ⟨h.unmerged.pending, h.unmerged.reserved, h.unmerged.payload, ?_⟩
    intro p hp ha
    simp only [EnqueueLoop.finish, List.zip_append h.length.symm, List.mem_append] at hp
    rcases hp with hp | hp
    · exact h.unmerged.accepted p hp ha
    · simp only [List.zip_cons_cons, List.zip_nil_right, List.mem_singleton] at hp
      subst hp
      exact absurd ha hs

/-- Accepting a job that is new to the queue disturbs nothing that came before it. -/
theorem Admissions.accept (h : Admissions ns done loop)
    (hc : loop.ns.claimDedupe now checkDedupe entry = some claimed)
    (hp : entry.jobId ∉ loop.ns.pending) (hr : entry.jobId ∉ loop.ns.reserved) :
    Admissions ns (done ++ [entry]) (loop.accept now claimed entry) := by
  have hclaimed := (claimDedupe_frame hc).1
  have hcounted := h.counted
  have hcard := h.card
  rw [hclaimed]
  have hkeep : ∀ id, id ∈ loop.ns.pending →
      zscore (zadd loop.ns.pending entry.score entry.jobId) id = zscore loop.ns.pending id := by
    intro id hid
    exact zscore_zadd_ne fun he => hp (he ▸ hid)
  have hmem : ∀ id q, zscore loop.ns.pending id = some q → id ∈ loop.ns.pending := by
    intro id q hq
    exact zscore_isSome.mp (by simp [hq])
  have hold : ∀ id, id ∈ ns.pending → id ∈ loop.ns.pending := by
    intro id hid
    obtain ⟨q, hq⟩ := Option.isSome_iff_exists.mp (zscore_isSome.mpr hid)
    exact hmem id q (by rw [h.unmerged.pending id hid, hq])
  refine ⟨disjoint_enter h.disjoint hr, ?_, ?_, ?_, ?_, ?_⟩
  · simp only [EnqueueLoop.accept]
    omega
  · simp only [EnqueueLoop.accept, Namespace.enter, zcard_zadd_of_not_mem hp]
    omega
  · simp [EnqueueLoop.accept, List.count_append, h.replies]
  · simp [EnqueueLoop.accept, h.length]
  · refine ⟨fun id hid => ?_, h.unmerged.reserved, fun id hid => ?_, fun p hpair ha => ?_⟩
    · exact (hkeep id (hold id hid)).trans (h.unmerged.pending id hid)
    · have hne : id ≠ entry.jobId := by
        rintro rfl
        rcases hid with hid | hid
        · exact hp (hold _ hid)
        · exact hr (h.unmerged.reserved ▸ hid)
      exact (setEx_ne hne).trans (h.unmerged.payload id hid)
    · simp only [EnqueueLoop.accept, List.zip_append h.length.symm, List.mem_append] at hpair
      rcases hpair with hpair | hpair
      · obtain ⟨hscore, hjob⟩ := h.unmerged.accepted p hpair ha
        have hin := hmem _ _ hscore
        refine ⟨(hkeep _ hin).trans hscore, ?_⟩
        have hne : p.1.jobId ≠ entry.jobId := fun he => hp (he ▸ hin)
        simpa [EnqueueLoop.accept, Namespace.enter, setEx_ne hne] using hjob
      · simp only [List.zip_cons_cons, List.zip_nil_right, List.mem_singleton] at hpair
        subst hpair
        simp [EnqueueLoop.accept, Namespace.enter, setEx_self]

/-- Without dedupe and behind an open gate the loop accepts until the queue is full. -/
theorem enqueueOne_fills (h : loop.admitted < maxAdmitted) :
    enqueueOne now maxAdmitted false false loop entry = loop.accept now loop.ns entry := by
  simp [enqueueOne, Namespace.claimDedupe, Nat.not_le.mpr h]

/-- Without dedupe every job that fits is accepted, so a fresh batch makes every job new. -/
structure Filling (maxAdmitted : ℕ) (ns : Namespace) (done : List EnqueueEntry)
    (loop : EnqueueLoop) : Prop where
  admissions : Admissions ns done loop
  members : ∀ id ∈ loop.ns.pending, id ∈ ns.pending ∨ id ∈ done.map EnqueueEntry.jobId
  all : loop.admitted < maxAdmitted → loop.acceptedCount = done.length

/-- The entry that the loop reaches while there is room is one of those that fit. -/
theorem admissibleIds_split (hentries : entries = done ++ entry :: rest)
    (h : ns.admitted + done.length < maxAdmitted) :
    ∃ k, admissibleIds maxAdmitted ns entries =
      done.map EnqueueEntry.jobId ++ entry.jobId :: (rest.take k).map EnqueueEntry.jobId := by
  subst hentries
  refine ⟨maxAdmitted - ns.admitted - done.length - 1, ?_⟩
  obtain ⟨k, hk⟩ : ∃ k, maxAdmitted - ns.admitted = done.length + (k + 1) :=
    ⟨maxAdmitted - ns.admitted - done.length - 1, by omega⟩
  rw [admissibleIds, hk, List.take_append]
  simp

theorem filling (h : ns.Disjoint) (hgate : ns.producerGate = false)
    (hf : FreshBatch maxAdmitted ns entries) :
    Filling maxAdmitted ns entries (enqueueLoop now maxAdmitted false entries ns) := by
  refine enqueueLoop_prefix ⟨admissions_initial h, fun _ hid => .inl hid, fun _ => rfl⟩ ?_ ?_
  · intro done entry rest loop status _ hs he hl
    rw [hgate] at he
    refine ⟨hl.admissions.finish hs, fun id hid => ?_, fun hm => ?_⟩
    · rcases hl.members id hid with hid | hid
      · exact .inl hid
      · exact .inr (by simp [hid])
    · -- there was room, so the entry was not rejected
      rw [enqueueOne_fills (show loop.admitted < maxAdmitted from hm)] at he
      have := congrArg EnqueueLoop.acceptedCount he
      simp [EnqueueLoop.accept, EnqueueLoop.finish] at this
  · intro done entry rest loop claimed hentries hc _ _ hm hl
    have hall := hl.all hm
    have hcounted := hl.admissions.counted
    have hroom : ns.admitted + done.length < maxAdmitted := by omega
    obtain ⟨k, hk⟩ := admissibleIds_split hentries hroom
    have hfresh := hf.fresh entry.jobId (by simp [hk])
    have hnew : entry.jobId ∉ done.map EnqueueEntry.jobId := by
      have hnodup := hf.nodup
      rw [hk, List.nodup_append] at hnodup
      intro hin
      exact hnodup.2.2 _ hin _ (by simp) rfl
    have hp : entry.jobId ∉ loop.ns.pending := by
      intro hin
      rcases hl.members _ hin with hin | hin
      · exact hfresh.1 hin
      · exact hnew hin
    have hr : entry.jobId ∉ loop.ns.reserved := hl.admissions.unmerged.reserved ▸ hfresh.2
    refine ⟨hl.admissions.accept hc hp hr, fun id hid => ?_, fun _ => ?_⟩
    · rw [(claimDedupe_frame hc).1] at hid
      rcases mem_zadd.mp hid with rfl | hid
      · exact .inr (by simp)
      · rcases hl.members id hid with hid | hid
        · exact .inl hid
        · exact .inr (by simp [hid])
    · simp [EnqueueLoop.accept, hall]

theorem admissions (h : ns.Disjoint)
    (hm : NoMerge ns (.enqueue maxAdmitted checkDedupe taskKey entries)) :
    Admissions ns entries (enqueueLoop now maxAdmitted checkDedupe entries ns) := by
  have hchecked : ∀ checkDedupe, checkDedupe = true ∨ ns.producerGate = true →
      Admissions ns entries (enqueueLoop now maxAdmitted checkDedupe entries ns) := by
    intro checkDedupe hd
    refine enqueueLoop_prefix (admissions_initial h) (fun _ _ _ _ _ _ hs _ hl => hl.finish hs) ?_
    intro done entry rest loop claimed _ hc hp hi _ hl
    rcases hd with hd | hd
    · obtain ⟨hp, hr⟩ := not_mem_of_holdsIdentity (hi hd)
      exact hl.accept hc hp hr
    · simp [hd] at hp
  rcases hm with hd | hg | hf
  · exact hchecked _ (.inl hd)
  · exact hchecked _ (.inr hg)
  · cases hg : ns.producerGate with
    | true => exact hchecked _ (.inr hg)
    | false =>
      cases checkDedupe with
      | true => exact hchecked _ (.inl rfl)
      | false => exact (filling h hg hf).admissions

end Admission

section Balance

variable {now score : ℚ} {ns : Namespace} {id taskKey : String} {key : Option String}
  {jobSnapshot : DispatchJob} {ttl maxReserved tickBudget : ℕ} {tickId : ℤ}

/-- A reservation moves members across and loses none. -/
theorem admitted_reserve {entries : List ReserveEntry} (h : ns.Disjoint) :
    (reserveJobLua now maxReserved tickBudget tickId entries ns).2.admitted = ns.admitted := by
  have hloop : (reserveLoop now maxReserved tickBudget tickId entries ns).ns.Disjoint ∧
      (reserveLoop now maxReserved tickBudget tickId entries ns).ns.admitted = ns.admitted := by
    refine reserveLoop_induction (P := fun loop => loop.ns.Disjoint ∧ loop.ns.admitted = ns.admitted)
      ⟨h, rfl⟩ (fun _ _ _ hl => hl) ?_
    intro loop entry _ hp _ _ ⟨hd, hadm⟩
    have hrem := zcard_zrem_of_mem hp
    refine ⟨disjoint_promote hd, ?_⟩
    simp only [Namespace.admitted, ReserveLoop.promote, promote_pending, promote_reserved,
      zcard_zadd_of_not_mem (hd _ hp)] at hadm ⊢
    omega
  simpa [Namespace.admitted] using hloop.2

theorem admitted_requeue (h : ns.Disjoint) :
    (requeueJobLua now id jobSnapshot ttl score taskKey ns).2.admitted = ns.admitted := by
  by_cases hid : id ∈ ns.reserved
  · have hp : id ∉ ns.pending := fun hp => h id hp hid
    have hrem := zcard_zrem_of_mem hid
    rw [requeueJobLua_of_mem hid]
    simp only [Namespace.admitted, moveCount_pending, moveCount_reserved, zcard_zadd_of_not_mem hp]
    omega
  · rw [requeueJobLua_of_not_mem hid]

theorem admitted_finalize :
    (finalizeJobLua id key taskKey ns).2.admitted + (finalizeJobLua id key taskKey ns).1 =
      ns.admitted := by
  have hrem := zcard_zrem_add_reply (z := ns.reserved) (a := id)
  simp only [Namespace.admitted, finalizeJobLua_pending, finalizeJobLua_reserved]
  simp only [finalizeJobLua]
  omega

theorem admitted_purge :
    (purgeJobLua id taskKey ns).2.admitted +
      ((purgeJobLua id taskKey ns).1.1 + (purgeJobLua id taskKey ns).1.2) = ns.admitted := by
  have hpend := zcard_zrem_add_reply (z := ns.pending) (a := id)
  have hres := zcard_zrem_add_reply (z := ns.reserved) (a := id)
  simp only [Namespace.admitted, purgeJobLua_pending, purgeJobLua_reserved]
  simp only [purgeJobLua]
  omega

end Balance

variable {a a' : LedgerAudit} {e : ScriptEvent} {es : List ScriptEvent}

/-- What the ledger needs of the queue, and the balance itself. -/
structure LedgerAudit.Sound (a : LedgerAudit) : Prop where
  disjoint : a.queue.ns.Disjoint
  balanced : a.accepted = a.queue.ns.admitted + a.removed

theorem ledger_step (h : a.Sound) (he : NoMerge a.queue.ns e) (hs : a.next e = some a') :
    a'.Sound := by
  have hb := h.balanced
  cases e with
  | enqueue maxAdmitted checkDedupe taskKey entries =>
    have hadm : Admissions a.queue.ns entries
        (enqueueLoop a.queue.now maxAdmitted checkDedupe entries a.queue.ns) :=
      admissions h.disjoint he
    have hcard := hadm.card
    cases hs
    refine ⟨?_, ?_⟩
    · simpa [LedgerAudit.record, Namespace.Disjoint] using hadm.disjoint
    · simp only [LedgerAudit.record, enqueueJobsLua_statuses, hadm.replies, Namespace.admitted,
        enqueueJobsLua_pending, enqueueJobsLua_reserved, hadm.unmerged.reserved] at hb ⊢
      omega
  | reserve maxReserved tickBudget tickId entries =>
    cases hs
    exact ⟨disjoint_reserve h.disjoint, by simpa [LedgerAudit.record, admitted_reserve h.disjoint]⟩
  | finalize jobId key taskKey =>
    have hrem : (finalizeJobLua jobId key taskKey a.queue.ns).2.admitted + _ = _ :=
      admitted_finalize
    cases hs
    refine ⟨disjoint_finalize h.disjoint, ?_⟩
    simp only [LedgerAudit.record]
    omega
  | requeue jobId jobSnapshot queueWaitTtl score taskKey =>
    cases hs
    exact ⟨disjoint_requeue h.disjoint, by simpa [LedgerAudit.record, admitted_requeue h.disjoint]⟩
  | purge jobId taskKey =>
    have hrem : (purgeJobLua jobId taskKey a.queue.ns).2.admitted + _ = _ := admitted_purge
    cases hs
    refine ⟨disjoint_purge h.disjoint, ?_⟩
    simp only [LedgerAudit.record]
    omega
  | cleanup =>
    cases hs
    exact ⟨by simpa [LedgerAudit.record, Namespace.Disjoint] using h.disjoint,
      by simpa [LedgerAudit.record, Namespace.admitted] using h.balanced⟩
  | gate =>
    cases hs
    exact ⟨h.disjoint, h.balanced⟩
  | elapse seconds =>
    simp only [LedgerAudit.next, QueueState.next] at hs
    split at hs
    · cases hs
      exact ⟨h.disjoint, h.balanced⟩
    · cases hs

theorem ledger_reachable {now : ℚ}
    (h : Run (Guarded (fun a e => NoMerge a.queue.ns e) (Steps LedgerAudit.next)) (.initial now)
      es a) : a.Sound :=
  h.invariant LedgerAudit.Sound ⟨disjoint_empty, rfl⟩ fun hi hs => ledger_step hi hs.1 hs.2

/-- In a run whose admissions merge nothing the ledger balances at every moment, and the next such
admission overwrites nothing either. -/
theorem ledger_balanced {now : ℚ}
    (h : Run (Guarded (fun a e => NoMerge a.queue.ns e) (Steps LedgerAudit.next)) (.initial now)
      es a) :
    a.accepted = zcard a.queue.ns.pending + zcard a.queue.ns.reserved + a.removed ∧
      ∀ maxAdmitted checkDedupe taskKey entries,
        NoMerge a.queue.ns (.enqueue maxAdmitted checkDedupe taskKey entries) →
        Unmerged a.queue.ns
          (enqueueJobsLua a.queue.now maxAdmitted checkDedupe taskKey entries a.queue.ns).2 entries
          (enqueueJobsLua a.queue.now maxAdmitted checkDedupe taskKey entries a.queue.ns).1 := by
  have hs := ledger_reachable h
  refine ⟨hs.balanced, fun maxAdmitted checkDedupe taskKey entries hm => ?_⟩
  have hadm : Admissions a.queue.ns entries
      (enqueueLoop a.queue.now maxAdmitted checkDedupe entries a.queue.ns) :=
    admissions hs.disjoint hm
  obtain ⟨hpending, hreserved, hpayload, haccepted⟩ := hadm.unmerged
  constructor
  · simpa using hpending
  · simpa using hreserved
  · simpa using hpayload
  · simpa [enqueueJobsLua_statuses] using haccepted

theorem ledger_balanced_one_submit :
    ∃ a, LedgerAudit.next (.initial 0) (.enqueue 5 false "portrait" [portraitEntry]) = some a ∧
      a.accepted = 1 ∧
      a.accepted = zcard a.queue.ns.pending + zcard a.queue.ns.reserved + a.removed :=
  ⟨_, rfl, by decide +kernel, (ledger_balanced
    (.snoc (e := ScriptEvent.enqueue 5 false "portrait" [portraitEntry]) .refl
      ⟨.inr (.inr ⟨by decide +kernel, fun _ _ => ⟨not_mem_empty, not_mem_empty⟩⟩), rfl⟩)).1⟩

/-- Submitted twice in one batch without dedupe: both are reported accepted, one is left. -/
theorem ledger_merges_repeated_id :
    ∃ a, Run (Steps LedgerAudit.next) (.initial 0) [.enqueue 5 false "portrait" [portraitEntry,
        { portraitEntry with
          jobSnapshot := { portraitEntry.jobSnapshot with payloadJson := "second" } }]] a ∧
      a.accepted = 2 ∧ zcard a.queue.ns.pending + zcard a.queue.ns.reserved + a.removed = 1 ∧
      (a.queue.ns.getJob 0 portraitEntry.jobId).map DispatchJob.payloadJson = some "second" :=
  ⟨_, run_of_exec rfl, by decide +kernel, by decide +kernel, by decide +kernel⟩

end Dispatch
