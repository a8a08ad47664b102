import BluekingDbm.Dispatch.Scripts

/-! The derived per-task counts mirror the membership of the two sorted sets. -/
namespace Dispatch

open Redis Transition

/-- How many members of `z` are jobs of the task, `own` being the task key of each job id. -/
def membersOf (own : String → String) (taskKey : String) (z : SortedSet String) : ℕ :=
  zcount (fun id => own id = taskKey) z

/-- One family of fields counts the members of `z`, task by task. -/
def CountsMatch (own : String → String) (field : String → CountField) (z : SortedSet String)
    (counts : Counters CountField) : Prop :=
  ∀ t, t ≠ "" → counts (field t) = tallied (membersOf own t z)

/-- The hash mirrors membership, and no job is a member of both sets. -/
structure Mirrors (own : String → String) (ns : Namespace) : Prop where
  disjoint : ns.Disjoint
  pending : CountsMatch own .pending ns.pending ns.taskCounts
  reserved : CountsMatch own .reserved ns.reserved ns.taskCounts

/-- Every call is given the job's own task key, and admission checks for duplicates. -/
def ScriptEvent.OwnTask (own : String → String) : ScriptEvent → Prop
  | .enqueue _ checkDedupe taskKey entries =>
    checkDedupe = true ∧ ∀ entry ∈ entries, own entry.jobId = taskKey
  | .reserve _ _ _ entries => ∀ entry ∈ entries, entry.taskKey = own entry.jobId
  | .finalize jobId _ taskKey => taskKey = own jobId
  | .requeue jobId _ _ _ taskKey => taskKey = own jobId
  | .purge jobId taskKey => taskKey = own jobId
  | .cleanup _ _ | .gate _ | .elapse _ => True

/-- No field is stored with a value that is not positive. -/
def CountsPositive (counts : Counters CountField) : Prop := ∀ f n, counts f = some n → 0 < n

section Moves

variable {own : String → String} {field other : String → CountField} {z z' : SortedSet String}
  {counts : Counters CountField} {taskKey id t : String} {d : ℤ} {q : ℚ}

theorem pending_injective : Function.Injective CountField.pending := fun _ _ h => by cases h; rfl

theorem reserved_injective : Function.Injective CountField.reserved := fun _ _ h => by cases h; rfl

/-- A count that moves with the membership keeps counting it. -/
theorem CountsMatch.move (h : CountsMatch own field z counts) (hf : Function.Injective field)
    (hz : ∀ t, (membersOf own t z' : ℤ) = membersOf own t z + if t = taskKey then d else 0) :
    CountsMatch own field z' (moveField counts field taskKey d) := by
  intro t ht
  have hm := hz t
  by_cases he : t = taskKey
  · subst he
    rw [if_pos rfl] at hm
    simp only [moveField, if_neg ht]
    exact hincrbyPrune_self (h t ht) hm.symm
  · rw [if_neg he, add_zero] at hm
    rw [moveField_ne (hf.ne he), h t ht, Nat.cast_injective hm]

/-- Moving one family of fields leaves the other alone. -/
theorem CountsMatch.frame (h : CountsMatch own field z counts) (hne : ∀ t, field t ≠ other taskKey) :
    CountsMatch own field z (moveField counts other taskKey d) := by
  intro t ht
  rw [moveField_ne (hne t), h t ht]

theorem membersOf_zadd (h : id ∉ z) :
    (membersOf own t (zadd z q id) : ℤ) = membersOf own t z + if t = own id then 1 else 0 := by
  simp [membersOf, zcount_zadd_of_not_mem h, eq_comm]

theorem membersOf_zrem (h : id ∈ z) :
    (membersOf own t (zrem z id) : ℤ) = membersOf own t z + if t = own id then -1 else 0 := by
  have := zcount_zrem_of_mem (p := fun id => decide (own id = t)) h
  by_cases he : t = own id
  · simp_all [membersOf]
    omega
  · have hne : own id ≠ t := fun h => he h.symm
    simp_all [membersOf]

theorem CountsMatch.zadd (h : CountsMatch own field z counts) (hf : Function.Injective field)
    (hid : id ∉ z) : CountsMatch own field (zadd z q id) (moveField counts field (own id) 1) :=
  h.move hf fun _ => membersOf_zadd hid

theorem CountsMatch.zrem (h : CountsMatch own field z counts) (hf : Function.Injective field)
    (hid : id ∈ z) : CountsMatch own field (zrem z id) (moveField counts field (own id) (-1)) :=
  h.move hf fun _ => membersOf_zrem hid

end Moves

section Steps

variable {own : String → String} {ns : Namespace} {now score : ℚ} {id taskKey : String}
  {key : Option String} {slot : ReserveEntry} {jobSnapshot : DispatchJob} {ttl : ℕ}

theorem mirrors_empty : Mirrors own .empty where
  disjoint := disjoint_empty
  pending := fun _ _ => rfl
  reserved := fun _ _ => rfl

/-- One job taken out of pending and put into a slot moves one count of its task across. -/
theorem mirrors_promote (h : Mirrors own ns) (hid : slot.jobId ∈ ns.pending)
    (ht : slot.taskKey = own slot.jobId) : Mirrors own (ns.promote now slot) where
  disjoint := disjoint_promote h.disjoint
  pending := by
    simp only [Namespace.promote, moveCount_pending, moveCount_taskCounts, renewDedupe_pending,
      renewDedupe_taskCounts, ht]
    exact (h.pending.zrem pending_injective hid).frame fun _ => by simp
  reserved := by
    simp only [Namespace.promote, moveCount_reserved, moveCount_taskCounts, renewDedupe_reserved,
      renewDedupe_taskCounts, ht]
    exact (h.reserved.frame fun _ => by simp).zadd reserved_injective (h.disjoint _ hid)

theorem mirrors_finalize (h : Mirrors own ns) :
    Mirrors own (finalizeJobLua id key (own id) ns).2 where
  disjoint := disjoint_finalize h.disjoint
  pending := by
    by_cases hid : id ∈ ns.reserved
    · simpa [finalizeJobLua, zremReply, hid] using h.pending.frame fun _ => by simp
    · simpa [finalizeJobLua, zremReply, hid] using h.pending
  reserved := by
    by_cases hid : id ∈ ns.reserved
    · simpa [finalizeJobLua, zremReply, hid] using h.reserved.zrem reserved_injective hid
    · simpa [finalizeJobLua, zremReply, hid, zrem_of_not_mem] using h.reserved

theorem mirrors_requeue (h : Mirrors own ns) :
    Mirrors own (requeueJobLua now id jobSnapshot ttl score (own id) ns).2 := by
  refine ⟨disjoint_requeue h.disjoint, ?_, ?_⟩
  · by_cases hid : id ∈ ns.reserved
    · have hp : id ∉ ns.pending := fun hp => h.disjoint id hp hid
      rw [requeueJobLua_of_mem hid]
      exact (h.pending.frame fun _ => by simp).zadd pending_injective hp
    · rw [requeueJobLua_of_not_mem hid]
      exact h.pending
  · by_cases hid : id ∈ ns.reserved
    · rw [requeueJobLua_of_mem hid]
      exact (h.reserved.zrem reserved_injective hid).frame fun _ => by simp
    · rw [requeueJobLua_of_not_mem hid]
      exact h.reserved

theorem mirrors_purge (h : Mirrors own ns) : Mirrors own (purgeJobLua id (own id) ns).2 := by
  refine ⟨disjoint_purge h.disjoint, ?_, ?_⟩
  · by_cases hid : id ∈ ns.pending
    · have hr : id ∉ ns.reserved := h.disjoint id hid
      simpa [purgeJobLua, zremReply, hid, hr] using h.pending.zrem pending_injective hid
    · by_cases hr : id ∈ ns.reserved
      · simpa [purgeJobLua, zremReply, hid, hr, zrem_of_not_mem] using
          h.pending.frame fun _ => by simp
      · simpa [purgeJobLua, zremReply, hid, hr, zrem_of_not_mem] using h.pending
  · by_cases hr : id ∈ ns.reserved
    · have hid : id ∉ ns.pending := fun hid => h.disjoint id hid hr
      simpa [purgeJobLua, zremReply, hid, hr] using h.reserved.zrem reserved_injective hr
    · by_cases hid : id ∈ ns.pending
      · simpa [purgeJobLua, zremReply, hid, hr, zrem_of_not_mem] using
          h.reserved.frame fun _ => by simp
      · simpa [purgeJobLua, zremReply, hid, hr, zrem_of_not_mem] using h.reserved

/-- What holds of the loop variables of an admission: the count of the batch is still to be added,
and every job accepted so far is a new member. -/
structure AdmissionLoop (own : String → String) (taskKey : String) (ns : Namespace)
    (loop : EnqueueLoop) : Prop where
  disjoint : loop.ns.Disjoint
  taskCounts : loop.ns.taskCounts = ns.taskCounts
  reserved : loop.ns.reserved = ns.reserved
  pending : ∀ t, (membersOf own t loop.ns.pending : ℤ) =
    membersOf own t ns.pending + if t = taskKey then (loop.acceptedCount : ℤ) else 0

theorem admissionLoop {maxAdmitted : ℕ} {entries : List EnqueueEntry} (h : ns.Disjoint)
    (hown : ∀ entry ∈ entries, own entry.jobId = taskKey) :
    AdmissionLoop own taskKey ns (enqueueLoop now maxAdmitted true entries ns) := by
  refine enqueueLoop_induction ⟨h, rfl, rfl, by simp⟩ (fun loop status _ hl => ?_) ?_
  · exact ⟨hl.disjoint, hl.taskCounts, hl.reserved, hl.pending⟩
  · intro loop claimed entry hentry hc _ hi _ hl
    obtain ⟨hclaimed, -⟩ := claimDedupe_frame hc
    obtain ⟨hp, hr⟩ := not_mem_of_holdsIdentity (hi rfl)
    rw [hclaimed]
    refine ⟨disjoint_enter hl.disjoint hr, hl.taskCounts, hl.reserved, fun t => ?_⟩
    simp only [EnqueueLoop.accept, Namespace.enter]
    rw [membersOf_zadd hp, hl.pending t, hown entry hentry]
    split <;> push_cast <;> omega

theorem mirrors_enqueue {maxAdmitted : ℕ} {entries : List EnqueueEntry} (h : Mirrors own ns)
    (hown : ∀ entry ∈ entries, own entry.jobId = taskKey) :
    Mirrors own (enqueueJobsLua now maxAdmitted true taskKey entries ns).2 := by
  have hl : AdmissionLoop own taskKey ns (enqueueLoop now maxAdmitted true entries ns) :=
    admissionLoop h.disjoint hown
  refine ⟨?_, ?_, ?_⟩
  · simp only [enqueueJobsLua]
    split
    · exact hl.disjoint
    · exact hl.disjoint
  · simp only [enqueueJobsLua]
    split
    · rw [moveCount_pending, moveCount_taskCounts, hl.taskCounts]
      exact h.pending.move pending_injective hl.pending
    · rename_i hn
      have h0 : (enqueueLoop now maxAdmitted true entries ns).acceptedCount = 0 := by omega
      intro t ht
      have := hl.pending t
      rw [h0] at this
      rw [hl.taskCounts, h.pending t ht]
      congr 1
      split at this <;> omega
  · simp only [enqueueJobsLua]
    split
    · rw [moveCount_reserved, moveCount_taskCounts, hl.taskCounts, hl.reserved]
      exact h.reserved.frame fun _ => by simp
    · rw [hl.taskCounts, hl.reserved]
      exact h.reserved

theorem mirrors_reserve {maxReserved tickBudget : ℕ} {tickId : ℤ} {entries : List ReserveEntry}
    (h : Mirrors own ns) (hown : ∀ entry ∈ entries, entry.taskKey = own entry.jobId) :
    Mirrors own (reserveJobLua now maxReserved tickBudget tickId entries ns).2 := by
  have hloop : Mirrors own (reserveLoop now maxReserved tickBudget tickId entries ns).ns :=
    reserveLoop_induction h (fun _ _ _ h => h)
      fun _ entry hentry hp _ _ h => mirrors_promote h hp (hown entry hentry)
  refine ⟨disjoint_reserve h.disjoint, ?_, ?_⟩
  · simpa using hloop.pending
  · simpa using hloop.reserved

end Steps

variable {own : String → String} {s s' : QueueState} {e : ScriptEvent} {es : List ScriptEvent}

theorem moveField_positive {counts : Counters CountField} {field : String → CountField}
    {taskKey : String} {d : ℤ} (h : CountsPositive counts) :
    CountsPositive (moveField counts field taskKey d) := by
  intro f n hn
  by_cases hf : f = field taskKey
  · subst hf
    unfold moveField at hn
    split at hn
    · exact h _ _ hn
    · simp only [hincrbyPrune, Function.update_self] at hn
      split at hn
      · cases hn
      · cases hn
        omega
  · rw [moveField_ne hf] at hn
    exact h f n hn

/-- Every script prunes the fields that it moves. -/
theorem countsPositive_step (h : CountsPositive s.ns.taskCounts) (hs : s.next e = some s') :
    CountsPositive s'.ns.taskCounts := by
  cases e with
  | enqueue maxAdmitted checkDedupe taskKey entries =>
    cases hs
    have hloop : (enqueueLoop s.now maxAdmitted checkDedupe entries s.ns).ns.taskCounts =
        s.ns.taskCounts := by
      refine enqueueLoop_induction (P := fun loop => loop.ns.taskCounts = s.ns.taskCounts) rfl
        (fun _ _ _ hl => hl) ?_
      intro loop claimed entry _ hc _ _ _ hl
      rw [(claimDedupe_frame hc).1]
      exact hl
    simp only [enqueueJobsLua]
    split
    · rw [moveCount_taskCounts, hloop]
      exact moveField_positive h
    · rw [hloop]
      exact h
  | reserve maxReserved tickBudget tickId entries =>
    cases hs
    rw [reserveJobLua_taskCounts]
    refine reserveLoop_induction (P := fun loop => CountsPositive loop.ns.taskCounts) h
      (fun _ _ _ hl => hl) ?_
    intro loop entry _ _ _ _ hl
    simp only [ReserveLoop.promote, Namespace.promote, moveCount_taskCounts, renewDedupe_taskCounts]
    exact moveField_positive (moveField_positive hl)
  | finalize jobId key taskKey =>
    cases hs
    simp only [finalizeJobLua]
    split
    · simpa using moveField_positive h
    · simpa using h
  | requeue jobId jobSnapshot queueWaitTtl score taskKey =>
    cases hs
    by_cases hid : jobId ∈ s.ns.reserved
    · rw [requeueJobLua_of_mem hid]
      exact moveField_positive (moveField_positive h)
    · rw [requeueJobLua_of_not_mem hid]
      exact h
  | purge jobId taskKey =>
    cases hs
    simp only [purgeJobLua]
    split <;> split
    · exact moveField_positive (moveField_positive h)
    · exact moveField_positive h
    · exact moveField_positive h
    · exact h
  | cleanup =>
    cases hs
    simpa using h
  | gate =>
    cases hs
    exact h
  | elapse =>
    simp only [QueueState.next] at hs
    split at hs
    · cases hs
      exact h
    · cases hs

/-- Every atomic script keeps the mirror. -/
theorem mirrors_step (h : Mirrors own s.ns) (he : e.OwnTask own) (hs : s.next e = some s') :
    Mirrors own s'.ns := by
  cases e with
  | enqueue maxAdmitted checkDedupe taskKey entries =>
    obtain ⟨rfl, hown⟩ := he
    cases hs
    exact mirrors_enqueue h hown
  | reserve =>
    cases hs
    exact mirrors_reserve h he
  | finalize =>
    obtain rfl := he
    cases hs
    exact mirrors_finalize h
  | requeue =>
    obtain rfl := he
    cases hs
    exact mirrors_requeue h
  | purge =>
    obtain rfl := he
    cases hs
    exact mirrors_purge h
  | cleanup =>
    cases hs
    exact ⟨by simpa [Namespace.Disjoint] using h.disjoint, by simpa using h.pending,
      by simpa using h.reserved⟩
  | gate =>
    cases hs
    exact ⟨h.disjoint, h.pending, h.reserved⟩
  | elapse =>
    simp only [QueueState.next] at hs
    split at hs
    · cases hs
      exact h
    · cases hs

/-- In every run of the scripts no job is both waiting and in a slot, and for every task the two
fields of the hash count its pending and reserved members, absent for none. -/
theorem counts_mirror_membership {now : ℚ}
    (h : Run (Guarded (fun _ e => e.OwnTask own) (Steps QueueState.next)) (.initial now) es s) :
    (∀ id, ¬ (id ∈ s.ns.pending ∧ id ∈ s.ns.reserved)) ∧
      ∀ t, t ≠ "" →
        s.ns.taskCounts (.pending t) = tallied (membersOf own t s.ns.pending) ∧
        s.ns.taskCounts (.reserved t) = tallied (membersOf own t s.ns.reserved) := by
  have hm : Mirrors own s.ns :=
    h.invariant (fun s => Mirrors own s.ns) mirrors_empty fun hi hs =>
      mirrors_step hi hs.1 hs.2
  exact ⟨fun id hid => hm.disjoint id hid.1 hid.2, fun t ht => ⟨hm.pending t ht, hm.reserved t ht⟩⟩

theorem counts_mirror_one_submit :
    ∃ s, QueueState.next (.initial 0) (.enqueue 2 true "portrait" [portraitEntry]) = some s ∧
      s.ns.taskCounts (.pending "portrait") = some 1 ∧
      (∀ id, ¬ (id ∈ s.ns.pending ∧ id ∈ s.ns.reserved)) ∧
      ∀ t, t ≠ "" →
        s.ns.taskCounts (.pending t) = tallied (membersOf (fun _ => "portrait") t s.ns.pending) ∧
        s.ns.taskCounts (.reserved t) = tallied (membersOf (fun _ => "portrait") t s.ns.reserved) :=
  ⟨_, rfl, by decide +kernel, counts_mirror_membership
    (.snoc (e := ScriptEvent.enqueue 2 true "portrait" [portraitEntry]) .refl ⟨⟨rfl, by simp⟩, rfl⟩)⟩

end Dispatch
