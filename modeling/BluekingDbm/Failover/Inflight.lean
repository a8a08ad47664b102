import BluekingDbm.Failover.Conservation
import BluekingDbm.Failover.Pass
import BluekingDbm.Library.Lists

/-! Whether the mark of an instance tells that a pass still works on it. A mark is one time, shared by
all passes: the first of them to end clears it for all. -/
namespace Failover

open Transition

variable {cfg : WorkflowConfig} {s t : Am} {e : AmEvent} {es : List AmEvent} {k : String} {i n : ℕ}
  {h : Hold} {m : BizWindowManager} {bizId now : ℤ} {r : RangeOrder FailureWindowEntry}

theorem marked_of_task {st : HandlerStage} {j : ℕ} {task : TaskState}
    (hj : st.tasks[j]? = some task) : st.marked = 0 := by
  cases st with
  | started => rfl
  | switching tasks => rfl
  | releasing n => cases hj

/-- What a push, a pop and a MarkDone do to the marks and the holds; every other step leaves both. -/
theorem step_holds (hs : s.next cfg e = some t) :
    (∃ bizId inst at' clock, e = .push bizId inst at' clock ∧ s.clock ≤ clock ∧
      t = { s with mgr := (s.mgr.push bizId inst at' clock).2, clock }) ∨
    (∃ bizId now r, e = .popAndSwitch bizId now r ∧ t = s.popAndSwitch bizId now r) ∨
    (∃ i h k, s.holds[i]? = some h ∧ h.keys[h.marked]? = some k ∧ t.mgr = s.mgr.markDone k ∧
      t.clock = s.clock ∧ t.holds = s.holds.set i { h with marked := h.marked + 1 }) ∨
    (t.mgr = s.mgr ∧ t.clock = s.clock ∧ t.holds = s.holds) := by
  have hget : ∀ {i : ℕ} {h : Handler}, s.handlers[i]? = some h → s.holds[i]? = some h.hold := by
    intro i h hi
    simp [Am.holds, hi]
  have hset : ∀ (i : ℕ) (h : Handler) (stage : HandlerStage),
      (s.setStage i h stage).holds =
        s.holds.set i ⟨collectGroupInstanceKeys h.group, h.startedAt, stage.marked⟩ := by
    intro i h stage
    simp only [Am.holds, Am.setStage, List.map_set]
    rfl
  -- a stage with as many keys marked leaves the holds as they are
  have hsame : ∀ {i : ℕ} {h : Handler} {stage : HandlerStage}, s.handlers[i]? = some h →
      stage.marked = h.stage.marked → (s.setStage i h stage).holds = s.holds := by
    intro i h stage hi hm
    obtain ⟨hlen, heq⟩ := List.getElem?_eq_some_iff.mp (hget hi)
    rw [hset, hm]
    exact (congrArg (s.holds.set i) heq.symm).trans (List.set_getElem_self hlen)
  cases e with
  | push bizId inst at' clock =>
    simp only [Am.next] at hs
    split at hs
    · cases hs
    · rename_i hclock
      exact .inl ⟨bizId, inst, at', clock, rfl, Int.not_lt.mp hclock, (Option.some.inj hs).symm⟩
  | popAndSwitch bizId now r =>
    exact .inr (.inl ⟨bizId, now, r, rfl, (Option.some.inj hs).symm⟩)
  | spawn i r metadatas strategies =>
    obtain ⟨h, hi, hs⟩ := Option.bind_eq_some_iff.mp hs
    split at hs
    · cases hs
    · rename_i hstage
      have hzero : h.stage.marked = 0 := by rw [not_not.mp hstage]; rfl
      split at hs
      · obtain rfl := Option.some.inj hs
        exact .inr (.inr (.inr ⟨rfl, rfl, hsame hi hzero.symm⟩))
      · obtain rfl := Option.some.inj hs
        exact .inr (.inr (.inr ⟨rfl, rfl, hsame hi hzero.symm⟩))
  | panic i =>
    obtain ⟨h, hi, hs⟩ := Option.bind_eq_some_iff.mp hs
    split at hs
    · cases hs
    · rename_i hstage
      have hzero : h.stage.marked = 0 := by rw [not_not.mp hstage]; rfl
      obtain rfl := Option.some.inj hs
      exact .inr (.inr (.inr ⟨rfl, rfl, hsame hi hzero.symm⟩))
  | switch i j whiteList =>
    obtain ⟨h, hi, hs⟩ := Option.bind_eq_some_iff.mp hs
    split at hs
    · rename_i task hj
      have hzero : h.stage.marked = 0 := marked_of_task hj
      obtain rfl := Option.some.inj hs
      exact .inr (.inr (.inr ⟨rfl, rfl, hsame hi hzero.symm⟩))
    · cases hs
  | finish i j =>
    obtain ⟨h, hi, hs⟩ := Option.bind_eq_some_iff.mp hs
    split at hs
    · rename_i task hj
      obtain rfl := Option.some.inj hs
      exact .inr (.inr (.inr ⟨rfl, rfl, hsame hi (marked_of_task hj).symm⟩))
    · rename_i req hj
      obtain rfl := Option.some.inj hs
      exact .inr (.inr (.inr ⟨rfl, rfl, hsame hi (marked_of_task hj).symm⟩))
    · cases hs
  | wait i =>
    obtain ⟨h, hi, hs⟩ := Option.bind_eq_some_iff.mp hs
    split at hs
    · rename_i tasks hstage
      split at hs
      · obtain rfl := Option.some.inj hs
        have hzero : h.stage.marked = 0 := by rw [hstage]; rfl
        exact .inr (.inr (.inr ⟨rfl, rfl, hsame hi hzero.symm⟩))
      · cases hs
    · cases hs
  | markDone i =>
    obtain ⟨h, hi, hs⟩ := Option.bind_eq_some_iff.mp hs
    split at hs
    · rename_i n hstage
      obtain ⟨k, hk, hs⟩ := Option.bind_eq_some_iff.mp hs
      obtain rfl := Option.some.inj hs
      have hmarked : h.hold.marked = n := by simp [Handler.hold, HandlerStage.marked, hstage]
      refine .inr (.inr (.inl ⟨i, h.hold, k, hget hi, ?_, rfl, rfl, ?_⟩))
      · rw [hmarked]
        exact hk
      · rw [hmarked]
        exact hset i h (.releasing (n + 1))
    · cases hs

theorem markStart_inflight (m : BizWindowManager) (entries : List FailureWindowEntry) (now : ℤ)
    (k : String) :
    (m.markStart entries now).inflight k =
      if k ∈ entries.map (fun e => e.windowKey) then some now else m.inflight k := by
  have hfold : ∀ (entries : List FailureWindowEntry) (marks : String → Option ℤ),
      entries.foldl (fun (marks : String → Option ℤ) e =>
          Function.update marks e.windowKey (some now)) marks k =
        if k ∈ entries.map (fun e => e.windowKey) then some now else marks k := by
    intro entries
    induction entries with
    | nil => intro marks; rfl
    | cons e entries ih =>
      intro marks
      rw [List.foldl_cons, ih]
      by_cases hk : k ∈ entries.map fun e => e.windowKey
      · simp [hk]
      · by_cases he : k = e.windowKey
        · simp [he]
        · simp [hk, he]
  exact hfold entries m.inflight

/-- What the pop of a business returns from a state. -/
def Am.popped (s : Am) (bizId now : ℤ) (r : RangeOrder FailureWindowEntry) :
    List FailureWindowEntry := (s.mgr.pop bizId now r).1

theorem mem_popped {e : FailureWindowEntry} (he : e ∈ s.popped bizId now r) :
    e ∈ s.mgr.matured bizId now := by
  unfold Am.popped BizWindowManager.pop at he
  split at he
  · cases he
  · rename_i w hw
    simp only [BizWindowManager.matured, hw, Option.map_some, Option.getD_some]
    exact pop_perm.mem_iff.mp he

theorem popAndSwitch_inflight (s : Am) (bizId now : ℤ) (r : RangeOrder FailureWindowEntry)
    (k : String) :
    (s.popAndSwitch bizId now r).mgr.inflight k =
      if k ∈ (s.popped bizId now r).map (fun e => e.windowKey) then some now
      else s.mgr.inflight k := by
  simp only [Am.popAndSwitch, popAndMarkStart_eq]
  exact markStart_inflight ..

/-- The holds of the handlers a pass starts. -/
def Am.started (s : Am) (bizId now : ℤ) (r : RangeOrder FailureWindowEntry) : List Hold :=
  (groupEntriesByCloudAndDbType bizId (s.popped bizId now r)).map fun g =>
    ⟨collectGroupInstanceKeys g, now, 0⟩

theorem popAndSwitch_holds (s : Am) (bizId now : ℤ) (r : RangeOrder FailureWindowEntry) :
    (s.popAndSwitch bizId now r).holds = s.holds ++ s.started bizId now r := by
  simp only [Am.popAndSwitch, popAndMarkStart_eq, Am.holds, Am.started, List.map_append,
    List.map_map]
  rfl

/-- A pass's handlers own what it popped. -/
theorem started_owns (hk : k ∈ (s.popped bizId now r).map fun e => e.windowKey) :
    ∃ h ∈ s.started bizId now r, h.Owns k := by
  obtain ⟨e, he, rfl⟩ := List.mem_map.mp hk
  obtain ⟨g, hg, hin⟩ := exists_group he
  refine ⟨_, List.mem_map.mpr ⟨g, hg, rfl⟩, List.mem_map.mpr ⟨_, hin, rfl⟩, ?_⟩
  simp

theorem started_keys (hh : h ∈ s.started bizId now r) :
    h.startedAt = now ∧ h.marked = 0 ∧
      ∀ k ∈ h.keys, k ∈ (s.popped bizId now r).map fun e => e.windowKey := by
  obtain ⟨g, hg, rfl⟩ := List.mem_map.mp hh
  refine ⟨rfl, rfl, fun k hk => ?_⟩
  obtain ⟨inst, hinst, rfl⟩ := List.mem_map.mp hk
  obtain ⟨e, he, rfl⟩ := mem_groups hg hinst
  exact List.mem_map.mpr ⟨e, he, rfl⟩

/-- No instance is to be marked done by two of them. -/
def Hold.Apart (h h' : Hold) : Prop := ∀ k, h.Pending k → ¬ h'.Pending k

theorem started_apart (s : Am) (bizId now : ℤ) (r : RangeOrder FailureWindowEntry) :
    (s.started bizId now r).Pairwise Hold.Apart := by
  refine List.pairwise_map.mpr ((groups_apart bizId _).imp ?_)
  intro g g' hapart k hk hk'
  obtain ⟨x, hx, rfl⟩ := List.mem_map.mp (List.mem_of_mem_drop hk)
  obtain ⟨y, hy, hkey⟩ := List.mem_map.mp (List.mem_of_mem_drop hk')
  obtain ⟨hcloud, -, -, htype⟩ := instanceWindowKey_inj.mp hkey
  refine hapart x hx y hy ?_
  rw [Instance.cloudTypeKey, Instance.cloudTypeKey, hcloud, htype]

theorem Hold.Owns.pending (hk : h.Owns k) : h.Pending k := by
  have hin := hk.1
  rw [← List.take_append_drop h.marked h.keys] at hin
  exact (List.mem_append.mp hin).resolve_left hk.2

/-- The hold after one more MarkDone. -/
def Hold.mark (h : Hold) : Hold := { h with marked := h.marked + 1 }

theorem Hold.mark_owns {k' : String} (hk : h.keys[h.marked]? = some k) :
    h.mark.Owns k' ↔ h.Owns k' ∧ k' ≠ k := by
  have htake : h.keys.take (h.marked + 1) = h.keys.take h.marked ++ [k] := by
    rw [List.take_add_one, hk]
    rfl
  simp only [Hold.mark, Hold.Owns, htake, List.mem_append, List.mem_singleton, not_or, and_assoc]

theorem Hold.mark_pending {k' : String} (hk : h.mark.Pending k') : h.Pending k' := by
  rw [Hold.Pending, Hold.mark, ← List.drop_drop] at hk
  exact List.mem_of_mem_drop hk

theorem Hold.pending_of_next (hk : h.keys[h.marked]? = some k) : h.Pending k := by
  refine List.mem_of_getElem? (i := 0) ?_
  rw [List.getElem?_drop]
  exact hk

theorem push_inflight (m : BizWindowManager) (bizId : ℤ) (inst : Instance) (at' clock : ℤ)
    (k : String) :
    (m.push bizId inst at' clock).2.inflight k = m.inflight k ∨
      ((m.push bizId inst at' clock).2.inflight k = none ∧
        ∃ startAt, m.inflight k = some startAt ∧ m.inflightTTL ≤ clock - startAt) := by
  unfold BizWindowManager.push
  split
  · rename_i startAt hmark
    split
    · exact .inl rfl
    · rename_i hexpired
      by_cases hk : k = inst.windowKey
      · refine .inr ⟨?_, startAt, hk ▸ hmark, by omega⟩
        simp [BizWindowManager.pushLocked, hk]
      · exact .inl (Function.update_of_ne hk ..)
  · exact .inl rfl

theorem inflightTTL_step (hs : s.next cfg e = some t) : t.mgr.inflightTTL = s.mgr.inflightTTL := by
  rcases step_holds hs with ⟨bizId, inst, at', clock, -, -, rfl⟩ | ⟨bizId, now, r, -, rfl⟩ |
    ⟨i, h, k, -, -, hmgr, -⟩ | ⟨hmgr, -⟩
  · show (s.mgr.push bizId inst at' clock).2.inflightTTL = _
    unfold BizWindowManager.push
    split
    · split <;> rfl
    · rfl
  · simp only [Am.popAndSwitch]
    unfold BizWindowManager.popAndMarkStart
    split <;> rfl
  · rw [hmgr]
    rfl
  · rw [hmgr]

/-- A mark belongs to a handler that has not cleared it. -/
def Marked (s : Am) : Prop :=
  ∀ k startAt, s.mgr.inflight k = some startAt → ∃ h ∈ s.holds, h.Owns k

theorem marked_step (hm : Marked s) (hs : s.next cfg e = some t) : Marked t := by
  intro k startAt hk
  rcases step_holds hs with ⟨bizId, inst, at', clock, -, -, rfl⟩ | ⟨bizId, now, r, -, rfl⟩ |
    ⟨i, h, k', hi, hnext, hmgr, -, hholds⟩ | ⟨hmgr, -, hholds⟩
  · rcases push_inflight s.mgr bizId inst at' clock k with hsame | ⟨hnone, -⟩
    · exact hm k startAt (hsame.symm.trans hk)
    · cases hnone.symm.trans hk
  · rw [popAndSwitch_inflight] at hk
    rw [popAndSwitch_holds]
    split at hk
    · rename_i hpopped
      obtain ⟨h, hh, howns⟩ := started_owns hpopped
      exact ⟨h, List.mem_append_right _ hh, howns⟩
    · obtain ⟨h, hh, howns⟩ := hm k startAt hk
      exact ⟨h, List.mem_append_left _ hh, howns⟩
  · have hne : k ≠ k' := by
      rintro rfl
      rw [hmgr] at hk
      simp [BizWindowManager.markDone] at hk
    rw [hmgr] at hk
    have hold : s.mgr.inflight k = some startAt := by
      simpa [BizWindowManager.markDone, hne] using hk
    obtain ⟨h', hh', howns⟩ := hm k startAt hold
    obtain ⟨j, hj⟩ := List.mem_iff_getElem?.mp hh'
    rw [hholds]
    by_cases hij : i = j
    · subst hij
      obtain rfl := Option.some.inj (hi.symm.trans hj)
      refine ⟨h.mark, ?_, (Hold.mark_owns hnext).mpr ⟨howns, hne⟩⟩
      exact List.mem_set (List.getElem?_eq_some_iff.mp hi).1 _
    · refine ⟨h', List.mem_of_getElem? (i := j) ?_, howns⟩
      rw [List.getElem?_set_ne hij]
      exact hj
  · rw [hmgr] at hk
    rw [hholds]
    exact hm k startAt hk

/-- A pop takes no entry of an instance that a running handler has yet to mark done. -/
def Lone (s : Am) : AmEvent → Prop
  | .popAndSwitch bizId now _ =>
    ∀ e ∈ s.mgr.matured bizId now, ∀ h ∈ s.holds, ¬ h.Pending e.windowKey
  | _ => True

instance (s : Am) : (e : AmEvent) → Decidable (Lone s e)
  | .popAndSwitch bizId now _ => inferInstanceAs (Decidable
      (∀ e ∈ s.mgr.matured bizId now, ∀ h ∈ s.holds, ¬ h.Pending e.windowKey))
  | .push .. | .spawn .. | .panic _ | .switch .. | .finish .. | .wait _ | .markDone _ =>
    isTrue trivial

/-- Each instance is in the hands of one handler, and marked since that handler popped it unless the
mark has expired. -/
structure Sole (s : Am) : Prop where
  apart : s.holds.Pairwise Hold.Apart
  mark : ∀ h ∈ s.holds, ∀ k, h.Owns k → s.mgr.inflight k = some h.startedAt ∨
    (s.mgr.inflight k = none ∧ s.mgr.inflightTTL ≤ s.clock - h.startedAt)

theorem sole_step (hso : Sole s) (hl : Lone s e) (hs : s.next cfg e = some t) : Sole t := by
  have httl := inflightTTL_step hs
  rcases step_holds hs with ⟨bizId, inst, at', clock, -, hclock, rfl⟩ |
    ⟨bizId, now, r, rfl, rfl⟩ | ⟨i, h, k', hi, hnext, hmgr, hclock, hholds⟩ | ⟨hmgr, hclock, hholds⟩
  · refine ⟨hso.apart, fun h hh k hk => ?_⟩
    show (s.mgr.push bizId inst at' clock).2.inflight k = _ ∨ (_ ∧ _ ≤ clock - h.startedAt)
    rw [httl]
    rcases push_inflight s.mgr bizId inst at' clock k with hsame | ⟨hnone, startAt, hmark, hexp⟩
    · rcases hso.mark h hh k hk with hm | ⟨hm, hexp⟩
      · exact .inl (hsame.trans hm)
      · exact .inr ⟨hsame.trans hm, by omega⟩
    · rcases hso.mark h hh k hk with hm | ⟨hm, -⟩
      · cases hmark.symm.trans hm
        exact .inr ⟨hnone, hexp⟩
      · cases hmark.symm.trans hm
  · have hfree : ∀ k ∈ (s.popped bizId now r).map (fun e => e.windowKey),
        ∀ h ∈ s.holds, ¬ h.Pending k := by
      intro k hk h hh
      obtain ⟨e, he, rfl⟩ := List.mem_map.mp hk
      exact hl e (mem_popped he) h hh
    refine ⟨?_, fun h hh k hk => ?_⟩
    · rw [popAndSwitch_holds]
      refine List.pairwise_append.mpr ⟨hso.apart, started_apart s bizId now r, ?_⟩
      intro h hh h' hh' k hk hk'
      exact hfree k ((started_keys hh').2.2 k (List.mem_of_mem_drop hk')) h hh hk
    · rw [popAndSwitch_holds] at hh
      rw [popAndSwitch_inflight, httl]
      rcases List.mem_append.mp hh with hh | hh
      · have hno : k ∉ (s.popped bizId now r).map fun e => e.windowKey :=
          fun hin => hfree k hin h hh hk.pending
        rw [if_neg hno]
        exact hso.mark h hh k hk
      · obtain ⟨hnow, -, hkeys⟩ := started_keys hh
        rw [if_pos (hkeys k hk.1), hnow]
        exact .inl rfl
  · refine ⟨?_, fun h' hh' k hk => ?_⟩
    · rw [hholds]
      refine Slots.pairwise_set hso.apart hi ?_ ?_
      · intro x _ hx k hxk hk
        exact hx k hxk (Hold.mark_pending hk)
      · intro x _ hx k hk hxk
        exact hx k (Hold.mark_pending hk) hxk
    · rw [hmgr, hclock]
      rw [hholds] at hh'
      -- the key marked done is owned by no one else
      have hold : k ≠ k' ∧ ∃ h₀ ∈ s.holds, h₀.Owns k ∧ h₀.startedAt = h'.startedAt := by
        obtain ⟨j, hj⟩ := List.mem_iff_getElem?.mp hh'
        by_cases hij : i = j
        · subst hij
          rw [List.getElem?_set_self (List.getElem?_eq_some_iff.mp hi).1] at hj
          obtain rfl := Option.some.inj hj
          obtain ⟨howns, hne⟩ := (Hold.mark_owns hnext).mp hk
          exact ⟨hne, h, List.mem_of_getElem? hi, howns, rfl⟩
        · rw [List.getElem?_set_ne hij] at hj
          refine ⟨?_, h', List.mem_of_getElem? hj, hk, rfl⟩
          rintro rfl
          have happ := Slots.pairwise_get hso.apart (fun x y hxy k hy hx => hxy k hx hy) hi hj hij
          exact happ k (Hold.pending_of_next hnext) hk.pending
      obtain ⟨hne, h₀, hh₀, howns, hstart⟩ := hold
      rw [← hstart]
      simpa [BizWindowManager.markDone, hne] using hso.mark h₀ hh₀ k howns
  · refine ⟨hholds ▸ hso.apart, fun h hh k hk => ?_⟩
    rw [hmgr, hclock]
    exact hso.mark h (hholds ▸ hh) k hk

/-- A push is refused while a handler that popped the instance is at work and the mark is younger than
its TTL, and accepted when there is none. -/
def MarksExact (s : Am) : Prop :=
  ∀ bizId inst at' clock, s.clock ≤ clock →
    ((∃ h ∈ s.holds, h.Owns inst.windowKey ∧ clock - h.startedAt < s.mgr.inflightTTL) →
      (s.mgr.push bizId inst at' clock).1 = false) ∧
    ((∀ h ∈ s.holds, ¬ h.Owns inst.windowKey) → (s.mgr.push bizId inst at' clock).1 = true)

theorem marksExact_of_sole (hm : Marked s) (hso : Sole s) : MarksExact s := by
  intro bizId inst at' clock hclock
  constructor
  · rintro ⟨h, hh, howns, hyoung⟩
    rcases hso.mark h hh _ howns with hmark | ⟨-, hexp⟩
    · simp [BizWindowManager.push, hmark, hyoung]
    · omega
  · intro hnone
    have hmark : s.mgr.inflight inst.windowKey = none := by
      rw [Option.eq_none_iff_forall_ne_some]
      intro startAt hsome
      obtain ⟨h, hh, howns⟩ := hm _ startAt hsome
      exact hnone h hh howns
    simp [BizWindowManager.push, hmark]

/-- In a run whose pops take no entry of an instance still to be marked done, the marks are exact in
every state. -/
theorem marks_exact {windowDuration inflightTTL clock : ℤ}
    (h : Run (Guarded Lone (Steps (Am.next cfg))) (.initial windowDuration inflightTTL clock) es s) :
    MarksExact s := by
  have hinv : Marked s ∧ Sole s := by
    refine h.invariant (fun s : Am => Marked s ∧ Sole s) ?_ ?_
    · exact ⟨nofun, .nil, nofun⟩
    · rintro s e t ⟨hm, hso⟩ ⟨hl, hs⟩
      exact ⟨marked_step hm hs, sole_step hso hl hs⟩
  exact marksExact_of_sole hinv.1 hinv.2

/-- A master that is reported for two events. -/
def failedMaster (eventName : DbEventName) : Instance where
  bkCloudID := 1
  ip := "10.0.0.1"
  port := 3306
  clusterID := 5
  dbType := .mySql
  eventName
  clusterType := "tendbha"
  machineType := "backend"
  instanceRole := "backend_master"
  count := 0

def switchAll : WorkflowConfig := ⟨false, true, fun _ => true⟩

/-- One event matures while the pass that popped the other still works. -/
def twoEvents : List AmEvent :=
  [.push 100 (failedMaster .detectFailure) 0 0, .push 100 (failedMaster .sshTimeout) 5 5,
    .popAndSwitch 100 11 .still, .popAndSwitch 100 16 .still, .panic 0, .markDone 0]

/-- The first pass clears the mark of the second, and the instance is pushed again. -/
theorem mark_cleared_for_running_pass :
    ∃ s, Run (Steps (Am.next switchAll)) (.initial 10 30 0) twoEvents s ∧ ¬ MarksExact s := by
  obtain ⟨s, hs, hp⟩ := exists_run_of_exec (Am.next switchAll) (.initial 10 30 0) twoEvents
    (fun s => s.clock ≤ 17 ∧
      (∃ h ∈ s.holds, h.Owns (failedMaster .detectFailure).windowKey ∧
        17 - h.startedAt < s.mgr.inflightTTL) ∧
      (s.mgr.push 100 (failedMaster .detectFailure) 17 17).1 = true) (by decide +kernel)
  obtain ⟨hclock, howner, hpush⟩ := of_decide_eq_true hp
  refine ⟨s, hs, fun hexact => ?_⟩
  have hrefused := (hexact 100 (failedMaster .detectFailure) 17 17 hclock).1 howner
  exact absurd (hpush.symm.trans hrefused) (by decide)

theorem marks_exact_one_event :
    ∃ s, Run (Guarded Lone (Steps (Am.next switchAll))) (.initial 10 30 0)
        [.push 100 (failedMaster .detectFailure) 0 0, .popAndSwitch 100 11 .still] s ∧
      s.holds ≠ [] ∧ MarksExact s := by
  obtain ⟨s, hs, hp⟩ := exists_guarded_run (Am.next switchAll) Lone (.initial 10 30 0)
    [.push 100 (failedMaster .detectFailure) 0 0, .popAndSwitch 100 11 .still]
    (fun s => s.holds ≠ []) (by decide +kernel)
  exact ⟨s, hs, of_decide_eq_true hp, marks_exact hs⟩

end Failover
