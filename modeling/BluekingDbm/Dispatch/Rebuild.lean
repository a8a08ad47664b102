import Mathlib.Algebra.Group.Prod
import Mathlib.Data.Finset.Dedup
import BluekingDbm.Library.Grouping
import BluekingDbm.Dispatch.TaskCounts

/-! The rebuild of the derived counts: two paged scans while the queue goes on, a replacement that
compares totals, and the drift check. -/
namespace Dispatch

open Redis Transition

/-- Collects the members whose id starts with no registered task key. -/
def unresolvedTaskKey : String := "__unresolved__"

/-- The task key under which the scan counts a member. -/
def countedTaskKey (registered : List String) (jobId : String) : String :=
  let taskKey := resolveTaskKeyFromJobId jobId registered
  if taskKey = "" then unresolvedTaskKey else taskKey

/-- The name of a field in the hash. -/
def CountField.text : CountField → String
  | .pending taskKey => "pending:" ++ taskKey
  | .reserved taskKey => "reserved:" ++ taskKey

/-- `_parse_task_count_field`. -/
def parseTaskCountField (field : String) : Option CountField :=
  if startsWith field "pending:" then some (.pending (String.ofList (field.toList.drop 8)))
  else if startsWith field "reserved:" then some (.reserved (String.ofList (field.toList.drop 9)))
  else none

/-- One field on top of the pending sum and the reserved sum. -/
def addField (sums : ℤ × ℤ) (p : String × ℤ) : Option (ℤ × ℤ) :=
  match parseTaskCountField p.1 with
  | none => some sums
  | some (.pending _) => if p.2 < 0 then none else some (sums.1 + p.2, sums.2)
  | some (.reserved _) => if p.2 < 0 then none else some (sums.1, sums.2 + p.2)

/-- `_summarize_task_counts_hash`, every value being an integer: none where one is negative. -/
def summarizeTaskCountsHash (raw : List (String × ℤ)) : Option (ℤ × ℤ) :=
  raw.foldlM addField (0, 0)

/-- `TaskCounts.counts_drifted` on the reply of HGETALL. -/
def countsDrifted (ns : Namespace) (raw : List (String × ℤ)) : Bool :=
  match summarizeTaskCountsHash raw with
  | none => true
  | some (pendingSum, reservedSum) =>
    decide (|pendingSum - zcard ns.pending| > 0) || decide (|reservedSum - zcard ns.reserved| > 0)

/-- HGETALL: each field of the hash once, in any order. -/
structure Hgetall (counts : Counters CountField) (raw : List (String × ℤ)) : Prop where
  nodup : raw.Nodup
  fields : ∀ p, p ∈ raw ↔ ∃ f, counts f = some p.2 ∧ p.1 = f.text

/-- The positive counts of one kind, each under its field. -/
def kindMapping (field : String → CountField) (counts : Histogram String) : List (CountField × ℕ) :=
  (counts.entries.filter fun e => 0 < e.2).map fun e => (field e.1, e.2)

/-- `_task_count_mapping`. -/
def taskCountMapping (pendingCounts reservedCounts : Histogram String) : List (CountField × ℕ) :=
  kindMapping .pending pendingCounts ++ kindMapping .reserved reservedCounts

/-- HSET. -/
def writeField (counts : Counters CountField) (p : CountField × ℕ) : Counters CountField :=
  Function.update counts p.1 (some p.2)

/-- `REPLACE_TASK_COUNTS_LUA`. -/
def replaceTaskCountsLua (expectedPending expectedReserved : ℕ) (mapping : List (CountField × ℕ))
    (ns : Namespace) : Bool × Namespace :=
  if zcard ns.pending ≠ expectedPending ∨ zcard ns.reserved ≠ expectedReserved then (false, ns)
  else
    (true, { ns with taskCounts := mapping.foldl writeField fun _ => none })

/-- What the rebuild waits for: a page of a scan, or the answer of the replacement. -/
inductive Phase
  | scanPending
  | scanReserved
  | scanned
  | answered (replaced : Bool)
  deriving DecidableEq

/-- One rebuild, and the queue that it scans. -/
structure Rebuild where
  queue : QueueState
  registered : List String
  phase : Phase
  pendingCounts : Histogram String
  reservedCounts : Histogram String

def Rebuild.initial (queue : QueueState) (registered : List String) : Rebuild :=
  ⟨queue, registered, .scanPending, ∅, ∅⟩

/-- A script of the queue, one reply of ZSCAN (`last` says that its cursor is 0), or the
replacement. -/
inductive RebuildEvent
  | script (e : ScriptEvent)
  | page (ids : List String) (last : Bool)
  | replace

def Rebuild.next (r : Rebuild) : RebuildEvent → Option Rebuild
  | .script e => (r.queue.next e).map fun queue => { r with queue }
  | .page ids last =>
    match r.phase with
    | .scanPending => some { r with
        pendingCounts := r.pendingCounts.collect (countedTaskKey r.registered) ids
        phase := if last then .scanReserved else .scanPending }
    | .scanReserved => some { r with
        reservedCounts := r.reservedCounts.collect (countedTaskKey r.registered) ids
        phase := if last then .scanned else .scanReserved }
    | _ => none
  | .replace =>
    match r.phase with
    | .scanned =>
      let (replaced, ns) := replaceTaskCountsLua r.pendingCounts.total r.reservedCounts.total
        (taskCountMapping r.pendingCounts r.reservedCounts) r.queue.ns
      some { r with queue := { r.queue with ns }, phase := .answered replaced }
    | _ => none

/-- The two sets have the same members. -/
def Namespace.sameMembers (ns ns' : Namespace) : Bool :=
  decide (ns.pending.keys.toFinset = ns'.pending.keys.toFinset) &&
    decide (ns.reserved.keys.toFinset = ns'.reserved.keys.toFinset)

/-- A rebuild, the ids that the pages of its current scan returned, the queue as it was when the
scans began, and whether the members have been the same ever since. -/
structure RebuildAudit where
  run : Rebuild
  returned : List String
  first : Namespace
  still : Bool

def RebuildAudit.initial (queue : QueueState) (registered : List String) : RebuildAudit :=
  ⟨.initial queue registered, [], queue.ns, true⟩

def RebuildAudit.next (a : RebuildAudit) (e : RebuildEvent) : Option RebuildAudit :=
  (a.run.next e).map fun run =>
    { a with
      run
      returned :=
        match e with
        | .page ids last => if last then [] else a.returned ++ ids
        | _ => a.returned
      still := a.still && a.first.sameMembers run.queue.ns }

/-- A scan of members that have not changed since the scans began returns each of them once. -/
def ZscanComplete (a : RebuildAudit) (e : RebuildEvent) : Prop :=
  match e with
  | .page ids true =>
    a.still = true →
      (a.run.phase = .scanPending → (a.returned ++ ids).Perm a.run.queue.ns.pending.keys) ∧
        (a.run.phase = .scanReserved → (a.returned ++ ids).Perm a.run.queue.ns.reserved.keys)
  | _ => True

instance (a : RebuildAudit) (e : RebuildEvent) : Decidable (ZscanComplete a e) :=
  match e with
  | .page ids true => inferInstanceAs (Decidable (a.still = true →
      (a.run.phase = .scanPending → (a.returned ++ ids).Perm a.run.queue.ns.pending.keys) ∧
        (a.run.phase = .scanReserved → (a.returned ++ ids).Perm a.run.queue.ns.reserved.keys)))
  | .page _ false => .isTrue trivial
  | .script _ => .isTrue trivial
  | .replace => .isTrue trivial

/-- The sums of the hash are the sizes of the two sets, so that no drift is found, and where the
members have not changed since the scans began every field is the count of its task. -/
structure Reconciled (registered : List String) (a : RebuildAudit) : Prop where
  listed : ∃ raw, Hgetall a.run.queue.ns.taskCounts raw
  sums : ∀ raw, Hgetall a.run.queue.ns.taskCounts raw →
    summarizeTaskCountsHash raw =
        some ((zcard a.run.queue.ns.pending : ℤ), (zcard a.run.queue.ns.reserved : ℤ)) ∧
      countsDrifted a.run.queue.ns raw = false
  fields : a.still = true → ∀ t,
    a.run.queue.ns.taskCounts (.pending t) =
        tallied (membersOf (countedTaskKey registered) t a.run.queue.ns.pending) ∧
      a.run.queue.ns.taskCounts (.reserved t) =
        tallied (membersOf (countedTaskKey registered) t a.run.queue.ns.reserved)

section Fields

variable {field : CountField} {counts : Counters CountField} {raw raw' : List (String × ℤ)}
  {mapping : List (CountField × ℕ)} {h pendingCounts reservedCounts : Histogram String}
  {t : String} {f : CountField}

theorem parse_text : parseTaskCountField field.text = some field := by
  cases field with
  | pending t => simp [parseTaskCountField, CountField.text, startsWith, String.toList_append]
  | reserved t => simp [parseTaskCountField, CountField.text, startsWith, String.toList_append]

theorem text_injective : Function.Injective CountField.text := fun _ _ h =>
  Option.some.inj (parse_text.symm.trans ((congrArg parseTaskCountField h).trans parse_text))

/-- What one field adds to the pending sum and to the reserved sum. -/
def fieldShare (p : String × ℤ) : ℤ × ℤ :=
  match parseTaskCountField p.1 with
  | none => 0
  | some (.pending _) => (p.2, 0)
  | some (.reserved _) => (0, p.2)

theorem addField_of_nonneg {sums : ℤ × ℤ} {p : String × ℤ} (h : 0 ≤ p.2) :
    addField sums p = some (sums + fieldShare p) := by
  unfold addField fieldShare
  split
  · rw [add_zero]
  · simp [not_lt.mpr h, Prod.ext_iff]
  · simp [not_lt.mpr h, Prod.ext_iff]

theorem summarize_of_nonneg (h : ∀ p ∈ raw, 0 ≤ p.2) :
    summarizeTaskCountsHash raw = some (raw.map fieldShare).sum := by
  have key : ∀ sums, raw.foldlM addField sums = some (sums + (raw.map fieldShare).sum) := by
    induction raw with
    | nil => simp
    | cons p raw ih =>
      intro sums
      rw [List.foldlM_cons, addField_of_nonneg (h p List.mem_cons_self)]
      show raw.foldlM addField _ = _
      rw [ih fun q hq => h q (List.mem_cons_of_mem _ hq), List.map_cons, List.sum_cons, add_assoc]
  rw [summarizeTaskCountsHash, key, Prod.mk_zero_zero, zero_add]

theorem writeField_of_not_mem (h : f ∉ mapping.map Prod.fst) :
    mapping.foldl writeField counts f = counts f := by
  induction mapping generalizing counts with
  | nil => rfl
  | cons p mapping ih =>
    rw [List.map_cons, List.mem_cons, not_or] at h
    rw [List.foldl_cons, ih h.2]
    exact Function.update_of_ne h.1 _ _

theorem writeField_of_mem {n : ℕ} (hnodup : (mapping.map Prod.fst).Nodup) (h : (f, n) ∈ mapping) :
    mapping.foldl writeField counts f = some (n : ℤ) := by
  induction mapping generalizing counts with
  | nil => cases h
  | cons p mapping ih =>
    rw [List.map_cons, List.nodup_cons] at hnodup
    rw [List.foldl_cons]
    rcases List.mem_cons.mp h with rfl | h
    · rw [writeField_of_not_mem hnodup.1]
      exact Function.update_self _ _ _
    · exact ih hnodup.2 h

theorem writeField_eq_some {v : ℤ} (hnodup : (mapping.map Prod.fst).Nodup) :
    mapping.foldl writeField (fun _ => none) f = some v ↔ ∃ n, (f, n) ∈ mapping ∧ v = n := by
  constructor
  · intro hv
    by_cases hf : f ∈ mapping.map Prod.fst
    · obtain ⟨⟨g, n⟩, hin, rfl⟩ := List.mem_map.mp hf
      rw [writeField_of_mem hnodup hin] at hv
      exact ⟨n, hin, (Option.some.inj hv).symm⟩
    · rw [writeField_of_not_mem hf] at hv
      cases hv
  · rintro ⟨n, hin, rfl⟩
    exact writeField_of_mem hnodup hin

section Kind

variable {field : String → CountField}

theorem mem_kindMapping {p : CountField × ℕ} :
    p ∈ kindMapping field h ↔ ∃ t, p.1 = field t ∧ h.lookup t = some p.2 ∧ 0 < p.2 := by
  obtain ⟨f, n⟩ := p
  simp only [kindMapping, List.mem_map, List.mem_filter, decide_eq_true_eq, Prod.mk.injEq]
  constructor
  · rintro ⟨e, ⟨he, hpos⟩, rfl, rfl⟩
    exact ⟨e.1, rfl, AList.mem_lookup_iff.mpr he, hpos⟩
  · rintro ⟨t, rfl, ht, hpos⟩
    exact ⟨⟨t, n⟩, ⟨AList.mem_lookup_iff.mp ht, hpos⟩, rfl, rfl⟩

theorem nodup_kindMapping (hf : Function.Injective field) :
    ((kindMapping field h).map Prod.fst).Nodup := by
  have hkeys : ((h.entries.filter fun e => 0 < e.2).map Sigma.fst).Nodup :=
    List.Nodup.sublist (List.filter_sublist.map _) h.nodupKeys
  rw [kindMapping, List.map_map]
  have hfields := hkeys.map hf
  rwa [List.map_map] at hfields

/-- The counts that are left out are zero. -/
theorem sum_kindMapping {share : ℤ →+ ℤ × ℤ}
    (hshare : ∀ t n, fieldShare ((field t).text, n) = share n) :
    ((kindMapping field h).map fun p => fieldShare (p.1.text, (p.2 : ℤ))).sum = share h.total := by
  unfold kindMapping Histogram.total
  induction h.entries with
  | nil => exact share.map_zero.symm
  | cons e l ih =>
    rw [List.map_cons, List.sum_cons, Nat.cast_add, map_add, ← ih]
    by_cases he : 0 < e.2
    · simp [he, hshare]
    · have hzero : e.2 = 0 := by omega
      simp [hzero]

end Kind

theorem nodup_taskCountMapping :
    ((taskCountMapping pendingCounts reservedCounts).map Prod.fst).Nodup := by
  rw [taskCountMapping, List.map_append]
  refine (nodup_kindMapping pending_injective).append (nodup_kindMapping reserved_injective) ?_
  intro f hp hr
  obtain ⟨p, hpin, rfl⟩ := List.mem_map.mp hp
  obtain ⟨q, hqin, he⟩ := List.mem_map.mp hr
  obtain ⟨t, ht, -⟩ := mem_kindMapping.mp hpin
  obtain ⟨t', ht', -⟩ := mem_kindMapping.mp hqin
  rw [ht, ht'] at he
  cases he

theorem sum_taskCountMapping :
    ((taskCountMapping pendingCounts reservedCounts).map
      fun p => fieldShare (p.1.text, (p.2 : ℤ))).sum =
        ((pendingCounts.total : ℤ), (reservedCounts.total : ℤ)) := by
  have hpending : ∀ t n, fieldShare ((CountField.pending t).text, n) = AddMonoidHom.inl ℤ ℤ n :=
    fun t n => by simp [fieldShare, parse_text]
  have hreserved : ∀ t n, fieldShare ((CountField.reserved t).text, n) = AddMonoidHom.inr ℤ ℤ n :=
    fun t n => by simp [fieldShare, parse_text]
  rw [taskCountMapping, List.map_append, List.sum_append, sum_kindMapping hpending,
    sum_kindMapping hreserved]
  simp

/-- The hash that the replacement writes. -/
def written (pendingCounts reservedCounts : Histogram String) : Counters CountField :=
  (taskCountMapping pendingCounts reservedCounts).foldl writeField fun _ => none

theorem written_eq_some {v : ℤ} :
    written pendingCounts reservedCounts f = some v ↔
      ∃ n, (f, n) ∈ taskCountMapping pendingCounts reservedCounts ∧ v = n :=
  writeField_eq_some nodup_taskCountMapping

theorem tallied_eq_some {n : ℕ} {v : ℤ} : tallied n = some v ↔ 0 < n ∧ v = n := by
  unfold tallied
  split
  · simp only [reduceCtorEq, false_iff, not_and]
    omega
  · simp only [Option.some.injEq]
    omega

/-- A field of a kind holds the count where there is one. -/
theorem kindMapping_tallied {field : String → CountField} (hf : Function.Injective field) {v : ℤ} :
    (∃ n, (field t, n) ∈ kindMapping field h ∧ v = n) ↔ tallied (h.get t) = some v := by
  rw [tallied_eq_some]
  constructor
  · rintro ⟨n, hin, rfl⟩
    obtain ⟨t', ht, hn, hpos⟩ := mem_kindMapping.mp hin
    obtain rfl := hf ht
    simp_all [Histogram.get]
  · rintro ⟨hpos, rfl⟩
    cases hn : h.lookup t with
    | none => simp [Histogram.get, hn] at hpos
    | some n =>
      simp only [Histogram.get, hn, Option.getD_some] at hpos ⊢
      exact ⟨n, mem_kindMapping.mpr ⟨t, rfl, hn, hpos⟩, rfl⟩

/-- A written field is the count where there is one. -/
theorem written_apply :
    written pendingCounts reservedCounts (.pending t) = tallied (pendingCounts.get t) ∧
      written pendingCounts reservedCounts (.reserved t) = tallied (reservedCounts.get t) := by
  constructor
  · ext v
    rw [written_eq_some, ← kindMapping_tallied pending_injective]
    have hnot : ∀ n, (CountField.pending t, n) ∉ kindMapping .reserved reservedCounts := by
      intro n hin
      obtain ⟨_, he, -⟩ := mem_kindMapping.mp hin
      cases he
    simp [taskCountMapping, hnot]
  · ext v
    rw [written_eq_some, ← kindMapping_tallied reserved_injective]
    have hnot : ∀ n, (CountField.reserved t, n) ∉ kindMapping .pending pendingCounts := by
      intro n hin
      obtain ⟨_, he, -⟩ := mem_kindMapping.mp hin
      cases he
    simp [taskCountMapping, hnot]

theorem hgetall_written : Hgetall (written pendingCounts reservedCounts)
    ((taskCountMapping pendingCounts reservedCounts).map fun p => (p.1.text, (p.2 : ℤ))) := by
  constructor
  · have hkeys := (@nodup_taskCountMapping pendingCounts reservedCounts).map text_injective
    refine List.Nodup.of_map Prod.fst ?_
    rw [List.map_map] at hkeys ⊢
    exact hkeys
  · rintro ⟨name, v⟩
    simp only [List.mem_map, Prod.mk.injEq, written_eq_some]
    constructor
    · rintro ⟨⟨f, n⟩, hin, rfl, rfl⟩
      exact ⟨f, ⟨n, hin, rfl⟩, rfl⟩
    · rintro ⟨f, ⟨n, hin, rfl⟩, rfl⟩
      exact ⟨(f, n), hin, rfl, rfl⟩

/-- Every reply of HGETALL on the written hash sums up to the totals of the scans. -/
theorem summarize_written (h : Hgetall (written pendingCounts reservedCounts) raw) :
    summarizeTaskCountsHash raw =
      some ((pendingCounts.total : ℤ), (reservedCounts.total : ℤ)) := by
  have hlist := @hgetall_written pendingCounts reservedCounts
  have hperm : raw.Perm
      ((taskCountMapping pendingCounts reservedCounts).map fun p => (p.1.text, (p.2 : ℤ))) :=
    (List.perm_ext_iff_of_nodup h.nodup hlist.nodup).mpr fun p =>
      (h.fields p).trans (hlist.fields p).symm
  have hnonneg : ∀ p ∈ raw, 0 ≤ p.2 := by
    intro p hp
    obtain ⟨q, -, rfl⟩ := List.mem_map.mp (hperm.mem_iff.mp hp)
    exact Int.natCast_nonneg q.2
  rw [summarize_of_nonneg hnonneg, (hperm.map fieldShare).sum_eq, List.map_map]
  exact congrArg some sum_taskCountMapping

end Fields

section Scans

variable {a a' : RebuildAudit} {e : RebuildEvent} {es : List RebuildEvent} {ns ns' : Namespace}
  {own : String → String} {t : String} {z z' : SortedSet String} {registered ids : List String}

/-- The counts of a scan are those of the members. -/
def CountsOf (own : String → String) (counts : Histogram String) (z : SortedSet String) : Prop :=
  ∀ t, counts.get t = membersOf own t z

theorem membersOf_of_perm (h : ids.Perm z.keys) :
    (ids.countP fun id => own id = t) = membersOf own t z :=
  h.countP_eq _

theorem membersOf_congr (h : z.keys.toFinset = z'.keys.toFinset) :
    membersOf own t z = membersOf own t z' := by
  apply membersOf_of_perm
  apply (List.perm_ext_iff_of_nodup z.keys_nodup z'.keys_nodup).mpr
  intro id
  rw [← List.mem_toFinset, h, List.mem_toFinset]

theorem sameMembers_iff : ns.sameMembers ns' = true ↔
    ns.pending.keys.toFinset = ns'.pending.keys.toFinset ∧
      ns.reserved.keys.toFinset = ns'.reserved.keys.toFinset := by
  simp [Namespace.sameMembers]

/-- What the scans have counted. A finished scan has counted the members, if they have been the same
ever since the scans began. -/
structure Scanning (registered : List String) (a : RebuildAudit) : Prop where
  tasks : a.run.registered = registered
  still : a.still = true → a.first.sameMembers a.run.queue.ns = true
  scanPending : a.run.phase = .scanPending →
    (∀ t, a.run.pendingCounts.get t = a.returned.countP fun id => countedTaskKey registered id = t) ∧
      a.run.reservedCounts = ∅
  scanReserved : a.run.phase = .scanReserved →
    (a.still = true →
      CountsOf (countedTaskKey registered) a.run.pendingCounts a.run.queue.ns.pending) ∧
    ∀ t, a.run.reservedCounts.get t = a.returned.countP fun id => countedTaskKey registered id = t
  scanned : a.run.phase = .scanned → a.still = true →
    CountsOf (countedTaskKey registered) a.run.pendingCounts a.run.queue.ns.pending ∧
      CountsOf (countedTaskKey registered) a.run.reservedCounts a.run.queue.ns.reserved

theorem scanning_initial (queue : QueueState) : Scanning registered (.initial queue registered) where
  tasks := rfl
  still := fun _ => sameMembers_iff.mpr ⟨rfl, rfl⟩
  scanPending := fun _ => ⟨fun _ => rfl, rfl⟩
  scanReserved := fun h => by cases h
  scanned := fun h => by cases h

theorem scanning_script {s : ScriptEvent} (h : Scanning registered a)
    (hs : a.next (.script s) = some a') : Scanning registered a' := by
  simp only [RebuildAudit.next, Rebuild.next, Option.map_map, Option.map_eq_some_iff,
    Function.comp] at hs
  obtain ⟨queue, -, rfl⟩ := hs
  -- members that are still the same are those the finished scans have counted
  have hsame : (a.still && a.first.sameMembers queue.ns) = true →
      a.still = true ∧ a.run.queue.ns.pending.keys.toFinset = queue.ns.pending.keys.toFinset ∧
        a.run.queue.ns.reserved.keys.toFinset = queue.ns.reserved.keys.toFinset := by
    intro hstill
    obtain ⟨hstill, hafter⟩ := Bool.and_eq_true_iff.mp hstill
    obtain ⟨hp, hr⟩ := sameMembers_iff.mp (h.still hstill)
    obtain ⟨hp', hr'⟩ := sameMembers_iff.mp hafter
    exact ⟨hstill, hp.symm.trans hp', hr.symm.trans hr'⟩
  constructor
  · exact h.tasks
  · exact fun hstill => (Bool.and_eq_true_iff.mp hstill).2
  · exact h.scanPending
  · intro hphase
    refine ⟨fun hstill t => ?_, (h.scanReserved hphase).2⟩
    obtain ⟨hstill, hp, -⟩ := hsame hstill
    exact ((h.scanReserved hphase).1 hstill t).trans (membersOf_congr hp)
  · intro hphase hstill
    obtain ⟨hstill, hp, hr⟩ := hsame hstill
    obtain ⟨hpending, hreserved⟩ := h.scanned hphase hstill
    exact ⟨fun t => (hpending t).trans (membersOf_congr hp),
      fun t => (hreserved t).trans (membersOf_congr hr)⟩

theorem get_collected {counts : Histogram String} {seen : List String}
    (h : ∀ t, counts.get t = seen.countP fun id => countedTaskKey registered id = t) (t : String) :
    (counts.collect (countedTaskKey registered) ids).get t =
      (seen ++ ids).countP fun id => countedTaskKey registered id = t := by
  rw [Histogram.get_collect, h, List.countP_append]

theorem scanning_page {last : Bool} (h : Scanning registered a)
    (hcomplete : ZscanComplete a (.page ids last)) (hs : a.next (.page ids last) = some a') :
    Scanning registered a' := by
  have hkeep : ∀ b, (a.still && b) = true → b = true := fun b hstill =>
    (Bool.and_eq_true_iff.mp hstill).2
  have hstillOf : ∀ b, (a.still && b) = true → a.still = true := fun b hstill =>
    (Bool.and_eq_true_iff.mp hstill).1
  cases hphase : a.run.phase with
  | scanPending =>
    obtain ⟨hcounted, hnone⟩ := h.scanPending hphase
    simp only [RebuildAudit.next, Rebuild.next, hphase, Option.map_some, Option.some.injEq] at hs
    subst hs
    have hnext : ∀ t, (a.run.pendingCounts.collect (countedTaskKey registered) ids).get t =
        (a.returned ++ ids).countP fun id => countedTaskKey registered id = t :=
      get_collected hcounted
    cases last with
    | false =>
      constructor
      · exact h.tasks
      · exact hkeep _
      · refine fun _ => ⟨fun t => ?_, hnone⟩
        simp only [h.tasks]
        exact hnext t
      · exact fun hp => by cases hp
      · exact fun hp => by cases hp
    | true =>
      constructor
      · exact h.tasks
      · exact hkeep _
      · exact fun hp => by cases hp
      · refine fun _ => ⟨fun hstill t => ?_, fun t => ?_⟩
        · simp only [h.tasks]
          rw [hnext t]
          exact membersOf_of_perm ((hcomplete (hstillOf _ hstill)).1 hphase)
        · simp only [hnone]
          rfl
      · exact fun hp => by cases hp
  | scanReserved =>
    obtain ⟨hpending, hcounted⟩ := h.scanReserved hphase
    simp only [RebuildAudit.next, Rebuild.next, hphase, Option.map_some, Option.some.injEq] at hs
    subst hs
    have hnext : ∀ t, (a.run.reservedCounts.collect (countedTaskKey registered) ids).get t =
        (a.returned ++ ids).countP fun id => countedTaskKey registered id = t :=
      get_collected hcounted
    cases last with
    | false =>
      constructor
      · exact h.tasks
      · exact hkeep _
      · exact fun hp => by cases hp
      · refine fun _ => ⟨fun hstill => hpending (hstillOf _ hstill), fun t => ?_⟩
        simp only [h.tasks]
        exact hnext t
      · exact fun hp => by cases hp
    | true =>
      constructor
      · exact h.tasks
      · exact hkeep _
      · exact fun hp => by cases hp
      · exact fun hp => by cases hp
      · refine fun _ hstill => ⟨hpending (hstillOf _ hstill), fun t => ?_⟩
        simp only [h.tasks]
        rw [hnext t]
        exact membersOf_of_perm ((hcomplete (hstillOf _ hstill)).2 hphase)
  | scanned => simp [RebuildAudit.next, Rebuild.next, hphase] at hs
  | answered replaced => simp [RebuildAudit.next, Rebuild.next, hphase] at hs

/-- The replacement comes after both scans, and is one run of the script. -/
theorem next_replace (hs : a.next .replace = some a') : a.run.phase = .scanned ∧
    ∃ replaced ns, replaceTaskCountsLua a.run.pendingCounts.total a.run.reservedCounts.total
        (taskCountMapping a.run.pendingCounts a.run.reservedCounts) a.run.queue.ns = (replaced, ns) ∧
      a' = { a with
        run := { a.run with queue := { a.run.queue with ns }, phase := .answered replaced }
        still := a.still && a.first.sameMembers ns } := by
  cases hphase : a.run.phase with
  | scanned =>
    simp only [RebuildAudit.next, Rebuild.next, hphase, Option.map_some, Option.some.injEq] at hs
    exact ⟨rfl, _, _, rfl, hs.symm⟩
  | scanPending => simp [RebuildAudit.next, Rebuild.next, hphase] at hs
  | scanReserved => simp [RebuildAudit.next, Rebuild.next, hphase] at hs
  | answered replaced => simp [RebuildAudit.next, Rebuild.next, hphase] at hs

theorem scanning_replace (h : Scanning registered a) (hs : a.next .replace = some a') :
    Scanning registered a' := by
  obtain ⟨-, replaced, ns, -, rfl⟩ := next_replace hs
  constructor
  · exact h.tasks
  · exact fun hstill => (Bool.and_eq_true_iff.mp hstill).2
  · exact fun hp => by cases hp
  · exact fun hp => by cases hp
  · exact fun hp => by cases hp

theorem scanning_reachable {queue : QueueState}
    (h : Run (Guarded ZscanComplete (Steps RebuildAudit.next)) (.initial queue registered) es a) :
    Scanning registered a := by
  refine h.invariant (Scanning registered) (scanning_initial queue) ?_
  intro a e a' ha hs
  cases e with
  | script s => exact scanning_script ha hs.2
  | page ids last => exact scanning_page ha hs.1 hs.2
  | replace => exact scanning_replace ha hs.2

/-- The replacement leaves the two sets alone, and answers 1 where the totals of the scans are their
sizes. -/
theorem replace_cases (hs : a.next .replace = some a') :
    (a'.run.phase = .answered false ∧ a'.run.queue.ns = a.run.queue.ns) ∨
    (a'.run.phase = .answered true ∧ a.run.phase = .scanned ∧
      zcard a.run.queue.ns.pending = a.run.pendingCounts.total ∧
      zcard a.run.queue.ns.reserved = a.run.reservedCounts.total ∧
      (a'.still = true → a.still = true) ∧
      a'.run.queue.ns = { a.run.queue.ns with
        taskCounts := written a.run.pendingCounts a.run.reservedCounts }) := by
  obtain ⟨hphase, replaced, ns, hscript, rfl⟩ := next_replace hs
  unfold replaceTaskCountsLua at hscript
  split at hscript
  · cases hscript
    exact .inl ⟨rfl, rfl⟩
  · rename_i htotals
    rw [not_or, not_not, not_not] at htotals
    cases hscript
    exact .inr ⟨rfl, hphase, htotals.1, htotals.2,
      fun hstill => (Bool.and_eq_true_iff.mp hstill).1, rfl⟩

/-- Whatever the scripts do during the two scans: an answer of 1 leaves a hash that agrees with the
two sets, and an answer of 0 leaves the hash as it was. -/
theorem rebuild_reconciles {queue : QueueState}
    (h : Run (Guarded ZscanComplete (Steps RebuildAudit.next)) (.initial queue registered) es a)
    (hs : a.next .replace = some a') :
    (a'.run.phase = .answered false ∧ a'.run.queue.ns = a.run.queue.ns) ∨
      (a'.run.phase = .answered true ∧ Reconciled registered a') := by
  have hscan := scanning_reachable h
  rcases replace_cases hs with hzero | ⟨hone, hphase, hpending, hreserved, hstill, hns⟩
  · exact .inl hzero
  · refine .inr ⟨hone, ?_, ?_, ?_⟩
    · rw [hns]
      exact ⟨_, hgetall_written⟩
    · intro raw hraw
      rw [hns] at hraw
      have hsums := summarize_written hraw
      rw [← hpending, ← hreserved] at hsums
      rw [hns]
      exact ⟨hsums, by simp [countsDrifted, hsums]⟩
    · intro hsame t
      obtain ⟨hp, hr⟩ := hscan.scanned hphase (hstill hsame)
      rw [hns, ← hp t, ← hr t]
      exact written_apply

end Scans

/-- One waiting job and a count that has drifted. -/
def driftedQueue : QueueState :=
  ⟨0, { (enqueueJobsLua 0 5 true "portrait" [portraitEntry] .empty).2 with
    taskCounts := fun f => if f = .pending "portrait" then some 3 else none }⟩

theorem rebuild_reconciles_drifted : ∃ a a' : RebuildAudit,
    a.run.queue.ns.taskCounts (.pending "portrait") = some 3 ∧ a.next .replace = some a' ∧
      a'.still = true ∧ a'.run.phase = .answered true ∧ Reconciled ["portrait"] a' := by
  obtain ⟨a, hrun, ha⟩ := exists_guarded_run RebuildAudit.next ZscanComplete
    (.initial driftedQueue ["portrait"])
    [.page [portraitEntry.jobId] true, .script (.gate true), .page [] true]
    (fun a => decide (a.run.queue.ns.taskCounts (.pending "portrait") = some 3) &&
      (a.next .replace).any fun a' : RebuildAudit =>
        a'.still && decide (a'.run.phase = Phase.answered true))
    (by decide +kernel)
  obtain ⟨hdrifted, hnext⟩ := Bool.and_eq_true_iff.mp ha
  obtain ⟨a', hs, ha'⟩ := (Option.any_eq_true _ _).mp hnext
  obtain ⟨hstill, hone⟩ := Bool.and_eq_true_iff.mp ha'
  refine ⟨a, a', of_decide_eq_true hdrifted, hs, hstill, of_decide_eq_true hone, ?_⟩
  rcases rebuild_reconciles hrun hs with ⟨hzero, -⟩ | ⟨-, hreconciled⟩
  · exact absurd (hzero.symm.trans (of_decide_eq_true hone)) (by simp)
  · exact hreconciled

end Dispatch
