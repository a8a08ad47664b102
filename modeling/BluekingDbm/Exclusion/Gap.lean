import BluekingDbm.Exclusion.Record

/-! The gap between a task's check and its record. Where no task is checked while another one is in its
gap on the same cluster, tasks that exclude each other are not under way there together. -/
namespace Exclusion

open Program Ticket Transition

variable {E : Setting} {s t : Office} {e : Event} {es : List Event} {db db' : Database} {w : ℕ} {o : Op}
  {r : Res o} {f g c : ℕ}

/-- The flow is an inner flow whose check on the cluster has been passed, and it is under way. -/
def Past (E : Setting) (db : Database) (flowId clusterId : ℕ) : Prop :=
  (∃ e ∈ db.passed, e.2 = (flowId, clusterId)) ∧ E.flowType flowId = .innerFlow ∧ UnderWay db flowId

/-- The cluster's record of the flow's ticket unlocks the type. -/
def UnlockedFor (E : Setting) (db : Database) (flowId clusterId : ℕ) (ticketType : String) : Prop :=
  ∃ record ∈ db.records, record.clusterId = clusterId ∧ record.ticketId = E.flowTicket flowId ∧
    Unlocks record ticketType

def typeOf (E : Setting) (flowId : ℕ) : String := E.ticketType (E.flowTicket flowId)

/-- The flows may be under way together: they do not exclude each other, or one's record lets the other
pass. -/
def Compatible (E : Setting) (db : Database) (f g c : ℕ) : Prop :=
  exclusive E (typeOf E f) (typeOf E g) = false ∨ exclusive E (typeOf E g) (typeOf E f) = false ∨
    UnlockedFor E db g c (typeOf E f) ∨ UnlockedFor E db f c (typeOf E g)

/-- A flow that is past its check has its record on the cluster. -/
def Recorded (E : Setting) (db : Database) (flowId clusterId : ℕ) : Prop :=
  ∃ record ∈ db.records, record.clusterId = clusterId ∧ record.ticketId = E.flowTicket flowId ∧
    record.flowId = flowId

/-- A flow is checked on a cluster when no flow of another ticket is in its gap there. -/
def NoGap (E : Setting) : Op → Database → Prop
  | .hasExclusiveOperations flowId clusterId, db =>
    ∀ e ∈ db.passed, e.2.2 = clusterId → E.flowTicket e.2.1 ≠ E.flowTicket flowId →
      E.flowType e.2.1 = .innerFlow → UnderWay db e.2.1 → Recorded E db e.2.1 clusterId
  | _, _ => True

instance (db : Database) (flowId clusterId : ℕ) : Decidable (Recorded E db flowId clusterId) :=
  inferInstanceAs (Decidable (∃ _ ∈ _, _))

instance (o : Op) (db : Database) : Decidable (NoGap E o db) := by
  cases o <;> unfold NoGap <;> infer_instance

def Gapless (E : Setting) (s : Office) (e : Event) : Prop := s.Meets (NoGap E) e

instance (s : Office) (e : Event) : Decidable (Gapless E s e) :=
  inferInstanceAs (Decidable (s.Meets (NoGap E) e))

/-- Any two flows of different tickets that are past their checks on a cluster may be. -/
def Excluded (E : Setting) (db : Database) : Prop :=
  ∀ f g c, Past E db f c → Past E db g c → E.flowTicket f ≠ E.flowTicket g → Compatible E db f g c

theorem Compatible.symm (h : Compatible E db f g c) : Compatible E db g f c := by
  rcases h with h | h | h | h
  · exact .inr (.inl h)
  · exact .inl h
  · exact .inr (.inr (.inr h))
  · exact .inr (.inr (.inl h))

/-- Records keep their cluster and ticket, and what they unlock. -/
def Keeps (db db' : Database) : Prop :=
  ∀ record ∈ db.records, ∃ record' ∈ db'.records, record'.clusterId = record.clusterId ∧
    record'.ticketId = record.ticketId ∧ ∀ ticketType, Unlocks record ticketType → Unlocks record' ticketType

theorem keeps_of_eq (h : db'.records = db.records) : Keeps db db' := by
  intro record hrecord
  exact ⟨record, h ▸ hrecord, rfl, rfl, fun _ h => h⟩

theorem unlockedFor_mono {ticketType : String} (h : UnlockedFor E db f c ticketType)
    (hkeeps : Keeps db db') : UnlockedFor E db' f c ticketType := by
  obtain ⟨record, hrecord, hcluster, hticket, hunlocks⟩ := h
  obtain ⟨record', hrecord', hcluster', hticket', hunlocks'⟩ := hkeeps record hrecord
  exact ⟨record', hrecord', hcluster'.trans hcluster, hticket'.trans hticket, hunlocks' _ hunlocks⟩

theorem Compatible.mono (h : Compatible E db f g c) (hkeeps : Keeps db db') : Compatible E db' f g c := by
  rcases h with h | h | h | h
  · exact .inl h
  · exact .inr (.inl h)
  · exact .inr (.inr (.inl (unlockedFor_mono h hkeeps)))
  · exact .inr (.inr (.inr (unlockedFor_mono h hkeeps)))

/-- An operation by which no flow gets past a check. -/
theorem Excluded.of_past (hdb : Excluded E db) (hkeeps : Keeps db db')
    (hpast : ∀ f c, Past E db' f c → Past E db f c) : Excluded E db' := by
  intro f g c hf hg hne
  exact (hdb f g c (hpast f c hf) (hpast g c hg) hne).mono hkeeps

/-- A flow that takes on a status is no further than it was. -/
theorem past_of_write {status : TicketFlowStatus} (h : Past E (db.write f status) g c) : Past E db g c := by
  obtain ⟨⟨e, he, heq⟩, htype, hway⟩ := h
  by_cases hf : UnderWay db f
  · simp only [Database.write, if_pos hf] at he
    refine ⟨⟨e, he, heq⟩, htype, ?_⟩
    by_cases hgf : g = f
    · exact hgf ▸ hf
    · simpa [UnderWay, Database.write, hgf] using hway
  · simp only [Database.write, if_neg hf] at he
    obtain ⟨he, hne⟩ := List.mem_filter.mp he
    refine ⟨⟨e, he, heq⟩, htype, ?_⟩
    have hgf : g ≠ f := by
      rintro rfl
      simp [heq] at hne
    simpa [UnderWay, Database.write, hgf] using hway

/-- Who passes a check is compatible with whoever is past it, provided they have their records. -/
theorem compatible_of_checked (hinfos : exclusiveInfos E db f c = []) (hg : Past E db g c)
    (hrecorded : Recorded E db g c) (hne : E.flowTicket f ≠ E.flowTicket g) : Compatible E db f g c := by
  obtain ⟨record, hrecord, hcluster, hticket, hflow⟩ := hrecorded
  have hactive : record ∈ filterInnerActives E db c (E.flowTicket f) := by
    refine List.mem_filter.mpr ⟨hrecord, ?_⟩
    rw [hflow]
    exact decide_eq_true ⟨hcluster, hg.2.1, hg.2.2, Ne.symm hne⟩
  have hnot := List.filter_eq_nil_iff.mp hinfos record hactive
  rw [hticket] at hnot
  by_cases hunlocks : Unlocks record (typeOf E f)
  · exact .inr (.inr (.inl ⟨record, hrecord, hcluster, hticket, hunlocks⟩))
  · left
    have hdec : decide (¬ Unlocks record (E.ticketType (E.flowTicket f))) = true :=
      decide_eq_true hunlocks
    rw [hdec, Bool.true_and] at hnot
    exact eq_false_of_ne_true hnot

/-- A check that is passed while nobody is in its gap. -/
theorem excluded_check (hdb : Excluded E db) (hgap : NoGap E (.hasExclusiveOperations f c) db)
    (hinfos : exclusiveInfos E db f c = []) :
    Excluded E { db with passed := (w, f, c) :: db.passed } := by
  have hpast : ∀ g d, Past E { db with passed := (w, f, c) :: db.passed } g d →
      (g = f ∧ d = c) ∨ Past E db g d := by
    rintro g d ⟨⟨e, he, heq⟩, htype, hway⟩
    rcases List.mem_cons.mp he with rfl | he
    · simp only [Prod.mk.injEq] at heq
      exact .inl ⟨heq.1.symm, heq.2.symm⟩
    · exact .inr ⟨⟨e, he, heq⟩, htype, hway⟩
  have hnew : ∀ g, Past E db g c → E.flowTicket f ≠ E.flowTicket g → Compatible E db f g c := by
    intro g hg hne
    obtain ⟨⟨e, he, heq⟩, htype, hway⟩ := hg
    obtain ⟨hflow, hcluster⟩ : e.2.1 = g ∧ e.2.2 = c := by simp [heq]
    have hrecorded := hgap e he hcluster (by rw [hflow]; exact Ne.symm hne) (by rwa [hflow])
      (by rwa [hflow])
    rw [hflow] at hrecorded
    exact compatible_of_checked hinfos ⟨⟨e, he, heq⟩, htype, hway⟩ hrecorded hne
  intro g h d hg hh hne
  have hkeeps : Keeps db { db with passed := (w, f, c) :: db.passed } := keeps_of_eq rfl
  rcases hpast g d hg with ⟨rfl, rfl⟩ | hg'
  · rcases hpast h d hh with ⟨rfl, -⟩ | hh'
    · exact absurd rfl hne
    · exact (hnew h hh' hne).mono hkeeps
  · rcases hpast h d hh with ⟨rfl, rfl⟩ | hh'
    · exact (hnew g hg' (Ne.symm hne)).symm.mono hkeeps
    · exact (hdb g h d hg' hh' hne).mono hkeeps

theorem unlocks_unlock {record : ClusterOperateRecord} {ticketTypes : List String} {ticketType : String}
    (h : Unlocks record ticketType) : Unlocks (record.unlock ticketTypes) ticketType := by
  by_cases hall : "*" ∈ ticketTypes
  · simp [Unlocks, ClusterOperateRecord.unlock, hall]
  · rcases h with h | h
    · exact .inl (by simp [ClusterOperateRecord.unlock, hall, h])
    · exact .inr (by simp [ClusterOperateRecord.unlock, hall, h])

/-- Updates of some records that keep what they are about and unlock. -/
theorem keeps_update {p : ClusterOperateRecord → Prop} [DecidablePred p]
    {f : ClusterOperateRecord → ClusterOperateRecord}
    (hf : ∀ record, (f record).clusterId = record.clusterId ∧ (f record).ticketId = record.ticketId ∧
      ∀ ticketType, Unlocks record ticketType → Unlocks (f record) ticketType) :
    Keeps db { db with records := db.records.map fun record => if p record then f record else record } := by
  intro record hrecord
  refine ⟨_, List.mem_map_of_mem hrecord, ?_⟩
  split
  · exact hf record
  · exact ⟨rfl, rfl, fun _ h => h⟩

/-- One operation. -/
theorem excluded_serve {answers : (o : Op) → Res o} (hdb : Excluded E db) (hgap : NoGap E o db)
    (h : serve E w answers o db = some (r, db')) : Excluded E db' := by
  cases o with
  | runStatus flowId =>
    cases h
    exact hdb.of_past (keeps_of_eq rfl) fun f c h => past_of_write h
  | runError flowId =>
    cases h
    refine hdb.of_past (keeps_of_eq rfl) ?_
    rintro f c ⟨⟨e, he, heq⟩, htype, hway⟩
    exact past_of_write ⟨⟨e, (List.mem_filter.mp he).1, heq⟩, htype, hway⟩
  | hasExclusiveOperations flowId clusterId =>
    simp only [serve, Option.some.injEq, Prod.mk.injEq] at h
    obtain ⟨-, rfl⟩ := h
    split
    · rename_i hinfos
      exact excluded_check hdb hgap hinfos
    · exact hdb
  | bulkUpdate ids flowId =>
    cases h
    refine hdb.of_past (keeps_update ?_) fun f c h => h
    intro record
    exact ⟨rfl, rfl, fun _ h => h⟩
  | bulkCreate flowId ticketId clusterIds =>
    cases h
    refine hdb.of_past ?_ fun f c h => h
    intro record hrecord
    exact ⟨record, List.mem_append_left _ hrecord, rfl, rfl, fun _ h => h⟩
  | report flowId state =>
    simp only [serve, Option.some.injEq, Prod.mk.injEq, true_and] at h
    subst h
    split
    · exact hdb.of_past (keeps_of_eq rfl) fun f c h => past_of_write h
    · exact hdb
  | unlock id ticketTypes =>
    cases h
    refine hdb.of_past (keeps_update ?_) fun f c h => h
    intro record
    exact ⟨rfl, rfl, fun _ h => unlocks_unlock h⟩
  | otherChecks =>
    cases h
    exact hdb
  | body =>
    cases h
    exact hdb
  | filterRecords ticketId clusterIds =>
    cases h
    exact hdb

/-- The record of a flow's ticket on one of its clusters, pointed to the flow. -/
def repoint (E : Setting) (db : Database) (flowId : ℕ) (record : ClusterOperateRecord) :
    ClusterOperateRecord :=
  if record.id ∈ (db.records.filter fun record => decide (record.ticketId = E.flowTicket flowId ∧
      record.clusterId ∈ recordedClusterIds E flowId)).map ClusterOperateRecord.id
  then { record with flowId := flowId } else record

theorem flowId_repoint {record : ClusterOperateRecord} (hrecord : record ∈ db.records)
    (h : (repoint E db f record).ticketId = E.flowTicket f ∧
      (repoint E db f record).clusterId ∈ recordedClusterIds E f) :
    (repoint E db f record).flowId = f := by
  have hticket : (repoint E db f record).ticketId = record.ticketId := by
    rw [repoint]
    split <;> rfl
  have hcluster : (repoint E db f record).clusterId = record.clusterId := by
    rw [repoint]
    split <;> rfl
  rw [hticket, hcluster] at h
  rw [repoint, if_pos]
  exact List.mem_map_of_mem (List.mem_filter.mpr ⟨hrecord, decide_eq_true h⟩)

theorem exists_newRecords (db : Database) (flowId ticketId : ℕ) {clusterIds : List ℕ}
    (h : c ∈ clusterIds) : ∃ record ∈ newRecords db flowId ticketId clusterIds,
      record.clusterId = c ∧ record.ticketId = ticketId ∧ record.flowId = flowId := by
  obtain ⟨i, hi, rfl⟩ := List.mem_iff_getElem.mp h
  exact ⟨_, List.mem_mapIdx.mpr ⟨i, hi, rfl⟩, rfl, rfl, rfl⟩

/-- Nothing was run yet. -/
structure Fresh (s : Office) : Prop where
  procs : s.procs = []
  passed : s.store.passed = []

/-- Two flows of different tickets are running past their checks on a cluster although their types exclude
each other and neither's record lets the other pass. -/
def Clash (E : Setting) (db : Database) (f g c : ℕ) : Prop :=
  (Past E db f c ∧ db.flowStatus f = .running) ∧ (Past E db g c ∧ db.flowStatus g = .running) ∧
    E.flowTicket f ≠ E.flowTicket g ∧
    exclusive E (typeOf E f) (typeOf E g) = true ∧ exclusive E (typeOf E g) (typeOf E f) = true ∧
    ¬ UnlockedFor E db g c (typeOf E f) ∧ ¬ UnlockedFor E db f c (typeOf E g)

instance : Decidable (Past E db f c) := inferInstanceAs (Decidable (_ ∧ _))

instance {ticketType : String} : Decidable (UnlockedFor E db f c ticketType) :=
  inferInstanceAs (Decidable (∃ _ ∈ _, _))

instance : Decidable (Clash E db f g c) := inferInstanceAs (Decidable (_ ∧ _))

/-- In every run in which flows are checked while no other is in its gap, no two flows clash. -/
theorem no_clash_of_gapless (hs : Fresh s) (h : Run (Guarded (Gapless E) (Steps (next E))) s es t) :
    ∀ f g c, ¬ Clash E t.store f g c := by
  have hstart : Excluded E s.store := by
    rintro f g c ⟨⟨e, he, -⟩, -⟩
    simp [hs.passed] at he
  have hrun : Excluded E t.store := by
    refine h.invariant (fun s => Excluded E s.store) hstart ?_
    rintro s e t hs ⟨hgap, hnext⟩
    exact Crew.store_next hs hgap hnext fun w c o r hgap hserve => excluded_serve hs hgap hserve
  rintro f g c ⟨hf, hg, hne, hfg, hgf, hunlockg, hunlockf⟩
  rcases hrun f g c hf.1 hg.1 hne with h | h | h | h
  · rw [hfg] at h
    cases h
  · rw [hgf] at h
    cases h
  · exact hunlockg h
  · exact hunlockf h

/-- Two tickets with one flow each, on the same cluster. -/
def twoTickets : Setting where
  exclusiveTicketMap := fun _ _ => none
  ticketType := fun ticketId => if ticketId = 1 then "REDIS_SCALE_UPDOWN" else "REDIS_CLUSTER_CUTOFF"
  ticketClusterIds := fun _ => [7]
  flowTicket := fun flowId => flowId
  flowType := fun _ => .innerFlow
  flowClusterIds := fun _ => []
  autoRetry := fun _ => false

def fresh : Office := ⟨⟨fun _ => .pending, [], []⟩, []⟩

/-- Everything else goes well. -/
def smoothly : (o : Op) → Res o
  | .runStatus _ => ()
  | .otherChecks => true
  | .hasExclusiveOperations .. => []
  | .body => true
  | .runError _ => ()
  | .filterRecords .. => []
  | .bulkUpdate .. => ()
  | .bulkCreate .. => ()
  | .report .. => ()
  | .unlock .. => ()

def turns (worker n : ℕ) : List Event := List.replicate n (.turn worker smoothly)

def oneAfterTheOther : List Event := [.call (.run 1), .call (.run 2)] ++ turns 0 8 ++ turns 1 4

/-- The second flow finds the first one's record, and fails. -/
theorem no_clash_of_gapless_turn :
    ∃ t, Run (Guarded (Gapless twoTickets) (Steps (next twoTickets))) fresh oneAfterTheOther t ∧
      t.store.flowStatus 1 = .running ∧ t.store.flowStatus 2 = .failed ∧
      ∀ f g c, ¬ Clash twoTickets t.store f g c := by
  obtain ⟨t, hrun, ht⟩ := exists_guarded_run (next twoTickets) (Gapless twoTickets) fresh oneAfterTheOther
    (fun t => decide (t.store.flowStatus 1 = .running ∧ t.store.flowStatus 2 = .failed)) (by decide +kernel)
  obtain ⟨hfirst, hsecond⟩ := of_decide_eq_true ht
  exact ⟨t, hrun, hfirst, hsecond, no_clash_of_gapless ⟨rfl, rfl⟩ hrun⟩

def bothAtOnce : List Event := [.call (.run 1), .call (.run 2)] ++ turns 0 3 ++ turns 1 3

/-- Two flows that are run at the same time both pass, since neither has its record yet. -/
theorem clash_at_once :
    Fresh fresh ∧ ∃ t, Run (Steps (next twoTickets)) fresh bothAtOnce t ∧ Clash twoTickets t.store 1 2 7 := by
  obtain ⟨t, hrun, ht⟩ := exists_run_of_exec (next twoTickets) fresh bothAtOnce
    (fun t => decide (Clash twoTickets t.store 1 2 7)) (by decide +kernel)
  exact ⟨⟨rfl, rfl⟩, t, hrun, of_decide_eq_true ht⟩

end Exclusion
