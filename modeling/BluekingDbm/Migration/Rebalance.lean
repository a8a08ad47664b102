import BluekingDbm.Migration.Assignment

/-! The plan is right: every slot ends up with the node of its segment, whatever the order in which the
tasks are done. -/
namespace Migration

/-- A master at that address lists the slot. -/
def Owns (clusterNodes : List ClusterNodeData) (slot : ℕ) (addr : String) : Prop :=
  ∃ node ∈ clusterNodes, node.role = redisMasterRole ∧ slot ∈ node.slots ∧ node.addr = addr

/-- Every slot is listed by just one master. -/
def Covered (clusterNodes : List ClusterNodeData) : Prop :=
  ∀ slot < totalSlots, ∃! node, node ∈ clusterNodes ∧ node.role = redisMasterRole ∧ slot ∈ node.slots

section Sources

variable {clusterNodes nodes : List ClusterNodeData} {m : ℕ → Option String} {slot : ℕ}
  {addr addr' : String}

theorem Owns.perm (hperm : nodes.Perm clusterNodes) : Owns nodes slot addr ↔
    Owns clusterNodes slot addr := by
  simp only [Owns, hperm.mem_iff]

theorem Covered.perm (hc : Covered clusterNodes) (hperm : nodes.Perm clusterNodes) :
    Covered nodes := by
  intro slot hslot
  simp only [hperm.mem_iff]
  exact hc slot hslot

theorem Covered.unique (hc : Covered clusterNodes) (hslot : slot < totalSlots)
    (h : Owns clusterNodes slot addr) (h' : Owns clusterNodes slot addr') : addr = addr' := by
  obtain ⟨node, hmem, hrole, hin, rfl⟩ := h
  obtain ⟨node', hmem', hrole', hin', rfl⟩ := h'
  obtain ⟨_, -, huniq⟩ := hc slot hslot
  rw [huniq node ⟨hmem, hrole, hin⟩, huniq node' ⟨hmem', hrole', hin'⟩]

theorem enterSlots (slots : List ℕ) : (slots.foldl
    (fun m slot => Function.update m slot (some addr)) m) slot =
      if slot ∈ slots then some addr else m slot := by
  induction slots generalizing m with
  | nil => simp
  | cons x slots ih =>
    rw [List.foldl_cons, ih]
    by_cases hin : slot ∈ slots
    · simp [hin]
    · rcases eq_or_ne slot x with rfl | hne
      · simp [hin]
      · simp [hin, hne]

/-- A slot is entered for a master that lists it, and for none only if no master lists it. -/
theorem enterNodes (masters : List ClusterNodeData) :
    (∀ a, (masters.foldl (fun m node => node.slots.foldl
      (fun m slot => Function.update m slot (some node.addr)) m) m) slot = some a →
        (∃ node ∈ masters, slot ∈ node.slots ∧ node.addr = a) ∨ m slot = some a) ∧
    ((masters.foldl (fun m node => node.slots.foldl
      (fun m slot => Function.update m slot (some node.addr)) m) m) slot = none →
        (∀ node ∈ masters, slot ∉ node.slots) ∧ m slot = none) := by
  induction masters generalizing m with
  | nil => simp
  | cons x masters ih =>
    obtain ⟨hsome, hnone⟩ := @ih (x.slots.foldl
      (fun m slot => Function.update m slot (some x.addr)) m)
    rw [enterSlots] at hsome hnone
    constructor
    · intro a ha
      rcases hsome a ha with ⟨node, hnode, hin⟩ | hx
      · exact Or.inl ⟨node, List.mem_cons_of_mem _ hnode, hin⟩
      · split at hx
        case isTrue hin =>
          exact Or.inl ⟨x, List.mem_cons_self, hin, Option.some.inj hx⟩
        case isFalse => exact Or.inr hx
    · intro h
      obtain ⟨hrest, hx⟩ := hnone h
      split at hx
      case isTrue => cases hx
      case isFalse hin =>
        refine ⟨?_, hx⟩
        rintro node (_ | ⟨_, hnode⟩)
        · exact hin
        · exact hrest node hnode

/-- The source of a slot owns it. -/
theorem owns_slotSrc (hc : Covered clusterNodes) (hslot : slot < totalSlots) :
    Owns clusterNodes slot (slotSrc clusterNodes slot) := by
  obtain ⟨hsome, hnone⟩ := @enterNodes (fun _ => none) slot (clusterNodes.filter isMaster)
  obtain ⟨node, ⟨hmem, hrole, hin⟩, -⟩ := hc slot hslot
  have hmaster : ∀ x : ClusterNodeData, isMaster x = true ↔ x.role = redisMasterRole :=
    fun x => decide_eq_true_iff
  cases hsrc : slotSrcNodeMap clusterNodes slot with
  | none => exact absurd hin ((hnone hsrc).1 node (List.mem_filter.mpr ⟨hmem, (hmaster _).mpr hrole⟩))
  | some a =>
    rcases hsome a hsrc with ⟨x, hx, hslot', rfl⟩ | hbad
    · obtain ⟨hx, hrole'⟩ := List.mem_filter.mp hx
      rw [slotSrc, hsrc]
      exact ⟨x, hx, (hmaster x).mp hrole', hslot', rfl⟩
    · cases hbad

end Sources

section Tasks

variable {src : ℕ → String} {addr : String} {slots : List ℕ} {t : MigrateSomeSlots} {slot : ℕ}

theorem mem_tasksInto (ht : t ∈ tasksInto src addr slots) :
    t.dstAddr = addr ∧ t.srcAddr ≠ addr ∧
      ∀ slot ∈ t.migrateSlots, slot ∈ slots ∧ src slot = t.srcAddr := by
  obtain ⟨e, he, rfl⟩ := List.mem_map.mp ht
  obtain ⟨hpart, hne⟩ := Grouping.mem_gather.mp he
  have hslots : ∀ slot ∈ e.2, slot ∈ slots ∧ src slot = e.1 ∧ src slot ≠ addr := by
    intro slot hslot
    rw [hpart] at hslot
    obtain ⟨hfilter, hkey⟩ := List.mem_filter.mp hslot
    obtain ⟨hmem, hother⟩ := List.mem_filter.mp hfilter
    exact ⟨hmem, of_decide_eq_true hkey, of_decide_eq_true hother⟩
  refine ⟨rfl, ?_, fun slot hslot => ⟨(hslots slot hslot).1, (hslots slot hslot).2.1⟩⟩
  rw [← hpart] at hne
  obtain ⟨slot, hslot⟩ := List.exists_mem_of_ne_nil _ hne
  obtain ⟨-, hkey, hother⟩ := hslots slot hslot
  rwa [hkey] at hother

/-- Every slot to be moved has a task. -/
theorem exists_taskInto (hslot : slot ∈ slots) (hother : src slot ≠ addr) :
    ∃ t ∈ tasksInto src addr slots, slot ∈ t.migrateSlots := by
  have hmem : slot ∈ Grouping.part src (slots.filter fun slot => decide (src slot ≠ addr))
      (src slot) := by
    refine List.mem_filter.mpr ⟨List.mem_filter.mpr ⟨hslot, decide_eq_true hother⟩, ?_⟩
    exact decide_eq_true rfl
  refine ⟨⟨src slot, addr, _⟩, List.mem_map.mpr ⟨⟨src slot, _⟩, ?_, rfl⟩, hmem⟩
  exact Grouping.mem_gather.mpr ⟨rfl, List.ne_nil_of_mem hmem⟩

theorem nodup_tasksInto (hslots : slots.Nodup) :
    ((tasksInto src addr slots).flatMap MigrateSomeSlots.migrateSlots).Nodup := by
  refine List.nodup_flatMap.mpr ⟨?_, ?_⟩
  · intro t ht
    obtain ⟨e, he, rfl⟩ := List.mem_map.mp ht
    obtain ⟨hpart, -⟩ := Grouping.mem_gather.mp he
    have hnodup : e.2.Nodup := by
      rw [hpart]
      exact (hslots.filter _).filter _
    exact hnodup
  · refine List.pairwise_map.mpr ?_
    have hkeys := (Grouping.gather src (slots.filter fun slot =>
      decide (src slot ≠ addr))).keys_nodup
    refine (List.pairwise_map.mp hkeys).imp_of_mem ?_
    intro e e' he he' hne slot hslot hslot'
    obtain ⟨hpart, -⟩ := Grouping.mem_gather.mp he
    obtain ⟨hpart', -⟩ := Grouping.mem_gather.mp he'
    dsimp only at hslot hslot'
    rw [hpart] at hslot
    rw [hpart'] at hslot'
    have hkey := of_decide_eq_true (List.mem_filter.mp hslot).2
    have hkey' := of_decide_eq_true (List.mem_filter.mp hslot').2
    exact hne (hkey.symm.trans hkey')

end Tasks

/-- The owners after some tasks are done, one after the other. -/
def applyTasks (owner : ℕ → String) (tasks : List MigrateSomeSlots) : ℕ → String :=
  tasks.foldl (fun owner t slot => if slot ∈ t.migrateSlots then t.dstAddr else owner slot) owner

section Applying

variable {owner : ℕ → String} {tasks : List MigrateSomeSlots} {slot : ℕ} {addr : String}

theorem applyTasks_of_not_moved (h : ∀ t ∈ tasks, slot ∉ t.migrateSlots) :
    applyTasks owner tasks slot = owner slot := by
  induction tasks generalizing owner with
  | nil => rfl
  | cons t tasks ih =>
    have hrest := @ih (fun slot => if slot ∈ t.migrateSlots then t.dstAddr else owner slot)
      (fun t' ht' => h t' (List.mem_cons_of_mem _ ht'))
    rw [applyTasks, List.foldl_cons]
    exact hrest.trans (if_neg (h t List.mem_cons_self))

/-- A slot that all its tasks move to one place is there in the end. -/
theorem applyTasks_of_moved (hsome : ∃ t ∈ tasks, slot ∈ t.migrateSlots)
    (hall : ∀ t ∈ tasks, slot ∈ t.migrateSlots → t.dstAddr = addr) :
    applyTasks owner tasks slot = addr := by
  induction tasks generalizing owner with
  | nil =>
    obtain ⟨t, ht, -⟩ := hsome
    cases ht
  | cons t tasks ih =>
    rw [applyTasks, List.foldl_cons]
    by_cases hrest : ∃ t ∈ tasks, slot ∈ t.migrateSlots
    · exact ih hrest fun t' ht' => hall t' (List.mem_cons_of_mem _ ht')
    · have hnone : ∀ t' ∈ tasks, slot ∉ t'.migrateSlots :=
        fun t' ht' hin => hrest ⟨t', ht', hin⟩
      have hhead : slot ∈ t.migrateSlots := by
        obtain ⟨t', ht', hin⟩ := hsome
        rcases List.mem_cons.mp ht' with rfl | ht'
        · exact hin
        · exact absurd hin (hnone t' ht')
      have hstay := @applyTasks_of_not_moved
        (fun slot => if slot ∈ t.migrateSlots then t.dstAddr else owner slot) tasks slot hnone
      exact hstay.trans ((if_pos hhead).trans (hall t List.mem_cons_self hhead))

end Applying

section Placing

variable {finalNodes : List String} {src : ℕ → String} {r : Plan × List MigrateSomeSlots} {slot : ℕ}
  {e e' : Sigma fun _ : String => ℕ}

/-- Where the segment of a node is in the plan. -/
def Plan.segment (p : Plan) (addr : String) : ℕ := (p.node2Segment.lookup addr).getD 0

variable (h : Complete finalNodes src (totalSlots / finalNodes.length) r)

include h

theorem Complete.perm_keys (hnodup : finalNodes.Nodup) :
    r.1.node2Segment.keys.Perm finalNodes := by
  refine (List.perm_ext_iff_of_nodup r.1.node2Segment.keys_nodup hnodup).mpr fun addr => ?_
  exact ⟨fun haddr => h.assigned.final haddr, fun haddr => h.everyone addr haddr⟩

/-- Each segment is given to one of the nodes. -/
theorem Complete.perm_segments (hnodup : finalNodes.Nodup) :
    (finalNodes.map r.1.segment).Perm (List.range finalNodes.length) := by
  have hvalues : (Table.values r.1.node2Segment).Perm (List.range finalNodes.length) := by
    refine Pairing.perm_of_full h.assigned.injective (h.perm_keys hnodup) ?_ ?_
    · intro idx hidx
      exact List.mem_range.mpr (h.assigned.inRange idx hidx)
    · rw [List.length_range]
  have hmap := (h.perm_keys hnodup).symm.map r.1.segment
  exact hmap.trans ((List.Perm.of_eq (Pairing.map_lookup_keys 0)).trans hvalues)

theorem Complete.entry_eq (he : e ∈ r.1.node2Segment.entries) (he' : e' ∈ r.1.node2Segment.entries)
    (hseg : e.2 = e'.2) : e = e' :=
  List.inj_on_of_nodup_map h.assigned.injective he he' hseg

/-- The entries of two different segments have no slot in common. -/
theorem Complete.entry_unique (hn : 0 < finalNodes.length) (he : e ∈ r.1.node2Segment.entries)
    (he' : e' ∈ r.1.node2Segment.entries)
    (hin : slot ∈ segmentSlots finalNodes.length e.2 (totalSlots / finalNodes.length))
    (hin' : slot ∈ segmentSlots finalNodes.length e'.2 (totalSlots / finalNodes.length)) : e = e' :=
  h.entry_eq he he' (segment_unique ((mem_segmentSlots hn).mp hin) ((mem_segmentSlots hn).mp hin'))

/-- Every slot lies in the segment of some node. -/
theorem Complete.exists_entry (hnodup : finalNodes.Nodup) (hn : 0 < finalNodes.length)
    (hslot : slot < totalSlots) : ∃ e ∈ r.1.node2Segment.entries,
      slot ∈ segmentSlots finalNodes.length e.2 (totalSlots / finalNodes.length) := by
  obtain ⟨idx, hidx, hin⟩ := exists_segment hn hslot
  have hgiven : idx ∈ finalNodes.map r.1.segment :=
    (h.perm_segments hnodup).mem_iff.mpr (List.mem_range.mpr hidx)
  obtain ⟨addr, haddr, rfl⟩ := List.mem_map.mp hgiven
  obtain ⟨idx, hlookup⟩ := Option.isSome_iff_exists.mp
    (AList.lookup_isSome.mpr (h.everyone addr haddr))
  rw [Plan.segment, hlookup] at hin
  exact ⟨⟨addr, idx⟩, AList.mem_lookup_iff.mp hlookup, (mem_segmentSlots hn).mpr hin⟩

theorem Complete.lt_total (hn : 0 < finalNodes.length) (he : e ∈ r.1.node2Segment.entries)
    (hin : slot ∈ segmentSlots finalNodes.length e.2 (totalSlots / finalNodes.length)) :
    slot < totalSlots := by
  have hidx := h.assigned.inRange e.2 (List.mem_map_of_mem he)
  have hbelow := ((mem_segmentSlots hn).mp hin).2
  exact hbelow.trans_le (bound_lt_total hn hidx)

theorem Complete.mem_tasks {t : MigrateSomeSlots} : t ∈ r.2 ↔ ∃ e ∈ r.1.node2Segment.entries,
    t ∈ tasksInto src e.1
      (segmentSlots finalNodes.length e.2 (totalSlots / finalNodes.length)) := by
  rw [h.tasks.mem_iff, Plan.tasks, List.mem_flatMap]

/-- No slot is in two tasks. -/
theorem Complete.nodup_tasks (hn : 0 < finalNodes.length) :
    (r.2.flatMap MigrateSomeSlots.migrateSlots).Nodup := by
  rw [(h.tasks.flatMap_right _).nodup_iff, Plan.tasks, List.flatMap_assoc, List.nodup_flatMap]
  constructor
  · intro e _
    exact nodup_tasksInto (nodup_segmentSlots ..)
  · refine (List.pairwise_map.mp h.assigned.injective).imp_of_mem ?_
    intro e e' he he' hne slot hslot hslot'
    obtain ⟨t, ht, hin⟩ := List.mem_flatMap.mp hslot
    obtain ⟨t', ht', hin'⟩ := List.mem_flatMap.mp hslot'
    have hseg := ((mem_tasksInto ht).2.2 slot hin).1
    have hseg' := ((mem_tasksInto ht').2.2 slot hin').1
    exact hne (congrArg Sigma.snd (h.entry_unique hn he he' hseg hseg'))

/-- Done in any order, the tasks bring a slot to the node of its segment. -/
theorem Complete.arrives {owner : ℕ → String} {tasks : List MigrateSomeSlots}
    (hn : 0 < finalNodes.length) (hperm : tasks.Perm r.2) (he : e ∈ r.1.node2Segment.entries)
    (hin : slot ∈ segmentSlots finalNodes.length e.2 (totalSlots / finalNodes.length))
    (howner : owner slot = src slot) : applyTasks owner tasks slot = e.1 := by
  have hdst : ∀ t ∈ tasks, slot ∈ t.migrateSlots →
      t.dstAddr = e.1 ∧ src slot ≠ e.1 := by
    intro t ht hmoved
    obtain ⟨e', he', ht⟩ := h.mem_tasks.mp (hperm.mem_iff.mp ht)
    obtain ⟨hdst, hother, hslots⟩ := mem_tasksInto ht
    obtain ⟨hin', hsrc⟩ := hslots slot hmoved
    obtain rfl := h.entry_unique hn he he' hin hin'
    exact ⟨hdst, hsrc ▸ hother⟩
  by_cases hstay : src slot = e.1
  · rw [applyTasks_of_not_moved fun t ht hmoved => (hdst t ht hmoved).2 hstay, howner, hstay]
  · obtain ⟨t, ht, hmoved⟩ := exists_taskInto hin hstay
    have hmem : t ∈ tasks := hperm.mem_iff.mpr (h.mem_tasks.mpr ⟨e, he, ht⟩)
    exact applyTasks_of_moved ⟨t, hmem, hmoved⟩ fun t ht hmoved => (hdst t ht hmoved).1

/-- The coverage check passes. -/
theorem Complete.fullCoverage (hnodup : finalNodes.Nodup) (hn : 0 < finalNodes.length) :
    checkSlotFullCoverage (targetSlotMap r.1 finalNodes.length
      (totalSlots / finalNodes.length)) = .ok () := by
  have hmem : ∀ slot, slot ∈ targetSlotMap r.1 finalNodes.length
      (totalSlots / finalNodes.length) ↔ slot < totalSlots := by
    intro slot
    rw [targetSlotMap, Table.mem_enter]
    constructor
    · rintro (hempty | hin)
      · exact (AList.notMem_empty _ hempty).elim
      · obtain ⟨p, hp, rfl⟩ := List.mem_map.mp hin
        obtain ⟨e, he, hp⟩ := List.mem_flatMap.mp hp
        obtain ⟨slot, hslot, rfl⟩ := List.mem_map.mp hp
        exact h.lt_total hn he hslot
    · intro hslot
      obtain ⟨e, he, hin⟩ := h.exists_entry hnodup hn hslot
      refine Or.inr (List.mem_map.mpr ⟨(slot, e.1), ?_, rfl⟩)
      exact List.mem_flatMap.mpr ⟨e, he, List.mem_map.mpr ⟨slot, hin, rfl⟩⟩
  have hkeys : (targetSlotMap r.1 finalNodes.length (totalSlots / finalNodes.length)).keys.Perm
      (List.range totalSlots) := by
    refine (List.perm_ext_iff_of_nodup (AList.keys_nodup _) List.nodup_range).mpr fun slot => ?_
    rw [List.mem_range]
    exact hmem slot
  have hlow : (targetSlotMap r.1 finalNodes.length (totalSlots / finalNodes.length)).keys.find?
      (fun slot => decide (slot > defaultMaxSlots)) = none := by
    rw [List.find?_eq_none]
    intro slot hslot hbig
    have hlt : slot < defaultMaxSlots + 1 := (hmem slot).mp hslot
    have hgt := of_decide_eq_true hbig
    omega
  rw [checkSlotFullCoverage, hlow]
  exact if_neg (not_not.mpr (by rw [hkeys.length_eq, List.length_range]))

end Placing

/-- Cutting the slots into parts that lie one behind the other and are as good as equal. -/
structure EvenCut (n : ℕ) (cut : ℕ → ℕ) : Prop where
  first : cut 0 = 0
  last : cut n = totalSlots
  next : ∀ i < n, cut (i + 1) = cut i + totalSlots / n ∨ cut (i + 1) = cut i + totalSlots / n + 1

/-- What the tasks are made for: in whatever order they are done, each node that stays has a part of its
own and the others have nothing. -/
structure Balances (clusterNodes : List ClusterNodeData) (finalNodes toBeDelNodes : List String)
    (tasks : List MigrateSomeSlots) : Prop where
  once : (tasks.flatMap MigrateSomeSlots.migrateSlots).Nodup
  moves : ∀ t ∈ tasks, t.srcAddr ≠ t.dstAddr ∧
    ∀ slot ∈ t.migrateSlots, slot < totalSlots ∧ Owns clusterNodes slot t.srcAddr
  ends : ∃ cut, EvenCut finalNodes.length cut ∧ ∃ seg : String → ℕ,
    (finalNodes.map seg).Perm (List.range finalNodes.length) ∧
      ∀ owner, (∀ slot < totalSlots, Owns clusterNodes slot (owner slot)) →
        ∀ done : List MigrateSomeSlots, done.Perm tasks → ∀ slot < totalSlots,
          (∀ addr ∈ finalNodes, applyTasks owner done slot = addr ↔
            cut (seg addr) ≤ slot ∧ slot < cut (seg addr + 1)) ∧
          ∀ addr ∈ toBeDelNodes, applyTasks owner done slot ≠ addr

section Balancing

variable {clusterNodes nodes : List ClusterNodeData} {finalNodes toBeDelNodes : List String}
  {r : Plan × List MigrateSomeSlots} {tasks : List MigrateSomeSlots}

/-- A plan in which everyone who stays has a segment of its own balances the cluster. -/
theorem Complete.balances
    (h : Complete finalNodes (slotSrc nodes) (totalSlots / finalNodes.length) r)
    (hperm : nodes.Perm clusterNodes) (hcovered : Covered clusterNodes) (hnodup : finalNodes.Nodup)
    (hn : 0 < finalNodes.length) (hgone : ∀ addr ∈ finalNodes, addr ∉ toBeDelNodes)
    (hshuffle : tasks.Perm r.2) : Balances clusterNodes finalNodes toBeDelNodes tasks := by
  have hsrc : ∀ slot < totalSlots, Owns clusterNodes slot (slotSrc nodes slot) :=
    fun slot hslot => (Owns.perm hperm).mp (owns_slotSrc (hcovered.perm hperm) hslot)
  constructor
  · exact (hshuffle.flatMap_right _).nodup_iff.mpr (h.nodup_tasks hn)
  · intro t ht
    obtain ⟨e, he, hin⟩ := h.mem_tasks.mp (hshuffle.mem_iff.mp ht)
    obtain ⟨hdst, hother, hslots⟩ := mem_tasksInto hin
    rw [← hdst] at hother
    refine ⟨hother, fun slot hslot => ?_⟩
    obtain ⟨hseg, hfrom⟩ := hslots slot hslot
    have hlt := h.lt_total hn he hseg
    exact ⟨hlt, hfrom ▸ hsrc slot hlt⟩
  · refine ⟨bound finalNodes.length, ⟨bound_zero, bound_last hn, fun i _ => bound_succ⟩,
      r.1.segment, h.perm_segments hnodup, ?_⟩
    intro owner howner done hdone slot hslot
    obtain ⟨e, he, hin⟩ := h.exists_entry hnodup hn hslot
    have hend : applyTasks owner done slot = e.1 := h.arrives hn (hdone.trans hshuffle) he hin
      (hcovered.unique hslot (howner slot hslot) (hsrc slot hslot))
    have hsegment : r.1.segment e.1 = e.2 := by
      have hlookup : r.1.node2Segment.lookup e.1 = some e.2 := AList.mem_lookup_iff.mpr he
      rw [Plan.segment, hlookup]
      rfl
    rw [hend]
    constructor
    · intro addr haddr
      constructor
      · rintro rfl
        rw [hsegment]
        exact (mem_segmentSlots hn).mp hin
      · intro hseg
        obtain ⟨idx, hlookup⟩ := Option.isSome_iff_exists.mp
          (AList.lookup_isSome.mpr (h.everyone addr haddr))
        rw [Plan.segment, hlookup] at hseg
        have hmem : (⟨addr, idx⟩ : Sigma fun _ : String => ℕ) ∈ r.1.node2Segment.entries :=
          AList.mem_lookup_iff.mp hlookup
        exact congrArg Sigma.fst (h.entry_unique hn he hmem hin ((mem_segmentSlots hn).mpr hseg))
    · rintro addr haddr rfl
      exact hgone e.1 (h.assigned.final (List.mem_map_of_mem he)) haddr

/-- A rebalance moves each slot at most once, from the node that has it, and leaves an even cut. -/
theorem reBalanceSlot_balances (job : ClusterMigrateSlots) (o : Choices)
    (runningNodes clusterNodes : List ClusterNodeData)
    (haddr : ∀ node ∈ runningNodes, node.failStatus = [] → node.role = redisMasterRole →
      node.ip ++ ":" ++ Text.decimal node.port = node.addr)
    (hsome : (job.getMigrateNodes o.masters runningNodes).1 ≠ [])
    (hlisted : ListedOnce (job.getMigrateNodes o.masters runningNodes).1 clusterNodes)
    (hcovered : Covered clusterNodes) :
    ∃ tasks, job.reBalanceSlot o runningNodes clusterNodes = .ok tasks ∧
      Balances clusterNodes (job.getMigrateNodes o.masters runningNodes).1
        (job.getMigrateNodes o.masters runningNodes).2 tasks := by
  have hnodup := @finalNodes_nodup job o.masters runningNodes haddr
  have hgone := @finalNodes_disjoint job o.masters runningNodes
  rw [ClusterMigrateSlots.reBalanceSlot]
  generalize job.getMigrateNodes o.masters runningNodes = split at hsome hlisted hnodup hgone ⊢
  obtain ⟨finalNodes, toBeDelNodes⟩ := split
  have hn : 0 < finalNodes.length := List.length_pos_iff.mpr hsome
  have hperm := o.nodes.perm_sortSlice (fun a b => decide (a.slots.length > b.slots.length))
    (l := clusterNodes)
  have hcomplete : Complete finalNodes (slotSrc (o.nodes.sortSlice
      (fun a b => decide (a.slots.length > b.slots.length)) clusterNodes))
      (totalSlots / finalNodes.length)
      (if toBeDelNodes.length > 0 then scaleDown o finalNodes (o.nodes.sortSlice
          (fun a b => decide (a.slots.length > b.slots.length)) clusterNodes)
          (totalSlots / finalNodes.length)
        else scaleUp o finalNodes (o.nodes.sortSlice
          (fun a b => decide (a.slots.length > b.slots.length)) clusterNodes)
          (totalSlots / finalNodes.length)) := by
    split
    · exact scaleDown_complete (hlisted.perm hperm)
    · exact scaleUp_complete (hlisted.perm hperm)
  refine ⟨_, ?_, hcomplete.balances hperm hcovered hnodup hn (fun addr h => hgone h)
    (o.shuffle.perm _)⟩
  simp only [hn.ne', if_false, hcomplete.fullCoverage hnodup hn]

end Balancing

/-- Nothing is left open: lists stay as they are. -/
def Choices.still : Choices := ⟨.still, .still, .still, fun _ => .still, .still⟩

/-- One of two masters with half of the slots each is deleted. -/
theorem reBalanceSlot_balances_down :
    let kept : ClusterNodeData :=
      ⟨"10.0.0.1:6379", "10.0.0.1", 6379, redisMasterRole, [], redisLinkStateConnected,
        List.range' 0 8192⟩
    let gone : ClusterNodeData :=
      ⟨"10.0.0.2:6379", "10.0.0.2", 6379, redisMasterRole, [], redisLinkStateConnected,
        List.range' 8192 8192⟩
    ∃ tasks, ClusterMigrateSlots.reBalanceSlot ⟨gone.addr, true, []⟩ Choices.still [kept, gone]
        [kept, gone] = .ok tasks ∧ Balances [kept, gone] [kept.addr] [gone.addr] tasks := by
  intro kept gone
  have hsplit : ClusterMigrateSlots.getMigrateNodes ⟨gone.addr, true, []⟩ Choices.still.masters
      [kept, gone] = ([kept.addr], [gone.addr]) := by decide +kernel
  have hrun := reBalanceSlot_balances ⟨gone.addr, true, []⟩ Choices.still [kept, gone] [kept, gone]
  rw [hsplit] at hrun
  refine hrun ?_ (List.cons_ne_nil _ _) ?_ ?_
  · intro node hnode _ _
    rcases List.mem_pair.mp hnode with rfl | rfl
    · decide +kernel
    · decide +kernel
  · intro addr haddr
    obtain rfl := List.mem_singleton.mp haddr
    decide +kernel
  · intro slot hslot
    have htotal : slot < 16384 := hslot
    have hkept : slot ∈ kept.slots ↔ 0 ≤ slot ∧ slot < 8192 := List.mem_range'_1
    have hgone : slot ∈ gone.slots ↔ 8192 ≤ slot ∧ slot < 8192 + 8192 := List.mem_range'_1
    by_cases hhalf : slot < 8192
    · refine ⟨kept, ⟨List.mem_cons_self, rfl, hkept.mpr ⟨Nat.zero_le _, hhalf⟩⟩, ?_⟩
      rintro node ⟨hnode, -, hin⟩
      rcases List.mem_pair.mp hnode with rfl | rfl
      · rfl
      · have := (hgone.mp hin).1
        omega
    · refine ⟨gone, ⟨by simp, rfl, hgone.mpr ⟨by omega, by omega⟩⟩, ?_⟩
      rintro node ⟨hnode, -, hin⟩
      rcases List.mem_pair.mp hnode with rfl | rfl
      · exact absurd (hkept.mp hin).2 hhalf
      · rfl

end Migration
