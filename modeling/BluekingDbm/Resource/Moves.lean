import Mathlib.Logic.Relation
import BluekingDbm.Resource.Matching

/-! What a picker can do to its state, whatever its loops: visit a sub-zone, take a host that the
limits admit, shorten a queue, drop a sub-zone, or start over. -/
namespace Resource

open Loop

/-- What no picker changes. -/
structure Limits where
  count : ℕ
  affinity : Affinity
  tolerance : ℚ
  maxPerSubZone : ℤ
  currentHostsBySubZone : String → ℕ
  rackTolerance : ℚ
  maxPerRack : ℤ
  currentHostsByRack : String → ℕ
  subZonePrioritySumMap : AList fun _ : String => ℤ

def PickerObject.limits (c : PickerObject) : Limits where
  count := c.count
  affinity := c.affinity
  tolerance := c.tolerance
  maxPerSubZone := c.maxPerSubZone
  currentHostsBySubZone := c.currentHostsBySubZone
  rackTolerance := c.rackTolerance
  maxPerRack := c.maxPerRack
  currentHostsByRack := c.currentHostsByRack
  subZonePrioritySumMap := c.subZonePrioritySumMap

section Scan

variable {judge : InstanceObject → Verdict} {l : List Item}

/-- The ways in which a scan ends, with what it passed over. -/
inductive Scanned (judge : InstanceObject → Verdict) : List Item → Scan → Prop
  | taken {skipped rest : List Item} {item : Item} (hskip : ∀ i ∈ skipped, judge i.value = .skip)
      (htake : judge item.value = .take) :
      Scanned judge (skipped ++ item :: rest) (.taken item.value rest)
  | stopped {skipped rest : List Item} {item : Item} (hskip : ∀ i ∈ skipped, judge i.value = .skip)
      (hstop : judge item.value = .stop) : Scanned judge (skipped ++ item :: rest) (.stopped rest)
  | drained {l : List Item} (hskip : ∀ i ∈ l, judge i.value = .skip) : Scanned judge l .drained

theorem Scanned.cons {item : Item} {s : Scan} (hitem : judge item.value = .skip)
    (h : Scanned judge l s) : Scanned judge (item :: l) s := by
  have hall : ∀ {skipped : List Item}, (∀ i ∈ skipped, judge i.value = .skip) →
      ∀ i ∈ item :: skipped, judge i.value = .skip := by
    intro skipped hskip i hi
    rcases List.mem_cons.mp hi with rfl | hi
    · exact hitem
    · exact hskip i hi
  cases h with
  | taken hskip htake => exact @Scanned.taken _ (item :: _) _ _ (hall hskip) htake
  | stopped hskip hstop => exact @Scanned.stopped _ (item :: _) _ _ (hall hskip) hstop
  | drained hskip => exact .drained (hall hskip)

theorem scanned_scan : Scanned judge l (scan judge l) := by
  induction l with
  | nil => exact .drained nofun
  | cons item rest ih =>
    unfold scan
    split
    · rename_i htake
      exact @Scanned.taken _ [] _ _ nofun htake
    · rename_i hstop
      exact @Scanned.stopped _ [] _ _ nofun hstop
    · rename_i hskip
      exact ih.cons hskip

end Scan

/-- Host `v` may be taken from sub-zone `key`: more are wanted, it was not taken before, and it fits
the limits that are set. -/
structure Admits (c : PickerObject) (key : String) (v : InstanceObject) : Prop where
  undone : c.pickerDone = false
  fresh : v.bkHostId ∉ c.satisfiedHostIds
  subZone : 0 ≤ c.tolerance → 0 < c.maxPerSubZone →
    (c.getSubZoneCurrentTotal key + 1 : ℤ) ≤ c.maxPerSubZone
  rack : 0 ≤ c.tolerance → 0 < c.maxPerRack →
    (c.getRackCurrentTotal key v.rackId + 1 : ℤ) ≤ c.maxPerRack

/-- The writes for a host taken; the racks are counted wherever they are limited. -/
structure Takes (key : String) (v : InstanceObject) (c c' : PickerObject) : Prop where
  limits : c'.limits = c.limits
  queues : c'.priorityElements = c.priorityElements
  visited : c'.existSubZone = c.existSubZone
  satisfied : c'.satisfiedHostIds = c.satisfiedHostIds ++ [v.bkHostId]
  zones : c'.pickDistribute = bump c.pickDistribute key
  racks : c'.rackDistribute = bump c.rackDistribute (buildRackKey key v.rackId) ∨
    c.maxPerRack ≤ 0 ∧ c'.rackDistribute = c.rackDistribute

inductive Move : PickerObject → PickerObject → Prop
  | draw {c : PickerObject} {n : ℕ} : Move c { c with draws := n }
  | visit {c : PickerObject} {key : String} : Move c (c.visit key)
  | drop {c : PickerObject} {key : String} : Move c (c.drop key)
  | restart {c : PickerObject} : Move c c.restart
  | pop {c : PickerObject} {key : String} {pq rest : List Item}
      (hq : c.priorityElements.lookup key = some pq) (hrest : rest.Subperm pq) :
      Move c (c.popTo key rest)
  | pick {c c' : PickerObject} {key : String} {pq rest : List Item} {item : Item}
      (hq : c.priorityElements.lookup key = some pq) (hrest : (item :: rest).Subperm pq)
      (hadmits : Admits c key item.value) (htakes : Takes key item.value (c.popTo key rest) c') :
      Move c c'

/-- Any number of moves. -/
def Moves : PickerObject → PickerObject → Prop := Relation.ReflTransGen Move

theorem Moves.refl {c : PickerObject} : Moves c c := Relation.ReflTransGen.refl

theorem Moves.single {c c' : PickerObject} (h : Move c c') : Moves c c' := Relation.ReflTransGen.single h

theorem Moves.trans {a b c : PickerObject} (hab : Moves a b) (hbc : Moves b c) : Moves a c :=
  Relation.ReflTransGen.trans hab hbc

/-- What every move keeps is kept by any number of them. -/
theorem Moves.invariant {c c' : PickerObject} {P : PickerObject → Prop} (h : Moves c c') (hc : P c)
    (hmove : ∀ {a b}, Move a b → P a → P b) : P c' := by
  induction h with
  | refl => exact hc
  | tail _ hm ih => exact hmove hm ih

section PickOne

variable {rt : Runtime} {c : PickerObject} {key : String} {v : InstanceObject} {crossSwitch : Bool}
  {judge : PickerObject → InstanceObject → Verdict}
  {take : PickerObject → InstanceObject → PickerObject} {drained : PickerObject → Bool}

/-- How a call that picks one host ends, from the state `c` in which it has noted its visit. -/
inductive PickedOne (c : PickerObject) (key : String) (judge : InstanceObject → Verdict)
    (take : PickerObject → InstanceObject → PickerObject) (drained : PickerObject → Bool) :
    Bool × PickerObject → Prop
  | missing (hq : c.priorityElements.lookup key = none) : PickedOne c key judge take drained (false, c)
  | taken {pq skipped rest : List Item} {item : Item}
      (hq : c.priorityElements.lookup key = some pq) (hperm : (skipped ++ item :: rest).Perm pq)
      (hskip : ∀ i ∈ skipped, judge i.value = .skip) (htake : judge item.value = .take) :
      PickedOne c key judge take drained (true, take (c.popTo key rest) item.value)
  | stopped {pq skipped rest : List Item} {item : Item}
      (hq : c.priorityElements.lookup key = some pq) (hperm : (skipped ++ item :: rest).Perm pq)
      (hskip : ∀ i ∈ skipped, judge i.value = .skip) (hstop : judge item.value = .stop) :
      PickedOne c key judge take drained (false, c.popTo key rest)
  | drained {pq : List Item} (hq : c.priorityElements.lookup key = some pq)
      (hskip : ∀ i ∈ pq, judge i.value = .skip) :
      PickedOne c key judge take drained (drained (c.popTo key []), c.popTo key [])

theorem popOrder_perm {queue : List Item} : (c.popOrder rt queue).Perm queue :=
  (List.perm_insertionSort _ _).trans (rt.items_perm _ _)

theorem pickedOne_pickOne :
    PickedOne (c.visit key) key (judge (c.visit key)) take drained
      (c.pickOne rt key judge take drained) := by
  dsimp only [PickerObject.pickOne]
  cases hq : (c.visit key).priorityElements.lookup key with
  | none => exact .missing hq
  | some pq =>
    have hperm : ((c.visit key).popOrder rt pq).Perm pq := popOrder_perm
    have hscan : Scanned (judge (c.visit key)) _ (scan (judge (c.visit key)) _) :=
      @scanned_scan _ ((c.visit key).popOrder rt pq)
    dsimp only
    generalize (c.visit key).popOrder rt pq = l at hperm hscan ⊢
    generalize scan (judge (c.visit key)) l = s at hscan ⊢
    cases hscan with
    | taken hskip htake => exact .taken hq hperm hskip htake
    | stopped hskip hstop => exact .stopped hq hperm hskip hstop
    | drained hskip => exact .drained hq fun i hi => hskip i (hperm.mem_iff.mpr hi)

theorem canAllocate_le {total : ℕ} {limit : ℤ} (hlimit : 0 < limit)
    (h : total = 0 ∨ (total : ℤ) < limit) : (total + 1 : ℤ) ≤ limit := by
  omega

theorem le_of_canAllocateToSubZone (h : c.canAllocateToSubZone key) (hmax : 0 < c.maxPerSubZone) :
    (c.getSubZoneCurrentTotal key + 1 : ℤ) ≤ c.maxPerSubZone := by
  refine canAllocate_le hmax ?_
  unfold PickerObject.canAllocateToSubZone at h
  split at h
  · exact .inl (of_decide_eq_true h)
  · exact .inr (of_decide_eq_true h)

theorem le_of_canAllocateToRack (h : c.canAllocateToRack key v.rackId) (hmax : 0 < c.maxPerRack) :
    (c.getRackCurrentTotal key v.rackId + 1 : ℤ) ≤ c.maxPerRack := by
  refine canAllocate_le hmax ?_
  unfold PickerObject.canAllocateToRack at h
  rw [if_neg hmax.ne'] at h
  -- one case for each tolerance that may be in force
  simp only at h
  split at h
  all_goals
    split at h
    · exact .inl (of_decide_eq_true h)
    · exact .inr (of_decide_eq_true h)

/-- A host is taken only for a verdict that says so, and the verdicts respect what is set. -/
theorem take_of_subZoneVerdict (h : c.subZoneVerdict key crossSwitch v = .take) :
    v.bkHostId ∉ c.satisfiedHostIds ∧ (0 ≤ c.tolerance → 0 < c.maxPerSubZone →
      (c.getSubZoneCurrentTotal key + 1 : ℤ) ≤ c.maxPerSubZone) := by
  unfold PickerObject.subZoneVerdict at h
  split at h
  · cases h
  · rename_i hfresh
    split at h
    · cases h
    · split at h
      · cases h
      · rename_i hroom
        refine ⟨hfresh, fun htol hmax => le_of_canAllocateToSubZone ?_ hmax⟩
        simpa [htol, hmax] using hroom

theorem take_of_dualVerdict (h : c.dualVerdict key v = .take) :
    v.bkHostId ∉ c.satisfiedHostIds ∧
      (0 < c.maxPerSubZone → (c.getSubZoneCurrentTotal key + 1 : ℤ) ≤ c.maxPerSubZone) ∧
      (0 < c.maxPerRack → (c.getRackCurrentTotal key v.rackId + 1 : ℤ) ≤ c.maxPerRack) := by
  unfold PickerObject.dualVerdict at h
  split at h
  · cases h
  · rename_i hfresh
    split at h
    · cases h
    · split at h
      · cases h
      · exact ⟨hfresh, by omega, by omega⟩

theorem take_of_rackVerdict (h : c.rackVerdict key crossSwitch v = .take) :
    v.bkHostId ∉ c.satisfiedHostIds ∧ (0 ≤ c.tolerance → 0 < c.maxPerRack →
      (c.getRackCurrentTotal key v.rackId + 1 : ℤ) ≤ c.maxPerRack) := by
  unfold PickerObject.rackVerdict at h
  split at h
  · cases h
  · split at h
    · cases h
    · rename_i hfresh
      split at h
      · cases h
      · rename_i hroom
        refine ⟨hfresh, fun htol hmax => le_of_canAllocateToRack ?_ hmax⟩
        simpa [htol, hmax] using hroom

theorem take_of_plainVerdict (h : c.plainVerdict crossSwitch v = .take) :
    v.bkHostId ∉ c.satisfiedHostIds := by
  unfold PickerObject.plainVerdict at h
  split at h
  · cases h
  · split at h
    · cases h
    · assumption

end PickOne

section Effect

variable {rt : Runtime} {c c' : PickerObject} {key : String} {v : InstanceObject}
  {crossSwitch : Bool} {judge : PickerObject → InstanceObject → Verdict}
  {take : PickerObject → InstanceObject → PickerObject} {drained : PickerObject → Bool}
  {rest : List Item}

/-- What a call that picks at most one host of sub-zone `key` does to the rest of the state. -/
structure PickEffect (key : String) (c c' : PickerObject) : Prop where
  limits : c'.limits = c.limits
  mem : ∀ z, z ∈ c'.priorityElements ↔ z ∈ c.priorityElements
  size : c'.priorityElements.size = c.priorityElements.size
  load : c'.priorityElements.load ≤ c.priorityElements.load
  pops : c.queueLen key ≠ 0 → c'.priorityElements.load < c.priorityElements.load
  visited : c'.existSubZone = c.existSubZone ++ [key]
  others : ∀ z ≠ key, c'.pickDistribute z = c.pickDistribute z

theorem queueLen_of_lookup {pq : List Item} (h : c.priorityElements.lookup key = some pq) :
    c.queueLen key = pq.length := by
  simp [PickerObject.queueLen, h]

theorem mem_of_lookup {pq : List Item} (h : c.priorityElements.lookup key = some pq) :
    key ∈ c.priorityElements :=
  AList.lookup_isSome.mp (by simp [h])

/-- Shortening a queue that is there. -/
theorem effect_popTo {pq : List Item} (hq : c.priorityElements.lookup key = some pq)
    (hrest : rest.length ≤ pq.length) (hpops : pq ≠ [] → rest.length < pq.length) :
    PickEffect key c ((c.visit key).popTo key rest) := by
  have hmem := mem_of_lookup hq
  have hload : QueueMap.load (c.priorityElements.insert key rest) + pq.length =
      c.priorityElements.load + rest.length := QueueMap.load_insert hq
  refine ⟨rfl, fun z => ?_, QueueMap.size_insert hmem, ?_, fun hne => ?_, rfl, fun _ _ => rfl⟩
  · refine (AList.mem_insert _).trans ⟨fun h => ?_, .inr⟩
    rcases h with rfl | h
    · exact hmem
    · exact h
  · show QueueMap.load (c.priorityElements.insert key rest) ≤ c.priorityElements.load
    omega
  · rw [queueLen_of_lookup hq] at hne
    have := hpops fun h => hne (by simp [h])
    show QueueMap.load (c.priorityElements.insert key rest) < c.priorityElements.load
    omega

theorem PickEffect.takes (h : PickEffect key c c') {c'' : PickerObject}
    (htakes : Takes key v c' c'') : PickEffect key c c'' where
  limits := htakes.limits.trans h.limits
  mem := by rw [htakes.queues]; exact h.mem
  size := by rw [htakes.queues]; exact h.size
  load := by rw [htakes.queues]; exact h.load
  pops := by rw [htakes.queues]; exact h.pops
  visited := htakes.visited.trans h.visited
  others z hz := by
    rw [htakes.zones, bump, Function.update_of_ne hz]
    exact h.others z hz

/-- The verdicts and the writes of a call that picks one host: it takes only what the limits admit,
and says that it took one only if it did. -/
structure Careful (c : PickerObject) (key : String) (judge : PickerObject → InstanceObject → Verdict)
    (take : PickerObject → InstanceObject → PickerObject) (drained : PickerObject → Bool) :
    Prop where
  fresh : ∀ v, judge (c.visit key) v = .take → v.bkHostId ∉ c.satisfiedHostIds
  subZone : ∀ v, judge (c.visit key) v = .take → 0 ≤ c.tolerance → 0 < c.maxPerSubZone →
    (c.getSubZoneCurrentTotal key + 1 : ℤ) ≤ c.maxPerSubZone
  rack : ∀ v, judge (c.visit key) v = .take → 0 ≤ c.tolerance → 0 < c.maxPerRack →
    (c.getRackCurrentTotal key v.rackId + 1 : ℤ) ≤ c.maxPerRack
  takes : ∀ rest v, Takes key v ((c.visit key).popTo key rest) (take ((c.visit key).popTo key rest) v)
  drained : ∀ c', drained c' = true → c'.priorityElements.size = 0

theorem length_of_perm {pq skipped rest : List Item} {item : Item}
    (h : (skipped ++ item :: rest).Perm pq) : rest.length < pq.length := by
  have := h.length_eq
  simp only [List.length_append, List.length_cons] at this
  omega

theorem Careful.moves (h : Careful c key judge take drained) (hundone : c.pickerDone = false) :
    Moves c (c.pickOne rt key judge take drained).2 := by
  have hvisit : Moves c (c.visit key) := .single .visit
  refine hvisit.trans ?_
  have hpicked := @pickedOne_pickOne rt c key judge take drained
  generalize c.pickOne rt key judge take drained = result at hpicked ⊢
  cases hpicked with
  | missing hq => exact .refl
  | @taken pq skipped rest item hq hperm hskip htake =>
    refine .single (.pick hq ?_ ⟨hundone, h.fresh _ htake, h.subZone _ htake, h.rack _ htake⟩
      (h.takes rest item.value))
    exact (List.sublist_append_right skipped _).subperm.trans hperm.subperm
  | @stopped pq skipped rest item hq hperm hskip hstop =>
    refine .single (.pop hq ?_)
    exact ((List.sublist_cons_self item rest).trans
      (List.sublist_append_right skipped _)).subperm.trans hperm.subperm
  | drained hq hskip => exact .single (.pop hq List.nil_subperm)

theorem Careful.effect (h : Careful c key judge take drained) :
    PickEffect key c (c.pickOne rt key judge take drained).2 := by
  have hpicked := @pickedOne_pickOne rt c key judge take drained
  generalize c.pickOne rt key judge take drained = result at hpicked ⊢
  cases hpicked with
  | missing hq =>
    have hlen : c.queueLen key = 0 := by
      have hq' : c.priorityElements.lookup key = none := hq
      simp [PickerObject.queueLen, hq']
    exact ⟨rfl, fun _ => .rfl, rfl, le_rfl, fun hne => absurd hlen hne, rfl, fun _ _ => rfl⟩
  | @taken pq skipped rest item hq hperm hskip htake =>
    have hlt := length_of_perm hperm
    have hpop : PickEffect key c ((c.visit key).popTo key rest) :=
      effect_popTo hq hlt.le fun _ => hlt
    exact hpop.takes (h.takes rest item.value)
  | @stopped pq skipped rest item hq hperm hskip hstop =>
    have hlt := length_of_perm hperm
    exact effect_popTo hq hlt.le fun _ => hlt
  | drained hq hskip =>
    exact effect_popTo hq (Nat.zero_le _) fun hne => List.length_pos_iff.mpr hne

/-- A call that reports a host has popped one. -/
theorem Careful.queueLen_ne_zero (h : Careful c key judge take drained)
    (hpicked : (c.pickOne rt key judge take drained).1 = true) : c.queueLen key ≠ 0 := by
  have hcases := @pickedOne_pickOne rt c key judge take drained
  generalize c.pickOne rt key judge take drained = result at hcases hpicked
  cases hcases with
  | missing hq => cases hpicked
  | @taken pq skipped rest item hq hperm hskip htake =>
    have hlt := length_of_perm hperm
    have hlen : c.queueLen key = pq.length := queueLen_of_lookup hq
    omega
  | stopped => cases hpicked
  | @drained pq hq hskip =>
    have hmem : key ∈ ((c.visit key).popTo key []).priorityElements :=
      (AList.mem_insert _).mpr (.inl rfl)
    exact absurd hmem (QueueMap.not_mem_of_size_eq_zero (h.drained _ hpicked))

/-- A call that reports none has taken none. -/
theorem pickerDone_of_not_picked
    (hpicked : (c.pickOne rt key judge take drained).1 = false) :
    (c.pickOne rt key judge take drained).2.pickerDone = c.pickerDone := by
  have hcases := @pickedOne_pickOne rt c key judge take drained
  generalize c.pickOne rt key judge take drained = result at hcases hpicked ⊢
  cases hcases with
  | taken => cases hpicked
  | _ => rfl

theorem careful_dual : Careful c key (fun c => c.dualVerdict key)
    (fun c v => ((c.select key v).recordHost key v).recordRack key v) (fun _ => false) where
  fresh _ h := (take_of_dualVerdict h).1
  subZone _ h _ := (take_of_dualVerdict h).2.1
  rack _ h _ := (take_of_dualVerdict h).2.2
  takes _ _ := ⟨rfl, rfl, rfl, rfl, rfl, .inl rfl⟩
  drained := nofun

theorem careful_rack (hzone : c.maxPerSubZone ≤ 0) :
    Careful c key (fun c => c.rackVerdict key crossSwitch)
      (fun c v => (c.select key v).recordRack key v)
      (fun c => c.priorityElements.size = 0) where
  fresh _ h := (take_of_rackVerdict h).1
  subZone _ _ _ hmax := absurd hmax (not_lt.mpr hzone)
  rack _ h := (take_of_rackVerdict h).2
  takes _ _ := ⟨rfl, rfl, rfl, rfl, rfl, .inl rfl⟩
  drained _ := of_decide_eq_true

theorem careful_subZone (hrack : c.maxPerRack ≤ 0) :
    Careful c key (fun c => c.subZoneVerdict key crossSwitch)
      (fun c v => ((c.select key v).recordHost key v).recordRackId key v)
      (fun c => c.priorityElements.size = 0) where
  fresh _ h := (take_of_subZoneVerdict h).1
  subZone _ h := (take_of_subZoneVerdict h).2
  rack _ _ _ hmax := absurd hmax (not_lt.mpr hrack)
  takes _ _ := ⟨rfl, rfl, rfl, rfl, rfl, .inr ⟨hrack, rfl⟩⟩
  drained _ := of_decide_eq_true

theorem careful_plain (hzone : c.maxPerSubZone ≤ 0) (hrack : c.maxPerRack ≤ 0) :
    Careful c key (fun c => c.plainVerdict crossSwitch)
      (fun c v => (c.select key v).recordHost key v)
      (fun c => c.priorityElements.size = 0) where
  fresh _ h := take_of_plainVerdict h
  subZone _ _ _ hmax := absurd hmax (not_lt.mpr hzone)
  rack _ _ _ hmax := absurd hmax (not_lt.mpr hrack)
  takes _ _ := ⟨rfl, rfl, rfl, rfl, rfl, .inr ⟨hrack, rfl⟩⟩
  drained _ := of_decide_eq_true

/-- Whichever call the limits select, it is a careful one. -/
theorem exists_careful : ∃ judge take drained, Careful c key judge take drained ∧
    c.pickerOneByPriority rt key crossSwitch = c.pickOne rt key judge take drained := by
  unfold PickerObject.pickerOneByPriority
  split
  · exact ⟨_, _, _, careful_dual, rfl⟩
  · split
    · exact ⟨_, _, _, careful_rack (by omega), rfl⟩
    · split
      · exact ⟨_, _, _, careful_subZone (by omega), rfl⟩
      · exact ⟨_, _, _, careful_plain (by omega) (by omega), rfl⟩

theorem moves_pickerOneByPriority (h : c.pickerDone = false) :
    Moves c (c.pickerOneByPriority rt key crossSwitch).2 := by
  obtain ⟨_, _, _, hcareful, heq⟩ := @exists_careful rt c key crossSwitch
  rw [heq]
  exact hcareful.moves h

theorem effect_pickerOneByPriority :
    PickEffect key c (c.pickerOneByPriority rt key crossSwitch).2 := by
  obtain ⟨_, _, _, hcareful, heq⟩ := @exists_careful rt c key crossSwitch
  rw [heq]
  exact hcareful.effect

theorem undone_of_not_picked (h : (c.pickerOneByPriority rt key crossSwitch).1 = false) :
    (c.pickerOneByPriority rt key crossSwitch).2.pickerDone = c.pickerDone := by
  obtain ⟨_, _, _, -, heq⟩ := @exists_careful rt c key crossSwitch
  rw [heq] at h ⊢
  exact pickerDone_of_not_picked h

theorem queueLen_ne_zero_of_picked (h : (c.pickerOneByPriority rt key crossSwitch).1 = true) :
    c.queueLen key ≠ 0 := by
  obtain ⟨_, _, _, hcareful, heq⟩ := @exists_careful rt c key crossSwitch
  rw [heq] at h
  exact hcareful.queueLen_ne_zero h

end Effect

section Measure

variable {c c' : PickerObject}

theorem Move.limits (h : Move c c') : c'.limits = c.limits := by
  cases h with
  | pick _ _ _ htakes => exact htakes.limits
  | _ => rfl

/-- Hosts only leave the queues. -/
theorem Move.load_le (h : Move c c') : c'.priorityElements.load ≤ c.priorityElements.load := by
  have hpop : ∀ {key : String} {pq rest : List Item},
      c.priorityElements.lookup key = some pq → rest.Subperm pq →
      (c.popTo key rest).priorityElements.load ≤ c.priorityElements.load := by
    intro key pq rest hq hrest
    have hload : QueueMap.load (c.priorityElements.insert key rest) + pq.length =
      c.priorityElements.load + rest.length := QueueMap.load_insert hq
    have := hrest.length_le
    show QueueMap.load (c.priorityElements.insert key rest) ≤ c.priorityElements.load
    omega
  cases h with
  | drop => exact QueueMap.load_erase_le
  | pop hq hrest => exact hpop hq hrest
  | pick hq hrest hadmits htakes =>
    rw [htakes.queues]
    exact hpop hq ((List.sublist_cons_self _ _).subperm.trans hrest)
  | _ => exact le_rfl

/-- Sub-zones only leave the map. -/
theorem Move.size_le (h : Move c c') : c'.priorityElements.size ≤ c.priorityElements.size := by
  have hpop : ∀ {key : String} {pq rest : List Item},
      c.priorityElements.lookup key = some pq →
      (c.popTo key rest).priorityElements.size ≤ c.priorityElements.size :=
    fun hq => (QueueMap.size_insert (mem_of_lookup hq)).le
  cases h with
  | drop => exact QueueMap.size_erase_le
  | pop hq => exact hpop hq
  | pick hq _ _ htakes =>
    rw [htakes.queues]
    exact hpop hq
  | _ => exact le_rfl

theorem Moves.limits (h : Moves c c') : c'.limits = c.limits :=
  h.invariant (P := fun a => a.limits = c.limits) rfl fun hm ha => hm.limits.trans ha

theorem Moves.load_le (h : Moves c c') : c'.priorityElements.load ≤ c.priorityElements.load :=
  h.invariant (P := fun a => a.priorityElements.load ≤ c.priorityElements.load) le_rfl
    fun hm ha => hm.load_le.trans ha

theorem Moves.size_le (h : Moves c c') : c'.priorityElements.size ≤ c.priorityElements.size :=
  h.invariant (P := fun a => a.priorityElements.size ≤ c.priorityElements.size) le_rfl
    fun hm ha => hm.size_le.trans ha

theorem Moves.count (h : Moves c c') : c'.count = c.count := congrArg Limits.count h.limits

theorem moves_drop {z : String} : Moves c (c.drop z) := .single .drop

theorem moves_draw {n : ℕ} : Moves c { c with draws := n } := .single .draw

end Measure

end Resource
