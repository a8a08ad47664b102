import BluekingDbm.Resource.RoundRobin

/-! A request from the picker as it is set up to the result. Whatever the affinity, the pool is analysed
and then the picker moves. Every affinity but the strong cross-zone one returns. -/
namespace Resource

open Loop PickerObject Binary64

variable {o : SearchContext} {insList : List TbRpDetail} {rt : Runtime} {fuel : ℕ}
  {c c' : PickerObject}

/-- Whether the pool is put in one queue. -/
def Affinity.israndom : Affinity → Bool
  | .none | .crossRack => true
  | _ => false

/-- The picker of a request before the pool is analysed. -/
def SearchContext.configured (o : SearchContext) : PickerObject :=
  let picker := { newPicker o.count with affinity := o.affinity }
  match o.affinity with
  | .none | .maxEachZoneEqual => picker
  | .crosSubzone | .majorityElectionDistri =>
    picker.initToleranceConfig o.tolerance o.currentHosts o.count
  | .sameSubzone | .sameSubzoneCrossSwtich =>
    picker.initRackToleranceConfig o.tolerance o.currentHosts o.count
  | .crossRack =>
    (picker.initRackToleranceConfig o.tolerance o.currentHosts o.count).initRackForCrossRack
      o.currentHosts
  | .crossSubzoneStrong =>
    picker.initDualToleranceConfig o.currentHosts o.count (rounded (1 / 3)) (1 / 2)
  | .crossSubzoneWeak => picker.initDualToleranceConfig o.currentHosts o.count (1 / 2) (1 / 2)

inductive Stage (o : SearchContext) (insList : List TbRpDetail) : PickerObject → PickerObject → Prop
  | analyse {c : PickerObject} : Stage o insList c (o.analyse insList o.affinity.israndom c).2
  | move {c c' : PickerObject} (h : Move c c') : Stage o insList c c'

/-- Any number of stages. -/
def Reaches (o : SearchContext) (insList : List TbRpDetail) : PickerObject → PickerObject → Prop :=
  Relation.ReflTransGen (Stage o insList)

theorem Reaches.invariant {P : PickerObject → Prop} (h : Reaches o insList c c') (hc : P c)
    (hstage : ∀ {a b}, Stage o insList a b → P a → P b) : P c' := by
  induction h with
  | refl => exact hc
  | tail _ hs ih => exact hstage hs ih

theorem Moves.reaches (h : Moves c c') : Reaches o insList c c' :=
  Relation.ReflTransGen.mono (fun _ _ hm => Stage.move hm) _ _ h

theorem reaches_analyse {israndom : Bool} (h : o.affinity.israndom = israndom) :
    Reaches o insList c (o.analyse insList israndom c).2 := by
  subst h
  exact Relation.ReflTransGen.single .analyse

theorem Reaches.trans {c'' : PickerObject} (h : Reaches o insList c c')
    (h' : Reaches o insList c' c'') : Reaches o insList c c'' := Relation.ReflTransGen.trans h h'

section Analysis

variable {israndom : Bool} (pick : PickerObject → Outcome PickerObject)

/-- The analysis only writes the queues and the sums of priorities. -/
theorem SearchContext.analyse_snd : ∃ priorityElements subZonePrioritySumMap,
    (o.analyse insList israndom c).2 = { c with priorityElements, subZonePrioritySumMap } := by
  rcases @SearchContext.analyse_cases o insList israndom c with ⟨-, h⟩ | ⟨-, h⟩
  · exact ⟨_, _, congrArg Prod.snd h⟩
  · exact ⟨_, _, congrArg Prod.snd h⟩

/-- A picker that is run on the analysed pool whatever the error. -/
theorem analyse_then_returns (haffinity : o.affinity.israndom = israndom)
    (hpick : ∀ priorityElements subZonePrioritySumMap,
      Analysed o insList israndom { c with priorityElements, subZonePrioritySumMap } →
      (pick { c with priorityElements, subZonePrioritySumMap }).Returns
        (Moves { c with priorityElements, subZonePrioritySumMap })) :
    ((pick (o.analyse insList israndom c).2).bind fun picker =>
      .returned ((o.analyse insList israndom c).1, picker)).Returns
      fun r => Reaches o insList c r.2 := by
  have hanalysed := @analysed_analyse o insList israndom c
  have hreaches : Reaches o insList c _ := reaches_analyse haffinity
  obtain ⟨p, s, hsnd⟩ := @SearchContext.analyse_snd o insList c israndom
  rw [hsnd] at hanalysed hreaches ⊢
  exact (hpick p s hanalysed).bind fun a ha => ⟨_, rfl, hreaches.trans ha.reaches⟩

/-- A picker that is only run where the analysis has succeeded. -/
theorem analyse_or_returns (haffinity : o.affinity.israndom = israndom)
    (hpick : ∀ priorityElements subZonePrioritySumMap,
      Analysed o insList israndom { c with priorityElements, subZonePrioritySumMap } →
      (pick { c with priorityElements, subZonePrioritySumMap }).Returns
        (Moves { c with priorityElements, subZonePrioritySumMap })) :
    Outcome.Returns (match o.analyse insList israndom c with
      | (some err, picker) => .returned (some err, picker)
      | (none, picker) => (pick picker).bind fun picker => .returned (none, picker))
      fun r => Reaches o insList c r.2 := by
  have hreaches : Reaches o insList c _ := reaches_analyse haffinity
  have hthen := analyse_then_returns pick haffinity hpick
  generalize o.analyse insList israndom c = r at hreaches hthen ⊢
  obtain ⟨err, a⟩ := r
  cases err with
  | some err => exact ⟨_, rfl, hreaches⟩
  | none => exact hthen

theorem maxEachZonePasses_returns {passes : List (Bool × Bool)}
    (haffinity : o.affinity.israndom = false) (htol : c.tolerance < 0)
    (hundone : c.pickerDone = false) (hfuel : 3 * insList.length < fuel) :
    (o.maxEachZonePasses insList rt fuel passes c).Returns fun r => Reaches o insList c r.2 := by
  induction passes generalizing c with
  | nil => exact ⟨_, rfl, .refl⟩
  | cons pass passes ih =>
    obtain ⟨crossSubzone, crossSwitch⟩ := pass
    have hanalysed := @analysed_analyse o insList false c
    have hreaches : Reaches o insList c _ := reaches_analyse haffinity
    obtain ⟨p, s, hsnd⟩ := @SearchContext.analyse_snd o insList c false
    unfold SearchContext.maxEachZonePasses
    generalize o.analyse insList false c = r at hanalysed hreaches hsnd ⊢
    obtain ⟨err, a⟩ := r
    simp only at hanalysed hreaches hsnd ⊢
    cases err with
    | some err => exact ⟨_, rfl, hreaches⟩
    | none =>
      have htol' : a.tolerance < 0 := by rw [hsnd]; exact htol
      have hundone' : a.pickerDone = false := by rw [hsnd]; exact hundone
      have hpick : (a.pickerCrossSubzone rt fuel crossSubzone crossSwitch).Returns (Moves a) := by
        cases crossSubzone with
        | true =>
          exact pickerCrossSubzone_once_returns hundone' hanalysed.unvisited hanalysed.within (by omega)
        | false =>
          exact pickerCrossSubzone_sendBack_returns htol' hundone' hanalysed.stocked hanalysed.within
            hfuel
      refine hpick.bind fun b hb => ?_
      have hall := hreaches.trans hb.reaches
      split
      · exact ⟨_, rfl, hall⟩
      · rename_i hdone
        have htol'' : b.tolerance < 0 := by
          rw [show b.tolerance = a.tolerance from congrArg Limits.tolerance hb.limits]
          exact htol'
        exact (ih htol'' (Bool.eq_false_iff.mpr hdone)).mono fun r hr => hall.trans hr

end Analysis

theorem maxTolerated_pos {total : ℤ} {tolerance : ℚ} (htotal : 0 < total) (htol : 0 ≤ tolerance) :
    0 < maxTolerated total tolerance := by
  unfold maxTolerated
  split
  · exact Int.one_pos
  · rename_i hne
    have hpos : 0 < tolerance := lt_of_le_of_ne htol (Ne.symm hne)
    have htotal' : (0 : ℚ) < total := by exact_mod_cast htotal
    exact Int.ceil_pos.mpr (rounded_pos (mul_pos htotal' hpos))

/-- `PickInstanceBase` without designated hosts, for every affinity but one. -/
theorem pickInstanceBase_returns (hspecial : o.specialHostIds = []) (hcount : 0 < o.count)
    (haffinity : o.affinity ≠ .crossSubzoneStrong) (hfuel : 3 * insList.length < fuel) :
    (o.pickInstanceBase insList rt fuel (newPicker o.count)).Returns
      fun r => Reaches o insList o.configured r.2 := by
  have hundone : decide (([] : List ℤ).length = o.count) = false := decide_eq_false hcount.ne
  have hload : ∀ {israndom a}, Analysed o insList israndom a → a.load < fuel := fun h =>
    lt_of_le_of_lt h.within.load (by omega)
  have hrandom : ∀ {a}, o.affinity = a → o.affinity.israndom = a.israndom := fun h => by rw [h]
  unfold SearchContext.pickInstanceBase
  rw [if_pos (by simp [hspecial])]
  simp only
  cases ha : o.affinity with
  | none =>
    simp only [SearchContext.configured, ha]
    refine analyse_then_returns (fun c => c.pickerRandom rt fuel) (hrandom ha)
      fun p s h => ?_
    exact pickerRandom_returns hundone (hload h)
  | crosSubzone =>
    simp only [SearchContext.configured, ha]
    refine analyse_then_returns (fun c => c.pickerCrossSubzone rt fuel true false) (hrandom ha)
      fun p s h => ?_
    exact pickerCrossSubzone_once_returns hundone h.unvisited h.within (by omega)
  | maxEachZoneEqual =>
    simp only [SearchContext.configured, ha]
    exact maxEachZonePasses_returns (hrandom ha) (show (-1 : ℚ) < 0 by norm_num) hundone hfuel
  | sameSubzone =>
    simp only [SearchContext.configured, ha]
    refine analyse_then_returns (fun c => c.pickerSameSubZone rt fuel false) (hrandom ha)
      fun p s h => ?_
    exact pickerSameSubZone_returns hcount (le_refl (0 : ℤ)) (hload h)
  | sameSubzoneCrossSwtich =>
    simp only [SearchContext.configured, ha]
    refine analyse_then_returns (fun c => c.pickerSameSubZone rt fuel true) (hrandom ha)
      fun p s h => ?_
    exact pickerSameSubZone_returns hcount (le_refl (0 : ℤ)) (hload h)
  | crossRack =>
    simp only [SearchContext.configured, ha]
    refine analyse_then_returns (fun c => c.pickerSameSubZone rt fuel true) (hrandom ha)
      fun p s h => ?_
    exact pickerSameSubZone_returns hcount (le_refl (0 : ℤ)) (hload h)
  | majorityElectionDistri =>
    simp only [SearchContext.configured, ha]
    refine analyse_then_returns (fun c => c.pickerMajorityElectionCrossSubzone rt fuel) (hrandom ha)
      fun p s h => ?_
    exact pickerMajorityElectionCrossSubzone_returns hundone rfl h.stocked h.within hfuel
  | crossSubzoneStrong => exact absurd ha haffinity
  | crossSubzoneWeak =>
    simp only [SearchContext.configured, ha]
    refine analyse_or_returns (fun c => c.pickerCrossSubzoneWithRackTolerance rt fuel) (hrandom ha)
      fun p s h => ?_
    exact pickerCrossSubzoneBigPoolFirst_returns (hload h)

section Strong

theorem configured_strong (haffinity : o.affinity = .crossSubzoneStrong) : o.configured =
    { newPicker o.count with affinity := .crossSubzoneStrong }.initDualToleranceConfig
      o.currentHosts o.count (rounded (1 / 3)) (1 / 2) := by
  simp only [SearchContext.configured, haffinity]

/-- The limits of a strong cross-zone request are set, and nothing is picked yet. -/
structure Fresh (c : PickerObject) : Prop where
  undone : c.pickerDone = false
  satisfied : c.satisfiedHostIds = []
  picks : ∀ z, c.pickDistribute z = 0
  racks : ∀ k, c.rackDistribute k = 0
  tolerance : 0 < c.tolerance
  zoneLimit : 0 < c.maxPerSubZone
  rackLimit : 0 < c.maxPerRack

theorem fresh_configured (haffinity : o.affinity = .crossSubzoneStrong) (hcount : 0 < o.count) :
    Fresh o.configured := by
  have hthird : (0 : ℚ) < rounded (1 / 3) := rounded_pos (by norm_num)
  have hzone : 0 < maxTolerated (o.currentHosts.length + o.count) (rounded (1 / 3)) :=
    maxTolerated_pos (by omega) hthird.le
  rw [configured_strong haffinity]
  exact ⟨decide_eq_false hcount.ne, rfl, fun _ => rfl, fun _ => rfl, hthird, hzone,
    maxTolerated_pos hzone (by norm_num)⟩

theorem Fresh.booked {p : QueueMap String Item} {s : AList fun _ : String => ℤ} (h : Fresh c)
    (hsourced : Sourced insList false { c with priorityElements := p, subZonePrioritySumMap := s })
    (hwaiting : ∀ host ∈ insList,
      Waiting { c with priorityElements := p, subZonePrioritySumMap := s } host) :
    Booked insList { c with priorityElements := p, subZonePrioritySumMap := s } := by
  refine ⟨hsourced, h.rackLimit, ⟨[], nofun, Tally.frame ⟨h.satisfied, ?_, Nat.zero_le _, ?_, ?_,
    nofun, nofun⟩⟩, fun host hhost => .inr (hwaiting host hhost)⟩
  · rw [h.satisfied]
    exact List.nodup_nil
  · exact h.picks
  · exact fun _ => h.racks

/-- A strong cross-zone request either fails to fill the queues, or ends as its picker ends. -/
theorem pickInstanceBase_strong (hspecial : o.specialHostIds = []) (hcount : 0 < o.count)
    (haffinity : o.affinity = .crossSubzoneStrong) (hfuel : 3 * insList.length < fuel) :
    (∃ r, o.pickInstanceBase insList rt fuel (newPicker o.count) = .returned r ∧
      o.pushFails insList false = true ∧ Reaches o insList o.configured r.2) ∨
    ∃ picked, o.pickInstanceBase insList rt fuel (newPicker o.count) =
        picked.bind (fun picker => .returned (none, picker)) ∧
      o.pushFails insList false = false ∧
      RotationEnd insList (o.analyse insList false o.configured).2 picked := by
  have hreaches : Reaches o insList o.configured (o.analyse insList false o.configured).2 :=
    reaches_analyse (by rw [haffinity]; rfl)
  have hanalysed := @analysed_analyse o insList false o.configured
  have hfresh := fresh_configured haffinity hcount
  have hweak : o.configured.affinity ≠ .crossSubzoneWeak := by
    rw [configured_strong haffinity]
    nofun
  unfold SearchContext.pickInstanceBase
  rw [if_pos (by simp [hspecial])]
  simp only [haffinity]
  rw [← configured_strong haffinity]
  rcases @SearchContext.analyse_cases o insList false o.configured with ⟨hfails, h⟩ | ⟨hfails, h⟩
  · rw [h] at hreaches ⊢
    exact .inl ⟨_, rfl, hfails, hreaches⟩
  · rw [h] at hanalysed ⊢
    refine .inr ⟨_, rfl, hfails, ?_⟩
    have hwaiting : ∀ host ∈ insList, ∃ q,
        (o.queues insList false).lookup host.subZone = some q ∧ o.element insList false host ∈ q :=
      fun host hhost => @SearchContext.mem_queue o insList false host hhost
    unfold PickerObject.pickerCrossSubzoneWithRackTolerance
    rw [if_neg (by exact hweak)]
    refine pickerCrossSubzoneRoundRobin_ends (hfresh.booked hanalysed.sourced fun host hhost => ?_)
      hfresh.undone hfresh.picks hfresh.tolerance hfresh.zoneLimit hanalysed.stocked
      (fun host hhost => ?_) hanalysed.within hfuel
    · obtain ⟨q, hq, hmem⟩ := hwaiting host hhost
      exact ⟨q, hq, _, hmem, rfl⟩
    · obtain ⟨q, hq, -⟩ := hwaiting host hhost
      exact mem_of_lookup (c := { o.configured with priorityElements := o.queues insList false }) hq

end Strong

end Resource
