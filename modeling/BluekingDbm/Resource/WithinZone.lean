import BluekingDbm.Resource.Moves

/-! The pickers that work through one sub-zone at a time end, and do nothing but move. Each turn of
their loops pops a host. -/
namespace Resource

open Loop PickerObject

variable {rt : Runtime} {fuel : ℕ} {c c' : PickerObject} {key : String} {crossSwitch : Bool}

/-- The measure of the loops that pop a host in every turn. -/
def PickerObject.load (c : PickerObject) : ℕ := c.priorityElements.load

section Drain

theorem drain_returns (hundone : c.pickerDone = false) (hfuel : c.load < fuel) :
    (c.drain rt fuel crossSwitch key).Returns (Moves c) := by
  refine iterate_returns (fun a => Moves c a ∧ a.pickerDone = false) PickerObject.load ?_
    ⟨.refl, hundone⟩ hfuel
  rintro a ⟨hmoves, ha⟩
  have hpick : Moves a (a.pickerOneByPriority rt key crossSwitch).2 := moves_pickerOneByPriority ha
  by_cases hlen : a.queueLen key = 0
  · exact ⟨_, if_pos hlen, hmoves⟩
  · have hpops := (@effect_pickerOneByPriority rt a key crossSwitch).pops hlen
    simp only [hlen, if_false]
    split
    · exact ⟨_, rfl, hmoves.trans hpick⟩
    · rename_i hd
      exact ⟨_, rfl, ⟨hmoves.trans hpick, Bool.eq_false_iff.mpr hd⟩, hpops⟩

theorem pickerRandom_returns (hundone : c.pickerDone = false) (hfuel : c.load < fuel) :
    (c.pickerRandom rt fuel).Returns (Moves c) := by
  unfold PickerObject.pickerRandom
  split
  · exact drain_returns hundone hfuel
  · exact ⟨c, rfl, .refl⟩

end Drain

section EachSubZone

variable {pick : String → PickerObject → Outcome PickerObject} {zones : List String}

theorem pickerDone_restart (hcount : 0 < c.count) : c.restart.pickerDone = false :=
  decide_eq_false hcount.ne

/-- Every sub-zone is started afresh, so each start finds hosts wanted. -/
theorem eachSubZone_returns
    (hpick : ∀ z a, a.limits = c.limits → a.pickerDone = false → a.load < fuel →
      (pick z a).Returns (Moves a))
    (hcount : 0 < c.count) (hfuel : c.load < fuel) : (eachSubZone pick zones c).Returns (Moves c) := by
  induction zones generalizing c with
  | nil => exact ⟨c, rfl, .refl⟩
  | cons z zones ih =>
    unfold eachSubZone
    split
    · exact ih hpick hcount hfuel
    · have hrestart : Moves c c.restart := .single .restart
      refine (hpick z c.restart rfl (pickerDone_restart hcount) hfuel).bind fun a ha => ?_
      have hmoves := hrestart.trans ha
      split
      · exact ⟨a, rfl, hmoves⟩
      · have hload : a.load ≤ c.load := hmoves.load_le
        have hpick' : ∀ z b, b.limits = a.limits → b.pickerDone = false → b.load < fuel →
            (pick z b).Returns (Moves b) := by
          intro z b hb
          exact hpick z b (hb.trans hmoves.limits)
        refine (ih hpick' (by rw [hmoves.count]; exact hcount) (by omega)).mono fun b hb => ?_
        exact hmoves.trans hb

end EachSubZone

section Rack

variable {rackId : String}

/-- Taking a host out of a list by what it satisfies. -/
theorem find_eraseP_perm {l : List Item} {p : Item → Bool} {item : Item}
    (h : l.find? p = some item) : (item :: l.eraseP p).Perm l := by
  obtain ⟨hp, before, after, rfl, hbefore⟩ := List.find?_eq_some_iff_append.mp h
  have herase : (before ++ item :: after).eraseP p = before ++ after := by
    rw [List.eraseP_append_right _ fun b hb => by simpa using hbefore b hb,
      List.eraseP_cons_of_pos hp]
  rw [herase]
  exact List.perm_middle.symm

/-- What `pickerOneFromRack` does in a sub-zone without a limit, for a rack with room. -/
structure RackPick (c : PickerObject) (result : Bool × PickerObject) : Prop where
  moves : Moves c result.2
  pops : result.1 = true → result.2.load < c.load
  undone : result.1 = false → result.2.pickerDone = c.pickerDone

theorem rackPick_pickerOneFromRack (hundone : c.pickerDone = false) (hzone : c.maxPerSubZone ≤ 0)
    (hroom : c.canAllocateToRack key rackId = true) :
    RackPick c (c.pickerOneFromRack rt key rackId) := by
  unfold PickerObject.pickerOneFromRack
  split
  · exact ⟨.refl, nofun, fun _ => rfl⟩
  · rename_i pq hq
    have hperm : (c.popOrder rt pq).Perm pq := popOrder_perm
    simp only
    split
    · exact ⟨.single (.pop hq hperm.subperm), nofun, fun _ => rfl⟩
    · rename_i item hfind
      have hitem := List.find?_some hfind
      simp only [Bool.and_eq_true, decide_eq_true_eq] at hitem
      have hrest := (find_eraseP_perm hfind).trans hperm
      have hlen := hrest.length_eq
      have hload := @QueueMap.load_insert _ _ c.priorityElements key pq
        ((c.popOrder rt pq).eraseP fun item => item.value.rackId = rackId &&
          item.value.bkHostId ∉ c.satisfiedHostIds) _ hq
      refine ⟨.single (.pick hq hrest.subperm ⟨hundone, hitem.2, fun _ hmax => ?_, fun _ hmax => ?_⟩
        ⟨rfl, rfl, rfl, rfl, rfl, .inl rfl⟩), fun _ => ?_, nofun⟩
      · omega
      · have hrack : c.canAllocateToRack key item.value.rackId = true := by rw [hitem.1, hroom]
        exact le_of_canAllocateToRack hrack hmax
      · simp only [List.length_cons] at hlen
        show QueueMap.load (c.priorityElements.insert key _) < c.priorityElements.load
        omega

theorem rackPick_pickerOneFromRacks {racks : List String} (hundone : c.pickerDone = false)
    (hzone : c.maxPerSubZone ≤ 0) : RackPick c (pickerOneFromRacks rt key racks c) := by
  induction racks generalizing c with
  | nil => exact ⟨.refl, nofun, fun _ => rfl⟩
  | cons rackId racks ih =>
    unfold pickerOneFromRacks
    split
    · rename_i hroom
      have hone := @rackPick_pickerOneFromRack rt c key rackId hundone hzone hroom
      generalize c.pickerOneFromRack rt key rackId = result at hone ⊢
      obtain ⟨picked, a⟩ := result
      cases picked with
      | true => exact hone
      | false =>
        have hlimits : a.maxPerSubZone = c.maxPerSubZone :=
          congrArg Limits.maxPerSubZone hone.moves.limits
        have hload : a.load ≤ c.load := hone.moves.load_le
        have hrest := ih ((hone.undone rfl).trans hundone) (hlimits ▸ hzone)
        refine ⟨hone.moves.trans hrest.moves, fun h => ?_, fun h => ?_⟩
        · exact (hrest.pops h).trans_le hload
        · exact (hrest.undone h).trans (hone.undone rfl)
    · exact ih hundone hzone

theorem pickerSameSubZoneRackBalanced_returns (hzone : c.maxPerSubZone ≤ 0)
    (hfuel : c.load < fuel) :
    (c.pickerSameSubZoneRackBalanced rt fuel key).Returns (Moves c) := by
  refine iterate_returns (fun a => Moves c a ∧ a.maxPerSubZone ≤ 0) PickerObject.load ?_
    ⟨.refl, hzone⟩ hfuel
  rintro a ⟨hmoves, hmax⟩
  cases hd : a.pickerDone with
  | true => exact ⟨_, if_pos rfl, hmoves⟩
  | false =>
    have hdraw : Moves c (a.sortRackByBalance rt key).2 := hmoves.trans moves_draw
    simp only [if_false, Bool.false_eq_true]
    split
    · exact ⟨_, rfl, hdraw⟩
    · have hone := @rackPick_pickerOneFromRacks rt (a.sortRackByBalance rt key).2 key
        (a.sortRackByBalance rt key).1 hd hmax
      generalize pickerOneFromRacks rt key _ _ = result at hone ⊢
      obtain ⟨picked, b⟩ := result
      have hb := hdraw.trans hone.moves
      cases picked with
      | false => exact ⟨_, rfl, hb⟩
      | true =>
        have hlimits : b.maxPerSubZone = a.maxPerSubZone :=
          congrArg Limits.maxPerSubZone hone.moves.limits
        have hpops : b.load < a.load := hone.pops rfl
        simp only
        split
        · exact ⟨_, rfl, hb⟩
        · exact ⟨_, rfl, ⟨hb, hlimits ▸ hmax⟩, hpops⟩

end Rack

/-- No sub-zone limit is set for the affinities that use this picker. -/
theorem pickerSameSubZone_returns (hcount : 0 < c.count) (hzone : c.maxPerSubZone ≤ 0)
    (hfuel : c.load < fuel) : (c.pickerSameSubZone rt fuel crossSwitch).Returns (Moves c) := by
  have hdraw : Moves c (c.sortSubZoneNum rt false).2 := moves_draw
  unfold PickerObject.pickerSameSubZone
  split
  · refine Outcome.Returns.mono (eachSubZone_returns (fun z a ha _ hf => ?_) hcount hfuel)
      fun a ha => hdraw.trans ha
    have hlimits : a.maxPerSubZone = c.maxPerSubZone := congrArg Limits.maxPerSubZone ha
    exact pickerSameSubZoneRackBalanced_returns (hlimits ▸ hzone) hf
  · exact Outcome.Returns.mono
      (eachSubZone_returns (fun z a _ hd hf => drain_returns hd hf) hcount hfuel)
      fun a ha => hdraw.trans ha

section BigPool

variable {s : Bool × PickerObject}

theorem moves_dual (hundone : c.pickerDone = false) :
    Moves c (c.pickerOneByPriorityWithDualTolerance rt key).2 := careful_dual.moves hundone

theorem effect_dual : PickEffect key c (c.pickerOneByPriorityWithDualTolerance rt key).2 :=
  careful_dual.effect

theorem queueLen_ne_zero_of_dual (h : (c.pickerOneByPriorityWithDualTolerance rt key).1 = true) :
    c.queueLen key ≠ 0 := careful_dual.queueLen_ne_zero h

/-- What emptying big sub-zones does: the flag is raised only when hosts were popped. -/
structure PoolMoves (s t : Bool × PickerObject) : Prop where
  moves : Moves s.2 t.2
  pops : t.1 = true → s.1 = true ∨ t.2.load < s.2.load

theorem PoolMoves.trans {t u : Bool × PickerObject} (hst : PoolMoves s t) (htu : PoolMoves t u) :
    PoolMoves s u where
  moves := hst.moves.trans htu.moves
  pops hu := by
    have htu_le : u.2.load ≤ t.2.load := htu.moves.load_le
    have hst_le : t.2.load ≤ s.2.load := hst.moves.load_le
    rcases htu.pops hu with ht | hlt
    · rcases hst.pops ht with hs | hlt
      · exact .inl hs
      · exact .inr (by omega)
    · exact .inr (by omega)

theorem takeFromSubzone_returns (hfuel : s.2.load < fuel) :
    (takeFromSubzone rt fuel key s).Returns (PoolMoves s) := by
  refine iterate_returns (PoolMoves s) (fun a => a.2.load) ?_ ⟨.refl, .inl⟩ hfuel
  rintro ⟨allocated, a⟩ hs
  simp only
  split
  · rename_i htake
    obtain ⟨hcan, hd⟩ := Bool.and_eq_true_iff.mp htake
    have hundone : a.pickerDone = false := by simpa using hd
    have hmoves := @moves_dual rt a key hundone
    have hpops : (a.pickerOneByPriorityWithDualTolerance rt key).1 = true →
        (a.pickerOneByPriorityWithDualTolerance rt key).2.load < a.load :=
      fun h => effect_dual.pops (queueLen_ne_zero_of_dual h)
    generalize a.pickerOneByPriorityWithDualTolerance rt key = result at hmoves hpops ⊢
    obtain ⟨picked, b⟩ := result
    cases picked with
    | true => exact ⟨_, rfl, hs.trans ⟨hmoves, fun _ => .inr (hpops rfl)⟩, hpops rfl⟩
    | false => exact ⟨_, rfl, hs.trans ⟨hmoves, .inl⟩⟩
  · exact ⟨_, rfl, hs⟩

theorem takeFromSubzones_returns {zones : List String} (hfuel : s.2.load < fuel) :
    (takeFromSubzones rt fuel zones s).Returns (PoolMoves s) := by
  induction zones generalizing s with
  | nil => exact ⟨s, rfl, .refl, .inl⟩
  | cons z zones ih =>
    refine (takeFromSubzone_returns hfuel).bind fun a ha => ?_
    obtain ⟨allocated, a⟩ := a
    have hdrop : PoolMoves s (allocated, if a.canStillTakeFromSubzone z then a else a.drop z) := by
      split
      · exact ha
      · exact ha.trans ⟨moves_drop, .inl⟩
    simp only
    generalize (if a.canStillTakeFromSubzone z then a else a.drop z) = b at hdrop ⊢
    split
    · exact ⟨_, rfl, hdrop⟩
    · have hload : b.load ≤ s.2.load := hdrop.moves.load_le
      exact (ih (by simpa using hload.trans_lt hfuel)).mono fun t ht => hdrop.trans ht

theorem pickerCrossSubzoneBigPoolFirst_returns (hfuel : c.load < fuel) :
    (c.pickerCrossSubzoneBigPoolFirst rt fuel).Returns (Moves c) := by
  refine iterate_returns (fun a => Moves c a ∧ a.load < fuel) PickerObject.load ?_
    ⟨.refl, hfuel⟩ hfuel
  rintro a ⟨hmoves, hload⟩
  have hdraw : Moves c (a.sortSubzonesByRemainingInventoryDesc rt).2 := hmoves.trans moves_draw
  simp only
  split
  · exact ⟨_, rfl, hmoves⟩
  · split
    · exact ⟨_, rfl, hdraw⟩
    · refine (takeFromSubzones_returns hload).bind fun t ht => ?_
      obtain ⟨allocated, b⟩ := t
      have hb := hdraw.trans ht.moves
      simp only
      split
      · exact ⟨_, rfl, hb⟩
      · rename_i hagain
        have hpicked : b.pickerDone = false ∧ allocated = true := by simpa using hagain
        have hlt : b.load < a.load := (ht.pops hpicked.2).resolve_left nofun
        exact ⟨_, rfl, ⟨hb, by omega⟩, hlt⟩

end BigPool

end Resource
