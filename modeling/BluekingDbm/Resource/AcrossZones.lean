import BluekingDbm.Resource.WithinZone

/-! The pickers that go round the sub-zones: the rounds of the balanced order and the loops over a
channel of sub-zones. A loop over a channel ends if no sub-zone outside the channel is left over. -/
namespace Resource

open Loop PickerObject

variable {rt : Runtime} {fuel : ℕ} {c c' : PickerObject} {z : String} {chan : List String}
  {crossSubzone crossSwitch passDrained sendBack : Bool}
  {pick : String → PickerObject → Bool × PickerObject} {retired : String → PickerObject → Bool}

/-- Hosts and sub-zones left. -/
def PickerObject.weight (c : PickerObject) : ℕ := c.load + c.priorityElements.size

section Turn

/-- What the loops rely on in the call that picks one host. -/
structure PickRule (pick : String → PickerObject → Bool × PickerObject) : Prop where
  moves : ∀ z c, c.pickerDone = false → Moves c (pick z c).2
  effect : ∀ z c, PickEffect z c (pick z c).2
  pops : ∀ z c, (pick z c).1 = true → c.queueLen z ≠ 0

theorem pickRule_byPriority : PickRule fun z c => c.pickerOneByPriority rt z crossSwitch where
  moves _ _ := moves_pickerOneByPriority
  effect _ _ := effect_pickerOneByPriority
  pops _ _ := queueLen_ne_zero_of_picked

theorem pickRule_dual : PickRule fun z c => c.pickerOneByPriorityWithDualTolerance rt z where
  moves _ _ := moves_dual
  effect _ _ := effect_dual
  pops _ _ := queueLen_ne_zero_of_dual

/-- What a turn that picks from `z` does to the sub-zones. -/
structure TurnEffect (z : String) (c c' : PickerObject) : Prop where
  moves : Moves c c'
  others : ∀ y ≠ z, y ∈ c'.priorityElements ↔ y ∈ c.priorityElements
  fewer : ∀ y ∈ c'.priorityElements, y ∈ c.priorityElements
  weight : c'.weight < c.weight
  visited : ∀ y, y ∈ c'.existSubZone ↔ y ∈ c.existSubZone ∨ y = z

theorem mem_drop {y : String} : y ∈ (c.drop z).priorityElements ↔ y ≠ z ∧ y ∈ c.priorityElements :=
  AList.mem_erase

theorem weight_drop_lt (h : z ∈ c.priorityElements) : (c.drop z).weight < c.weight := by
  have hsize : QueueMap.size (c.priorityElements.erase z) + 1 = c.priorityElements.size :=
    QueueMap.size_erase h
  have hload : QueueMap.load (c.priorityElements.erase z) ≤ c.priorityElements.load :=
    QueueMap.load_erase_le
  show QueueMap.load (c.priorityElements.erase z) + QueueMap.size (c.priorityElements.erase z) <
    c.priorityElements.load + c.priorityElements.size
  omega

theorem weight_drop_le : (c.drop z).weight ≤ c.weight := by
  by_cases h : z ∈ c.priorityElements
  · exact (weight_drop_lt h).le
  · have herase : c.priorityElements.erase z = c.priorityElements := QueueMap.erase_of_not_mem h
    simp only [PickerObject.weight, PickerObject.load, PickerObject.drop, herase, le_rfl]

theorem TurnEffect.drop (h : TurnEffect z c c') : TurnEffect z c (c'.drop z) where
  moves := h.moves.trans moves_drop
  others y hy := by simp [mem_drop, hy, h.others y hy]
  fewer y hy := h.fewer y (mem_drop.mp hy).2
  weight := weight_drop_le.trans_lt h.weight
  visited := h.visited

theorem turnEffect_of_pick (hpick : PickRule pick) (hundone : c.pickerDone = false)
    (hlen : c.queueLen z ≠ 0) : TurnEffect z c (pick z c).2 := by
  have heffect := hpick.effect z c
  have hpops : (pick z c).2.load < c.load := heffect.pops hlen
  refine ⟨hpick.moves z c hundone, fun y _ => heffect.mem y, fun y => (heffect.mem y).mp, ?_, ?_⟩
  · have := heffect.size
    simp only [PickerObject.weight]
    omega
  · intro y
    simp [heffect.visited]

/-- A drained sub-zone is dropped before it is picked from, so nothing is found there. -/
theorem turnEffect_of_drained (hpick : PickRule pick) (hundone : c.pickerDone = false)
    (hz : z ∈ c.priorityElements) :
    TurnEffect z c (pick z (c.drop z)).2 ∧ (pick z (c.drop z)).1 = false := by
  have heffect := hpick.effect z (c.drop z)
  have hload : (pick z (c.drop z)).2.load ≤ (c.drop z).load := heffect.load
  refine ⟨⟨moves_drop.trans (hpick.moves z _ hundone), ?_, ?_, ?_, ?_⟩, ?_⟩
  · intro y hy
    rw [heffect.mem, mem_drop]
    exact and_iff_right hy
  · exact fun y hy => (mem_drop.mp ((heffect.mem y).mp hy)).2
  · have := heffect.size
    have hlt := weight_drop_lt hz
    simp only [PickerObject.weight] at hlt ⊢
    omega
  · intro y
    have hvisit : (pick z (c.drop z)).2.existSubZone = c.existSubZone ++ [z] := heffect.visited
    simp [hvisit]
  · refine Bool.eq_false_iff.mpr fun h => hpick.pops z _ h ?_
    have hnone : (c.priorityElements.erase z).lookup z = none := AList.lookup_erase _ _
    simp [PickerObject.queueLen, PickerObject.drop, hnone]

theorem turnEffect_pickAndRetire (hpick : PickRule pick) (hundone : c.pickerDone = false)
    {pq : List Item} (hq : c.priorityElements.lookup z = some pq) :
    TurnEffect z c ((if pq.isEmpty then c.drop z else c).pickAndRetire pick retired z) := by
  unfold PickerObject.pickAndRetire
  cases pq with
  | nil =>
    obtain ⟨heffect, hnone⟩ := turnEffect_of_drained hpick hundone (mem_of_lookup hq)
    simpa [hnone] using heffect
  | cons item pq =>
    have hlen : c.queueLen z ≠ 0 := by simp [queueLen_of_lookup hq]
    have heffect := turnEffect_of_pick hpick hundone hlen
    simp only [List.isEmpty_cons, Bool.false_eq_true, if_false]
    split
    · exact heffect.drop
    · exact heffect

/-- The ways in which a turn that received `z` ends, where a pick from `z` has the effect given. -/
inductive TurnEnd (passDrained sendBack : Bool) (effect : PickerObject → Prop) (z : String)
    (chan : List String) (c : PickerObject) : Turn (List String × PickerObject) → Prop
  | empty (hsize : c.priorityElements.size = 0) :
      TurnEnd passDrained sendBack effect z chan c (.leave (chan, c))
  | missing (hsize : c.priorityElements.size ≠ 0) (hz : z ∉ c.priorityElements) :
      TurnEnd passDrained sendBack effect z chan c (.again (chan, c))
  | lastDrained (hsize : (c.drop z).priorityElements.size = 0)
      (hq : c.priorityElements.lookup z = some []) :
      TurnEnd passDrained sendBack effect z chan c (.leave (chan, c.drop z))
  | passed (hpass : passDrained = true) (hsize : (c.drop z).priorityElements.size ≠ 0)
      (hq : c.priorityElements.lookup z = some []) :
      TurnEnd passDrained sendBack effect z chan c (.again (chan, c.drop z))
  | done {c' : PickerObject} (heffect : effect c') (hdone : c'.pickerDone = true) :
      TurnEnd passDrained sendBack effect z chan c (.leave (chan, c'))
  | sentBack {c' : PickerObject} (heffect : effect c') (hundone : c'.pickerDone = false)
      (hsend : sendBack = true) :
      TurnEnd passDrained sendBack effect z chan c (.again (chan ++ [z], c'))
  | last {c' : PickerObject} (heffect : effect c') (hsend : sendBack = false) (hchan : chan = []) :
      TurnEnd passDrained sendBack effect z chan c (.leave (chan, c'))
  | next {c' : PickerObject} (heffect : effect c') (hundone : c'.pickerDone = false)
      (hsend : sendBack = false) (hchan : chan ≠ []) :
      TurnEnd passDrained sendBack effect z chan c (.again (chan, c'))

theorem channelTurn_returns {effect : PickerObject → Prop}
    (heffect : ∀ pq, c.priorityElements.lookup z = some pq → (passDrained = true → pq ≠ []) →
      effect ((if pq.isEmpty then c.drop z else c).pickAndRetire pick retired z)) :
    (channelTurn passDrained pick retired sendBack (z :: chan, c)).Returns
      (TurnEnd passDrained sendBack effect z chan c) := by
  unfold channelTurn
  simp only
  split
  · rename_i hsize
    exact ⟨_, rfl, .empty hsize⟩
  · rename_i hsize
    split
    · rename_i hq
      exact ⟨_, rfl, .missing hsize (AList.lookup_eq_none.mp hq)⟩
    · rename_i pq hq
      have heffect := heffect pq hq
      have hdrained : ∀ {a : PickerObject}, a = (if pq.isEmpty then c.drop z else c) →
          a.priorityElements.size = 0 → a = c.drop z ∧ pq = [] := by
        intro a ha hzero
        rw [ha] at hzero ⊢
        split
        · rename_i hempty
          exact ⟨rfl, List.isEmpty_iff.mp hempty⟩
        · rename_i hne
          rw [if_neg hne] at hzero
          exact absurd hzero hsize
      generalize hc : (if pq.isEmpty then c.drop z else c) = c₁ at heffect ⊢
      split
      · rename_i hzero
        obtain ⟨rfl, rfl⟩ := hdrained hc.symm hzero
        exact ⟨_, rfl, .lastDrained hzero hq⟩
      · rename_i hsize₁
        split
        · rename_i hpass
          obtain ⟨hempty, hpass⟩ := Bool.and_eq_true_iff.mp hpass
          rw [if_pos hempty] at hc
          subst hc
          rw [List.isEmpty_iff.mp hempty] at hq
          exact ⟨_, rfl, .passed hpass hsize₁ hq⟩
        · rename_i hgo
          have heffect := heffect fun hpass hnil => hgo (by simp [hpass, hnil])
          split
          · rename_i hdone
            exact ⟨_, rfl, .done heffect hdone⟩
          · rename_i hdone
            have hdone := Bool.eq_false_iff.mpr hdone
            split
            · rename_i hsend
              exact ⟨_, rfl, .sentBack heffect hdone hsend⟩
            · rename_i hsend
              have hsend := Bool.eq_false_iff.mpr hsend
              split
              · rename_i hchan
                exact ⟨_, rfl, .last heffect hsend (List.isEmpty_iff.mp hchan)⟩
              · rename_i hchan
                exact ⟨_, rfl, .next heffect hdone hsend fun h => hchan (by simp [h])⟩

end Turn

section Orders

variable {before : String → String → Bool} {keys : List String} {y : String}

theorem inOrder_perm : (c.inOrder rt before keys).1.Perm keys :=
  (List.perm_insertionSort _ _).trans (rt.names_perm _ _)

theorem inOrder_nodup (h : keys.Nodup) : (c.inOrder rt before keys).1.Nodup :=
  inOrder_perm.nodup_iff.mpr h

theorem mem_of_queueLen (h : c.queueLen y ≠ 0) : y ∈ c.priorityElements := by
  by_contra hy
  have hnone := AList.lookup_eq_none.mpr hy
  simp [PickerObject.queueLen, hnone] at h

theorem mem_sortSubZoneByBalance : y ∈ (c.sortSubZoneByBalance rt).1 ↔
    c.queueLen y ≠ 0 ∧ c.balanceCandidate c.maxPerSubZone (c.getSubZoneCurrentTotal y)
      (c.canAllocateToSubZone y) = true := by
  refine inOrder_perm.mem_iff.trans ?_
  simp only [List.mem_filter, Bool.and_eq_true, decide_eq_true_eq]
  exact and_iff_right_of_imp fun h => mem_of_queueLen h.1

theorem nodup_sortSubZoneByBalance : (c.sortSubZoneByBalance rt).1.Nodup :=
  inOrder_nodup (c.priorityElements.nodupKeys.filter _)

theorem mem_sortSubZoneByPriority : y ∈ (c.sortSubZoneByPriority rt crossSubzone).1 ↔
    y ∈ c.subZonePrioritySumMap ∧ (crossSubzone = true → y ∉ c.existSubZone) := by
  refine inOrder_perm.mem_iff.trans ?_
  rw [List.mem_filter, AList.mem_keys]
  cases crossSubzone <;> simp

theorem nodup_sortSubZoneByPriority : (c.sortSubZoneByPriority rt crossSubzone).1.Nodup :=
  inOrder_nodup (c.subZonePrioritySumMap.nodupKeys.filter _)

theorem mem_sortSubZoneNum : y ∈ (c.sortSubZoneNum rt crossSubzone).1 ↔
    c.queueLen y ≠ 0 ∧ (crossSubzone = true → elementNotInArry y c.existSubZone = true) := by
  refine inOrder_perm.mem_iff.trans ?_
  simp only [List.mem_filter, Bool.and_eq_true, decide_eq_true_eq, Bool.or_eq_true,
    Bool.not_eq_true']
  refine (and_iff_right_of_imp fun h => mem_of_queueLen h.1).trans (and_congr_right fun _ => ?_)
  cases crossSubzone <;> simp

theorem nodup_sortSubZoneNum : (c.sortSubZoneNum rt crossSubzone).1.Nodup :=
  inOrder_nodup (c.priorityElements.nodupKeys.filter _)

end Orders

section Loops

/-- Every sub-zone of the pool that was not tried yet still has its queue, unless there are no queues
at all. -/
def Unvisited (c : PickerObject) : Prop :=
  c.priorityElements.size = 0 ∨
    ∀ y ∈ c.subZonePrioritySumMap, y ∉ c.existSubZone → y ∈ c.priorityElements

theorem Moves.sums (h : Moves c c') : c'.subZonePrioritySumMap = c.subZonePrioritySumMap :=
  congrArg Limits.subZonePrioritySumMap h.limits

theorem size_eq_zero_of_fewer (h : ∀ y ∈ c'.priorityElements, y ∈ c.priorityElements)
    (hsize : c.priorityElements.size = 0) : c'.priorityElements.size = 0 :=
  QueueMap.size_eq_zero.mpr fun y hy => QueueMap.size_eq_zero.mp hsize y (h y hy)

theorem TurnEffect.unvisited (h : TurnEffect z c c') (hc : Unvisited c) : Unvisited c' := by
  rcases hc with hsize | hc
  · exact .inl (size_eq_zero_of_fewer h.fewer hsize)
  · refine .inr fun y hy hexist => ?_
    obtain ⟨hexist, hyz⟩ := not_or.mp (mt (h.visited y).mpr hexist)
    rw [h.moves.sums] at hy
    exact (h.others y hyz).mpr (hc y hy hexist)

/-- A loop that sends nothing back ends if its sub-zones are there when their turn comes. -/
theorem channelLoop_once_returns {keys : List String} (hpick : PickRule pick)
    (hundone : c.pickerDone = false) (hkeys : keys ≠ []) (hnodup : keys.Nodup)
    (hthere : c.priorityElements.size = 0 ∨ ∀ y ∈ keys, y ∈ c.priorityElements)
    (hunvisited : Unvisited c) (hfuel : keys.length < fuel) :
    (c.channelLoop fuel false pick retired false keys).Returns
      fun c' => Moves c c' ∧ Unvisited c' := by
  have hloop : (iterate (channelTurn false pick retired false) fuel (keys, c)).Returns
      fun s => Moves c s.2 ∧ Unvisited s.2 := by
    refine iterate_returns
      (fun s => (Moves c s.2 ∧ Unvisited s.2) ∧ s.2.pickerDone = false ∧ s.1 ≠ [] ∧ s.1.Nodup ∧
        (s.2.priorityElements.size = 0 ∨ ∀ y ∈ s.1, y ∈ s.2.priorityElements))
      (fun s => s.1.length) ?_ ⟨⟨.refl, hunvisited⟩, hundone, hkeys, hnodup, hthere⟩ hfuel
    rintro ⟨_ | ⟨z, chan⟩, a⟩ ⟨⟨hmoves, ha⟩, hundone, hne, hnodup, hthere⟩
    · exact absurd rfl hne
    · refine (channelTurn_returns fun pq hq _ => turnEffect_pickAndRetire hpick hundone hq).mono
        fun turn hturn => ?_
      cases hturn with
      | empty => exact ⟨hmoves, ha⟩
      | missing hsize hz =>
        have hz' := hthere.resolve_left hsize z (by simp)
        exact absurd hz' hz
      | lastDrained hsize => exact ⟨hmoves.trans moves_drop, .inl hsize⟩
      | passed hpass => cases hpass
      | done heffect => exact ⟨hmoves.trans heffect.moves, heffect.unvisited ha⟩
      | sentBack _ _ hsend => cases hsend
      | last heffect => exact ⟨hmoves.trans heffect.moves, heffect.unvisited ha⟩
      | next heffect hundone' _ hchan =>
        obtain ⟨hz, hnodup⟩ := List.nodup_cons.mp hnodup
        refine ⟨⟨⟨hmoves.trans heffect.moves, heffect.unvisited ha⟩, hundone', hchan, hnodup, ?_⟩,
          Nat.lt_succ_self _⟩
        rcases hthere with hsize | hthere
        · exact .inl (size_eq_zero_of_fewer heffect.fewer hsize)
        · refine .inr fun y hy => ?_
          have hyz : y ≠ z := fun he => hz (he ▸ hy)
          exact (heffect.others y hyz).mpr (hthere y (List.mem_cons_of_mem z hy))
  exact hloop.bind fun s hs => ⟨_, rfl, hs⟩

/-- A loop that sends its sub-zones back ends if none is outside the channel: then it runs until the
last one is dropped. -/
theorem channelLoop_sendBack_returns {keys : List String} (hpick : PickRule pick)
    (hundone : c.pickerDone = false) (hkeys : keys ≠ [])
    (hinside : ∀ y ∈ c.priorityElements, y ∈ keys) (hfuel : c.weight + keys.length < fuel) :
    (c.channelLoop fuel false pick retired true keys).Returns
      fun c' => Moves c c' ∧ (c'.pickerDone = true ∨ c'.priorityElements.size = 0) := by
  have hloop : (iterate (channelTurn false pick retired true) fuel (keys, c)).Returns
      fun s => Moves c s.2 ∧ (s.2.pickerDone = true ∨ s.2.priorityElements.size = 0) := by
    refine iterate_returns
      (fun s => Moves c s.2 ∧ s.2.pickerDone = false ∧ s.1 ≠ [] ∧ ∀ y ∈ s.2.priorityElements, y ∈ s.1)
      (fun s => s.2.weight + s.1.length) ?_ ⟨.refl, hundone, hkeys, hinside⟩ hfuel
    rintro ⟨_ | ⟨z, chan⟩, a⟩ ⟨hmoves, hundone, hne, hinside⟩
    · exact absurd rfl hne
    · refine (channelTurn_returns fun pq hq _ => turnEffect_pickAndRetire hpick hundone hq).mono
        fun turn hturn => ?_
      cases hturn with
      | empty hsize => exact ⟨hmoves, .inr hsize⟩
      | missing hsize hz =>
        have hinside' : ∀ y ∈ a.priorityElements, y ∈ chan := by
          intro y hy
          exact (List.mem_cons.mp (hinside y hy)).resolve_left fun he => hz (he ▸ hy)
        refine ⟨⟨hmoves, hundone, fun hchan => hsize ?_, hinside'⟩, ?_⟩
        · subst hchan
          exact QueueMap.size_eq_zero.mpr fun y hy => nomatch hinside' y hy
        · simp
      | lastDrained hsize => exact ⟨hmoves.trans moves_drop, .inr hsize⟩
      | passed hpass => cases hpass
      | done heffect hdone => exact ⟨hmoves.trans heffect.moves, .inl hdone⟩
      | sentBack heffect hundone' =>
        refine ⟨⟨hmoves.trans heffect.moves, hundone', by simp, fun y hy => ?_⟩, ?_⟩
        · have := hinside y (heffect.fewer y hy)
          simp only [List.mem_append, List.mem_singleton]
          exact (List.mem_cons.mp this).symm
        · have hweight : _ < a.weight := heffect.weight
          simp only [List.length_append, List.length_cons, List.length_nil]
          omega
      | last _ hsend => cases hsend
      | next _ _ hsend => cases hsend
  exact hloop.bind fun s hs => ⟨_, rfl, hs⟩

end Loops

section Balanced

/-- Tried before, or with room: a sub-zone that is dropped for being full was tried. -/
def Fit (c : PickerObject) (z : String) : Prop :=
  z ∈ c.existSubZone ∨ (c.canAllocateToCampus z).1 = true

/-- What the steps of a balanced round keep. -/
structure RoundEffect (c c' : PickerObject) : Prop where
  moves : Moves c c'
  unvisited : Unvisited c → Unvisited c'
  fit : ∀ y, Fit c y → Fit c' y

theorem RoundEffect.refl : RoundEffect c c := ⟨.refl, id, fun _ => id⟩

theorem RoundEffect.trans {c'' : PickerObject} (h : RoundEffect c c') (h' : RoundEffect c' c'') :
    RoundEffect c c'' :=
  ⟨h.moves.trans h'.moves, h'.unvisited ∘ h.unvisited, fun y hy => h'.fit y (h.fit y hy)⟩

theorem canAllocateToCampus_fst : (c.canAllocateToCampus z).1 = true ↔
    (0 ≤ c.tolerance → 0 < c.maxPerSubZone → c.canAllocateToSubZone z = true) := by
  unfold PickerObject.canAllocateToCampus
  split
  · rename_i h
    simp only [Bool.and_eq_true, decide_eq_true_eq, Bool.not_eq_true'] at h
    simp [h]
  · rename_i h
    simpa using h

/-- Whether a sub-zone has room depends on the limits and on what was picked from it. -/
theorem canAllocateToSubZone_congr {y : String} (hlimits : c'.limits = c.limits)
    (hpicks : c'.pickDistribute y = c.pickDistribute y) :
    c'.canAllocateToSubZone y = c.canAllocateToSubZone y := by
  have htol : c'.tolerance = c.tolerance := congrArg Limits.tolerance hlimits
  have hmax : c'.maxPerSubZone = c.maxPerSubZone := congrArg Limits.maxPerSubZone hlimits
  have hhosts : c'.currentHostsBySubZone = c.currentHostsBySubZone :=
    congrArg Limits.currentHostsBySubZone hlimits
  have htotal : c'.getSubZoneCurrentTotal y = c.getSubZoneCurrentTotal y := by
    rw [PickerObject.getSubZoneCurrentTotal, hhosts, hpicks, PickerObject.getSubZoneCurrentTotal]
  unfold PickerObject.canAllocateToSubZone
  rw [htol, hmax, htotal]

theorem fit_congr {y : String} (hlimits : c'.limits = c.limits)
    (hpicks : c'.pickDistribute y = c.pickDistribute y)
    (hexist : ∀ x ∈ c.existSubZone, x ∈ c'.existSubZone) (h : Fit c y) : Fit c' y := by
  refine h.imp (hexist y) fun hroom => ?_
  have htol : c'.tolerance = c.tolerance := congrArg Limits.tolerance hlimits
  have hmax : c'.maxPerSubZone = c.maxPerSubZone := congrArg Limits.maxPerSubZone hlimits
  rw [canAllocateToCampus_fst, htol, hmax, canAllocateToSubZone_congr hlimits hpicks]
  exact canAllocateToCampus_fst.mp hroom

/-- Dropping a sub-zone that was tried. -/
theorem roundEffect_drop (h : z ∈ c.existSubZone) : RoundEffect c (c.drop z) where
  moves := moves_drop
  unvisited hc := by
    rcases hc with hsize | hc
    · exact .inl (size_eq_zero_of_fewer (fun y hy => (mem_drop.mp hy).2) hsize)
    · exact .inr fun y hy hexist => mem_drop.mpr ⟨fun he => hexist (he ▸ h), hc y hy hexist⟩
  fit _ := fit_congr rfl rfl fun _ hx => hx

theorem roundEffect_pick (hundone : c.pickerDone = false) :
    RoundEffect c (c.pickerOneByPriority rt z crossSwitch).2 := by
  have heffect := @effect_pickerOneByPriority rt c z crossSwitch
  have hmoves : Moves c (c.pickerOneByPriority rt z crossSwitch).2 :=
    moves_pickerOneByPriority hundone
  generalize (c.pickerOneByPriority rt z crossSwitch).2 = a at heffect hmoves
  refine ⟨hmoves, fun hc => ?_, fun y hy => ?_⟩
  · rcases hc with hsize | hc
    · exact .inl (heffect.size.trans hsize)
    · refine .inr fun y hy hexist => (heffect.mem y).mpr ?_
      rw [hmoves.sums] at hy
      rw [heffect.visited, List.mem_append, not_or] at hexist
      exact hc y hy hexist.1
  · have hexist : ∀ x ∈ c.existSubZone, x ∈ a.existSubZone := by
      intro x hx
      rw [heffect.visited]
      exact List.mem_append_left _ hx
    by_cases hyz : y = z
    · refine .inl ?_
      rw [heffect.visited, hyz]
      simp
    · exact fit_congr heffect.limits (heffect.others y hyz) hexist hy

theorem roundEffect_handlePostAllocation (h : z ∈ c.existSubZone) :
    RoundEffect c (c.handlePostAllocation crossSubzone z) := by
  unfold PickerObject.handlePostAllocation
  split
  · split
    · exact roundEffect_drop h
    · split
      · exact roundEffect_drop h
      · exact .refl
  · exact .refl

/-- The outcome of checking one sub-zone of a round: kept with its room, or dropped because it is
full, which only happens after it was tried. -/
theorem canAllocateToCampus_cases (hfit : Fit c z) :
    c.canAllocateToCampus z = (true, c) ∨
      c.canAllocateToCampus z = (false, c.drop z) ∧ z ∈ c.existSubZone := by
  unfold Fit at hfit
  unfold PickerObject.canAllocateToCampus at hfit ⊢
  split
  · rename_i h
    rw [if_pos h] at hfit
    exact .inr ⟨rfl, hfit.resolve_right nofun⟩
  · exact .inl rfl

theorem filterValidCampuses_effect {keys : List String} (hfit : ∀ y ∈ keys, Fit c y) :
    RoundEffect c (filterValidCampuses keys c).2 ∧
      (filterValidCampuses keys c).2.pickerDone = c.pickerDone ∧
      ∀ y ∈ (filterValidCampuses keys c).1, y ∈ keys := by
  induction keys generalizing c with
  | nil => exact ⟨.refl, rfl, fun _ h => h⟩
  | cons z keys ih =>
    have htail : ∀ y ∈ keys, Fit c y := fun y hy => hfit y (List.mem_cons_of_mem z hy)
    unfold filterValidCampuses
    split
    · rcases canAllocateToCampus_cases (hfit z (by simp)) with h | ⟨h, hexist⟩
      · rw [h]
        obtain ⟨heffect, hdone, hmem⟩ := ih htail
        refine ⟨heffect, hdone, fun y hy => ?_⟩
        rcases List.mem_cons.mp hy with rfl | hy
        · simp
        · exact List.mem_cons_of_mem z (hmem y hy)
      · rw [h]
        have hdrop := roundEffect_drop hexist
        obtain ⟨heffect, hdone, hmem⟩ := ih (c := c.drop z) fun y hy => hdrop.fit y (htail y hy)
        exact ⟨hdrop.trans heffect, hdone, fun y hy => List.mem_cons_of_mem z (hmem y hy)⟩
    · obtain ⟨heffect, hdone, hmem⟩ := ih htail
      exact ⟨heffect, hdone, fun y hy => List.mem_cons_of_mem z (hmem y hy)⟩

theorem attemptAllocationFromCampuses_effect {keys : List String} (hundone : c.pickerDone = false)
    (hfit : ∀ y ∈ keys, Fit c y) :
    RoundEffect c (attemptAllocationFromCampuses rt crossSubzone crossSwitch keys c).2 ∧
      ((attemptAllocationFromCampuses rt crossSubzone crossSwitch keys c).1 = true →
        (attemptAllocationFromCampuses rt crossSubzone crossSwitch keys c).2.load < c.load) := by
  induction keys generalizing c with
  | nil => exact ⟨.refl, nofun⟩
  | cons z keys ih =>
    have htail : ∀ y ∈ keys, Fit c y := fun y hy => hfit y (List.mem_cons_of_mem z hy)
    unfold attemptAllocationFromCampuses
    split
    · rcases canAllocateToCampus_cases (hfit z (by simp)) with h | ⟨h, hexist⟩
      · simp only [h]
        have heffect := @effect_pickerOneByPriority rt c z crossSwitch
        have hpops : (c.pickerOneByPriority rt z crossSwitch).1 = true →
            (c.pickerOneByPriority rt z crossSwitch).2.load < c.load :=
          fun hp => heffect.pops (queueLen_ne_zero_of_picked hp)
        have hround := @roundEffect_pick rt c z crossSwitch hundone
        have hdone := @undone_of_not_picked rt c z crossSwitch
        generalize c.pickerOneByPriority rt z crossSwitch = result at heffect hpops hround hdone ⊢
        obtain ⟨picked, a⟩ := result
        cases picked with
        | true =>
          have hz : z ∈ a.existSubZone := by
            rw [heffect.visited]
            simp
          have hpost := @roundEffect_handlePostAllocation a z crossSubzone hz
          have hload : (a.handlePostAllocation crossSubzone z).load ≤ a.load := hpost.moves.load_le
          exact ⟨hround.trans hpost, fun _ => hload.trans_lt (hpops rfl)⟩
        | false =>
          have hload : a.load ≤ c.load := hround.moves.load_le
          obtain ⟨hrest, hlt⟩ := ih (c := a) ((hdone rfl).trans hundone) fun y hy =>
            hround.fit y (htail y hy)
          exact ⟨hround.trans hrest, fun hp => (hlt hp).trans_le hload⟩
      · rw [h]
        have hdrop := roundEffect_drop hexist
        have hload : (c.drop z).load ≤ c.load := hdrop.moves.load_le
        obtain ⟨hrest, hlt⟩ := ih (c := c.drop z) hundone fun y hy => hdrop.fit y (htail y hy)
        exact ⟨hdrop.trans hrest, fun hp => (hlt hp).trans_le hload⟩
    · exact ih hundone htail

theorem fit_sortSubZoneByBalance : ∀ y ∈ (c.sortSubZoneByBalance rt).1, Fit c y := by
  intro y hy
  have hcand := (mem_sortSubZoneByBalance.mp hy).2
  simp only [PickerObject.balanceCandidate, Bool.and_eq_true, Bool.or_eq_true] at hcand
  refine .inr (canAllocateToCampus_fst.mpr fun htol hmax => ?_)
  simpa [htol, hmax] using hcand.1

theorem pickerCrossSubzoneBalanced_returns {keys : List String} (hunvisited : Unvisited c)
    (hfit : ∀ y ∈ keys, Fit c y) (hfuel : c.load < fuel) :
    (c.pickerCrossSubzoneBalanced rt fuel crossSubzone crossSwitch keys).Returns
      fun c' => Moves c c' ∧ Unvisited c' := by
  have hloop : (iterate (balancedRound rt crossSubzone crossSwitch) fuel (keys, c)).Returns
      fun s => Moves c s.2 ∧ Unvisited s.2 := by
    refine iterate_returns
      (fun s => RoundEffect c s.2 ∧ ∀ y ∈ s.1, Fit s.2 y) (fun s => s.2.load) ?_
      ⟨.refl, hfit⟩ hfuel
    rintro ⟨keys, a⟩ ⟨heffect, hfit⟩
    unfold balancedRound
    simp only
    split
    · exact ⟨_, rfl, heffect.moves, heffect.unvisited hunvisited⟩
    · rename_i hgo
      have hundone : a.pickerDone = false := by
        simp only [Bool.or_eq_true, not_or] at hgo
        exact Bool.eq_false_iff.mpr hgo.2
      -- the order of this round: only sub-zones with room, or the old list
      have hdraw : RoundEffect a (a.updateCampusOrder rt keys).2 :=
        ⟨moves_draw, id, fun _ => fit_congr rfl rfl fun _ hx => hx⟩
      have horder : ∀ y ∈ (a.updateCampusOrder rt keys).1, Fit (a.updateCampusOrder rt keys).2 y := by
        intro y hy
        refine hdraw.fit y ?_
        simp only [PickerObject.updateCampusOrder] at hy
        split at hy
        · exact hfit y hy
        · exact fit_sortSubZoneByBalance y hy
      have hundone' : (a.updateCampusOrder rt keys).2.pickerDone = false := hundone
      generalize a.updateCampusOrder rt keys = order at hdraw horder hundone' ⊢
      obtain ⟨keys', b⟩ := order
      obtain ⟨hfilter, hdone, hmem⟩ := @filterValidCampuses_effect b keys' horder
      have hload : (filterValidCampuses keys' b).2.load ≤ a.load :=
        (hdraw.moves.trans hfilter.moves).load_le
      have hvalid : ∀ y ∈ (filterValidCampuses keys' b).1, Fit (filterValidCampuses keys' b).2 y :=
        fun y hy => hfilter.fit y (horder y (hmem y hy))
      simp only
      generalize filterValidCampuses keys' b = valid at hfilter hdone hload hvalid ⊢
      obtain ⟨keys'', d⟩ := valid
      obtain ⟨hattempt, hpops⟩ := @attemptAllocationFromCampuses_effect rt d crossSubzone crossSwitch
        keys'' (hdone.trans hundone') hvalid
      simp only
      generalize attemptAllocationFromCampuses rt crossSubzone crossSwitch keys'' d = result
        at hattempt hpops ⊢
      obtain ⟨picked, e⟩ := result
      have hall := heffect.trans (hdraw.trans (hfilter.trans hattempt))
      cases picked with
      | true =>
        exact ⟨_, rfl, ⟨hall, fun y hy => hattempt.fit y (hvalid y hy)⟩, (hpops rfl).trans_le hload⟩
      | false => exact ⟨_, rfl, hall.moves, hall.unvisited hunvisited⟩
  exact hloop.bind fun s hs => ⟨_, rfl, hs⟩

end Balanced

section Strategies

/-- Bounds on what there is to pick from. -/
structure Within (n : ℕ) (c : PickerObject) : Prop where
  load : c.load ≤ n
  size : c.priorityElements.size ≤ n
  sums : c.subZonePrioritySumMap.keys.length ≤ n

theorem Within.moves {n : ℕ} (h : Within n c) (hm : Moves c c') : Within n c' where
  load := le_trans hm.load_le h.load
  size := hm.size_le.trans h.size
  sums := by rw [hm.sums]; exact h.sums

theorem length_inOrder_filter_le {before : String → String → Bool} {keys : List String}
    {p : String → Bool} : (c.inOrder rt before (keys.filter p)).1.length ≤ keys.length := by
  rw [inOrder_perm.length_eq]
  exact List.length_filter_le _ _

/-- An order of the sub-zones. -/
structure Order (sfc : PickerObject → List String × PickerObject) : Prop where
  draws : ∀ c, (sfc c).2 = { c with draws := c.draws + 1 }
  length : ∀ n c, Within n c → (sfc c).1.length ≤ n

theorem order_balance : Order fun c => c.sortSubZoneByBalance rt where
  draws _ := rfl
  length _ _ h := length_inOrder_filter_le.trans h.size

theorem order_priority : Order fun c => c.sortSubZoneByPriority rt crossSubzone where
  draws _ := rfl
  length _ _ h := length_inOrder_filter_le.trans h.sums

theorem order_num : Order fun c => c.sortSubZoneNum rt crossSubzone where
  draws _ := rfl
  length _ _ h := length_inOrder_filter_le.trans h.size

/-- An order for a pass in which each sub-zone yields at most one host. -/
structure OncePass (balanced : Bool) (sfc : PickerObject → List String × PickerObject) : Prop
    extends Order sfc where
  nodup : ∀ c, (sfc c).1.Nodup
  there : ∀ c, Unvisited c → c.priorityElements.size = 0 ∨ ∀ y ∈ (sfc c).1, y ∈ c.priorityElements
  fit : balanced = true → ∀ c, ∀ y ∈ (sfc c).1, Fit c y

theorem oncePass_balance : OncePass true fun c => c.sortSubZoneByBalance rt where
  toOrder := order_balance
  nodup _ := nodup_sortSubZoneByBalance
  there _ _ := .inr fun _ hy => mem_of_queueLen (mem_sortSubZoneByBalance.mp hy).1
  fit _ _ := fit_sortSubZoneByBalance

theorem oncePass_priority : OncePass false fun c => c.sortSubZoneByPriority rt true where
  toOrder := order_priority
  nodup _ := nodup_sortSubZoneByPriority
  there _ hc := hc.imp_right fun hc y hy =>
    hc y (mem_sortSubZoneByPriority.mp hy).1 ((mem_sortSubZoneByPriority.mp hy).2 rfl)
  fit := nofun

theorem oncePass_num : OncePass false fun c => c.sortSubZoneNum rt true where
  toOrder := order_num
  nodup _ := nodup_sortSubZoneNum
  there _ _ := .inr fun _ hy => mem_of_queueLen (mem_sortSubZoneNum.mp hy).1
  fit := nofun

theorem oncePasses_return {n : ℕ}
    {passes : List (Bool × (PickerObject → List String × PickerObject))}
    (hpasses : ∀ pass ∈ passes, OncePass pass.1 pass.2) (hundone : c.pickerDone = false)
    (hunvisited : Unvisited c) (hwithin : Within n c) (hfuel : n < fuel) :
    (crossSubzoneStrategies rt fuel true crossSwitch passes c).Returns (Moves c) := by
  induction passes generalizing c with
  | nil => exact ⟨c, rfl, .refl⟩
  | cons pass passes ih =>
    obtain ⟨balanced, sfc⟩ := pass
    have hpass : OncePass balanced sfc := hpasses (balanced, sfc) (by simp)
    have hrest : ∀ pass ∈ passes, OncePass pass.1 pass.2 := fun p hp =>
      hpasses p (List.mem_cons_of_mem _ hp)
    have hdraw : Moves c (sfc c).2 := by
      rw [hpass.draws]
      exact moves_draw
    have hdraws := hpass.draws c
    have hkeys := hpass.nodup c
    have hthere := hpass.there c hunvisited
    have hlength := hpass.length n c hwithin
    have hfit : balanced = true → ∀ y ∈ (sfc c).1, Fit c y := fun hb => hpass.fit hb c
    unfold crossSubzoneStrategies
    simp only
    generalize sfc c = order at *
    obtain ⟨keys, a⟩ := order
    simp only at hdraws hkeys hthere hlength hfit hdraw ⊢
    have hundone' : a.pickerDone = false := by rw [hdraws]; exact hundone
    have hunvisited' : Unvisited a := by rw [hdraws]; exact hunvisited
    split
    · refine (ih hrest hundone' hunvisited' (hwithin.moves hdraw)).mono fun b hb => hdraw.trans hb
    · rename_i hne
      -- either way of picking keeps the sub-zones that were not tried
      have hpicked : ∀ o : Outcome PickerObject,
          o.Returns (fun b => Moves a b ∧ Unvisited b) →
          (o.bind fun c => if c.pickerDone then .returned c
            else crossSubzoneStrategies rt fuel true crossSwitch passes c).Returns (Moves c) := by
        intro o ho
        refine ho.bind fun b ⟨hb, hunvisited⟩ => ?_
        have hmoves := hdraw.trans hb
        split
        · exact ⟨b, rfl, hmoves⟩
        · rename_i hdone
          exact (ih hrest (Bool.eq_false_iff.mpr hdone) hunvisited (hwithin.moves hmoves)).mono
            fun d hd => hmoves.trans hd
      refine hpicked _ ?_
      split
      · rename_i hbalanced
        have hload : a.load < fuel := lt_of_le_of_lt (hwithin.moves hdraw).load hfuel
        refine pickerCrossSubzoneBalanced_returns hunvisited' (fun y hy => ?_) hload
        rw [hdraws]
        exact @fit_congr c _ y rfl rfl (fun _ hx => hx) (hfit (Bool.and_eq_true_iff.mp hbalanced).1 y hy)
      · refine channelLoop_once_returns pickRule_byPriority hundone' (by simpa using hne) hkeys ?_
          hunvisited' (by omega)
        rw [hdraws]
        exact hthere

/-- The pass that takes at most one host from each sub-zone per strategy. -/
theorem pickerCrossSubzone_once_returns {n : ℕ} (hundone : c.pickerDone = false)
    (hunvisited : Unvisited c) (hwithin : Within n c) (hfuel : n < fuel) :
    (c.pickerCrossSubzone rt fuel true crossSwitch).Returns (Moves c) := by
  refine oncePasses_return ?_ hundone hunvisited hwithin hfuel
  simp only [List.mem_cons, List.not_mem_nil, or_false, forall_eq_or_imp, forall_eq]
  exact ⟨oncePass_balance, oncePass_priority, oncePass_num⟩

/-- A pass over queues that hold something tries every sub-zone again and again, so it ends with the
request served or with no queues, and then the other orders find nothing to do. -/
theorem sendBackPasses_return {n : ℕ}
    {passes : List (Bool × (PickerObject → List String × PickerObject))}
    (hpasses : ∀ pass ∈ passes, Order pass.2) (htol : c.tolerance < 0)
    (hundone : c.pickerDone = false) (hwithin : Within n c) (hfuel : 3 * n < fuel)
    (hfirst : c.priorityElements.size = 0 ∨
      ∀ pass ∈ passes.head?, ∀ y ∈ c.priorityElements, y ∈ (pass.2 c).1) :
    (crossSubzoneStrategies rt fuel false crossSwitch passes c).Returns (Moves c) := by
  induction passes generalizing c with
  | nil => exact ⟨c, rfl, .refl⟩
  | cons pass passes ih =>
    obtain ⟨balanced, sfc⟩ := pass
    have horder : Order sfc := hpasses (balanced, sfc) (by simp)
    have hrest : ∀ pass ∈ passes, Order pass.2 := fun p hp => hpasses p (List.mem_cons_of_mem _ hp)
    have hinside : ∀ y ∈ c.priorityElements, y ∈ (sfc c).1 := by
      intro y hy
      rcases hfirst with hsize | hfirst
      · exact absurd hy (QueueMap.not_mem_of_size_eq_zero hsize)
      · exact hfirst (balanced, sfc) rfl y hy
    have hdraws := horder.draws c
    have hlength := horder.length n c hwithin
    unfold crossSubzoneStrategies
    simp only
    generalize sfc c = order at hinside hdraws hlength ⊢
    obtain ⟨keys, a⟩ := order
    simp only at hinside hdraws hlength ⊢
    have hdraw : Moves c a := by
      rw [hdraws]
      exact moves_draw
    have hundone' : a.pickerDone = false := by rw [hdraws]; exact hundone
    have htol' : a.tolerance < 0 := by rw [hdraws]; exact htol
    have hinside' : ∀ y ∈ a.priorityElements, y ∈ keys := by rw [hdraws]; exact hinside
    have hwithin' := hwithin.moves hdraw
    split
    · rename_i hempty
      have hsize : a.priorityElements.size = 0 := by
        refine QueueMap.size_eq_zero.mpr fun y hy => ?_
        have := hinside' y hy
        rw [List.isEmpty_iff.mp hempty] at this
        cases this
      exact (ih hrest htol' hundone' hwithin' (.inl hsize)).mono fun b hb => hdraw.trans hb
    · rename_i hne
      have hbalanced : ¬ (balanced && (0 ≤ a.tolerance && 0 < a.maxPerSubZone)) = true := by
        simp [htol']
      rw [if_neg hbalanced]
      have hload : a.load ≤ n := hwithin'.load
      have hsize : a.priorityElements.size ≤ n := hwithin'.size
      refine (channelLoop_sendBack_returns pickRule_byPriority hundone' (by simpa using hne) hinside'
        (by unfold PickerObject.weight; omega)).bind fun b ⟨hb, hend⟩ => ?_
      have hmoves := hdraw.trans hb
      split
      · exact ⟨b, rfl, hmoves⟩
      · rename_i hdone
        have htol'' : b.tolerance < 0 := by
          rw [show b.tolerance = a.tolerance from congrArg Limits.tolerance hb.limits]
          exact htol'
        exact (ih hrest htol'' (Bool.eq_false_iff.mpr hdone) (hwithin.moves hmoves)
          (.inl (hend.resolve_left hdone))).mono fun d hd => hmoves.trans hd

/-- Every queue holds something. -/
def Stocked (c : PickerObject) : Prop := ∀ y ∈ c.priorityElements, c.queueLen y ≠ 0

theorem pickerCrossSubzone_sendBack_returns {n : ℕ} (htol : c.tolerance < 0)
    (hundone : c.pickerDone = false) (hstocked : Stocked c) (hwithin : Within n c)
    (hfuel : 3 * n < fuel) :
    (c.pickerCrossSubzone rt fuel false crossSwitch).Returns (Moves c) := by
  refine sendBackPasses_return ?_ htol hundone hwithin hfuel (.inr ?_)
  · simp only [List.mem_cons, List.not_mem_nil, or_false, forall_eq_or_imp, forall_eq]
    exact ⟨order_balance, order_priority, order_num⟩
  · rintro pass ⟨⟩ y hy
    refine mem_sortSubZoneByBalance.mpr ⟨hstocked y hy, ?_⟩
    have htol' : ¬ 0 ≤ c.tolerance := not_le.mpr htol
    simp [PickerObject.balanceCandidate, htol', htol.ne]

theorem pickerMajorityElectionCrossSubzone_returns {n : ℕ} (hundone : c.pickerDone = false)
    (hexist : c.existSubZone = []) (hstocked : Stocked c) (hwithin : Within n c)
    (hfuel : 3 * n < fuel) :
    (c.pickerMajorityElectionCrossSubzone rt fuel).Returns (Moves c) := by
  have hinside : ∀ y ∈ c.priorityElements, y ∈ (c.sortSubZoneNum rt true).1 := by
    intro y hy
    refine mem_sortSubZoneNum.mpr ⟨hstocked y hy, fun _ => ?_⟩
    simp [elementNotInArry, hexist]
  have hlength : (c.sortSubZoneNum rt true).1.length ≤ n := order_num.length n c hwithin
  have hdraw : Moves c (c.sortSubZoneNum rt true).2 := moves_draw
  have hload : c.load ≤ n := hwithin.load
  have hsize : c.priorityElements.size ≤ n := hwithin.size
  unfold PickerObject.pickerMajorityElectionCrossSubzone
  simp only
  split
  · exact ⟨_, rfl, hdraw⟩
  · rename_i hne
    refine Outcome.Returns.mono (channelLoop_sendBack_returns pickRule_byPriority hundone
      (by simpa using hne) hinside ?_) fun a ha => hdraw.trans ha.1
    show c.weight + _ < fuel
    unfold PickerObject.weight
    omega

end Strategies

end Resource
