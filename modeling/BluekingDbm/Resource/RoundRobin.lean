import BluekingDbm.Library.Capacity
import BluekingDbm.Resource.Tally

/-! The round-robin picker of the strong cross-zone affinity. It sorts out the sub-zones that are full
before it starts, but leaves their queues where its exit test sees them. If the others cannot serve the
request, it receives from its channel for ever. -/
namespace Resource

open Loop PickerObject Capacity

variable {insList : List TbRpDetail} {rt : Runtime} {fuel : ℕ} {c c' : PickerObject} {z : String}
  {host : TbRpDetail} {chan : List String} {R : Rooms TbRpDetail String String}
  {retired : String → PickerObject → Bool}

/-- The places of the hosts, with the room that the current hosts leave there. -/
def PickerObject.rooms (c : PickerObject) : Rooms TbRpDetail String String where
  zone := TbRpDetail.subZone
  rack := rackKey false
  zoneRoom z := (c.maxPerSubZone - c.currentHostsBySubZone z).toNat
  rackRoom k := (c.maxPerRack - c.currentHostsByRack k).toNat

theorem rooms_of_limits (h : c'.limits = c.limits) : c'.rooms = c.rooms := by
  have hzone : c'.maxPerSubZone = c.maxPerSubZone := congrArg Limits.maxPerSubZone h
  have hzones : c'.currentHostsBySubZone = c.currentHostsBySubZone :=
    congrArg Limits.currentHostsBySubZone h
  have hrack : c'.maxPerRack = c.maxPerRack := congrArg Limits.maxPerRack h
  have hracks : c'.currentHostsByRack = c.currentHostsByRack := congrArg Limits.currentHostsByRack h
  unfold PickerObject.rooms
  rw [hzone, hzones, hrack, hracks]

section Settled

/-- The host is picked, or its sub-zone or its rack has no room any more. -/
def Settled (c : PickerObject) (host : TbRpDetail) : Prop :=
  host.bkHostID ∈ c.satisfiedHostIds ∨ c.maxPerSubZone ≤ c.getSubZoneCurrentTotal host.subZone ∨
    c.maxPerRack ≤ c.getRackCurrentTotal host.subZone host.rackID

/-- The host is still in its queue. -/
def Waiting (c : PickerObject) (host : TbRpDetail) : Prop :=
  ∃ q, c.priorityElements.lookup host.subZone = some q ∧ ∃ item ∈ q, item.value = host.instanceObject

theorem settled_of_dualVerdict {v : InstanceObject} (h : c.dualVerdict z v ≠ .take)
    (hz : host.subZone = z) (hv : v = host.instanceObject) : Settled c host := by
  subst hz hv
  unfold PickerObject.dualVerdict at h
  have hid : host.instanceObject.bkHostId = host.bkHostID := rfl
  have hrackId : host.instanceObject.rackId = host.rackID := rfl
  rw [hid, hrackId] at h
  by_cases hpicked : host.bkHostID ∈ c.satisfiedHostIds
  · exact .inl hpicked
  · rw [if_neg hpicked] at h
    by_cases hzone : 0 < c.maxPerSubZone ∧ c.maxPerSubZone < c.getSubZoneCurrentTotal host.subZone + 1
    · exact .inr (.inl (by omega))
    · rw [if_neg hzone] at h
      by_cases hrack : 0 < c.maxPerRack ∧
          c.maxPerRack < c.getRackCurrentTotal host.subZone host.rackID + 1
      · exact .inr (.inr (by omega))
      · exact absurd (if_neg hrack) h

theorem Settled.takes {v : InstanceObject} (h : Settled c host) (hmax : 0 < c.maxPerRack)
    (htakes : Takes z v c c') : Settled c' host := by
  have hmaxZone : c'.maxPerSubZone = c.maxPerSubZone := congrArg Limits.maxPerSubZone htakes.limits
  have hmaxRack : c'.maxPerRack = c.maxPerRack := congrArg Limits.maxPerRack htakes.limits
  rcases h with hpicked | hzone | hrack
  · left
    rw [htakes.satisfied]
    exact List.mem_append_left _ hpicked
  · right; left
    rw [hmaxZone, htakes.zoneTotal]
    have := le_bump c.pickDistribute z host.subZone
    unfold PickerObject.getSubZoneCurrentTotal at hzone
    omega
  · right; right
    rw [hmaxRack, htakes.rackTotal hmax]
    have := le_bump c.rackDistribute (buildRackKey z v.rackId) (buildRackKey host.subZone host.rackID)
    unfold PickerObject.getRackCurrentTotal at hrack
    omega

/-- What was popped and is settled, in whatever sense, leaves every host settled or waiting. -/
theorem settled_or_waiting {A A' : TbRpDetail → Prop} {pq rest : List Item}
    (hq : c.priorityElements.lookup z = some pq)
    (hrest : c'.priorityElements.lookup z = some rest)
    (hothers : ∀ y ≠ z, c'.priorityElements.lookup y = c.priorityElements.lookup y)
    (hkeep : ∀ host, A host → A' host)
    (hgone : ∀ item ∈ pq, item ∈ rest ∨
      ∀ host : TbRpDetail, host.subZone = z → item.value = host.instanceObject → A' host)
    (h : A host ∨ Waiting c host) : A' host ∨ Waiting c' host := by
  rcases h with hsettled | ⟨q, hlookup, item, hitem, hv⟩
  · exact .inl (hkeep host hsettled)
  · by_cases hz : host.subZone = z
    · rw [hz, hq] at hlookup
      obtain rfl := Option.some_inj.mp hlookup
      rcases hgone item hitem with hmem | hsettled
      · exact .inr ⟨rest, by rw [hz, hrest], item, hmem, hv⟩
      · exact .inl (hsettled host hz hv)
    · exact .inr ⟨q, by rw [hothers _ hz, hlookup], item, hitem, hv⟩

end Settled

section Booked

/-- Hosts of the pool are picked, settled or waiting, and the counters are those of the picks. -/
structure Booked (insList : List TbRpDetail) (c : PickerObject) : Prop where
  sourced : Sourced insList false c
  rackLimit : 0 < c.maxPerRack
  tally : ∃ S, (∀ host ∈ S, host ∈ insList) ∧ Tally false (fun _ => 0) (fun _ => 0) S c
  accounted : ∀ host ∈ insList, Settled c host ∨ Waiting c host

theorem Booked.drop (h : Booked insList c)
    (hsettled : ∀ host ∈ insList, host.subZone = z → Settled c host) : Booked insList (c.drop z) where
  sourced := h.sourced.drop
  rackLimit := h.rackLimit
  tally := by
    obtain ⟨S, hpool, ht⟩ := h.tally
    exact ⟨S, hpool, ht.frame⟩
  accounted host hhost := by
    by_cases hz : host.subZone = z
    · exact .inl (hsettled host hhost hz)
    · refine (h.accounted host hhost).imp id ?_
      rintro ⟨q, hq, hitem⟩
      exact ⟨q, (lookup_drop hz).trans hq, hitem⟩

/-- Popping hosts that cannot be taken. -/
theorem Booked.popTo {pq skipped rest : List Item} (h : Booked insList c)
    (hq : c.priorityElements.lookup z = some pq) (hperm : (skipped ++ rest).Perm pq)
    (hskip : ∀ item ∈ skipped, c.dualVerdict z item.value ≠ .take) :
    Booked insList (c.popTo z rest) where
  sourced := h.sourced.popTo hq fun item hitem => hperm.subset (List.mem_append_right _ hitem)
  rackLimit := h.rackLimit
  tally := by
    obtain ⟨S, hpool, ht⟩ := h.tally
    exact ⟨S, hpool, ht.frame⟩
  accounted host hhost := by
    refine settled_or_waiting hq lookup_popTo_self (fun y hy => lookup_popTo hy) (fun _ => id) ?_
      (h.accounted host hhost)
    intro item hitem
    rcases List.mem_append.mp (hperm.mem_iff.mpr hitem) with hmem | hmem
    · exact .inr fun host hz hv => settled_of_dualVerdict (hskip item hmem) hz hv
    · exact .inl hmem

/-- Popping hosts up to one that is taken. -/
theorem Booked.take {pq skipped rest : List Item} {item : Item} (h : Booked insList c)
    (hundone : c.pickerDone = false) (hq : c.priorityElements.lookup z = some pq)
    (hperm : (skipped ++ item :: rest).Perm pq)
    (hskip : ∀ item ∈ skipped, c.dualVerdict z item.value ≠ .take)
    (htake : c.dualVerdict z item.value = .take)
    (htakes : Takes z item.value (c.popTo z rest) c') : Booked insList c' := by
  have hitem : item ∈ pq := hperm.mem_iff.mp (by simp)
  obtain ⟨picked, hpicked, hz, hv⟩ := h.sourced z pq hq item hitem
  obtain ⟨hfresh, hzone, hrack⟩ := take_of_dualVerdict htake
  have hrest : rest ⊆ pq := fun other hother => hperm.subset (by simp [hother])
  have hmax : c'.maxPerRack = c.maxPerRack := congrArg Limits.maxPerRack htakes.limits
  have hkeep : ∀ host, Settled c host → Settled c' host := fun host hs =>
    Settled.takes (c := c.popTo z rest) hs h.rackLimit htakes
  obtain ⟨S, hpool, ht⟩ := h.tally
  refine ⟨(h.sourced.popTo hq hrest).takes htakes, by rw [hmax]; exact h.rackLimit,
    ⟨S ++ [picked], ?_, ?_⟩, fun host hhost => ?_⟩
  · intro other hother
    rcases List.mem_append.mp hother with hmem | hmem
    · exact hpool other hmem
    · rw [List.mem_singleton.mp hmem]
      exact hpicked
  · subst hz
    rw [hv] at htakes hfresh hrack
    have ht' : Tally false (fun _ => 0) (fun _ => 0) S (c.popTo (queueKey false picked) rest) :=
      ht.frame
    exact ht'.pick ⟨hundone, hfresh, fun _ => hzone, fun _ => hrack⟩ htakes
  · have hlookup : ∀ y, c'.priorityElements.lookup y = (c.popTo z rest).priorityElements.lookup y :=
      fun y => by rw [htakes.queues]
    refine settled_or_waiting hq ((hlookup z).trans lookup_popTo_self)
      (fun y hy => (hlookup y).trans (lookup_popTo hy)) hkeep ?_ (h.accounted host hhost)
    intro other hother
    rcases List.mem_append.mp (hperm.mem_iff.mpr hother) with hmem | hmem
    · refine .inr fun host hz hv => hkeep host ?_
      exact settled_of_dualVerdict (hskip other hmem) hz hv
    · rcases List.mem_cons.mp hmem with rfl | hmem
      · refine .inr fun host _ hv => .inl ?_
        rw [htakes.satisfied, hv]
        simp [TbRpDetail.instanceObject]
      · exact .inl hmem

theorem Booked.pick (h : Booked insList c) (hundone : c.pickerDone = false) :
    Booked insList (c.pickerOneByPriorityWithDualTolerance rt z).2 := by
  have hvisit : Booked insList (c.visit z) := by
    obtain ⟨S, hpool, ht⟩ := h.tally
    exact ⟨h.sourced, h.rackLimit, ⟨S, hpool, ht.frame⟩, h.accounted⟩
  unfold PickerObject.pickerOneByPriorityWithDualTolerance
  have hpicked := @pickedOne_pickOne rt c z (fun c => c.dualVerdict z)
    (fun c v => ((c.select z v).recordHost z v).recordRack z v) (fun _ => false)
  generalize c.pickOne rt z _ _ _ = result at hpicked ⊢
  cases hpicked with
  | missing hq => exact hvisit
  | @taken pq skipped rest item hq hperm hskip htake =>
    refine hvisit.take hundone hq hperm (fun i hi => ?_) htake
      ⟨rfl, rfl, rfl, rfl, rfl, .inl rfl⟩
    rw [hskip i hi]
    nofun
  | @stopped pq skipped rest item hq hperm hskip hstop =>
    have hperm' : (skipped ++ [item] ++ rest).Perm pq := by simpa using hperm
    refine hvisit.popTo hq hperm' fun i hi => ?_
    rcases List.mem_append.mp hi with hi | hi
    · rw [hskip i hi]
      nofun
    · rw [List.mem_singleton.mp hi, hstop]
      nofun
  | @drained pq hq hskip =>
    have hperm : (pq ++ []).Perm pq := by rw [List.append_nil]
    refine hvisit.popTo hq hperm fun i hi => ?_
    rw [hskip i hi]
    nofun

end Booked

section Rotation

/-- The channel holds every sub-zone that still has its queue, apart from those that were full at the
start. These are never received, and keep their queues. -/
structure Rotation (insList : List TbRpDetail) (R : Rooms TbRpDetail String String)
    (chan : List String) (c : PickerObject) : Prop where
  booked : Booked insList c
  undone : c.pickerDone = false
  rooms : c.rooms = R
  inside : ∀ y ∈ c.priorityElements, y ∈ chan ∨ ∃ host ∈ insList, host.subZone = y ∧ R.zoneRoom y = 0
  roomy : ∀ y ∈ chan, 0 < R.zoneRoom y
  kept : ∀ host ∈ insList, R.zoneRoom host.subZone = 0 → host.subZone ∈ c.priorityElements

/-- How the picker ends. -/
inductive RotationEnd (insList : List TbRpDetail) (c : PickerObject) : Outcome PickerObject → Prop
  | done {c' : PickerObject} (hmoves : Moves c c') (hbooked : Booked insList c')
      (hdone : c'.pickerDone = true) : RotationEnd insList c (.returned c')
  | noneFull {c' : PickerObject} (hmoves : Moves c c')
      (hroomy : ∀ host ∈ insList, 0 < c.rooms.zoneRoom host.subZone) :
      RotationEnd insList c (.returned c')
  | allFull {c' : PickerObject} (hmoves : Moves c c')
      (hfull : ∀ host ∈ insList, c.rooms.zoneRoom host.subZone = 0) :
      RotationEnd insList c (.returned c')
  | blocked {c' : PickerObject} (hmoves : Moves c c') (hbooked : Booked insList c')
      (hundone : c'.pickerDone = false) (hsettled : ∀ host ∈ insList, Settled c' host)
      (hfull : ∃ host ∈ insList, c.rooms.zoneRoom host.subZone = 0)
      (hroomy : ∃ host ∈ insList, 0 < c.rooms.zoneRoom host.subZone) :
      RotationEnd insList c .blocked

theorem RotationEnd.after {o : Outcome PickerObject} (hm : Moves c c')
    (h : RotationEnd insList c' o) : RotationEnd insList c o := by
  have hrooms := rooms_of_limits hm.limits
  cases h with
  | done hmoves hbooked hdone => exact .done (hm.trans hmoves) hbooked hdone
  | noneFull hmoves hroomy => exact .noneFull (hm.trans hmoves) (hrooms ▸ hroomy)
  | allFull hmoves hfull => exact .allFull (hm.trans hmoves) (hrooms ▸ hfull)
  | blocked hmoves hbooked hundone hsettled hfull hroomy =>
    exact .blocked (hm.trans hmoves) hbooked hundone hsettled (hrooms ▸ hfull) (hrooms ▸ hroomy)

theorem Rotation.not_mem_of_full (h : Rotation insList R chan c) (hfull : R.zoneRoom z = 0) :
    z ∉ chan := by
  intro hmem
  have := h.roomy _ hmem
  omega

/-- Where no queue is left, no sub-zone was full. -/
theorem Rotation.roomy_of_empty (h : Rotation insList R (z :: chan) c)
    (hempty : (c.drop z).priorityElements.size = 0) :
    ∀ host ∈ insList, 0 < R.zoneRoom host.subZone := by
  intro host hhost
  by_contra hfull
  have hfull : R.zoneRoom host.subZone = 0 := by omega
  have hz : host.subZone ≠ z := by
    intro hz
    exact h.not_mem_of_full hfull (by simp [hz])
  have hmem : host.subZone ∈ (c.drop z).priorityElements :=
    mem_drop.mpr ⟨hz, h.kept host hhost hfull⟩
  exact QueueMap.not_mem_of_size_eq_zero hempty hmem

theorem Rotation.missing (h : Rotation insList R (z :: chan) c)
    (hz : z ∉ c.priorityElements) : Rotation insList R chan c where
  booked := h.booked
  undone := h.undone
  rooms := h.rooms
  inside y hy := by
    refine (h.inside y hy).imp_left fun hmem => ?_
    rcases List.mem_cons.mp hmem with rfl | hmem
    · exact absurd hy hz
    · exact hmem
  roomy y hy := h.roomy y (List.mem_cons_of_mem z hy)
  kept := h.kept

theorem Rotation.passed (h : Rotation insList R (z :: chan) c)
    (hq : c.priorityElements.lookup z = some []) : Rotation insList R chan (c.drop z) where
  booked := by
    refine h.booked.drop fun host hhost hz => ?_
    rcases h.booked.accounted host hhost with hsettled | ⟨q, hlookup, item, hitem, -⟩
    · exact hsettled
    · rw [hz, hq] at hlookup
      obtain rfl := Option.some_inj.mp hlookup
      cases hitem
  undone := h.undone
  rooms := h.rooms
  inside y hy := by
    obtain ⟨hne, hy⟩ := mem_drop.mp hy
    refine (h.inside y hy).imp_left fun hmem => ?_
    exact (List.mem_cons.mp hmem).resolve_left hne
  roomy y hy := h.roomy y (List.mem_cons_of_mem z hy)
  kept host hhost hfull := by
    refine mem_drop.mpr ⟨fun hz => ?_, h.kept host hhost hfull⟩
    exact h.not_mem_of_full hfull (by simp [hz])

/-- A pick from the sub-zone received, after which that goes to the end of the channel. -/
theorem Rotation.sentBack (h : Rotation insList R (z :: chan) c)
    (heffect : TurnEffect z c c') (hbooked : Booked insList c') (hundone : c'.pickerDone = false) :
    Rotation insList R (chan ++ [z]) c' where
  booked := hbooked
  undone := hundone
  rooms := (rooms_of_limits heffect.moves.limits).trans h.rooms
  inside y hy := by
    refine (h.inside y (heffect.fewer y hy)).imp_left fun hmem => ?_
    simp only [List.mem_append, List.mem_singleton]
    exact (List.mem_cons.mp hmem).symm
  roomy y hy := by
    refine h.roomy y ?_
    rcases List.mem_append.mp hy with hy | hy
    · exact List.mem_cons_of_mem z hy
    · rw [List.mem_singleton.mp hy]
      simp
  kept host hhost hfull := by
    have hz : host.subZone ≠ z := by
      intro hz
      exact h.not_mem_of_full hfull (by simp [hz])
    exact (heffect.others _ hz).mpr (h.kept host hhost hfull)

/-- The hosts of a full sub-zone are settled, so its queue may go. -/
theorem booked_pickAndRetire {pq : List Item} (h : Booked insList c) (hundone : c.pickerDone = false)
    (hpq : pq ≠ []) :
    Booked insList ((if pq.isEmpty then c.drop z else c).pickAndRetire
      (fun z c => c.pickerOneByPriorityWithDualTolerance rt z)
      (fun z c => 0 < c.maxPerSubZone ∧ c.maxPerSubZone ≤ c.getSubZoneCurrentTotal z) z) := by
  rw [if_neg (by simpa using hpq)]
  have hpick : Booked insList (c.pickerOneByPriorityWithDualTolerance rt z).2 := h.pick hundone
  unfold PickerObject.pickAndRetire
  simp only
  generalize c.pickerOneByPriorityWithDualTolerance rt z = result at hpick ⊢
  obtain ⟨picked, a⟩ := result
  simp only at hpick ⊢
  split
  · rename_i hretired
    simp only [Bool.and_eq_true, decide_eq_true_eq] at hretired
    refine hpick.drop fun host _ hz => .inr (.inl ?_)
    rw [hz]
    exact hretired.2.2
  · exact hpick

/-- With nothing in the channel, only queues of full sub-zones are left. -/
theorem Rotation.settled (h : Rotation insList R [] c) (hhost : host ∈ insList) : Settled c host := by
  rcases h.booked.accounted host hhost with hsettled | ⟨q, hq, -⟩
  · exact hsettled
  · rcases h.inside _ (mem_of_lookup hq) with hmem | ⟨_, -, -, hfull⟩
    · cases hmem
    · have hroom : (c.maxPerSubZone - c.currentHostsBySubZone host.subZone).toNat = 0 := by
        rw [← h.rooms] at hfull
        exact hfull
      refine .inr (.inl ?_)
      unfold PickerObject.getSubZoneCurrentTotal
      omega

theorem rotation_ends (h : Rotation insList c.rooms chan c) (hchan : chan ≠ [])
    (hroomy : ∃ host ∈ insList, 0 < c.rooms.zoneRoom host.subZone)
    (hfuel : c.weight + chan.length < fuel) :
    RotationEnd insList c (c.channelLoop fuel true
      (fun z c => c.pickerOneByPriorityWithDualTolerance rt z)
      (fun z c => 0 < c.maxPerSubZone ∧ c.maxPerSubZone ≤ c.getSubZoneCurrentTotal z) true chan) := by
  refine iterate_ends (Q := fun o => RotationEnd insList c (o.bind fun s => .returned s.2))
    (fun (s : List String × PickerObject) => Moves c s.2 ∧ Rotation insList c.rooms s.1 s.2 ∧
      (s.1 = [] → s.2.priorityElements.size ≠ 0))
    (fun s => s.2.weight + s.1.length) ?_ ⟨.refl, h, fun hnil => absurd hnil hchan⟩ hfuel
  rintro ⟨_ | ⟨z, chan⟩, a⟩ ⟨hmoves, hrotation, hleft⟩
  · -- the channel is empty, and a full sub-zone has kept the loop from leaving
    right; right
    refine ⟨rfl, .blocked hmoves hrotation.booked hrotation.undone (fun host hhost => ?_) ?_ hroomy⟩
    · exact hrotation.settled hhost
    · obtain ⟨y, hy⟩ : ∃ y, y ∈ a.priorityElements := by
        by_contra hnone
        push Not at hnone
        exact hleft rfl (QueueMap.size_eq_zero.mpr hnone)
      rcases hrotation.inside y hy with hmem | ⟨host, hhost, rfl, hfull⟩
      · cases hmem
      · exact ⟨host, hhost, hfull⟩
  · have hreturns := @channelTurn_returns a z chan true true
      (fun z c => c.pickerOneByPriorityWithDualTolerance rt z)
      (fun z c => 0 < c.maxPerSubZone ∧ c.maxPerSubZone ≤ c.getSubZoneCurrentTotal z)
      (fun a' => TurnEffect z a a' ∧ Booked insList a') fun pq hq hpq =>
        ⟨turnEffect_pickAndRetire pickRule_dual hrotation.undone hq,
          booked_pickAndRetire hrotation.booked hrotation.undone (hpq rfl)⟩
    obtain ⟨turn, hturn, hend⟩ := hreturns
    cases hend with
    | empty hsize =>
      right; left
      have hsize' : (a.drop z).priorityElements.size = 0 :=
        size_eq_zero_of_fewer (fun y hy => (mem_drop.mp hy).2) hsize
      exact ⟨_, hturn, .noneFull hmoves (hrotation.roomy_of_empty hsize')⟩
    | missing hsize hz =>
      left
      exact ⟨_, hturn, ⟨hmoves, hrotation.missing hz, fun _ => hsize⟩, by simp⟩
    | lastDrained hsize =>
      right; left
      exact ⟨_, hturn, .noneFull (hmoves.trans moves_drop) (hrotation.roomy_of_empty hsize)⟩
    | passed _ hsize hq =>
      left
      refine ⟨_, hturn, ⟨hmoves.trans moves_drop, hrotation.passed hq, fun _ => hsize⟩, ?_⟩
      have := weight_drop_lt (mem_of_lookup hq)
      simp only [List.length_cons]
      omega
    | done heffect hdone =>
      right; left
      exact ⟨_, hturn, .done (hmoves.trans heffect.1.moves) heffect.2 hdone⟩
    | sentBack heffect hundone =>
      left
      refine ⟨_, hturn, ⟨hmoves.trans heffect.1.moves,
        hrotation.sentBack heffect.1 heffect.2 hundone, by simp⟩, ?_⟩
      have := heffect.1.weight
      simp only [List.length_append, List.length_cons, List.length_nil]
      omega
    | last _ hsend => cases hsend
    | next _ _ hsend => cases hsend

theorem pickerCrossSubzoneRoundRobin_ends {n : ℕ} (hbooked : Booked insList c)
    (hundone : c.pickerDone = false) (hpicks : ∀ z, c.pickDistribute z = 0)
    (htol : 0 < c.tolerance) (hmax : 0 < c.maxPerSubZone) (hstocked : Stocked c)
    (hpool : ∀ host ∈ insList, host.subZone ∈ c.priorityElements) (hwithin : Within n c)
    (hfuel : 3 * n < fuel) : RotationEnd insList c (c.pickerCrossSubzoneRoundRobin rt fuel) := by
  have hroom : ∀ y, y ∈ (c.sortSubZoneByBalance rt).1 ↔
      y ∈ c.priorityElements ∧ 0 < c.rooms.zoneRoom y := by
    intro y
    have htotal : c.getSubZoneCurrentTotal y = c.currentHostsBySubZone y := by
      unfold PickerObject.getSubZoneCurrentTotal
      rw [hpicks, Nat.add_zero]
    have hlen : c.queueLen y ≠ 0 ↔ y ∈ c.priorityElements := ⟨mem_of_queueLen, hstocked y⟩
    have hcandidate : c.balanceCandidate c.maxPerSubZone (c.getSubZoneCurrentTotal y)
        (c.canAllocateToSubZone y) = true ↔ (c.currentHostsBySubZone y : ℤ) < c.maxPerSubZone := by
      simp [PickerObject.balanceCandidate, PickerObject.canAllocateToSubZone, htol.le, hmax, htol.ne',
        htotal]
    have hzone : 0 < c.rooms.zoneRoom y ↔ (c.currentHostsBySubZone y : ℤ) < c.maxPerSubZone := by
      show 0 < (c.maxPerSubZone - c.currentHostsBySubZone y).toNat ↔ _
      omega
    rw [mem_sortSubZoneByBalance, hlen, hcandidate, hzone]
  -- a queue that is there holds a host of the pool
  have hhosts : ∀ y ∈ c.priorityElements, ∃ host ∈ insList, host.subZone = y := by
    intro y hy
    obtain ⟨q, hq⟩ := Option.isSome_iff_exists.mp (AList.lookup_isSome.mpr hy)
    have hne := hstocked y hy
    rw [queueLen_of_lookup hq] at hne
    obtain ⟨item, hitem⟩ := List.exists_mem_of_length_pos (Nat.pos_of_ne_zero hne)
    obtain ⟨host, hhost, hkey, -⟩ := hbooked.sourced y q hq item hitem
    exact ⟨host, hhost, hkey⟩
  have hlength : (c.sortSubZoneByBalance rt).1.length ≤ n := order_balance.length n c hwithin
  have hload : c.load ≤ n := hwithin.load
  have hsize : c.priorityElements.size ≤ n := hwithin.size
  have hdraw : Moves c (c.sortSubZoneByBalance rt).2 := moves_draw
  have hdraws : (c.sortSubZoneByBalance rt).2 = { c with draws := c.draws + 1 } := rfl
  unfold PickerObject.pickerCrossSubzoneRoundRobin
  simp only
  generalize c.sortSubZoneByBalance rt = order at *
  obtain ⟨keys, a⟩ := order
  simp only at hroom hlength hdraw hdraws ⊢
  refine RotationEnd.after hdraw ?_
  split
  · rename_i hempty
    refine .allFull .refl fun host hhost => ?_
    by_contra hne
    have hmem := (hroom host.subZone).mpr ⟨hpool host hhost, by
      rw [← rooms_of_limits hdraw.limits]
      omega⟩
    rw [List.isEmpty_iff.mp hempty] at hmem
    cases hmem
  · rename_i hne
    have hne : keys ≠ [] := by simpa using hne
    subst hdraws
    obtain ⟨y, hy⟩ := List.exists_mem_of_ne_nil keys hne
    have hrotation : Rotation insList c.rooms keys { c with draws := c.draws + 1 } := by
      obtain ⟨S, hS, ht⟩ := hbooked.tally
      refine ⟨⟨hbooked.sourced, hbooked.rackLimit, ⟨S, hS, ht.frame⟩, hbooked.accounted⟩, hundone,
        rfl, fun y hy => ?_, fun y hy => ((hroom y).mp hy).2, fun host hhost _ => hpool host hhost⟩
      by_cases hfull : c.rooms.zoneRoom y = 0
      · obtain ⟨host, hhost, hz⟩ := hhosts y hy
        exact .inr ⟨host, hhost, hz, hfull⟩
      · exact .inl ((hroom y).mpr ⟨hy, Nat.pos_of_ne_zero hfull⟩)
    refine rotation_ends hrotation hne ?_ ?_
    · obtain ⟨hmem, hroomy⟩ := (hroom y).mp hy
      obtain ⟨host, hhost, rfl⟩ := hhosts y hmem
      exact ⟨host, hhost, hroomy⟩
    · show c.weight + keys.length < fuel
      unfold PickerObject.weight
      omega

end Rotation

end Resource
