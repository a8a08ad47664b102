import BluekingDbm.Rollback.Shards
import BluekingDbm.Library.Ranging
import Mathlib.Data.List.AList
import Mathlib.Data.List.Dedup

/-! The slots that the actuator reads, and its check that they make a whole cluster. -/
namespace Rollback

open Numeral

def clusterSlotCount : ℤ := 16384

/-- The bounds of one item of a slot list. -/
def itemBounds (item : String) : Option (ℤ × ℤ) :=
  match Text.splitN2 item '-' with
  | [slot] => (atoi slot).map fun n => (n, n)
  | [first, last] => (atoi first).bind fun a => (atoi last).map fun b => (a, b)
  | _ => none

/-- The bounds, if they are in order and in range. -/
def parseBounds (item : String) : Option (ℤ × ℤ) :=
  (itemBounds item).filter fun p => ¬ (p.1 < 0 ∨ clusterSlotCount ≤ p.2 ∨ p.2 < p.1)

/-- The loop over the items: the slots seen, or the item that is not one. -/
def readItems (s : String) : List String → List ℤ → Except String (List ℤ)
  | [], seen => .ok seen
  | item :: rest, seen =>
    let item := Text.trimSpace item
    if item = "" then readItems s rest seen
    else
      match parseBounds item with
      | none => .error ("invalid slots " ++ item ++ " in " ++ s)
      | some p => readItems s rest (seen ++ slotRange p)

def parseSlots (s : String) : Except String (List ℤ) :=
  (readItems s (Text.split s ',') []).map fun seen => seen.dedup.mergeSort

structure FormNode where
  ip : String
  port : ℤ
  slots : String

def FormNode.addr (n : FormNode) : String := n.ip ++ ":" ++ Text.decimal n.port

/-- The loop over the planned slots of one node. -/
def claimSlots (addr : String) :
    List ℤ → (AList fun _ : ℤ => String) → Except String (AList fun _ : ℤ => String)
  | [], owner => .ok owner
  | slot :: rest, owner =>
    match owner.lookup slot with
    | some prev =>
      .error ("slot " ++ Text.decimal slot ++ " planned for both " ++ prev ++ " and " ++ addr)
    | none => claimSlots addr rest (owner.insert slot addr)

def claimNodes :
    List FormNode → (AList fun _ : ℤ => String) → Except String (AList fun _ : ℤ => String)
  | [], owner => .ok owner
  | n :: rest, owner =>
    match parseSlots n.slots with
    | .error message => .error message
    | .ok planned =>
      match claimSlots n.addr planned owner with
      | .error message => .error message
      | .ok owner => claimNodes rest owner

/-- What `FormCluster` checks of the plan before it changes any node. -/
def checkPlan (r : RangeOrder FormNode) (nodes : List FormNode) :
    Except String (AList fun _ : ℤ => String) :=
  if nodes = [] then .error "no nodes to form a cluster"
  else
    match claimNodes (r.sortSlice (fun a b => a.addr < b.addr) nodes) ∅ with
    | .error message => .error message
    | .ok owner =>
      if Int.ofNat owner.entries.length ≠ clusterSlotCount then
        .error ("plan covers " ++ Text.decimal (Int.ofNat owner.entries.length) ++ " of " ++
          Text.decimal clusterSlotCount ++ " slots")
      else .ok owner

section Reading

variable {p : ℤ × ℤ} {ranges : List (ℤ × ℤ)} {value s : String} {seen slots : List ℤ} {slot : ℤ}

theorem decimal_nonneg {n : ℤ} (h : 0 ≤ n) : Text.decimal n = n.toNat.repr := by
  obtain ⟨m, rfl⟩ := Int.eq_ofNat_of_zero_le h
  rfl

/-- A rendered range is digits, with one sign between them if it has two bounds. -/
theorem renderRange_chars {c : Char} (h : c ∈ (renderRange p).toList) :
    c.isDigit = true ∨ c = '-' := by
  rw [renderRange] at h
  split at h
  · exact Text.mem_decimal h
  · simp only [String.toList_append, List.mem_append] at h
    rcases h with (h | h) | h
    · exact Text.mem_decimal h
    · exact Or.inr (by simpa using h)
    · exact Text.mem_decimal h

theorem renderRange_trim (p : ℤ × ℤ) : Text.trimSpace (renderRange p) = renderRange p := by
  apply Text.trimSpace_eq
  intro c hc
  rcases renderRange_chars hc with hdigit | rfl
  · exact Text.isSpace_of_isDigit hdigit
  · rfl

theorem renderRange_ne (hp : ValidRange p) : renderRange p ≠ "" := by
  have hne : ∀ n : ℕ, n.repr ≠ "" := fun n h => Text.repr_ne_nil n (congrArg String.toList h)
  rw [renderRange, decimal_nonneg hp.1]
  intro h
  split at h
  · exact hne _ h
  · have hlist := congrArg String.toList h
    simp at hlist

theorem itemBounds_renderRange {m n : ℕ} (h : m ≤ n) :
    itemBounds (renderRange (m, n)) = if n < 2 ^ 63 then some ((m : ℤ), (n : ℤ)) else none := by
  unfold itemBounds renderRange
  by_cases hsame : m = n
  · subst hsame
    have hsplit : Text.splitN2 (Text.decimal (m : ℤ)) '-' = [m.repr] :=
      Text.splitN2_eq_self (Text.repr_no_sign m)
    simp only [if_true, hsplit, atoi_repr]
    by_cases hm : m < 2 ^ 63
    · rw [if_pos hm, if_pos hm]
      rfl
    · rw [if_neg hm, if_neg hm]
      rfl
  · have hne : (m : ℤ) ≠ n := by omega
    have hsplit : Text.splitN2 (Text.decimal (m : ℤ) ++ "-" ++ Text.decimal (n : ℤ)) '-' =
        [m.repr, n.repr] := Text.splitN2_append rfl (Text.repr_no_sign m)
    simp only [hne, if_false, hsplit, atoi_repr]
    by_cases hn : n < 2 ^ 63
    · have hm : m < 2 ^ 63 := by omega
      rw [if_pos hm, if_pos hn, if_pos hn]
      rfl
    · by_cases hm : m < 2 ^ 63
      · rw [if_pos hm, if_neg hn, if_neg hn]
        rfl
      · rw [if_neg hm, if_neg hn, if_neg hn]
        rfl

/-- The actuator reads the bounds that were rendered, and refuses them past the last slot. -/
theorem parseBounds_renderRange (hp : ValidRange p) :
    parseBounds (renderRange p) = if p.2 < clusterSlotCount then some p else none := by
  obtain ⟨a, b⟩ := p
  obtain ⟨ha, hb⟩ := hp
  obtain ⟨m, rfl⟩ := Int.eq_ofNat_of_zero_le ha
  obtain ⟨n, rfl⟩ := Int.eq_ofNat_of_zero_le (ha.trans hb)
  have hmn : m ≤ n := by
    simp only at hb
    omega
  rw [parseBounds, itemBounds_renderRange hmn, clusterSlotCount]
  by_cases hn : n < 2 ^ 63
  · rw [if_pos hn, Option.filter_some]
    have hbounds : ¬ ((m : ℤ) < 0 ∨ 16384 ≤ (n : ℤ) ∨ (n : ℤ) < m) ↔ (n : ℤ) < 16384 := by omega
    simp only [hbounds, decide_eq_true_eq]
  · have hbig : ¬ (n : ℤ) < 16384 := by omega
    simp [hn, hbig]

theorem readItems_renderRange (hranges : ∀ p ∈ ranges, ValidRange p) :
    if ∀ p ∈ ranges, p.2 < clusterSlotCount then
      readItems s (ranges.map renderRange) seen = .ok (seen ++ ranges.flatMap slotRange)
    else ∃ message, readItems s (ranges.map renderRange) seen = .error message := by
  induction ranges generalizing seen with
  | nil => simp [readItems]
  | cons p ranges ih =>
    obtain ⟨hp, hrest⟩ := List.forall_mem_cons.mp hranges
    rw [List.map_cons, readItems]
    simp only [renderRange_trim p, renderRange_ne hp, if_false, parseBounds_renderRange hp]
    by_cases hlt : p.2 < clusterSlotCount
    · have hall : (∀ q ∈ p :: ranges, q.2 < clusterSlotCount) ↔
          ∀ q ∈ ranges, q.2 < clusterSlotCount := by simp [hlt]
      simp only [hall, hlt, if_true, List.flatMap_cons, ← List.append_assoc]
      exact ih hrest
    · simp [hlt]

/-- Reading back rendered ranges: their slots once each, or an error if one is past the last. -/
theorem parseSlots_renderRange (hranges : ∀ p ∈ ranges, ValidRange p) :
    if ∀ p ∈ ranges, p.2 < clusterSlotCount then
      ∃ slots, parseSlots (",".intercalate (ranges.map renderRange)) = .ok slots ∧ slots.Nodup ∧
        ∀ slot, slot ∈ slots ↔ slot ∈ ranges.flatMap slotRange
    else ∃ message, parseSlots (",".intercalate (ranges.map renderRange)) = .error message := by
  have hread : readItems (",".intercalate (ranges.map renderRange))
      (Text.split (",".intercalate (ranges.map renderRange)) ',') [] =
      readItems (",".intercalate (ranges.map renderRange)) (ranges.map renderRange) [] := by
    cases ranges with
    | nil => rfl
    | cons p ranges =>
      rw [Text.split_intercalate rfl (by simp)]
      intro item hitem hcomma
      obtain ⟨q, hq, rfl⟩ := List.mem_map.mp hitem
      rcases renderRange_chars hcomma with h | h
      · cases h
      · cases h
  have hitems := @readItems_renderRange ranges (",".intercalate (ranges.map renderRange)) [] hranges
  unfold parseSlots
  rw [hread]
  split
  · rename_i hlt
    rw [if_pos hlt] at hitems
    rw [hitems]
    refine ⟨_, rfl, ?_, ?_⟩
    · exact (List.mergeSort_perm _ _).nodup_iff.mpr (List.nodup_dedup _)
    · intro slot
      rw [List.mem_mergeSort, List.mem_dedup, List.nil_append]
  · rename_i hlt
    rw [if_neg hlt] at hitems
    obtain ⟨message, hmessage⟩ := hitems
    exact ⟨message, by rw [hmessage]; rfl⟩

/-- The merged ranges of a value stay below the last slot when its slots do. -/
theorem mergedRanges_bound :
    (∀ p ∈ mergedRanges (parseShardValue value).ranges, p.2 < clusterSlotCount) ↔
      ∀ slot ∈ slotsOf value, slot < clusterSlotCount := by
  have hvalid := mergedRanges_valid (parseShardValue_valid value)
  constructor
  · intro h slot hslot
    obtain ⟨p, hp, hin⟩ := List.mem_flatMap.mp (mergedRanges_slots.mpr hslot)
    have hp2 := h p hp
    have hle := (mem_slotRange.mp hin).2
    omega
  · intro h p hp
    apply h
    apply mergedRanges_slots.mp
    exact List.mem_flatMap.mpr ⟨p, hp, mem_slotRange.mpr ⟨(hvalid p hp).2, le_rfl⟩⟩

theorem slotRanges_eq : slotRanges value =
    ",".intercalate ((mergedRanges (parseShardValue value).ranges).map renderRange) := by
  cases h : (parseShardValue value).parseable with
  | true => simp [slotRanges, h]
  | false =>
    have hnil := parseShardValue_unparseable h
    simp [slotRanges, h, hnil, mergedRanges]

/-- What the actuator reads of the slots that were rendered for a value. -/
theorem parseSlots_slotRanges (value : String) :
    ((∀ slot ∈ slotsOf value, slot < clusterSlotCount) →
      ∃ slots, parseSlots (slotRanges value) = .ok slots ∧ slots.Nodup ∧
        ∀ slot, slot ∈ slots ↔ slot ∈ slotsOf value) ∧
    ((¬ ∀ slot ∈ slotsOf value, slot < clusterSlotCount) →
      ∃ message, parseSlots (slotRanges value) = .error message) := by
  have hread := parseSlots_renderRange (mergedRanges_valid (parseShardValue_valid value))
  rw [← slotRanges_eq] at hread
  simp only [mergedRanges_bound, mergedRanges_slots] at hread
  constructor
  · intro hall
    rwa [if_pos hall] at hread
  · intro hnot
    rwa [if_neg hnot] at hread

end Reading

section Claims

variable {addr : String} {planned : List ℤ} {owner : AList fun _ : ℤ => String} {slot : ℤ}
  {nodes : List FormNode}

theorem claimSlots_ok (hnodup : planned.Nodup) (hfree : ∀ slot ∈ planned, slot ∉ owner) :
    ∃ owner', claimSlots addr planned owner = .ok owner' ∧
      ∀ slot, slot ∈ owner' ↔ slot ∈ planned ∨ slot ∈ owner := by
  induction planned generalizing owner with
  | nil => exact ⟨owner, rfl, by simp⟩
  | cons slot rest ih =>
    obtain ⟨hnew, hrest⟩ := List.nodup_cons.mp hnodup
    have hslot := AList.lookup_eq_none.mpr (hfree slot List.mem_cons_self)
    obtain ⟨owner', hok, hmem⟩ := @ih (owner.insert slot addr) hrest (by
      intro other hother hin
      rcases (AList.mem_insert _).mp hin with rfl | hin
      · exact hnew hother
      · exact hfree other (List.mem_cons_of_mem _ hother) hin)
    refine ⟨owner', by rw [claimSlots, hslot]; exact hok, ?_⟩
    intro other
    rw [hmem, AList.mem_insert, List.mem_cons]
    tauto

/-- A node whose slots are read as `planned`. -/
structure Reads (n : FormNode) (planned : List ℤ) : Prop where
  read : parseSlots n.slots = .ok planned
  nodup : planned.Nodup

theorem claimNodes_ok (plan : FormNode → List ℤ) (hreads : ∀ n ∈ nodes, Reads n (plan n))
    (hdisjoint : nodes.Pairwise fun a b => ∀ slot, slot ∈ plan a → slot ∉ plan b)
    (hfree : ∀ n ∈ nodes, ∀ slot ∈ plan n, slot ∉ owner) :
    ∃ owner', claimNodes nodes owner = .ok owner' ∧
      ∀ slot, slot ∈ owner' ↔ (∃ n ∈ nodes, slot ∈ plan n) ∨ slot ∈ owner := by
  induction nodes generalizing owner with
  | nil => exact ⟨owner, rfl, by simp⟩
  | cons n rest ih =>
    obtain ⟨hn, hrest⟩ := List.forall_mem_cons.mp hreads
    obtain ⟨hapart, hdisjoint⟩ := List.pairwise_cons.mp hdisjoint
    obtain ⟨hnfree, hrestfree⟩ := List.forall_mem_cons.mp hfree
    obtain ⟨claimed, hclaim, hclaimed⟩ := @claimSlots_ok n.addr _ _ hn.nodup hnfree
    obtain ⟨owner', hok, hmem⟩ := @ih claimed hrest hdisjoint (by
      intro other hother slot hslot hin
      rcases (hclaimed slot).mp hin with hin | hin
      · exact hapart other hother slot hin hslot
      · exact hrestfree other hother slot hslot hin)
    refine ⟨owner', by rw [claimNodes, hn.read]; simp only [hclaim]; exact hok, ?_⟩
    intro slot
    rw [hmem, hclaimed, List.exists_mem_cons_iff, or_left_comm, or_assoc]

/-- Disjoint slots that make up the whole cluster pass the check. -/
theorem checkPlan_ok (r : RangeOrder FormNode) (plan : FormNode → List ℤ)
    (hreads : ∀ n ∈ nodes, Reads n (plan n))
    (hdisjoint : nodes.Pairwise fun a b => ∀ slot, slot ∈ plan a → slot ∉ plan b)
    (hunion : ∀ slot, (∃ n ∈ nodes, slot ∈ plan n) ↔ 0 ≤ slot ∧ slot < clusterSlotCount) :
    ∃ owner, checkPlan r nodes = .ok owner := by
  have hperm := r.perm_sortSlice (l := nodes) fun a b => decide (a.addr < b.addr)
  have hne : nodes ≠ [] := by
    rintro rfl
    obtain ⟨n, hn, -⟩ := (hunion 0).mpr ⟨le_rfl, by decide⟩
    cases hn
  have hsymm : ∀ a b, (∀ slot, slot ∈ plan a → slot ∉ plan b) →
      ∀ slot, slot ∈ plan b → slot ∉ plan a := by
    intro a b h slot hb ha
    exact h slot ha hb
  obtain ⟨owner, hok, hmem⟩ := @claimNodes_ok ∅ _ plan
    (fun n hn => hreads n (hperm.mem_iff.mp hn))
    ((hperm.pairwise_iff fun {a b} => hsymm a b).mpr hdisjoint)
    (fun _ _ _ _ => AList.notMem_empty _)
  have hkeys : owner.keys.Perm (slotRange (0, clusterSlotCount - 1)) := by
    refine (List.perm_ext_iff_of_nodup (AList.keys_nodup owner) slotRange_nodup).mpr ?_
    intro slot
    have hslot := hmem slot
    simp only [hperm.mem_iff, hunion slot, AList.notMem_empty, or_false] at hslot
    rw [mem_slotRange, ← AList.mem_keys, hslot]
    dsimp only
    omega
  have hlength : owner.entries.length = 16384 := by
    have hlen := hkeys.length_eq
    rw [slotRange_length] at hlen
    simpa [AList.keys, List.keys, clusterSlotCount] using hlen
  refine ⟨owner, ?_⟩
  rw [checkPlan, if_neg hne, hok]
  simp [hlength, clusterSlotCount]

end Claims

/-- What the actuator finds in a layout: it reads for each value the slots that the value stands
for, no slot is claimed twice, together they are all the slots, and the plan of any nodes that are
given these slots passes. -/
structure Accepted (layout : List String) : Prop where
  read : ∀ value ∈ layout, ∃ slots, parseSlots (slotRanges value) = .ok slots ∧
    ∀ slot, slot ∈ slots ↔ slot ∈ slotsOf value
  disjoint : Disjoint layout
  union : ∀ slot, (∃ value ∈ layout, slot ∈ slotsOf value) ↔ 0 ≤ slot ∧ slot < clusterSlotCount
  plan : ∀ r nodes, nodes.map FormNode.slots = layout.map slotRanges →
    ∃ owner, checkPlan r nodes = .ok owner

section Layouts

variable {layout shards placeholders : List String} {value : String} {slot : ℤ}

theorem slotsOf_nonneg (h : slot ∈ slotsOf value) : 0 ≤ slot := by
  obtain ⟨p, hp, hslot⟩ := List.mem_flatMap.mp h
  exact (parseShardValue_valid value p hp).1.trans (mem_slotRange.mp hslot).1

/-- The slots that are read from a rendered list. -/
def readSlots (s : String) : List ℤ :=
  match parseSlots s with
  | .ok slots => slots
  | .error _ => []

theorem readSlots_slotRanges (h : ∀ slot ∈ slotsOf value, slot < clusterSlotCount) :
    parseSlots (slotRanges value) = .ok (readSlots (slotRanges value)) ∧
      (readSlots (slotRanges value)).Nodup ∧
      ∀ slot, slot ∈ readSlots (slotRanges value) ↔ slot ∈ slotsOf value := by
  obtain ⟨slots, hok, hnodup, hmem⟩ := (parseSlots_slotRanges value).1 h
  have hread : readSlots (slotRanges value) = slots := by
    rw [readSlots, hok]
  rw [hread]
  exact ⟨hok, hnodup, hmem⟩

theorem parseSlots_past (h : slot ∈ slotsOf value) (hpast : clusterSlotCount ≤ slot) :
    ∃ message, parseSlots (slotRanges value) = .error message := by
  apply (parseSlots_slotRanges value).2
  intro hall
  have hlt := hall slot h
  omega

/-- Disjoint values that cover the cluster and stay within it are accepted. -/
theorem accepted (hdisjoint : Disjoint layout)
    (hcovered : ∀ slot, 0 ≤ slot → slot < clusterSlotCount →
      ∃ value ∈ layout, slot ∈ slotsOf value)
    (hbound : ∀ value ∈ layout, ∀ slot ∈ slotsOf value, slot < clusterSlotCount) :
    Accepted layout := by
  have hread := fun value hvalue => readSlots_slotRanges (hbound value hvalue)
  have hunion : ∀ slot, (∃ value ∈ layout, slot ∈ slotsOf value) ↔
      0 ≤ slot ∧ slot < clusterSlotCount := by
    intro slot
    constructor
    · rintro ⟨value, hvalue, hslot⟩
      exact ⟨slotsOf_nonneg hslot, hbound value hvalue slot hslot⟩
    · rintro ⟨hstart, hstop⟩
      exact hcovered slot hstart hstop
  refine ⟨?_, hdisjoint, hunion, ?_⟩
  · intro value hvalue
    exact ⟨_, (hread value hvalue).1, (hread value hvalue).2.2⟩
  · intro r nodes hnodes
    have hvalue : ∀ n ∈ nodes, ∃ value ∈ layout, slotRanges value = n.slots := by
      intro n hn
      have hslots : n.slots ∈ layout.map slotRanges := hnodes ▸ List.mem_map_of_mem hn
      exact List.mem_map.mp hslots
    have hapart : (nodes.map FormNode.slots).Pairwise fun a b =>
        ∀ slot, slot ∈ readSlots a → slot ∉ readSlots b := by
      rw [hnodes, List.pairwise_map]
      refine hdisjoint.imp_of_mem ?_
      intro left right hl hr h slot hleft hright
      exact h slot (((hread left hl).2.2 slot).mp hleft) (((hread right hr).2.2 slot).mp hright)
    apply checkPlan_ok r (fun n => readSlots n.slots)
    · intro n hn
      obtain ⟨value, hv, heq⟩ := hvalue n hn
      rw [← heq]
      exact ⟨heq ▸ (hread value hv).1, (hread value hv).2.1⟩
    · exact List.pairwise_map.mp hapart
    · intro slot
      rw [← hunion slot]
      constructor
      · rintro ⟨n, hn, hslot⟩
        obtain ⟨value, hv, heq⟩ := hvalue n hn
        rw [← heq] at hslot
        exact ⟨value, hv, ((hread value hv).2.2 slot).mp hslot⟩
      · rintro ⟨value, hv, hslot⟩
        have hslots : slotRanges value ∈ nodes.map FormNode.slots :=
          hnodes ▸ List.mem_map_of_mem hv
        obtain ⟨n, hn, heq⟩ := List.mem_map.mp hslots
        refine ⟨n, hn, ?_⟩
        rw [heq]
        exact ((hread value hv).2.2 slot).mpr hslot

/-- A layout that the planner lets pass is one that the actuator accepts, as long as none of its
slots lies past the last slot of a cluster; and only then. -/
theorem layout_accepted_iff (shards placeholders : List String) :
    (layoutOk shards placeholders = true → Accepted (shards ++ placeholders)) ↔
      (layoutOk shards placeholders = true →
        ∀ value ∈ shards ++ placeholders, ∀ slot ∈ slotsOf value, slot < clusterSlotCount) := by
  constructor
  · intro h hok value hvalue slot hslot
    exact (((h hok).union slot).mp ⟨value, hvalue, hslot⟩).2
  · intro h hok
    obtain ⟨-, hdisjoint, hcovered⟩ := layoutOk_iff.mp hok
    exact accepted hdisjoint hcovered (h hok)

/-- A value that goes past the last slot passes the planner, and the actuator cannot read it. -/
theorem layout_past_last_slot :
    layoutOk ["0-20000"] [] = true ∧
      (∃ message, parseSlots (slotRanges "0-20000") = .error message) ∧
      ¬ (layoutOk ["0-20000"] [] = true → Accepted (["0-20000"] ++ [])) := by
  have hparse : parseShardValue "0-20000" = ⟨[(0, 20000)], true, ""⟩ := by decide +kernel
  have hmem : ∀ slot, slot ∈ slotsOf "0-20000" ↔ 0 ≤ slot ∧ slot ≤ 20000 := by
    intro slot
    simp [slotsOf, hparse, ShardParseResult.slots, mem_slotRange]
  have hok : layoutOk ["0-20000"] [] = true := by
    refine layoutOk_iff.mpr ⟨?_, List.pairwise_singleton _ _, ?_⟩
    · simp [hparse]
    · intro slot hstart hstop
      have hlast : slot < 16384 := hstop
      exact ⟨"0-20000", by simp, (hmem slot).mpr ⟨hstart, by omega⟩⟩
  have hpast : (20000 : ℤ) ∈ slotsOf "0-20000" := (hmem 20000).mpr (by omega)
  refine ⟨hok, ?_, ?_⟩
  · exact parseSlots_past hpast (by decide)
  · intro h
    have hlast := (((h hok).union 20000).mp ⟨"0-20000", by simp, hpast⟩).2
    exact absurd hlast (by decide)

end Layouts

end Rollback
