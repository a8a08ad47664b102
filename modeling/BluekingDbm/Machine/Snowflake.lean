import Mathlib.Algebra.Order.Ring.Int
import Mathlib.Data.List.Pairwise
import Mathlib.Data.Nat.Bitwise

/-! Ids of a time, a machine and a number within the millisecond. -/
namespace Machine

def machineIDBits : UInt64 := 10
def sequenceBits : UInt64 := 12
/-- The milliseconds that the clock may be set back. -/
def maxRollbackTimeMillis : UInt64 := 100
def maxMachineID : UInt64 := (1 <<< machineIDBits) - 1
def maxSequence : UInt64 := (1 <<< sequenceBits) - 1
def timeShift : UInt64 := machineIDBits + sequenceBits
def machineShift : UInt64 := sequenceBits

structure Snowflake where
  epoch : UInt64
  machineID : UInt64
  sequence : UInt64
  lastTimestamp : UInt64
  timeBackward : Bool

inductive SnowflakeError
  | machineIDOutOfRange
  | movedBackwardsTooMuch
  | movedBackwardsAfterWaiting
  deriving DecidableEq

def newSnowflake (machineID : UInt64) (epoch : ℤ) : Except SnowflakeError Snowflake :=
  if machineID > maxMachineID then .error .machineIDOutOfRange
  else .ok
    { epoch := UInt64.ofInt epoch
      machineID
      sequence := 0
      lastTimestamp := 0
      timeBackward := false }

namespace Snowflake

/-- The milliseconds since the epoch. -/
def since (s : Snowflake) (now : ℤ) : UInt64 := UInt64.ofInt now - s.epoch

/-- The clock is read until it shows a later millisecond; none where it is not read so often. -/
def waitNextMillis (s : Snowflake) : List ℤ → Option (UInt64 × List ℤ)
  | [] => none
  | now :: clock =>
    if s.since now ≤ s.lastTimestamp then s.waitNextMillis clock else some (s.since now, clock)

/-- The id of the last timestamp. -/
def id (s : Snowflake) : UInt64 :=
  s.lastTimestamp <<< timeShift ||| s.machineID <<< machineShift ||| s.sequence

def stamp (s : Snowflake) (current : UInt64) (clock : List ℤ) :
    Except SnowflakeError UInt64 × Snowflake × List ℤ :=
  let s := { s with lastTimestamp := current }
  (.ok s.id, s, clock)

/-- The end of `NextID`, from a time on that is not before the last one. -/
def issue (s : Snowflake) (current : UInt64) (clock : List ℤ) :
    Option (Except SnowflakeError UInt64 × Snowflake × List ℤ) :=
  if current = s.lastTimestamp then
    let s := { s with sequence := (s.sequence + 1) &&& maxSequence }
    if s.sequence = 0 then (s.waitNextMillis clock).map fun w => s.stamp w.1 w.2
    else some (s.stamp current clock)
  else some ({ s with sequence := current &&& maxSequence }.stamp current clock)

/-- A call, with what the clock shows whenever it is read: what it returns, the generator it leaves,
and what the clock shows from then on. None where it does not return. -/
def nextID (s : Snowflake) :
    List ℤ → Option (Except SnowflakeError UInt64 × Snowflake × List ℤ)
  | [] => none
  | now :: clock =>
    let current := s.since now
    if current < s.lastTimestamp then
      let s := { s with timeBackward := true }
      let offset := s.lastTimestamp - current
      if offset > maxRollbackTimeMillis then some (.error .movedBackwardsTooMuch, s, clock)
      else
        -- after a sleep
        match clock with
        | [] => none
        | now :: clock =>
          let current := s.since now
          if current < s.lastTimestamp then some (.error .movedBackwardsAfterWaiting, s, clock)
          else s.issue current clock
    else s.issue current clock

def parseID (s : Snowflake) (id : UInt64) : UInt64 × UInt64 × UInt64 :=
  ((id >>> timeShift) + s.epoch, (id >>> machineShift) &&& maxMachineID, id &&& maxSequence)

end Snowflake

/-- A call that returned. -/
structure Call where
  clock : List ℤ
  result : Except SnowflakeError UInt64
  after : Snowflake
  rest : List ℤ

/-- The first calls of a generator; none comes behind one that does not return. -/
def calls : ℕ → Snowflake → List ℤ → List Call
  | 0, _, _ => []
  | n + 1, s, clock =>
    match s.nextID clock with
    | none => []
    | some (result, after, rest) => ⟨clock, result, after, rest⟩ :: calls n after rest

/-- The ids that calls returned. -/
def ids (calls : List Call) : List UInt64 :=
  calls.filterMap fun call => call.result.toOption

/-- The clock is not before the epoch, and the milliseconds since then have 41 bits. -/
def InTime (epoch : ℤ) (clock : List ℤ) : Prop :=
  ∀ now ∈ clock, epoch ≤ now ∧ now < epoch + 2 ^ 41

instance (epoch : ℤ) (clock : List ℤ) : Decidable (InTime epoch clock) :=
  inferInstanceAs (Decidable (∀ now ∈ clock, _))

section

variable {s s' : Snowflake} {clock clock' : List ℤ} {epoch now : ℤ} {current : UInt64}
  {result : Except SnowflakeError UInt64}

theorem toNat_ofInt (i : ℤ) : (UInt64.ofInt i).toNat = (i % 2 ^ 64).toNat := by
  have hlt : (i % 2 ^ 64).toNat < 2 ^ 64 := by omega
  rw [UInt64.ofInt]
  exact UInt64.toNat_ofNat_of_lt' hlt

theorem toNat_since (hepoch : s.epoch = UInt64.ofInt epoch) (hnow : epoch ≤ now ∧ now < epoch + 2 ^ 41) :
    (s.since now).toNat = (now - epoch).toNat := by
  rw [Snowflake.since, hepoch, UInt64.toNat_sub, toNat_ofInt, toNat_ofInt]
  omega

/-- The three parts of an id have their own bits. -/
theorem toNat_id (hmachine : s.machineID.toNat < 2 ^ 10) (hsequence : s.sequence.toNat < 2 ^ 12)
    (htime : s.lastTimestamp.toNat < 2 ^ 41) :
    s.id.toNat = s.lastTimestamp.toNat * 2 ^ 22 + s.machineID.toNat * 2 ^ 12 + s.sequence.toNat := by
  have hlow := Nat.shiftLeft_add_eq_or_of_lt hsequence s.machineID.toNat
  have hsmall : s.machineID.toNat <<< 12 + s.sequence.toNat < 2 ^ 22 := by
    rw [Nat.shiftLeft_eq]
    omega
  have hhigh := Nat.shiftLeft_add_eq_or_of_lt hsmall s.lastTimestamp.toNat
  have hmachineLt : s.machineID.toNat <<< 12 < 2 ^ 64 := by
    rw [Nat.shiftLeft_eq]
    omega
  have htimeLt : s.lastTimestamp.toNat <<< 22 < 2 ^ 64 := by
    rw [Nat.shiftLeft_eq]
    omega
  have hid : s.id.toNat = s.lastTimestamp.toNat <<< 22 % 2 ^ 64 |||
      s.machineID.toNat <<< 12 % 2 ^ 64 ||| s.sequence.toNat := by
    rw [Snowflake.id, UInt64.toNat_or, UInt64.toNat_or, UInt64.toNat_shiftLeft,
      UInt64.toNat_shiftLeft]
    rfl
  rw [hid, Nat.mod_eq_of_lt hmachineLt, Nat.mod_eq_of_lt htimeLt, Nat.or_assoc, ← hlow, ← hhigh,
    Nat.shiftLeft_eq, Nat.shiftLeft_eq]
  omega

theorem toNat_and_maxSequence (a : UInt64) : (a &&& maxSequence).toNat = a.toNat % 2 ^ 12 := by
  rw [UInt64.toNat_and]
  exact Nat.and_two_pow_sub_one_eq_mod a.toNat 12

/-- A generator of an epoch and a machine, whose parts are within their bits. -/
structure Sized (epoch : ℤ) (machineID : UInt64) (s : Snowflake) : Prop where
  epoch_eq : s.epoch = UInt64.ofInt epoch
  machine_eq : s.machineID = machineID
  machine_lt : machineID.toNat < 2 ^ 10
  sequence_lt : s.sequence.toNat < 2 ^ 12
  time_lt : s.lastTimestamp.toNat < 2 ^ 41

theorem Sized.toNat_id {machineID : UInt64} (h : Sized epoch machineID s) : s.id.toNat =
    s.lastTimestamp.toNat * 2 ^ 22 + machineID.toNat * 2 ^ 12 + s.sequence.toNat := by
  have hmachine := h.machine_lt
  rw [← h.machine_eq] at hmachine ⊢
  exact Machine.toNat_id hmachine h.sequence_lt h.time_lt

/-- What an id is read as is what it was made of. -/
theorem Sized.parseID {machineID : UInt64} (h : Sized epoch machineID s) :
    s.parseID s.id = (s.lastTimestamp + s.epoch, machineID, s.sequence) := by
  have hid := h.toNat_id
  have hmachine := h.machine_lt
  have hsequence := h.sequence_lt
  have htime : s.id >>> timeShift = s.lastTimestamp := by
    apply UInt64.toNat_inj.mp
    rw [UInt64.toNat_shiftRight]
    change s.id.toNat >>> 22 = _
    rw [Nat.shiftRight_eq_div_pow]
    omega
  have hid' : (s.id >>> machineShift) &&& maxMachineID = machineID := by
    apply UInt64.toNat_inj.mp
    rw [UInt64.toNat_and, UInt64.toNat_shiftRight]
    change s.id.toNat >>> 12 &&& 2 ^ 10 - 1 = _
    rw [Nat.and_two_pow_sub_one_eq_mod, Nat.shiftRight_eq_div_pow]
    omega
  have hnumber : s.id &&& maxSequence = s.sequence := by
    apply UInt64.toNat_inj.mp
    rw [toNat_and_maxSequence]
    omega
  rw [Snowflake.parseID, htime, hid', hnumber]

/-- What an issued id leaves: the time of the last reading, which is later, or the same with the
number after the last one. -/
structure Issued (s s' : Snowflake) (clock clock' : List ℤ) : Prop where
  epoch_eq : s'.epoch = s.epoch
  machine_eq : s'.machineID = s.machineID
  read : ∃ front now, clock = front ++ now :: clock' ∧ s'.lastTimestamp = s.since now
  sequence_lt : s'.sequence.toNat < 2 ^ 12
  later : s.lastTimestamp < s'.lastTimestamp ∨
    s'.lastTimestamp = s.lastTimestamp ∧ s.sequence.toNat < s'.sequence.toNat

theorem waitNextMillis_some (h : s.waitNextMillis clock = some (current, clock')) :
    s.lastTimestamp < current ∧ ∃ front now, clock = front ++ now :: clock' ∧
      current = s.since now := by
  induction clock with
  | nil => cases h
  | cons now clock ih =>
    rw [Snowflake.waitNextMillis] at h
    split_ifs at h with hle
    · obtain ⟨hlater, front, now', rfl, hcurrent⟩ := ih h
      exact ⟨hlater, now :: front, now', rfl, hcurrent⟩
    · obtain ⟨rfl, rfl⟩ := Prod.mk.inj (Option.some.inj h)
      exact ⟨UInt64.not_le.mp hle, [], now, rfl, rfl⟩

theorem issue_some (hsequence : s.sequence.toNat < 2 ^ 12)
    (hlast : s.lastTimestamp ≤ s.since now)
    (h : s.issue (s.since now) clock = some (result, s', clock')) :
    result = .ok s'.id ∧ Issued s s' (now :: clock) clock' := by
  unfold Snowflake.issue at h
  dsimp only at h
  split_ifs at h with hsame hwrap
  · -- the numbers of the millisecond are used up
    cases hwait : ({ s with sequence := s.sequence + 1 &&& maxSequence } : Snowflake).waitNextMillis
        clock with
    | none =>
      rw [hwait] at h
      cases h
    | some w =>
      rw [hwait] at h
      obtain ⟨rfl, hrest⟩ := Prod.mk.inj (Option.some.inj h)
      obtain ⟨rfl, rfl⟩ := Prod.mk.inj hrest
      obtain ⟨hlater, front, now', rfl, hcurrent⟩ := waitNextMillis_some hwait
      refine ⟨rfl, rfl, rfl, ⟨now :: front, now', rfl, hcurrent⟩, ?_, Or.inl hlater⟩
      change (s.sequence + 1 &&& maxSequence).toNat < 2 ^ 12
      rw [toNat_and_maxSequence]
      omega
  · obtain ⟨rfl, hrest⟩ := Prod.mk.inj (Option.some.inj h)
    obtain ⟨rfl, rfl⟩ := Prod.mk.inj hrest
    have hne : (s.sequence + 1 &&& maxSequence).toNat ≠ 0 :=
      fun hzero => hwrap (UInt64.toNat_inj.mp hzero)
    have hnext : (s.sequence + 1 &&& maxSequence).toNat = (s.sequence.toNat + 1) % 2 ^ 12 := by
      rw [toNat_and_maxSequence, UInt64.toNat_add]
      change (s.sequence.toNat + 1) % 2 ^ 64 % 2 ^ 12 = _
      omega
    refine ⟨rfl, rfl, rfl, ⟨[], now, rfl, rfl⟩, ?_, Or.inr ⟨hsame, ?_⟩⟩
    · change (s.sequence + 1 &&& maxSequence).toNat < 2 ^ 12
      omega
    · change s.sequence.toNat < (s.sequence + 1 &&& maxSequence).toNat
      omega
  · obtain ⟨rfl, hrest⟩ := Prod.mk.inj (Option.some.inj h)
    obtain ⟨rfl, rfl⟩ := Prod.mk.inj hrest
    refine ⟨rfl, rfl, rfl, ⟨[], now, rfl, rfl⟩, ?_, Or.inl ?_⟩
    · change (s.since now &&& maxSequence).toNat < 2 ^ 12
      rw [toNat_and_maxSequence]
      omega
    · exact UInt64.lt_of_le_of_ne hlast fun heq => hsame heq.symm

/-- A call fails and changes nothing that an id is made of, or it issues one. -/
theorem nextID_some (hsequence : s.sequence.toNat < 2 ^ 12)
    (h : s.nextID clock = some (result, s', clock')) :
    ((∃ e, result = .error e) ∧ s' = { s with timeBackward := true } ∧ clock' <:+ clock) ∨
      (result = .ok s'.id ∧ Issued s s' clock clock') := by
  rcases clock with _ | ⟨now, clock⟩
  · cases h
  rw [Snowflake.nextID] at h
  dsimp only at h
  split_ifs at h with hback hmuch
  · obtain ⟨rfl, hrest⟩ := Prod.mk.inj (Option.some.inj h)
    obtain ⟨rfl, rfl⟩ := Prod.mk.inj hrest
    exact Or.inl ⟨⟨_, rfl⟩, rfl, List.suffix_cons now clock⟩
  · -- the clock is read once more
    rcases clock with _ | ⟨now', clock⟩
    · cases h
    dsimp only at h
    split_ifs at h with hstill
    · obtain ⟨rfl, hrest⟩ := Prod.mk.inj (Option.some.inj h)
      obtain ⟨rfl, rfl⟩ := Prod.mk.inj hrest
      exact Or.inl ⟨⟨_, rfl⟩, rfl, (List.suffix_cons now' clock).trans (List.suffix_cons now _)⟩
    · obtain ⟨hresult, hepoch, hmachine, ⟨front, last, hread, htime⟩, hnumber, hlater⟩ :=
        issue_some (s := { s with timeBackward := true }) hsequence (UInt64.not_lt.mp hstill) h
      refine Or.inr ⟨hresult, hepoch, hmachine, ⟨now :: front, last, ?_, htime⟩, hnumber, hlater⟩
      rw [hread, List.cons_append]
  · exact Or.inr (issue_some hsequence (UInt64.not_lt.mp hback) h)

theorem InTime.suffix (h : InTime epoch clock) (hsuffix : clock' <:+ clock) : InTime epoch clock' :=
  fun now hnow => h now (hsuffix.subset hnow)

theorem Issued.suffix (h : Issued s s' clock clock') : clock' <:+ clock := by
  obtain ⟨front, now, rfl, -⟩ := h.read
  exact ⟨front ++ [now], by rw [List.append_assoc]; rfl⟩

theorem Issued.sized {machineID : UInt64} (h : Issued s s' clock clock')
    (hs : Sized epoch machineID s) (hclock : InTime epoch clock) : Sized epoch machineID s' := by
  obtain ⟨front, now, rfl, htime⟩ := h.read
  have hnow := hclock now (List.mem_append_right front List.mem_cons_self)
  refine ⟨h.epoch_eq.trans hs.epoch_eq, h.machine_eq.trans hs.machine_eq, hs.machine_lt,
    h.sequence_lt, ?_⟩
  rw [htime, toNat_since hs.epoch_eq hnow]
  omega

theorem Issued.id_lt {machineID : UInt64} (h : Issued s s' clock clock')
    (hs : Sized epoch machineID s) (hs' : Sized epoch machineID s') : s.id < s'.id := by
  rw [UInt64.lt_iff_toNat_lt, hs.toNat_id, hs'.toNat_id]
  have hnumber := hs.sequence_lt
  have hmachine := hs.machine_lt
  rcases h.later with hlater | ⟨hsame, hnext⟩
  · rw [UInt64.lt_iff_toNat_lt] at hlater
    omega
  · rw [hsame]
    omega

theorem Sized.backward {machineID : UInt64} (h : Sized epoch machineID s) :
    Sized epoch machineID { s with timeBackward := true } :=
  ⟨h.epoch_eq, h.machine_eq, h.machine_lt, h.sequence_lt, h.time_lt⟩

/-- What the calls of a generator return is above its last id, rises, and is read as it was made. -/
theorem calls_rising {machineID : UInt64} (n : ℕ) (hs : Sized epoch machineID s)
    (hclock : InTime epoch clock) :
    (∀ id ∈ ids (calls n s clock), s.id < id) ∧ (ids (calls n s clock)).Pairwise (· < ·) ∧
    ∀ call ∈ calls n s clock, ∀ id, call.result = .ok id → Sized epoch machineID call.after ∧
      id = call.after.id ∧ ∃ front now, call.clock = front ++ now :: call.rest ∧
        call.after.lastTimestamp = UInt64.ofInt now - call.after.epoch := by
  induction n generalizing s clock with
  | zero =>
    exact ⟨fun id hid => absurd hid List.not_mem_nil, List.Pairwise.nil,
      fun call hcall => absurd hcall List.not_mem_nil⟩
  | succ n ih =>
    rw [calls]
    cases hnext : s.nextID clock with
    | none =>
      exact ⟨fun id hid => absurd hid List.not_mem_nil, List.Pairwise.nil,
        fun call hcall => absurd hcall List.not_mem_nil⟩
    | some returned =>
      obtain ⟨result, after, rest⟩ := returned
      dsimp only
      rcases nextID_some hs.sequence_lt hnext with
        ⟨⟨e, rfl⟩, rfl, hsuffix⟩ | ⟨rfl, hissued⟩
      · obtain ⟨habove, hrising, hread⟩ := ih hs.backward (hclock.suffix hsuffix)
        refine ⟨habove, hrising, fun call hcall id hid => ?_⟩
        rcases List.mem_cons.mp hcall with rfl | hcall
        · cases hid
        · exact hread call hcall id hid
      · have hafter := hissued.sized hs hclock
        have hid := hissued.id_lt hs hafter
        obtain ⟨habove, hrising, hread⟩ := ih hafter (hclock.suffix hissued.suffix)
        have hids : ids (⟨clock, .ok after.id, after, rest⟩ :: calls n after rest) =
            after.id :: ids (calls n after rest) := rfl
        rw [hids]
        refine ⟨fun id hmem => ?_, List.pairwise_cons.mpr ⟨habove, hrising⟩,
          fun call hcall id hcid => ?_⟩
        · rcases List.mem_cons.mp hmem with rfl | hmem
          · exact hid
          · exact UInt64.lt_trans hid (habove id hmem)
        · rcases List.mem_cons.mp hcall with rfl | hcall
          · obtain ⟨front, now, hclockEq, htime⟩ := hissued.read
            refine ⟨hafter, (Except.ok.inj hcid).symm, front, now, hclockEq, ?_⟩
            rw [htime, Snowflake.since, hissued.epoch_eq]
          · exact hread call hcall id hcid

/-- What a generator promises of its ids: they rise, each is read as the time, the machine and the
number that it was made of, and no other machine of the epoch has one of them. -/
structure Unique (epoch : ℤ) (machineID : UInt64) (made : List Call) : Prop where
  rising : (ids made).Pairwise (· < ·)
  parsed : ∀ call ∈ made, ∀ id, call.result = .ok id → ∃ front now,
    call.clock = front ++ now :: call.rest ∧
      call.after.parseID id = (UInt64.ofInt now, machineID, call.after.sequence)
  apart : ∀ machineID' s' clock' n', newSnowflake machineID' epoch = .ok s' →
    machineID' ≠ machineID → InTime epoch clock' → ∀ id ∈ ids made, id ∉ ids (calls n' s' clock')

theorem newSnowflake_ok {machineID : UInt64} (h : newSnowflake machineID epoch = .ok s) :
    Sized epoch machineID s := by
  unfold newSnowflake at h
  split_ifs at h with hrange
  obtain rfl := Except.ok.inj h
  have hle : machineID.toNat ≤ 1023 := UInt64.le_iff_toNat_le.mp (UInt64.not_lt.mp hrange)
  exact ⟨rfl, rfl, by omega, Nat.two_pow_pos 12, Nat.two_pow_pos 41⟩

theorem mem_ids {made : List Call} {id : UInt64} :
    id ∈ ids made ↔ ∃ call ∈ made, call.result = .ok id := by
  unfold ids
  rw [List.mem_filterMap]
  refine exists_congr fun call => and_congr_right fun _ => ?_
  cases call.result <;> simp [Except.toOption]

/-- Any number of calls, whatever the clock shows within the bits of the time, failed calls among
them. -/
theorem calls_unique {machineID : UInt64} (h : newSnowflake machineID epoch = .ok s)
    (hclock : InTime epoch clock) (n : ℕ) : Unique epoch machineID (calls n s clock) := by
  obtain ⟨-, hrising, hread⟩ := calls_rising n (newSnowflake_ok h) hclock
  refine ⟨hrising, fun call hcall id hid => ?_, fun machineID' s' clock' n' h' hne hclock' id hid => ?_⟩
  · obtain ⟨hafter, rfl, front, now, hclockEq, htime⟩ := hread call hcall id hid
    refine ⟨front, now, hclockEq, ?_⟩
    rw [hafter.parseID, htime, UInt64.sub_add_cancel]
  · intro hid'
    obtain ⟨call, hcall, hcid⟩ := mem_ids.mp hid
    obtain ⟨call', hcall', hcid'⟩ := mem_ids.mp hid'
    obtain ⟨hafter, heq, -⟩ := hread call hcall id hcid
    obtain ⟨hafter', heq', -⟩ :=
      (calls_rising n' (newSnowflake_ok h') hclock').2.2 call' hcall' id hcid'
    apply hne
    have hparse := congrArg (fun p => p.2.1) hafter.parseID
    have hparse' := congrArg (fun p => p.2.1) hafter'.parseID
    rw [← heq] at hparse
    rw [← heq'] at hparse'
    exact hparse'.symm.trans hparse

/-- Three calls within a millisecond, and one where the clock is set back too far. -/
theorem calls_unique_sample : Unique 0 1 (calls 4 ⟨UInt64.ofInt 0, 1, 0, 0, false⟩
    [500, 500, 500, 200]) :=
  calls_unique rfl (by decide) 4

end

end Machine
