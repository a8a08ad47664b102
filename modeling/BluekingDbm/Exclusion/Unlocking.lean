import BluekingDbm.Exclusion.Record
import Mathlib.Data.List.Induction

/-! The calls that unlock ticket types on a record and lock them again, and what the record then lets
pass. -/
namespace Exclusion

/-- The calls on a record, with a list of ticket types or none. -/
inductive UnlockCall
  | unlock (unlockTicketTypeList : Option (List String))
  | remove (removeTicketTypeList : Option (List String))
deriving DecidableEq

/-- The ticket types of a call; without a list everything is unlocked, or nothing is removed. -/
def UnlockCall.types : UnlockCall → List String
  | .unlock unlockTicketTypeList => unlockTicketTypeList.getD ["*"]
  | .remove removeTicketTypeList => removeTicketTypeList.getD []

def UnlockCall.unlocks : UnlockCall → Bool
  | .unlock _ => true
  | .remove _ => false

/-- `remove_unlock_ticket_type_config_operations`. -/
def ClusterOperateRecord.removeUnlock (record : ClusterOperateRecord) (ticketTypes : List String) :
    ClusterOperateRecord :=
  let left := record.unlockTicketTypeCondition.dedup.filter fun item => decide (item ∉ ticketTypes)
  { record with unlockTicketTypeCondition := if "*" ∈ ticketTypes then [] else left }

def ClusterOperateRecord.call (record : ClusterOperateRecord) (call : UnlockCall) :
    ClusterOperateRecord :=
  if call.unlocks then record.unlock call.types else record.removeUnlock call.types

def ClusterOperateRecord.calls (record : ClusterOperateRecord) (calls : List UnlockCall) :
    ClusterOperateRecord :=
  calls.foldl ClusterOperateRecord.call record

/-- The last call whose types are so is one that unlocks. -/
def LastUnlocks (mentions : List String → Prop) (calls : List UnlockCall) : Prop :=
  ∃ before call after, calls = before ++ call :: after ∧ mentions call.types ∧ call.unlocks = true ∧
    ∀ later ∈ after, ¬ mentions later.types

def Wildcard (types : List String) : Prop := "*" ∈ types

def Mentions (ticketType : String) (types : List String) : Prop := ticketType ∈ types ∨ "*" ∈ types

section Last

variable {mentions : List String → Prop} {calls : List UnlockCall} {call : UnlockCall}

theorem not_lastUnlocks_nil : ¬ LastUnlocks mentions [] := by
  rintro ⟨before, call, after, hnil, -⟩
  simp at hnil

/-- A call that mentions decides. -/
theorem lastUnlocks_snoc (h : mentions call.types) :
    LastUnlocks mentions (calls ++ [call]) ↔ call.unlocks = true := by
  constructor
  · rintro ⟨before, last, after, hcalls, -, hunlocks, hlater⟩
    rcases List.eq_nil_or_concat after with rfl | ⟨after, end', rfl⟩
    · obtain ⟨-, heq⟩ := List.append_inj' hcalls rfl
      cases heq
      exact hunlocks
    · rw [List.concat_eq_append, ← List.cons_append, ← List.append_assoc] at hcalls
      obtain ⟨-, heq⟩ := List.append_inj' hcalls rfl
      cases heq
      exact absurd h (hlater _ (by simp))
  · intro hunlocks
    exact ⟨calls, call, [], rfl, h, hunlocks, fun later hmem => absurd hmem List.not_mem_nil⟩

/-- One that does not leaves it as it was. -/
theorem lastUnlocks_snoc_other (h : ¬ mentions call.types) :
    LastUnlocks mentions (calls ++ [call]) ↔ LastUnlocks mentions calls := by
  constructor
  · rintro ⟨before, last, after, hcalls, hlast, hunlocks, hlater⟩
    rcases List.eq_nil_or_concat after with rfl | ⟨after, end', rfl⟩
    · obtain ⟨-, heq⟩ := List.append_inj' hcalls rfl
      cases heq
      exact absurd hlast h
    · rw [List.concat_eq_append, ← List.cons_append, ← List.append_assoc] at hcalls
      obtain ⟨rfl, -⟩ := List.append_inj' hcalls rfl
      refine ⟨before, last, after, rfl, hlast, hunlocks, fun later hmem => hlater later ?_⟩
      simp [hmem]
  · rintro ⟨before, last, after, rfl, hlast, hunlocks, hlater⟩
    refine ⟨before, last, after ++ [call], by simp, hlast, hunlocks, ?_⟩
    intro later hmem
    rcases List.mem_append.mp hmem with hmem | hmem
    · exact hlater later hmem
    · rw [List.mem_singleton.mp hmem]
      exact h

end Last

section Algebra

variable {record : ClusterOperateRecord} {types : List String} {ticketType : String}
  {calls : List UnlockCall}

theorem mem_unlock (h : "*" ∉ types) :
    ticketType ∈ (record.unlock types).unlockTicketTypeCondition ↔
      ticketType ∈ record.unlockTicketTypeCondition ∨ ticketType ∈ types := by
  rw [ClusterOperateRecord.unlock, if_neg h, List.mem_dedup, List.mem_append]

theorem mem_removeUnlock (h : "*" ∉ types) :
    ticketType ∈ (record.removeUnlock types).unlockTicketTypeCondition ↔
      ticketType ∈ record.unlockTicketTypeCondition ∧ ticketType ∉ types := by
  rw [ClusterOperateRecord.removeUnlock, if_neg h, List.mem_filter, List.mem_dedup, decide_eq_true_iff]

theorem unlock_wildcard (h : "*" ∈ types) :
    (record.unlock types).unlockTicketTypeCondition = ["*"] := if_pos h

theorem removeUnlock_wildcard (h : "*" ∈ types) :
    (record.removeUnlock types).unlockTicketTypeCondition = [] := if_pos h

/-- The wildcard is in the list just where the last call that mentions it unlocks. -/
theorem wildcard_calls (hnew : record.unlockTicketTypeCondition = []) :
    "*" ∈ (record.calls calls).unlockTicketTypeCondition ↔ LastUnlocks Wildcard calls := by
  induction calls using List.reverseRecOn with
  | nil =>
    refine iff_of_false ?_ not_lastUnlocks_nil
    rw [ClusterOperateRecord.calls, List.foldl_nil, hnew]
    exact List.not_mem_nil
  | append_singleton calls call ih =>
    have hcalls : record.calls (calls ++ [call]) = (record.calls calls).call call :=
      List.foldl_concat ..
    rw [hcalls]
    generalize record.calls calls = old at ih
    by_cases hstar : Wildcard call.types
    · rw [lastUnlocks_snoc hstar, ClusterOperateRecord.call]
      split
      case isTrue hunlocks =>
        rw [unlock_wildcard hstar]
        exact iff_of_true List.mem_cons_self hunlocks
      case isFalse hremoves =>
        rw [removeUnlock_wildcard hstar]
        exact iff_of_false List.not_mem_nil hremoves
    · rw [lastUnlocks_snoc_other hstar, ← ih, ClusterOperateRecord.call]
      split
      · rw [mem_unlock hstar]
        exact or_iff_left hstar
      · rw [mem_removeUnlock hstar]
        exact and_iff_left hstar

/-- A type passes if the last call that mentions the wildcard unlocks, or the last that mentions the
type or the wildcard does. -/
theorem unlocks_calls (hnew : record.unlockTicketTypeCondition = []) :
    Unlocks (record.calls calls) ticketType ↔
      LastUnlocks Wildcard calls ∨ LastUnlocks (Mentions ticketType) calls := by
  induction calls using List.reverseRecOn with
  | nil =>
    refine iff_of_false ?_ (not_or.mpr ⟨not_lastUnlocks_nil, not_lastUnlocks_nil⟩)
    rw [Unlocks, ClusterOperateRecord.calls, List.foldl_nil, hnew]
    exact not_or.mpr ⟨List.not_mem_nil, List.not_mem_nil⟩
  | append_singleton calls call ih =>
    have hcalls : record.calls (calls ++ [call]) = (record.calls calls).call call :=
      List.foldl_concat ..
    have hwildcard := @wildcard_calls record calls hnew
    rw [hcalls]
    generalize record.calls calls = old at ih hwildcard
    by_cases hstar : Wildcard call.types
    · have hmentions : Mentions ticketType call.types := Or.inr hstar
      rw [lastUnlocks_snoc hstar, lastUnlocks_snoc hmentions, or_self, ClusterOperateRecord.call]
      split
      case isTrue hunlocks =>
        rw [Unlocks, unlock_wildcard hstar]
        exact iff_of_true (Or.inl List.mem_cons_self) hunlocks
      case isFalse hremoves =>
        rw [Unlocks, removeUnlock_wildcard hstar]
        exact iff_of_false (not_or.mpr ⟨List.not_mem_nil, List.not_mem_nil⟩) hremoves
    · have hother : LastUnlocks Wildcard (calls ++ [call]) ↔ LastUnlocks Wildcard calls :=
        lastUnlocks_snoc_other hstar
      rw [hother]
      by_cases htype : ticketType ∈ call.types
      · have hmentions : Mentions ticketType call.types := Or.inl htype
        rw [lastUnlocks_snoc hmentions, ClusterOperateRecord.call]
        split
        case isTrue hunlocks =>
          rw [Unlocks, mem_unlock hstar, mem_unlock hstar]
          exact iff_of_true (Or.inr (Or.inr htype)) (Or.inr hunlocks)
        case isFalse hremoves =>
          rw [Unlocks, mem_removeUnlock hstar, mem_removeUnlock hstar, hwildcard]
          tauto
      · have hmentions : ¬ Mentions ticketType call.types := not_or.mpr ⟨htype, hstar⟩
        rw [lastUnlocks_snoc_other hmentions, ← ih, ClusterOperateRecord.call, Unlocks, Unlocks]
        split
        · rw [mem_unlock hstar, mem_unlock hstar]
          exact or_congr (or_iff_left hstar) (or_iff_left htype)
        · rw [mem_removeUnlock hstar, mem_removeUnlock hstar]
          exact or_congr (and_iff_left hstar) (and_iff_left htype)

/-- A record as it is made, after the calls, lets the type pass just where the last call that mentions
the type or the wildcard unlocks. -/
def FollowsLast (record : ClusterOperateRecord) (calls : List UnlockCall) (ticketType : String) : Prop :=
  Unlocks (record.calls calls) ticketType ↔ LastUnlocks (Mentions ticketType) calls

/-- That is so unless everything has been unlocked and only the type has been taken away since. -/
theorem followsLast_iff (record : ClusterOperateRecord)
    (hnew : record.unlockTicketTypeCondition = []) (calls : List UnlockCall) (ticketType : String) :
    FollowsLast record calls ticketType ↔
      (LastUnlocks Wildcard calls → LastUnlocks (Mentions ticketType) calls) := by
  rw [FollowsLast, unlocks_calls hnew]
  tauto

def newRecord : ClusterOperateRecord := ⟨1, 1, 1, 1, []⟩

theorem followsLast_newRecord : FollowsLast newRecord [.unlock (some ["MYSQL_HA_FULL_BACKUP"])]
    "MYSQL_HA_FULL_BACKUP" := by
  refine (followsLast_iff newRecord rfl _ _).mpr fun _ => ?_
  exact ⟨[], _, [], rfl, Or.inl List.mem_cons_self, rfl, fun later hmem => absurd hmem List.not_mem_nil⟩

/-- After everything was unlocked a single type cannot be locked again. -/
theorem removed_still_unlocked : ¬ FollowsLast newRecord
    [.unlock none, .remove (some ["MYSQL_HA_FULL_BACKUP"])] "MYSQL_HA_FULL_BACKUP" := by
  intro hfollows
  have hlast := hfollows.mp (by decide)
  have hmentions : Mentions "MYSQL_HA_FULL_BACKUP"
      (UnlockCall.remove (some ["MYSQL_HA_FULL_BACKUP"])).types := Or.inl List.mem_cons_self
  have hunlocks := (@lastUnlocks_snoc _ [.unlock none] _ hmentions).mp hlast
  cases hunlocks

end Algebra

end Exclusion
