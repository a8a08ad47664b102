import BluekingDbm.Migration.SetSlot

/-! The loops that wait for slots on the move, and how many polls each of them makes. -/
namespace Migration

/-- The part of `cluster setslot info` that says what a node is busy with. -/
structure RunningTasks where
  importingSlotList : List ℕ
  runningRcvTaskNum : ℤ
  migratingSlotList : List ℕ
  runningSendTaskNum : ℤ

abbrev TaskReply := Except String RunningTasks

section NodeMigration

def RunningTasks.sending (info : RunningTasks) : Bool :=
  decide (info.migratingSlotList.length > 0 ∨ info.runningSendTaskNum > 0)

def RunningTasks.receiving (info : RunningTasks) : Bool :=
  decide (info.importingSlotList.length > 0 ∨ info.runningRcvTaskNum > 0)

/-- A node that does not answer is not waited for. -/
def isIdle (src dst : TaskReply) : Bool :=
  let srcBusy := match src with
    | .error _ => false
    | .ok srcSlotInfo => srcSlotInfo.sending
  let dstBusy := match dst with
    | .error _ => false
    | .ok dstSlotInfo => dstSlotInfo.receiving
  !srcBusy && !dstBusy

/-- How many times both nodes were asked, and whether the wait was given up with a warning. -/
structure NodeWait where
  polls : ℕ
  proceedsAnyway : Bool
deriving DecidableEq

def waitIdle : ℕ → (ℕ → TaskReply × TaskReply) → NodeWait
  | 0, _ => ⟨0, true⟩
  | left + 1, polls =>
    if isIdle (polls 0).1 (polls 0).2 then ⟨1, false⟩
    else
      let wait := waitIdle left fun i => polls (i + 1)
      { wait with polls := wait.polls + 1 }

def maxWaitMinutes : ℕ := 24 * 60

def waitForNodeMigrationComplete (polls : ℕ → TaskReply × TaskReply) : NodeWait :=
  waitIdle maxWaitMinutes polls

theorem waitIdle_polls (left : ℕ) (polls : ℕ → TaskReply × TaskReply) :
    (waitIdle left polls).polls ≤ left := by
  induction left generalizing polls with
  | zero => exact Nat.le_refl 0
  | succ left ih =>
    have hrest := ih fun i => polls (i + 1)
    unfold waitIdle
    split
    · exact Nat.le_add_left 1 left
    · dsimp only
      omega

end NodeMigration

section Confirm

variable {migrateSlots mySuccImport myFailImport : List ℕ} {timeLimit timeout : ℕ}
  {polls : ℕ → Report}

theorem pollSlots_reports :
    (pollSlots migrateSlots timeLimit polls mySuccImport myFailImport).reports.length ≤ timeLimit := by
  induction timeLimit generalizing polls mySuccImport myFailImport with
  | zero => exact Nat.le_refl 0
  | succ timeLimit ih =>
    unfold pollSlots
    split
    · exact Nat.le_add_left 1 timeLimit
    · dsimp only
      split
      · exact Nat.succ_le_succ ih
      · split
        · exact Nat.le_add_left 1 timeLimit
        · exact Nat.le_add_left 1 timeLimit

end Confirm

section ToBeDeleted

/-- The first of the addresses that has slots on the way out, with the slots. -/
def firstMigrating (getClusterSetSlotInfo : String → TaskReply) :
    List String → Except String (Option (String × List ℕ))
  | [] => .ok none
  | addr :: addrs =>
    let addr01 := Text.trimSpace addr
    if addr01 = "" then firstMigrating getClusterSetSlotInfo addrs
    else
      match getClusterSetSlotInfo addr01 with
      | .error err => .error err
      | .ok srcSetSlotInfo =>
        if srcSetSlotInfo.migratingSlotList.length > 0 then
          .ok (some (addr01, srcSetSlotInfo.migratingSlotList))
        else firstMigrating getClusterSetSlotInfo addrs

def areTenplusMigrating (isRedisInstance : Bool) (getClusterSetSlotInfo : String → TaskReply)
    (tenplusAddrs : List String) : Except String (Option (String × List ℕ)) :=
  if isRedisInstance then .ok none else firstMigrating getClusterSetSlotInfo tenplusAddrs

/-- The wait at the start of `ForgetDelNodes`, as far as `fuel` polls take it. It returns how often it
had to wait, or the error of a poll. -/
def waitToBeDelMasters (polls : ℕ → Except String (Option (String × List ℕ))) :
    ℕ → ℕ → Option (Except String ℕ)
  | 0, _ => none
  | fuel + 1, timeLimit =>
    match polls timeLimit with
    | .error err => some (.error err)
    | .ok (some _) => waitToBeDelMasters polls fuel (timeLimit + 1)
    | .ok none => some (.ok timeLimit)

/-- A poll that finds slots on the way out. -/
def isMigrating (reply : Except String (Option (String × List ℕ))) : Bool :=
  match reply with
  | .ok (some _) => true
  | .ok none => false
  | .error _ => false

def migratingTooLong : String := "MigrateSlotsFromToBeDelNode  migrating 300 minute,please check"

/-- What the wait leaves for the rest of `ForgetDelNodes`: the limit is looked at when it is over. -/
def waitErr (waited : Except String ℕ) : Option String :=
  match waited with
  | .error err => some err
  | .ok timeLimit => if timeLimit = 300 then some migratingTooLong else none

variable {polls : ℕ → Except String (Option (String × List ℕ))} {fuel timeLimit : ℕ}

/-- The wait is over after `fuel` polls just where one of them finds no slots on the way out. -/
theorem waitToBeDelMasters_isSome : (waitToBeDelMasters polls fuel timeLimit).isSome ↔
    ∃ i, timeLimit ≤ i ∧ i < timeLimit + fuel ∧ isMigrating (polls i) = false := by
  induction fuel generalizing timeLimit with
  | zero =>
    refine iff_of_false (by simp [waitToBeDelMasters]) ?_
    rintro ⟨i, hle, hlt, -⟩
    omega
  | succ fuel ih =>
    unfold waitToBeDelMasters
    split
    case h_1 err hreply =>
      refine iff_of_true rfl ⟨timeLimit, Nat.le_refl _, by omega, ?_⟩
      rw [hreply]
      rfl
    case h_2 found hreply =>
      apply ih.trans
      constructor
      · rintro ⟨i, hle, hlt, hidle⟩
        exact ⟨i, by omega, by omega, hidle⟩
      · rintro ⟨i, hle, hlt, hidle⟩
        rcases Nat.eq_or_lt_of_le hle with rfl | hlater
        · rw [hreply] at hidle
          cases hidle
        · exact ⟨i, hlater, by omega, hidle⟩
    case h_3 hreply =>
      refine iff_of_true rfl ⟨timeLimit, Nat.le_refl _, by omega, ?_⟩
      rw [hreply]
      rfl

/-- It has waited less often than it has polled. -/
theorem waitToBeDelMasters_waits {waits : ℕ}
    (h : waitToBeDelMasters polls fuel timeLimit = some (.ok waits)) : waits < timeLimit + fuel := by
  induction fuel generalizing timeLimit with
  | zero => cases h
  | succ fuel ih =>
    unfold waitToBeDelMasters at h
    split at h
    · cases h
    · have hrest := ih h
      omega
    · cases h
      omega

end ToBeDeleted

section Bounded

variable (isRedisInstance : Bool) (toBeDelNodes : List String)
  (migrateSlots : List ℕ) (timeout : ℕ) (setSlotInfo : ℕ → Report)
  (nodeTasks : ℕ → TaskReply × TaskReply) (toBeDelTasks : ℕ → String → TaskReply)

/-- Each of the loops is left within the polls of its limit: a poll for every 30 seconds of the timeout,
1440 polls, and 300. The last one announces an error for the limit. -/
structure WaitsBounded : Prop where
  confirm : (confirmMigrateSlotsStatus migrateSlots timeout setSlotInfo).reports.length ≤ timeout / 30
  complete : (waitForNodeMigrationComplete nodeTasks).polls ≤ 24 * 60
  toBeDel : ∃ waited, waitToBeDelMasters
      (fun i => areTenplusMigrating isRedisInstance (toBeDelTasks i) toBeDelNodes) 300 0 = some waited ∧
    ∀ timeLimit, waited = .ok timeLimit → 300 ≤ timeLimit → (waitErr waited).isSome

/-- The waits are bounded just where one of the first 300 polls of the masters to be deleted finds no
slots on the way out. -/
theorem waitsBounded_iff : WaitsBounded isRedisInstance toBeDelNodes migrateSlots timeout setSlotInfo
    nodeTasks toBeDelTasks ↔ ∃ i < 300,
      isMigrating (areTenplusMigrating isRedisInstance (toBeDelTasks i) toBeDelNodes) = false := by
  constructor
  · rintro ⟨-, -, waited, hwaited, -⟩
    obtain ⟨i, -, hlt, hidle⟩ := waitToBeDelMasters_isSome.mp (Option.isSome_of_eq_some hwaited)
    exact ⟨i, by omega, hidle⟩
  · rintro ⟨i, hlt, hidle⟩
    refine ⟨pollSlots_reports, waitIdle_polls _ _, ?_⟩
    have hsome : (waitToBeDelMasters (fun i =>
        areTenplusMigrating isRedisInstance (toBeDelTasks i) toBeDelNodes) 300 0).isSome := by
      apply waitToBeDelMasters_isSome.mpr
      exact ⟨i, Nat.zero_le i, by omega, hidle⟩
    obtain ⟨waited, hwaited⟩ := Option.isSome_iff_exists.mp hsome
    refine ⟨waited, hwaited, ?_⟩
    rintro timeLimit rfl hlimit
    have hfew := waitToBeDelMasters_waits hwaited
    omega

end Bounded

/-- A master that never gets rid of its slots. -/
def stuckTasks : RunningTasks := ⟨[], 0, [866], 1⟩

/-- It is polled for ever. -/
theorem stuck_never_left (fuel : ℕ) : waitToBeDelMasters
    (fun _ => areTenplusMigrating false (fun _ => .ok stuckTasks) ["1.1.1.1:30000"]) fuel 0 = none := by
  have hnone : ¬ (waitToBeDelMasters (fun _ => areTenplusMigrating false (fun _ => .ok stuckTasks)
      ["1.1.1.1:30000"]) fuel 0).isSome := by
    intro hsome
    obtain ⟨i, -, -, hidle⟩ := waitToBeDelMasters_isSome.mp hsome
    exact absurd hidle (by decide)
  exact Option.not_isSome_iff_eq_none.mp hnone

theorem stuck_not_bounded : ¬ WaitsBounded false ["1.1.1.1:30000"] [866] 1200
    (fun _ => .ok ⟨[], [], []⟩) (fun _ => (.ok stuckTasks, .ok stuckTasks))
      fun _ _ => .ok stuckTasks := by
  rintro ⟨-, -, waited, hwaited, -⟩
  rw [stuck_never_left] at hwaited
  cases hwaited

end Migration
