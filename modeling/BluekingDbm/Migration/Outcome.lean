import BluekingDbm.Migration.SetSlot
import Mathlib.Data.List.Induction

/-! When `job.Err` tells the truth about a migration. -/
namespace Migration

/-- What a report means for the slots of the task. -/
inductive Verdict
  | broken
  | failed
  | lost
  | done
deriving DecidableEq

/-- None while one of the slots is being imported. An error is told from a failure by its text. -/
def verdict (slots : List ℕ) (report : Report) : Option Verdict :=
  match report with
  | .error err => if err = migrateFail then some .failed else some .broken
  | .ok info =>
    if ∃ slot ∈ slots, info.status slot = .importing then none
    else if ∃ slot ∈ slots, info.status slot = .failImport then some .failed
    else if ∃ slot ∈ slots, info.status slot = .unknow then some .lost
    else some .done

/-- How the first `timeLimit` polls end; `none` if the slots are still being imported. -/
def Settles (slots : List ℕ) (timeLimit : ℕ) (polls : ℕ → Report) (v : Option Verdict) : Prop :=
  match v with
  | none => ∀ i < timeLimit, verdict slots (polls i) = none
  | some v => ∃ k < timeLimit, (∀ i < k, verdict slots (polls i) = none) ∧
      verdict slots (polls k) = some v

/-- The last report lists every slot as imported. -/
def Reported (slots : List ℕ) (reports : List Report) : Prop :=
  ∃ info, reports.getLast? = some (.ok info) ∧ ∀ slot ∈ slots, info.status slot = .successImport

section Polls

variable {slots : List ℕ} {timeLimit : ℕ} {polls : ℕ → Report} {v v' : Option Verdict}
  {report : Report} {info : ClusterSetSlotInfo} {reports reports' : List Report}

theorem Settles.unique (h : Settles slots timeLimit polls v) (h' : Settles slots timeLimit polls v') :
    v = v' := by
  cases v with
  | none =>
    cases v' with
    | none => rfl
    | some v' =>
      obtain ⟨k, hk, -, hlast⟩ := h'
      rw [h k hk] at hlast
      cases hlast
  | some v =>
    obtain ⟨k, hk, hbefore, hlast⟩ := h
    cases v' with
    | none =>
      rw [h' k hk] at hlast
      cases hlast
    | some v' =>
      obtain ⟨k', hk', hbefore', hlast'⟩ := h'
      have hsame : k = k' := by
        rcases Nat.lt_trichotomy k k' with hlt | heq | hgt
        · rw [hbefore' k hlt] at hlast
          cases hlast
        · exact heq
        · rw [hbefore k' hgt] at hlast'
          cases hlast'
      subst hsame
      rw [← hlast, ← hlast']

theorem settles_now {w : Verdict} (h : verdict slots (polls 0) = some w) :
    Settles slots (timeLimit + 1) polls (some w) :=
  ⟨0, Nat.succ_pos _, fun i hi => (Nat.not_lt_zero i hi).elim, h⟩

/-- While slots are being imported, the later polls decide. -/
theorem Settles.later (hnow : verdict slots (polls 0) = none)
    (h : Settles slots timeLimit (fun i => polls (i + 1)) v) :
    Settles slots (timeLimit + 1) polls v := by
  have hall : ∀ k, (∀ i < k, verdict slots (polls (i + 1)) = none) →
      ∀ i < k + 1, verdict slots (polls i) = none := by
    intro k hk i hi
    cases i with
    | zero => exact hnow
    | succ i => exact hk i (by omega)
  cases v with
  | none => exact hall timeLimit h
  | some v =>
    obtain ⟨k, hk, hbefore, hlast⟩ := h
    exact ⟨k + 1, by omega, hall k hbefore, hlast⟩

theorem reported_append : Reported slots (reports ++ reports') ↔
    Reported slots reports' ∨ (reports' = [] ∧ Reported slots reports) := by
  cases reports' using List.reverseRecOn with
  | nil => simp [Reported]
  | append_singleton reports' last => simp [Reported, ← List.append_assoc]

theorem reported_cons (hnow : verdict slots report = none) :
    Reported slots (report :: reports) ↔ Reported slots reports := by
  have hno : ¬ Reported slots [report] := by
    rintro ⟨info, hlast, hall⟩
    obtain rfl := Option.some.inj hlast
    simp only [verdict] at hnow
    split at hnow
    case isTrue hin =>
      obtain ⟨slot, hslot, himporting⟩ := hin
      rw [hall slot hslot] at himporting
      cases himporting
    case isFalse =>
      split at hnow
      · cases hnow
      · split at hnow <;> cases hnow
  have happ := @reported_append slots [report] reports
  rw [List.singleton_append] at happ
  rw [happ]
  exact ⟨fun h => h.elim id fun h => (hno h.2).elim, Or.inl⟩

/-- A single report lists every slot as imported just when that is its verdict. -/
theorem reported_singleton : Reported slots [report] ↔ verdict slots report = some .done := by
  cases report with
  | error err =>
    simp only [Reported, verdict]
    split <;> simp
  | ok info =>
    constructor
    · rintro ⟨info', hlast, hall⟩
      cases hlast
      have hnone : ∀ status, status ≠ .successImport →
          ¬ ∃ slot ∈ slots, info.status slot = status := by
        rintro status hne ⟨slot, hslot, rfl⟩
        exact hne (hall slot hslot)
      simp only [verdict, hnone .importing nofun, hnone .failImport nofun, hnone .unknow nofun,
        if_false]
    · intro h
      refine ⟨info, rfl, fun slot hslot => ?_⟩
      simp only [verdict] at h
      split at h
      · cases h
      · split at h
        · cases h
        · split at h
          · cases h
          · rename_i himporting hfail hunknow
            cases hstatus : info.status slot with
            | importing => exact absurd ⟨slot, hslot, hstatus⟩ himporting
            | successImport => rfl
            | failImport => exact absurd ⟨slot, hslot, hstatus⟩ hfail
            | unknow => exact absurd ⟨slot, hslot, hstatus⟩ hunknow

theorem importing_pos : 0 < (info.getDstRedisSlotsStatus slots).1.length ↔
    ∃ slot ∈ slots, info.status slot = .importing := by
  rw [List.length_pos_iff_exists_mem]
  simp [ClusterSetSlotInfo.getDstRedisSlotsStatus]

theorem failImport_pos :
    0 < (intSliceInter slots (info.getDstRedisSlotsStatus slots).2.2.1).length ↔
      ∃ slot ∈ slots, info.status slot = .failImport := by
  rw [List.length_pos_iff_exists_mem]
  have hmem : ∀ slot, slot ∈ intSliceInter slots (info.getDstRedisSlotsStatus slots).2.2.1 ↔
      slot ∈ slots ∧ info.status slot = .failImport := by
    intro slot
    simp [intSliceInter, ClusterSetSlotInfo.getDstRedisSlotsStatus]
  simp only [hmem]

/-- The error that a verdict leads to. -/
def Verdict.Leaves (v : Option Verdict) (err : Option String) : Prop :=
  match v with
  | none => err = none
  | some .broken => ∃ text, err = some text ∧ text ≠ migrateFail
  | some .failed => err = some migrateFail
  | some .lost => err = none
  | some .done => err = none

/-- The first poll decides. -/
theorem settles_at_once {w : Verdict} {err : Option String} (h : verdict slots (polls 0) = some w)
    (herr : Verdict.Leaves (some w) err) :
    ∃ v, Settles slots (timeLimit + 1) polls v ∧ Verdict.Leaves v err ∧
      (Reported slots [polls 0] ↔ v = some .done) := by
  refine ⟨some w, settles_now h, herr, ?_⟩
  rw [reported_singleton, h]

/-- Every way to end has its verdict; only the good one comes with a good last report. -/
theorem pollSlots_settles (mySuccImport myFailImport : List ℕ) :
    ∃ v, Settles slots timeLimit polls v ∧
      Verdict.Leaves v (pollSlots slots timeLimit polls mySuccImport myFailImport).err ∧
      (Reported slots (pollSlots slots timeLimit polls mySuccImport myFailImport).reports ↔
        v = some .done) := by
  induction timeLimit generalizing polls mySuccImport myFailImport with
  | zero =>
    refine ⟨none, fun i hi => (Nat.not_lt_zero i hi).elim, rfl, ?_⟩
    simp [pollSlots, Reported]
  | succ timeLimit ih =>
    rw [pollSlots]
    split
    case h_1 err hpoll =>
      by_cases htext : err = migrateFail
      · have hverdict : verdict slots (polls 0) = some .failed := by
          rw [hpoll]
          exact if_pos htext
        exact settles_at_once hverdict (congrArg some htext)
      · have hverdict : verdict slots (polls 0) = some .broken := by
          rw [hpoll]
          exact if_neg htext
        exact settles_at_once hverdict ⟨err, rfl, htext⟩
    case h_2 info hpoll =>
      have himporting := @importing_pos slots info
      have hfail := @failImport_pos slots info
      dsimp only
      split
      case isTrue hpos =>
        have hnow : verdict slots (polls 0) = none := by
          rw [hpoll]
          exact if_pos (himporting.mp hpos)
        obtain ⟨v, hsettles, hleaves, hreported⟩ := @ih (fun i => polls (i + 1))
          (intSliceInter slots (info.getDstRedisSlotsStatus slots).2.1)
          (intSliceInter slots (info.getDstRedisSlotsStatus slots).2.2.1)
        exact ⟨v, hsettles.later hnow, hleaves, (reported_cons hnow).trans hreported⟩
      case isFalse hpos =>
        have hno := fun h => hpos (himporting.mpr h)
        split
        case isTrue hposFail =>
          have hverdict : verdict slots (polls 0) = some .failed := by
            rw [hpoll]
            exact (if_neg hno).trans (if_pos (hfail.mp hposFail))
          exact settles_at_once hverdict rfl
        case isFalse hposFail =>
          have hno' := fun h => hposFail (hfail.mpr h)
          by_cases hunknow : ∃ slot ∈ slots, info.status slot = .unknow
          · have hverdict : verdict slots (polls 0) = some .lost := by
              rw [hpoll]
              exact (if_neg hno).trans ((if_neg hno').trans (if_pos hunknow))
            exact settles_at_once hverdict rfl
          · have hverdict : verdict slots (polls 0) = some .done := by
              rw [hpoll]
              exact (if_neg hno).trans ((if_neg hno').trans (if_neg hunknow))
            exact settles_at_once hverdict rfl

theorem confirm_settles (slots : List ℕ) (timeout : ℕ) (polls : ℕ → Report) :
    ∃ v, Settles slots (timeout / 30) polls v ∧
      Verdict.Leaves v (confirmMigrateSlotsStatus slots timeout polls).err ∧
      (Reported slots (confirmMigrateSlotsStatus slots timeout polls).reports ↔ v = some .done) :=
  pollSlots_settles [] []

end Polls

section Sending

variable {isLate : String → Bool} {maxOthers maxLates others lates : ℕ} {replies : ℕ → Reply}
  {high : ℕ → ℕ → Bool}

/-- A command is taken if some try is answered with a text in time. -/
theorem sent_taken : (∃ taskID, sent high
    (Retry.send isLate maxOthers maxLates replies ⟨others, lates, none⟩) = .taken taskID) ↔
      ∃ taskID, Retry.Taken isLate (maxOthers - others) (maxLates - lates) replies (some taskID) := by
  have hsend : ∀ a, (Retry.send isLate maxOthers maxLates replies ⟨others, lates, none⟩).last =
      some (.ok a) ↔ Retry.Taken isLate (maxOthers - others) (maxLates - lates) replies a :=
    fun a => Retry.send_eq_ok nofun
  simp only [← hsend]
  cases hlast : (Retry.send isLate maxOthers maxLates replies ⟨others, lates, none⟩).last with
  | none => simp [sent, hlast]
  | some reply =>
    cases reply with
    | error err =>
      simp only [sent, hlast]
      split <;> simp
    | ok text =>
      cases text with
      | none => simp [sent, hlast]
      | some taskID => simp [sent, hlast]

end Sending

/-- The migration is under way: the checks pass and the import command is taken. -/
def Started (r : Replies) (srcAddr dstAddr : String) (slots : List ℕ) (migrateCount : ℕ) : Prop :=
  r.check srcAddr dstAddr slots migrateCount = .ok () ∧
    ∃ taskID, Retry.Taken importLate 5 300 r.importing (some taskID)

/-- The second attempt is under way. -/
def Restarted (r : Replies) : Prop :=
  (r.newSrcNode = .ok () ∧ r.newDstNode = .ok () ∧ r.newSrcCli = .ok () ∧ r.newDstCli = .ok ()) ∧
    ∃ taskID, Retry.Taken restartLate 5 300 r.restart (some taskID)

/-- The four ways in which `job.Err` comes out wrong: the first attempt's polls run out of time, one of
them fails, or a slot is unknown in the end, all of which count as success; or a second attempt
succeeds, which still counts as a failure. -/
def Misjudged (r : Replies) (slots : List ℕ) (timeout : ℕ) : Prop :=
  Settles slots (timeout / 30) r.setSlotInfo none ∨
    Settles slots (timeout / 30) r.setSlotInfo (some .broken) ∨
    Settles slots (timeout / 30) r.setSlotInfo (some .lost) ∨
    (Settles slots (timeout / 30) r.setSlotInfo (some .failed) ∧ Restarted r ∧
      Settles slots (timeout / 30) r.setSlotInfoAgain (some .done))

/-- The function returns without an error just when every slot was reported as imported in the end. -/
def Ending.Truthful (e : Ending JobErr) (slots : List ℕ) : Prop :=
  (e.panics = false ∧ e.err = none) ↔ Reported slots e.reports

section Truth

variable {r : Replies} {slots : List ℕ} {timeout : ℕ}

theorem not_reported_nil : ¬ Reported slots [] := by
  rintro ⟨info, hlast, -⟩
  cases hlast

/-- The second attempt reports every slot as imported just when its polls end so. -/
theorem retry_reported : Reported slots (retryMigrateSpecSlots r slots timeout).reports ↔
    Restarted r ∧ Settles slots (timeout / 30) r.setSlotInfoAgain (some .done) := by
  have hsent : (∃ taskID, sendRestart r.restart = .taken taskID) ↔
      ∃ taskID, Retry.Taken restartLate 5 300 r.restart (some taskID) := sent_taken
  have hconnect : (do r.newSrcNode; r.newDstNode; r.newSrcCli; r.newDstCli : Except String Unit) =
      .ok () ↔ r.newSrcNode = .ok () ∧ r.newDstNode = .ok () ∧ r.newSrcCli = .ok () ∧
        r.newDstCli = .ok () := by
    cases r.newSrcNode with
    | error => simp [bind, Except.bind]
    | ok =>
      cases r.newDstNode with
      | error => simp [bind, Except.bind]
      | ok =>
        cases r.newSrcCli with
        | error => simp [bind, Except.bind]
        | ok => simp [bind, Except.bind]
  rw [Restarted, ← hsent, ← hconnect, retryMigrateSpecSlots]
  split
  case h_1 err herr =>
    rw [herr]
    simp [not_reported_nil]
  case h_2 hok =>
    rw [hok]
    obtain ⟨v, hsettles, -, hreported⟩ := confirm_settles slots timeout r.setSlotInfoAgain
    split
    case h_1 hpanics => simp [hpanics, not_reported_nil]
    case h_2 err hfails => simp [hfails, not_reported_nil]
    case h_3 taskID htaken =>
      have hdone : v = some .done ↔
          Settles slots (timeout / 30) r.setSlotInfoAgain (some .done) :=
        ⟨fun h => h ▸ hsettles, fun h => hsettles.unique h⟩
      simp only [htaken, hreported, hdone]
      simp

variable {srcAddr dstAddr : String} {migrateCount : ℕ}

/-- A migration that is not under way leaves an error, or panics, and has no report. -/
theorem migrate_not_started (h : ¬ Started r srcAddr dstAddr slots migrateCount) :
    (migrateSpecificSlots r none srcAddr dstAddr slots timeout migrateCount).Truthful slots := by
  have hsent : (∃ taskID, sendImporting r.importing = .taken taskID) ↔
      ∃ taskID, Retry.Taken importLate 5 300 r.importing (some taskID) := sent_taken
  rw [migrateSpecificSlots]
  split
  case h_1 => simp [Ending.Truthful, not_reported_nil]
  case h_2 hcheck =>
    split
    case h_1 => simp [Ending.Truthful, not_reported_nil]
    case h_2 => simp [Ending.Truthful, not_reported_nil]
    case h_3 taskID htaken => exact absurd ⟨hcheck, hsent.mp ⟨taskID, htaken⟩⟩ h

/-- A migration that is under way is decided by its polls. -/
theorem migrate_started (h : Started r srcAddr dstAddr slots migrateCount) :
    (migrateSpecificSlots r none srcAddr dstAddr slots timeout migrateCount).Truthful slots ↔
      ¬ Misjudged r slots timeout := by
  obtain ⟨hcheck, htaken⟩ := h
  obtain ⟨taskID, htaken⟩ : ∃ taskID, sendImporting r.importing = .taken taskID :=
    sent_taken.mpr htaken
  obtain ⟨v, hsettles, hleaves, hreported⟩ := confirm_settles slots timeout r.setSlotInfo
  have hverdict : ∀ v', Settles slots (timeout / 30) r.setSlotInfo v' ↔ v = v' :=
    fun v' => ⟨fun h => hsettles.unique h, fun h => h ▸ hsettles⟩
  simp only [migrateSpecificSlots, hcheck, htaken, Misjudged, hverdict]
  rcases v with _ | v
  · have herr : (confirmMigrateSlotsStatus slots timeout r.setSlotInfo).err = none := hleaves
    simp [Ending.Truthful, herr, hreported]
  · cases v with
    | broken =>
      obtain ⟨text, herr, htext⟩ := hleaves
      simp [Ending.Truthful, herr, htext, hreported]
    | failed =>
      have herr : (confirmMigrateSlotsStatus slots timeout r.setSlotInfo).err = some migrateFail :=
        hleaves
      have hretry := @retry_reported r slots timeout
      cases hagain : (retryMigrateSpecSlots r slots timeout).err with
      | none => simp [Ending.Truthful, herr, reported_append, hreported, hretry]
      | some err => simp [Ending.Truthful, herr, reported_append, hreported, hretry]
    | lost =>
      have herr : (confirmMigrateSlotsStatus slots timeout r.setSlotInfo).err = none := hleaves
      simp [Ending.Truthful, herr, hreported]
    | done =>
      have herr : (confirmMigrateSlotsStatus slots timeout r.setSlotInfo).err = none := hleaves
      simp [Ending.Truthful, herr, hreported]

/-- Exactly when the result is right. -/
theorem migrateSpecificSlots_truthful (r : Replies) (srcAddr dstAddr : String) (slots : List ℕ)
    (timeout migrateCount : ℕ) :
    (migrateSpecificSlots r none srcAddr dstAddr slots timeout migrateCount).Truthful slots ↔
      ¬ (Started r srcAddr dstAddr slots migrateCount ∧ Misjudged r slots timeout) := by
  by_cases hstart : Started r srcAddr dstAddr slots migrateCount
  · rw [migrate_started hstart]
    simp [hstart]
  · have htruth := @migrate_not_started r slots timeout srcAddr dstAddr migrateCount hstart
    simp [hstart, htruth]

/-- The import command is taken, and no poll gets through after that. -/
def unreachable : Replies where
  clusterNodes := .ok [
    ⟨"10.0.0.1:7000", "10.0.0.1", 7000, redisMasterRole, [], redisLinkStateConnected, [5]⟩,
    ⟨"10.0.0.2:7000", "10.0.0.2", 7000, redisMasterRole, [], redisLinkStateConnected, []⟩]
  masterNodes := .ok [
    ⟨"10.0.0.1:7000", "10.0.0.1", 7000, redisMasterRole, [], redisLinkStateConnected, [5]⟩]
  dstCli := .ok ()
  srcCli := .ok ()
  srcSlaves := .ok ()
  dstSlaves := .ok ()
  importing _ := .ok (some "task")
  setSlotInfo _ := .error "connection refused"
  newSrcNode := .error "connection refused"
  newDstNode := .error "connection refused"
  newSrcCli := .error "connection refused"
  newDstCli := .error "connection refused"
  restart _ := .error "connection refused"
  setSlotInfoAgain _ := .error "connection refused"

/-- That counts as success. -/
theorem unreachable_not_truthful : ¬ (migrateSpecificSlots unreachable none "10.0.0.1:7000"
    "10.0.0.2:7000" [5] 1200 0).Truthful [5] := by
  have hcheck : unreachable.check "10.0.0.1:7000" "10.0.0.2:7000" [5] 0 = .ok () := rfl
  have htaken : Retry.Taken importLate 5 300 unreachable.importing (some "task") :=
    Retry.taken_of_ok rfl (by decide) (by decide)
  have hbroken : Settles [5] (1200 / 30) unreachable.setSlotInfo (some .broken) :=
    @settles_now [5] 39 unreachable.setSlotInfo .broken (by decide)
  rw [migrate_started ⟨hcheck, "task", htaken⟩, not_not]
  exact Or.inr (Or.inl hbroken)

end Truth

end Migration
