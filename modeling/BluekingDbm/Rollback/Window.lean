import BluekingDbm.Library.Table

/-! The download window of a rollback plan and the ledger of its batches. -/
namespace Rollback

inductive DownloadState
  | submitting
  | opened
  | closed
  | failed
  deriving DecidableEq, Repr

/-- A row of the ledger; the history keys are there once a bill was lost. -/
structure BatchEntry where
  billId : Option ℤ
  taskCount : ℕ
  state : DownloadState
  lostBills : Option (List ℤ)
  lostResubmits : Option ℕ

/-- The download state of one plan row: the batches of each destination host by their index. -/
structure WindowState where
  inflight : ℤ
  batches : AList fun _ : String => AList fun _ : ℤ => BatchEntry

def RESERVE_OCCUPIED : ℤ := -1

def RESERVE_NO_WINDOW : ℤ := -2

namespace WindowState

def empty : WindowState := ⟨0, ∅⟩

def hostBatches (s : WindowState) (destIp : String) : AList fun _ : ℤ => BatchEntry :=
  (s.batches.lookup destIp).getD ∅

def batch (s : WindowState) (destIp : String) (batchIndex : ℤ) : Option BatchEntry :=
  (s.batches.lookup destIp).bind fun host => host.lookup batchIndex

def setBatch (s : WindowState) (destIp : String) (batchIndex : ℤ) (entry : BatchEntry) :
    WindowState :=
  { s with batches :=
      s.batches.insert destIp ((s.hostBatches destIp).insert batchIndex entry) }

/-- Capacity is taken and the submitting row written, unless the batch exists and has not
failed, or the window has no room. The history of lost bills stays. -/
def reserve (s : WindowState) (destIp : String) (batchIndex : ℤ) (taskCount : ℕ) (limit : ℤ) :
    ℤ × WindowState :=
  let entry := s.batch destIp batchIndex
  if entry.any fun e => e.state ≠ .failed then (RESERVE_OCCUPIED, s)
  else if limit < s.inflight + taskCount then (RESERVE_NO_WINDOW, s)
  else
    (s.inflight + taskCount,
      { s.setBatch destIp batchIndex
          { billId := none
            taskCount
            state := .submitting
            lostBills := entry.bind BatchEntry.lostBills
            lostResubmits := entry.bind BatchEntry.lostResubmits } with
        inflight := s.inflight + taskCount })

def markOpen (s : WindowState) (destIp : String) (batchIndex billId : ℤ) : Bool × WindowState :=
  match s.batch destIp batchIndex with
  | none => (false, s)
  | some entry =>
    if entry.state ≠ .submitting then (false, s)
    else (true, s.setBatch destIp batchIndex { entry with state := .opened, billId := some billId })

def release (s : WindowState) (destIp : String) (batchIndex : ℤ) (newState : DownloadState) :
    ℤ × WindowState :=
  match s.batch destIp batchIndex with
  | none => (s.inflight, s)
  | some entry =>
    if entry.state ≠ .opened ∧ entry.state ≠ .submitting then (s.inflight, s)
    else
      let left := max (s.inflight - entry.taskCount) 0
      (left, { s.setBatch destIp batchIndex { entry with state := newState } with inflight := left })

/-- An open batch whose bill was lost fails, and the loss is noted with it. -/
def releaseLost (s : WindowState) (destIp : String) (batchIndex : ℤ) : ℤ × WindowState :=
  match s.batch destIp batchIndex with
  | none => (s.inflight, s)
  | some entry =>
    match entry.billId with
    | none => (s.inflight, s)
    | some billId =>
      if entry.state ≠ .opened then (s.inflight, s)
      else
        let left := max (s.inflight - entry.taskCount) 0
        (left,
          { s.setBatch destIp batchIndex
              { entry with
                state := .failed
                lostBills := some (entry.lostBills.getD [] ++ [billId])
                lostResubmits := some (entry.lostResubmits.getD 0 + 1) } with
            inflight := left })

end WindowState

/-- The states that a batch is released to. -/
def Released : Type := { state : DownloadState // state = .closed ∨ state = .failed }

/-- The calls on a window row; each holds the row lock for its whole body. -/
inductive WindowCall
  | reserve (destIp : String) (batchIndex : ℤ) (taskCount : ℕ) (limit : ℤ)
  | markOpen (destIp : String) (batchIndex billId : ℤ)
  | release (destIp : String) (batchIndex : ℤ) (newState : Released)
  | releaseLost (destIp : String) (batchIndex : ℤ)

/-- A reserve that is called with a limit of at most `bound`. -/
def WindowCall.Within (bound : ℤ) : WindowCall → Prop
  | .reserve _ _ _ limit => limit ≤ bound
  | _ => True

/-- The tasks that an entry holds in the window: those of a submitting or open batch. -/
def BatchEntry.held (entry : BatchEntry) : Option ℕ :=
  match entry.state with
  | .submitting | .opened => some entry.taskCount
  | .closed | .failed => none

/-- Tasks of a batch that a call took from the window or gave back to it. -/
inductive Movement
  | taken (tasks : ℤ)
  | returned (tasks : ℤ)

/-- Follows the movements of one batch from what it holds: tasks are taken only by a batch that
holds none, and the batch gives back what it holds. -/
def settle : Option ℤ → List Movement → Option (Option ℤ)
  | held, [] => some held
  | none, .taken n :: rest => settle (some n) rest
  | some n, .returned m :: rest => if m = n then settle none rest else none
  | _, _ => none

namespace WindowState

def call (s : WindowState) : WindowCall → WindowState
  | .reserve destIp batchIndex taskCount limit => (s.reserve destIp batchIndex taskCount limit).2
  | .markOpen destIp batchIndex billId => (s.markOpen destIp batchIndex billId).2
  | .release destIp batchIndex newState => (s.release destIp batchIndex newState.1).2
  | .releaseLost destIp batchIndex => (s.releaseLost destIp batchIndex).2

def calls (s : WindowState) (cs : List WindowCall) : WindowState := cs.foldl call s

/-- The tasks that one batch holds in the window. -/
def held (s : WindowState) (destIp : String) (batchIndex : ℤ) : Option ℕ :=
  (s.batch destIp batchIndex).bind BatchEntry.held

def hostHeld (host : AList fun _ : ℤ => BatchEntry) : ℕ :=
  Table.total host fun entry => entry.held.getD 0

/-- The sum of the task counts of the submitting and open batches of all hosts. -/
def heldTotal (s : WindowState) : ℕ := Table.total s.batches hostHeld

def lostResubmits (s : WindowState) (destIp : String) (batchIndex : ℤ) : ℕ :=
  ((s.batch destIp batchIndex).bind BatchEntry.lostResubmits).getD 0

/-- What a call did with the tasks of one batch, as the counter shows it. -/
def movement (s t : WindowState) (destIp : String) (batchIndex : ℤ) : List Movement :=
  match s.held destIp batchIndex, t.held destIp batchIndex with
  | none, some _ => [.taken (t.inflight - s.inflight)]
  | some _, none => [.returned (s.inflight - t.inflight)]
  | _, _ => []

def movements (destIp : String) (batchIndex : ℤ) : WindowState → List WindowCall → List Movement
  | _, [] => []
  | s, c :: cs => movement s (s.call c) destIp batchIndex ++ movements destIp batchIndex (s.call c) cs

section Batch

variable {s : WindowState} {destIp ip : String} {batchIndex i : ℤ} {entry : BatchEntry}

theorem batch_setBatch_self (s : WindowState) (destIp : String) (batchIndex : ℤ)
    (entry : BatchEntry) :
    (s.setBatch destIp batchIndex entry).batch destIp batchIndex = some entry := by
  simp [setBatch, batch]

theorem batch_setBatch_ne (h : ¬ (ip = destIp ∧ i = batchIndex)) :
    (s.setBatch destIp batchIndex entry).batch ip i = s.batch ip i := by
  by_cases hip : ip = destIp
  · subst hip
    have hi : i ≠ batchIndex := fun hi => h ⟨rfl, hi⟩
    simp only [setBatch, batch, hostBatches, AList.lookup_insert, Option.bind_some,
      AList.lookup_insert_ne hi]
    cases s.batches.lookup ip <;> simp
  · simp only [setBatch, batch, AList.lookup_insert_ne hip]

theorem heldTotal_setBatch (s : WindowState) (destIp : String) (batchIndex : ℤ)
    (entry : BatchEntry) :
    (s.setBatch destIp batchIndex entry).heldTotal + (s.held destIp batchIndex).getD 0 =
      s.heldTotal + entry.held.getD 0 := by
  have houter := Table.total_insert s.batches hostHeld destIp
    ((s.hostBatches destIp).insert batchIndex entry)
  have hinner : hostHeld ((s.hostBatches destIp).insert batchIndex entry) +
      (((s.hostBatches destIp).lookup batchIndex).map fun entry => entry.held.getD 0).getD 0 =
      hostHeld (s.hostBatches destIp) + entry.held.getD 0 :=
    Table.total_insert _ _ _ _
  have htotal : ((s.batches.lookup destIp).map hostHeld).getD 0 = hostHeld (s.hostBatches destIp) := by
    unfold hostBatches
    cases s.batches.lookup destIp with
    | none => rfl
    | some host => rfl
  have hheld : (((s.hostBatches destIp).lookup batchIndex).map fun entry =>
      entry.held.getD 0).getD 0 = (s.held destIp batchIndex).getD 0 := by
    unfold hostBatches held batch
    cases s.batches.lookup destIp with
    | none => rfl
    | some host =>
      cases hentry : host.lookup batchIndex with
      | none => simp [hentry]
      | some entry => simp [hentry]
  have hset : (s.setBatch destIp batchIndex entry).heldTotal =
      Table.total (s.batches.insert destIp ((s.hostBatches destIp).insert batchIndex entry))
        hostHeld := rfl
  have hs : s.heldTotal = Table.total s.batches hostHeld := rfl
  omega

theorem held_le_heldTotal (s : WindowState) (destIp : String) (batchIndex : ℤ) :
    (s.held destIp batchIndex).getD 0 ≤ s.heldTotal := by
  have hclosed : ∃ entry : BatchEntry, entry.held = none := ⟨⟨none, 0, .closed, none, none⟩, rfl⟩
  obtain ⟨entry, hentry⟩ := hclosed
  have hset := heldTotal_setBatch s destIp batchIndex entry
  rw [hentry] at hset
  simp only [Option.getD_none] at hset
  omega

end Batch

/-- The counter is what the batches hold. -/
def Balanced (s : WindowState) : Prop := s.inflight = s.heldTotal

/-- One batch is written: it keeps what it held, takes tasks while it holds none or gives back
all it held, the counter follows, and its lost bills are not forgotten. -/
structure Writes (s : WindowState) (destIp : String) (batchIndex : ℤ) (entry : BatchEntry)
    (t : WindowState) : Prop where
  batches : t.batches = (s.setBatch destIp batchIndex entry).batches
  inflight : t.inflight + (s.held destIp batchIndex).getD 0 = s.inflight + entry.held.getD 0
  exclusive : s.held destIp batchIndex = none ∨ entry.held = none ∨
    entry.held = s.held destIp batchIndex
  resubmits : s.lostResubmits destIp batchIndex ≤ entry.lostResubmits.getD 0

section Calls

variable {s t : WindowState} {destIp ip : String} {batchIndex i billId : ℤ} {entry : BatchEntry}

theorem held_eq (h : s.batch destIp batchIndex = some entry) :
    s.held destIp batchIndex = entry.held := by
  simp [held, h]

theorem lostResubmits_eq (h : s.batch destIp batchIndex = some entry) :
    s.lostResubmits destIp batchIndex = entry.lostResubmits.getD 0 := by
  simp [lostResubmits, h]

theorem reserve_cases (s : WindowState) (destIp : String) (batchIndex : ℤ) (taskCount : ℕ)
    (limit : ℤ) :
    let r := s.reserve destIp batchIndex taskCount limit
    r = (RESERVE_OCCUPIED, s) ∨ r = (RESERVE_NO_WINDOW, s) ∨
      r.1 = s.inflight + taskCount ∧ r.2.inflight = r.1 ∧ r.1 ≤ limit ∧
        ∃ entry, Writes s destIp batchIndex entry r.2 := by
  intro r
  by_cases hoccupied : (s.batch destIp batchIndex).any (fun e => e.state ≠ .failed) = true
  · left
    exact if_pos hoccupied
  right
  by_cases hroom : limit < s.inflight + taskCount
  · left
    exact (if_neg hoccupied).trans (if_pos hroom)
  right
  have hr : r = _ := (if_neg hoccupied).trans (if_neg hroom)
  rw [hr]
  refine ⟨rfl, rfl, by simpa using hroom, _, rfl, ?_, Or.inl ?_, ?_⟩
  · have hheld : s.held destIp batchIndex = none := by
      cases hentry : s.batch destIp batchIndex with
      | none => simp [held, hentry]
      | some entry =>
        rw [held_eq hentry]
        have hfailed : entry.state = .failed := by simpa [hentry] using hoccupied
        simp [BatchEntry.held, hfailed]
    simp [hheld, BatchEntry.held]
  · cases hentry : s.batch destIp batchIndex with
    | none => simp [held, hentry]
    | some entry =>
      rw [held_eq hentry]
      have hfailed : entry.state = .failed := by simpa [hentry] using hoccupied
      simp [BatchEntry.held, hfailed]
  · simp [lostResubmits]

theorem markOpen_cases (s : WindowState) (destIp : String) (batchIndex billId : ℤ) :
    (s.markOpen destIp batchIndex billId).2 = s ∨
      ∃ entry, Writes s destIp batchIndex entry (s.markOpen destIp batchIndex billId).2 := by
  unfold markOpen
  cases hentry : s.batch destIp batchIndex with
  | none => exact Or.inl rfl
  | some entry =>
    by_cases hstate : entry.state = .submitting
    · right
      have hheld : s.held destIp batchIndex = some entry.taskCount := by
        rw [held_eq hentry]
        simp [BatchEntry.held, hstate]
      refine ⟨{ entry with state := .opened, billId := some billId }, ?_⟩
      simp only [hstate, ne_eq, not_true_eq_false, if_false]
      refine ⟨rfl, ?_, Or.inr (Or.inr hheld.symm), (lostResubmits_eq hentry).le⟩
      simp [hheld, BatchEntry.held, setBatch]
    · left
      simp [hstate]

/-- Giving back the tasks of a batch that holds some. -/
theorem writes_released {n : ℕ} (h : s.Balanced) (hentry : s.batch destIp batchIndex = some entry)
    (hheld : entry.held = some n) (released : BatchEntry) (hreleased : released.held = none)
    (hresubmits : entry.lostResubmits.getD 0 ≤ released.lostResubmits.getD 0) :
    Writes s destIp batchIndex released
      { s.setBatch destIp batchIndex released with inflight := max (s.inflight - n) 0 } := by
  have hn : s.held destIp batchIndex = some n := (held_eq hentry).trans hheld
  refine ⟨rfl, ?_, Or.inr (Or.inl hreleased), (lostResubmits_eq hentry).trans_le hresubmits⟩
  have hle := held_le_heldTotal s destIp batchIndex
  have hbalanced : s.inflight = s.heldTotal := h
  simp only [hn, hreleased, Option.getD_some, Option.getD_none] at hle ⊢
  omega

theorem release_cases (h : s.Balanced) (destIp : String) (batchIndex : ℤ) (newState : Released) :
    (s.release destIp batchIndex newState.1).2 = s ∨
      ∃ entry, Writes s destIp batchIndex entry (s.release destIp batchIndex newState.1).2 := by
  unfold release
  cases hentry : s.batch destIp batchIndex with
  | none => exact Or.inl rfl
  | some entry =>
    by_cases hstate : entry.state ≠ .opened ∧ entry.state ≠ .submitting
    · left
      simp [hstate]
    · right
      refine ⟨{ entry with state := newState.1 }, ?_⟩
      simp only [hstate, if_false]
      have hheld : entry.held = some entry.taskCount := by
        cases hs : entry.state <;> simp_all [BatchEntry.held]
      apply writes_released h hentry hheld { entry with state := newState.1 } ?_ le_rfl
      rcases newState.2 with hnew | hnew <;> simp [BatchEntry.held, hnew]

theorem releaseLost_cases (h : s.Balanced) (destIp : String) (batchIndex : ℤ) :
    (s.releaseLost destIp batchIndex).2 = s ∨
      ∃ entry, Writes s destIp batchIndex entry (s.releaseLost destIp batchIndex).2 := by
  unfold releaseLost
  cases hentry : s.batch destIp batchIndex with
  | none => exact Or.inl rfl
  | some entry =>
    cases hbill : entry.billId with
    | none =>
      left
      simp [hbill]
    | some billId =>
      by_cases hstate : entry.state = .opened
      · right
        simp only [hbill, hstate, ne_eq, not_true_eq_false, if_false]
        have hheld : entry.held = some entry.taskCount := by simp [BatchEntry.held, hstate]
        exact ⟨_, writes_released h hentry hheld _ rfl (Nat.le_succ _)⟩
      · left
        simp [hbill, hstate]

/-- One spec for all the calls. -/
theorem call_cases (h : s.Balanced) (c : WindowCall) :
    s.call c = s ∨ ∃ destIp batchIndex entry, Writes s destIp batchIndex entry (s.call c) := by
  cases c with
  | reserve destIp batchIndex taskCount limit =>
    rcases reserve_cases s destIp batchIndex taskCount limit with hr | hr | ⟨-, -, -, entry, hw⟩
    · exact Or.inl (congrArg Prod.snd hr)
    · exact Or.inl (congrArg Prod.snd hr)
    · exact Or.inr ⟨destIp, batchIndex, entry, hw⟩
  | markOpen destIp batchIndex billId =>
    rcases markOpen_cases s destIp batchIndex billId with hs | ⟨entry, hw⟩
    · exact Or.inl hs
    · exact Or.inr ⟨destIp, batchIndex, entry, hw⟩
  | release destIp batchIndex newState =>
    rcases release_cases h destIp batchIndex newState with hs | ⟨entry, hw⟩
    · exact Or.inl hs
    · exact Or.inr ⟨destIp, batchIndex, entry, hw⟩
  | releaseLost destIp batchIndex =>
    rcases releaseLost_cases h destIp batchIndex with hs | ⟨entry, hw⟩
    · exact Or.inl hs
    · exact Or.inr ⟨destIp, batchIndex, entry, hw⟩

theorem Writes.balanced (hw : Writes s destIp batchIndex entry t) (h : s.Balanced) :
    t.Balanced := by
  have hset := heldTotal_setBatch s destIp batchIndex entry
  have hsame : t.heldTotal = (s.setBatch destIp batchIndex entry).heldTotal := by
    unfold heldTotal
    rw [hw.batches]
  have hinflight := hw.inflight
  have hs : s.inflight = s.heldTotal := h
  show t.inflight = t.heldTotal
  omega

theorem Writes.batch_self (hw : Writes s destIp batchIndex entry t) :
    t.batch destIp batchIndex = some entry := by
  have hset := batch_setBatch_self s destIp batchIndex entry
  rwa [batch, ← hw.batches] at hset

theorem Writes.batch_ne (hw : Writes s destIp batchIndex entry t)
    (h : ¬ (ip = destIp ∧ i = batchIndex)) : t.batch ip i = s.batch ip i := by
  have hset := @batch_setBatch_ne s destIp ip batchIndex i entry h
  rwa [batch, ← hw.batches] at hset

theorem Writes.settle (hw : Writes s destIp batchIndex entry t) (rest : List Movement) :
    Rollback.settle ((s.held ip i).map Nat.cast) (movement s t ip i ++ rest) =
      Rollback.settle ((t.held ip i).map Nat.cast) rest := by
  by_cases hself : ip = destIp ∧ i = batchIndex
  · obtain ⟨rfl, rfl⟩ := hself
    have ht : t.held ip i = entry.held := held_eq hw.batch_self
    have hinflight := hw.inflight
    cases hs : s.held ip i with
    | none =>
      cases he : entry.held with
      | none => simp [movement, hs, ht, he]
      | some n =>
        have hn : t.inflight - s.inflight = n := by
          simp only [hs, he, Option.getD_none, Option.getD_some] at hinflight
          omega
        simp [movement, hs, ht, he, Rollback.settle, hn]
    | some n =>
      rcases hw.exclusive with hnone | hnone | hkept
      · simp [hs] at hnone
      · have hn : s.inflight - t.inflight = n := by
          simp only [hs, hnone, Option.getD_none, Option.getD_some] at hinflight
          omega
        simp [movement, hs, ht, hnone, Rollback.settle, hn]
      · have he : entry.held = some n := hkept.trans hs
        simp [movement, hs, ht, he]
  · have hbatch : t.held ip i = s.held ip i := by
      unfold held
      rw [hw.batch_ne hself]
    cases hs : s.held ip i <;> simp [movement, hbatch, hs]

theorem Writes.lostResubmits_le (hw : Writes s destIp batchIndex entry t) :
    s.lostResubmits ip i ≤ t.lostResubmits ip i := by
  by_cases hself : ip = destIp ∧ i = batchIndex
  · obtain ⟨rfl, rfl⟩ := hself
    exact hw.resubmits.trans_eq (lostResubmits_eq hw.batch_self).symm
  · unfold lostResubmits
    rw [hw.batch_ne hself]

end Calls

section Runs

variable {s : WindowState} {ip : String} {i : ℤ}

theorem balanced_empty : empty.Balanced := rfl

theorem balanced_call (h : s.Balanced) (c : WindowCall) : (s.call c).Balanced := by
  rcases call_cases h c with hs | ⟨_, _, _, hw⟩
  · rw [hs]
    exact h
  · exact hw.balanced h

theorem balanced_calls (h : s.Balanced) (cs : List WindowCall) : (s.calls cs).Balanced := by
  induction cs generalizing s with
  | nil => exact h
  | cons c cs ih => exact ih (balanced_call h c)

theorem settle_movements (h : s.Balanced) (cs : List WindowCall) :
    settle ((s.held ip i).map Nat.cast) (movements ip i s cs) =
      some (((s.calls cs).held ip i).map Nat.cast) := by
  induction cs generalizing s with
  | nil => cases hs : s.held ip i <;> simp [movements, settle, calls, hs]
  | cons c cs ih =>
    have hrest := ih (balanced_call h c)
    rcases call_cases h c with hs | ⟨_, _, _, hw⟩
    · have hnone : movement s (s.call c) ip i = [] := by
        rw [hs]
        cases hheld : s.held ip i <;> simp [movement, hheld]
      rw [movements, hnone, List.nil_append]
      rw [hs] at hrest
      simpa [calls, hs] using hrest
    · rw [movements, hw.settle]
      exact hrest

theorem lostResubmits_calls (h : s.Balanced) (cs : List WindowCall) :
    s.lostResubmits ip i ≤ (s.calls cs).lostResubmits ip i := by
  induction cs generalizing s with
  | nil => exact le_rfl
  | cons c cs ih =>
    refine le_trans ?_ (ih (balanced_call h c))
    rcases call_cases h c with hs | ⟨_, _, _, hw⟩
    · rw [hs]
    · exact hw.lostResubmits_le

/-- A reserve that finds room leaves the counter within its limit. -/
theorem reserve_within (s : WindowState) (destIp : String) (batchIndex : ℤ) (taskCount : ℕ)
    (limit : ℤ) :
    let r := s.reserve destIp batchIndex taskCount limit
    0 ≤ r.1 → r.2.inflight = r.1 ∧ r.1 ≤ limit := by
  intro r hr
  rcases reserve_cases s destIp batchIndex taskCount limit with h | h | ⟨-, hinflight, hlimit, -⟩
  · cases hr.trans_eq (congrArg Prod.fst h)
  · cases hr.trans_eq (congrArg Prod.fst h)
  · exact ⟨hinflight, hlimit⟩

theorem inflight_nonneg (h : s.Balanced) : 0 ≤ s.inflight := by
  have hs : s.inflight = s.heldTotal := h
  omega

/-- Only a reserve raises the counter, and not beyond its limit. -/
theorem inflight_call {bound : ℤ} (h : s.Balanced) {c : WindowCall} (hc : c.Within bound)
    (hs : s.inflight ≤ bound) : (s.call c).inflight ≤ bound := by
  have hpos := inflight_nonneg h
  cases c with
  | reserve destIp batchIndex taskCount limit =>
    rcases reserve_cases s destIp batchIndex taskCount limit with hr | hr | ⟨-, hr, hlimit, -⟩
    · exact (congrArg (fun r => r.2.inflight) hr).trans_le hs
    · exact (congrArg (fun r => r.2.inflight) hr).trans_le hs
    · have hbound : limit ≤ bound := hc
      show (s.reserve destIp batchIndex taskCount limit).2.inflight ≤ bound
      omega
  | markOpen destIp batchIndex billId =>
    have hsame : (s.call (.markOpen destIp batchIndex billId)).inflight = s.inflight := by
      simp only [call, markOpen]
      cases s.batch destIp batchIndex with
      | none => rfl
      | some entry => by_cases hstate : entry.state = .submitting <;> simp [hstate, setBatch]
    exact hsame.trans_le hs
  | release destIp batchIndex newState =>
    simp only [call, release]
    cases s.batch destIp batchIndex with
    | none => exact hs
    | some entry =>
      by_cases hstate : entry.state ≠ .opened ∧ entry.state ≠ .submitting
      · simpa [hstate] using hs
      · simp only [hstate, if_false]
        omega
  | releaseLost destIp batchIndex =>
    simp only [call, releaseLost]
    cases s.batch destIp batchIndex with
    | none => exact hs
    | some entry =>
      cases hbill : entry.billId with
      | none => simpa [hbill] using hs
      | some billId =>
        by_cases hstate : entry.state = .opened
        · simp only [hbill, hstate, ne_eq, not_true_eq_false, if_false]
          omega
        · simpa [hbill, hstate] using hs

theorem inflight_calls {bound : ℤ} (h : s.Balanced) {cs : List WindowCall}
    (hcs : ∀ c ∈ cs, c.Within bound) (hs : s.inflight ≤ bound) : (s.calls cs).inflight ≤ bound := by
  induction cs generalizing s with
  | nil => exact hs
  | cons c cs ih =>
    have hc : c.Within bound := hcs c List.mem_cons_self
    exact ih (balanced_call h c) (fun c hc => hcs c (List.mem_cons_of_mem _ hc))
      (inflight_call h hc hs)

/-- Along every interleaving of calls on a plan row the counter is the sum of the task counts of
the submitting and open batches; a reserve that finds room stays within its limit, and so does
every state while all reserves are given it; each batch gives back what it took, once for each
time it took it; and the lost resubmissions of a batch only grow. -/
theorem window_ledger (cs : List WindowCall) :
    let s := empty.calls cs
    s.inflight = s.heldTotal ∧ 0 ≤ s.inflight ∧
      (∀ destIp batchIndex taskCount limit,
        let r := s.reserve destIp batchIndex taskCount limit
        0 ≤ r.1 → r.2.inflight = r.1 ∧ r.1 ≤ limit) ∧
      (∀ limit, 0 ≤ limit → (∀ c ∈ cs, c.Within limit) → s.inflight ≤ limit) ∧
      (∀ destIp batchIndex, settle none (movements destIp batchIndex empty cs) =
        some ((s.held destIp batchIndex).map Nat.cast)) ∧
      ∀ more destIp batchIndex,
        s.lostResubmits destIp batchIndex ≤ (s.calls more).lostResubmits destIp batchIndex := by
  intro s
  have hs : s.Balanced := balanced_calls balanced_empty cs
  refine ⟨hs, inflight_nonneg hs, reserve_within s, ?_, ?_, ?_⟩
  · intro limit hlimit hcs
    exact inflight_calls balanced_empty hcs hlimit
  · intro destIp batchIndex
    exact settle_movements balanced_empty cs
  · intro more destIp batchIndex
    exact lostResubmits_calls hs more

end Runs

/-- A batch whose bill was lost is taken again, and its history stays. -/
example :
    let s := empty.calls [.reserve "2.2.2.2" 0 50 100, .markOpen "2.2.2.2" 0 11,
      .releaseLost "2.2.2.2" 0, .release "2.2.2.2" 0 ⟨.failed, Or.inr rfl⟩,
      .reserve "2.2.2.2" 0 50 100]
    s.inflight = 50 ∧ s.lostResubmits "2.2.2.2" 0 = 1 := by
  decide +kernel

end WindowState
end Rollback
