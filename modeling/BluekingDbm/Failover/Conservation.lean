import BluekingDbm.Failover.Window

/-! Over any calls on the windows, every accepted push is counted once: in an entry that was popped
or in the one still in its window. -/
namespace Failover

inductive WindowCall
  | push (bizId : ℤ) (inst : Instance) (at' clock : ℤ)
  | pop (bizId now : ℤ) (r : RangeOrder FailureWindowEntry)
  | popAndMarkStart (bizId now : ℤ) (r : RangeOrder FailureWindowEntry)
  | markDone (instanceKey : String)

/-- The windows, the pushes accepted and the entries popped so far. -/
structure Account where
  mgr : BizWindowManager
  accepted : List (ℤ × Instance)
  popped : List (ℤ × FailureWindowEntry)

namespace Account

def initial (windowDuration inflightTTL : ℤ) : Account :=
  ⟨newBizWindowManager windowDuration inflightTTL, [], []⟩

def next (s : Account) : WindowCall → Account
  | .push bizId inst at' clock =>
    let (ok, mgr) := s.mgr.push bizId inst at' clock
    { s with mgr, accepted := if ok then (bizId, inst) :: s.accepted else s.accepted }
  | .pop bizId now r =>
    let (result, mgr) := s.mgr.pop bizId now r
    { s with mgr, popped := result.map (fun e => (bizId, e)) ++ s.popped }
  | .popAndMarkStart bizId now r =>
    let (result, mgr) := s.mgr.popAndMarkStart bizId now r
    { s with mgr, popped := result.map (fun e => (bizId, e)) ++ s.popped }
  | .markDone instanceKey => { s with mgr := s.mgr.markDone instanceKey }

/-- How often the event of the instance was accepted for the business. -/
def acceptedCount (s : Account) (b : ℤ) (i : Instance) : ℕ :=
  s.accepted.countP fun p => p.1 = b ∧ p.2.Same i

/-- What its popped entries count. -/
def poppedCount (s : Account) (b : ℤ) (i : Instance) : ℕ :=
  ((s.popped.filter fun p => p.1 = b ∧ p.2.Same i).map fun p => p.2.count).sum

end Account

namespace BizWindowManager

/-- The entry under a key of a business. -/
def entry (m : BizWindowManager) (b : ℤ) (k : String) : Option FailureWindowEntry :=
  (m.windows b).bind fun w => w.byKey.lookup k

def entries (m : BizWindowManager) (b : ℤ) : List FailureWindowEntry :=
  ((m.windows b).map fun w => Table.values w.byKey).getD []

end BizWindowManager

/-- What the entry still in the window counts. -/
def Account.pendingCount (s : Account) (b : ℤ) (i : Instance) : ℕ :=
  ((s.mgr.entry b i.eventKey).map fun e => e.count).getD 0

variable {w : SlidingWindow} {m : BizWindowManager} {s : Account} {bizId b now clock at' d : ℤ}
  {inst i : Instance} {e : FailureWindowEntry} {k : String} {r : RangeOrder FailureWindowEntry}
  {call : WindowCall}

/-- Every window has the duration of the manager, and every entry stands under its own key. -/
structure Keyed (m : BizWindowManager) (windowDuration : ℤ) : Prop where
  duration : m.windowDuration = windowDuration
  window : ∀ b w, m.windows b = some w → w.windowDuration = windowDuration
  key : ∀ b k e, m.entry b k = some e → e.eventKey = k

theorem entry_pushLocked (m : BizWindowManager) (bizId b : ℤ) (inst : Instance) (at' : ℤ)
    (k : String) :
    (m.pushLocked bizId inst at').entry b k =
      if b = bizId ∧ k = inst.eventKey then
        some (((m.entry b k).map fun e => { e with count := e.count + 1 }).getD
          { inst with count := 1, firstAt := at' })
      else m.entry b k := by
  by_cases hb : b = bizId
  · subst hb
    have hold : m.entry b k = (m.getOrCreateWindowLocked b).byKey.lookup k := by
      unfold BizWindowManager.entry BizWindowManager.getOrCreateWindowLocked
      cases m.windows b with
      | none => rfl
      | some w => rfl
    simp only [BizWindowManager.pushLocked, BizWindowManager.entry, Function.update_self,
      Option.bind_some, lookup_push, true_and]
    rw [← hold]
    by_cases hk : k = inst.eventKey
    · simp [hk, BizWindowManager.entry]
    · simp [hk, BizWindowManager.entry]
  · simp [BizWindowManager.pushLocked, BizWindowManager.entry, hb]

theorem entry_setWindow (m : BizWindowManager) (bizId b : ℤ) (w : SlidingWindow) (k : String) :
    (m.setWindow bizId w).entry b k = if b = bizId then w.byKey.lookup k else m.entry b k := by
  by_cases hb : b = bizId
  · subst hb
    by_cases hlen : w.len = 0
    · -- an empty window and none at all read the same
      have hempty : w.byKey.lookup k = none := by
        rw [AList.lookup_eq_none]
        intro hk
        obtain ⟨v, hv⟩ := List.exists_of_mem_keys hk
        rw [SlidingWindow.len, List.length_eq_zero_iff] at hlen
        rw [hlen] at hv
        cases hv
      simp [BizWindowManager.setWindow, BizWindowManager.entry, hlen, hempty]
    · simp [BizWindowManager.setWindow, BizWindowManager.entry, hlen]
  · simp [BizWindowManager.setWindow, BizWindowManager.entry, hb]

/-- The two pops differ in the marks only. -/
theorem popAndMarkStart_eq (m : BizWindowManager) (bizId now : ℤ)
    (r : RangeOrder FailureWindowEntry) :
    m.popAndMarkStart bizId now r =
      ((m.pop bizId now r).1,
        { (m.pop bizId now r).2 with
          inflight := (m.markStart (m.pop bizId now r).1 now).inflight }) := by
  unfold BizWindowManager.popAndMarkStart BizWindowManager.pop
  cases m.windows bizId with
  | none => rfl
  | some w => rfl

theorem entry_pop (h : Keyed m d) (bizId b now : ℤ) (r : RangeOrder FailureWindowEntry)
    (k : String) :
    (m.pop bizId now r).2.entry b k =
      if b = bizId then (m.entry b k).filter fun e => !(decide (e.firstAt < now - d))
      else m.entry b k := by
  unfold BizWindowManager.pop
  cases hw : m.windows bizId with
  | none =>
    by_cases hb : b = bizId
    · subst hb
      simp [BizWindowManager.entry, hw]
    · simp [hb]
  | some w =>
    have hd := h.window bizId w hw
    by_cases hb : b = bizId
    · subst hb
      have hold : m.entry b k = w.byKey.lookup k := by simp [BizWindowManager.entry, hw]
      show (m.setWindow b (w.pop now r).2).entry b k = _
      rw [entry_setWindow, if_pos rfl, if_pos rfl, pop_rest, hold]
      simp [SlidingWindow.Matured, hd]
    · simp [entry_setWindow, hb]

theorem windows_pop (bizId b now : ℤ) (r : RangeOrder FailureWindowEntry) :
    (m.pop bizId now r).2.windows b =
      if b = bizId then
        (m.windows b).bind fun w => if (w.pop now r).2.len = 0 then none else some (w.pop now r).2
      else m.windows b := by
  unfold BizWindowManager.pop
  by_cases hb : b = bizId
  · subst hb
    cases hw : m.windows b with
    | none => simp [hw]
    | some w => simp [BizWindowManager.setWindow]
  · cases hw : m.windows bizId with
    | none => simp [hb]
    | some w => simp [BizWindowManager.setWindow, hb]

theorem Keyed.pushLocked (h : Keyed m d) (bizId : ℤ) (inst : Instance) (at' : ℤ) :
    Keyed (m.pushLocked bizId inst at') d := by
  refine ⟨h.duration, fun b w hw => ?_, fun b k e he => ?_⟩
  · by_cases hb : b = bizId
    · subst hb
      simp only [BizWindowManager.pushLocked, Function.update_self, Option.some.injEq] at hw
      subst hw
      have hsame : ∀ v : SlidingWindow, (v.push inst at').windowDuration = v.windowDuration := by
        intro v
        unfold SlidingWindow.push
        split <;> rfl
      rw [hsame, BizWindowManager.getOrCreateWindowLocked]
      cases hold : m.windows b with
      | none => exact h.duration
      | some v => exact h.window b v hold
    · exact h.window b w (by simpa [BizWindowManager.pushLocked, hb] using hw)
  · rw [entry_pushLocked] at he
    split at he
    · rename_i hbk
      obtain ⟨-, rfl⟩ := hbk
      obtain rfl := Option.some.inj he
      cases hold : m.entry b inst.eventKey with
      | none => rfl
      | some v => exact h.key b _ v hold
    · exact h.key b k e he

theorem Keyed.pop (h : Keyed m d) (bizId now : ℤ) (r : RangeOrder FailureWindowEntry) :
    Keyed (m.pop bizId now r).2 d := by
  refine ⟨?_, fun b w hw => ?_, fun b k e he => ?_⟩
  · unfold BizWindowManager.pop
    split
    · exact h.duration
    · exact h.duration
  · rw [windows_pop] at hw
    split at hw
    · obtain ⟨v, hv, hw⟩ := Option.bind_eq_some_iff.mp hw
      split at hw
      · cases hw
      · cases hw
        exact h.window b v hv
    · exact h.window b w hw
  · rw [entry_pop h] at he
    split at he
    · exact h.key b k e (Option.eq_some_of_filter_eq_some he)
    · exact h.key b k e he

theorem Keyed.congr {m' : BizWindowManager} (h : Keyed m d) (hw : m'.windows = m.windows)
    (hd : m'.windowDuration = m.windowDuration) : Keyed m' d := by
  refine ⟨hd.trans h.duration, fun b w hb => h.window b w (hw ▸ hb), fun b k e he => ?_⟩
  refine h.key b k e ?_
  rwa [BizWindowManager.entry, hw] at he

/-- A push is refused and changes nothing, or it goes into the window of its business. -/
theorem push_cases (m : BizWindowManager) (bizId : ℤ) (inst : Instance) (at' clock : ℤ) :
    m.push bizId inst at' clock = (false, m) ∨
      ∃ m' : BizWindowManager, m'.windows = m.windows ∧ m'.windowDuration = m.windowDuration ∧
        m.push bizId inst at' clock = (true, m'.pushLocked bizId inst at') := by
  unfold BizWindowManager.push
  split
  · split
    · exact .inl rfl
    · rename_i startAt _ _
      exact .inr ⟨{ m with inflight := Function.update m.inflight inst.windowKey none }, rfl, rfl, rfl⟩
  · exact .inr ⟨m, rfl, rfl, rfl⟩

/-- Of the entries a pop returns, those of one event count what its entry counted. -/
theorem pop_sum (h : Keyed m d) (bizId now : ℤ) (r : RangeOrder FailureWindowEntry)
    (i : Instance) :
    (((m.pop bizId now r).1.filter fun e => e.Same i).map fun e => e.count).sum =
      (((m.entry bizId i.eventKey).filter fun e => e.firstAt < now - d).map
        fun e => e.count).getD 0 := by
  unfold BizWindowManager.pop
  cases hw : m.windows bizId with
  | none => simp [BizWindowManager.entry, hw]
  | some w =>
    have hd := h.window bizId w hw
    have hentry : m.entry bizId i.eventKey = w.byKey.lookup i.eventKey := by
      simp [BizWindowManager.entry, hw]
    have hperm : (w.pop now r).1.Perm (Table.values (Table.keep w.byKey (w.Matured now))) := by
      rw [Table.values_keep]
      exact pop_perm
    have hkey : ∀ e ∈ (Table.keep w.byKey (w.Matured now)).entries,
        (decide (e.2.Same i)) = decide (e.1 = i.eventKey) := by
      intro e he
      have hlookup := AList.mem_lookup_iff.mpr (List.mem_filter.mp he).1
      have hown : e.2.eventKey = e.1 := h.key bizId e.1 e.2 (by
        rw [BizWindowManager.entry, hw]
        exact hlookup)
      rw [← hown, decide_eq_decide]
      exact Instance.eventKey_eq_iff.symm
    have hlookup : (Table.keep w.byKey (w.Matured now)).entries.dlookup i.eventKey =
        (w.byKey.lookup i.eventKey).filter fun e => e.firstAt < now - d := by
      refine (Table.lookup_keep w.byKey (w.Matured now) i.eventKey).trans ?_
      refine congrArg (Option.filter · _) (funext fun e => ?_)
      simp only [SlidingWindow.Matured, hd]
    calc ((((w.pop now r).1).filter fun e => e.Same i).map fun e => e.count).sum
        = (((Table.values (Table.keep w.byKey (w.Matured now))).filter fun e => e.Same i).map
            fun e => e.count).sum := ((hperm.filter _).map _).sum_eq
      _ = ((((Table.keep w.byKey (w.Matured now)).entries).filter fun e => e.2.Same i).map
            fun e => e.2.count).sum := by
          rw [Table.values, List.filter_map, List.map_map]
          rfl
      _ = ((((Table.keep w.byKey (w.Matured now)).entries).filter fun e =>
            e.1 = i.eventKey).map fun e => e.2.count).sum := by
          rw [List.filter_congr hkey]
      _ = _ := by
          rw [Table.sum_key (Table.keep w.byKey (w.Matured now)).nodupKeys fun e => e.count,
            hlookup, hentry]

/-- Accepted pushes are popped or pending. -/
structure Balanced (s : Account) (d : ℤ) : Prop where
  keyed : Keyed s.mgr d
  balance : ∀ b i, s.acceptedCount b i = s.poppedCount b i + s.pendingCount b i

theorem Balanced.push (h : Balanced s d) (bizId : ℤ) (inst : Instance) (at' clock : ℤ) :
    Balanced (s.next (.push bizId inst at' clock)) d := by
  rcases push_cases s.mgr bizId inst at' clock with hp | ⟨m', hw, hd, hp⟩
  · have hnext : s.next (.push bizId inst at' clock) = s := by simp [Account.next, hp]
    rw [hnext]
    exact h
  · have hnext : s.next (.push bizId inst at' clock) =
        { s with mgr := m'.pushLocked bizId inst at', accepted := (bizId, inst) :: s.accepted } := by
      simp [Account.next, hp]
    rw [hnext]
    refine ⟨(h.keyed.congr hw hd).pushLocked bizId inst at', fun b i => ?_⟩
    have hbal := h.balance b i
    have hentry : m'.entry b i.eventKey = s.mgr.entry b i.eventKey := by
      rw [BizWindowManager.entry, hw]
      rfl
    simp only [Account.acceptedCount, Account.poppedCount, Account.pendingCount,
      List.countP_cons] at hbal ⊢
    by_cases hbi : b = bizId ∧ i.eventKey = inst.eventKey
    · obtain ⟨rfl, hkey⟩ := hbi
      have hsame : inst.Same i := Instance.eventKey_eq_iff.mp hkey.symm
      have hpend : ((m'.pushLocked b inst at').entry b i.eventKey).map (fun e => e.count) =
          some (((s.mgr.entry b i.eventKey).map fun e => e.count).getD 0 + 1) := by
        rw [entry_pushLocked, if_pos ⟨rfl, hkey⟩, hentry]
        cases s.mgr.entry b i.eventKey with
        | none => rfl
        | some e => rfl
      rw [hpend, hbal]
      simp [hsame, Nat.add_assoc]
    · have hsame : ¬ (bizId = b ∧ inst.Same i) := by
        rintro ⟨rfl, hs⟩
        exact hbi ⟨rfl, (Instance.eventKey_eq_iff.mpr hs).symm⟩
      rw [entry_pushLocked, if_neg hbi, hentry, hbal, decide_eq_false hsame]
      rfl

/-- An entry is popped or stays. -/
theorem count_split (o : Option FailureWindowEntry) (p : FailureWindowEntry → Bool) :
    ((o.filter p).map fun e => e.count).getD 0 +
      ((o.filter fun e => !p e).map fun e => e.count).getD 0 = (o.map fun e => e.count).getD 0 := by
  cases o with
  | none => rfl
  | some e => cases hp : p e <;> simp [Option.filter, hp]

theorem Balanced.pop (h : Balanced s d) (bizId now : ℤ) (r : RangeOrder FailureWindowEntry) :
    Balanced (s.next (.pop bizId now r)) d := by
  refine ⟨h.keyed.pop bizId now r, fun b i => ?_⟩
  have hbal := h.balance b i
  have hsum := pop_sum h.keyed bizId now r i
  have hrest := entry_pop h.keyed bizId b now r i.eventKey
  simp only [Account.next, Account.acceptedCount, Account.poppedCount, Account.pendingCount] at hbal ⊢
  by_cases hb : b = bizId
  · subst hb
    rw [if_pos rfl] at hrest
    rw [hrest, List.filter_append, List.map_append, List.sum_append, List.filter_map, List.map_map]
    have hpopped : ((((s.mgr.pop b now r).1.filter
        ((fun p : ℤ × FailureWindowEntry => decide (p.1 = b ∧ p.2.Same i)) ∘ fun e => (b, e))).map
          ((fun p : ℤ × FailureWindowEntry => p.2.count) ∘ fun e => (b, e))).sum) =
        (((s.mgr.pop b now r).1.filter fun e => e.Same i).map fun e => e.count).sum := by
      simp [Function.comp_def]
    rw [hpopped, hsum]
    have hsplit := count_split (s.mgr.entry b i.eventKey) fun e => decide (e.firstAt < now - d)
    omega
  · rw [if_neg hb] at hrest
    have hnone : ((s.mgr.pop bizId now r).1.map fun e => (bizId, e)).filter
        (fun p => decide (p.1 = b ∧ p.2.Same i)) = [] := by
      rw [List.filter_eq_nil_iff]
      intro p hp
      obtain ⟨e, -, rfl⟩ := List.mem_map.mp hp
      simp [Ne.symm hb]
    rw [hrest, List.filter_append, hnone]
    exact hbal

theorem Balanced.popAndMarkStart (h : Balanced s d) (bizId now : ℤ)
    (r : RangeOrder FailureWindowEntry) : Balanced (s.next (.popAndMarkStart bizId now r)) d := by
  have hpop := h.pop bizId now r
  simp only [Account.next, popAndMarkStart_eq] at hpop ⊢
  exact ⟨hpop.keyed.congr rfl rfl, hpop.balance⟩

theorem balanced_next (h : Balanced s d) (call : WindowCall) : Balanced (s.next call) d := by
  cases call with
  | push bizId inst at' clock => exact h.push bizId inst at' clock
  | pop bizId now r => exact h.pop bizId now r
  | popAndMarkStart bizId now r => exact h.popAndMarkStart bizId now r
  | markDone k => exact ⟨h.keyed.congr rfl rfl, h.balance⟩

theorem balanced_run (h : Balanced s d) (calls : List WindowCall) :
    Balanced (calls.foldl Account.next s) d := by
  induction calls generalizing s with
  | nil => exact h
  | cons call calls ih => exact ih (balanced_next h call)

theorem balanced_initial (windowDuration inflightTTL : ℤ) :
    Balanced (.initial windowDuration inflightTTL) windowDuration := by
  have hnone : ∀ b k, (Account.initial windowDuration inflightTTL).mgr.entry b k = none :=
    fun b k => rfl
  refine ⟨⟨rfl, nofun, fun b k e he => ?_⟩, fun b i => ?_⟩
  · cases (hnone b k).symm.trans he
  · simp [Account.initial, Account.acceptedCount, Account.poppedCount, Account.pendingCount,
      BizWindowManager.entry, newBizWindowManager]

/-- A pop of a business at `now` returns the entries that have slid out of the window, by their first
times, keeps the others, and drops the window if none is left. -/
structure PopExact (windowDuration : ℤ) (m : BizWindowManager) (bizId now : ℤ)
    (p : List FailureWindowEntry × BizWindowManager) : Prop where
  exact : p.1.Perm ((m.entries bizId).filter fun e => e.firstAt < now - windowDuration)
  sorted : p.1.Pairwise fun a b => a.firstAt ≤ b.firstAt
  rest : p.2.entries bizId =
    (m.entries bizId).filter fun e => !decide (e.firstAt < now - windowDuration)
  dropped : p.2.windows bizId = none ↔ p.2.entries bizId = []
  others : ∀ b ≠ bizId, p.2.windows b = m.windows b

theorem popExact (h : Keyed m d) (bizId now : ℤ) (r : RangeOrder FailureWindowEntry) :
    PopExact d m bizId now (m.pop bizId now r) := by
  have hwindows := windows_pop (m := m) bizId bizId now r
  rw [if_pos rfl] at hwindows
  have hothers : ∀ b ≠ bizId, (m.pop bizId now r).2.windows b = m.windows b := by
    intro b hb
    rw [windows_pop, if_neg hb]
  cases hw : m.windows bizId with
  | none =>
    have hnil : (m.pop bizId now r).1 = [] := by simp [BizWindowManager.pop, hw]
    rw [hw] at hwindows
    have hentries : m.entries bizId = [] := by simp [BizWindowManager.entries, hw]
    have hafter : (m.pop bizId now r).2.entries bizId = [] := by
      simp [BizWindowManager.entries, hwindows]
    refine ⟨?_, ?_, ?_, ⟨fun _ => hafter, fun _ => hwindows⟩, hothers⟩
    · rw [hnil, hentries]
      exact .nil
    · rw [hnil]
      exact .nil
    · rw [hafter, hentries]
      rfl
  | some w =>
    have hd := h.window bizId w hw
    have hresult : (m.pop bizId now r).1 = (w.pop now r).1 := by simp [BizWindowManager.pop, hw]
    have hentries : m.entries bizId = Table.values w.byKey := by simp [BizWindowManager.entries, hw]
    have hmatured : w.Matured now = fun e => decide (e.firstAt < now - d) := by
      funext e
      simp only [SlidingWindow.Matured, hd]
    have hrest : Table.values (w.pop now r).2.byKey =
        (Table.values w.byKey).filter fun e => !decide (e.firstAt < now - d) := by
      rw [← hd]
      exact Table.values_keep ..
    have hlen : (w.pop now r).2.len = (Table.values (w.pop now r).2.byKey).length := by
      simp [SlidingWindow.len, Table.values]
    rw [hw, Option.bind_some] at hwindows
    refine ⟨?_, ?_, ?_, ?_, hothers⟩
    · rw [hresult, hentries, ← hmatured]
      exact pop_perm
    · rw [hresult]
      exact pop_sorted
    · rw [hentries, ← hrest, BizWindowManager.entries, hwindows]
      split
      · rename_i hzero
        exact (List.length_eq_zero_iff.mp (hlen ▸ hzero)).symm
      · rfl
    · rw [BizWindowManager.entries, hwindows]
      split
      · simp
      · rename_i hsome
        simpa [← List.length_eq_zero_iff, ← hlen] using hsome

theorem PopExact.congr {p q : List FailureWindowEntry × BizWindowManager}
    (h : PopExact d m bizId now p) (hresult : q.1 = p.1) (hw : q.2.windows = p.2.windows) :
    PopExact d m bizId now q := by
  have hentries : q.2.entries = p.2.entries := by
    funext b
    rw [BizWindowManager.entries, hw]
    rfl
  exact ⟨hresult ▸ h.exact, hresult ▸ h.sorted, hentries ▸ h.rest, hentries ▸ hw ▸ h.dropped,
    hw ▸ h.others⟩

/-- A push leaves no business without its window. -/
theorem push_keeps_windows (m : BizWindowManager) (bizId : ℤ) (inst : Instance) (at' clock b : ℤ)
    (hb : (m.windows b).isSome) : ((m.push bizId inst at' clock).2.windows b).isSome := by
  rcases push_cases m bizId inst at' clock with hp | ⟨m', hw, -, hp⟩
  · rw [hp]
    exact hb
  · rw [hp]
    by_cases hbiz : b = bizId
    · subst hbiz
      simp [BizWindowManager.pushLocked]
    · simpa [BizWindowManager.pushLocked, hbiz, hw] using hb

/-- After any calls, at any times and on any businesses, the accepted pushes of an event are counted
by its popped entries and the one in its window; every pop is exact; and only a pop that leaves
nothing drops a window. -/
theorem windows_conserve (windowDuration inflightTTL : ℤ) (calls : List WindowCall) :
    let s := calls.foldl Account.next (.initial windowDuration inflightTTL)
    (∀ b i, s.acceptedCount b i = s.poppedCount b i + s.pendingCount b i) ∧
    (∀ bizId now r, PopExact windowDuration s.mgr bizId now (s.mgr.pop bizId now r)) ∧
    (∀ bizId now r, PopExact windowDuration s.mgr bizId now (s.mgr.popAndMarkStart bizId now r)) ∧
    (∀ bizId inst at' clock b, (s.mgr.windows b).isSome →
      ((s.mgr.push bizId inst at' clock).2.windows b).isSome) ∧
    ∀ k, (s.mgr.markDone k).windows = s.mgr.windows := by
  intro s
  have h : Balanced s windowDuration := balanced_run (balanced_initial ..) calls
  refine ⟨h.balance, popExact h.keyed, ?_, push_keeps_windows s.mgr, fun k => rfl⟩
  intro bizId now r
  rw [popAndMarkStart_eq]
  exact (popExact h.keyed bizId now r).congr rfl rfl

end Failover
