import BluekingDbm.Filecontext.Counter

/-! Whether the counter in the file is that of the processes that hold it. -/
namespace Filecontext

variable {Pid : Type*}

/-- What a process in a phase knows. -/
def Local (s : State Pid) (q : Pid) : Phase → Prop
  | .closed | .ready => True
  | .opening data => data.current = s.current ∧ data.current ≤ data.max
  | .trying op => op = .done → q ∈ s.holders
  | .locked op => s.lock = some q ∧ (op = .done → q ∈ s.holders)
  | .loaded op data => s.lock = some q ∧ (op = .done → q ∈ s.holders) ∧
      data.current = s.current ∧ data.current ≤ data.max
  | .unlocking retry => s.lock = some q ∧ (retry = some .done → q ∈ s.holders)

/-- The stored value is the number of increments that have not been given back, and fits. -/
structure Exact (s : State Pid) : Prop where
  count : s.current = s.increments - s.dones
  nonneg : 0 ≤ s.current
  fits : ∀ data ∈ s.file, data.current ≤ data.max

structure Inv (s : State Pid) : Prop where
  count : s.current = s.holders.length
  history : s.increments = s.dones + s.holders.length
  fits : ∀ data ∈ s.file, data.current ≤ data.max
  phases : ∀ q, Local s q (s.procs q)

section

variable {s t : State Pid} {q : Pid} {phase : Phase}

theorem opened_le (h : ∀ data ∈ s.file, data.current ≤ data.max) (max : ℕ) :
    (opened s.file max).current = s.current ∧ (opened s.file max).current ≤ (opened s.file max).max := by
  unfold opened State.current at *
  split
  · exact ⟨rfl, Int.natCast_nonneg max⟩
  · rename_i data hfile
    have hfits := h data hfile
    split
    · rename_i hzero
      refine ⟨rfl, ?_⟩
      dsimp only
      omega
    · exact ⟨rfl, hfits⟩

theorem exact_of_inv (h : Inv s) : Exact s := by
  have hcount := h.count
  have hhistory := h.history
  exact ⟨by omega, by omega, h.fits⟩

/-- Other processes' steps that leave the value alone do not matter. -/
theorem Local.keep (h : Local s q phase) (hcurrent : t.current = s.current)
    (hlock : s.lock = some q → t.lock = some q) (hholders : q ∈ s.holders → q ∈ t.holders) :
    Local t q phase := by
  cases phase with
  | closed => trivial
  | opening data => exact ⟨h.1.trans hcurrent.symm, h.2⟩
  | ready => trivial
  | trying op => exact fun hdone => hholders (h hdone)
  | locked op => exact ⟨hlock h.1, fun hdone => hholders (h.2 hdone)⟩
  | loaded op data =>
    exact ⟨hlock h.1, fun hdone => hholders (h.2.1 hdone), h.2.2.1.trans hcurrent.symm, h.2.2.2⟩
  | unlocking retry => exact ⟨hlock h.1, fun hdone => hholders (h.2 hdone)⟩

/-- A change of the value matters only to one that opens the file or holds the lock. -/
theorem Local.keep_set (h : Local s q phase) (hopening : ∀ memory, phase ≠ .opening memory)
    (hlock : s.lock ≠ some q) (hholders : q ∈ s.holders → q ∈ t.holders) : Local t q phase := by
  cases phase with
  | closed => trivial
  | opening data => exact absurd rfl (hopening data)
  | ready => trivial
  | trying op => exact fun hdone => hholders (h hdone)
  | locked op => exact absurd h.1 hlock
  | loaded op data => exact absurd h.1 hlock
  | unlocking retry => exact absurd h.1 hlock

end

variable [DecidableEq Pid]

/-- A call rewrites the file only while no process is between the read and the rewrite of
`NewIncrFile`. -/
def Undisturbed (s : State Pid) (e : Pid × Action) : Prop :=
  e.2 = .finish → ∀ op data, s.procs e.1 = .loaded op data → ¬ Full op data →
    ∀ q memory, s.procs q ≠ .opening memory

theorem undisturbed_of_ne {s : State Pid} {e : Pid × Action} (h : e.2 ≠ .finish) : Undisturbed s e :=
  fun heq => absurd heq h

/-- The steps of `next`. -/
inductive Step (s : State Pid) (p : Pid) : Action → State Pid → Prop
  | open_ {max : ℕ} (h : s.procs p = .closed) :
      Step s p (.open_ max) (s.setPhase p (.opening (opened s.file max)))
  | save {data : Data} (h : s.procs p = .opening data) :
      Step s p .save ({ s with file := some data }.setPhase p .ready)
  | call {op : Op} (h : s.procs p = .ready) (hheld : op = .done → p ∈ s.holders) :
      Step s p (.call op) (s.setPhase p (.trying op))
  | lock {op : Op} (h : s.procs p = .trying op) (hfree : s.lock = none) :
      Step s p .tryLock ({ s with lock := some p }.setPhase p (.locked op))
  | busy {op : Op} (h : s.procs p = .trying op) :
      Step s p .tryLock (s.setPhase p (if op = .tryIncr then .ready else .trying op))
  | missing {op : Op} (h : s.procs p = .locked op) :
      Step s p .read (s.setPhase p (.unlocking none))
  | read {op : Op} {data : Data} (h : s.procs p = .locked op) (hfile : s.file = some data) :
      Step s p .read (s.setPhase p (.loaded op data))
  | full {op : Op} {data : Data} (h : s.procs p = .loaded op data) (hfull : Full op data) :
      Step s p .finish (s.setPhase p (.unlocking (if op = .tryIncr then none else some op)))
  | set {op : Op} {data : Data} (h : s.procs p = .loaded op data) (hroom : ¬ Full op data) :
      Step s p .finish ((s.set p op data).setPhase p (.unlocking none))
  | unlock {retry : Option Op} (h : s.procs p = .unlocking retry) :
      Step s p .unlock ({ s with lock := none }.setPhase p (again retry))

variable {s t : State Pid} {p q : Pid} {e : Pid × Action} {phase : Phase} {data : Data} {op : Op}

theorem step_of_next (h : next s e = some t) : Step s e.1 e.2 t := by
  obtain ⟨p, action⟩ := e
  unfold next at h
  dsimp only at h ⊢
  split at h
  · rename_i hphase
    obtain rfl := Option.some.inj h
    exact .open_ hphase
  · rename_i hphase
    obtain rfl := Option.some.inj h
    exact .save hphase
  · rename_i hphase
    split at h
    · cases h
    · rename_i hheld
      obtain rfl := Option.some.inj h
      refine .call hphase fun hdone => ?_
      by_contra hnot
      exact hheld ⟨hdone, hnot⟩
  · rename_i hphase
    split at h
    · rename_i hfree
      obtain rfl := Option.some.inj h
      exact .lock hphase hfree
    · obtain rfl := Option.some.inj h
      exact .busy hphase
  · rename_i hphase
    split at h
    · obtain rfl := Option.some.inj h
      exact .missing hphase
    · rename_i hfile
      obtain rfl := Option.some.inj h
      exact .read hphase hfile
  · rename_i hphase
    split at h
    · rename_i hfull
      obtain rfl := Option.some.inj h
      exact .full hphase hfull
    · rename_i hroom
      obtain rfl := Option.some.inj h
      exact .set hphase hroom
  · rename_i hphase
    obtain rfl := Option.some.inj h
    exact .unlock hphase
  · cases h

@[simp] theorem setPhase_current (s : State Pid) (p : Pid) (phase : Phase) :
    (s.setPhase p phase).current = s.current := rfl

theorem setPhase_self (s : State Pid) (p : Pid) (phase : Phase) :
    (s.setPhase p phase).procs p = phase := if_pos rfl

theorem setPhase_ne (s : State Pid) (phase : Phase) (h : q ≠ p) :
    (s.setPhase p phase).procs q = s.procs q := if_neg h

/-- A step that leaves the counter and its history alone needs a look at its own process only. -/
theorem Inv.setPhase (h : Inv s) (hcurrent : t.current = s.current)
    (hfits : ∀ data ∈ t.file, data.current ≤ data.max) (hholders : t.holders = s.holders)
    (hhistory : t.increments = s.increments ∧ t.dones = s.dones) (hprocs : t.procs = s.procs)
    (hlock : ∀ q, q ≠ p → s.lock = some q → t.lock = some q)
    (hlocal : Local t p phase) : Inv (t.setPhase p phase) := by
  constructor
  case count => rw [setPhase_current, hcurrent, h.count]; show _ = (t.holders.length : ℤ); rw [hholders]
  case history =>
    show t.increments = t.dones + t.holders.length
    rw [hhistory.1, hhistory.2, hholders, h.history]
  case fits => exact hfits
  case phases =>
    intro q
    by_cases hq : q = p
    · subst hq
      rw [setPhase_self]
      exact hlocal.keep rfl id id
    · rw [setPhase_ne _ _ hq, hprocs]
      exact (h.phases q).keep hcurrent (hlock q hq) fun hin => by
        show q ∈ t.holders
        rwa [hholders]

/-- The rewrite by the process that has the lock. -/
theorem inv_set (h : Inv s) (hphase : s.procs p = .loaded op data) (hroom : ¬ Full op data)
    (hopening : ∀ q memory, s.procs q ≠ .opening memory) :
    Inv ((s.set p op data).setPhase p (.unlocking none)) := by
  have hlocal := h.phases p
  rw [hphase] at hlocal
  obtain ⟨hlock, hheld, hcurrent, hfits⟩ := hlocal
  have hcount := h.count
  have hhistory := h.history
  have hothers : ∀ t : State Pid, t.procs = s.procs → t.lock = s.lock →
      (∀ q, q ≠ p → q ∈ s.holders → q ∈ t.holders) →
        ∀ q, Local (t.setPhase p (.unlocking none)) q ((t.setPhase p (.unlocking none)).procs q) := by
    intro t hprocs hsame hholders q
    by_cases hq : q = p
    · subst hq
      rw [setPhase_self]
      exact ⟨hsame.trans hlock, fun heq => by cases heq⟩
    · rw [setPhase_ne _ _ hq, hprocs]
      refine (h.phases q).keep_set (hopening q) ?_ (hholders q hq)
      rw [hlock]
      exact fun heq => hq (Option.some.inj heq).symm
  have hadd : op.incr = 1 → s.set p op data = { s with
      file := some { data with current := data.current + 1 }
      holders := p :: s.holders
      increments := s.increments + 1 } → Inv ((s.set p op data).setPhase p (.unlocking none)) := by
    intro hone heq
    unfold Full at hroom
    rw [hone] at hroom
    rw [heq]
    constructor
    case count =>
      show data.current + 1 = ((s.holders.length + 1 : ℕ) : ℤ)
      omega
    case history =>
      show s.increments + 1 = s.dones + (s.holders.length + 1)
      omega
    case fits =>
      rintro _ ⟨rfl⟩
      dsimp only
      omega
    case phases => exact hothers _ rfl rfl fun q _ hin => List.mem_cons_of_mem p hin
  cases op with
  | add => exact hadd rfl rfl
  | tryIncr => exact hadd rfl rfl
  | done =>
    have hin := hheld rfl
    have hlength := List.length_erase_of_mem hin
    have hpos := List.length_pos_of_mem hin
    constructor
    case count =>
      show data.current + -1 = ((s.holders.erase p).length : ℤ)
      omega
    case history =>
      show s.increments = s.dones + 1 + (s.holders.erase p).length
      omega
    case fits =>
      rintro _ ⟨rfl⟩
      show data.current + -1 ≤ data.max
      omega
    case phases =>
      refine hothers _ rfl rfl fun q hq hmem => ?_
      exact (List.mem_erase_of_ne hq).mpr hmem

theorem inv_step (h : Inv s) (hguard : Undisturbed s e) (hs : next s e = some t) : Inv t := by
  obtain ⟨p, action⟩ := e
  have hlocal := h.phases p
  have hstep := step_of_next hs
  dsimp only at hstep
  cases hstep with
  | open_ hphase =>
    exact h.setPhase rfl h.fits rfl ⟨rfl, rfl⟩ rfl (fun _ _ => id) (opened_le h.fits _)
  | save hphase =>
    rw [hphase] at hlocal
    obtain ⟨hcurrent, hfits⟩ := hlocal
    refine h.setPhase hcurrent ?_ rfl ⟨rfl, rfl⟩ rfl (fun _ _ => id) trivial
    rintro _ ⟨rfl⟩
    exact hfits
  | call hphase hheld => exact h.setPhase rfl h.fits rfl ⟨rfl, rfl⟩ rfl (fun _ _ => id) hheld
  | lock hphase hfree =>
    rw [hphase] at hlocal
    refine h.setPhase rfl h.fits rfl ⟨rfl, rfl⟩ rfl (fun q _ hq => ?_) ⟨rfl, hlocal⟩
    rw [hfree] at hq
    cases hq
  | busy hphase =>
    rw [hphase] at hlocal
    refine h.setPhase rfl h.fits rfl ⟨rfl, rfl⟩ rfl (fun _ _ => id) ?_
    split
    · trivial
    · exact hlocal
  | missing hphase =>
    rw [hphase] at hlocal
    exact h.setPhase rfl h.fits rfl ⟨rfl, rfl⟩ rfl (fun _ _ => id) ⟨hlocal.1, fun heq => by cases heq⟩
  | @read op data hphase hfile =>
    rw [hphase] at hlocal
    refine h.setPhase rfl h.fits rfl ⟨rfl, rfl⟩ rfl (fun _ _ => id)
      ⟨hlocal.1, hlocal.2, ?_, h.fits data hfile⟩
    unfold State.current
    rw [hfile]
  | @full op data hphase hfull =>
    rw [hphase] at hlocal
    refine h.setPhase rfl h.fits rfl ⟨rfl, rfl⟩ rfl (fun _ _ => id) ⟨hlocal.1, ?_⟩
    split
    · exact fun heq => by cases heq
    · intro heq
      exact hlocal.2.1 (Option.some.inj heq)
  | set hphase hroom =>
    exact inv_set h hphase hroom (hguard rfl _ _ hphase hroom)
  | @unlock retry hphase =>
    rw [hphase] at hlocal
    refine h.setPhase rfl h.fits rfl ⟨rfl, rfl⟩ rfl (fun q hq hlock => ?_) ?_
    · rw [hlocal.1] at hlock
      exact absurd (Option.some.inj hlock).symm hq
    · cases retry with
      | none => trivial
      | some op => exact fun hdone => hlocal.2 (by rw [hdone])

theorem inv_initial : Inv (initial : State Pid) :=
  ⟨rfl, rfl, fun _ hfile => (Option.not_mem_none _ hfile).elim, fun _ => trivial⟩

theorem inv_run {events : List (Pid × Action)}
    (hrun : Transition.Run (Transition.Guarded Undisturbed (Transition.Steps next)) initial events s) :
    Inv s :=
  hrun.invariant Inv inv_initial fun h ⟨hguard, hs⟩ => inv_step h hguard hs

/-- In every run whose calls rewrite the file only while nobody opens it, the stored value is that of
the calls that succeeded and fits, and opening the counter does not change it. -/
theorem counter_exact {events : List (Pid × Action)}
    (hrun : Transition.Run (Transition.Guarded Undisturbed (Transition.Steps next)) initial events s) :
    Exact s ∧ ∀ p max t, (next s (p, .open_ max) = some t ∨ next s (p, .save) = some t) →
      t.current = s.current := by
  have hinv := inv_run hrun
  refine ⟨exact_of_inv hinv, ?_⟩
  rintro p max t (hs | hs)
  · cases step_of_next hs with
    | open_ hphase => rfl
  · cases step_of_next hs with
    | save hphase =>
      have hlocal := hinv.phases p
      rw [hphase] at hlocal
      exact hlocal.1

/-- A process that opens the counter and increments it. -/
theorem counter_exact_increment : ∃ (events : List (ℕ × Action)) (t : State ℕ),
    Transition.Run (Transition.Guarded Undisturbed (Transition.Steps next)) initial events t ∧
      t.current = 1 ∧ t.increments = 1 ∧ Exact t := by
  have hrun : ∃ t : State ℕ,
      Transition.Run (Transition.Guarded Undisturbed (Transition.Steps next)) initial
        [(0, .open_ 1), (0, .save), (0, .call .tryIncr), (0, .tryLock), (0, .read), (0, .finish)] t ∧
        t.current = 1 ∧ t.increments = 1 := by
    refine ⟨_, .head ⟨undisturbed_of_ne nofun, rfl⟩ <| .head ⟨undisturbed_of_ne nofun, rfl⟩ <|
      .head ⟨undisturbed_of_ne nofun, rfl⟩ <| .head ⟨undisturbed_of_ne nofun, rfl⟩ <|
      .head ⟨undisturbed_of_ne nofun, rfl⟩ <| .head ⟨?_, rfl⟩ .refl, rfl, rfl⟩
    intro _ op data _ _ q memory hq
    by_cases hzero : q = 0
    · subst hzero
      cases hq
    · simp [setPhase_ne _ _ hzero, initial] at hq
  obtain ⟨t, hrun, hcurrent, hincrements⟩ := hrun
  exact ⟨_, t, hrun, hcurrent, hincrements, (counter_exact hrun).1⟩

/-- A second process reads the counter before the increment of the first and saves it afterwards. -/
def lost : List (ℕ × Action) :=
  [(0, .open_ 1), (0, .save), (0, .call .tryIncr), (0, .tryLock), (0, .read), (1, .open_ 1),
    (0, .finish), (0, .unlock), (1, .save)]

theorem counter_lost : ¬ ∀ (events : List (ℕ × Action)) (s : State ℕ),
    Transition.Run (Transition.Steps next) initial events s → Exact s := by
  intro h
  obtain ⟨t, hrun, ht⟩ := Transition.exists_run_of_exec next (initial : State ℕ) lost
    (fun s => decide (s.current = 0 ∧ s.increments = 1 ∧ s.dones = 0)) (by decide)
  obtain ⟨hcurrent, hincrements, hdones⟩ := of_decide_eq_true ht
  have hcount := (h lost t hrun).count
  omega

end Filecontext
