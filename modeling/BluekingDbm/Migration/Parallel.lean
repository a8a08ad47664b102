import BluekingDbm.Library.Locks
import BluekingDbm.Migration.Plan
import Mathlib.Data.String.Basic

/-! The goroutines of `ParallelMigrateSpecificSlots`, and the locks of the nodes that they share. -/
namespace Migration

open Locks

def maxTryLockAttempts : ℕ := 300

/-- Where the goroutine of a task stands. -/
inductive Place
  | sleeping
  | tryingFirst (attempt : ℕ)
  | tryingSecond (attempt : ℕ)
  | releasingFirst (attempt : ℕ)
  | lockingFirst
  | lockingSecond
  | waitingForNodes
  | migrating
  | unlockingSecond
  | unlockingFirst
  | done
deriving DecidableEq

/-- A goroutine, and how often it has migrated the slots of its task. -/
structure Worker where
  place : Place
  migrations : ℕ
deriving DecidableEq

namespace MigrateSomeSlots

variable (task : MigrateSomeSlots)

def first : String := if task.srcAddr < task.dstAddr then task.srcAddr else task.dstAddr

def second : String := if task.srcAddr < task.dstAddr then task.dstAddr else task.srcAddr

end MigrateSomeSlots

/-- After the last attempt the locks are waited for. -/
def retry (attempt : ℕ) : Place :=
  if attempt + 1 < maxTryLockAttempts then .tryingFirst (attempt + 1) else .lockingFirst

/-- What the goroutine of a task does next. An attempt may fail at any time. -/
inductive Moves (task : MigrateSomeSlots) : Worker → Op String → Worker → Prop
  | wake {n : ℕ} : Moves task ⟨.sleeping, n⟩ .skip ⟨.tryingFirst 0, n⟩
  | tryFirst {k n : ℕ} : Moves task ⟨.tryingFirst k, n⟩ (.acquire task.first) ⟨.tryingSecond k, n⟩
  | failFirst {k n : ℕ} : Moves task ⟨.tryingFirst k, n⟩ .skip ⟨retry k, n⟩
  | trySecond {k n : ℕ} :
      Moves task ⟨.tryingSecond k, n⟩ (.acquire task.second) ⟨.waitingForNodes, n⟩
  | failSecond {k n : ℕ} : Moves task ⟨.tryingSecond k, n⟩ .skip ⟨.releasingFirst k, n⟩
  | giveUpFirst {k n : ℕ} : Moves task ⟨.releasingFirst k, n⟩ (.release task.first) ⟨retry k, n⟩
  | lockFirst {n : ℕ} : Moves task ⟨.lockingFirst, n⟩ (.acquire task.first) ⟨.lockingSecond, n⟩
  | lockSecond {n : ℕ} :
      Moves task ⟨.lockingSecond, n⟩ (.acquire task.second) ⟨.waitingForNodes, n⟩
  | nodesIdle {n : ℕ} : Moves task ⟨.waitingForNodes, n⟩ .skip ⟨.migrating, n + 1⟩
  | migrated {n : ℕ} : Moves task ⟨.migrating, n⟩ .skip ⟨.unlockingSecond, n⟩
  | unlockSecond {n : ℕ} :
      Moves task ⟨.unlockingSecond, n⟩ (.release task.second) ⟨.unlockingFirst, n⟩
  | unlockFirst {n : ℕ} : Moves task ⟨.unlockingFirst, n⟩ (.release task.first) ⟨.done, n⟩

section Places

def Place.holdsFirst : Place → Bool
  | .sleeping => false
  | .tryingFirst _ => false
  | .tryingSecond _ => true
  | .releasingFirst _ => true
  | .lockingFirst => false
  | .lockingSecond => true
  | .waitingForNodes => true
  | .migrating => true
  | .unlockingSecond => true
  | .unlockingFirst => true
  | .done => false

def Place.holdsSecond : Place → Bool
  | .waitingForNodes => true
  | .migrating => true
  | .unlockingSecond => true
  | _ => false

/-- Whether the slots of the task have been migrated, or are being so. -/
def Place.started : Place → Bool
  | .migrating => true
  | .unlockingSecond => true
  | .unlockingFirst => true
  | .done => true
  | _ => false

/-- How many moves are left at most: three for every attempt. -/
def Place.left : Place → ℕ
  | .sleeping => 3 * maxTryLockAttempts + 10
  | .tryingFirst k => 3 * (maxTryLockAttempts - k) + 9
  | .tryingSecond k => 3 * (maxTryLockAttempts - k) + 8
  | .releasingFirst k => 3 * (maxTryLockAttempts - k) + 7
  | .lockingFirst => 6
  | .lockingSecond => 5
  | .waitingForNodes => 4
  | .migrating => 3
  | .unlockingSecond => 2
  | .unlockingFirst => 1
  | .done => 0

variable {task : MigrateSomeSlots} {w w' : Worker} {op : Op String}

theorem retry_holdsFirst (k : ℕ) : (retry k).holdsFirst = false := by
  unfold retry
  split
  · rfl
  · rfl

theorem retry_holdsSecond (k : ℕ) : (retry k).holdsSecond = false := by
  unfold retry
  split
  · rfl
  · rfl

theorem retry_started (k : ℕ) : (retry k).started = false := by
  unfold retry
  split
  · rfl
  · rfl

theorem retry_left (k : ℕ) : (retry k).left < (Place.releasingFirst k).left := by
  unfold retry
  split
  · dsimp only [Place.left]
    omega
  · dsimp only [Place.left]
    omega

theorem Moves.left (h : Moves task w op w') : w'.place.left < w.place.left := by
  cases h with
  | @failFirst k n =>
    have hretry := retry_left k
    dsimp only [Place.left] at hretry ⊢
    omega
  | giveUpFirst => exact retry_left _
  | _ =>
    dsimp only [Place.left]
    omega

/-- The slots are migrated once. -/
theorem Moves.migrations (h : Moves task w op w')
    (hw : w.migrations = if w.place.started then 1 else 0) :
    w'.migrations = if w'.place.started then 1 else 0 := by
  cases h with
  | failFirst =>
    rw [retry_started]
    exact hw
  | giveUpFirst =>
    rw [retry_started]
    exact hw
  | nodesIdle => exact congrArg (· + 1) hw
  | _ => exact hw

/-- The locks of a goroutine. -/
def Worker.holds (task : MigrateSomeSlots) (w : Worker) : Set String :=
  {node | w.place.holdsFirst = true ∧ node = task.first ∨
    w.place.holdsSecond = true ∧ node = task.second}

theorem holds_none (hfirst : w.place.holdsFirst = false) (hsecond : w.place.holdsSecond = false) :
    w.holds task = ∅ := by
  refine Set.eq_empty_of_forall_notMem ?_
  rintro node (⟨hheld, -⟩ | ⟨hheld, -⟩)
  · exact absurd (hheld.symm.trans hfirst) nofun
  · exact absurd (hheld.symm.trans hsecond) nofun

theorem holds_first (hfirst : w.place.holdsFirst = true) (hsecond : w.place.holdsSecond = false) :
    w.holds task = {task.first} := by
  ext node
  constructor
  · rintro (⟨-, rfl⟩ | ⟨hheld, -⟩)
    · exact rfl
    · exact absurd (hheld.symm.trans hsecond) nofun
  · rintro rfl
    exact Or.inl ⟨hfirst, rfl⟩

theorem holds_both (hfirst : w.place.holdsFirst = true) (hsecond : w.place.holdsSecond = true) :
    w.holds task = {task.first, task.second} := by
  ext node
  constructor
  · rintro (⟨-, rfl⟩ | ⟨-, rfl⟩)
    · exact Or.inl rfl
    · exact Or.inr rfl
  · rintro (rfl | rfl)
    · exact Or.inl ⟨hfirst, rfl⟩
    · exact Or.inr ⟨hsecond, rfl⟩

theorem first_lt_second (h : task.srcAddr ≠ task.dstAddr) : task.first < task.second := by
  unfold MigrateSomeSlots.first MigrateSomeSlots.second
  split
  case isTrue hlt => exact hlt
  case isFalse hge => exact lt_of_le_of_ne (not_lt.mp hge) h.symm

end Places

section Tasks

variable (tasks : List MigrateSomeSlots)

def move (i : Fin tasks.length) : Worker → Op String → Worker → Prop := Moves (tasks.get i)

def holds (i : Fin tasks.length) : Worker → Set String := Worker.holds (tasks.get i)

def launched : Workers (Fin tasks.length) String Worker := ⟨fun _ => ⟨.sleeping, 0⟩, fun _ => none⟩

variable {tasks} {s : Workers (Fin tasks.length) String Worker} {es : List (Fin tasks.length)}

theorem move_discipline (h : ∀ task ∈ tasks, task.srcAddr ≠ task.dstAddr) :
    Discipline (move tasks) (holds tasks) := by
  constructor
  · intro i p q hmove
    generalize hop : Op.skip = op at hmove
    cases hmove with
    | wake => rfl
    | @failFirst k n =>
      apply (holds_none (retry_holdsFirst k) (retry_holdsSecond k)).trans
      exact (holds_none rfl rfl).symm
    | failSecond => rfl
    | nodesIdle => rfl
    | migrated => rfl
    | _ => cases hop
  · intro i p q l hmove
    generalize hop : Op.acquire l = op at hmove
    cases hmove with
    | tryFirst | lockFirst =>
      cases hop
      apply (holds_first rfl rfl).trans
      rw [holds, holds_none rfl rfl]
      exact (insert_empty_eq _).symm
    | trySecond | lockSecond =>
      cases hop
      apply (holds_both rfl rfl).trans
      rw [holds, holds_first rfl rfl]
      exact Set.pair_comm _ _
    | _ => cases hop
  · intro i p q l hmove
    generalize hop : Op.release l = op at hmove
    cases hmove with
    | @giveUpFirst k n =>
      cases hop
      refine ⟨Or.inl ⟨rfl, rfl⟩, ?_⟩
      apply (holds_none (retry_holdsFirst k) (retry_holdsSecond k)).trans
      rw [holds, holds_first rfl rfl]
      exact Set.sdiff_self.symm
    | unlockFirst =>
      cases hop
      refine ⟨Or.inl ⟨rfl, rfl⟩, ?_⟩
      apply (holds_none rfl rfl).trans
      rw [holds, holds_first rfl rfl]
      exact Set.sdiff_self.symm
    | unlockSecond =>
      cases hop
      refine ⟨Or.inr ⟨rfl, rfl⟩, ?_⟩
      apply (holds_first rfl rfl).trans
      rw [holds, holds_both rfl rfl]
      have hlt := first_lt_second (h _ (List.get_mem tasks i))
      exact (Set.pair_sdiff_right hlt.ne).symm
    | _ => cases hop

theorem move_ordered (h : ∀ task ∈ tasks, task.srcAddr ≠ task.dstAddr) :
    Ordered (move tasks) (holds tasks) fun w => w.place = .done := by
  constructor
  · rintro i ⟨place, n⟩ rfl
    exact holds_none rfl rfl
  · rintro i ⟨place, n⟩ hplace
    have hlt := first_lt_second (h _ (List.get_mem tasks i))
    cases place with
    | sleeping => exact Or.inl ⟨_, .wake⟩
    | tryingFirst k => exact Or.inl ⟨_, .failFirst⟩
    | tryingSecond k => exact Or.inl ⟨_, .failSecond⟩
    | releasingFirst k => exact Or.inr (Or.inl ⟨_, _, .giveUpFirst⟩)
    | lockingFirst =>
      refine Or.inr (Or.inr ⟨_, _, .lockFirst, ?_⟩)
      intro k hk
      rw [holds, holds_none rfl rfl] at hk
      exact absurd hk (Set.notMem_empty k)
    | lockingSecond =>
      refine Or.inr (Or.inr ⟨_, _, .lockSecond, ?_⟩)
      intro k hk
      rw [holds, holds_first rfl rfl] at hk
      obtain rfl := Set.mem_singleton_iff.mp hk
      exact hlt
    | waitingForNodes => exact Or.inl ⟨_, .nodesIdle⟩
    | migrating => exact Or.inl ⟨_, .migrated⟩
    | unlockingSecond => exact Or.inr (Or.inl ⟨_, _, .unlockSecond⟩)
    | unlockingFirst => exact Or.inr (Or.inl ⟨_, _, .unlockFirst⟩)
    | done => exact absurd rfl hplace

theorem launched_owned : Owned (holds tasks) (launched tasks) := by
  intro l i
  have hnone : holds tasks i ((launched tasks).place i) = ∅ := holds_none rfl rfl
  rw [hnone]
  exact iff_of_false nofun (Set.notMem_empty l)

variable (tasks) in
/-- What is so after any steps of the goroutines, in any order: tasks that migrate share no node; while
a task is unfinished some goroutine can go on; no task is migrated twice, and one that is finished was
migrated. There are only so many steps. -/
structure OneMigrationPerNode : Prop where
  exclusive : ∀ {es s}, Transition.Run (Step (move tasks)) (launched tasks) es s →
    ∀ i j, (s.place i).place = .migrating → (s.place j).place = .migrating → i ≠ j →
      ∀ node ∈ [(tasks.get i).srcAddr, (tasks.get i).dstAddr],
        node ∉ [(tasks.get j).srcAddr, (tasks.get j).dstAddr]
  live : ∀ {es s}, Transition.Run (Step (move tasks)) (launched tasks) es s →
    ∀ i, (s.place i).place ≠ .done → ∃ j t, Step (move tasks) s j t
  once : ∀ {es s}, Transition.Run (Step (move tasks)) (launched tasks) es s →
    ∀ i, (s.place i).migrations ≤ 1 ∧ ((s.place i).place = .done → (s.place i).migrations = 1)
  ends : ∀ {es s}, Transition.Run (Step (move tasks)) (launched tasks) es s →
    es.length ≤ tasks.length * (3 * maxTryLockAttempts + 10)

/-- A task that is being migrated holds both its nodes. -/
theorem holds_of_migrating {i : Fin tasks.length} (h : (s.place i).place = .migrating) {node : String}
    (hnode : node ∈ [(tasks.get i).srcAddr, (tasks.get i).dstAddr]) :
    node ∈ holds tasks i (s.place i) := by
  have hends : node = (tasks.get i).first ∨ node = (tasks.get i).second := by
    unfold MigrateSomeSlots.first MigrateSomeSlots.second
    split
    · simpa using hnode
    · simpa [or_comm] using hnode
  rcases hends with hfirst | hsecond
  · exact Or.inl ⟨by rw [h]; rfl, hfirst⟩
  · exact Or.inr ⟨by rw [h]; rfl, hsecond⟩

theorem migrations_run (h : Transition.Run (Step (move tasks)) (launched tasks) es s) :
    ∀ i, (s.place i).migrations = if (s.place i).place.started then 1 else 0 := by
  refine place_run (fun w => w.migrations = if w.place.started then 1 else 0) ?_ ?_ h
  · intro i p op q hmove hp
    exact Moves.migrations hmove hp
  · intro i
    rfl

theorem oneMigrationPerNode (h : ∀ task ∈ tasks, task.srcAddr ≠ task.dstAddr) :
    OneMigrationPerNode tasks where
  exclusive := by
    intro es s hrun i j hi hj hne node hnode hshared
    have howned := (move_discipline h).owned_run launched_owned hrun
    exact hne (howned.unique (holds_of_migrating hi hnode) (holds_of_migrating hj hshared))
  live := by
    intro es s hrun i hi
    have howned := (move_discipline h).owned_run launched_owned hrun
    exact (move_ordered h).progress howned hi
  once := by
    intro es s hrun i
    have hmigrations := migrations_run hrun i
    constructor
    · rw [hmigrations]
      split
      · exact Nat.le_refl 1
      · exact Nat.zero_le 1
    · intro hdone
      rw [hmigrations, hdone]
      rfl
  ends := by
    intro es s hrun
    have hlength := run_length (fun w : Worker => w.place.left) Moves.left hrun
    have htotal : ∑ i, ((launched tasks).place i).place.left =
        tasks.length * (3 * maxTryLockAttempts + 10) := by
      apply (Finset.sum_const_nat (m := 3 * maxTryLockAttempts + 10) fun _ _ => rfl).trans
      rw [Finset.card_fin]
    omega

/-- Two tasks share a node, and a third has none in common with either. -/
def threeTasks : List MigrateSomeSlots :=
  [⟨"a:1", "d:1", [1]⟩, ⟨"d:1", "b:1", [2]⟩, ⟨"c:1", "e:1", [3]⟩]

theorem oneMigrationPerNode_threeTasks : OneMigrationPerNode threeTasks :=
  oneMigrationPerNode (by decide)

end Tasks

end Migration
