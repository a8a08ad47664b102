import BluekingDbm.Library.Levelling
import BluekingDbm.Library.Ranging
import Mathlib.Data.Rat.Floor

/-! How much space every instance of a host is to free: by the size of its directory, and by the
usage of its disk. -/
namespace Rotate.SizePlan

open Levelling

def reserveMinSizeMB : ℤ := 5
def reduceStepSizeMB : ℤ := 5
def policyLeastMaxSize : ℤ := 99999999

/-- A map from ports to sizes. -/
structure Ports where
  keys : List ℕ
  size : ℕ → ℤ

def Ports.set (ports : Ports) (port : ℕ) (size : ℤ) : Ports where
  keys := if port ∈ ports.keys then ports.keys else port :: ports.keys
  size := Function.update ports.size port size

/-- The greatest size that is found, with its port: `best`, or one of those that are visited. -/
def maxSize (ports : Ports) (best : ℤ × ℕ) (visited : List ℕ) : ℤ × ℕ :=
  visited.foldl
    (fun best p =>
      if best.1 < ports.size p ∧ reserveMinSizeMB + reduceStepSizeMB ≤ ports.size p then
        (ports.size p, p)
      else best)
    best

/-- Takes one step from a greatest size; 0 where no port has a step left. -/
def reduceFromMax (range : RangeOrder ℕ) (ports : Ports) : ℕ × Ports :=
  let maxSizePort := (maxSize ports (0, 0) (range.order ports.keys)).2
  let ports := ports.set maxSizePort (ports.size maxSizePort - reduceStepSizeMB)
  (if 0 ≤ ports.size maxSizePort then maxSizePort else 0, ports)

/-- The loop of the planner, which ranges over the map in every round. -/
def loop (range : ℕ → RangeOrder ℕ) (sizeToFree : ℤ) (sizeDeleted : ℕ) (portSizeToFree : ℕ → ℤ)
    (ports : Ports) : (ℕ → ℤ) × Ports :=
  let reduced := reduceFromMax (range sizeDeleted) ports
  if reduced.1 = 0 then (portSizeToFree, reduced.2)
  else
    let portSizeToFree :=
      Function.update portSizeToFree reduced.1 (portSizeToFree reduced.1 + reduceStepSizeMB)
    if sizeToFree ≤ (sizeDeleted + 1 : ℕ) * reduceStepSizeMB then (portSizeToFree, reduced.2)
    else loop range sizeToFree (sizeDeleted + 1) portSizeToFree reduced.2
termination_by (sizeToFree - sizeDeleted * reduceStepSizeMB).toNat
decreasing_by
  unfold reduceStepSizeMB at *
  push_cast at *
  omega

/-- What each port is to free, and the map of sizes as the planner leaves it. -/
def decideSizeToRemove (range : ℕ → RangeOrder ℕ) (ports : Ports) (sizeToFree : ℤ) :
    (ℕ → ℤ) × Ports :=
  if sizeToFree ≤ 0 then
    (fun p => if p ∈ ports.keys then sizeToFree.tdiv ports.keys.length else 0, ports)
  else loop range sizeToFree 0 (fun _ => 0) ports

/-- A disk partition, in bytes. -/
structure DiskPartInfo where
  total : ℕ
  free : ℕ
  free_le : free ≤ total

def DiskPartInfo.usedTotal (disk : DiskPartInfo) : ℕ := disk.total - disk.free

/-- A fraction, in spite of its name. -/
def DiskPartInfo.usedPercent (disk : DiskPartInfo) : ℚ := disk.usedTotal / disk.total

/-- An instance with its plan; sizes are in megabytes. The partition of its directory may not be
found, and the size of the directory may not be read. -/
structure ServerObj where
  port : ℕ
  mountpoint : Option String
  directorySizeMB : Option ℕ
  binlogSizeMB : ℤ
  sizeToFreeMB : ℤ
  hardSizeToFree : ℤ

/-- The configuration; sizes are in bytes, and are missing where they cannot be parsed. -/
structure Config where
  keepPolicy : String
  requestSizeToFree : Option ℕ
  maxBinlogTotalSize : Option ℕ
  maxDiskUsedPct : ℚ
  maxDiskUsedPctHard : ℚ

/-- The orders in which maps are ranged over; the planner is called twice for each partition. -/
structure Orders where
  mounts : RangeOrder String
  ports : String → Bool → ℕ → RangeOrder ℕ

def megabytes (bytes : ℕ) : ℕ := bytes / 1024 / 1024

/-- What a partition's usage exceeds a limit by; it may be negative. -/
def diskPartSizeToFreeMB (disk : DiskPartInfo) (pct : ℚ) : ℤ :=
  (megabytes disk.usedTotal : ℤ) - megabytes ⌊pct / 100 * disk.total⌋₊

/-- The rule of the directory size. -/
def directoryRule (maxBinlogSizeAllowedMB : ℕ) (inst : ServerObj) (binlogSizeMB : ℕ) : ServerObj :=
  let inst := { inst with binlogSizeMB }
  if (maxBinlogSizeAllowedMB : ℤ) < binlogSizeMB then
    let sizeToFree := (binlogSizeMB : ℤ) - maxBinlogSizeAllowedMB
    if inst.sizeToFreeMB < sizeToFree then
      { inst with sizeToFreeMB := sizeToFree, hardSizeToFree := sizeToFree }
    else inst
  else inst

/-- The rule of the disk usage. -/
def diskRule (soft hard : ℕ → ℤ) (inst : ServerObj) : ServerObj :=
  if inst.sizeToFreeMB < soft inst.port then
    { inst with sizeToFreeMB := soft inst.port, hardSizeToFree := hard inst.port }
  else inst

/-- The ports of one partition with their sizes; missing where a directory's size is not known. -/
def diskPartInst (mount : String) (servers : List ServerObj) : Option (List (ℕ × ℕ)) :=
  (servers.filter fun inst => inst.mountpoint = some mount).mapM fun inst =>
    inst.directorySizeMB.map fun size => (inst.port, size)

def instBinlogSizeMB (insts : List (ℕ × ℕ)) : Ports :=
  insts.foldl (fun ports inst => ports.set inst.1 inst.2) ⟨[], fun _ => 0⟩

/-- The two plans for a partition; the planner has changed the map that it is given again. -/
def plans (orders : Orders) (cfg : Config) (mount : String) (disk : DiskPartInfo)
    (insts : List (ℕ × ℕ)) : (ℕ → ℤ) × (ℕ → ℤ) :=
  let soft := decideSizeToRemove (orders.ports mount false) (instBinlogSizeMB insts)
    (diskPartSizeToFreeMB disk cfg.maxDiskUsedPct)
  let hard := decideSizeToRemove (orders.ports mount true) soft.2
    (diskPartSizeToFreeMB disk cfg.maxDiskUsedPctHard)
  (soft.1, hard.1)

/-- What becomes of the plan of an instance on a partition. -/
def planInstance (cfg : Config) (maxBinlogSizeAllowedMB : ℕ) (disk : DiskPartInfo)
    (plans : (ℕ → ℤ) × (ℕ → ℤ)) (inst : ServerObj) : ServerObj :=
  let inst := directoryRule maxBinlogSizeAllowedMB inst (inst.directorySizeMB.getD 0)
  if disk.usedPercent < cfg.maxDiskUsedPct / 100 then inst else diskRule plans.1 plans.2 inst

/-- The plan for one partition. -/
def planDisk (diskParts : String → DiskPartInfo) (orders : Orders) (cfg : Config)
    (maxBinlogSizeAllowedMB : ℕ) (mount : String) (servers : List ServerObj) :
    Option (List ServerObj) :=
  (diskPartInst mount servers).map fun insts =>
    servers.map fun inst =>
      if inst.mountpoint = some mount then
        planInstance cfg maxBinlogSizeAllowedMB (diskParts mount)
          (plans orders cfg mount (diskParts mount) insts) inst
      else inst

/-- The partitions that hold instances. -/
def mountpoints (servers : List ServerObj) : List String :=
  (servers.filterMap ServerObj.mountpoint).dedup

/-- An instance that is to free a size before any rule. -/
def requested (sizeToFreeMB : ℤ) (inst : ServerObj) : ServerObj := { inst with sizeToFreeMB }

def decideSizeToFree (diskParts : String → DiskPartInfo) (orders : Orders) (cfg : Config)
    (servers : List ServerObj) : Option (List ServerObj) :=
  if cfg.keepPolicy = "least" then
    some (servers.map (requested policyLeastMaxSize))
  else if cfg.keepPolicy = "" ∨ cfg.keepPolicy = "most" then do
    let requestSizeToFree ← cfg.requestSizeToFree
    let servers := servers.map (requested (megabytes requestSizeToFree))
    let maxBinlogSizeAllowed ← cfg.maxBinlogTotalSize
    (orders.mounts.order (mountpoints servers)).foldlM
      (fun servers mount =>
        planDisk diskParts orders cfg (megabytes maxBinlogSizeAllowed) mount servers)
      servers
  else none

def ServerObj.size (inst : ServerObj) : ℕ := inst.directorySizeMB.getD 0

/-- The least size that has a step above what is kept. -/
def candidateSizeMB : ℤ := reserveMinSizeMB + reduceStepSizeMB

/-- The plan for the instances of one disk honours every limit: `soft` and `hard` are what the disk
exceeds its limits by, and `request` is what each instance is to free in any case. -/
structure Honoured (allowed request : ℕ) (soft hard : ℤ) (insts : List ServerObj) : Prop where
  directory : ∀ inst ∈ insts, allowed < inst.size →
    inst.size - allowed ≤ inst.sizeToFreeMB ∧ inst.size - allowed ≤ inst.hardSizeToFree
  soft : soft ≤ (insts.map ServerObj.sizeToFreeMB).sum ∨
    ∀ inst ∈ insts, inst.size - inst.sizeToFreeMB < candidateSizeMB
  hard : hard ≤ (insts.map ServerObj.hardSizeToFree).sum ∨
    ∀ inst ∈ insts, inst.size - inst.hardSizeToFree < candidateSizeMB
  kept : ∀ inst ∈ insts, max (request : ℤ) (inst.size - allowed) < inst.sizeToFreeMB →
    reserveMinSizeMB ≤ inst.size - inst.sizeToFreeMB
  kept_hard : ∀ inst ∈ insts, max 0 ((inst.size : ℤ) - allowed) < inst.hardSizeToFree →
    reserveMinSizeMB ≤ inst.size - inst.hardSizeToFree

/-- What a disk's instances free together when each goes down, step by step, from every size that
is not below `level`. -/
def freed (sizes : List ℕ) (level : ℤ) : ℤ :=
  reduceStepSizeMB * ((sizes.map fun size : ℕ => steps reduceStepSizeMB level (size : ℤ)).sum : ℕ)

/-- The size that is left of `size` when whole steps of `excess` are taken. -/
def levelOf (size excess : ℕ) : ℤ := size - reduceStepSizeMB * (excess / reduceStepSizeMB)

def roundUp (size : ℤ) : ℤ := reduceStepSizeMB * ((size + reduceStepSizeMB - 1) / reduceStepSizeMB)

/-- The rules do not get in each other's way on a disk with instances of these sizes. -/
structure Separate (allowed request : ℕ) (soft hard : ℤ) (sizes : List ℕ) : Prop where
  /-- An instance over the directory limit is asked for less before, and the disk's excess is
  freed without taking more from it. -/
  directory : ∀ size ∈ sizes, allowed < size → request < size - allowed ∧
    (levelOf size (size - allowed) < candidateSizeMB ∨
      soft ≤ freed sizes (levelOf size (size - allowed) + 1))
  /-- The directory rule frees what the disk's hard limit asks for, or all that may be freed; or
  no instance is over the directory limit, the soft limit takes more from each than was asked for,
  and what may be freed is enough for both limits together. -/
  hard : hard ≤ (sizes.map fun size : ℕ => ((size - allowed : ℕ) : ℤ)).sum ∨
    (∀ size ∈ sizes, (size : ℤ) - (size - allowed : ℕ) < candidateSizeMB) ∨
    (∀ size ∈ sizes, size ≤ allowed ∧ candidateSizeMB ≤ levelOf size request ∧
        freed sizes (levelOf size request) < soft + reduceStepSizeMB) ∧
      roundUp soft + roundUp hard ≤ freed sizes candidateSizeMB

section Planner

variable {ports : Finset ℕ} {m : Ports} {range : RangeOrder ℕ} {visited : List ℕ} {best : ℤ × ℕ}
  {i p : ℕ}

/-- A map of sizes for some ports; the planner may have left an entry for port 0 in it. -/
structure Sizes (ports : Finset ℕ) (m : Ports) : Prop where
  mem : ∀ p ∈ ports, p ∈ m.keys
  other : ∀ p ∈ m.keys, p ∈ ports ∨ p = 0
  zero : m.size 0 ≤ 0
  no_zero : 0 ∉ ports

theorem maxSize_cases :
    (maxSize m best visited = best ∨ (maxSize m best visited).2 ∈ visited ∧
      m.size (maxSize m best visited).2 = (maxSize m best visited).1 ∧
      10 ≤ (maxSize m best visited).1 ∧ best.1 < (maxSize m best visited).1) ∧
    ∀ p ∈ visited, 10 ≤ m.size p → m.size p ≤ (maxSize m best visited).1 := by
  unfold maxSize reserveMinSizeMB reduceStepSizeMB
  induction visited generalizing best with
  | nil => simp
  | cons q visited ih =>
    rw [List.foldl_cons]
    by_cases hq : best.1 < m.size q ∧ 5 + 5 ≤ m.size q
    · rw [if_pos hq]
      obtain ⟨hcases, hmax⟩ := @ih (m.size q, q)
      dsimp only at hcases
      refine ⟨Or.inr ?_, ?_⟩
      · rcases hcases with hsame | ⟨hmem, hsize, hlow, hless⟩
        · rw [hsame]
          exact ⟨List.mem_cons_self, rfl, by omega, hq.1⟩
        · exact ⟨List.mem_cons_of_mem q hmem, hsize, hlow, by omega⟩
      · intro p hp hlow
        rcases List.mem_cons.mp hp with rfl | hp
        · rcases hcases with hsame | ⟨-, -, -, hless⟩
          · rw [hsame]
          · omega
        · exact hmax p hp hlow
    · rw [if_neg hq]
      obtain ⟨hcases, hmax⟩ := @ih best
      refine ⟨?_, ?_⟩
      · rcases hcases with hsame | ⟨hmem, hrest⟩
        · exact Or.inl hsame
        · exact Or.inr ⟨List.mem_cons_of_mem q hmem, hrest⟩
      · intro p hp hlow
        rcases List.mem_cons.mp hp with rfl | hp
        · rcases hcases with hsame | ⟨-, -, -, hless⟩
          · rw [hsame]
            omega
          · omega
        · exact hmax p hp hlow

theorem mem_set_keys {q : ℕ} {size : ℤ} : q ∈ (m.set p size).keys ↔ q ∈ m.keys ∨ q = p := by
  unfold Ports.set
  split
  · constructor
    · exact Or.inl
    · rintro (hq | rfl) <;> assumption
  · rw [List.mem_cons, or_comm]

theorem Sizes.set (h : Sizes ports m) (hp : p ∈ m.keys ∨ p = 0) {size : ℤ} (hsize : p = 0 → size ≤ 0) :
    Sizes ports (m.set p size) := by
  constructor
  · exact fun q hq => mem_set_keys.mpr (Or.inl (h.mem q hq))
  · intro q hq
    rcases mem_set_keys.mp hq with hq | rfl
    · exact h.other q hq
    · rcases hp with hp | rfl
      · exact h.other q hp
      · exact Or.inr rfl
  · by_cases hzero : 0 = p
    · subst hzero
      simpa [Ports.set] using hsize rfl
    · simpa [Ports.set, hzero] using h.zero
  · exact h.no_zero

theorem reduceFromMax_eq :
    reduceFromMax range m =
      (if 5 ≤ m.size (maxSize m (0, 0) (range.order m.keys)).2 then
          (maxSize m (0, 0) (range.order m.keys)).2
        else 0,
        m.set (maxSize m (0, 0) (range.order m.keys)).2
          (m.size (maxSize m (0, 0) (range.order m.keys)).2 - 5)) := by
  simp [reduceFromMax, Ports.set, reduceStepSizeMB]

/-- Where a port has a step left, the planner takes one from a greatest size. -/
theorem reduceFromMax_cases (h : Sizes ports m) :
    (reduceFromMax range m).1 = 0 ∧ (∀ p ∈ ports, m.size p < 10) ∧
        Sizes ports (reduceFromMax range m).2 ∧
        (∀ p ∈ ports, (reduceFromMax range m).2.size p = m.size p) ∨
      (reduceFromMax range m).1 ∈ ports ∧ 10 ≤ m.size (reduceFromMax range m).1 ∧
        (∀ p ∈ ports, m.size p ≤ m.size (reduceFromMax range m).1) ∧
        Sizes ports (reduceFromMax range m).2 ∧
        (reduceFromMax range m).2.size = Function.update m.size (reduceFromMax range m).1
          (m.size (reduceFromMax range m).1 - 5) := by
  obtain ⟨hcases, hmax⟩ := @maxSize_cases m (range.order m.keys) (0, 0)
  have hvisited : ∀ p ∈ ports, p ∈ range.order m.keys :=
    fun p hp => range.mem_order.mpr (h.mem p hp)
  rcases hcases with hnone | ⟨hmem, hsize, hlow, -⟩
  · left
    rw [hnone] at hmax
    rw [reduceFromMax_eq, hnone]
    have hzero := h.zero
    dsimp only
    refine ⟨if_neg (by omega), fun p hp => ?_, h.set (Or.inr rfl) fun _ => by omega, fun p hp => ?_⟩
    · by_contra hlow
      have := hmax p (hvisited p hp) (not_lt.mp hlow)
      omega
    · have hp0 : p ≠ 0 := fun heq => h.no_zero (heq ▸ hp)
      simp [Ports.set, hp0]
  · right
    have hkeys := range.mem_order.mp hmem
    have hports : (maxSize m (0, 0) (range.order m.keys)).2 ∈ ports := by
      rcases h.other _ hkeys with hin | hzero
      · exact hin
      · have := h.zero
        rw [hzero] at hsize
        omega
    rw [reduceFromMax_eq, if_pos (by omega)]
    dsimp only
    refine ⟨hports, by omega, fun p hp => ?_, h.set (Or.inl hkeys) fun hzero => ?_, rfl⟩
    · by_cases hp10 : 10 ≤ m.size p
      · have := hmax p (hvisited p hp) hp10
        omega
      · omega
    · exact absurd (hzero ▸ hports) h.no_zero

/-- A port that is visited first is taken before others of its size. -/
theorem reduceFromMax_front (h : Sizes ports m) (hi : i ∈ ports)
    (hp : (reduceFromMax (RangeOrder.front i) m).1 ∈ ports)
    (hne : (reduceFromMax (RangeOrder.front i) m).1 ≠ i) :
    m.size i < m.size (reduceFromMax (RangeOrder.front i) m).1 := by
  have horder : (RangeOrder.front i).order m.keys = i :: m.keys.erase i := if_pos (h.mem i hi)
  have hzero : (reduceFromMax (RangeOrder.front i) m).1 ≠ 0 := fun heq => h.no_zero (heq ▸ hp)
  have hfst : (reduceFromMax (RangeOrder.front i) m).1 =
      (maxSize m (0, 0) (i :: m.keys.erase i)).2 := by
    rw [reduceFromMax_eq, horder] at hzero ⊢
    by_cases hle : 5 ≤ m.size (maxSize m (0, 0) (i :: m.keys.erase i)).2
    · rw [if_pos hle]
    · rw [if_neg hle] at hzero
      exact absurd rfl hzero
  rw [hfst] at hne hzero ⊢
  by_cases hlow : 10 ≤ m.size i
  · have hfirst : maxSize m (0, 0) (i :: m.keys.erase i) =
        maxSize m (m.size i, i) (m.keys.erase i) := by
      unfold maxSize
      rw [List.foldl_cons, if_pos ⟨by omega, hlow⟩]
    rw [hfirst] at hne ⊢
    rcases (@maxSize_cases m (m.keys.erase i) (m.size i, i)).1 with hsame | ⟨-, hsize, -, hless⟩
    · exact absurd (congrArg Prod.snd hsame) hne
    · omega
  · rcases (@maxSize_cases m (i :: m.keys.erase i) (0, 0)).1 with hsame | ⟨-, hsize, hbig, -⟩
    · exact absurd (congrArg Prod.snd hsame) hzero
    · omega

/-- The planner levels the sizes until it has planned enough, or no port has a step left. -/
theorem loop_levels {range : ℕ → RangeOrder ℕ} {sizeToFree : ℤ} {k : ℕ} {plan s : ℕ → ℤ}
    {tie : (ℕ → ℤ) → ℕ → Prop} (h : Sizes ports m) (hlevels : Levels ports 5 10 tie s k m.size)
    (hk : 5 * k < sizeToFree)
    (htie : ∀ k m, Sizes ports m → (reduceFromMax (range k) m).1 ∈ ports →
      tie m.size (reduceFromMax (range k) m).1) :
    ∃ n t, Levels ports 5 10 tie s n t ∧ Sizes ports (loop range sizeToFree k plan m).2 ∧
      (∀ p ∈ ports, (loop range sizeToFree k plan m).2.size p = t p) ∧
      (∀ p, (loop range sizeToFree k plan m).1 p = plan p + (m.size p - t p)) ∧
      (sizeToFree ≤ 5 * n ∨ ∀ p ∈ ports, t p < 10) ∧ 5 * n < sizeToFree + 5 := by
  induction hrest : (sizeToFree - k * 5).toNat using Nat.strong_induction_on generalizing k plan m with
  | _ rest ih =>
    unfold loop
    rcases @reduceFromMax_cases ports m (range k) h with
      ⟨hzero, hstuck, hsizes, hsame⟩ | ⟨hmem, hlow, hmax, hsizes, hsize⟩
    · rw [if_pos hzero]
      refine ⟨k, m.size, hlevels, hsizes, hsame, fun p => ?_, Or.inr hstuck, by omega⟩
      dsimp only
      omega
    · have hne : (reduceFromMax (range k) m).1 ≠ 0 := fun heq => h.no_zero (heq ▸ hmem)
      have htake := hlevels.take hmem hlow hmax (htie k m h hmem)
      rw [← hsize] at htake
      have hplan : ∀ (t : ℕ → ℤ) p, Function.update plan (reduceFromMax (range k) m).1
          (plan (reduceFromMax (range k) m).1 + reduceStepSizeMB) p +
            ((reduceFromMax (range k) m).2.size p - t p) = plan p + (m.size p - t p) := by
        intro t p
        rw [hsize]
        by_cases hp : p = (reduceFromMax (range k) m).1
        · subst hp
          rw [Function.update_self, Function.update_self, reduceStepSizeMB]
          omega
        · rw [Function.update_of_ne hp, Function.update_of_ne hp]
      rw [if_neg hne]
      dsimp only
      split
      · rename_i hend
        unfold reduceStepSizeMB at hend
        refine ⟨k + 1, _, htake, hsizes, fun _ _ => rfl, fun p => ?_, Or.inl (by omega), ?_⟩
        · have := hplan (reduceFromMax (range k) m).2.size p
          dsimp only
          omega
        · push_cast
          omega
      · rename_i hgo
        unfold reduceStepSizeMB at hgo
        obtain ⟨n, t, hresult⟩ := ih _ (by omega) hsizes htake (by omega) rfl
        refine ⟨n, t, hresult.1, hresult.2.1, hresult.2.2.1, fun p => ?_, hresult.2.2.2.2⟩
        rw [hresult.2.2.2.1 p, hplan]

end Planner

section Sizes

variable {ports : Finset ℕ} {m : Ports} {range : ℕ → RangeOrder ℕ} {sizeToFree : ℤ} {i p : ℕ}

/-- What a plan has of a levelling: what is taken, and why it ends. -/
structure Planned (ports : Finset ℕ) (s : ℕ → ℤ) (sizeToFree : ℤ) (plan : ℕ → ℤ) (n : ℕ)
    (t : ℕ → ℤ) (tie : (ℕ → ℤ) → ℕ → Prop) : Prop where
  levels : Levels ports 5 10 tie s n t
  taken : ∀ p, plan p = s p - t p
  ends : sizeToFree ≤ 5 * n ∨ ∀ p ∈ ports, t p < 10
  within : 5 * n < sizeToFree + 5

theorem planned_of_pos (h : Sizes ports m) (hpos : 0 < sizeToFree) {tie : (ℕ → ℤ) → ℕ → Prop}
    (htie : ∀ k m, Sizes ports m → (reduceFromMax (range k) m).1 ∈ ports →
      tie m.size (reduceFromMax (range k) m).1) :
    ∃ n t, Planned ports m.size sizeToFree (decideSizeToRemove range m sizeToFree).1 n t tie ∧
      Sizes ports (decideSizeToRemove range m sizeToFree).2 ∧
      ∀ p ∈ ports, (decideSizeToRemove range m sizeToFree).2.size p = t p := by
  have hloop : decideSizeToRemove range m sizeToFree = loop range sizeToFree 0 (fun _ => 0) m :=
    if_neg (by omega)
  obtain ⟨n, t, hlevels, hsizes, hsame, htaken, hends, hwithin⟩ :=
    @loop_levels ports m range sizeToFree 0 (fun _ => 0) m.size tie h .refl (by simpa using hpos) htie
  rw [hloop]
  refine ⟨n, t, ⟨hlevels, fun p => ?_, hends, hwithin⟩, hsizes, hsame⟩
  rw [htaken p]
  omega

/-- Room that is left is handed out evenly, as negative sizes that do not exceed it together. -/
theorem decideSizeToRemove_of_nonpos (hpos : sizeToFree ≤ 0) :
    (decideSizeToRemove range m sizeToFree).2 = m ∧
      ∃ avg : ℤ, avg ≤ 0 ∧ (∀ p, (decideSizeToRemove range m sizeToFree).1 p ≤ 0) ∧
        (∀ p ∈ m.keys, (decideSizeToRemove range m sizeToFree).1 p = avg) ∧
        sizeToFree ≤ m.keys.length * avg := by
  have hplan : decideSizeToRemove range m sizeToFree =
      (fun p => if p ∈ m.keys then sizeToFree.tdiv m.keys.length else 0, m) := if_pos hpos
  have havg : sizeToFree.tdiv m.keys.length ≤ 0 := by
    have := Int.tdiv_nonneg (show 0 ≤ -sizeToFree by omega) (Int.natCast_nonneg m.keys.length)
    rw [Int.neg_tdiv] at this
    omega
  have hsum : sizeToFree ≤ m.keys.length * sizeToFree.tdiv m.keys.length := by
    have hdiv := Int.mul_tdiv_add_tmod sizeToFree m.keys.length
    have hmod := Int.tmod_nonneg (m.keys.length : ℤ) (show 0 ≤ -sizeToFree by omega)
    rw [Int.neg_tmod] at hmod
    omega
  rw [hplan]
  refine ⟨rfl, _, havg, fun p => ?_, fun p hp => if_pos hp, hsum⟩
  dsimp only
  split <;> omega

theorem card_le_keys (h : Sizes ports m) : ports.card ≤ m.keys.length := by
  have hsub : ports ⊆ m.keys.toFinset := fun p hp => List.mem_toFinset.mpr (h.mem p hp)
  exact (Finset.card_le_card hsub).trans (List.toFinset_card_le _)

/-- The sizes of instances with ports of their own. -/
theorem sizes_instBinlogSizeMB {insts : List (ℕ × ℕ)} (hnodup : (insts.map Prod.fst).Nodup)
    (hzero : 0 ∉ insts.map Prod.fst) :
    Sizes (insts.map Prod.fst).toFinset (instBinlogSizeMB insts) ∧
      ∀ inst ∈ insts, (instBinlogSizeMB insts).size inst.1 = inst.2 := by
  induction insts using List.reverseRecOn with
  | nil => exact ⟨⟨by simp, by simp [instBinlogSizeMB], by simp [instBinlogSizeMB], by simp⟩, by simp⟩
  | append_singleton insts inst ih =>
    rw [List.map_append, List.nodup_append] at hnodup
    rw [List.map_append, List.mem_append, not_or] at hzero
    obtain ⟨hsizes, hsame⟩ := ih hnodup.1 hzero.1
    have hset : instBinlogSizeMB (insts ++ [inst]) = (instBinlogSizeMB insts).set inst.1 inst.2 := by
      simp [instBinlogSizeMB, List.foldl_append]
    have hne : inst.1 ≠ 0 := fun heq => hzero.2 (by simp [heq])
    have hkeys : ∀ q, q ∈ (instBinlogSizeMB (insts ++ [inst])).keys ↔
        q ∈ (instBinlogSizeMB insts).keys ∨ q = inst.1 := by
      intro q
      rw [hset]
      exact mem_set_keys
    have hports : ∀ q, q ∈ ((insts ++ [inst]).map Prod.fst).toFinset ↔
        q ∈ (insts.map Prod.fst).toFinset ∨ q = inst.1 := by
      intro q
      simp [or_comm]
    refine ⟨⟨?_, ?_, ?_, ?_⟩, ?_⟩
    · intro q hq
      rcases (hports q).mp hq with hq | rfl
      · exact (hkeys q).mpr (Or.inl (hsizes.mem q hq))
      · exact (hkeys _).mpr (Or.inr rfl)
    · intro q hq
      rcases (hkeys q).mp hq with hq | rfl
      · rcases hsizes.other q hq with hin | hzero
        · exact Or.inl ((hports q).mpr (Or.inl hin))
        · exact Or.inr hzero
      · exact Or.inl ((hports _).mpr (Or.inr rfl))
    · rw [hset]
      simpa [Ports.set, hne.symm] using hsizes.zero
    · intro hq
      rcases (hports 0).mp hq with hq | hq
      · exact hsizes.no_zero hq
      · exact hne hq.symm
    · intro other hother
      rw [hset]
      rcases List.mem_append.mp hother with hmem | hmem
      · have hother : other.1 ≠ inst.1 :=
          hnodup.2.2 _ (List.mem_map_of_mem hmem) _ (List.mem_map_of_mem List.mem_cons_self)
        simpa [Ports.set, hother] using hsame other hmem
      · simp [Ports.set, List.mem_singleton.mp hmem]

end Sizes

section Disk

variable {allowed request : ℕ} {soft hard : ℤ} {insts : List ServerObj} {softPlan hardPlan : ℕ → ℤ}
  {inst : ServerObj} {sizes : List ℕ}

/-- What the directory rule leaves planned. -/
def directorySize (allowed request size : ℕ) : ℤ :=
  if request < size - allowed then (size - allowed : ℕ) else request

def directoryHard (allowed request size : ℕ) : ℤ :=
  if request < size - allowed then (size - allowed : ℕ) else 0

/-- An instance after both rules. -/
def settled (allowed request : ℕ) (softPlan hardPlan : ℕ → ℤ) (inst : ServerObj) : ServerObj :=
  { inst with
    binlogSizeMB := inst.size
    sizeToFreeMB :=
      if directorySize allowed request inst.size < softPlan inst.port then softPlan inst.port
      else directorySize allowed request inst.size
    hardSizeToFree :=
      if directorySize allowed request inst.size < softPlan inst.port then hardPlan inst.port
      else directoryHard allowed request inst.size }

/-- The ports of a disk. -/
def portsOf (insts : List ServerObj) : Finset ℕ := (insts.map ServerObj.port).toFinset

theorem sum_portsOf {β : Type*} [AddCommMonoid β] (hnodup : (insts.map ServerObj.port).Nodup)
    (f : ℕ → β) : ∑ p ∈ portsOf insts, f p = (insts.map fun inst => f inst.port).sum := by
  rw [portsOf, List.sum_toFinset f hnodup, List.map_map]
  rfl

theorem freed_eq (hnodup : (insts.map ServerObj.port).Nodup) {s : ℕ → ℤ}
    (hs : ∀ inst ∈ insts, s inst.port = inst.size) (level : ℤ) :
    freed (insts.map ServerObj.size) level = 5 * above (portsOf insts) 5 level s := by
  rw [above, sum_portsOf hnodup, freed, reduceStepSizeMB, List.map_map]
  congr 3
  apply List.map_congr_left
  intro inst hinst
  simp [hs inst hinst]

variable (hnodup : (insts.map ServerObj.port).Nodup) {s t : ℕ → ℤ} {n : ℕ} {plan : ℕ → ℤ}
  {sizeToFree : ℤ} {tie : (ℕ → ℤ) → ℕ → Prop} {ports : Finset ℕ} {p v : ℕ}

namespace Planned

/-- No size goes up, and what goes down keeps the least size. -/
theorem bounds (h : Planned ports s sizeToFree plan n t tie) (p : ℕ) :
    0 ≤ plan p ∧ (0 < plan p → 5 ≤ s p - plan p) ∧ (5 : ℤ) ∣ plan p := by
  have htaken := h.taken p
  have hle := h.levels.le (by omega) p
  have hkept := @Levels.kept _ _ _ _ _ _ _ _ p _ h.levels
  refine ⟨by omega, fun hpos => ?_, htaken ▸ h.levels.dvd p⟩
  have := hkept (by omega)
  omega

theorem sum_eq (h : Planned ports s sizeToFree plan n t tie) : ∑ p ∈ ports, plan p = 5 * n := by
  have hsum := h.levels.sum_eq
  have htaken : ∑ p ∈ ports, plan p = ∑ p ∈ ports, s p - ∑ p ∈ ports, t p := by
    rw [← Finset.sum_sub_distrib]
    exact Finset.sum_congr rfl fun p _ => h.taken p
  omega

/-- Without enough room above a level, the plan does not go below it. -/
theorem le_levelOf (h : Planned ports s sizeToFree plan n t tie) {size excess : ℕ}
    (hs : s p = size) (hroom : levelOf size excess < candidateSizeMB ∨
      sizeToFree ≤ 5 * above ports 5 (levelOf size excess + 1) s) : plan p ≤ excess := by
  obtain ⟨-, hkept, k, hk⟩ := h.bounds p
  have htaken := h.taken p
  have hwithin := h.within
  unfold levelOf candidateSizeMB reserveMinSizeMB reduceStepSizeMB at hroom
  by_contra hmore
  rcases hroom with hlow | hroom
  · have := hkept (by omega)
    omega
  · have hless := h.levels.above_lt (i := p) (v := size - 5 * ((excess : ℤ) / 5)) (by omega)
      (by omega) ⟨(excess : ℤ) / 5, by omega⟩ (by omega)
    omega

/-- With enough room the plan goes below a level. -/
theorem levelOf_lt (h : Planned ports s sizeToFree plan n t tie) {size excess : ℕ} (hp : p ∈ ports)
    (hs : s p = size) (hlow : candidateSizeMB ≤ levelOf size excess)
    (hroom : 5 * above ports 5 (levelOf size excess) s < sizeToFree + 5) : excess < plan p := by
  obtain ⟨-, -, k, hk⟩ := h.bounds p
  have htaken := h.taken p
  unfold candidateSizeMB reserveMinSizeMB reduceStepSizeMB at hlow
  by_contra hless
  have hlevel : levelOf size excess ≤ t p := by
    unfold levelOf reduceStepSizeMB
    omega
  have habove := h.levels.above_eq (by omega) hp hlevel
  have hpos : 0 < above ports 5 (levelOf size excess) t := above_pos (by omega) hp hlevel
  rcases h.ends with henough | hstuck
  · omega
  · have := hstuck p hp
    omega

/-- A port that is taken first goes below its level as soon as there is room. -/
theorem levelOf_lt_of_first (h : Planned ports s sizeToFree plan n t tie) {size excess : ℕ}
    (hp : p ∈ ports) (hs : s p = size) (hfirst : ∀ t q, tie t q → q ≠ p → t p < t q)
    (hlow : candidateSizeMB ≤ levelOf size excess)
    (hroom : 5 * above ports 5 (levelOf size excess + 1) s < sizeToFree) : excess < plan p := by
  obtain ⟨-, -, k, hk⟩ := h.bounds p
  have htaken := h.taken p
  unfold candidateSizeMB reserveMinSizeMB reduceStepSizeMB at hlow
  by_contra hless
  have hlevel : levelOf size excess ≤ t p := by
    unfold levelOf reduceStepSizeMB
    omega
  have hall := h.levels.le_above (by omega) hfirst hlevel
  rcases h.ends with henough | hstuck
  · omega
  · have := hstuck p hp
    omega

end Planned

/-- What the planner makes of some sizes: it hands out what room there is, or levels the sizes. -/
inductive Plan (ports : Finset ℕ) (s : ℕ → ℤ) (tie : (ℕ → ℤ) → ℕ → Prop) (sizeToFree : ℤ)
    (plan after : ℕ → ℤ) : Prop
  | room (avg : ℤ) : sizeToFree ≤ 0 → avg ≤ 0 → (∀ p, plan p ≤ 0) → (∀ p ∈ ports, plan p = avg) →
      sizeToFree ≤ ports.card * avg → (∀ p ∈ ports, after p = s p) →
      Plan ports s tie sizeToFree plan after
  | levelled (n : ℕ) (t : ℕ → ℤ) : 0 < sizeToFree → Planned ports s sizeToFree plan n t tie →
      (∀ p ∈ ports, after p = t p) → Plan ports s tie sizeToFree plan after

namespace Plan

variable {after : ℕ → ℤ}

theorem sum_or_stuck (h : Plan ports s tie sizeToFree plan after) :
    sizeToFree ≤ ∑ p ∈ ports, plan p ∨ ∀ p ∈ ports, after p < 10 := by
  cases h with
  | room avg _ _ _ hall hsum _ =>
    left
    rw [Finset.sum_congr rfl hall, Finset.sum_const, nsmul_eq_mul]
    exact hsum
  | levelled n t _ hplanned hafter =>
    rcases hplanned.ends with henough | hstuck
    · exact Or.inl (hplanned.sum_eq ▸ henough)
    · exact Or.inr fun p hp => hafter p hp ▸ hstuck p hp

theorem kept (h : Plan ports s tie sizeToFree plan after) (hp : 0 < plan p) : 5 ≤ s p - plan p := by
  cases h with
  | room avg _ _ hneg _ _ _ =>
    have := hneg p
    omega
  | levelled n t _ hplanned _ => exact (hplanned.bounds p).2.1 hp

theorem after_eq (h : Plan ports s tie sizeToFree plan after) (hp : p ∈ ports) :
    after p = s p - max 0 (plan p) := by
  cases h with
  | room avg _ _ hneg _ _ hafter =>
    have := hneg p
    rw [hafter p hp]
    omega
  | levelled n t _ hplanned hafter =>
    have := (hplanned.bounds p).1
    have := hplanned.taken p
    rw [hafter p hp]
    omega

theorem of_decide {ports : Finset ℕ} {m : Ports} (h : Sizes ports m) {range : ℕ → RangeOrder ℕ}
    (sizeToFree : ℤ) (tie : (ℕ → ℤ) → ℕ → Prop) (htie : ∀ k m, Sizes ports m → (reduceFromMax (range k) m).1 ∈ ports →
      tie m.size (reduceFromMax (range k) m).1) :
    Plan ports m.size tie sizeToFree (decideSizeToRemove range m sizeToFree).1
        (decideSizeToRemove range m sizeToFree).2.size ∧
      Sizes ports (decideSizeToRemove range m sizeToFree).2 := by
  by_cases hpos : 0 < sizeToFree
  · obtain ⟨n, t, hplanned, hsizes, hafter⟩ := planned_of_pos h hpos htie
    exact ⟨.levelled n t hpos hplanned hafter, hsizes⟩
  · obtain ⟨hsame, avg, havg, hneg, hall, hsum⟩ :=
      @decideSizeToRemove_of_nonpos m range sizeToFree (by omega)
    rw [hsame]
    refine ⟨.room avg (by omega) havg hneg (fun p hp => hall p (h.mem p hp)) ?_ fun _ _ => rfl, h⟩
    have hcard : (ports.card : ℤ) ≤ m.keys.length := by exact_mod_cast card_le_keys h
    exact hsum.trans (mul_le_mul_of_nonpos_right hcard havg)

end Plan

section Rules

variable {after hardAfter : ℕ → ℤ} {tie' : (ℕ → ℤ) → ℕ → Prop}

theorem directorySize_bounds (allowed request size : ℕ) :
    (request : ℤ) ≤ directorySize allowed request size ∧
      (size : ℤ) - allowed ≤ directorySize allowed request size ∧
      directorySize allowed request size ≤ max (request : ℤ) (size - allowed) ∧
      0 ≤ directoryHard allowed request size ∧
      directoryHard allowed request size ≤ max 0 ((size : ℤ) - allowed) := by
  unfold directorySize directoryHard
  split <;> omega

/-- The disk rule leaves an instance alone that is over the directory limit. -/
theorem Separate.not_over (h : Separate allowed request soft hard (insts.map ServerObj.size))
    (hnodup : (insts.map ServerObj.port).Nodup) (hs : ∀ inst ∈ insts, s inst.port = inst.size)
    (hplan : Plan (portsOf insts) s tie soft softPlan after) (hinst : inst ∈ insts)
    (hover : allowed < inst.size) :
    ¬ directorySize allowed request inst.size < softPlan inst.port := by
  obtain ⟨hrequest, hroom⟩ := h.directory inst.size (List.mem_map_of_mem hinst) hover
  have hsize : directorySize allowed request inst.size = (inst.size - allowed : ℕ) :=
    if_pos hrequest
  rw [freed_eq hnodup hs] at hroom
  rw [hsize]
  cases hplan with
  | room avg _ _ hneg _ _ _ =>
    have := hneg inst.port
    omega
  | levelled n t _ hplanned _ =>
    have := hplanned.le_levelOf (hs inst hinst) hroom
    omega

/-- Sums over the instances of a disk grow with their summands. -/
theorem sum_le_sum {f g : ServerObj → ℤ} (h : ∀ inst ∈ insts, f inst ≤ g inst) :
    (insts.map f).sum ≤ (insts.map g).sum :=
  List.sum_le_sum h

theorem map_settled (f : ServerObj → ℤ) :
    ((insts.map (settled allowed request softPlan hardPlan)).map f).sum =
      (insts.map fun inst => f (settled allowed request softPlan hardPlan inst)).sum := by
  rw [List.map_map]
  rfl

theorem settled_soft (hnodup : (insts.map ServerObj.port).Nodup)
    (hs : ∀ inst ∈ insts, s inst.port = inst.size)
    (hplan : Plan (portsOf insts) s tie soft softPlan after) :
    soft ≤ ((insts.map (settled allowed request softPlan hardPlan)).map
        ServerObj.sizeToFreeMB).sum ∨
      ∀ inst ∈ insts.map (settled allowed request softPlan hardPlan),
        inst.size - inst.sizeToFreeMB < candidateSizeMB := by
  have hat : ∀ inst : ServerObj, max 0 (softPlan inst.port) ≤
      (settled allowed request softPlan hardPlan inst).sizeToFreeMB := by
    intro inst
    have := directorySize_bounds allowed request inst.size
    simp only [settled]
    split <;> omega
  rcases hplan.sum_or_stuck with hsum | hstuck
  · left
    rw [sum_portsOf hnodup] at hsum
    rw [map_settled]
    refine hsum.trans (sum_le_sum fun inst _ => ?_)
    have := hat inst
    omega
  · right
    intro inst' hinst'
    obtain ⟨inst, hinst, rfl⟩ := List.mem_map.mp hinst'
    have hp : inst.port ∈ portsOf insts := List.mem_toFinset.mpr (List.mem_map_of_mem hinst)
    have hless := hstuck _ hp
    rw [hplan.after_eq hp, hs inst hinst] at hless
    have := hat inst
    have hsize : (settled allowed request softPlan hardPlan inst).size = inst.size := rfl
    unfold candidateSizeMB reserveMinSizeMB reduceStepSizeMB
    omega

/-- Where the disk keeps its hard limit, so do the plans. -/
theorem settled_hard_of_nonpos (hnodup : (insts.map ServerObj.port).Nodup) (hhard : hard ≤ 0)
    (hplan : Plan (portsOf insts) after tie' hard hardPlan hardAfter) :
    hard ≤ ((insts.map (settled allowed request softPlan hardPlan)).map
        ServerObj.hardSizeToFree).sum := by
  cases hplan with
  | levelled n t hpos _ _ => omega
  | room avg _ havg _ hall hsum _ =>
    have hcard : (portsOf insts).card = insts.length := by
      rw [portsOf, List.toFinset_card_of_nodup hnodup, List.length_map]
    have hconst : (insts.map fun _ => avg).sum = insts.length * avg := by
      rw [List.map_const', List.sum_replicate, nsmul_eq_mul]
    rw [hcard, ← hconst] at hsum
    rw [map_settled]
    refine hsum.trans (sum_le_sum fun inst hinst => ?_)
    have hp : inst.port ∈ portsOf insts := List.mem_toFinset.mpr (List.mem_map_of_mem hinst)
    have := directorySize_bounds allowed request inst.size
    simp only [settled]
    split
    · rw [hall _ hp]
    · omega

/-- All instances give way to the disk rule, and both plans fit. -/
theorem settled_hard_of_all (hnodup : (insts.map ServerObj.port).Nodup)
    (hs : ∀ inst ∈ insts, s inst.port = inst.size)
    (hsoft : Plan (portsOf insts) s tie soft softPlan after)
    (hhard : Plan (portsOf insts) after tie' hard hardPlan hardAfter) (hpos : 0 < hard)
    (hall : ∀ size ∈ insts.map ServerObj.size, size ≤ allowed ∧
      candidateSizeMB ≤ levelOf size request ∧
        freed (insts.map ServerObj.size) (levelOf size request) < soft + reduceStepSizeMB)
    (hroom : roundUp soft + roundUp hard ≤ freed (insts.map ServerObj.size) candidateSizeMB) :
    hard ≤ ((insts.map (settled allowed request softPlan hardPlan)).map
      ServerObj.hardSizeToFree).sum ∨ insts = [] := by
  by_cases hnone : insts = []
  · exact Or.inr hnone
  · left
    obtain ⟨first, hfirst⟩ := List.exists_mem_of_ne_nil insts hnone
    have hport : ∀ inst ∈ insts, inst.port ∈ portsOf insts :=
      fun inst hinst => List.mem_toFinset.mpr (List.mem_map_of_mem hinst)
    have hbelow : ∀ inst ∈ insts,
        5 * (above (portsOf insts) 5 (levelOf inst.size request) s : ℤ) < soft + 5 := by
      intro inst hinst
      rw [← freed_eq hnodup hs]
      exact (hall inst.size (List.mem_map_of_mem hinst)).2.2
    cases hsoft with
    | room avg hneg _ _ _ _ _ =>
      -- the first instance alone has a step
      have hlevel : levelOf first.size request ≤ s first.port := by
        rw [hs first hfirst, levelOf, reduceStepSizeMB]
        omega
      have hone : 0 < above (portsOf insts) 5 (levelOf first.size request) s :=
        above_pos (by omega) (hport first hfirst) hlevel
      have := hbelow first hfirst
      omega
    | levelled n t hsoftpos hplanned hafter =>
      have hgives : ∀ inst ∈ insts,
          directorySize allowed request inst.size < softPlan inst.port := by
        intro inst hinst
        obtain ⟨hle, hlow, -⟩ := hall inst.size (List.mem_map_of_mem hinst)
        have hless := hplanned.levelOf_lt (hport inst hinst) (hs inst hinst) hlow (hbelow inst hinst)
        have := directorySize_bounds allowed request inst.size
        omega
      have hsum : ((insts.map (settled allowed request softPlan hardPlan)).map
          ServerObj.hardSizeToFree).sum = ∑ p ∈ portsOf insts, hardPlan p := by
        rw [map_settled, sum_portsOf hnodup]
        congr 1
        apply List.map_congr_left
        intro inst hinst
        exact if_pos (hgives inst hinst)
      rw [hsum]
      cases hhard with
      | room avg hneg _ _ _ _ _ => omega
      | levelled k u _ hhard _ =>
        rw [hhard.sum_eq]
        rcases hhard.ends with henough | hstuck
        · exact henough
        · have hfirststeps := hplanned.levels.above_low (by omega)
          have hsecondsteps := hhard.levels.above_low (by omega)
          have hsame : above (portsOf insts) 5 10 after = above (portsOf insts) 5 10 t :=
            Finset.sum_congr rfl fun p hp => by rw [hafter p hp]
          rw [hsame, above_eq_zero (by omega) hstuck] at hsecondsteps
          rw [freed_eq hnodup hs] at hroom
          have hwithin := hplanned.within
          unfold candidateSizeMB reserveMinSizeMB at hroom
          unfold roundUp reduceStepSizeMB at hroom
          norm_num at hroom
          omega

theorem settled_hard (hnodup : (insts.map ServerObj.port).Nodup)
    (hs : ∀ inst ∈ insts, s inst.port = inst.size)
    (h : Separate allowed request soft hard (insts.map ServerObj.size))
    (hsoft : Plan (portsOf insts) s tie soft softPlan after)
    (hhard : Plan (portsOf insts) after tie' hard hardPlan hardAfter) :
    hard ≤ ((insts.map (settled allowed request softPlan hardPlan)).map
        ServerObj.hardSizeToFree).sum ∨
      ∀ inst ∈ insts.map (settled allowed request softPlan hardPlan),
        inst.size - inst.hardSizeToFree < candidateSizeMB := by
  by_cases hpos : 0 < hard
  · have hnonneg : ∀ p, 0 ≤ hardPlan p := by
      intro p
      cases hhard with
      | room avg hneg _ _ _ _ _ => omega
      | levelled n t _ hplanned _ => exact (hplanned.bounds p).1
    have hdirectory : ∀ inst ∈ insts, allowed < inst.size →
        (settled allowed request softPlan hardPlan inst).hardSizeToFree =
          (inst.size - allowed : ℕ) := by
      intro inst hinst hover
      have hrequest := (h.directory inst.size (List.mem_map_of_mem hinst) hover).1
      have hnot := h.not_over hnodup hs hsoft hinst hover
      simp only [settled, if_neg hnot]
      exact if_pos hrequest
    rcases h.hard with hcovered | hsmall | ⟨hall, hroom⟩
    · left
      refine hcovered.trans ?_
      rw [map_settled, List.map_map]
      refine sum_le_sum fun inst hinst => ?_
      dsimp only [Function.comp_apply]
      by_cases hover : allowed < inst.size
      · rw [hdirectory inst hinst hover]
      · have hzero : inst.size - allowed = 0 := by omega
        have := directorySize_bounds allowed request inst.size
        have := hnonneg inst.port
        simp only [settled, hzero]
        split <;> omega
    · right
      intro inst' hinst'
      obtain ⟨inst, hinst, rfl⟩ := List.mem_map.mp hinst'
      have hsize : (settled allowed request softPlan hardPlan inst).size = inst.size := rfl
      have hless := hsmall inst.size (List.mem_map_of_mem hinst)
      rw [hsize]
      by_cases hover : allowed < inst.size
      · rwa [hdirectory inst hinst hover]
      · have := directorySize_bounds allowed request inst.size
        have := hnonneg inst.port
        unfold candidateSizeMB reserveMinSizeMB reduceStepSizeMB at hless ⊢
        simp only [settled]
        split <;> omega
    · rcases settled_hard_of_all hnodup hs hsoft hhard hpos hall hroom with hsum | rfl
      · exact Or.inl hsum
      · exact Or.inr (by simp)
  · exact Or.inl (settled_hard_of_nonpos hnodup (by omega) hhard)

/-- Separate rules honour every limit of a disk. -/
theorem Separate.honoured (h : Separate allowed request soft hard (insts.map ServerObj.size))
    (hnodup : (insts.map ServerObj.port).Nodup) (hs : ∀ inst ∈ insts, s inst.port = inst.size)
    (hsoft : Plan (portsOf insts) s tie soft softPlan after)
    (hhard : Plan (portsOf insts) after tie' hard hardPlan hardAfter) :
    Honoured allowed request soft hard (insts.map (settled allowed request softPlan hardPlan)) := by
  refine ⟨?_, settled_soft hnodup hs hsoft, settled_hard hnodup hs h hsoft hhard, ?_, ?_⟩
  · intro inst' hinst' hover
    obtain ⟨inst, hinst, rfl⟩ := List.mem_map.mp hinst'
    have hsize : (settled allowed request softPlan hardPlan inst).size = inst.size := rfl
    rw [hsize] at hover ⊢
    have hrequest := (h.directory inst.size (List.mem_map_of_mem hinst) hover).1
    have hnot := h.not_over hnodup hs hsoft hinst hover
    have hfree : (settled allowed request softPlan hardPlan inst).sizeToFreeMB =
        (inst.size - allowed : ℕ) := (if_neg hnot).trans (if_pos hrequest)
    have hhardfree : (settled allowed request softPlan hardPlan inst).hardSizeToFree =
        (inst.size - allowed : ℕ) := (if_neg hnot).trans (if_pos hrequest)
    omega
  · intro inst' hinst' hmore
    obtain ⟨inst, hinst, rfl⟩ := List.mem_map.mp hinst'
    have hsize : (settled allowed request softPlan hardPlan inst).size = inst.size := rfl
    have := directorySize_bounds allowed request inst.size
    rw [hsize] at hmore ⊢
    simp only [settled] at hmore ⊢
    split at hmore
    · rename_i hover
      rw [if_pos hover]
      have := hsoft.kept (p := inst.port) (by omega)
      rwa [hs inst hinst] at this
    · omega
  · intro inst' hinst' hmore
    obtain ⟨inst, hinst, rfl⟩ := List.mem_map.mp hinst'
    have hsize : (settled allowed request softPlan hardPlan inst).size = inst.size := rfl
    have := directorySize_bounds allowed request inst.size
    rw [hsize] at hmore ⊢
    simp only [settled] at hmore ⊢
    split at hmore
    · rename_i hover
      rw [if_pos hover]
      have hp : inst.port ∈ portsOf insts := List.mem_toFinset.mpr (List.mem_map_of_mem hinst)
      have hkept := hhard.kept (p := inst.port) (by omega)
      rw [hsoft.after_eq hp, hs inst hinst] at hkept
      unfold reserveMinSizeMB
      omega
    · omega

/-- On a disk within its hard limit the rules have to be separate: it is enough that the limits are
honoured whichever instance comes first among equals. -/
theorem separate_of_honoured (hnodup : (insts.map ServerObj.port).Nodup) (hhard0 : hard ≤ 0)
    (hs : ∀ inst ∈ insts, s inst.port = inst.size)
    (h : ∀ inst ∈ insts, ∃ softPlan hardPlan after hardAfter, ∃ tie tie' : (ℕ → ℤ) → ℕ → Prop,
      (∀ t q, tie t q → q ≠ inst.port → t inst.port < t q) ∧
      Plan (portsOf insts) s tie soft softPlan after ∧
      Plan (portsOf insts) after tie' hard hardPlan hardAfter ∧
      Honoured allowed request soft hard (insts.map (settled allowed request softPlan hardPlan))) :
    Separate allowed request soft hard (insts.map ServerObj.size) := by
  constructor
  · intro size hsizemem hover
    obtain ⟨inst, hinst, rfl⟩ := List.mem_map.mp hsizemem
    obtain ⟨softPlan, hardPlan, after, hardAfter, tie, tie', hfirst, hsoft, hhard, hhonoured⟩ :=
      h inst hinst
    have hp : inst.port ∈ portsOf insts := List.mem_toFinset.mpr (List.mem_map_of_mem hinst)
    have hdirectory := hhonoured.directory _ (List.mem_map_of_mem hinst) hover
    have hsize : (settled allowed request softPlan hardPlan inst).size = inst.size := rfl
    rw [hsize] at hdirectory
    have hneg : hardPlan inst.port ≤ 0 := by
      cases hhard with
      | room avg _ _ hneg _ _ _ => exact hneg _
      | levelled n t _ _ _ => omega
    simp only [settled] at hdirectory
    split at hdirectory
    · omega
    · rename_i hnot
      have hrequest : request < inst.size - allowed := by
        by_contra hno
        rw [directoryHard, if_neg hno] at hdirectory
        omega
      refine ⟨hrequest, ?_⟩
      by_contra hroom
      obtain ⟨hlow, hless⟩ := not_or.mp hroom
      rw [freed_eq hnodup hs] at hless
      rw [directorySize, if_pos hrequest] at hnot
      cases hsoft with
      | room avg hzero _ _ _ _ _ => omega
      | levelled n t _ hplanned _ =>
        have := hplanned.levelOf_lt_of_first hp (hs inst hinst) hfirst (not_lt.mp hlow)
          (not_le.mp hless)
        omega
  · left
    refine hhard0.trans (List.sum_nonneg fun x hx => ?_)
    obtain ⟨size, -, rfl⟩ := List.mem_map.mp hx
    omega

end Rules

end Disk

section Servers

variable {diskParts : String → DiskPartInfo} {orders : Orders} {cfg : Config}
  {servers : List ServerObj} {request allowed : ℕ} {mount : String} {inst : ServerObj}

/-- The instances of one partition. -/
def onDisk (mount : String) (servers : List ServerObj) : List ServerObj :=
  servers.filter fun inst => inst.mountpoint = some mount

/-- A plan is made: the policy is the one that keeps most, sizes can be parsed and read, and the
instances have ports of their own and no plan before. -/
structure Given (cfg : Config) (request allowed : ℕ) (servers : List ServerObj) : Prop where
  policy : cfg.keepPolicy = "" ∨ cfg.keepPolicy = "most"
  request : cfg.requestSizeToFree.map megabytes = some request
  allowed : cfg.maxBinlogTotalSize.map megabytes = some allowed
  ports : (servers.map ServerObj.port).Nodup
  port_pos : ∀ inst ∈ servers, inst.port ≠ 0
  readable : ∀ inst ∈ servers, inst.mountpoint.isSome → inst.directorySizeMB.isSome
  fresh : ∀ inst ∈ servers, inst.hardSizeToFree = 0

/-- The ports and sizes of some instances. -/
def sizesOf (insts : List ServerObj) : List (ℕ × ℕ) := insts.map fun inst => (inst.port, inst.size)

theorem diskPartInst_eq (h : ∀ inst ∈ servers, inst.mountpoint.isSome → inst.directorySizeMB.isSome) :
    diskPartInst mount servers = some (sizesOf (onDisk mount servers)) := by
  have hall : ∀ inst ∈ onDisk mount servers, inst.directorySizeMB = some inst.size := by
    intro inst hinst
    obtain ⟨hmem, hmount⟩ := List.mem_filter.mp hinst
    have hsome : inst.mountpoint.isSome := by
      rw [of_decide_eq_true hmount]
      rfl
    obtain ⟨size, hsize⟩ := Option.isSome_iff_exists.mp (h inst hmem hsome)
    rw [ServerObj.size, hsize, Option.getD_some]
  unfold diskPartInst sizesOf
  change (onDisk mount servers).mapM _ = _
  generalize onDisk mount servers = insts at hall ⊢
  induction insts with
  | nil => rfl
  | cons inst insts ih =>
    obtain ⟨hinst, hinsts⟩ := List.forall_mem_cons.mp hall
    rw [List.mapM_cons, ih hinsts, hinst]
    rfl

/-- Nothing happens on a disk whose usage is below the limit. -/
theorem diskPartSizeToFreeMB_nonpos {disk : DiskPartInfo} {pct : ℚ}
    (h : disk.usedPercent < pct / 100) : diskPartSizeToFreeMB disk pct ≤ 0 := by
  have hbytes : disk.usedTotal ≤ ⌊pct / 100 * disk.total⌋₊ := by
    rcases Nat.eq_zero_or_pos disk.total with hzero | hpos
    · simp [DiskPartInfo.usedTotal, hzero]
    · apply Nat.le_floor
      have htotal : (0 : ℚ) < disk.total := by exact_mod_cast hpos
      exact ((div_lt_iff₀ htotal).mp h).le
  have hsize : megabytes disk.usedTotal ≤ megabytes ⌊pct / 100 * disk.total⌋₊ :=
    Nat.div_le_div_right (Nat.div_le_div_right hbytes)
  unfold diskPartSizeToFreeMB
  omega

theorem directoryRule_eq (hrequest : inst.sizeToFreeMB = request) (hfresh : inst.hardSizeToFree = 0) :
    directoryRule allowed inst inst.size =
      { inst with
        binlogSizeMB := inst.size
        sizeToFreeMB := directorySize allowed request inst.size
        hardSizeToFree := directoryHard allowed request inst.size } := by
  unfold directoryRule directorySize directoryHard
  by_cases hover : (allowed : ℤ) < inst.size
  · by_cases hmore : request < inst.size - allowed
    · have hless : inst.sizeToFreeMB < (inst.size : ℤ) - allowed := by omega
      have hcast : ((inst.size - allowed : ℕ) : ℤ) = (inst.size : ℤ) - allowed := by omega
      simp [hover, hmore, hless, hcast]
    · have hless : ¬ inst.sizeToFreeMB < (inst.size : ℤ) - allowed := by omega
      simp [hover, hmore, hless, ← hrequest, ← hfresh]
  · have hmore : ¬ request < inst.size - allowed := by omega
    simp [hover, hmore, ← hrequest, ← hfresh]

theorem planInstance_eq {plans : (ℕ → ℤ) × (ℕ → ℤ)} {disk : DiskPartInfo}
    (hrequest : inst.sizeToFreeMB = request) (hfresh : inst.hardSizeToFree = 0)
    (hneg : diskPartSizeToFreeMB disk cfg.maxDiskUsedPct ≤ 0 → plans.1 inst.port ≤ 0) :
    planInstance cfg allowed disk plans inst = settled allowed request plans.1 plans.2 inst := by
  unfold planInstance
  rw [show inst.directorySizeMB.getD 0 = inst.size from rfl, directoryRule_eq hrequest hfresh]
  dsimp only
  by_cases hgives : directorySize allowed request inst.size < plans.1 inst.port
  · have hused : ¬ disk.usedPercent < cfg.maxDiskUsedPct / 100 := by
      intro hbelow
      have := hneg (diskPartSizeToFreeMB_nonpos hbelow)
      have := directorySize_bounds allowed request inst.size
      omega
    simp [hused, diskRule, settled, hgives]
  · split <;> simp [diskRule, settled, hgives]

/-- The plan of an instance on one of some partitions whose plans are given. -/
def planOn (diskParts : String → DiskPartInfo) (cfg : Config) (allowed : ℕ)
    (plansOf : String → (ℕ → ℤ) × (ℕ → ℤ)) (mounts : List String) (inst : ServerObj) : ServerObj :=
  match inst.mountpoint with
  | some mount =>
    if mount ∈ mounts then planInstance cfg allowed (diskParts mount) (plansOf mount) inst else inst
  | none => inst

theorem planOn_of_mem {plansOf : String → (ℕ → ℤ) × (ℕ → ℤ)} {mounts : List String}
    (hmount : inst.mountpoint = some mount) (hmem : mount ∈ mounts) :
    planOn diskParts cfg allowed plansOf mounts inst =
      planInstance cfg allowed (diskParts mount) (plansOf mount) inst := by
  simp [planOn, hmount, hmem]

/-- What no rule touches. -/
def SameServer (f : ServerObj → ServerObj) : Prop :=
  ∀ inst, (f inst).port = inst.port ∧ (f inst).mountpoint = inst.mountpoint ∧
    (f inst).directorySizeMB = inst.directorySizeMB

theorem sameServer_planInstance {plans : (ℕ → ℤ) × (ℕ → ℤ)} {disk : DiskPartInfo} :
    SameServer (planInstance cfg allowed disk plans) := by
  intro inst
  unfold planInstance directoryRule diskRule
  dsimp only
  split_ifs <;> simp

theorem sameServer_planOn {plansOf : String → (ℕ → ℤ) × (ℕ → ℤ)} {mounts : List String} :
    SameServer (planOn diskParts cfg allowed plansOf mounts) := by
  intro inst
  unfold planOn
  split
  · split
    · exact sameServer_planInstance inst
    · exact ⟨rfl, rfl, rfl⟩
  · exact ⟨rfl, rfl, rfl⟩

theorem onDisk_map {f : ServerObj → ServerObj} (h : SameServer f) :
    onDisk mount (servers.map f) = (onDisk mount servers).map f := by
  unfold onDisk
  rw [List.filter_map]
  congr 1
  apply List.filter_congr
  intro inst _
  simp [(h inst).2.1]

theorem diskPartInst_map {f : ServerObj → ServerObj} (h : SameServer f) :
    diskPartInst mount (servers.map f) = diskPartInst mount servers := by
  unfold diskPartInst
  change (onDisk mount (servers.map f)).mapM _ = (onDisk mount servers).mapM _
  rw [onDisk_map h, List.mapM_map]
  congr 1
  funext inst
  simp [(h inst).1, (h inst).2.2]

theorem foldlM_planDisk {mounts : List String} (hnodup : mounts.Nodup)
    {plansOf : String → (ℕ → ℤ) × (ℕ → ℤ)}
    (hplans : ∀ mount, (diskPartInst mount servers).map
      (plans orders cfg mount (diskParts mount)) = some (plansOf mount)) :
    mounts.foldlM (fun servers mount => planDisk diskParts orders cfg allowed mount servers)
      servers = some (servers.map (planOn diskParts cfg allowed plansOf mounts)) := by
  induction mounts generalizing servers with
  | nil =>
    rw [List.foldlM_nil]
    congr 1
    symm
    apply List.map_id''
    intro inst
    unfold planOn
    split <;> simp
  | cons mount mounts ih =>
    obtain ⟨hnot, hnodup⟩ := List.nodup_cons.mp hnodup
    have hfirst : planDisk diskParts orders cfg allowed mount servers =
        some (servers.map (planOn diskParts cfg allowed plansOf [mount])) := by
      obtain ⟨insts, hinsts, hplan⟩ := Option.map_eq_some_iff.mp (hplans mount)
      rw [planDisk, hinsts, Option.map_some, hplan]
      congr 1
      apply List.map_congr_left
      intro inst _
      unfold planOn
      cases hmount : inst.mountpoint with
      | none => simp
      | some other =>
        by_cases hother : other = mount
        · subst hother
          simp
        · simp [hother]
    rw [List.foldlM_cons, hfirst, Option.bind_eq_bind, Option.bind_some, ih hnodup fun mount => by
      rw [diskPartInst_map sameServer_planOn]
      exact hplans mount]
    rw [List.map_map]
    congr 1
    apply List.map_congr_left
    intro inst _
    cases hmount : inst.mountpoint with
    | none => simp [planOn, hmount]
    | some other =>
      by_cases hother : other = mount
      · subst hother
        simp [planOn, hmount, hnot, (sameServer_planInstance _).2.1]
      · simp [planOn, hmount, hother]

/-- The two plans for the instances of a partition. -/
def plansFor (diskParts : String → DiskPartInfo) (orders : Orders) (cfg : Config)
    (servers : List ServerObj) (mount : String) : (ℕ → ℤ) × (ℕ → ℤ) :=
  plans orders cfg mount (diskParts mount) (sizesOf (onDisk mount servers))

/-- A plan is made, and every instance is settled by the plans for its partition. -/
theorem decideSizeToFree_eq (h : Given cfg request allowed servers) :
    ∃ after, decideSizeToFree diskParts orders cfg servers = some after ∧
      ∀ mount, onDisk mount after = (onDisk mount servers).map
        (settled allowed request (plansFor diskParts orders cfg servers mount).1
          (plansFor diskParts orders cfg servers mount).2) := by
  obtain ⟨bytes, hbytes, hrequest⟩ := Option.map_eq_some_iff.mp h.request
  obtain ⟨limit, hlimit, hallowed⟩ := Option.map_eq_some_iff.mp h.allowed
  have hleast : ¬ cfg.keepPolicy = "least" := by
    rcases h.policy with hpolicy | hpolicy <;> rw [hpolicy] <;> decide
  have hstart : SameServer (requested (megabytes bytes)) :=
    fun _ => ⟨rfl, rfl, rfl⟩
  have hplans : ∀ mount, (diskPartInst mount (servers.map (requested (megabytes bytes)))).map
        (plans orders cfg mount (diskParts mount)) =
          some (plansFor diskParts orders cfg servers mount) := by
    intro mount
    rw [diskPartInst_map hstart, diskPartInst_eq h.readable]
    rfl
  have hmounts : (orders.mounts.order (mountpoints
      (servers.map (requested (megabytes bytes))))).Nodup :=
    (orders.mounts.perm _).nodup_iff.mpr (List.nodup_dedup _)
  have hresult : decideSizeToFree diskParts orders cfg servers =
      some ((servers.map (requested (megabytes bytes))).map
        (planOn diskParts cfg (megabytes limit) (plansFor diskParts orders cfg servers)
          (orders.mounts.order (mountpoints
            (servers.map (requested (megabytes bytes))))))) := by
    rw [decideSizeToFree, if_neg hleast, if_pos h.policy, hbytes, hlimit]
    exact foldlM_planDisk hmounts hplans
  refine ⟨_, hresult, ?_⟩
  · intro mount
    rw [onDisk_map sameServer_planOn, onDisk_map hstart, List.map_map]
    apply List.map_congr_left
    intro inst hinst
    obtain ⟨hmem, hon⟩ := List.mem_filter.mp hinst
    have hmount := of_decide_eq_true hon
    have hlisted : mount ∈ orders.mounts.order (mountpoints
        (servers.map (requested (megabytes bytes)))) := by
      refine orders.mounts.mem_order.mpr (List.mem_dedup.mpr ?_)
      rw [List.filterMap_map]
      exact List.mem_filterMap.mpr ⟨inst, hmem, hmount⟩
    have hneg : diskPartSizeToFreeMB (diskParts mount) cfg.maxDiskUsedPct ≤ 0 →
        (plansFor diskParts orders cfg servers mount).1 inst.port ≤ 0 := by
      intro hneg
      obtain ⟨-, avg, -, hall, -⟩ := @decideSizeToRemove_of_nonpos
        (instBinlogSizeMB (sizesOf (onDisk mount servers))) (orders.ports mount false) _ hneg
      exact hall inst.port
    have hsettled : planInstance cfg (megabytes limit) (diskParts mount)
        (plansFor diskParts orders cfg servers mount)
        (requested (megabytes bytes) inst) = _ :=
      planInstance_eq rfl (h.fresh inst hmem) hneg
    have hstarted : (requested (megabytes bytes) inst).mountpoint = some mount := hmount
    rw [Function.comp_apply, planOn_of_mem hstarted hlisted, hsettled, hrequest, hallowed]
    rfl

theorem portsOf_onDisk :
    portsOf (onDisk mount servers) = ((sizesOf (onDisk mount servers)).map Prod.fst).toFinset := by
  rw [portsOf, sizesOf, List.map_map]
  rfl

/-- The map of sizes of a partition's instances. -/
theorem sizes_onDisk (mount : String) (h : Given cfg request allowed servers) :
    Sizes (portsOf (onDisk mount servers)) (instBinlogSizeMB (sizesOf (onDisk mount servers))) ∧
      ∀ inst ∈ onDisk mount servers,
        (instBinlogSizeMB (sizesOf (onDisk mount servers))).size inst.port = inst.size := by
  have hsub : (onDisk mount servers).Sublist servers := List.filter_sublist
  have hfst : (sizesOf (onDisk mount servers)).map Prod.fst =
      (onDisk mount servers).map ServerObj.port := by
    rw [sizesOf, List.map_map]
    rfl
  have hnodup : ((sizesOf (onDisk mount servers)).map Prod.fst).Nodup :=
    hfst ▸ (hsub.map ServerObj.port).nodup h.ports
  have hzero : 0 ∉ (sizesOf (onDisk mount servers)).map Prod.fst := by
    rw [hfst]
    intro hmem
    obtain ⟨inst, hinst, hport⟩ := List.mem_map.mp hmem
    exact h.port_pos inst (hsub.subset hinst) hport
  obtain ⟨hsizes, hs⟩ := sizes_instBinlogSizeMB hnodup hzero
  rw [← portsOf_onDisk] at hsizes
  exact ⟨hsizes, fun inst hinst => hs (inst.port, inst.size) (List.mem_map_of_mem hinst)⟩

/-- The two plans for a partition, where the first one breaks ties as `tie` tells. -/
theorem plansFor_plan (h : Given cfg request allowed servers) (tie : (ℕ → ℤ) → ℕ → Prop)
    (htie : ∀ k m, Sizes (portsOf (onDisk mount servers)) m →
      (reduceFromMax (orders.ports mount false k) m).1 ∈ portsOf (onDisk mount servers) →
        tie m.size (reduceFromMax (orders.ports mount false k) m).1) :
    ∃ after hardAfter : ℕ → ℤ,
      Plan (portsOf (onDisk mount servers))
        (instBinlogSizeMB (sizesOf (onDisk mount servers))).size tie
        (diskPartSizeToFreeMB (diskParts mount) cfg.maxDiskUsedPct)
        (plansFor diskParts orders cfg servers mount).1 after ∧
      Plan (portsOf (onDisk mount servers)) after (fun _ _ => True)
        (diskPartSizeToFreeMB (diskParts mount) cfg.maxDiskUsedPctHard)
        (plansFor diskParts orders cfg servers mount).2 hardAfter := by
  obtain ⟨hsoft, hleft⟩ := Plan.of_decide (sizes_onDisk mount h).1
    (diskPartSizeToFreeMB (diskParts mount) cfg.maxDiskUsedPct) tie htie
  obtain ⟨hhard, -⟩ :=
    Plan.of_decide hleft (diskPartSizeToFreeMB (diskParts mount) cfg.maxDiskUsedPctHard)
      (fun _ _ => True)
      fun (k : ℕ) m _ (_ : (reduceFromMax (orders.ports mount true k) m).1 ∈ _) => trivial
  exact ⟨_, _, hsoft, hhard⟩

/-- An instance of 100 MB, of which 60 MB are asked for; the directory limit is 50 MB. -/
def sampleServers : List ServerObj := [⟨20000, some "/data", some 100, 0, 0, 0⟩]

def sampleConfig : Config where
  keepPolicy := "most"
  requestSizeToFree := some (60 * 1024 * 1024)
  maxBinlogTotalSize := some (50 * 1024 * 1024)
  maxDiskUsedPct := 80
  maxDiskUsedPctHard := 90

/-- A tenth of the disk is used. -/
def sampleDisk : DiskPartInfo := ⟨1000 * 1024 * 1024, 900 * 1024 * 1024, by decide⟩

theorem given_sample : Given sampleConfig 60 50 sampleServers := by
  constructor <;> decide

theorem sampleDisk_nonpos :
    diskPartSizeToFreeMB sampleDisk sampleConfig.maxDiskUsedPct ≤ 0 ∧
      diskPartSizeToFreeMB sampleDisk sampleConfig.maxDiskUsedPctHard ≤ 0 := by
  constructor <;> apply diskPartSizeToFreeMB_nonpos <;>
    norm_num [DiskPartInfo.usedPercent, DiskPartInfo.usedTotal, sampleDisk, sampleConfig]

end Servers

end Rotate.SizePlan
