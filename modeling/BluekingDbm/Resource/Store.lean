import BluekingDbm.Resource.Picker

/-! The table of hosts and the statements that are executed on it, each of them at once. -/
namespace Resource

inductive Status
  | unused
  | preselected
  | prepoccupied
  | used
  | usedByOther
  | faultHazard
  | dissolved
  deriving DecidableEq

/-- A request; requests are numbered as they arrive. -/
structure Caller where
  number : ℕ
  requestId : String
  deriving DecidableEq

/-- The columns of `tb_rp_detail` that are only read. Nothing keeps two rows from having one host id. -/
structure Machine extends TbRpDetail where
  id : ℕ
  bkCloudID : ℤ
  city : String
  subZoneID : String
  gseAlive : Bool
  deriving DecidableEq

/-- A row of `tb_rp_detail`. `holder` is no column: it tells whose preselect wrote the row last. -/
structure Row extends Machine where
  status : Status
  holder : Option Caller
  deriving DecidableEq

abbrev Table := List Row

/-- `UPDATE` of the rows that meet a condition. -/
def Table.update (t : Table) (hit : Row → Bool) (set : Row → Row) : Table :=
  t.map fun r => if hit r then set r else r

/-- `bk_host_id in ids`. -/
def Row.listed (r : Row) (ids : List ℤ) : Bool := r.bkHostID ∈ ids

/-- `bk_host_id in ids and status = ...`. -/
def Row.matched (r : Row) (ids : List ℤ) (status : Status) : Bool :=
  r.listed ids && r.status = status

/-- `PreselectFromUnused`, with the number of rows affected. -/
def preselectFromUnused (caller : Caller) (ids : List ℤ) (t : Table) : ℕ × Table :=
  (t.countP fun r => r.matched ids .unused,
    t.update (fun r => r.matched ids .unused) fun r =>
      { r with status := .preselected, holder := some caller })

/-- `UpdateTbRpDetailStatusAtSelling` to Unused. -/
def rollbackUnused (ids : List ℤ) (t : Table) : Table :=
  t.update (fun r => r.matched ids .preselected) fun r => { r with status := .unused }

structure BatchGetTbDetail where
  item : String
  bkHostIds : List ℤ
  deriving DecidableEq

structure BatchGetTbDetailResult where
  item : String
  data : List Row
  deriving DecidableEq

/-- What hosts are delivered as. -/
inductive Mode
  | used
  | prepoccupied
  deriving DecidableEq

def Mode.status : Mode → Status
  | .used => .used
  | .prepoccupied => .prepoccupied

/-- `SetSatisfiedStatus`: the rows it reads and the table after it, or none where a count differs. -/
def setSatisfiedStatus (bkhostIds : List ℤ) (mode : Mode) (t : Table) :
    Option (List Row × Table) :=
  let result := t.filter fun r => r.listed bkhostIds
  if bkhostIds.length ≠ result.length then none
  else if (t.countP fun r => r.matched bkhostIds .preselected) ≠ bkhostIds.length then none
  else
    some (result, t.update (fun r => r.matched bkhostIds .preselected) fun r =>
      { r with status := mode.status })

def setSatisfiedStatuses (mode : Mode) :
    List BatchGetTbDetail → Table → Option (List BatchGetTbDetailResult × Table)
  | [], t => some ([], t)
  | v :: elements, t => do
    let (d, t) ← setSatisfiedStatus v.bkHostIds mode t
    let (result, t) ← setSatisfiedStatuses mode elements t
    some (⟨v.item, d⟩ :: result, t)

/-- `BatchGetSatisfiedByAssetIds`: one transaction, of which nothing is left where any part fails. -/
def batchGetSatisfiedByAssetIds (elements : List BatchGetTbDetail) (mode : Mode) (t : Table) :
    Option (List BatchGetTbDetailResult × Table) := do
  let (result, t) ← setSatisfiedStatuses mode elements t
  let allHostIds := elements.flatMap BatchGetTbDetail.bkHostIds
  -- the update of `consume_time`
  if (t.countP fun r => r.listed allHostIds) ≠ allHostIds.length then none else some (result, t)

/-- The update of `ConfirmApply`. -/
def markUsed (ids : List ℤ) (t : Table) : Table :=
  t.update (fun r => r.listed ids) fun r => { r with status := .used }

/-- `ArchiveResource`, by the ids of rows. -/
def archiveResource (ids : List ℕ) (t : Table) : Table :=
  t.filter fun r => !(r.id ∈ ids && r.status = .used)

/-- `DeleteTbRpDetail`. -/
def deleteTbRpDetail (ids : List ℤ) (t : Table) : Table := t.filter fun r => !r.listed ids

/-- Why a host that is not in use is withdrawn. -/
inductive Withdrawal
  | usedByOther
  | faultHazard
  | dissolved
  deriving DecidableEq

def Withdrawal.status : Withdrawal → Status
  | .usedByOther => .usedByOther
  | .faultHazard => .faultHazard
  | .dissolved => .dissolved

/-- What the inspections do. -/
def inspect (ids : List ℤ) (why : Withdrawal) (t : Table) : Table :=
  t.update (fun r => r.matched ids .unused) fun r => { r with status := why.status }

/-- What an import adds. -/
def imported (rows : List Row) : Table :=
  rows.map fun r => { r with status := .unused, holder := none }

/-- Hosts returned to the pool where they stand. -/
def release (ids : List ℤ) (t : Table) : Table :=
  t.update (fun r => r.listed ids) fun r => { r with status := .unused }

variable {t t' : Table} {hit : Row → Bool} {set : Row → Row} {r : Row} {ids : List ℤ}
  {status : Status}

theorem mem_update : r ∈ t.update hit set ↔ ∃ r₀ ∈ t, (if hit r₀ then set r₀ else r₀) = r :=
  List.mem_map

@[simp] theorem listed_iff : r.listed ids = true ↔ r.bkHostID ∈ ids := by simp [Row.listed]

@[simp] theorem matched_iff :
    r.matched ids status = true ↔ r.bkHostID ∈ ids ∧ r.status = status := by
  simp [Row.matched]

/-- A row of the table after an update is an old row, or the new version of one that was hit. -/
theorem update_cases (h : r ∈ t.update hit set) :
    (r ∈ t ∧ hit r = false) ∨ ∃ r₀ ∈ t, hit r₀ = true ∧ set r₀ = r := by
  obtain ⟨r₀, hr₀, heq⟩ := mem_update.mp h
  cases hhit : hit r₀ with
  | true =>
    rw [hhit] at heq
    exact .inr ⟨r₀, hr₀, hhit, heq⟩
  | false =>
    rw [hhit] at heq
    obtain rfl : r₀ = r := heq
    exact .inl ⟨hr₀, hhit⟩

theorem mem_update_of_hit (hr : r ∈ t) (h : hit r = true) : set r ∈ t.update hit set :=
  mem_update.mpr ⟨r, hr, if_pos h⟩

theorem mem_update_of_not_hit (hr : r ∈ t) (h : hit r = false) : r ∈ t.update hit set :=
  mem_update.mpr ⟨r, hr, if_neg (by simp [h])⟩

end Resource
