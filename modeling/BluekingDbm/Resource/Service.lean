import BluekingDbm.Resource.Apply

/-! Any number of requests on one table, each taking its next step at any time, while hosts are imported,
inspected, archived, deleted and returned. No lock is relied on. -/
namespace Resource

open Program

/-- `log` is `tb_rp_apply_detail_log`; what is still to be written to it waits in `logChan`. -/
structure Db where
  table : Table
  logChan : List (String × List BatchGetTbDetailResult)
  log : List (String × ℤ)

/-- What neither the requests nor the table decide: failing statements, the lock, the bk-dbm api and the
orders of queues and maps. -/
structure Choice where
  fails : Bool
  locked : Bool
  idcCitys : Option (List String)
  detailOrder : DetailOrder
  campusOrder : Runtime
  pickOrder : Runtime

/-- A statement that fails changes nothing. -/
def serve (caller : Caller) (c : Choice) : (o : Op) → Db → Option (o.Res × Db)
  | .detailOrder, db => some (c.detailOrder, db)
  | .campusOrder, db => some (c.campusOrder, db)
  | .pickOrder _ _, db => some (c.pickOrder, db)
  | .hang, _ => none
  | .lock _, db => some (c.locked, db)
  | .getIdcCityByLogicCity _, db => some (c.idcCitys, db)
  | .select, db => if c.fails then some (none, db) else some (some db.table, db)
  | .preselect ids, db =>
    if c.fails then some (none, db)
    else
      let (affectRows, table) := preselectFromUnused caller ids db.table
      some (some affectRows, { db with table })
  | .rollback ids, db =>
    if c.fails then some ((), db) else some ((), { db with table := rollbackUnused ids db.table })
  | .commit elements mode, db =>
    if c.fails then some (none, db)
    else
      match batchGetSatisfiedByAssetIds elements mode db.table with
      | none => some (none, db)
      | some (result, table) => some (some result, { db with table })
  | .sendLog data, db => some ((), { db with logChan := db.logChan ++ [(caller.requestId, data)] })
  | .countLog requestId, db =>
    if c.fails then some (none, db) else some (some (db.log.countP fun l => l.1 = requestId), db)
  | .markUsed ids, db =>
    if c.fails then some (false, db) else some (true, { db with table := markUsed ids db.table })

abbrev Service := Sys Op.Res Caller Reply Db

/-- No request has preselected anything yet. -/
def Service.initial (table : Table) : Service :=
  ⟨⟨table.map fun r => { r with holder := none }, [], []⟩, []⟩

inductive Event
  | apply (requestId : String) (param : RequestInputParam) (mode : Mode)
  | confirm (requestId : String) (param : ConfirmApplyParam)
  | call (i : ℕ) (c : Choice)
  | recordTask
  | archive (ids : List ℕ)
  | delete (ids : List ℤ)
  | importHosts (rows : List Row)
  | inspect (ids : List ℤ) (why : Withdrawal)
  | release (ids : List ℤ)

namespace Service

variable (s : Service)

def arrive (requestId : String) (handler : Handler Reply) : Service :=
  { s with procs := s.procs ++ [(⟨s.procs.length, requestId⟩, handler)] }

def setTable (table : Table) : Service := { s with store := { s.store with table } }

end Service

/-- One step of one party. -/
def Service.next (runMode : String) (s : Service) : Event → Option Service
  | .apply requestId param mode => some (s.arrive requestId (applyBase runMode param mode))
  | .confirm requestId param => some (s.arrive requestId (confirmApply param))
  | .call i c => s.call serve i c
  | .recordTask =>
    match s.store.logChan with
    | [] => none
    | (requestId, data) :: logChan =>
      let hosts := data.flatMap fun d => d.data.map fun r => (requestId, r.bkHostID)
      some { s with store := { s.store with logChan, log := s.store.log ++ hosts } }
  | .archive ids => some (s.setTable (archiveResource ids s.store.table))
  | .delete ids => some (s.setTable (deleteTbRpDetail ids s.store.table))
  | .importHosts rows => some (s.setTable (s.store.table ++ imported rows))
  | .inspect ids why => some (s.setTable (Resource.inspect ids why s.store.table))
  | .release ids => some (s.setTable (Resource.release ids s.store.table))

/-- A runtime and a database that are in no one's way. -/
def Choice.steady : Choice where
  fails := false
  locked := true
  idcCitys := some []
  detailOrder := ⟨id, fun _ => .refl _⟩
  campusOrder := .still
  pickOrder := .still

/-- What one step can do to the table. -/
inductive Change (t : Table) : Table → Prop
  | keep : Change t t
  | preselect (caller : Caller) (ids : List ℤ) : Change t (preselectFromUnused caller ids t).2
  | rollback (ids : List ℤ) : Change t (rollbackUnused ids t)
  | commit {elements : List BatchGetTbDetail} {mode : Mode} {result : List BatchGetTbDetailResult}
      {t' : Table} (h : batchGetSatisfiedByAssetIds elements mode t = some (result, t')) : Change t t'
  | markUsed (ids : List ℤ) : Change t (markUsed ids t)
  | archive (ids : List ℕ) : Change t (archiveResource ids t)
  | delete (ids : List ℤ) : Change t (deleteTbRpDetail ids t)
  | importHosts (rows : List Row) : Change t (t ++ imported rows)
  | inspect (ids : List ℤ) (why : Withdrawal) : Change t (inspect ids why t)
  | release (ids : List ℤ) : Change t (release ids t)

variable {runMode : String} {s s' : Service} {e : Event} {caller : Caller} {c : Choice} {o : Op}
  {r : o.Res} {db db' : Db}

theorem serve_change (h : serve caller c o db = some (r, db')) : Change db.table db'.table := by
  cases o with
  | detailOrder => cases h; exact .keep
  | campusOrder => cases h; exact .keep
  | pickOrder attempt group => cases h; exact .keep
  | hang => cases h
  | lock key => cases h; exact .keep
  | getIdcCityByLogicCity city => cases h; exact .keep
  | select =>
    simp only [serve] at h
    split at h <;> cases h <;> exact .keep
  | preselect ids =>
    simp only [serve] at h
    split at h
    · cases h
      exact .keep
    · cases h
      exact .preselect caller ids
  | rollback ids =>
    simp only [serve] at h
    split at h
    · cases h
      exact .keep
    · cases h
      exact .rollback ids
  | commit elements mode =>
    simp only [serve] at h
    split at h
    · cases h
      exact .keep
    · split at h
      · cases h
        exact .keep
      · rename_i result t hbatch
        cases h
        exact .commit hbatch
  | sendLog data => cases h; exact .keep
  | countLog requestId =>
    simp only [serve] at h
    split at h <;> cases h <;> exact .keep
  | markUsed ids =>
    simp only [serve] at h
    split at h
    · cases h
      exact .keep
    · cases h
      exact .markUsed ids

theorem next_change (h : s.next runMode e = some s') : Change s.store.table s'.store.table := by
  cases e with
  | apply requestId param mode => cases h; exact .keep
  | confirm requestId param => cases h; exact .keep
  | call i c =>
    obtain ⟨caller, o, k, r, -, hserve, -⟩ := call_cases h
    exact serve_change hserve
  | recordTask =>
    simp only [Service.next] at h
    split at h <;> cases h
    exact .keep
  | archive ids => cases h; exact .archive ids
  | delete ids => cases h; exact .delete ids
  | importHosts rows => cases h; exact .importHosts rows
  | inspect ids why => cases h; exact .inspect ids why
  | release ids => cases h; exact .release ids

end Resource
