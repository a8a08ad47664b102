import BluekingDbm.Cutover.Status

/-! A cutover: the sources are locked, the task catches up and is stopped, the sources are unlocked. -/
namespace Cutover

structure TableItem where
  schema : String
  table : String
  deriving DecidableEq

structure TableRoute where
  sourceDB : String
  sourceTable : String
  targetDB : String
  targetTable : String
  deriving DecidableEq

structure SyncScope where
  doDBs : List String
  doTables : List TableItem
  tableRoutes : List TableRoute
  deriving DecidableEq

def SyncScope.isEmpty : Option SyncScope → Bool
  | none => true
  | some s => if s.tableRoutes ≠ [] then false else s.doDBs = [] ∨ s.doTables = []

structure SourceEndpoint where
  host : String
  port : ℤ
  sourceName : String
  syncScope : Option SyncScope
  deriving DecidableEq

structure Params where
  dtsMasterAddr : String
  taskName : String
  sourceEndpoints : List SourceEndpoint
  syncScope : Option SyncScope
  lockTables : List TableItem
  catchupRecheck : ℤ
  catchupPollMax : ℤ

inductive Error
  | taskName
  | dtsMasterAddr
  | sourceEndpoints
  | syncScope
  | lock (ep : SourceEndpoint)
  | snapshotFetch
  | snapshots (e : StatusError)
  | fetch
  | aborted (e : StatusError)
  | timeout (last : Option StatusError)
  | stop
  | output

def defaultCatchupRecheck : ℤ := 3

def defaultCatchupPollMax : ℤ := 60

def Params.init (p : Params) : Except Error Params :=
  if Text.trimSpace p.taskName = "" then .error .taskName
  else if Text.trimSpace p.dtsMasterAddr = "" then .error .dtsMasterAddr
  else if p.sourceEndpoints = [] then .error .sourceEndpoints
  else if p.lockTables = [] ∧ SyncScope.isEmpty p.syncScope ∧
      ∀ ep ∈ p.sourceEndpoints, SyncScope.isEmpty ep.syncScope then .error .syncScope
  else
    let recheck := if p.catchupRecheck ≤ 0 then defaultCatchupRecheck else p.catchupRecheck
    let pollMax := if p.catchupPollMax ≤ 0 then defaultCatchupPollMax else p.catchupPollMax
    .ok { p with
      catchupRecheck := recheck
      catchupPollMax := if pollMax < recheck then recheck else pollMax }

/-- What the sources and the master of the task answer: whether a source can be locked, the reply
after the locks, the replies to the polls and the one after the stop, and whether the task can be
stopped and the output written. -/
structure Env where
  lockSourceTables : SourceEndpoint → Option SyncScope → List TableItem → Bool
  snapshot : Option (List TaskStatusItem)
  polls : ℕ → Option (List TaskStatusItem)
  stopTask : Bool
  final : Option (List TaskStatusItem)
  printOutput : Bool

/-- What the component does that others see. -/
inductive Event
  | lock (ep : SourceEndpoint)
  | status (items : Option (List TaskStatusItem))
  | stop
  | output (items : List TaskStatusItem)
  | unlock (ep : SourceEndpoint)
  deriving DecidableEq

/-- What is done, in order, and how it ends. -/
structure Done (α : Type) where
  trace : List Event
  result : Except Error α

/-- The scope that an endpoint is locked with. -/
def Params.scope (p : Params) (ep : SourceEndpoint) : Option SyncScope :=
  if SyncScope.isEmpty ep.syncScope then p.syncScope else ep.syncScope

/-- The endpoints that are locked, and the one that cannot be. -/
def lockSources (env : Env) (p : Params) : List SourceEndpoint → List SourceEndpoint × Option SourceEndpoint
  | [] => ([], none)
  | ep :: eps =>
    if env.lockSourceTables ep (p.scope ep) p.lockTables then
      let rest := lockSources env p eps
      (ep :: rest.1, rest.2)
    else ([], some ep)

/-- The polls from one on, as many as are left. -/
def pollLoop (polls : ℕ → Option (List TaskStatusItem)) (snapshots : Snapshots) (recheck : ℤ) :
    (left attempt : ℕ) → (consecutive : ℤ) → Option StatusError → Done (List TaskStatusItem)
  | 0, _, _, lastCatchupErr => ⟨[], .error (.timeout lastCatchupErr)⟩
  | left + 1, attempt, consecutive, lastCatchupErr =>
    let seen := Event.status (polls attempt)
    match polls attempt with
    | none => ⟨[seen], .error .fetch⟩
    | some items =>
      match decideCatchupPoll items snapshots with
      | .abort e => ⟨[seen], .error (.aborted e)⟩
      | .retry e =>
        let rest := pollLoop polls snapshots recheck left (attempt + 1) 0 (some e)
        ⟨seen :: rest.trace, rest.result⟩
      | .pass =>
        if recheck ≤ consecutive + 1 then ⟨[seen], .ok items⟩
        else
          let rest := pollLoop polls snapshots recheck left (attempt + 1) (consecutive + 1)
            lastCatchupErr
          ⟨seen :: rest.trace, rest.result⟩

def pollUntilCaughtUp (polls : ℕ → Option (List TaskStatusItem)) (snapshots : Snapshots)
    (recheck pollMax : ℤ) : Done (List TaskStatusItem) :=
  pollLoop polls snapshots (max recheck 1) (max pollMax 1).toNat 0 0 none

/-- What follows the last poll. -/
def stopAndReport (env : Env) (statusItems : List TaskStatusItem) : Done Unit :=
  if env.stopTask then
    let finalItems :=
      match env.final with
      | none => statusItems
      | some items => if items = [] then statusItems else items
    ⟨[.stop, .status env.final, .output finalItems],
      if env.printOutput then .ok () else .error .output⟩
  else ⟨[.stop], .error .stop⟩

/-- What is done while all sources are locked. -/
def whileLocked (env : Env) (p : Params) : Done Unit :=
  let seen := Event.status env.snapshot
  match env.snapshot with
  | none => ⟨[seen], .error .snapshotFetch⟩
  | some items =>
    match buildLockMasterSnapshots items with
    | .error e => ⟨[seen], .error (.snapshots e)⟩
    | .ok snapshots =>
      let polled := pollUntilCaughtUp env.polls snapshots p.catchupRecheck p.catchupPollMax
      match polled.result with
      | .error e => ⟨seen :: polled.trace, .error e⟩
      | .ok statusItems =>
        let done := stopAndReport env statusItems
        ⟨seen :: polled.trace ++ done.trace, done.result⟩

/-- What is locked is unlocked at the end, in the opposite order. -/
def run (env : Env) (p : Params) : Done Unit :=
  match p.init with
  | .error e => ⟨[], .error e⟩
  | .ok p =>
    let locks := lockSources env p p.sourceEndpoints
    let done : Done Unit :=
      match locks.2 with
      | some ep => ⟨[], .error (.lock ep)⟩
      | none => whileLocked env p
    ⟨locks.1.map .lock ++ done.trace ++ locks.1.reverse.map .unlock, done.result⟩

end Cutover
