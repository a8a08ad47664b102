import BluekingDbm.Library.Regexp
import Mathlib.Data.List.Forall2
import Mathlib.Data.List.Pairwise

/-! Requests on the stored rules of a domain: which rules are created, and which are updated. -/
namespace Partition.Configs

structure CreatePartitionsInput where
  bkBizId : ℤ
  dbAppAbbr : String
  bkBizName : String
  clusterType : String
  immuteDomain : String
  port : ℤ
  bkCloudId : ℤ
  clusterId : ℤ
  dbLikes : List String
  tbLikes : List String
  partitionColumn : String
  partitionColumnType : String
  expireTime : ℤ
  partitionTimeInterval : ℤ
  timeZone : String
  creator : String
  updator : String
  remoteHashAlgorithm : String

/-- A stored rule, less its times. -/
structure PartitionConfig where
  id : ℤ
  bkBizId : ℤ
  dbAppAbbr : String
  bkBizName : String
  immuteDomain : String
  port : ℤ
  bkCloudId : ℤ
  clusterId : ℤ
  dbLike : String
  tbLike : String
  partitionColumn : String
  partitionColumnType : String
  reservedPartition : ℤ
  extraPartition : ℤ
  partitionTimeInterval : ℤ
  partitionType : ℤ
  expireTime : ℤ
  timeZone : String
  phase : String
  creator : String
  updator : String
  deriving DecidableEq

structure ManageLog where
  config : PartitionConfig
  operate : String
  operator : String
  deriving DecidableEq

/-- The tables by their names, each in the order of its primary key. -/
structure Store where
  rows : String → List PartitionConfig
  logs : String → List ManageLog

def extraTime : ℤ := 15

/-- The tables of the rules and of the logs. -/
def tables (clusterType : String) : Option (String × String) :=
  if clusterType.toLower = "tendbha" ∨ clusterType.toLower = "tendbsingle" then
    some ("mysql_partition_config", "mysql_manage_logs")
  else if clusterType.toLower = "tendbcluster" then
    some ("spider_partition_config", "spider_manage_logs")
  else none

/-- What the checks of a request find out. -/
structure Checked where
  tbName : String
  logTbName : String
  reservedPartition : ℤ
  partitionType : ℤ
  deriving DecidableEq

/-- The checks that creating and updating share; the type of the column is the last one. -/
def CreatePartitionsInput.checked (m : CreatePartitionsInput) (dbTypeError : String)
    (columnType : Option ℤ) : Except String Checked :=
  match tables m.clusterType with
  | none => .error dbTypeError
  | some (tbName, logTbName) =>
    if m.partitionColumn.length = 0 then .error "请输入分区字段！"
    else if m.dbLikes.length = 0 ∨ m.tbLikes.length = 0 then .error "库表名不能为空！"
    else if m.partitionTimeInterval < 1 then .error "分区间隔不能小于1"
    else if m.expireTime < m.partitionTimeInterval then .error "过期时间必须不小于分区间隔"
    else if m.expireTime % m.partitionTimeInterval ≠ 0 then
      .error "过期时间必须是分区间隔的整数倍"
    else
      match columnType with
      | none => .error "请选择分区字段类型：datetime、date、timestamp、int、bigint"
      | some partitionType =>
        .ok ⟨tbName, logTbName, m.expireTime / m.partitionTimeInterval, partitionType⟩

def CreatePartitionsInput.createType (m : CreatePartitionsInput) : Option ℤ :=
  if m.partitionColumnType = "datetime" ∨ m.partitionColumnType = "date" then
    if m.remoteHashAlgorithm.toLower = "range" then some 4 else some 0
  else if m.partitionColumnType = "timestamp" then some 5
  else if m.partitionColumnType = "int" ∨ m.partitionColumnType = "bigint" then
    if m.remoteHashAlgorithm.toLower = "list" then some 3 else some 101
  else none

/-- The type that an update takes from the column; it has no algorithm. -/
def CreatePartitionsInput.updateType (m : CreatePartitionsInput) : Option ℤ :=
  if m.partitionColumnType = "datetime" ∨ m.partitionColumnType = "date" then some 0
  else if m.partitionColumnType = "timestamp" then some 5
  else if m.partitionColumnType = "int" ∨ m.partitionColumnType = "bigint" then some 101
  else none

/-- The pairs of patterns, in the order of the two loops. -/
def CreatePartitionsInput.pairs (m : CreatePartitionsInput) : List (String × String) :=
  m.dbLikes.flatMap fun dbLike => m.tbLikes.map fun tbLike => (dbLike, tbLike)

/-- Texts of an error: one of the service's own, or those of the statements that failed. -/
inductive Failure where
  | message (text : String)
  | errors (texts : List String)
  deriving DecidableEq

def Failure.text : Failure → String
  | message text => text
  | errors texts => "errors: " ++ "\n".intercalate texts

/-! Creating. -/

/-- What the service runs on: the expressions, the errors of the database, and its unique key. -/
structure Environment where
  re : Regexp.Engine false
  compileError : String → String
  queryError : ℕ → Option String
  createError : List PartitionConfig → PartitionConfig → Option String
  newId : List PartitionConfig → ℤ
  unique : ∀ rows config, (∃ row ∈ rows, row.bkBizId = config.bkBizId ∧
    row.immuteDomain = config.immuteDomain ∧ row.clusterId = config.clusterId ∧
    row.dbLike = config.dbLike ∧ row.tbLike = config.tbLike) → createError rows config ≠ none

/-- The text of the expression of a pattern. -/
def dbRegexp (db : String) : String :=
  String.ofList ((db.toList ++ ['$']).flatMap fun c => if c = '%' then ['.', '*'] else [c])

def Environment.compile (env : Environment) (db : String) : Except String (String → Bool) :=
  match env.re.compile (dbRegexp db) with
  | none => .error (env.compileError (dbRegexp db))
  | some reg => .ok reg

/-- One of two patterns is found in the text of the other. -/
def Environment.conflicts (env : Environment) (dbi dbj : String) : Except String Bool := do
  let dbiReg ← env.compile dbi
  let dbjReg ← env.compile dbj
  pure (dbiReg dbj || dbjReg dbi)

def Environment.compareWithRest (env : Environment) (dbi : String) :
    List String → Except String (List String)
  | [] => pure []
  | dbj :: dbs => do
    let conflict ← env.conflicts dbi dbj
    let warnings ← env.compareWithRest dbi dbs
    pure (if conflict then
      ("本次提交中，规则" ++ dbi ++ "与规则" ++ dbj ++ "存在冲突，请修改后再次提交！") :: warnings
    else warnings)

def Environment.compareWithSameArray (env : Environment) : List String → Except String (List String)
  | [] => pure []
  | dbi :: dbs => do
    let warnings ← env.compareWithRest dbi dbs
    let others ← env.compareWithSameArray dbs
    pure (warnings ++ others)

def CreatePartitionsInput.InDomain (m : CreatePartitionsInput) (row : PartitionConfig) : Prop :=
  row.bkBizId = m.bkBizId ∧ row.immuteDomain = m.immuteDomain ∧ row.bkCloudId = m.bkCloudId

instance (m : CreatePartitionsInput) (row : PartitionConfig) : Decidable (m.InDomain row) :=
  inferInstanceAs (Decidable (_ ∧ _ ∧ _))

def checkExistRules (env : Environment) (m : CreatePartitionsInput) (rows : List PartitionConfig)
    (query : ℕ) : Except String (List PartitionConfig) :=
  match env.queryError query with
  | some err => .error err
  | none => .ok (rows.filter fun row => m.InDomain row)

def Environment.compareWithRules (env : Environment) (tbLikes : List String) (db : String) :
    List PartitionConfig → Except String (List String)
  | [] => pure []
  | existRule :: rules => do
    let conflict ← env.conflicts db existRule.dbLike
    let warnings ← env.compareWithRules tbLikes db rules
    pure (if conflict then
      ((tbLikes.filter fun tb => tb = existRule.tbLike).map fun tb =>
        "本次提交中，规则" ++ db ++ "." ++ tb ++ "与已有规则" ++ existRule.dbLike ++ "." ++
          existRule.tbLike ++ "存在冲突，请修改后再次提交！") ++ warnings
    else warnings)

/-- The stored rules are read again for each pattern. -/
def compareWithExistDB (env : Environment) (m : CreatePartitionsInput)
    (rows : List PartitionConfig) : ℕ → List String → Except String (List String)
  | _, [] => pure []
  | query, db :: dbs => do
    let existRules ← checkExistRules env m rows query
    let warnings ← env.compareWithRules m.tbLikes db existRules
    let others ← compareWithExistDB env m rows (query + 1) dbs
    pure (warnings ++ others)

def newConfig (m : CreatePartitionsInput) (c : Checked) (id : ℤ) (pair : String × String) :
    PartitionConfig where
  id
  bkBizId := m.bkBizId
  dbAppAbbr := m.dbAppAbbr
  bkBizName := m.bkBizName
  immuteDomain := m.immuteDomain
  port := m.port
  bkCloudId := m.bkCloudId
  clusterId := m.clusterId
  dbLike := pair.1
  tbLike := pair.2
  partitionColumn := m.partitionColumn
  partitionColumnType := m.partitionColumnType
  reservedPartition := c.reservedPartition
  extraPartition := extraTime
  partitionTimeInterval := m.partitionTimeInterval
  partitionType := c.partitionType
  expireTime := m.expireTime
  timeZone := m.timeZone
  phase := "online"
  creator := m.creator
  updator := m.updator

structure Created where
  rows : List PartitionConfig
  logs : List ManageLog
  configIds : List ℤ
  errs : List String

def createOne (env : Environment) (m : CreatePartitionsInput) (c : Checked) (s : Created)
    (pair : String × String) : Created :=
  let config := newConfig m c (env.newId s.rows) pair
  match env.createError s.rows config with
  | some err => { s with errs := s.errs ++ [err] }
  | none =>
    { s with
      rows := s.rows ++ [config]
      logs := s.logs ++ [⟨config, "Insert", m.creator⟩]
      configIds := s.configIds ++ [config.id] }

def createAll (env : Environment) (m : CreatePartitionsInput) (c : Checked) (store : Store) :
    Created :=
  m.pairs.foldl (createOne env m c) ⟨store.rows c.tbName, store.logs c.logTbName, [], []⟩

/-- The warnings on a request that passes the checks. -/
def warnings (env : Environment) (m : CreatePartitionsInput) (rows : List PartitionConfig) :
    Except String (List String) := do
  let warnings1 ← env.compareWithSameArray m.dbLikes
  let warnings2 ← compareWithExistDB env m rows 0 m.dbLikes
  pure (warnings1 ++ warnings2)

/-- What a request leaves, and what it returns. -/
structure Reply where
  store : Store
  err : Option Failure
  configIds : List ℤ

def createPartitionsConfig (env : Environment) (m : CreatePartitionsInput) (store : Store) : Reply :=
  match m.checked "不支持的db类型" m.createType with
  | .error err => ⟨store, some (.message err), []⟩
  | .ok c =>
    match warnings env m (store.rows c.tbName) with
    | .error err => ⟨store, some (.message err), []⟩
    | .ok [] =>
      let s := createAll env m c store
      let store' := ⟨Function.update store.rows c.tbName s.rows,
        Function.update store.logs c.logTbName s.logs⟩
      if s.errs = [] then ⟨store', none, s.configIds⟩ else ⟨store', some (.errors s.errs), []⟩
    | .ok texts => ⟨store, some (.message ("\n".intercalate texts)), []⟩

/-- The tokens of a pattern of `LIKE`. -/
def likeTokens : List Char → List Glob.Token
  | [] => []
  | '\\' :: c :: cs => .lit c :: likeTokens cs
  | '%' :: cs => .many :: likeTokens cs
  | '_' :: cs => .one :: likeTokens cs
  | c :: cs => .lit c :: likeTokens cs

/-- `name LIKE pattern`, letters by their case. -/
def Like (pattern name : String) : Prop :=
  Glob.matchesAll (likeTokens pattern.toList) name.toList = true

instance (pattern name : String) : Decidable (Like pattern name) :=
  inferInstanceAs (Decidable (_ = _))

/-- A pattern in which only `%` has a meaning of its own, in `LIKE` and in an expression. -/
def Plain (pattern : String) : Prop :=
  ∀ c ∈ pattern.toList, c ∉ Regexp.metachars ∧ c ≠ '_' ∧ c ≠ '\n'

/-- A pattern that `LIKE` matches with its own text. -/
def Readable (pattern : String) : Prop := ∀ c ∈ pattern.toList, c ≠ '\\' ∧ c ≠ '\n'

/-- A plain pattern does not cover the other one: a name falls under the other only. -/
def Uncovered (a b : String) : Prop :=
  Plain a → Readable b → ∃ name, Like b name ∧ ¬ Like a name

/-- No pattern covers the other one, and a pattern without `%` shares no name with the other. -/
structure Apart (a b : String) : Prop where
  left : Uncovered a b
  right : Uncovered b a
  unshared : Plain a → Plain b → '%' ∉ a.toList ∨ '%' ∉ b.toList →
    ¬ ∃ name, Like a name ∧ Like b name

section

variable {env : Environment} {m : CreatePartitionsInput} {c : Checked} {store : Store}
  {rows : List PartitionConfig} {a b db dbi : String} {dbs texts : List String} {query : ℕ}
  {s : Created} {pair : String × String} {pairs : List (String × String)}

/-- What is not special in an expression is read as it stands. -/
def patternTokens (pattern : String) : List Glob.Token :=
  pattern.toList.map fun c => if c = '%' then .many else .lit c

theorem dbRegexp_eq (ha : Plain a) :
    dbRegexp a = String.ofList ((patternTokens a).flatMap Glob.Token.text ++ ['$']) := by
  unfold dbRegexp patternTokens
  rw [List.flatMap_append, List.flatMap_map]
  congr 2
  apply List.flatMap_congr
  intro c hc
  by_cases hwild : c = '%'
  · simp [hwild, Glob.Token.text]
  · simp [hwild, Glob.Token.text, (ha c hc).1]

theorem likeTokens_eq (ha : Plain a) : likeTokens a.toList = patternTokens a := by
  unfold patternTokens
  have ha' := ha
  unfold Plain at ha'
  clear ha
  generalize a.toList = cs at ha'
  induction cs with
  | nil => rfl
  | cons c cs ih =>
    obtain ⟨hc, hcs⟩ := List.forall_mem_cons.mp ha'
    have hslash : c ≠ '\\' := by
      rintro rfl
      exact hc.1 (by decide)
    rw [List.map_cons, ← ih hcs]
    by_cases hwild : c = '%'
    · rw [if_pos hwild, hwild]
      rfl
    · rw [if_neg hwild, likeTokens]
      · exact fun _ _ h => absurd h hslash
      · exact hwild
      · exact hc.2.1

/-- A readable pattern matches its own text. -/
theorem like_self (hb : Readable b) : Like b b := by
  unfold Like
  unfold Readable at hb
  generalize b.toList = cs at hb
  induction cs with
  | nil => rfl
  | cons c cs ih =>
    obtain ⟨hc, hcs⟩ := List.forall_mem_cons.mp hb
    by_cases hwild : c = '%'
    · rw [hwild, likeTokens]
      exact Glob.matchesAll_many.mpr ⟨['%'], cs, rfl, ih hcs⟩
    · by_cases hone : c = '_'
      · rw [hone, likeTokens]
        exact Glob.matchesAll_one.mpr ⟨'_', cs, rfl, ih hcs⟩
      · rw [likeTokens]
        · exact Glob.matchesAll_lit.mpr ⟨cs, rfl, ih hcs⟩
        · exact fun _ _ h => absurd h hc.1
        · exact hwild
        · exact hone

theorem bind_eq_ok {α β : Type} {x : Except String α} {f : α → Except String β} {r : β}
    (h : (x >>= f) = .ok r) : ∃ v, x = .ok v ∧ f v = .ok r := by
  cases x with
  | error err => cases h
  | ok v => exact ⟨v, rfl, h⟩

/-- The expression of a plain pattern is found where `LIKE` matches. -/
theorem found_of_like {run : String → Bool} (hrun : env.compile a = .ok run) (ha : Plain a)
    (hb : Readable b) (h : Like a b) : run b = true := by
  obtain ⟨run', hcompile, hagrees⟩ := env.re.agrees (dbRegexp a) _
    ((congrArg (Regexp.compile false) (dbRegexp_eq ha)).trans Glob.compile_text_eot)
  obtain rfl : run' = run := by simpa [Environment.compile, hcompile] using hrun
  have hline : '\n' ∉ b.toList := fun hn => (hb '\n' hn).2 rfl
  rw [hagrees b fun _ => hline]
  refine (Glob.matchString_text_eot hline).mpr ⟨b.toList, List.suffix_rfl, ?_⟩
  rw [← likeTokens_eq ha]
  exact h

theorem Plain.readable (ha : Plain a) : Readable a := by
  intro c hc
  refine ⟨?_, (ha c hc).2.2⟩
  rintro rfl
  exact (ha _ hc).1 (by decide)

/-- A plain pattern without `%` matches one name. -/
theorem eq_of_like {name : String} (ha : Plain a) (hwild : '%' ∉ a.toList) (h : Like a name) :
    name = a := by
  apply String.toList_injective
  unfold Like at h
  rw [likeTokens_eq ha, patternTokens] at h
  clear ha
  generalize a.toList = cs at h hwild
  generalize name.toList = ds at h
  induction cs generalizing ds with
  | nil => exact Glob.matchesAll_nil.mp h
  | cons c cs ih =>
    obtain ⟨hc, hcs⟩ := not_or.mp (mt List.mem_cons.mpr hwild)
    rw [List.map_cons, if_neg (Ne.symm hc)] at h
    obtain ⟨rest, rfl, hrest⟩ := Glob.matchesAll_lit.mp h
    rw [ih hcs rest hrest]

theorem unshared_of_uncovered (h : Uncovered b a) (ha : Plain a) (hb : Plain b)
    (hwild : '%' ∉ a.toList) : ¬ ∃ name, Like a name ∧ Like b name := by
  rintro ⟨name, hname, hother⟩
  obtain ⟨name', hname', hnot⟩ := h hb ha.readable
  obtain rfl := eq_of_like ha hwild hname
  obtain rfl := eq_of_like ha hwild hname'
  exact hnot hother

theorem apart_of_conflicts (h : env.conflicts a b = .ok false) : Apart a b := by
  obtain ⟨dbiReg, hdbi, h⟩ := bind_eq_ok h
  obtain ⟨dbjReg, hdbj, h⟩ := bind_eq_ok h
  obtain ⟨hb, ha⟩ : dbiReg b = false ∧ dbjReg a = false := by
    simpa [Pure.pure, Except.pure] using h
  have hleft : Uncovered a b := by
    intro hplain hread
    refine ⟨b, like_self hread, fun hlike => ?_⟩
    rw [found_of_like hdbi hplain hread hlike] at hb
    cases hb
  have hright : Uncovered b a := by
    intro hplain hread
    refine ⟨a, like_self hread, fun hlike => ?_⟩
    rw [found_of_like hdbj hplain hread hlike] at ha
    cases ha
  refine ⟨hleft, hright, fun hplainA hplainB hwild => ?_⟩
  rcases hwild with hwild | hwild
  · exact unshared_of_uncovered hright hplainA hplainB hwild
  · rintro ⟨name, hname, hother⟩
    exact unshared_of_uncovered hleft hplainB hplainA hwild ⟨name, hother, hname⟩

theorem Apart.symm (h : Apart a b) : Apart b a := by
  refine ⟨h.right, h.left, fun hb ha hwild => ?_⟩
  rintro ⟨name, hname, hother⟩
  exact h.unshared ha hb hwild.symm ⟨name, hother, hname⟩

theorem compareWithRest_nil (h : env.compareWithRest dbi dbs = .ok []) :
    ∀ dbj ∈ dbs, env.conflicts dbi dbj = .ok false := by
  induction dbs with
  | nil => exact fun _ h => absurd h List.not_mem_nil
  | cons dbj dbs ih =>
    obtain ⟨conflict, hconflict, h⟩ := bind_eq_ok h
    obtain ⟨rest, hrest, h⟩ := bind_eq_ok h
    cases conflict with
    | true => cases h
    | false =>
      obtain rfl : rest = [] := Except.ok.inj h
      exact List.forall_mem_cons.mpr ⟨hconflict, ih hrest⟩

theorem compareWithSameArray_nil (h : env.compareWithSameArray dbs = .ok []) :
    dbs.Pairwise fun dbi dbj => env.conflicts dbi dbj = .ok false := by
  induction dbs with
  | nil => exact List.Pairwise.nil
  | cons dbi dbs ih =>
    obtain ⟨first, hfirst, h⟩ := bind_eq_ok h
    obtain ⟨others, hothers, h⟩ := bind_eq_ok h
    obtain ⟨rfl, rfl⟩ := List.append_eq_nil_iff.mp (Except.ok.inj h)
    exact List.pairwise_cons.mpr ⟨compareWithRest_nil hfirst, ih hothers⟩

theorem compareWithRules_nil {tbLikes : List String}
    (h : env.compareWithRules tbLikes db rows = .ok []) :
    ∀ row ∈ rows, row.tbLike ∈ tbLikes → env.conflicts db row.dbLike = .ok false := by
  induction rows with
  | nil => exact fun _ h => absurd h List.not_mem_nil
  | cons row rows ih =>
    obtain ⟨conflict, hconflict, h⟩ := bind_eq_ok h
    obtain ⟨rest, hrest, h⟩ := bind_eq_ok h
    refine List.forall_mem_cons.mpr ⟨fun htb => ?_, ih ?_⟩
    · cases conflict with
      | false => exact hconflict
      | true =>
        obtain ⟨hnone, -⟩ := List.append_eq_nil_iff.mp (Except.ok.inj h)
        have hmem : row.tbLike ∈ tbLikes.filter fun tb => tb = row.tbLike :=
          List.mem_filter.mpr ⟨htb, decide_eq_true rfl⟩
        rw [List.map_eq_nil_iff.mp hnone] at hmem
        cases hmem
    · cases conflict with
      | false => exact hrest.trans h
      | true =>
        obtain ⟨-, rfl⟩ := List.append_eq_nil_iff.mp (Except.ok.inj h)
        exact hrest

theorem compareWithExistDB_nil (h : compareWithExistDB env m rows query dbs = .ok []) :
    ∀ db ∈ dbs, ∀ row ∈ rows, m.InDomain row → row.tbLike ∈ m.tbLikes →
      env.conflicts db row.dbLike = .ok false := by
  induction dbs generalizing query with
  | nil => exact fun _ h => absurd h List.not_mem_nil
  | cons db dbs ih =>
    obtain ⟨existRules, hrules, h⟩ := bind_eq_ok h
    obtain ⟨first, hfirst, h⟩ := bind_eq_ok h
    obtain ⟨others, hothers, h⟩ := bind_eq_ok h
    obtain ⟨rfl, rfl⟩ := List.append_eq_nil_iff.mp (Except.ok.inj h)
    refine List.forall_mem_cons.mpr ⟨fun row hrow hdomain => ?_, ih hothers⟩
    unfold checkExistRules at hrules
    split at hrules
    · cases hrules
    · obtain rfl := Except.ok.inj hrules
      exact compareWithRules_nil hfirst row
        (List.mem_filter.mpr ⟨hrow, decide_eq_true hdomain⟩)

/-- A pair whose rule is stored is not inserted again. -/
theorem createAll_errs (h : (pairs.foldl (createOne env m c) s).errs = []) :
    s.errs = [] ∧ pairs.Nodup ∧ ∀ pair ∈ pairs, ∀ row ∈ s.rows, row.bkBizId = m.bkBizId →
      row.immuteDomain = m.immuteDomain → row.clusterId = m.clusterId →
      (row.dbLike, row.tbLike) ≠ pair := by
  induction pairs generalizing s with
  | nil => exact ⟨h, List.nodup_nil, fun _ h => absurd h List.not_mem_nil⟩
  | cons pair pairs ih =>
    obtain ⟨herrs, hnodup, hnew⟩ := ih h
    unfold createOne at herrs hnew
    cases hcreate : env.createError s.rows (newConfig m c (env.newId s.rows) pair) with
    | some err =>
      simp [hcreate] at herrs
    | none =>
      simp only [hcreate] at herrs hnew
      refine ⟨herrs, List.nodup_cons.mpr ⟨fun hpair => ?_, hnodup⟩, ?_⟩
      · exact hnew pair hpair _ (List.mem_append_right _ (List.mem_singleton_self _)) rfl rfl rfl rfl
      · refine List.forall_mem_cons.mpr ⟨?_, ?_⟩
        · rintro row hrow hbiz hdomain hcluster rfl
          refine env.unique _ _ ?_ hcreate
          exact ⟨row, hrow, hbiz, hdomain, hcluster, rfl, rfl⟩
        · exact fun pair hpair row hrow => hnew pair hpair row (List.mem_append_left _ hrow)

/-- What is known of a request that is accepted. -/
theorem accepted_cases (h : (createPartitionsConfig env m store).err = none) :
    ∃ c, m.checked "不支持的db类型" m.createType = .ok c ∧
      env.compareWithSameArray m.dbLikes = .ok [] ∧
      compareWithExistDB env m (store.rows c.tbName) 0 m.dbLikes = .ok [] ∧ m.pairs.Nodup := by
  unfold createPartitionsConfig at h
  cases hchecked : m.checked "不支持的db类型" m.createType with
  | error err => simp [hchecked] at h
  | ok c =>
    simp only [hchecked] at h
    cases hwarnings : warnings env m (store.rows c.tbName) with
    | error err => simp [hwarnings] at h
    | ok texts =>
      cases texts with
      | cons text texts => simp [hwarnings] at h
      | nil =>
        simp only [hwarnings] at h
        obtain ⟨warnings1, hsame, hwarnings⟩ := bind_eq_ok hwarnings
        obtain ⟨warnings2, hexist, hwarnings⟩ := bind_eq_ok hwarnings
        obtain ⟨rfl, rfl⟩ := List.append_eq_nil_iff.mp (Except.ok.inj hwarnings)
        refine ⟨c, rfl, hsame, hexist, ?_⟩
        by_cases herrs : (createAll env m c store).errs = []
        · exact (createAll_errs herrs).2.1
        · simp [herrs] at h

instance : Std.Symm Apart where
  symm _ _ := Apart.symm

theorem tbName_of_checked {dbTypeError : String} {columnType : Option ℤ} {names : String × String}
    (h : m.checked dbTypeError columnType = .ok c) (htables : tables m.clusterType = some names) :
    c.tbName = names.1 ∧ c.logTbName = names.2 := by
  unfold CreatePartitionsInput.checked at h
  rw [htables] at h
  dsimp only at h
  split_ifs at h
  cases columnType with
  | none => cases h
  | some partitionType =>
    obtain rfl := Except.ok.inj h
    exact ⟨rfl, rfl⟩

/-- Of two rules with one table pattern, at least one of them new in an accepted request, and of two
new rules with different database patterns, no database pattern covers the other. -/
theorem accepted_apart {names : String × String}
    (h : (createPartitionsConfig env m store).err = none)
    (htables : tables m.clusterType = some names) :
    (m.pairs.Pairwise fun a b => a.1 ≠ b.1 ∨ a.2 = b.2 → Apart a.1 b.1) ∧
      ∀ a ∈ m.pairs, ∀ row ∈ store.rows names.1, m.InDomain row → a.2 = row.tbLike →
        Apart a.1 row.dbLike := by
  obtain ⟨c, hchecked, hsame, hexist, hnodup⟩ := accepted_cases h
  obtain ⟨hname, -⟩ := tbName_of_checked hchecked htables
  have hpairs : ∀ a ∈ m.pairs, a.1 ∈ m.dbLikes ∧ a.2 ∈ m.tbLikes := by
    intro a ha
    obtain ⟨db, hdb, ha⟩ := List.mem_flatMap.mp ha
    obtain ⟨tb, htb, rfl⟩ := List.mem_map.mp ha
    exact ⟨hdb, htb⟩
  constructor
  · have happart : m.dbLikes.Pairwise Apart :=
      (compareWithSameArray_nil hsame).imp apart_of_conflicts
    refine List.Pairwise.imp_of_mem (fun {a b} ha hb hne hcase => ?_) hnodup
    have hdiff : a.1 ≠ b.1 := by
      rcases hcase with hdiff | htb
      · exact hdiff
      · exact fun hdb => hne (Prod.ext hdb htb)
    exact happart.forall (hpairs a ha).1 (hpairs b hb).1 hdiff
  · intro a ha row hrow hdomain htb
    obtain ⟨hdb, hmem⟩ := hpairs a ha
    rw [hname] at hexist
    exact apart_of_conflicts
      (compareWithExistDB_nil hexist a.1 hdb row hrow hdomain (htb ▸ hmem))

end

/-- A service whose database fails on no statement but on one that its unique key refuses. -/
def sampleEnvironment : Environment where
  re := Regexp.engine false
  compileError pattern := "error parsing regexp: " ++ pattern
  queryError _ := none
  createError rows config :=
    if ∃ row ∈ rows, row.bkBizId = config.bkBizId ∧ row.immuteDomain = config.immuteDomain ∧
      row.clusterId = config.clusterId ∧ row.dbLike = config.dbLike ∧ row.tbLike = config.tbLike then
      some "Error 1062 (23000): Duplicate entry"
    else none
  newId rows := rows.length + 1
  unique rows config h := by
    rw [if_pos h]
    exact Option.some_ne_none _

/-- A request with one table pattern. -/
def sampleInput (dbLikes : List String) (tbLike partitionColumnType : String) :
    CreatePartitionsInput where
  bkBizId := 3
  dbAppAbbr := "app"
  bkBizName := "app"
  clusterType := "tendbha"
  immuteDomain := "db.app"
  port := 20000
  bkCloudId := 0
  clusterId := 7
  dbLikes
  tbLikes := [tbLike]
  partitionColumn := "created"
  partitionColumnType
  expireTime := 30
  partitionTimeInterval := 1
  timeZone := "+08:00"
  creator := "admin"
  updator := "admin"
  remoteHashAlgorithm := ""

def emptyStore : Store := ⟨fun _ => [], fun _ => []⟩

theorem accepted_apart_sample :
    ((sampleInput ["a%", "b%"] "t" "date").pairs.Pairwise fun a b =>
      a.1 ≠ b.1 ∨ a.2 = b.2 → Apart a.1 b.1) ∧
    ∀ a ∈ (sampleInput ["a%", "b%"] "t" "date").pairs,
      ∀ row ∈ emptyStore.rows "mysql_partition_config",
        (sampleInput ["a%", "b%"] "t" "date").InDomain row → a.2 = row.tbLike →
          Apart a.1 row.dbLike :=
  @accepted_apart sampleEnvironment (sampleInput ["a%", "b%"] "t" "date") emptyStore
    ("mysql_partition_config", "mysql_manage_logs") (by decide +kernel) (by decide +kernel)

/-- Two new rules that overlap: neither is found in the other, and some table falls under both. -/
theorem accepted_overlap :
    (createPartitionsConfig sampleEnvironment (sampleInput ["a%", "%b"] "t" "date") emptyStore).err =
      none ∧
    (sampleInput ["a%", "%b"] "t" "date").pairs = [("a%", "t"), ("%b", "t")] ∧
    Like "a%" "ab" ∧ Like "%b" "ab" ∧ Like "t" "t" := by
  decide +kernel

/-! Updating. -/

structure Progress where
  rows : List PartitionConfig
  logs : List ManageLog
  /-- The rules that statements have set, by their ids. -/
  written : List ℤ
  errs : List String
  partitionType : ℤ

namespace CreatePartitionsInput

/-- The row that is looked up; conditions on zero values are left out. -/
def Query (m : CreatePartitionsInput) (pair : String × String) (row : PartitionConfig) : Prop :=
  (m.bkBizId = 0 ∨ row.bkBizId = m.bkBizId) ∧
    (m.immuteDomain = "" ∨ row.immuteDomain = m.immuteDomain) ∧
    (pair.1 = "" ∨ row.dbLike = pair.1) ∧ (pair.2 = "" ∨ row.tbLike = pair.2)

/-- The rows that are set. -/
def Names (m : CreatePartitionsInput) (pair : String × String) (row : PartitionConfig) : Prop :=
  row.bkBizId = m.bkBizId ∧ row.immuteDomain = m.immuteDomain ∧ row.dbLike = pair.1 ∧
    row.tbLike = pair.2

instance (m : CreatePartitionsInput) (pair : String × String) (row : PartitionConfig) :
    Decidable (m.Query pair row) :=
  inferInstanceAs (Decidable (_ ∧ _ ∧ _ ∧ _))

instance (m : CreatePartitionsInput) (pair : String × String) (row : PartitionConfig) :
    Decidable (m.Names pair row) :=
  inferInstanceAs (Decidable (_ ∧ _ ∧ _ ∧ _))

/-- The query as it is printed. -/
def queryText (m : CreatePartitionsInput) (pair : String × String) : String :=
  "\x7bBkBizId:" ++ toString m.bkBizId ++ " ImmuteDomain:" ++ m.immuteDomain ++ " DbLike:" ++
    pair.1 ++ " TbLike:" ++ pair.2 ++ "\x7d"

end CreatePartitionsInput

/-- The types that are not on the page. -/
def Special (partitionType : ℤ) : Prop := partitionType ∈ [1, 3, 4]

instance (partitionType : ℤ) : Decidable (Special partitionType) :=
  inferInstanceAs (Decidable (_ ∈ _))

def specialText : String := "非标准分区类型，不可修改分区字段和分区字段类型！"

/-- The request is to change the column of a special rule. -/
def CreatePartitionsInput.Refuses (m : CreatePartitionsInput) (row : PartitionConfig) : Prop :=
  Special row.partitionType ∧ (m.partitionColumn ≠ row.partitionColumn ∨
    m.partitionColumnType ≠ row.partitionColumnType)

instance (m : CreatePartitionsInput) (row : PartitionConfig) : Decidable (m.Refuses row) :=
  inferInstanceAs (Decidable (_ ∧ _))

def updated (m : CreatePartitionsInput) (c : Checked) (partitionType : ℤ) (row : PartitionConfig) :
    PartitionConfig :=
  { row with
    partitionColumn := m.partitionColumn
    partitionColumnType := m.partitionColumnType
    reservedPartition := c.reservedPartition
    extraPartition := extraTime
    partitionTimeInterval := m.partitionTimeInterval
    partitionType
    expireTime := m.expireTime
    updator := m.updator }

/-- The type that is written for a special rule is kept for the pairs behind it. -/
def updateOne (m : CreatePartitionsInput) (c : Checked) (s : Progress) (pair : String × String) :
    Progress × Option Failure :=
  match s.rows.find? fun row => m.Query pair row with
  | none =>
    ({ s with errs := s.errs ++ ["query:" ++ m.queryText pair ++ " err:record not found"] }, none)
  | some config =>
    let logs := s.logs ++ [⟨config, "Update", m.updator⟩]
    if m.Refuses config then ({ s with logs }, some (.message specialText))
    else
      let partitionType :=
        if Special config.partitionType then config.partitionType else s.partitionType
      ({ s with
        rows := s.rows.map fun row =>
          if m.Names pair row then updated m c partitionType row else row
        logs
        written := s.written ++ (s.rows.filter fun row => m.Names pair row).map (·.id)
        partitionType }, none)

def updateAll (m : CreatePartitionsInput) (c : Checked) :
    Progress → List (String × String) → Progress × Option Failure
  | s, [] => (s, none)
  | s, pair :: pairs =>
    match updateOne m c s pair with
    | (s, some err) => (s, some err)
    | (s, none) => updateAll m c s pairs

structure Updated where
  store : Store
  written : List ℤ
  err : Option Failure

def updateLoops (m : CreatePartitionsInput) (c : Checked) (store : Store) :
    Progress × Option Failure :=
  updateAll m c ⟨store.rows c.tbName, store.logs c.logTbName, [], [], c.partitionType⟩ m.pairs

def updatePartitionsConfig (m : CreatePartitionsInput) (store : Store) : Updated :=
  match m.checked "错误的db类型" m.updateType with
  | .error err => ⟨store, [], some (.message err)⟩
  | .ok c =>
    let (s, err) := updateLoops m c store
    ⟨⟨Function.update store.rows c.tbName s.rows, Function.update store.logs c.logTbName s.logs⟩,
      s.written, err.or (if s.errs = [] then none else some (.errors s.errs))⟩

namespace CreatePartitionsInput

/-- What callers send: a business, a domain and patterns that are not empty. -/
def Complete (m : CreatePartitionsInput) : Prop :=
  m.bkBizId ≠ 0 ∧ m.immuteDomain ≠ "" ∧ "" ∉ m.dbLikes ∧ "" ∉ m.tbLikes

/-- The first rule of a pair. -/
def rule (m : CreatePartitionsInput) (rows : List PartitionConfig) (pair : String × String) :
    Option PartitionConfig :=
  rows.find? fun row => m.Names pair row

/-- The rules that the pairs find, in the order of the loops. -/
def found (m : CreatePartitionsInput) (rows : List PartitionConfig) : List PartitionConfig :=
  m.pairs.filterMap (m.rule rows)

end CreatePartitionsInput

/-- The type that a rule is to have: a special one its own, any other what the column implies. -/
def ownType (implied : ℤ) (row : PartitionConfig) : ℤ :=
  if Special row.partitionType then row.partitionType else implied

/-- Every rule that a pair names gets its own type, and a refused request sets none. -/
structure Independent (m : CreatePartitionsInput) (c : Checked) (rows : List PartitionConfig)
    (r : Updated) : Prop where
  types : r.err ≠ some (.message specialText) →
    rows.Forall₂ (fun row row' => (∃ pair ∈ m.pairs, m.Names pair row) →
      row'.partitionType = ownType c.partitionType row) (r.store.rows c.tbName)
  refusal : r.err = some (.message specialText) → r.written = []

/-- The first rule that is found is refused; or none is, no other rule comes behind a special one,
and rules of one pair are to have the same type. -/
def Untangled (m : CreatePartitionsInput) (implied : ℤ) (rows : List PartitionConfig) : Prop :=
  (∃ row, (m.found rows).head? = some row ∧ m.Refuses row) ∨
    (∀ row ∈ m.found rows, ¬ m.Refuses row) ∧
    ((m.found rows).Pairwise fun a b => Special a.partitionType → Special b.partitionType) ∧
    ∀ pair ∈ m.pairs, ∀ a ∈ rows, ∀ b ∈ rows, m.Names pair a → m.Names pair b →
      ownType implied a = ownType implied b

section

variable {m : CreatePartitionsInput} {c : Checked} {store : Store} {rows : List PartitionConfig}
  {pair other : String × String} {pairs done : List (String × String)} {s s' : Progress}
  {row first : PartitionConfig} {g : PartitionConfig → PartitionConfig} {err : Failure}

/-- A pair that finds a special rule. -/
def FindsSpecial (m : CreatePartitionsInput) (rows : List PartitionConfig)
    (pair : String × String) : Prop :=
  ∃ first, m.rule rows pair = some first ∧ Special first.partitionType

/-- A pair behind one that finds a special rule. -/
def Leaked (m : CreatePartitionsInput) (rows : List PartitionConfig)
    (done : List (String × String)) (pair : String × String) : Prop :=
  ∃ other, [other, pair].Sublist done ∧ FindsSpecial m rows other

/-- Where the loops are behind some pairs, each stored rule having become its image. -/
structure Progressed (m : CreatePartitionsInput) (c : Checked) (rows : List PartitionConfig)
    (done : List (String × String)) (s : Progress) (g : PartitionConfig → PartitionConfig) :
    Prop where
  image : s.rows = rows.map g
  names : ∀ pair row, m.Names pair (g row) ↔ m.Names pair row
  untouched : ∀ row, (∀ pair ∈ done, ¬ m.Names pair row) → g row = row
  column : ∀ row, ∀ pair ∈ done, m.rule rows pair ≠ none → m.Names pair row →
    (g row).partitionColumn = m.partitionColumn ∧
      (g row).partitionColumnType = m.partitionColumnType
  special : ∀ row, ∀ pair ∈ done, ∀ first, m.rule rows pair = some first → m.Names pair row →
    Special first.partitionType → (g row).partitionType = first.partitionType
  leaked : ∀ row, ∀ pair ∈ done, ∀ first, m.rule rows pair = some first → m.Names pair row →
    ¬ Special first.partitionType → Leaked m rows done pair → Special (g row).partitionType
  implied : ∀ row, ∀ pair ∈ done, ∀ first, m.rule rows pair = some first → m.Names pair row →
    ¬ Special first.partitionType → ¬ Leaked m rows done pair →
      (g row).partitionType = c.partitionType
  carriedSpecial : (∃ pair ∈ done, FindsSpecial m rows pair) → Special s.partitionType
  carriedImplied : (¬ ∃ pair ∈ done, FindsSpecial m rows pair) → s.partitionType = c.partitionType
  written : s.written = [] ↔ ∀ pair ∈ done, m.rule rows pair = none

theorem names_unique (h : m.Names pair row) (hother : m.Names other row) : other = pair := by
  obtain ⟨-, -, hdb, htb⟩ := h
  obtain ⟨-, -, hdb', htb'⟩ := hother
  exact Prod.ext (hdb'.symm.trans hdb) (htb'.symm.trans htb)

theorem query_iff (hm : m.Complete) (hpair : pair ∈ m.pairs) :
    m.Query pair row ↔ m.Names pair row := by
  obtain ⟨hbiz, hdomain, hdbs, htbs⟩ := hm
  obtain ⟨db, hdb, hpair⟩ := List.mem_flatMap.mp hpair
  obtain ⟨tb, htb, rfl⟩ := List.mem_map.mp hpair
  have hdb' : db ≠ "" := fun heq => hdbs (heq ▸ hdb)
  have htb' : tb ≠ "" := fun heq => htbs (heq ▸ htb)
  simp [CreatePartitionsInput.Query, CreatePartitionsInput.Names, hbiz, hdomain, hdb', htb']

theorem rule_cases (h : m.rule rows pair = some first) : first ∈ rows ∧ m.Names pair first := by
  unfold CreatePartitionsInput.rule at h
  have hnames := List.find?_some h
  exact ⟨List.mem_of_find?_eq_some h, of_decide_eq_true hnames⟩

theorem rule_ne_none (hrow : row ∈ rows) (h : m.Names pair row) : m.rule rows pair ≠ none := by
  intro hnone
  exact List.find?_eq_none.mp hnone row hrow (decide_eq_true h)

theorem leaked_append : Leaked m rows (done ++ [pair]) other ↔
    Leaked m rows done other ∨ other = pair ∧ ∃ o ∈ done, FindsSpecial m rows o := by
  constructor
  · rintro ⟨o, hsub, ho⟩
    obtain ⟨front, back, heq, hfront, hback⟩ := List.sublist_append_iff.mp hsub
    rcases List.sublist_singleton.mp hback with rfl | rfl
    · rw [List.append_nil] at heq
      exact Or.inl ⟨o, heq ▸ hfront, ho⟩
    · obtain ⟨hfront', hlast⟩ := List.append_inj' (show [o] ++ [other] = front ++ [pair] from heq) rfl
      obtain rfl : other = pair := List.singleton_inj.mp hlast
      exact Or.inr ⟨rfl, o, List.singleton_sublist.mp (hfront' ▸ hfront), ho⟩
  · rintro (⟨o, hsub, ho⟩ | ⟨rfl, o, hmem, ho⟩)
    · exact ⟨o, hsub.trans (List.sublist_append_left done [pair]), ho⟩
    · exact ⟨o, (List.singleton_sublist.mpr hmem).append (List.Sublist.refl [other]), ho⟩

theorem Progressed.lookup (h : Progressed m c rows done s g) :
    (s.rows.find? fun row => m.Names pair row) = (m.rule rows pair).map g := by
  rw [h.image, List.find?_map]
  congr 2
  funext row
  exact decide_eq_decide.mpr (h.names pair row)

/-- A rule that is refused when its pair comes is one that the request refuses as it is stored. -/
theorem Progressed.refuses_iff (h : Progressed m c rows done s g)
    (hdone : ∀ pair ∈ done, ∀ row, m.rule rows pair = some row → ¬ m.Refuses row)
    (hfirst : m.rule rows pair = some first) : m.Refuses (g first) ↔ m.Refuses first := by
  obtain ⟨-, hnames⟩ := rule_cases hfirst
  by_cases hpair : pair ∈ done
  · obtain ⟨hcolumn, htype⟩ := h.column first pair hpair (by simp [hfirst]) hnames
    constructor
    · rintro ⟨-, hdiff | hdiff⟩
      · exact absurd hcolumn.symm hdiff
      · exact absurd htype.symm hdiff
    · exact fun hrefuses => absurd hrefuses (hdone pair hpair first hfirst)
  · rw [h.untouched first fun other hother hnames' =>
      hpair (names_unique hnames hnames' ▸ hother)]

theorem special_image (h : Progressed m c rows done s g) (hc : ¬ Special c.partitionType)
    (hfirst : m.rule rows pair = some first) :
    (Special first.partitionType → (g first).partitionType = first.partitionType) ∧
      (¬ Special first.partitionType → Special (g first).partitionType →
        ∃ other ∈ done, FindsSpecial m rows other) := by
  obtain ⟨-, hnames⟩ := rule_cases hfirst
  by_cases hpair : pair ∈ done
  · refine ⟨h.special first pair hpair first hfirst hnames, fun hnormal hspecial => ?_⟩
    by_contra hnone
    refine hc ?_
    rw [← h.implied first pair hpair first hfirst hnames hnormal]
    · exact hspecial
    · rintro ⟨other, hsub, hother⟩
      exact hnone ⟨other, hsub.subset List.mem_cons_self, hother⟩
  · rw [h.untouched first fun other hother hnames' =>
      hpair (names_unique hnames hnames' ▸ hother)]
    exact ⟨fun _ => rfl, fun hnormal hspecial => absurd hspecial hnormal⟩

/-- A pair that finds no rule changes nothing. -/
theorem progressed_none (h : Progressed m c rows done s g) (hnone : m.rule rows pair = none)
    (hrows : s'.rows = s.rows) (hwritten : s'.written = s.written)
    (htype : s'.partitionType = s.partitionType) : Progressed m c rows (done ++ [pair]) s' g := by
  have hmem : ∀ other ∈ done ++ [pair], m.rule rows other ≠ none → other ∈ done ∧ other ≠ pair := by
    intro other hother hrule
    have hne : other ≠ pair := by
      rintro rfl
      exact hrule hnone
    exact ⟨(List.mem_append.mp hother).resolve_right fun hmem =>
      hne (List.mem_singleton.mp hmem), hne⟩
  have hfinds : (∃ other ∈ done ++ [pair], FindsSpecial m rows other) ↔
      ∃ other ∈ done, FindsSpecial m rows other := by
    constructor
    · rintro ⟨other, hother, first, hfirst, hspecial⟩
      exact ⟨other, (hmem other hother (by simp [hfirst])).1, first, hfirst, hspecial⟩
    · rintro ⟨other, hother, hfinds⟩
      exact ⟨other, List.mem_append_left [pair] hother, hfinds⟩
  have hleaked : ∀ other, other ≠ pair →
      (Leaked m rows (done ++ [pair]) other ↔ Leaked m rows done other) := by
    intro other hne
    rw [leaked_append]
    exact or_iff_left fun hboth => hne hboth.1
  constructor
  case image => exact hrows.trans h.image
  case names => exact h.names
  case untouched =>
    exact fun row hrow => h.untouched row fun other hother =>
      hrow other (List.mem_append_left [pair] hother)
  case column =>
    exact fun row other hother hrule => h.column row other (hmem other hother hrule).1 hrule
  case special =>
    intro row other hother first hfirst
    exact h.special row other (hmem other hother (by simp [hfirst])).1 first hfirst
  case leaked =>
    intro row other hother first hfirst hnames hnormal hleak
    obtain ⟨hin, hne⟩ := hmem other hother (by simp [hfirst])
    exact h.leaked row other hin first hfirst hnames hnormal ((hleaked other hne).mp hleak)
  case implied =>
    intro row other hother first hfirst hnames hnormal hleak
    obtain ⟨hin, hne⟩ := hmem other hother (by simp [hfirst])
    exact h.implied row other hin first hfirst hnames hnormal
      fun hleak' => hleak ((hleaked other hne).mpr hleak')
  case carriedSpecial =>
    rw [hfinds, htype]
    exact h.carriedSpecial
  case carriedImplied =>
    rw [hfinds, htype]
    exact h.carriedImplied
  case written =>
    rw [hwritten, h.written]
    refine ⟨fun hall => ?_, fun hall other hin => hall other (List.mem_append_left [pair] hin)⟩
    exact List.forall_mem_append.mpr ⟨hall, List.forall_mem_singleton.mpr hnone⟩

/-- The rules of a pair that finds one are set. -/
theorem progressed_some (h : Progressed m c rows done s g) (hc : ¬ Special c.partitionType)
    (hfirst : m.rule rows pair = some first) (hrows : s'.rows = s.rows.map fun row =>
      if m.Names pair row then updated m c s'.partitionType row else row)
    (hwritten : s'.written = s.written ++
      (s.rows.filter fun row => m.Names pair row).map (·.id))
    (htype : s'.partitionType =
      if Special (g first).partitionType then (g first).partitionType else s.partitionType) :
    Progressed m c rows (done ++ [pair]) s' fun row =>
      if m.Names pair row then updated m c s'.partitionType (g row) else g row := by
  obtain ⟨hmem, hnames⟩ := rule_cases hfirst
  obtain ⟨hown, hbefore⟩ := special_image h hc hfirst
  have hspecial : Special first.partitionType → s'.partitionType = first.partitionType := by
    intro hspecial
    rw [htype, hown hspecial, if_pos hspecial]
  have hcarried : ¬ Special first.partitionType →
      ((∃ other ∈ done, FindsSpecial m rows other) → Special s'.partitionType) ∧
      ((¬ ∃ other ∈ done, FindsSpecial m rows other) → s'.partitionType = c.partitionType) := by
    intro hnormal
    rw [htype]
    split
    · rename_i hbad
      exact ⟨fun _ => hbad, fun hnone => absurd (hbefore hnormal hbad) hnone⟩
    · exact ⟨h.carriedSpecial, h.carriedImplied⟩
  have hleaked : Leaked m rows (done ++ [pair]) pair ↔
      ∃ other ∈ done, FindsSpecial m rows other := by
    rw [leaked_append]
    constructor
    · rintro (⟨other, hsub, hother⟩ | ⟨-, hother⟩)
      · exact ⟨other, hsub.subset List.mem_cons_self, hother⟩
      · exact hother
    · exact fun hother => Or.inr ⟨rfl, hother⟩
  -- a row that another pair names is not set now
  have hother : ∀ row other, other ∈ done ++ [pair] → m.Names other row →
      other = pair ∧ m.Names pair row ∨ other ∈ done ∧ ¬ m.Names pair row ∧
        (Leaked m rows (done ++ [pair]) other ↔ Leaked m rows done other) := by
    intro row other hother hrow
    by_cases heq : other = pair
    · exact Or.inl ⟨heq, heq ▸ hrow⟩
    · refine Or.inr ⟨(List.mem_append.mp hother).resolve_right fun hmem =>
        heq (List.mem_singleton.mp hmem), fun hrow' => heq (names_unique hrow' hrow), ?_⟩
      rw [leaked_append]
      exact or_iff_left fun hboth => heq hboth.1
  constructor
  case image =>
    rw [hrows, h.image, List.map_map]
    apply List.map_congr_left
    intro row _
    simp only [Function.comp_apply, h.names]
  case names =>
    intro other row
    split
    · exact h.names other row
    · exact h.names other row
  case untouched =>
    intro row hrow
    rw [if_neg (hrow pair (List.mem_append_right done (List.mem_singleton_self pair)))]
    exact h.untouched row fun other hother => hrow other (List.mem_append_left [pair] hother)
  case column =>
    intro row other hmem' hrule hrow
    rcases hother row other hmem' hrow with ⟨-, hset⟩ | ⟨hin, hset, -⟩
    · rw [if_pos hset]
      exact ⟨rfl, rfl⟩
    · rw [if_neg hset]
      exact h.column row other hin hrule hrow
  case special =>
    intro row other hmem' first' hfirst' hrow hspecial'
    rcases hother row other hmem' hrow with ⟨rfl, hset⟩ | ⟨hin, hset, -⟩
    · obtain rfl : first' = first := Option.some.inj (hfirst'.symm.trans hfirst)
      rw [if_pos hset]
      exact hspecial hspecial'
    · rw [if_neg hset]
      exact h.special row other hin first' hfirst' hrow hspecial'
  case leaked =>
    intro row other hmem' first' hfirst' hrow hnormal hleak
    rcases hother row other hmem' hrow with ⟨rfl, hset⟩ | ⟨hin, hset, hiff⟩
    · obtain rfl : first' = first := Option.some.inj (hfirst'.symm.trans hfirst)
      rw [if_pos hset]
      exact (hcarried hnormal).1 (hleaked.mp hleak)
    · rw [if_neg hset]
      exact h.leaked row other hin first' hfirst' hrow hnormal (hiff.mp hleak)
  case implied =>
    intro row other hmem' first' hfirst' hrow hnormal hleak
    rcases hother row other hmem' hrow with ⟨rfl, hset⟩ | ⟨hin, hset, hiff⟩
    · obtain rfl : first' = first := Option.some.inj (hfirst'.symm.trans hfirst)
      rw [if_pos hset]
      exact (hcarried hnormal).2 fun hfinds => hleak (hleaked.mpr hfinds)
    · rw [if_neg hset]
      exact h.implied row other hin first' hfirst' hrow hnormal fun hleak' => hleak (hiff.mpr hleak')
  case carriedSpecial =>
    rintro ⟨other, hin, hfinds⟩
    by_cases hfirst' : Special first.partitionType
    · rw [hspecial hfirst']
      exact hfirst'
    · rcases List.mem_append.mp hin with hin | hin
      · exact (hcarried hfirst').1 ⟨other, hin, hfinds⟩
      · obtain rfl := List.mem_singleton.mp hin
        obtain ⟨first', hrule, hspecial'⟩ := hfinds
        obtain rfl : first' = first := Option.some.inj (hrule.symm.trans hfirst)
        exact absurd hspecial' hfirst'
  case carriedImplied =>
    intro hnone
    have hnormal : ¬ Special first.partitionType := fun hspecial' =>
      hnone ⟨pair, List.mem_append_right done (List.mem_singleton_self pair), first, hfirst, hspecial'⟩
    refine (hcarried hnormal).2 ?_
    rintro ⟨other, hin, hfinds⟩
    exact hnone ⟨other, List.mem_append_left [pair] hin, hfinds⟩
  case written =>
    have hset : s'.written ≠ [] := by
      rw [hwritten, h.image]
      intro hnil
      have hnone := (List.append_eq_nil_iff.mp hnil).2
      have hg : g first ∈ (rows.map g).filter fun row => m.Names pair row :=
        List.mem_filter.mpr ⟨List.mem_map_of_mem hmem, decide_eq_true ((h.names pair first).mpr hnames)⟩
      rw [List.map_eq_nil_iff.mp hnone] at hg
      cases hg
    refine iff_of_false hset fun hall => ?_
    have hnone := hall pair (List.mem_append_right done (List.mem_singleton_self pair))
    rw [hfirst] at hnone
    cases hnone

theorem updateOne_progressed (hm : m.Complete) (hc : ¬ Special c.partitionType)
    (hpair : pair ∈ m.pairs) (h : Progressed m c rows done s g)
    (hdone : ∀ pair ∈ done, ∀ row, m.rule rows pair = some row → ¬ m.Refuses row) :
    (∃ first, m.rule rows pair = some first ∧ m.Refuses first ∧
      (updateOne m c s pair).1.written = s.written ∧
      (updateOne m c s pair).2 = some (.message specialText)) ∨
    (∀ first, m.rule rows pair = some first → ¬ m.Refuses first) ∧
      (updateOne m c s pair).2 = none ∧
      ∃ g', Progressed m c rows (done ++ [pair]) (updateOne m c s pair).1 g' := by
  have hlookup : (s.rows.find? fun row => m.Query pair row) = (m.rule rows pair).map g := by
    rw [← h.lookup]
    congr 1
    funext row
    exact decide_eq_decide.mpr (query_iff hm hpair)
  cases hfirst : m.rule rows pair with
  | none =>
    refine Or.inr ⟨fun first hnone => (by cases hnone), ?_⟩
    rw [hfirst] at hlookup
    unfold updateOne
    rw [hlookup]
    exact ⟨rfl, g, progressed_none h hfirst rfl rfl rfl⟩
  | some first =>
    rw [hfirst] at hlookup
    have hiff := h.refuses_iff hdone hfirst
    unfold updateOne
    rw [hlookup]
    by_cases hrefuses : m.Refuses first
    · left
      refine ⟨first, rfl, hrefuses, ?_⟩
      simp [hiff.mpr hrefuses]
    · right
      have hnot : ¬ m.Refuses (g first) := fun hbad => hrefuses (hiff.mp hbad)
      simp only [Option.map_some, hnot, if_false]
      exact ⟨fun first' heq => Option.some.inj heq ▸ hrefuses, trivial, _,
        progressed_some h hc hfirst rfl rfl rfl⟩

/-- The run over the pairs: it ends at the first pair whose rule is refused. -/
theorem updateAll_progressed (hm : m.Complete) (hc : ¬ Special c.partitionType)
    (hpairs : ∀ pair ∈ pairs, pair ∈ m.pairs) (h : Progressed m c rows done s g)
    (hdone : ∀ pair ∈ done, ∀ row, m.rule rows pair = some row → ¬ m.Refuses row) :
    (∃ front pair back first, pairs = front ++ pair :: back ∧ m.rule rows pair = some first ∧
      m.Refuses first ∧ (updateAll m c s pairs).2 = some (.message specialText) ∧
      ((updateAll m c s pairs).1.written = [] ↔ ∀ pair ∈ done ++ front, m.rule rows pair = none) ∧
      ∀ pair ∈ front, ∀ row, m.rule rows pair = some row → ¬ m.Refuses row) ∨
    (∀ pair ∈ pairs, ∀ row, m.rule rows pair = some row → ¬ m.Refuses row) ∧
      (updateAll m c s pairs).2 = none ∧
      ∃ g', Progressed m c rows (done ++ pairs) (updateAll m c s pairs).1 g' := by
  induction pairs generalizing done s g with
  | nil =>
    refine Or.inr ⟨fun _ h => absurd h List.not_mem_nil, rfl, g, ?_⟩
    rw [List.append_nil]
    exact h
  | cons pair pairs ih =>
    obtain ⟨hpair, hpairs⟩ := List.forall_mem_cons.mp hpairs
    rw [updateAll]
    rcases updateOne_progressed hm hc hpair h hdone with
      ⟨first, hfirst, hrefuses, hwritten, herr⟩ | ⟨hfine, herr, g', hnext⟩
    · left
      refine ⟨[], pair, pairs, first, rfl, hfirst, hrefuses, ?_⟩
      generalize updateOne m c s pair = result at hwritten herr
      obtain ⟨s', err⟩ := result
      obtain rfl : err = some (.message specialText) := herr
      refine ⟨rfl, ?_, fun _ h => absurd h List.not_mem_nil⟩
      rw [List.append_nil, ← h.written]
      exact iff_of_eq (congrArg (· = []) hwritten)
    · generalize updateOne m c s pair = result at herr hnext
      obtain ⟨s', err⟩ := result
      obtain rfl : err = none := herr
      have hdone' : ∀ other ∈ done ++ [pair], ∀ row, m.rule rows other = some row →
          ¬ m.Refuses row :=
        List.forall_mem_append.mpr ⟨hdone, List.forall_mem_singleton.mpr hfine⟩
      rcases ih hpairs hnext hdone' with
        ⟨front, other, back, first, rfl, hfirst, hrefuses, herr, hwritten, hfront⟩ |
        ⟨hrest, herr, hrun⟩
      · left
        refine ⟨pair :: front, other, back, first, rfl, hfirst, hrefuses, herr, ?_,
          List.forall_mem_cons.mpr ⟨hfine, hfront⟩⟩
        rw [List.append_cons done pair front]
        exact hwritten
      · right
        refine ⟨List.forall_mem_cons.mpr ⟨hfine, hrest⟩, herr, ?_⟩
        rw [List.append_cons done pair pairs]
        exact hrun

theorem progressed_nil (rows : List PartitionConfig) (logs : List ManageLog) :
    Progressed m c rows [] ⟨rows, logs, [], [], c.partitionType⟩ id where
  image := (List.map_id rows).symm
  names _ _ := Iff.rfl
  untouched _ _ := rfl
  column _ _ h := absurd h List.not_mem_nil
  special _ _ h := absurd h List.not_mem_nil
  leaked _ _ h := absurd h List.not_mem_nil
  implied _ _ h := absurd h List.not_mem_nil
  carriedSpecial h := by
    obtain ⟨_, h, -⟩ := h
    exact absurd h List.not_mem_nil
  carriedImplied _ := rfl
  written := ⟨fun _ _ h => absurd h List.not_mem_nil, fun _ => rfl⟩

theorem updateType_not_special {dbTypeError : String}
    (h : m.checked dbTypeError m.updateType = .ok c) : ¬ Special c.partitionType := by
  have htype : m.updateType = some c.partitionType := by
    unfold CreatePartitionsInput.checked at h
    split at h
    · cases h
    · split_ifs at h
      split at h
      · cases h
      · rename_i htype
        rw [htype, ← Except.ok.inj h]
  unfold CreatePartitionsInput.updateType at htype
  split_ifs at htype <;> rw [← Option.some.inj htype] <;> decide

/-- The rules have their types after a run that refuses none, where nothing is tangled. -/
theorem types_iff (hc : ¬ Special c.partitionType) (h : Progressed m c rows m.pairs s g) :
    (∀ row ∈ rows, (∃ pair ∈ m.pairs, m.Names pair row) →
      (g row).partitionType = ownType c.partitionType row) ↔
    ((m.found rows).Pairwise fun a b => Special a.partitionType → Special b.partitionType) ∧
      ∀ pair ∈ m.pairs, ∀ a ∈ rows, ∀ b ∈ rows, m.Names pair a → m.Names pair b →
        ownType c.partitionType a = ownType c.partitionType b := by
  -- a pair and the first rule that it finds
  have hleaked : ((m.found rows).Pairwise fun a b =>
      Special a.partitionType → Special b.partitionType) ↔
      ∀ pair first, m.rule rows pair = some first → Leaked m rows m.pairs pair →
        Special first.partitionType := by
    rw [CreatePartitionsInput.found, List.pairwise_filterMap, List.pairwise_iff_forall_sublist]
    constructor
    · rintro hall pair first hfirst ⟨other, hsub, a, ha, hspecial⟩
      exact hall hsub a ha first hfirst hspecial
    · intro hall other pair hsub a ha first hfirst hspecial
      exact hall pair first hfirst ⟨other, hsub, a, ha, hspecial⟩
  have hfound : ∀ row ∈ rows, ∀ pair, m.Names pair row → ∃ first, m.rule rows pair = some first :=
    fun row hrow pair hnames => Option.ne_none_iff_exists'.mp (rule_ne_none hrow hnames)
  constructor
  · intro htypes
    have hpairs : ∀ pair ∈ m.pairs, ∀ a ∈ rows, ∀ b ∈ rows, m.Names pair a → m.Names pair b →
        (g a).partitionType = (g b).partitionType ∨ ∃ first, m.rule rows pair = some first ∧
          ¬ Special first.partitionType ∧ Leaked m rows m.pairs pair := by
      intro pair hpair a ha b hb hna hnb
      obtain ⟨first, hfirst⟩ := hfound a ha pair hna
      by_cases hspecial : Special first.partitionType
      · left
        rw [h.special a pair hpair first hfirst hna hspecial,
          h.special b pair hpair first hfirst hnb hspecial]
      · by_cases hleak : Leaked m rows m.pairs pair
        · exact Or.inr ⟨first, hfirst, hspecial, hleak⟩
        · left
          rw [h.implied a pair hpair first hfirst hna hspecial hleak,
            h.implied b pair hpair first hfirst hnb hspecial hleak]
    have hnone : ∀ pair first, m.rule rows pair = some first → Leaked m rows m.pairs pair →
        Special first.partitionType := by
      intro pair first hfirst hleak
      by_contra hnormal
      obtain ⟨hmem, hnames⟩ := rule_cases hfirst
      have hpair : pair ∈ m.pairs := by
        obtain ⟨other, hsub, -⟩ := hleak
        exact hsub.subset (List.mem_cons_of_mem other (List.mem_singleton_self pair))
      have hspecial := h.leaked first pair hpair first hfirst hnames hnormal hleak
      rw [htypes first hmem ⟨pair, hpair, hnames⟩, ownType, if_neg hnormal] at hspecial
      exact hc hspecial
    refine ⟨hleaked.mpr hnone, fun pair hpair a ha b hb hna hnb => ?_⟩
    rcases hpairs pair hpair a ha b hb hna hnb with heq | ⟨first, hfirst, hnormal, hleak⟩
    · rw [← htypes a ha ⟨pair, hpair, hna⟩, ← htypes b hb ⟨pair, hpair, hnb⟩, heq]
    · exact absurd (hnone pair first hfirst hleak) hnormal
  · rintro ⟨horder, hsame⟩ row hrow ⟨pair, hpair, hnames⟩
    obtain ⟨first, hfirst⟩ := hfound row hrow pair hnames
    obtain ⟨hmem, hfirstNames⟩ := rule_cases hfirst
    rw [hsame pair hpair row hrow first hmem hnames hfirstNames, ownType]
    split
    · rename_i hspecial
      exact h.special row pair hpair first hfirst hnames hspecial
    · rename_i hnormal
      exact h.implied row pair hpair first hfirst hnames hnormal fun hleak =>
        hnormal (hleaked.mp horder pair first hfirst hleak)

/-- A request sets every rule to its own type, and none where it is refused, if and only if its
rules are not tangled. -/
theorem independent_iff (hm : m.Complete)
    (hchecked : m.checked "错误的db类型" m.updateType = .ok c) :
    Independent m c (store.rows c.tbName) (updatePartitionsConfig m store) ↔
      Untangled m c.partitionType (store.rows c.tbName) := by
  have hc := updateType_not_special hchecked
  have hrun := updateAll_progressed hm hc (fun pair hpair => hpair)
    (progressed_nil (store.rows c.tbName) (store.logs c.logTbName))
    fun _ h => absurd h List.not_mem_nil
  have hfound : ∀ pair ∈ m.pairs, ∀ row, m.rule (store.rows c.tbName) pair = some row →
      row ∈ m.found (store.rows c.tbName) :=
    fun pair hpair row hrow => List.mem_filterMap.mpr ⟨pair, hpair, hrow⟩
  obtain ⟨s, err, hloops⟩ : ∃ s err, updateLoops m c store = (s, err) := ⟨_, _, rfl⟩
  have hresult : updatePartitionsConfig m store =
      ⟨⟨Function.update store.rows c.tbName s.rows, Function.update store.logs c.logTbName s.logs⟩,
        s.written, err.or (if s.errs = [] then none else some (.errors s.errs))⟩ := by
    rw [updatePartitionsConfig, hchecked]
    dsimp only
    rw [hloops]
  unfold updateLoops at hloops
  rw [hloops] at hrun
  rw [hresult]
  rcases hrun with ⟨front, pair, back, first, hpairs, hfirst, hrefuses, herr, hwritten, hfront⟩ |
    ⟨hfine, herr, g, hprogress⟩
  · obtain rfl : err = some (.message specialText) := herr
    have hsplit : m.found (store.rows c.tbName) =
        front.filterMap (m.rule (store.rows c.tbName)) ++
          first :: back.filterMap (m.rule (store.rows c.tbName)) := by
      rw [CreatePartitionsInput.found, hpairs, List.filterMap_append, List.filterMap_cons, hfirst]
    constructor
    · intro h
      left
      refine ⟨first, ?_, hrefuses⟩
      have hnone : front.filterMap (m.rule (store.rows c.tbName)) = [] :=
        List.filterMap_eq_nil_iff.mpr (hwritten.mp (h.refusal rfl))
      rw [hsplit, hnone]
      rfl
    · intro h
      refine ⟨fun hne => absurd rfl hne, fun _ => hwritten.mpr fun other hother => ?_⟩
      rcases h with ⟨row, hhead, hrow⟩ | ⟨hfine, -⟩
      · by_contra hsome
        obtain ⟨row', hrule⟩ := Option.ne_none_iff_exists'.mp hsome
        have hne : front.filterMap (m.rule (store.rows c.tbName)) ≠ [] :=
          List.ne_nil_of_mem (List.mem_filterMap.mpr ⟨other, hother, hrule⟩)
        rw [hsplit, List.head?_append_of_ne_nil _ hne] at hhead
        obtain ⟨pair', hpair', hrule'⟩ := List.mem_filterMap.mp (List.mem_of_mem_head? hhead)
        exact hfront pair' hpair' row hrule' hrow
      · refine absurd hrefuses (hfine first (hfound pair ?_ first hfirst))
        rw [hpairs]
        exact List.mem_append_right front List.mem_cons_self
  · obtain rfl : err = none := herr
    have hfine' : ∀ row ∈ m.found (store.rows c.tbName), ¬ m.Refuses row := by
      intro row hrow
      obtain ⟨pair, hpair, hrule⟩ := List.mem_filterMap.mp hrow
      exact hfine pair hpair row hrule
    have herr : (none : Option Failure).or (if s.errs = [] then none else some (.errors s.errs)) ≠
        some (.message specialText) := by
      rw [Option.none_or]
      split <;> simp
    have htypes := types_iff hc hprogress
    constructor
    · intro h
      refine Or.inr ⟨hfine', htypes.mp fun row hrow => ?_⟩
      have hall := h.types herr
      dsimp only at hall
      rw [Function.update_self, hprogress.image, List.forall₂_map_right_iff,
        List.forall₂_same] at hall
      exact hall row hrow
    · rintro (⟨row, hhead, hrow⟩ | ⟨-, htangle⟩)
      · exact absurd hrow (hfine' row (List.mem_of_mem_head? hhead))
      · refine ⟨fun _ => ?_, fun h => absurd h herr⟩
        dsimp only
        rw [Function.update_self, hprogress.image, List.forall₂_map_right_iff, List.forall₂_same]
        exact htypes.mpr htangle

end

/-- A stored rule of the sample request's domain. -/
def sampleConfig (id : ℤ) (dbLike : String) (partitionType : ℤ) : PartitionConfig :=
  { newConfig (sampleInput [dbLike] "t" "date") ⟨"", "", 30, partitionType⟩ id (dbLike, "t") with
    partitionColumnType := if partitionType = 5 then "timestamp" else "date" }

/-- Two rules: the first one special, the second one of the given type. -/
def sampleStore (partitionType : ℤ) : Store where
  rows tbName := if tbName = "mysql_partition_config" then
    [sampleConfig 1 "a" 4, sampleConfig 2 "b" partitionType] else []
  logs _ := []

theorem independent_iff_sample :
    Independent (sampleInput ["b", "a"] "t" "date")
      ⟨"mysql_partition_config", "mysql_manage_logs", 30, 0⟩
      ((sampleStore 0).rows "mysql_partition_config")
      (updatePartitionsConfig (sampleInput ["b", "a"] "t" "date") (sampleStore 0)) ↔
    Untangled (sampleInput ["b", "a"] "t" "date") 0
      ((sampleStore 0).rows "mysql_partition_config") :=
  @independent_iff (sampleInput ["b", "a"] "t" "date")
    ⟨"mysql_partition_config", "mysql_manage_logs", 30, 0⟩ (sampleStore 0)
    ⟨by decide, by decide, by decide, by decide⟩ (by decide +kernel)

/-- A rule of the common type behind a special one becomes special, and a refusal behind a change
leaves the change. -/
theorem update_tangled :
    ((sampleStore 0).rows "mysql_partition_config").map (fun row =>
      (row.dbLike, row.partitionType)) = [("a", 4), ("b", 0)] ∧
    (updatePartitionsConfig (sampleInput ["a", "b"] "t" "date") (sampleStore 0)).err = none ∧
    ((updatePartitionsConfig (sampleInput ["a", "b"] "t" "date") (sampleStore 0)).store.rows
      "mysql_partition_config").map (fun row => (row.dbLike, row.partitionType)) =
        [("a", 4), ("b", 4)] ∧
    (updatePartitionsConfig (sampleInput ["b", "a"] "t" "timestamp") (sampleStore 5)).err =
      some (.message specialText) ∧
    (updatePartitionsConfig (sampleInput ["b", "a"] "t" "timestamp") (sampleStore 5)).written =
      [2] := by
  decide +kernel

end Partition.Configs
