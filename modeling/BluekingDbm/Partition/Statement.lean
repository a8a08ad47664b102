import BluekingDbm.Partition.Rule

/-! The statements of the service: initial partitions, partitions added and dropped, and the check
of a table against its rule. -/
namespace Partition

/-- Days between names and bounds of the first partitions. -/
def initDiff (config : PartitionConfig) : ℕ :=
  match config.partitionType with
  | .type0 | .type4 | .type5 => diffOneDay
  | .type1 | .type3 | .type101 => 0

/-- What the table is partitioned by: the method, and the expression as it is written. -/
def pkey (config : PartitionConfig) : String × String :=
  match config.partitionType with
  | .type0 => ("RANGE", "TO_DAYS(" ++ config.partitionColumn ++ ")")
  | .type1 => ("LIST", "TO_DAYS(" ++ config.partitionColumn ++ ")")
  | .type3 => ("LIST", config.partitionColumn)
  | .type4 => ("RANGE COLUMNS", config.partitionColumn)
  | .type5 => ("RANGE", "UNIX_TIMESTAMP(" ++ config.partitionColumn ++ ")")
  | .type101 => ("RANGE", config.partitionColumn)

/-- The days that name the first partitions. -/
def initDays (config : PartitionConfig) (now : ℕ) : List ℕ :=
  let first :=
    match config.partitionType with
    | .type101 => 1
    | _ => 0
  (List.range' first (config.reservedPartition + config.extraPartition)).map fun i =>
    now + i * config.partitionTimeInterval - config.reservedPartition * config.partitionTimeInterval

def getInitPartitionSql (config : PartitionConfig) (now : ℕ) : List Row :=
  (initDays config now).map fun day =>
    ⟨"p" ++ format day, description config (day + initDiff config)⟩

/-- `partition_description >=` the first bound that can hold today's rows. -/
def ReachesToday (config : PartitionConfig) (now : ℕ) (row : Row) : Prop :=
  match config.partitionType with
  | .type0 => (now : ℤ) + diffOneDay ≤ value row.partitionDescription
  | .type1 => (now : ℤ) ≤ value row.partitionDescription
  | .type3 => format now ≤ row.partitionDescription
  | .type101 => format (now + diffOneDay) ≤ row.partitionDescription
  | .type4 => quoted (now + diffOneDay) ≤ row.partitionDescription
  | .type5 => unixTimestamp config.timeZone (now + diffOneDay) ≤ value row.partitionDescription

instance (config : PartitionConfig) (now : ℕ) (row : Row) :
    Decidable (ReachesToday config now row) :=
  match config with
  | ⟨_, .type0, _, _, _, _⟩ | ⟨_, .type1, _, _, _, _⟩ | ⟨_, .type3, _, _, _, _⟩
  | ⟨_, .type4, _, _, _, _⟩ | ⟨_, .type5, _, _, _, _⟩ | ⟨_, .type101, _, _, _, _⟩ => by
    unfold ReachesToday
    infer_instance

/-- `order by PARTITION_DESCRIPTION`, which is a text. -/
def orderByDescription (rows : List Row) : List Row :=
  rows.mergeSort fun a b => a.partitionDescription ≤ b.partitionDescription

def orderByDescriptionDesc (rows : List Row) : List Row :=
  rows.mergeSort fun a b => b.partitionDescription ≤ a.partitionDescription

/-- `WANTED_NAME`: the name that the bound of a partition stands for. -/
def wantedName (config : PartitionConfig) (row : Row) : Option String :=
  match config.partitionType with
  | .type0 => some (format (value row.partitionDescription - diffOneDay).toNat)
  | .type1 => some (format (value row.partitionDescription).toNat)
  | .type3 | .type101 => some row.partitionDescription
  | .type4 =>
    (Calendar.parseDashed (row.partitionDescription.toList.filter (· ≠ '\''))).map fun day =>
      format (day - diffOneDay)
  | .type5 =>
    some (format (fromUnixtime config.timeZone (value row.partitionDescription) - diffOneDay))

/-- `time.Parse` of a name. -/
def parseName (name : String) : Option ℕ := Calendar.parseBasic name.toList

def trimPrefix (name : String) : String :=
  match name.toList with
  | 'p' :: rest => String.ofList rest
  | _ => name

/-- The description of the new partition `i`, counted from the name that the statement starts
with. -/
def newDesc (config : PartitionConfig) (day : ℕ) (desc : ℤ) (i : ℕ) : String :=
  match config.partitionType with
  | .type0 | .type1 => Text.decimal (desc + i * config.partitionTimeInterval)
  | .type5 => Text.decimal (desc + i * config.partitionTimeInterval * 86400)
  | .type3 | .type101 => format (day + i * config.partitionTimeInterval)
  | .type4 => quoted (day + (i + 1) * config.partitionTimeInterval)

/-- The partitions `begin` to `need` behind a name. -/
def newPartitions (config : PartitionConfig) (start need : ℕ) (name : String) (desc : ℤ) :
    Option (List Row) :=
  (parseName name).map fun day =>
    (List.range' start (need + 1 - start)).map fun i =>
      ⟨"p" ++ format (day + i * config.partitionTimeInterval), newDesc config day desc i⟩

/-- The bound of a partition for today, where those of the table are too old; the query for type 1
is not well formed. -/
def wantedDescIfOld (config : PartitionConfig) (now : ℕ) : Option ℤ :=
  match config.partitionType with
  | .type0 => some (now + diffOneDay)
  | .type1 => none
  | .type5 => some (unixTimestamp config.timeZone (now + diffOneDay))
  | .type3 | .type4 | .type101 => some 0

/-- The partitions to be added: none is an error. -/
def getAddPartitionSql (config : PartitionConfig) (now : ℕ) (rows : List Row) : Option (List Row) :=
  let ahead := rows.filter fun row => ReachesToday config now row
  if config.extraPartition ≤ ahead.length then some []
  else
    let need := config.extraPartition - ahead.length
    match (orderByDescriptionDesc ahead).head? with
    | none => (wantedDescIfOld config now).bind fun desc =>
        newPartitions config 0 need (format now) desc
    | some last => do
      let name ← wantedName config last
      let day ← parseName name
      let current := trimPrefix last.partitionName
      -- the time zones of the two may differ
      let name := if format (day + 1) = current then current else name
      newPartitions config 1 need name (value last.partitionDescription)

/-- `date_sub`, from the first day on. -/
def dateSub (day days : ℕ) : Option ℕ :=
  if Calendar.firstDay + days ≤ day then some (day - days) else none

/-- `PARTITION_DESCRIPTION <` the bound of what is kept; a day more is kept for the time zones. -/
def Expired (config : PartitionConfig) (now : ℕ) (row : Row) : Prop :=
  let reserve := config.reservedPartition * config.partitionTimeInterval + 1
  match config.partitionType with
  | .type0 => value row.partitionDescription < (now : ℤ) - (reserve - diffOneDay : ℕ)
  | .type1 => value row.partitionDescription < (now : ℤ) - reserve
  | .type3 => ∃ day ∈ dateSub now reserve, row.partitionDescription < format day
  | .type101 => ∃ day ∈ dateSub now (reserve - diffOneDay), row.partitionDescription < format day
  | .type4 => ∃ day ∈ dateSub now (reserve - diffOneDay), row.partitionDescription < quoted day
  | .type5 => value row.partitionDescription <
      unixTimestamp config.timeZone now - (reserve - diffOneDay : ℕ) * 86400

instance (config : PartitionConfig) (now : ℕ) (row : Row) : Decidable (Expired config now row) :=
  match config with
  | ⟨_, .type0, _, _, _, _⟩ | ⟨_, .type1, _, _, _, _⟩ | ⟨_, .type3, _, _, _, _⟩
  | ⟨_, .type4, _, _, _, _⟩ | ⟨_, .type5, _, _, _, _⟩ | ⟨_, .type101, _, _, _, _⟩ => by
    unfold Expired
    infer_instance

/-- `^p[0-9]{8}$`. -/
def matchString (name : String) : Bool :=
  match name.toList with
  | 'p' :: rest => rest.length = 8 ∧ rest.all Char.isDigit
  | _ => false

/-- The names of the partitions to be dropped: none is an error. -/
def getDropPartitionSql (config : PartitionConfig) (now : ℕ) (rows : List Row) :
    Option (List String) :=
  let names := ((orderByDescription rows).filter fun row => Expired config now row).map
    Row.partitionName
  if names.all matchString then some names else none

/-- `ALTER TABLE … DROP PARTITION`. -/
def dropPartitions (names : List String) (rows : List Row) : List Row :=
  rows.filter fun row => row.partitionName ∉ names

def checkPartitionExpression (expression method column : String) (partitionType : PartitionType) :
    Bool :=
  let columnWithBackquote := "`" ++ column ++ "`"
  match partitionType with
  | .type0 => (expression = "to_days(" ++ column ++ ")" ∨
      expression = "to_days(" ++ columnWithBackquote ++ ")" ∨
      expression = "TO_DAYS(" ++ column ++ ")" ∨
      expression = "TO_DAYS(" ++ columnWithBackquote ++ ")") ∧ method = "RANGE"
  | .type1 => (expression = "to_days(" ++ column ++ ")" ∨
      expression = "to_days(" ++ columnWithBackquote ++ ")" ∨
      expression = "TO_DAYS(" ++ column ++ ")" ∨
      expression = "TO_DAYS(" ++ columnWithBackquote ++ ")") ∧ method = "LIST"
  | .type3 => (expression = column ∨ expression = columnWithBackquote) ∧ method = "LIST"
  | .type101 => (expression = column ∨ expression = columnWithBackquote) ∧ method = "RANGE"
  | .type4 => (expression = column ∨ expression = columnWithBackquote) ∧ method = "RANGE COLUMNS"
  | .type5 => (expression = "unix_timestamp(" ++ column ++ ")" ∨
      expression = "unix_timestamp(" ++ columnWithBackquote ++ ")" ∨
      expression = "UNIX_TIMESTAMP(" ++ column ++ ")" ∨
      expression = "UNIX_TIMESTAMP(" ++ columnWithBackquote ++ ")") ∧ method = "RANGE"

/-- The days of `t2.Sub(t1)`, which is at most the greatest duration. -/
def subDays (day2 day1 : ℕ) : ℤ :=
  let nanoseconds : ℤ := ((day2 : ℤ) - day1) * (86400 * 10 ^ 9)
  (max (-2 ^ 63) (min nanoseconds (2 ^ 63 - 1))).tdiv (86400 * 10 ^ 9)

/-- Whether two names are an interval apart: none is an error. -/
def calculateInterval (firstName secondName : String) (interval : ℕ) : Option Bool :=
  if matchString firstName ∧ matchString secondName then
    (parseName (trimPrefix firstName)).bind fun t1 =>
      (parseName (trimPrefix secondName)).map fun t2 => decide (subDays t2 t1 = interval)
  else none

/-- What is found of a partitioned table. -/
inductive TableInfo
  | failed
  | inconsistent
  | notPartitioned
  | partitioned
  deriving DecidableEq

/-- The check of a partitioned table whose rule has a column and whose business is not
customised. -/
def getOneTableInfo (config : PartitionConfig) (fromCron : Bool) (table : Table) : TableInfo :=
  let lowest := (orderByDescription table.rows).take 2
  let differs := if fromCron then TableInfo.inconsistent else TableInfo.notPartitioned
  if lowest.any fun _ => !checkPartitionExpression table.partitionExpression table.partitionMethod
      config.partitionColumn config.partitionType then differs
  else
    match lowest with
    | [first, second] =>
      match calculateInterval first.partitionName second.partitionName
          config.partitionTimeInterval with
      | none => .failed
      | some true => .partitioned
      | some false => differs
    | _ => .partitioned

end Partition
