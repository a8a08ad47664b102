import BluekingDbm.Library.Calendar
import BluekingDbm.Library.Numeral

/-! The rules of the partition service, and how the database describes partitions. -/
namespace Partition

inductive PartitionType
  | type0 | type1 | type3 | type4 | type5 | type101
  deriving DecidableEq

/-- Days between the name of a partition and its description. -/
def diffOneDay : ℕ := 1

def extraTime : ℕ := 15

/-- A time zone, in seconds from UTC; it is less than a day away. -/
abbrev Zone := { zone : ℤ // -86400 < zone ∧ zone < 86400 }

structure PartitionConfig where
  partitionColumn : String
  partitionType : PartitionType
  partitionTimeInterval : ℕ
  reservedPartition : ℕ
  extraPartition : ℕ
  timeZone : Zone

structure CreatePartitionsInput where
  partitionColumn : String
  partitionColumnType : String
  expireTime : ℤ
  partitionTimeInterval : ℤ
  timeZone : Zone
  remoteHashAlgorithm : String

/-- The type of a column's partitions; the algorithm is compared without regard to case. -/
def columnPartitionType (columnType algorithm : String) : Option PartitionType :=
  if columnType = "datetime" ∨ columnType = "date" then
    if algorithm.toLower = "range" then some .type4 else some .type0
  else if columnType = "timestamp" then some .type5
  else if columnType = "int" ∨ columnType = "bigint" then
    if algorithm.toLower = "list" then some .type3 else some .type101
  else none

/-- The rule that is stored, where the input is not refused. -/
def createPartitionsConfig (m : CreatePartitionsInput) : Option PartitionConfig :=
  if m.partitionColumn.length = 0 then none
  else if m.partitionTimeInterval < 1 then none
  else if m.expireTime < m.partitionTimeInterval then none
  else if m.expireTime % m.partitionTimeInterval ≠ 0 then none
  else
    (columnPartitionType m.partitionColumnType m.remoteHashAlgorithm).map fun partitionType =>
      { partitionColumn := m.partitionColumn
        partitionType
        partitionTimeInterval := m.partitionTimeInterval.toNat
        reservedPartition := (m.expireTime / m.partitionTimeInterval).toNat
        extraPartition := extraTime
        timeZone := m.timeZone }

/-- What every rule that the service creates satisfies. -/
structure Creatable (config : PartitionConfig) : Prop where
  column : config.partitionColumn ≠ ""
  type : config.partitionType ≠ .type1
  interval : 1 ≤ config.partitionTimeInterval
  reserved : 1 ≤ config.reservedPartition
  extra : 1 ≤ config.extraPartition

theorem createPartitionsConfig_creatable {m : CreatePartitionsInput} {config : PartitionConfig}
    (h : createPartitionsConfig m = some config) : Creatable config := by
  unfold createPartitionsConfig at h
  split at h
  · cases h
  · split at h
    · cases h
    · split at h
      · cases h
      · split at h
        · cases h
        · rename_i hcolumn hinterval hexpire hmultiple
          obtain ⟨partitionType, htype, rfl⟩ := Option.map_eq_some_iff.mp h
          have hquotient : 1 ≤ m.expireTime / m.partitionTimeInterval :=
            (Int.le_ediv_iff_mul_le (by omega)).mpr (by omega)
          constructor
          case column =>
            intro hempty
            apply hcolumn
            exact congrArg String.length hempty
          case type =>
            rintro (rfl : partitionType = .type1)
            unfold columnPartitionType at htype
            grind
          case interval =>
            show 1 ≤ m.partitionTimeInterval.toNat
            omega
          case reserved =>
            show 1 ≤ (m.expireTime / m.partitionTimeInterval).toNat
            omega
          case extra => exact Nat.le_of_ble_eq_true rfl

/-- A row of `INFORMATION_SCHEMA.PARTITIONS`. -/
structure Row where
  partitionName : String
  partitionDescription : String
  deriving DecidableEq

/-- A partitioned table. -/
structure Table where
  partitionExpression : String
  partitionMethod : String
  rows : List Row

/-- A date in the layout `20060102`, and in the quotes of a date literal. -/
def format (day : ℕ) : String := String.ofList (Calendar.ofDays day).basic
def quoted (day : ℕ) : String := String.ofList ('\'' :: ((Calendar.ofDays day).dashed ++ ['\'']))

/-- `UNIX_TIMESTAMP` of the beginning of a day. -/
def unixTimestamp (zone : Zone) (day : ℕ) : ℤ := (day - 719528) * 86400 - zone

/-- The day of `FROM_UNIXTIME`. -/
def fromUnixtime (zone : Zone) (timestamp : ℤ) : ℕ := ((timestamp + zone) / 86400 + 719528).toNat

/-- How the database describes the bound of a partition. -/
def description (config : PartitionConfig) (day : ℕ) : String :=
  match config.partitionType with
  | .type0 | .type1 => Text.decimal day
  | .type3 | .type101 => format day
  | .type4 => quoted day
  | .type5 => Text.decimal (unixTimestamp config.timeZone day)

/-- A text where a number is wanted. -/
def value (text : String) : ℤ := (Numeral.atoi text).getD 0

/-- A row of a day, written at a second of it, is below the bound of a range, or in the list. -/
def Holds (config : PartitionConfig) (row : Row) (day second : ℕ) : Prop :=
  match config.partitionType with
  | .type0 => (day : ℤ) < value row.partitionDescription
  | .type1 => (day : ℤ) = value row.partitionDescription
  | .type3 => value (format day) = value row.partitionDescription
  | .type101 => value (format day) < value row.partitionDescription
  | .type4 => quoted day < row.partitionDescription
  | .type5 => unixTimestamp config.timeZone day + second < value row.partitionDescription

instance (config : PartitionConfig) (row : Row) (day second : ℕ) :
    Decidable (Holds config row day second) := by
  unfold Holds
  cases config.partitionType <;> infer_instance

/-- The bounds of a range go up, those of lists differ. -/
def Follows (config : PartitionConfig) (a b : Row) : Prop :=
  match config.partitionType with
  | .type0 | .type5 | .type101 => value a.partitionDescription < value b.partitionDescription
  | .type4 => a.partitionDescription < b.partitionDescription
  | .type1 | .type3 => value a.partitionDescription ≠ value b.partitionDescription

/-- What the database takes as the partitions of a table. -/
structure Accepted (config : PartitionConfig) (rows : List Row) : Prop where
  names : (rows.map Row.partitionName).Nodup
  bounds : rows.Pairwise (Follows config)

end Partition
