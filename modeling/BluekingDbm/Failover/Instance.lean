import BluekingDbm.Library.Text
import Mathlib.Data.List.Nodup

/-! Database instances as the detectors report them, and the text keys they are filed under. -/
namespace Failover

inductive DbType
  | none
  | unknown
  | mySql
  | redis
  | sqlServer
  | mongo
  | riak
  | hdfs
  | es
  | kafka
  | doris
  | pulsar
deriving DecidableEq

def DbType.string : DbType → String
  | .none => ""
  | .unknown => "unknown"
  | .mySql => "mysql"
  | .redis => "redis"
  | .sqlServer => "sqlserver"
  | .mongo => "mongo"
  | .riak => "riak"
  | .hdfs => "hdfs"
  | .es => "es"
  | .kafka => "kafka"
  | .doris => "doris"
  | .pulsar => "pulsar"

inductive DbEventName
  | none
  | redisSwitchSuccessV1
  | redisSwitchFailureV1
  | mysqlSwitchSuccessV1
  | mysqlSwitchFailureV1
  | riakSwitchSuccessV1
  | riakSwitchFailureV1
  | sqlServerSwitchSuccessV1
  | sqlServerSwitchFailureV1
  | mongoSwitchSuccessV1
  | mongoSwitchFailureV1
  | detectRedisAuthFailureV1
  | detectSshAuthFailureV1
  | detectSshFailureV1
  | detectDbFailureV1
  | doubleCheckSshFailureV1
  | doubleCheckAuthFailureV1
  | globalMonitorV1
  | apiFailureV1
  | detectFailure
  | heartbeatWriteFailure
  | probeOffline
  | tendbhaProxyBackendFailure
  | tendbclusterSpiderRemoteFailure
  | sshAuthFailure
  | sshTimeout
  | diskWriteFailure
  | uptimeFailure
  | redisUnbindProxySuccess
  | redisUnbindProxyFailure
deriving DecidableEq

def DbEventName.string : DbEventName → String
  | .none => ""
  | .redisSwitchSuccessV1 => "dbha_redis_switch_succ"
  | .redisSwitchFailureV1 => "dbha_redis_switch_err"
  | .mysqlSwitchSuccessV1 => "dbha_mysql_switch_ok"
  | .mysqlSwitchFailureV1 => "dbha_mysql_switch_err"
  | .riakSwitchSuccessV1 => "dbha_riak_switch_ok"
  | .riakSwitchFailureV1 => "dbha_riak_switch_err"
  | .sqlServerSwitchSuccessV1 => "dbha_sqlserver_switch_ok"
  | .sqlServerSwitchFailureV1 => "dbha_sqlserver_switch_err"
  | .mongoSwitchSuccessV1 => "dbha_mongos_switch_succ"
  | .mongoSwitchFailureV1 => "dbha_mongos_switch_err"
  | .detectRedisAuthFailureV1 => "dbha_detect_redis_auth_fail"
  | .detectSshAuthFailureV1 => "dbha_detect_ssh_auth_fail"
  | .detectSshFailureV1 => "dbha_detect_ssh_fail"
  | .detectDbFailureV1 => "dbha_detect_db_fail"
  | .doubleCheckSshFailureV1 => "dbha_doublecheck_ssh_fail"
  | .doubleCheckAuthFailureV1 => "dbha_doublecheck_auth_fail"
  | .globalMonitorV1 => "dbha_global_monitor"
  | .apiFailureV1 => "dbha_call_api_fail"
  | .detectFailure => "dbha_detect_db_failure"
  | .heartbeatWriteFailure => "dbha_heartbeat_write_failure"
  | .probeOffline => "dbha_probe_offline"
  | .tendbhaProxyBackendFailure => "dbha_tendbha_proxy_backend_failure"
  | .tendbclusterSpiderRemoteFailure => "dbha_tendbcluster_spider_remote_failure"
  | .sshAuthFailure => "dbha_ssh_auth_failure"
  | .sshTimeout => "dbha_ssh_timeout"
  | .diskWriteFailure => "dbha_disk_write_failure"
  | .uptimeFailure => "dbha_uptime_failure"
  | .redisUnbindProxySuccess => "dbha_redis_unbind_proxy_success"
  | .redisUnbindProxyFailure => "dbha_redis_unbind_proxy_failure"

/-- `failure.Instance`, as far as windows and switching read it. -/
structure Instance where
  bkCloudID : ℤ
  ip : String
  port : ℤ
  clusterID : ℤ
  dbType : DbType
  eventName : DbEventName
  clusterType : String
  machineType : String
  instanceRole : String
  count : ℕ
deriving DecidableEq

def instanceWindowKey (bkCloudID : ℤ) (ip : String) (port : ℤ) (dbType : DbType) : String :=
  Text.decimal bkCloudID ++ ":" ++ ip ++ ":" ++ Text.decimal port ++ ":" ++ dbType.string

def instanceWindowEventKey (bkCloudID : ℤ) (ip : String) (port : ℤ) (dbType : DbType)
    (eventName : DbEventName) : String :=
  Text.decimal bkCloudID ++ ":" ++ ip ++ ":" ++ Text.decimal port ++ ":" ++ dbType.string ++ ":" ++
    eventName.string

def hostKey (bkCloudID : ℤ) (ip : String) : String := Text.decimal bkCloudID ++ ":" ++ ip

def instanceKey (bkCloudID : ℤ) (ip : String) (port : ℤ) : String :=
  Text.decimal bkCloudID ++ ":" ++ ip ++ ":" ++ Text.decimal port

theorem dbType_no_colon (d : DbType) : ':' ∉ d.string.toList := by
  cases d <;> decide

/-- Every type, in the order of the constants. -/
def DbType.all : List DbType := (List.range 12).map DbType.ofNat

theorem DbType.mem_all (d : DbType) : d ∈ DbType.all := by
  cases d <;> decide

theorem dbType_injective {d d' : DbType} (h : d.string = d'.string) : d = d' := by
  have hnodup : (DbType.all.map DbType.string).Nodup := by decide +kernel
  exact List.inj_on_of_nodup_map hnodup d.mem_all d'.mem_all h

theorem eventName_no_colon (e : DbEventName) : ':' ∉ e.string.toList := by
  cases e <;> decide +kernel

/-- Every event, in the order of the constants. -/
def DbEventName.all : List DbEventName := (List.range 30).map DbEventName.ofNat

theorem DbEventName.mem_all (e : DbEventName) : e ∈ DbEventName.all := by
  cases e <;> decide

theorem eventName_injective {e e' : DbEventName} (h : e.string = e'.string) : e = e' := by
  have hnodup : (DbEventName.all.map DbEventName.string).Nodup := by decide +kernel
  exact List.inj_on_of_nodup_map hnodup e.mem_all e'.mem_all h

/-- Two texts joined by a colon, none in the second. -/
theorem join_inj {a a' b b' : String} (hb : ':' ∉ b.toList) (hb' : ':' ∉ b'.toList)
    (h : a ++ ":" ++ b = a' ++ ":" ++ b') : a = a' ∧ b = b' := by
  have hlist : a.toList ++ ':' :: b.toList = a'.toList ++ ':' :: b'.toList := by
    simpa [String.toList_append] using congrArg String.toList h
  obtain ⟨ha, hb⟩ := Text.cut_back hb hb' hlist
  exact ⟨String.toList_injective ha, String.toList_injective hb⟩

theorem hostKey_inj {c c' : ℤ} {ip ip' : String} :
    hostKey c ip = hostKey c' ip' ↔ c = c' ∧ ip = ip' := by
  constructor
  · intro h
    have hlist : (Text.decimal c).toList ++ ':' :: ip.toList =
        (Text.decimal c').toList ++ ':' :: ip'.toList := by
      simpa [hostKey, String.toList_append] using congrArg String.toList h
    obtain ⟨hc, hip⟩ := Text.cut_front (Text.decimal_no_colon c) (Text.decimal_no_colon c') hlist
    exact ⟨Text.decimal_injective (String.toList_injective hc), String.toList_injective hip⟩
  · rintro ⟨rfl, rfl⟩
    rfl

theorem instanceKey_inj {c c' p p' : ℤ} {ip ip' : String} :
    instanceKey c ip p = instanceKey c' ip' p' ↔ c = c' ∧ ip = ip' ∧ p = p' := by
  constructor
  · intro h
    obtain ⟨hhost, hp⟩ := join_inj (Text.decimal_no_colon p) (Text.decimal_no_colon p') h
    obtain ⟨hc, hip⟩ := hostKey_inj.mp hhost
    exact ⟨hc, hip, Text.decimal_injective hp⟩
  · rintro ⟨rfl, rfl, rfl⟩
    rfl

/-- The type and the event contain no colon, so the address may. -/
theorem instanceWindowKey_inj {c c' p p' : ℤ} {ip ip' : String} {d d' : DbType} :
    instanceWindowKey c ip p d = instanceWindowKey c' ip' p' d' ↔
      c = c' ∧ ip = ip' ∧ p = p' ∧ d = d' := by
  constructor
  · intro h
    obtain ⟨hinst, hd⟩ := join_inj (dbType_no_colon d) (dbType_no_colon d') h
    obtain ⟨hc, hip, hp⟩ := instanceKey_inj.mp hinst
    exact ⟨hc, hip, hp, dbType_injective hd⟩
  · rintro ⟨rfl, rfl, rfl, rfl⟩
    rfl

theorem instanceWindowEventKey_inj {c c' p p' : ℤ} {ip ip' : String} {d d' : DbType}
    {e e' : DbEventName} :
    instanceWindowEventKey c ip p d e = instanceWindowEventKey c' ip' p' d' e' ↔
      c = c' ∧ ip = ip' ∧ p = p' ∧ d = d' ∧ e = e' := by
  constructor
  · intro h
    obtain ⟨hinst, he⟩ := join_inj (eventName_no_colon e) (eventName_no_colon e') h
    obtain ⟨hc, hip, hp, hd⟩ := instanceWindowKey_inj.mp hinst
    exact ⟨hc, hip, hp, hd, eventName_injective he⟩
  · rintro ⟨rfl, rfl, rfl, rfl, rfl⟩
    rfl

namespace Instance

def windowKey (i : Instance) : String := instanceWindowKey i.bkCloudID i.ip i.port i.dbType

def eventKey (i : Instance) : String :=
  instanceWindowEventKey i.bkCloudID i.ip i.port i.dbType i.eventName

/-- The same instance with the same event. -/
def Same (i j : Instance) : Prop :=
  i.bkCloudID = j.bkCloudID ∧ i.ip = j.ip ∧ i.port = j.port ∧ i.dbType = j.dbType ∧
    i.eventName = j.eventName

instance (i j : Instance) : Decidable (Same i j) := inferInstanceAs (Decidable (_ ∧ _))

theorem eventKey_eq_iff {i j : Instance} : i.eventKey = j.eventKey ↔ Same i j :=
  instanceWindowEventKey_inj

end Instance

end Failover
