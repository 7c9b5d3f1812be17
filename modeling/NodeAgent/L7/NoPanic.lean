import NodeAgent.Ebpf.MysqlEvents
import NodeAgent.L7.Http2.Checked
import NodeAgent.L7.Sql
import NodeAgent.L7.Zookeeper

/-!
# Payloads and panics

A panic in a parser ends the agent. The parsers of HTTP, Redis, memcached, ZooKeeper, Postgres and
HTTP/2 are safe on any bytes and in any state. The one of MySQL is safe on the packets that the
kernel accepts, which announce at least one byte.

* `mysql_noPanic` — the events of every run of the handlers
* `parsers_noPanic` — all of them
-/

namespace L7

open Infra Ebpf

theorem parseHttp_noPanic (payload : Bytes) : NoPanic (parseHttp payload) := by
  unfold parseHttp
  split
  · exact noPanic_ok _
  split
  · exact noPanic_ok _
  split
  · exact noPanic_ok _
  · exact noPanic_ok _

theorem parseRedis_noPanic (payload : Bytes) : NoPanic (parseRedis payload) := by
  unfold parseRedis
  split
  · exact noPanic_ok _
  rename_i v rest _
  split
  · exact noPanic_ok _
  rename_i hstar
  -- a line that starts with a star is not empty
  have hlong : 1 ≤ v.length := by
    cases v with
    | nil => exact absurd rfl hstar
    | cons b v => exact Nat.succ_pos _
  rw [sliceFrom_eq_ok hlong]
  refine noPanic_bind (noPanic_ok _) fun digits _ => ?_
  split
  · exact noPanic_ok _
  dsimp only
  split
  · exact noPanic_ok _
  split
  · split <;> exact noPanic_ok _
  · exact noPanic_ok _

theorem parseMemcached_noPanic (payload : Bytes) : NoPanic (parseMemcached payload) := by
  unfold parseMemcached
  split
  · exact noPanic_ok _
  split
  · split <;> exact noPanic_ok _
  split
  · split
    · exact noPanic_ok _
    · split <;> exact noPanic_ok _
  split
  · split <;> exact noPanic_ok _
  · exact noPanic_ok _

theorem mysql_noPanic {pool : Watcher} (h : watcher.Run AnyOrder Watcher.start pool) {e : L7Event}
    (he : e ∈ pool.shared.l7Events) (hp : e.protocol = .mysql) (p : MysqlParser) :
    NoPanic (p.parse e.requestPayload e.statementId) := by
  by_cases hshort : e.requestPayload.length < mysqlMsgHeaderSize + 5
  · rw [MysqlParser.parse, if_pos hshort]
    exact noPanic_ok _
  · refine p.parse_noPanic ?_ e.statementId
    rw [mysqlMsgHeaderSize] at hshort
    rw [msgSize_eq (by omega)]
    exact mysql_copied h he hp

/-- **No payload makes a parser panic.** -/
theorem parsers_noPanic :
    (∀ payload : Bytes, NoPanic (parseHttp payload) ∧ NoPanic (parseRedis payload) ∧
      NoPanic (parseMemcached payload) ∧ NoPanic (parseZookeeper payload)) ∧
    (∀ (p : PostgresParser) (payload : Bytes), NoPanic (p.parse payload)) ∧
    (∀ (δ : Type) (dec : HpackDecoder δ) (p : Http2Parser δ) (method : Method) (payload : Bytes)
      (kernelTime : UInt64), NoPanic (p.parseOffsets dec kernelTime payload method)) ∧
    (∀ pool : Watcher, watcher.Run AnyOrder Watcher.start pool → ∀ e ∈ pool.shared.l7Events,
      e.protocol = .mysql →
        ∀ p : MysqlParser, NoPanic (p.parse e.requestPayload e.statementId)) := by
  refine ⟨fun payload => ⟨?_, ?_, ?_, ?_⟩, fun p payload => p.parse_noPanic payload,
    fun δ dec p method payload kernelTime => ?_, fun pool h e he hp p => mysql_noPanic h he hp p⟩
  · exact parseHttp_noPanic payload
  · exact parseRedis_noPanic payload
  · exact parseMemcached_noPanic payload
  · exact parseZookeeper_noPanic payload
  · exact ⟨_, p.parseOffsets_eq dec kernelTime payload method⟩

def mysqlExchange (text : String) : List Handler :=
  [.enterConnect 1 3, .setState 1 7 90 .close .synSent, .enterWrite 7 3 false (queryWrite text),
    .enterRead 1 7 ⟨3, 0, none, 0⟩,
    .exitRead ⟨fun _ => .ofBytes [7, 0, 0, 1, 0, 0, 0, 2, 0, 0, 0], fun _ _ => none, fun _ => none⟩
      1 7 false 11]

theorem parsers_noPanic_query : ∃ pool : Watcher, watcher.Run AnyOrder Watcher.start pool ∧
    ∃ e ∈ pool.shared.l7Events, e.protocol = .mysql ∧
      NoPanic (newMysqlParser.parse e.requestPayload e.statementId) := by
  have hevents : (watchAlone 5 (mysqlExchange "select 1")).2.l7Events.map L7Event.protocol
      = [.mysql] := by decide +kernel
  have hrun := run_watchAlone 5 (mysqlExchange "select 1")
  obtain ⟨e, he, hp⟩ := List.mem_map.mp (hevents ▸ List.mem_singleton_self Protocol.mysql)
  exact ⟨_, hrun, e, he, hp, parsers_noPanic.2.2.2 _ hrun e he hp newMysqlParser⟩

end L7
