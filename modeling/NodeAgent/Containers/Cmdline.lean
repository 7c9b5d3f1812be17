import NodeAgent.Infra.Slices
import NodeAgent.Infra.Utf8

/-!
# Command lines

The agent reads the command line of every process it traces, and guesses from its first part what
the process is. A process chooses its command line freely.

* `cmdline_no_panic_iff` — exactly the command lines that do not crash the agent
-/

namespace Containers

open Infra

/-! ## Reading a command line -/

/-- `proc.GetCmdline`, on what `os.ReadFile` returns. -/
def getCmdline (data : Option Bytes) : Bytes :=
  match data with
  | none => []
  | some cmdline => trimSuffix cmdline [0]

/-- `bytes.TrimSuffix(bytes.Fields(part)[0], ":")` -/
def firstField (part : Bytes) : Checked Bytes := do
  let field ← elemAt (fields part) 0
  return trimSuffix field (ascii ":")

/-- `bytes.Contains` -/
def contains (s x : Bytes) : Bool := s.tails.any (fun t => hasPrefix t x)

/-- The expression `\d*\.?\d*$`, at the start of the text. -/
def isVersion (s : Bytes) : Bool :=
  let isDigit (b : UInt8) : Bool := 48 ≤ b && b ≤ 57
  match s.dropWhile isDigit with
  | [] => true
  | b :: rest => b = 46 && (rest.dropWhile isDigit).isEmpty

/-- The expression `.*name\d*\.?\d*$`. -/
def isCommand (name s : Bytes) : Bool :=
  s.tails.any (fun t => hasPrefix t name && isVersion (t.drop name.length))

def phpCmd (s : Bytes) : Bool := isCommand (ascii "php") s

def pythonCmd (s : Bytes) : Bool := isCommand (ascii "python") s

def rubyCmd (s : Bytes) : Bool := isCommand (ascii "ruby") s

def nodejsCmd (s : Bytes) : Bool := isCommand (ascii "node") s || isCommand (ascii "nodejs") s

/-! ## The type of an application -/

/-- The cases of `guessApplicationTypeByCmdline`, in their order. -/
def applicationTypes (cmd cmdline : Bytes) : List (Bool × String) :=
  let suffix (s : String) := hasSuffix cmd (ascii s)
  let inCmd (s : String) := contains cmd (ascii s)
  let inCmdline (s : String) := contains cmdline (ascii s)
  [(suffix "codexray", "codexray"),
   (suffix "codexray-node-agent", "codexray-node-agent"),
   (suffix "codexray-cluster-agent", "codexray-cluster-agent"),
   (suffix "memcached", "memcached"),
   (suffix "envoy", "envoy"),
   (inCmdline "org.elasticsearch.bootstrap", "elasticsearch"),
   (inCmdline "org.opensearch.bootstrap", "opensearch"),
   (inCmdline "kafka.Kafka" || inCmdline "io.confluent.support.metrics.SupportedKafka", "kafka"),
   (suffix "mongod", "mongodb"),
   (suffix "mongos", "mongos"),
   (suffix "mysqld", "mysql"),
   (suffix "mariadbd", "mysql"),
   (inCmdline "org.apache.zookeeper.server.quorum.QuorumPeerMain", "zookeeper"),
   (suffix "redis-server", "redis"),
   (suffix "redis-sentinel", "redis-sentinel"),
   (suffix "keydb-server", "keydb"),
   (suffix "valkey-server", "valkey"),
   (suffix "dragonfly", "dragonfly"),
   (suffix "beam.smp" && inCmdline "rabbit", "rabbitmq"),
   (suffix "beam.smp" && inCmdline "couch", "couchbase"),
   (suffix "pgbouncer", "pgbouncer"),
   (suffix "postgres", "postgres"),
   (suffix "haproxy", "haproxy"),
   (suffix "nginx", "nginx"),
   (suffix "kubelet", "kubelet"),
   (suffix "kube-apiserver", "kube-apiserver"),
   (suffix "kube-controller-manager", "kube-controller-manager"),
   (suffix "kube-scheduler", "kube-scheduler"),
   (suffix "k3s", "k3s"),
   (suffix "etcd", "etcd"),
   (suffix "dockerd", "dockerd"),
   (suffix "consul", "consul"),
   (inCmdline "org.apache.cassandra.service.CassandraDaemon", "cassandra"),
   (suffix "clickhouse-server", "clickhouse"),
   (suffix "traefik", "traefik"),
   (suffix "asd", "aerospike"),
   (suffix "httpd", "httpd"),
   (suffix "influxd", "influxdb"),
   (inCmdline "org.apache.catalina.startup.Bootstrap", "tomcat"),
   (suffix "vault", "vault"),
   (suffix "proxysql", "proxysql"),
   (suffix "cockroach", "cockroach"),
   (suffix "prometheus", "prometheus"),
   (suffix "ceph-mon" || suffix "ceph-mgr" || suffix "ceph-osd" || suffix "cephcsi", "ceph"),
   (suffix "rook", "rook"),
   (suffix "nats-server", "nats"),
   (suffix "java", "java"),
   (suffix "ollama", "ollama"),
   (suffix "fdbserver", "foundationdb"),
   (inCmd "victoria-metrics" || inCmd "vmstorage" || inCmd "vminsert" || inCmd "vmselect",
    "victoria-metrics"),
   (inCmd "victoria-logs", "victoria-logs"),
   (phpCmd cmd, "php"),
   (pythonCmd cmd, "python"),
   (nodejsCmd cmd, "nodejs"),
   (rubyCmd cmd, "ruby")]

/-- A `switch` over conditions. -/
def firstCase (cases : List (Bool × String)) : String :=
  ((cases.find? (fun c => c.1)).map (fun c => c.2)).getD ""

def guessApplicationTypeByCmdline (cmdline : Bytes) : Checked String :=
  match cmdline.splitOn 0 with
  | [] => .ok ""
  | part :: _ =>
    if part.length = 0 then .ok ""
    else do
      let cmd ← firstField part
      return firstCase (applicationTypes cmd cmdline)

def guessApplicationTypeByExe (exe : Bytes) : String :=
  firstCase [(phpCmd exe, "php"), (pythonCmd exe, "python"), (nodejsCmd exe, "nodejs"),
    (rubyCmd exe, "ruby")]

/-- What `Collect` knows of a process: its command line and the link to its executable, if they can
be read. -/
structure ProcessView where
  cmdline : Option Bytes
  exe : Option Bytes
  isGolangApp : Bool

/-- The type of one process in `Collect`. -/
def collectAppType (p : ProcessView) : Checked (List String) := do
  let cmdline := getCmdline p.cmdline
  if cmdline.length = 0 then return []
  let appType ← guessApplicationTypeByCmdline cmdline
  let appType :=
    if appType = "" then (p.exe.map guessApplicationTypeByExe).getD "" else appType
  return (if appType = "" then [] else [appType]) ++ (if p.isGolangApp then ["golang"] else [])

def collectAppTypes : List ProcessView → Checked (List String)
  | [] => .ok []
  | p :: ps => do
    let types ← collectAppType p
    let rest ← collectAppTypes ps
    return types ++ rest

/-! ## Instrumentation -/

/-- The command line is one of Python, so that its probes are attached. -/
def instrumentPython (cmdline : Bytes) : Checked Bool := do
  let cmd ← elemAt (cmdline.splitOn 0) 0
  if cmd.length = 0 then return false
  let cmd ← firstField cmd
  return pythonCmd cmd

/-- What one round of `instrument` reads. -/
structure Poll where
  exe : Option Bytes
  cmdline : Option Bytes

/-- The rounds of `instrument`, until the process is closed. -/
def instrument : List Poll → Checked Bool
  | [] => .ok false
  | poll :: polls =>
    match poll.exe with
    | none => .ok false
    | some dest =>
      let cmdline := getCmdline poll.cmdline
      if dest ≠ ascii "/" ∧ cmdline.length > 0 then instrumentPython cmdline
      else instrument polls

/-! ## What is read from a command line -/

theorem noPanic_firstField (part : Bytes) :
    NoPanic (firstField part) ↔ ∃ r ∈ runes part, isSpace r = false := by
  rw [firstField, noPanic_bind_pure, noPanic_elemAt_zero, ne_eq, fields_eq_nil_iff]
  simp

def firstPart (cmdline : Bytes) : Bytes := cmdline.takeWhile (fun b => b ≠ 0)

theorem splitOn_eq_cons (cmdline : Bytes) :
    ∃ parts, cmdline.splitOn 0 = firstPart cmdline :: parts := by
  induction cmdline with
  | nil => exact ⟨[], rfl⟩
  | cons b cmdline ih =>
    obtain ⟨parts, ih⟩ := ih
    rw [List.splitOn] at ih ⊢
    rw [List.splitOnP_cons_eq_if_modifyHead, ih]
    by_cases hb : b = 0
    · simp [hb, firstPart]
    · simp [hb, firstPart]

/-- The first part is empty, or has something else than white space. -/
def NamesCommand (cmdline : Bytes) : Prop :=
  firstPart cmdline = [] ∨ ∃ r ∈ runes (firstPart cmdline), isSpace r = false

theorem noPanic_firstPart {α : Type} (empty : α) (f : Bytes → α) (cmdline : Bytes) :
    NoPanic (if (firstPart cmdline).length = 0 then .ok empty
      else firstField (firstPart cmdline) >>= fun field => pure (f field)) ↔
      NamesCommand cmdline := by
  simp only [List.length_eq_zero_iff, NamesCommand]
  split
  · next hempty => exact iff_of_true (noPanic_ok _) (.inl hempty)
  · next hne => rw [noPanic_bind_pure, noPanic_firstField, or_iff_right hne]

theorem noPanic_guess (cmdline : Bytes) :
    NoPanic (guessApplicationTypeByCmdline cmdline) ↔ NamesCommand cmdline := by
  obtain ⟨parts, hparts⟩ := splitOn_eq_cons cmdline
  rw [guessApplicationTypeByCmdline, hparts]
  exact noPanic_firstPart _ _ cmdline

theorem noPanic_instrumentPython (cmdline : Bytes) :
    NoPanic (instrumentPython cmdline) ↔ NamesCommand cmdline := by
  obtain ⟨parts, hparts⟩ := splitOn_eq_cons cmdline
  have hindex : elemAt (cmdline.splitOn 0) 0 = .ok (firstPart cmdline) := by
    rw [hparts]
    rfl
  rw [instrumentPython, hindex]
  exact noPanic_firstPart _ _ cmdline

/-! ## The loops -/

theorem namesCommand_nil : NamesCommand [] := .inl rfl

theorem noPanic_collectAppType (p : ProcessView) :
    NoPanic (collectAppType p) ↔ NamesCommand (getCmdline p.cmdline) := by
  unfold collectAppType
  simp only [List.length_eq_zero_iff]
  split
  · rename_i hempty
    rw [hempty]
    exact iff_of_true (noPanic_ok _) namesCommand_nil
  · rw [noPanic_bind_pure]
    exact noPanic_guess _

/-- **`Collect` gets through its processes if and only if it gets through each of them.** -/
theorem noPanic_collectAppTypes : ∀ ps : List ProcessView,
    NoPanic (collectAppTypes ps) ↔ ∀ p ∈ ps, NamesCommand (getCmdline p.cmdline)
  | [] => iff_of_true (noPanic_ok _) fun _ h => by cases h
  | p :: ps => by
    rw [List.forall_mem_cons, ← noPanic_collectAppType, ← noPanic_collectAppTypes ps]
    rw [collectAppTypes]
    cases collectAppType p with
    | error e => exact iff_of_false (not_noPanic_error e) fun h => not_noPanic_error e h.1
    | ok types =>
      rw [and_iff_right (noPanic_ok types)]
      exact noPanic_bind_pure (x := collectAppTypes ps)

theorem noPanic_instrument : ∀ polls : List Poll,
    (∀ p ∈ polls, NamesCommand (getCmdline p.cmdline)) → NoPanic (instrument polls)
  | [], _ => noPanic_ok _
  | poll :: polls, h => by
    rw [List.forall_mem_cons] at h
    unfold instrument
    split
    · exact noPanic_ok _
    · simp only
      split
      · exact (noPanic_instrumentPython _).mpr h.1
      · exact noPanic_instrument polls h.2

/-- **A command line does not crash the agent, whichever processes have it, if and only if its first
part is empty or not white space only.** -/
theorem cmdline_no_panic_iff (data : Option Bytes) :
    ((∀ ps : List ProcessView, (∀ p ∈ ps, p.cmdline = data) → NoPanic (collectAppTypes ps)) ∧
      ∀ polls : List Poll, (∀ p ∈ polls, p.cmdline = data) → NoPanic (instrument polls)) ↔
    NamesCommand (getCmdline data) := by
  constructor
  · rintro ⟨h, -⟩
    have hone := h [⟨data, none, false⟩] (by simp)
    exact (noPanic_collectAppTypes _).mp hone _ List.mem_cons_self
  · refine fun h => ⟨fun ps hps => ?_, fun polls hpolls => ?_⟩
    · exact (noPanic_collectAppTypes ps).mpr fun p hp => hps p hp ▸ h
    · exact noPanic_instrument polls fun p hp => hpolls p hp ▸ h

/-- A process whose first argument is a blank. -/
theorem blank_command_panics :
    collectAppTypes [⟨some [32, 0], none, false⟩] = .error (.indexOutOfRange 0 0) ∧
      instrument [⟨some (ascii "/bin/sleep"), some [32, 0]⟩] = .error (.indexOutOfRange 0 0) :=
  ⟨rfl, rfl⟩

end Containers
