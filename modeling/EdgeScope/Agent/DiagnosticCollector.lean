import EdgeScope.Agent.LogCollector
import EdgeScope.Agent.ProcessCollector
import EdgeScope.Agent.SystemCollector
import EdgeScope.Disk.FileTree
import EdgeScope.Text.Window

/-!
# `DiagnosticCollector`

A bundle is collected into a staging directory, packed by `tar`, and registered. The file
tree is the diagnostic directory; whether a step on it succeeds is the environment's choice.
-/

namespace EdgeScope
open Text

structure NetworkInterfaceInfo where
  name : Bytes
  ipv4Addresses : List Bytes
  ipv6Addresses : List Bytes
  rxBytes : ℕ
  txBytes : ℕ
  state : Bytes

structure TcpConnectionInfo where
  protocol : Bytes
  localAddress : Bytes
  localPort : ℕ
  remoteAddress : Bytes
  remotePort : ℕ
  state : Bytes
  inode : ℕ
  pid : ℤ

structure DiagnosticBundleInfo where
  id : Bytes
  filename : Bytes
  sizeBytes : ℕ
  createdAtUnixSeconds : ℕ
  deriving DecidableEq

structure StoredBundle where
  info : DiagnosticBundleInfo
  path : Path
  deriving DecidableEq

/-- A write that fails leaves some file or none. A stream that is destroyed flushes what it still
holds, and nobody sees how far that gets. -/
inductive WriteOutcome
  | written
  | cut (length : ℕ)
  | failed (left : Option Bytes)

inductive TarOutcome
  | created (contents : Bytes)
  | forkFailed
  | failed (left : Option Bytes)

/-- What the environment does during one `CreateBundle`. A step that fails has the text of its
error. -/
structure BundleEnvironment where
  createRoot : Option Bytes
  secureRoot : Option Bytes
  timestamp : ℕ
  createStaging : Option Bytes
  secureStaging : Option Bytes
  hostname : Bytes
  kernelRelease : Bytes
  /-- `double` values as the streams print them: with two decimals, and by default. -/
  fixedText : Double → Bytes
  defaultText : Double → Bytes
  write : Path → WriteOutcome
  processes : Except Bytes (List ProcessInfo)
  interfaces : Except Bytes (List NetworkInterfaceInfo)
  connections : Except Bytes (List TcpConnectionInfo)
  createLogsDirectoryFails : Bool
  isRegularFile : Bytes → Bool
  openFile : OpenFile
  tar : TarOutcome
  fileSizeFails : Bool

/-- An environment in which every step succeeds and `tar` writes `archive`. -/
def BundleEnvironment.quiet (archive : Bytes) : BundleEnvironment where
  createRoot := none
  secureRoot := none
  timestamp := 1700000000
  createStaging := none
  secureStaging := none
  hostname := ascii "host"
  kernelRelease := ascii "6.1"
  fixedText _ := ascii "0.00"
  defaultText _ := ascii "0"
  write _ := .written
  processes := .ok []
  interfaces := .ok []
  connections := .ok []
  createLogsDirectoryFails := false
  isRegularFile _ := false
  openFile _ := .error .enoent
  tar := .created archive
  fileSizeFails := false

structure DiagnosticCollector where
  pid : ℕ
  logCollector : LogCollector
  bundles : List StoredBundle
  sequence : ℕ
  tree : FileTree

namespace DiagnosticCollector

def kMaximumBundles : ℕ := 5
def kRecentLogLines : ℕ := 200

def create (pid : ℕ) (logCollector : LogCollector) : DiagnosticCollector :=
  ⟨pid, logCollector, [], 0, .empty⟩

def signedDecimal (n : ℤ) : Bytes := (if n < 0 then ascii "-" else []) ++ decimal n.natAbs

def tab : Bytes := ascii "\t"
def endLine : Bytes := [newline]

def join (values : List Bytes) : Bytes := (values.intersperse (ascii ",")).flatten

def systemInfoText (env : BundleEnvironment) (metrics : SystemMetrics) : Bytes :=
  ascii "hostname: " ++ env.hostname ++ endLine ++
  ascii "kernel: " ++ env.kernelRelease ++ endLine ++
  ascii "cpu_usage_percent: " ++ env.fixedText metrics.cpuUsagePercent ++ endLine ++
  ascii "memory_total_bytes: " ++ decimal metrics.memoryTotalBytes ++ endLine ++
  ascii "memory_available_bytes: " ++ decimal metrics.memoryAvailableBytes ++ endLine ++
  ascii "memory_used_bytes: " ++ decimal metrics.memoryUsedBytes ++ endLine ++
  ascii "load_average: " ++ env.fixedText metrics.loadAverage1m ++ ascii " " ++
    env.fixedText metrics.loadAverage5m ++ ascii " " ++
    env.fixedText metrics.loadAverage15m ++ endLine ++
  ascii "uptime_seconds: " ++ decimal metrics.uptimeSeconds ++ endLine

def processRow (env : BundleEnvironment) (process : ProcessInfo) : Bytes :=
  signedDecimal process.pid ++ tab ++ signedDecimal process.ppid ++ tab ++ process.state ++ tab ++
    env.defaultText process.cpuUsagePercent ++ tab ++ decimal process.residentMemoryBytes ++ tab ++
    decimal process.threadCount ++ tab ++ process.name ++ tab ++ process.commandLine ++ endLine

def processesText (env : BundleEnvironment) (processes : List ProcessInfo) : Bytes :=
  ascii "PID\tPPID\tSTATE\tCPU%\tRSS_BYTES\tTHREADS\tNAME\tCOMMAND\n" ++
    processes.flatMap (processRow env)

def interfaceRow (interface : NetworkInterfaceInfo) : Bytes :=
  interface.name ++ tab ++ interface.state ++ tab ++ join interface.ipv4Addresses ++ tab ++
    join interface.ipv6Addresses ++ tab ++ decimal interface.rxBytes ++ tab ++
    decimal interface.txBytes ++ endLine

def connectionRow (connection : TcpConnectionInfo) : Bytes :=
  connection.protocol ++ tab ++ connection.localAddress ++ ascii ":" ++
    decimal connection.localPort ++ tab ++ connection.remoteAddress ++ ascii ":" ++
    decimal connection.remotePort ++ tab ++ connection.state ++ tab ++
    signedDecimal connection.pid ++ endLine

def sectionText {α : Type} (title : Bytes) (row : α → Bytes) : Except Bytes (List α) → Bytes
  | .error _ => []
  | .ok values => title ++ values.flatMap row

def networkText (env : BundleEnvironment) : Bytes :=
  sectionText (ascii "INTERFACES\n") interfaceRow env.interfaces ++
    sectionText (ascii "\nTCP_CONNECTIONS\n") connectionRow env.connections

def failureText {α : Type} (source : Bytes) : Except Bytes α → Bytes
  | .error error => source ++ ascii ": " ++ error ++ endLine
  | .ok _ => []

/-- The collection so far. The first error ends it. -/
structure Staging where
  tree : FileTree
  error : Option Bytes
  failures : Bytes

def Staging.andThen (st : Staging) (step : Staging → Staging) : Staging :=
  match st.error with
  | some _ => st
  | none => step st

def writeTextFile (env : BundleEnvironment) (path : Path) (contents : Bytes) (st : Staging) :
    Staging :=
  match env.write path with
  | .written => { st with tree := st.tree.set path (some (.file contents)) }
  | .cut length => { st with tree := st.tree.set path (some (.file (contents.take length))) }
  | .failed left =>
    { st with
      tree := st.tree.set path (left.map .file)
      error := some (ascii "failed to write diagnostic file: " ++ path.getLast?.getD []) }

def collectProcesses (env : BundleEnvironment) (staging : Path) (st : Staging) : Staging :=
  match env.processes with
  | .error error =>
    { st with failures := st.failures ++ ascii "processes: " ++ error ++ endLine }
  | .ok processes =>
    writeTextFile env (staging ++ [ascii "processes.txt"]) (processesText env processes) st

def collectNetwork (env : BundleEnvironment) (staging : Path) (st : Staging) : Staging :=
  writeTextFile env (staging ++ [ascii "network.txt"]) (networkText env)
    { st with failures := st.failures ++ failureText (ascii "interfaces") env.interfaces ++
        failureText (ascii "tcp_connections") env.connections }

def logsDirectory (staging : Path) : Path := staging ++ [ascii "recent_logs"]

def createLogsDirectory (env : BundleEnvironment) (staging : Path) (st : Staging) : Staging :=
  if env.createLogsDirectoryFails then
    { st with error := some (ascii "failed to create recent_logs directory") }
  else { st with tree := st.tree.set (logsDirectory staging) (some .directory) }

def collectLog (env : BundleEnvironment) (logCollector : LogCollector) (staging : Path)
    (source : LogSourceInfo) (st : Staging) : Staging :=
  if source.available then
    match logCollector.readLog env.openFile source.id kRecentLogLines [] with
    | .error (_, error) =>
      { st with
        failures := st.failures ++ ascii "log " ++ source.id ++ ascii ": " ++ error ++ endLine }
    | .ok result =>
      writeTextFile env (logsDirectory staging ++ [source.id ++ ascii ".log"])
        (result.lines.flatMap (· ++ endLine)) st
  else st

def collectLogs (env : BundleEnvironment) (logCollector : LogCollector) (staging : Path)
    (st : Staging) : Staging :=
  (logCollector.listLogs env.isRegularFile).foldl
    (fun st source => st.andThen (collectLog env logCollector staging source)) st

def writeFailures (env : BundleEnvironment) (staging : Path) (st : Staging) : Staging :=
  writeTextFile env (staging ++ [ascii "collection_errors.txt"]) st.failures st

def collect (env : BundleEnvironment) (logCollector : LogCollector) (metrics : SystemMetrics)
    (staging : Path) (st : Staging) : Staging :=
  st
    |>.andThen
      (writeTextFile env (staging ++ [ascii "system_info.txt"]) (systemInfoText env metrics))
    |>.andThen (writeTextFile env (staging ++ [ascii "agent_version.txt"]) (ascii "1.0.0\n"))
    |>.andThen (collectProcesses env staging)
    |>.andThen (collectNetwork env staging)
    |>.andThen (createLogsDirectory env staging)
    |>.andThen (collectLogs env logCollector staging)
    |>.andThen (writeFailures env staging)

def createTarGzip (env : BundleEnvironment) (archive : Path) (st : Staging) : Staging :=
  match env.tar with
  | .created contents => { st with tree := st.tree.set archive (some (.file contents)) }
  | .forkFailed => { st with error := some (ascii "failed to fork tar process") }
  | .failed left =>
    { st with
      tree := st.tree.set archive (left.map .file)
      error := some (ascii "tar failed to create diagnostic archive") }

def prepareRoot (env : BundleEnvironment) : Except Bytes Unit :=
  match env.createRoot with
  | some message => .error (ascii "failed to create diagnostic directory: " ++ message)
  | none =>
    match env.secureRoot with
    | some message => .error (ascii "failed to secure diagnostic directory: " ++ message)
    | none => .ok ()

def bundleId (timestamp pid sequence : ℕ) : Bytes :=
  decimal timestamp ++ ascii "-" ++ decimal pid ++ ascii "-" ++ decimal sequence

def stagingPath (id : Bytes) : Path := [ascii "staging-" ++ id]

def archiveName (id : Bytes) : Bytes := ascii "edgescope-diagnostic-" ++ id ++ ascii ".tar.gz"

def archivePath (id : Bytes) : Path := [archiveName id]

/-- The bundles beyond the newest five leave the registry and the directory. -/
def removeOldBundles : List StoredBundle → FileTree → List StoredBundle × FileTree
  | [], tree => ([], tree)
  | bundle :: bundles, tree =>
    if kMaximumBundles < (bundle :: bundles).length then
      removeOldBundles bundles (tree.set bundle.path none)
    else (bundle :: bundles, tree)

/-- What a call leaves: the collector, the caller's `*bundle`, and the outcome. -/
structure CreateResult where
  collector : DiagnosticCollector
  bundle : DiagnosticBundleInfo
  outcome : Except Bytes Unit

def registerArchive (env : BundleEnvironment) (id : Bytes) (tree : FileTree)
    (bundle : DiagnosticBundleInfo) (s : DiagnosticCollector) : CreateResult :=
  match env.fileSizeFails, tree (archivePath id) with
  | false, some (.file contents) =>
    let info : DiagnosticBundleInfo := ⟨id, archiveName id, contents.length, env.timestamp⟩
    let (bundles, tree) := removeOldBundles (s.bundles ++ [⟨info, archivePath id⟩]) tree
    ⟨{ s with bundles := bundles, tree := tree }, info, .ok ()⟩
  | _, _ =>
    ⟨{ s with tree := tree.set (archivePath id) none }, bundle,
      .error (ascii "failed to determine diagnostic archive size")⟩

def packBundle (env : BundleEnvironment) (metrics : SystemMetrics) (id : Bytes) (tree : FileTree)
    (bundle : DiagnosticBundleInfo) (s : DiagnosticCollector) : CreateResult :=
  let staging := stagingPath id
  let st := (collect env s.logCollector metrics staging ⟨tree, none, []⟩).andThen
    (createTarGzip env (archivePath id))
  let tree := st.tree.removeAll staging
  match st.error with
  | some error => ⟨{ s with tree := tree.set (archivePath id) none }, bundle, .error error⟩
  | none => registerArchive env id tree bundle s

def createBundle (env : BundleEnvironment) (metrics : SystemMetrics)
    (bundle : DiagnosticBundleInfo) (s : DiagnosticCollector) : CreateResult :=
  match prepareRoot env with
  | .error error => ⟨s, bundle, .error error⟩
  | .ok () =>
    let s := { s with sequence := s.sequence + 1 }
    let id := bundleId env.timestamp s.pid s.sequence
    let staging := stagingPath id
    match env.createStaging, s.tree staging with
    | some message, _ =>
      ⟨s, bundle, .error (ascii "failed to create diagnostic staging directory: " ++ message)⟩
    | none, some _ =>
      -- the directory exists, which is no error but creates nothing
      ⟨s, bundle, .error (ascii "failed to create diagnostic staging directory: Success")⟩
    | none, none =>
      let tree := s.tree.set staging (some .directory)
      match env.secureStaging with
      | some message =>
        ⟨{ s with tree := tree.removeAll staging }, bundle,
          .error (ascii "failed to secure diagnostic staging directory: " ++ message)⟩
      | none => packBundle env metrics id tree bundle s

def getBundlePath (s : DiagnosticCollector) (id : Bytes) : Except Bytes (Path × ℕ) :=
  match s.bundles.find? fun bundle => bundle.info.id = id with
  | some bundle => .ok (bundle.path, bundle.info.sizeBytes)
  | none => .error (ascii "diagnostic bundle not found")

end DiagnosticCollector
end EdgeScope
