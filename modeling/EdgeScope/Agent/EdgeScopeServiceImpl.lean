import EdgeScope.Agent.AgentConfig
import EdgeScope.Agent.BundleDownload
import EdgeScope.Agent.ProcessController
import EdgeScope.Agent.StreamLog

/-!
# `EdgeScopeServiceImpl`

The handlers of the service. Beside its messages and its status, a handler leaves the list of
what it has done to the host: the signals, the runs of `systemctl` and the files opened.
-/

namespace EdgeScope
open Text

inductive Effect
  | signal (pid : ℤ) (signal : Signal)
  | systemctl (arguments : List Bytes)
  | openLog (path : Bytes)
  | openBundle (path : Path)
  deriving DecidableEq

/-- What a handler finds on the host during one call. -/
structure Host where
  hostname : Bytes
  /-- The first line of `/proc/sys/kernel/osrelease`. -/
  osRelease : Bytes
  uptimeSeconds : ℕ
  /-- The answer of `GetLatest`, and those of `WaitForNext` until the call is cancelled. -/
  latest : Except Bytes (SystemMetrics × ℕ)
  waits : List (Except Bytes (SystemMetrics × ℕ))
  proc : ProcFs
  kill : ℤ → Signal → Option Errno
  interfaces : Except Bytes (List NetworkInterfaceInfo)
  connections : Except Bytes (List TcpConnectionInfo)
  isRegularFile : Bytes → Bool
  openFile : OpenFile
  stat : Bytes → Option FileStatus
  /-- What the iterations of `StreamLog` find at a path until the call is cancelled. -/
  polls : Bytes → List StreamLog.Poll
  writer : ℕ → Bool
  runner : ServiceCommandRunner
  bundle : BundleEnvironment
  /-- What the steps of a download find; after them the call is cancelled. -/
  moments : List BundleDownload.Moment

def Host.quiet : Host where
  hostname := ascii "host"
  osRelease := ascii "6.1"
  uptimeSeconds := 1
  latest := .ok (⟨0, 0, 0, 0, 0, 0, 0, 0⟩, 1)
  waits := []
  proc := ⟨.ok [], fun _ => ⟨.error .enoent, .error .enoent, .error .enoent, .error .enoent⟩,
    fun _ _ => 0⟩
  kill _ _ := none
  interfaces := .ok []
  connections := .ok []
  isRegularFile _ := false
  openFile _ := .error .enoent
  stat _ := none
  polls _ := []
  writer _ := true
  runner _ _ := .ok ⟨0, []⟩
  bundle := .quiet [1, 2, 3]
  moments := List.replicate 5 {}

structure EdgeScopeServiceImpl where
  /-- The agent's own pid. -/
  getpid : ℤ
  sampleInterval : ℕ
  logCollector : LogCollector
  diagnosticCollector : DiagnosticCollector
  allowedServices : List Bytes

structure Answer where
  service : EdgeScopeServiceImpl
  effects : List Effect
  messages : List Message
  status : Status

namespace EdgeScopeServiceImpl

def kDefaultStreamIntervalMs : ℕ := 1000
def kMinStreamIntervalMs : ℕ := 1000
def kMaxStreamIntervalMs : ℕ := 60000

def create (pid : ℕ) (config : AgentConfig) : EdgeScopeServiceImpl where
  getpid := pid
  sampleInterval := config.sampleInterval
  logCollector := .create config.logFile
  diagnosticCollector := .create pid (.create config.logFile)
  allowedServices := config.allowedServices

def processCollectorStatus : ProcessCollectorError × Bytes → Status
  | (.invalidArgument, error) => ⟨.invalidArgument, error⟩
  | (.notFound, error) => ⟨.notFound, error⟩
  | (.permissionDenied, error) => ⟨.permissionDenied, error⟩
  | (.parseError, error) => ⟨.internal, error⟩
  | (.ioError, error) => ⟨.internal, error⟩

def processControlStatus : ProcessControlError × Bytes → Status
  | (.invalidArgument, error) => ⟨.invalidArgument, error⟩
  | (.notFound, error) => ⟨.notFound, error⟩
  | (.permissionDenied, error) => ⟨.permissionDenied, error⟩
  | (.internal, error) => ⟨.internal, error⟩

def logStatus : LogCollectorError × Bytes → Status
  | (.invalidArgument, error) => ⟨.invalidArgument, error⟩
  | (.notFound, error) => ⟨.notFound, error⟩
  | (.permissionDenied, error) => ⟨.permissionDenied, error⟩
  | (.ioError, error) => ⟨.internal, error⟩

def serviceStatus : ServiceManagerError × Bytes → Status
  | (.invalidArgument, error) => ⟨.invalidArgument, error⟩
  | (.notAllowed, error) => ⟨.permissionDenied, error⟩
  | (.permissionDenied, error) => ⟨.permissionDenied, error⟩
  | (.notFound, error) => ⟨.notFound, error⟩
  | (.commandFailed, error) => ⟨.failedPrecondition, error⟩

def internal (error : Bytes) : Status := ⟨.internal, error⟩

def reply {ε α : Type} (s : EdgeScopeServiceImpl) (effects : List Effect) (status : ε → Status)
    (message : α → Message) : Except ε α → Answer
  | .error error => ⟨s, effects, [], status error⟩
  | .ok value => ⟨s, effects, [message value], .ok⟩

def refuse (s : EdgeScopeServiceImpl) (code : StatusCode) (message : Bytes) : Answer :=
  ⟨s, [], [], ⟨code, message⟩⟩

variable (host : Host) (s : EdgeScopeServiceImpl)

def getAgentInfo : Answer :=
  let kernelVersion := if host.osRelease = [] then ascii "unknown" else host.osRelease
  ⟨s, [], [.agentInfo ⟨host.hostname, kernelVersion, host.uptimeSeconds, ascii "1.0.0"⟩], .ok⟩

def getSystemMetrics : Answer :=
  reply s [] internal (fun latest => .systemMetrics latest.1) host.latest

/-- The loop over samples; the subtraction is one of `std::uint64_t`. -/
def metricsLoop (samplesPerResponse : ℕ) (writer : ℕ → Bool) :
    List (Except Bytes (SystemMetrics × ℕ)) → ℕ → List SystemMetrics → List SystemMetrics × Status
  | [], _, written => (written, .ok)
  | .error error :: _, _, written => (written, internal error)
  | .ok (metrics, generation) :: waits, lastSentGeneration, written =>
    if (generation + wordSize - lastSentGeneration) % wordSize < samplesPerResponse then
      metricsLoop samplesPerResponse writer waits lastSentGeneration written
    else if writer written.length then
      metricsLoop samplesPerResponse writer waits generation (written ++ [metrics])
    else (written, .ok)

def streamSystemMetrics (intervalMs : ℕ) : Answer :=
  let intervalMs := if intervalMs = 0 then kDefaultStreamIntervalMs else intervalMs
  if intervalMs < kMinStreamIntervalMs ∨ kMaxStreamIntervalMs < intervalMs then
    refuse s .invalidArgument (ascii "interval_ms must be between 1000 and 60000")
  else
    match host.latest with
    | .error error => ⟨s, [], [], internal error⟩
    | .ok (metrics, generation) =>
      if host.writer 0 then
        let samplesPerResponse := (intervalMs + s.sampleInterval - 1) / s.sampleInterval
        let (written, status) :=
          metricsLoop samplesPerResponse host.writer host.waits generation [metrics]
        ⟨s, [], written.map .systemMetrics, status⟩
      else ⟨s, [], [], .ok⟩

def listProcesses : Answer :=
  reply s [] internal .processes (ProcessCollector.listProcesses host.proc)

def getProcessDetails (pid : ℤ) : Answer :=
  reply s [] processCollectorStatus .process (ProcessCollector.getProcess host.proc pid)

def processAction : ℤ → Option ProcessControlAction
  | 1 => some .terminate
  | 2 => some .kill
  | 3 => some .stop
  | 4 => some .continue'
  | _ => none

def controlProcess (pid action : ℤ) : Answer :=
  match processAction action with
  | none => refuse s .invalidArgument (ascii "a supported process action is required")
  | some action =>
    let call := ProcessController.control s.getpid host.kill pid action
    reply s (call.signals.map fun sent => .signal sent.1 sent.2) processControlStatus
      (fun _ => .controlProcess) call.result

def getNetworkInterfaces : Answer := reply s [] internal .interfaces host.interfaces

def listTcpConnections : Answer := reply s [] internal .connections host.connections

def listLogs : Answer := ⟨s, [], [.logs (s.logCollector.listLogs host.isRegularFile)], .ok⟩

def readLog (logId : Bytes) (maxLines : ℕ) (keyword : Bytes) : Answer :=
  let effects := match s.logCollector.checkRead logId maxLines keyword with
    | .error _ => []
    | .ok allowedLog => [.openLog allowedLog.path]
  reply s effects logStatus (fun result => .logLines result.lines result.truncated)
    (s.logCollector.readLog host.openFile logId maxLines keyword)

def streamLog (logId keyword : Bytes) (startAtEnd : Bool) : Answer :=
  if 256 < keyword.length then refuse s .invalidArgument (ascii "keyword is too long")
  else
    match s.logCollector.resolveLogPath logId with
    | .error error => ⟨s, [], [], logStatus error⟩
    | .ok path =>
      match host.stat path with
      | none => refuse s .notFound (ascii "log file is not available")
      | some fileStatus =>
        let state := StreamLog.start startAtEnd fileStatus
        let opens := StreamLog.opens keyword host.writer (host.polls path) state
        let written := (StreamLog.run keyword host.writer (host.polls path) state).1.written
        ⟨s, List.replicate opens (.openLog path), written.map .logLine, .ok⟩

def systemctlRuns (commands : List (List Bytes)) : List Effect :=
  commands.map fun arguments => .systemctl (ServiceManager.childArguments arguments)

def listServices : Answer :=
  let call := ServiceManager.listServices s.allowedServices host.runner
  reply s (systemctlRuns call.commands) internal .services call.result

def serviceAction : ℤ → Option ServiceAction
  | 1 => some .start
  | 2 => some .stop
  | 3 => some .restart
  | _ => none

def controlService (name : Bytes) (action : ℤ) : Answer :=
  match serviceAction action with
  | none => refuse s .invalidArgument (ascii "a supported service action is required")
  | some action =>
    let call := ServiceManager.controlService s.allowedServices host.runner name action
    reply s (systemctlRuns call.commands) serviceStatus (fun _ => .controlService) call.result

def createDiagnosticBundle : Answer :=
  match host.latest with
  | .error error => ⟨s, [], [], internal error⟩
  | .ok (metrics, _) =>
    let result := DiagnosticCollector.createBundle host.bundle metrics ⟨[], [], 0, 0⟩
      s.diagnosticCollector
    reply { s with diagnosticCollector := result.collector } [] internal
      (fun _ => .bundle result.bundle) result.outcome

/-- The steps of the handler. Four of a call that has been cancelled bring it to its end. -/
def download (bundleId : Bytes) : BundleDownload.Download :=
  (host.moments ++ List.replicate 4 BundleDownload.Moment.quit).foldl
    (fun d m => BundleDownload.step s.diagnosticCollector bundleId m d) BundleDownload.start

def downloadDiagnosticBundle (bundleId : Bytes) : Answer :=
  let d := download host s bundleId
  let status := match d.phase with
    | .finished status => status
    | _ => .ok
  ⟨s, d.opened.map .openBundle, d.written.map .chunk, status⟩

/-- The handler always comes to its end, and the call has the status it returned. -/
theorem phase_download (bundleId : Bytes) : (download host s bundleId).phase =
    .finished (downloadDiagnosticBundle host s bundleId).status := by
  have hquit := BundleDownload.rank_quit s.diagnosticCollector bundleId 4
    (host.moments.foldl (fun d m => BundleDownload.step s.diagnosticCollector bundleId m d)
      BundleDownload.start)
  have hrank (phase : BundleDownload.Phase) : phase.rank ≤ 4 := by
    cases phase <;> simp [BundleDownload.Phase.rank]
  have hfour := hrank (host.moments.foldl
    (fun d m => BundleDownload.step s.diagnosticCollector bundleId m d) BundleDownload.start).phase
  obtain ⟨status, hfinished⟩ : ∃ status,
      (download host s bundleId).phase = .finished status := by
    refine BundleDownload.Phase.finished_of_rank_eq_zero ?_
    rw [download, List.foldl_append]
    omega
  simp only [downloadDiagnosticBundle, hfinished]

def handle : Request → Answer
  | .getAgentInfo => getAgentInfo host s
  | .getSystemMetrics => getSystemMetrics host s
  | .streamSystemMetrics intervalMs => streamSystemMetrics host s intervalMs
  | .listProcesses => listProcesses host s
  | .getProcessDetails pid => getProcessDetails host s pid
  | .controlProcess pid action => controlProcess host s pid action
  | .getNetworkInterfaces => getNetworkInterfaces host s
  | .listTcpConnections => listTcpConnections host s
  | .listLogs => listLogs host s
  | .readLog logId maxLines keyword => readLog host s logId maxLines keyword
  | .streamLog logId keyword startAtEnd => streamLog host s logId keyword startAtEnd
  | .listServices => listServices host s
  | .controlService name action => controlService host s name action
  | .createDiagnosticBundle => createDiagnosticBundle host s
  | .downloadDiagnosticBundle bundleId => downloadDiagnosticBundle host s bundleId

end EdgeScopeServiceImpl

structure RpcCall where
  request : Request
  host : Host

namespace EdgeScopeServiceImpl

def answer (s : EdgeScopeServiceImpl) (call : RpcCall) : Answer := handle call.host s call.request

def serve (s : EdgeScopeServiceImpl) (calls : List RpcCall) : EdgeScopeServiceImpl :=
  calls.foldl (fun s call => (s.answer call).service) s

theorem reply_service {ε α : Type} (s : EdgeScopeServiceImpl) (effects : List Effect)
    (status : ε → Status) (message : α → Message) (result : Except ε α) :
    (reply s effects status message result).service = s := by
  cases result <;> rfl

/-- Only `CreateDiagnosticBundle` changes the service. -/
theorem answer_service_of_ne {s : EdgeScopeServiceImpl} {call : RpcCall}
    (h : call.request ≠ .createDiagnosticBundle) : (s.answer call).service = s := by
  obtain ⟨request, host⟩ := call
  cases request with
  | createDiagnosticBundle => exact absurd rfl h
  | streamSystemMetrics intervalMs =>
    simp only [answer, handle, streamSystemMetrics]
    generalize (if intervalMs = 0 then kDefaultStreamIntervalMs else intervalMs) = intervalMs
    split
    · rfl
    · split
      · rfl
      · split <;> rfl
  | controlProcess pid action =>
    simp only [answer, handle, controlProcess]
    split
    · rfl
    · exact reply_service ..
  | streamLog logId keyword startAtEnd =>
    simp only [answer, handle, streamLog]
    split
    · rfl
    · split
      · rfl
      · split <;> rfl
  | controlService name action =>
    simp only [answer, handle, controlService]
    split
    · rfl
    · exact reply_service ..
  | getAgentInfo => rfl
  | listLogs => rfl
  | downloadDiagnosticBundle bundleId => rfl
  | _ => exact reply_service ..

theorem answer_service (s : EdgeScopeServiceImpl) (call : RpcCall) :
    ∃ collector, (s.answer call).service = { s with diagnosticCollector := collector } := by
  by_cases h : call.request = .createDiagnosticBundle
  · simp only [answer, h, handle, createDiagnosticBundle]
    split
    · exact ⟨s.diagnosticCollector, rfl⟩
    · exact ⟨_, reply_service ..⟩
  · exact ⟨s.diagnosticCollector, answer_service_of_ne h⟩

theorem serve_service (s : EdgeScopeServiceImpl) (calls : List RpcCall) :
    ∃ collector, s.serve calls = { s with diagnosticCollector := collector } := by
  induction calls generalizing s with
  | nil => exact ⟨s.diagnosticCollector, rfl⟩
  | cons call calls ih =>
    obtain ⟨collector, hcall⟩ := s.answer_service call
    obtain ⟨collector', hcalls⟩ := ih (s.answer call).service
    rw [hcall] at hcalls
    exact ⟨collector', by rw [serve, List.foldl_cons, hcall]; exact hcalls⟩

theorem serve_append (s : EdgeScopeServiceImpl) (calls : List RpcCall) (call : RpcCall) :
    s.serve (calls ++ [call]) = ((s.serve calls).answer call).service := by
  rw [serve, List.foldl_append]
  rfl

end EdgeScopeServiceImpl
end EdgeScope
