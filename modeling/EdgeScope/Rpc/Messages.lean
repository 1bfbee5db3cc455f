import EdgeScope.Agent.DiagnosticCollector
import EdgeScope.Agent.ServiceManager

/-!
# The messages of the service

The requests and messages of the protocol. A message with the fields of one of the agent's
records is that record. A number of an enumeration may be unknown.
-/

namespace EdgeScope

inductive StatusCode
  | ok
  | cancelled
  | unknown
  | invalidArgument
  | deadlineExceeded
  | notFound
  | alreadyExists
  | permissionDenied
  | resourceExhausted
  | failedPrecondition
  | aborted
  | outOfRange
  | unimplemented
  | internal
  | unavailable
  | dataLoss
  | unauthenticated
  deriving DecidableEq, Repr

/-- `grpc::Status`. -/
structure Status where
  code : StatusCode
  message : Bytes := []
  deriving DecidableEq

def Status.ok : Status := ⟨.ok, []⟩

structure DiagnosticChunk where
  data : Bytes
  offset : ℕ
  totalSizeBytes : ℕ
  eof : Bool
  deriving DecidableEq

inductive Request
  | getAgentInfo
  | getSystemMetrics
  | streamSystemMetrics (intervalMs : ℕ)
  | listProcesses
  | getProcessDetails (pid : ℤ)
  | controlProcess (pid action : ℤ)
  | getNetworkInterfaces
  | listTcpConnections
  | listLogs
  | readLog (logId : Bytes) (maxLines : ℕ) (keyword : Bytes)
  | streamLog (logId keyword : Bytes) (startAtEnd : Bool)
  | listServices
  | controlService (name : Bytes) (action : ℤ)
  | createDiagnosticBundle
  | downloadDiagnosticBundle (bundleId : Bytes)

structure AgentInfo where
  hostname : Bytes
  kernelVersion : Bytes
  uptimeSeconds : ℕ
  agentVersion : Bytes

inductive Message
  | agentInfo (info : AgentInfo)
  | systemMetrics (metrics : SystemMetrics)
  | processes (processes : List ProcessInfo)
  | process (process : ProcessInfo)
  | controlProcess
  | interfaces (interfaces : List NetworkInterfaceInfo)
  | connections (connections : List TcpConnectionInfo)
  | logs (logs : List LogSourceInfo)
  | logLines (lines : List Bytes) (truncated : Bool)
  | logLine (line : Bytes)
  | services (services : List ServiceInfo)
  | controlService
  | bundle (bundle : DiagnosticBundleInfo)
  | chunk (chunk : DiagnosticChunk)

def ProcessInfo.strings (process : ProcessInfo) : List Bytes :=
  [process.name, process.state, process.commandLine]

def ServiceInfo.strings (service : ServiceInfo) : List Bytes :=
  [service.name, service.description, service.loadState, service.activeState, service.subState]

def Message.strings : Message → List Bytes
  | .agentInfo info => [info.hostname, info.kernelVersion, info.agentVersion]
  | .systemMetrics _ => []
  | .processes values => values.flatMap ProcessInfo.strings
  | .process value => value.strings
  | .controlProcess => []
  | .interfaces values => values.flatMap fun interface =>
    interface.name :: interface.state :: interface.ipv4Addresses ++ interface.ipv6Addresses
  | .connections values => values.flatMap fun connection =>
    [connection.protocol, connection.localAddress, connection.remoteAddress, connection.state]
  | .logs values => values.flatMap fun log => [log.id, log.displayName]
  | .logLines lines _ => lines
  | .logLine line => [line]
  | .services values => values.flatMap ServiceInfo.strings
  | .controlService => []
  | .bundle value => [value.id, value.filename]
  | .chunk _ => []

end EdgeScope
