import EdgeScope.Client.EdgeScopeClient
import EdgeScope.Text.Numerals

/-!
# The command line of `edgescope-cli`

`main` greets the agent and then runs the command of its arguments: an overview when there is
none, a download, a log stream, or a signal to a process. It is a program of calls, whose
answers come from the agent or the network.
-/

namespace EdgeScope.Cli
open Runs Text

/-- A call to the agent, or the opening of a local file for writing. -/
inductive Question
  | rpc (request : Request)
  | openOutput (path : Bytes)

def Question.Reply : Question → Type
  | .rpc request => request.Reply
  | .openOutput _ => Bool

structure ProgramExit where
  output : Bytes
  errors : Bytes
  code : ℕ
  deriving DecidableEq

abbrev Program := Dialogue Question Question.Reply ProgramExit

/-- How the streams print a `double` in fixed notation with a number of decimals: one of a
message, and the quotient of two numbers. -/
structure Decimals where
  fixed : ℕ → Double → Bytes
  quotient : ℕ → ℕ → ℕ → Bytes

def splitTarget : List Bytes → Bytes × List Bytes
  | flag :: target :: arguments =>
    if flag = ascii "--target" then (target, arguments)
    else (ascii "127.0.0.1:50051", flag :: target :: arguments)
  | arguments => (ascii "127.0.0.1:50051", arguments)

def parseControlAction (value : Bytes) : Option ℤ :=
  if value = ascii "term" then some 1
  else if value = ascii "kill" then some 2
  else if value = ascii "stop" then some 3
  else if value = ascii "continue" then some 4
  else none

def parsePid (value : Bytes) : Option ℤ :=
  match stoll value with
  | none => none
  | some (parsed, parsedCharacters) =>
    if parsedCharacters ≠ value.length ∨ parsed ≤ 0 ∨ 2 ^ 31 - 1 < parsed then none
    else some parsed

/-- The number of lines to stream. What follows the digits is ignored. -/
def parseCount (value : Bytes) : Option ℕ :=
  let wanted := ((stoul value).map Prod.fst).getD 0
  if wanted = 0 ∨ 1000 < wanted then none else some wanted

def endl : Bytes := [newline]

def padRight (width : ℕ) (text : Bytes) : Bytes :=
  text ++ List.replicate (width - text.length) (charByte ' ')

def padLeft (width : ℕ) (text : Bytes) : Bytes :=
  List.replicate (width - text.length) (charByte ' ') ++ text

def agentInfoText (info : AgentInfo) : Bytes :=
  ascii "Connected to EdgeScope Agent" ++ endl ++
  ascii "Hostname: " ++ info.hostname ++ endl ++
  ascii "Kernel: " ++ info.kernelVersion ++ endl ++
  ascii "Uptime: " ++ decimal info.uptimeSeconds ++ ascii " seconds" ++ endl ++
  ascii "Agent Version: " ++ info.agentVersion ++ endl

def usageText (program : Bytes) : Bytes :=
  ascii "Usage: " ++ program ++ ascii " [--target HOST:PORT]" ++
    ascii " [--control PID term|kill|stop|continue |" ++
    ascii " --diagnostic OUTPUT.tar.gz | --stream-log ID COUNT]" ++ endl

section Texts

variable (decimals : Decimals)

def systemMetricsText (metrics : SystemMetrics) : Bytes :=
  let gigabytes (bytes : ℕ) := decimals.quotient 1 bytes (1024 * 1024 * 1024) ++ ascii " GB"
  ascii "CPU Usage: " ++ decimals.fixed 1 metrics.cpuUsagePercent ++ ascii "%" ++ endl ++
  ascii "Memory Used: " ++ gigabytes metrics.memoryUsedBytes ++ ascii " / " ++
    gigabytes metrics.memoryTotalBytes ++ endl ++
  ascii "Memory Available: " ++ gigabytes metrics.memoryAvailableBytes ++ endl ++
  ascii "Load Average: " ++ decimals.fixed 2 metrics.loadAverage1m ++ ascii " / " ++
    decimals.fixed 2 metrics.loadAverage5m ++ ascii " / " ++
    decimals.fixed 2 metrics.loadAverage15m ++ endl ++
  ascii "Uptime: " ++ decimal metrics.uptimeSeconds ++ ascii " seconds" ++ endl

/-- The samples of the stream, numbered from `n + 1` on. -/
def samplesText : ℕ → List SystemMetrics → Bytes
  | _, [] => []
  | n, metrics :: samples =>
    endl ++ ascii "Sample " ++ decimal (n + 1) ++ endl ++ systemMetricsText decimals metrics ++
      samplesText (n + 1) samples

def processText (process : ProcessInfo) : Bytes :=
  padRight 8 (integer process.pid) ++ padRight 8 (integer process.ppid) ++
    padRight 20 (process.name.take 19) ++ padRight 8 process.state ++
    padLeft 8 (decimals.fixed 1 process.cpuUsagePercent) ++
    padLeft 12 (decimals.quotient 1 process.residentMemoryBytes (1024 * 1024)) ++
    padLeft 9 (decimal process.threadCount) ++ endl

def processesText (processes : List ProcessInfo) : Bytes :=
  endl ++ ascii "Processes (showing up to 10 of " ++ decimal processes.length ++ ascii ")" ++
    endl ++ padRight 8 (ascii "PID") ++ padRight 8 (ascii "PPID") ++ padRight 20 (ascii "NAME") ++
    padRight 8 (ascii "STATE") ++ padLeft 8 (ascii "CPU%") ++ padLeft 12 (ascii "RSS(MB)") ++
    padLeft 9 (ascii "THREADS") ++ endl ++ (processes.take 10).flatMap (processText decimals)

end Texts

def processDetailsText (process : ProcessInfo) : Bytes :=
  endl ++ ascii "Process Details for PID " ++ integer process.pid ++ endl ++
  ascii "Command: " ++ process.commandLine ++ endl ++
  ascii "Virtual Memory: " ++ decimal process.virtualMemoryBytes ++ ascii " bytes" ++ endl ++
  ascii "Read/Write: " ++ decimal process.readBytes ++ ascii " / " ++ decimal process.writeBytes ++
    ascii " bytes" ++ endl ++
  ascii "Start Time: " ++ decimal process.startTimeTicks ++ ascii " ticks" ++ endl

def firstAddress (label : Bytes) (addresses : List Bytes) : Bytes :=
  match addresses with
  | [] => []
  | address :: _ => label ++ address

def interfacesText (interfaces : List NetworkInterfaceInfo) : Bytes :=
  endl ++ ascii "Network Interfaces" ++ endl ++ interfaces.flatMap fun interface =>
    interface.name ++ ascii " [" ++ interface.state ++ ascii "] RX=" ++
      decimal interface.rxBytes ++ ascii " TX=" ++ decimal interface.txBytes ++
      firstAddress (ascii " IPv4=") interface.ipv4Addresses ++
      firstAddress (ascii " IPv6=") interface.ipv6Addresses ++ endl

def connectionsText (connections : List TcpConnectionInfo) : Bytes :=
  ascii "TCP Connections: " ++ decimal connections.length ++ endl ++
    (connections.take 10).flatMap fun connection =>
      connection.protocol ++ ascii " " ++ connection.localAddress ++ ascii ":" ++
        decimal connection.localPort ++ ascii " -> " ++ connection.remoteAddress ++ ascii ":" ++
        decimal connection.remotePort ++ ascii " " ++ connection.state ++ ascii " PID=" ++
        integer connection.pid ++ endl

def logsText (logs : List LogSourceInfo) : Bytes :=
  endl ++ ascii "Allowed Logs" ++ endl ++ logs.flatMap fun log =>
    log.id ++ ascii ": " ++ log.displayName ++ ascii " [" ++
      (if log.available then ascii "available" else ascii "unavailable") ++ ascii "]" ++ endl

def logLinesText (id : Bytes) (lines : List Bytes) : Bytes :=
  ascii "Last " ++ decimal lines.length ++ ascii " lines from " ++ id ++ ascii ":" ++ endl ++
    lines.flatMap (· ++ endl)

def servicesText (services : List ServiceInfo) : Bytes :=
  endl ++ ascii "Allowed Services" ++ endl ++ services.flatMap fun service =>
    service.name ++ ascii " [" ++ service.loadState ++ ascii "/" ++ service.activeState ++
      ascii "/" ++ service.subState ++ ascii "] " ++ service.description ++ endl

def rpcFailed (operation output : Bytes) (status : Status) : Program :=
  .done ⟨output, operation ++ ascii " RPC failed: " ++ status.message ++ endl, 1⟩

def checked {α : Type} (operation output : Bytes) (next : α → Program) :
    Except Status α → Program
  | .error status => rpcFailed operation output status
  | .ok response => next response

def diagnosticCommand (output path : Bytes) : Program :=
  .ask (.rpc .createDiagnosticBundle) <| checked (ascii "CreateDiagnosticBundle") output
    fun (created : DiagnosticBundleInfo) =>
  .ask (.openOutput path) fun (opens : Bool) =>
  if opens then
    .ask (.rpc (.downloadDiagnosticBundle created.id)) fun (delivery : Delivery) =>
    let received := (downloadDiagnosticBundle delivery.delivered).received
    if delivery.status.code ≠ .ok ∨ received ≠ created.sizeBytes then
      .done ⟨output,
        ascii "DownloadDiagnosticBundle failed: " ++ delivery.status.message ++ endl, 1⟩
    else
      .done ⟨output ++ ascii "Diagnostic bundle saved to " ++ path ++ ascii " (" ++
        decimal received ++ ascii " bytes)" ++ endl, [], 0⟩
  else .done ⟨output, ascii "Failed to open diagnostic output file" ++ endl, 1⟩

/-- Every line that is read is printed, also behind the one that cancels the call. -/
def streamLogCommand (output logId count : Bytes) : Program :=
  match parseCount count with
  | none => .done ⟨output, ascii "Log stream count must be between 1 and 1000" ++ endl, 1⟩
  | some _ =>
    .ask (.rpc (.streamLog logId [] true)) fun (reply : StreamReply Bytes) =>
    let output := output ++ reply.delivered.flatMap (· ++ endl)
    if reply.status.code ≠ .ok ∧ reply.status.code ≠ .cancelled then
      rpcFailed (ascii "StreamLog") output reply.status
    else .done ⟨output, [], 0⟩

def controlCommand (output pid action : Bytes) : Program :=
  match parsePid pid, parseControlAction action with
  | some pid, some action =>
    .ask (.rpc (.controlProcess pid action)) <| checked (ascii "ControlProcess") output
      fun (_ : Unit) => .done ⟨output ++ ascii "Process control request succeeded for PID " ++
        integer pid ++ endl, [], 0⟩
  | _, _ => .done ⟨output, ascii "Invalid process control arguments" ++ endl, 1⟩

/-- The first available log that can be read, and what follows. -/
def readFirstLog (next : Bytes → Program) : List LogSourceInfo → Bytes → Program
  | [], output => next output
  | log :: logs, output =>
    if log.available then
      .ask (.rpc (.readLog log.id 5 [])) fun (reply : Except Status (List Bytes × Bool)) =>
      match reply with
      | .error _ => readFirstLog next logs output
      | .ok (lines, _) => next (output ++ logLinesText log.id lines)
    else readFirstLog next logs output

def servicesPart (output : Bytes) : Program :=
  .ask (.rpc .listServices) <| checked (ascii "ListServices") output
    fun (services : List ServiceInfo) => .done ⟨output ++ servicesText services, [], 0⟩

def logsPart (output : Bytes) : Program :=
  .ask (.rpc .listLogs) <| checked (ascii "ListLogs") output fun (logs : List LogSourceInfo) =>
  readFirstLog servicesPart logs (output ++ logsText logs)

def networkPart (output : Bytes) : Program :=
  .ask (.rpc .getNetworkInterfaces) <| checked (ascii "GetNetworkInterfaces") output
    fun (interfaces : List NetworkInterfaceInfo) =>
  let output := output ++ interfacesText interfaces
  .ask (.rpc .listTcpConnections) <| checked (ascii "ListTcpConnections") output
    fun (connections : List TcpConnectionInfo) =>
  logsPart (output ++ connectionsText connections)

section Overview

variable (decimals : Decimals)

def processesPart (output : Bytes) : Program :=
  .ask (.rpc .listProcesses) <| checked (ascii "ListProcesses") output
    fun (processes : List ProcessInfo) =>
  let output := output ++ processesText decimals processes
  match processes with
  | [] => networkPart output
  | process :: _ =>
    .ask (.rpc (.getProcessDetails process.pid)) <| checked (ascii "GetProcessDetails") output
      fun (details : ProcessInfo) => networkPart (output ++ processDetailsText details)

def overviewCommand (output : Bytes) : Program :=
  .ask (.rpc .getSystemMetrics) <| checked (ascii "GetSystemMetrics") output
    fun (metrics : SystemMetrics) =>
  let output := output ++ endl ++ ascii "System Metrics" ++ endl ++
    systemMetricsText decimals metrics ++ endl ++
    ascii "Streaming System Metrics (3 samples)" ++ endl
  .ask (.rpc (.streamSystemMetrics 1000)) fun (reply : StreamReply SystemMetrics) =>
  let (samples, status) := EdgeScopeClient.streamSystemMetrics 3 reply
  let output := output ++ samplesText decimals 0 samples
  if status.code ≠ .ok then rpcFailed (ascii "StreamSystemMetrics") output status
  else processesPart decimals output

def command (program output : Bytes) : List Bytes → Program
  | [] => overviewCommand decimals output
  | [flag, path] =>
    if flag = ascii "--diagnostic" then diagnosticCommand output path
    else .done ⟨output, usageText program, 1⟩
  | [flag, first, second] =>
    if flag = ascii "--stream-log" then streamLogCommand output first second
    else if flag = ascii "--control" then controlCommand output first second
    else .done ⟨output, usageText program, 1⟩
  | _ => .done ⟨output, usageText program, 1⟩

/-- The calls go to the agent that `splitTarget` names. -/
def main (program : Bytes) (arguments : List Bytes) : Program :=
  .ask (.rpc .getAgentInfo) <| checked (ascii "GetAgentInfo") [] fun (info : AgentInfo) =>
  command decimals program (agentInfoText info) (splitTarget arguments).2

end Overview

end EdgeScope.Cli
