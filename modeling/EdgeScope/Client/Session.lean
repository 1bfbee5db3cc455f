import EdgeScope.Client.MainWindow
import EdgeScope.Runs.Reachable

/-!
# `MainWindow` and `RpcWorker`

The window queues slots for the worker, the worker and the thread of the log stream queue
signals for the window, and every queue is first in, first out. The worker takes a slot when it
has done with the one before. A step is one handler of the window, one reply of the agent, or
what the thread of the stream does up to its next signal.
-/

namespace EdgeScope
open Text RpcWorker

inductive RpcOperation
  | getSystemMetrics
  | listProcesses
  | getProcessDetails
  | controlProcess
  | getNetworkInterfaces
  | listTcpConnections
  | listLogs
  | readLog
  | listServices
  | controlService
  | createDiagnosticBundle
  | downloadDiagnosticBundle
  deriving DecidableEq, Repr

def RpcOperation.name : RpcOperation → Bytes
  | .getSystemMetrics => ascii "GetSystemMetrics"
  | .listProcesses => ascii "ListProcesses"
  | .getProcessDetails => ascii "GetProcessDetails"
  | .controlProcess => ascii "ControlProcess"
  | .getNetworkInterfaces => ascii "GetNetworkInterfaces"
  | .listTcpConnections => ascii "ListTcpConnections"
  | .listLogs => ascii "ListLogs"
  | .readLog => ascii "ReadLog"
  | .listServices => ascii "ListServices"
  | .controlService => ascii "ControlService"
  | .createDiagnosticBundle => ascii "CreateDiagnosticBundle"
  | .downloadDiagnosticBundle => ascii "DownloadDiagnosticBundle"

theorem RpcOperation.name_ne (operation : RpcOperation) :
    operation.name ≠ ascii "Connect" ∧ operation.name ≠ ascii "StreamLog" := by
  cases operation <;> decide

def RpcOperation.succeeded : RpcOperation → List WorkerSignal
  | .getNetworkInterfaces | .createDiagnosticBundle => []
  | .downloadDiagnosticBundle => [.diagnosticReady]
  | _ => [.display]

/-- The calls of a slot, each of which is made when the one before has succeeded. -/
def WorkerRequest.calls : WorkerRequest → List RpcOperation
  | .refreshMetrics => [.getSystemMetrics]
  | .refreshProcesses => [.listProcesses]
  | .getProcessDetails => [.getProcessDetails]
  | .controlProcess => [.controlProcess, .listProcesses]
  | .refreshNetwork => [.getNetworkInterfaces, .listTcpConnections]
  | .listLogs => [.listLogs]
  | .readLog => [.readLog]
  | .refreshServices => [.listServices]
  | .controlService => [.controlService, .listServices]
  | .createAndDownloadDiagnostic => [.createDiagnosticBundle, .downloadDiagnosticBundle]

/-- Where a download fails at the worker. -/
inductive LocalFailure
  | cannotOpen
  | writeFailed
  | sizeMismatch
  deriving DecidableEq, Repr

def LocalFailure.message : LocalFailure → Bytes
  | .cannotOpen => ascii "Cannot open the selected local file"
  | .writeFailed => ascii "Local write failed or chunk sequence was invalid"
  | .sizeMismatch => ascii "Downloaded size does not match bundle size"

/-- What comes of a download is what the worker reports of the two calls: that they succeeded,
the status of the one that failed, or a failure of its own. -/
theorem createAndDownloadDiagnostic_outcome (destination : Option Bytes)
    (created : Except Status DiagnosticBundleInfo) (opens : Bool)
    (delivered : List (DiagnosticChunk × CallOutcome)) (closed : CallOutcome) (status : Status) :
    let outcome :=
      (createAndDownloadDiagnostic destination created opens delivered closed status).outcome
    (∃ received, outcome = .diagnosticReady received) ∨
    (∃ (operation : RpcOperation) (status : Status),
      outcome = emitRpcError operation.name status) ∨
    ∃ failure : LocalFailure,
      outcome = .rpcError (RpcOperation.name .downloadDiagnosticBundle) failure.message false := by
  intro outcome
  cases created with
  | error status => exact .inr (.inl ⟨.createDiagnosticBundle, status, rfl⟩)
  | ok created =>
    simp only [outcome, createAndDownloadDiagnostic]
    split
    · split
      · simp only [downloadError]
        split
        · exact .inr (.inr ⟨.writeFailed, rfl⟩)
        · split
          · exact .inr (.inl ⟨.downloadDiagnosticBundle, status, rfl⟩)
          · exact .inr (.inr ⟨.sizeMismatch, rfl⟩)
      · exact .inl ⟨_, rfl⟩
    · exact .inr (.inr ⟨.cannotOpen, rfl⟩)

/-- The thread of a log stream: in `StreamLog`, then about to emit `LogStreamStopped` after an
`RpcError`, then done. -/
inductive StreamPhase
  | calling
  | reporting
  | finished
  deriving DecidableEq, Repr

inductive WorkerPhase
  | idle
  /-- In the `StopLogStream` that the slot begins with. -/
  | joining (slot : WorkerSlot)
  /-- In `GetAgentInfo`. -/
  | connecting
  | calling (call : RpcOperation) (rest : List RpcOperation)
  deriving DecidableEq, Repr

structure Worker where
  /-- Whether there is a `client_`. -/
  client : Bool
  /-- The threads `StartLogStream` has made that have not been joined. The first is
  `stream_thread_`. -/
  streamThreads : List StreamPhase
  phase : WorkerPhase
  deriving DecidableEq, Repr

namespace Worker

def start : Worker := ⟨false, [], .idle⟩

/-- Whether `StopLogStream` need not wait. -/
def streamEnded (w : Worker) : Bool :=
  w.streamThreads.head? = none || w.streamThreads.head? = some .finished

/-- The slot from where its `StopLogStream` has joined the thread. -/
def proceed (slot : WorkerSlot) (w : Worker) : Worker × List WorkerSignal :=
  let w := { w with streamThreads := w.streamThreads.tail }
  match slot with
  | .connectToAgent => ({ w with client := true, phase := .connecting }, [])
  | .disconnectFromAgent => ({ w with client := false, phase := .idle }, [.disconnected])
  | .startLogStream =>
    -- An assignment to a thread that has not been joined would end the program. Here the old
    -- thread would stay behind the new one.
    ({ w with
      streamThreads := if w.client then .calling :: w.streamThreads else w.streamThreads
      phase := .idle }, [])
  | .stopLogStream | .request _ => ({ w with phase := .idle }, [])

def next : List RpcOperation → WorkerPhase
  | [] => .idle
  | call :: rest => .calling call rest

def invoke (slot : WorkerSlot) (w : Worker) : Worker × List WorkerSignal :=
  match slot with
  | .request request =>
    ({ w with phase := if w.client then next request.calls else .idle }, [])
  | slot => if w.streamEnded then w.proceed slot else ({ w with phase := .joining slot }, [])

def emitRpcError (operation : Bytes) (status : Status) (w : Worker) :
    Worker × List WorkerSignal :=
  ({ w with client := w.client && !connectionLost status, phase := .idle },
    [.rpcError operation status.message (connectionLost status)])

def connectReply (status : Status) (w : Worker) : Worker × List WorkerSignal :=
  if status.code = .ok then ({ w with phase := .idle }, [.connected])
  else { w with client := false }.emitRpcError (ascii "Connect") status

def callReply (call : RpcOperation) (rest : List RpcOperation) (status : Status) (w : Worker) :
    Worker × List WorkerSignal :=
  if status.code = .ok then ({ w with phase := next rest }, call.succeeded)
  else w.emitRpcError call.name status

def streamLogReply (status : Status) : StreamPhase × List WorkerSignal :=
  if status.code = .ok ∨ status.code = .cancelled then (.finished, [.logStreamStopped])
  else
    -- The thread does not go through `EmitRpcError`, and `client_` stays.
    (.reporting,
      [.rpcError (ascii "StreamLog") status.message (status.code = .unavailable)])

end Worker

structure Session where
  window : MainWindow
  slots : List WorkerSlot
  worker : Worker
  signals : List WorkerSignal
  deriving DecidableEq, Repr

namespace Session

def start : Session := ⟨.start, [], .start, []⟩

inductive Action
  | input (input : MainWindow.Input)
  | deliver
  | invoke
  | join
  | connectReply (status : Status)
  | callReply (status : Status)
  | localFailure (failure : LocalFailure)
  | diagnosticProgress
  | logLineReady
  | streamLogReply (status : Status)
  | streamReport
  deriving DecidableEq

/-- What a handler leaves of the window, and the slots it has queued. -/
def handled (s : Session) (result : MainWindow × List WorkerSlot) : Session :=
  { s with window := result.1, slots := s.slots ++ result.2 }

def emitted (s : Session) (result : Worker × List WorkerSignal) : Session :=
  { s with worker := result.1, signals := s.signals ++ result.2 }

/-- The next step of the thread, which moves it on. -/
def streamed (s : Session) (threads : List StreamPhase)
    (result : StreamPhase × List WorkerSignal) : Session :=
  s.emitted ({ s.worker with streamThreads := result.1 :: threads }, result.2)

def step (action : Action) (s : Session) : Option Session :=
  match action with
  | .input input =>
    if s.window.allows input then some (s.handled (s.window.receive input)) else none
  | .deliver =>
    match s.signals with
    | [] => none
    | signal :: signals => some ({ s with signals := signals }.handled (s.window.handle signal))
  | .invoke =>
    match s.worker.phase, s.slots with
    | .idle, slot :: slots => some ({ s with slots := slots }.emitted (s.worker.invoke slot))
    | _, _ => none
  | .join =>
    match s.worker.phase with
    | .joining slot =>
      if s.worker.streamEnded then some (s.emitted (s.worker.proceed slot)) else none
    | _ => none
  | .connectReply status =>
    if s.worker.phase = .connecting then some (s.emitted (s.worker.connectReply status)) else none
  | .callReply status =>
    match s.worker.phase with
    | .calling call rest => some (s.emitted (s.worker.callReply call rest status))
    | _ => none
  | .localFailure failure =>
    match s.worker.phase with
    | .calling .downloadDiagnosticBundle _ =>
      some (s.emitted ({ s.worker with phase := .idle },
        [.rpcError (ascii "DownloadDiagnosticBundle") failure.message false]))
    | _ => none
  | .diagnosticProgress =>
    match s.worker.phase with
    | .calling .downloadDiagnosticBundle _ => some (s.emitted (s.worker, [.display]))
    | _ => none
  | .logLineReady =>
    match s.worker.streamThreads with
    | .calling :: _ => some (s.emitted (s.worker, [.display]))
    | _ => none
  | .streamLogReply status =>
    match s.worker.streamThreads with
    | .calling :: threads => some (s.streamed threads (Worker.streamLogReply status))
    | _ => none
  | .streamReport =>
    match s.worker.streamThreads with
    | .reporting :: threads => some (s.streamed threads (.finished, [.logStreamStopped]))
    | _ => none

inductive Step : Action → Session → Session → Prop
  | input {s : Session} {input : MainWindow.Input} (hallows : s.window.allows input = true) :
    Step (.input input) s (s.handled (s.window.receive input))
  | deliver {s : Session} {signal : WorkerSignal} {signals : List WorkerSignal}
      (hsignals : s.signals = signal :: signals) :
    Step .deliver s ({ s with signals := signals }.handled (s.window.handle signal))
  | invoke {s : Session} {slot : WorkerSlot} {slots : List WorkerSlot}
      (hphase : s.worker.phase = .idle) (hslots : s.slots = slot :: slots) :
    Step .invoke s ({ s with slots := slots }.emitted (s.worker.invoke slot))
  | join {s : Session} {slot : WorkerSlot} (hphase : s.worker.phase = .joining slot)
      (hended : s.worker.streamEnded = true) :
    Step .join s (s.emitted (s.worker.proceed slot))
  | connectReply {s : Session} {status : Status} (hphase : s.worker.phase = .connecting) :
    Step (.connectReply status) s (s.emitted (s.worker.connectReply status))
  | callReply {s : Session} {call : RpcOperation} {rest : List RpcOperation} {status : Status}
      (hphase : s.worker.phase = .calling call rest) :
    Step (.callReply status) s (s.emitted (s.worker.callReply call rest status))
  | localFailure {s : Session} {rest : List RpcOperation} {failure : LocalFailure}
      (hphase : s.worker.phase = .calling .downloadDiagnosticBundle rest) :
    Step (.localFailure failure) s
      (s.emitted ({ s.worker with phase := .idle },
        [.rpcError (ascii "DownloadDiagnosticBundle") failure.message false]))
  | diagnosticProgress {s : Session} : Step .diagnosticProgress s (s.emitted (s.worker, [.display]))
  | logLineReady {s : Session} : Step .logLineReady s (s.emitted (s.worker, [.display]))
  | streamLogReply {s : Session} {threads : List StreamPhase} {status : Status}
      (hthreads : s.worker.streamThreads = .calling :: threads) :
    Step (.streamLogReply status) s (s.streamed threads (Worker.streamLogReply status))
  | streamReport {s : Session} {threads : List StreamPhase}
      (hthreads : s.worker.streamThreads = .reporting :: threads) :
    Step .streamReport s (s.streamed threads (.finished, [.logStreamStopped]))

theorem Step.of_step {action : Action} {s s' : Session} (h : step action s = some s') :
    Step action s s' := by
  cases action with
  | input input =>
    simp only [step, Option.ite_none_right_eq_some, Option.some_inj] at h
    exact h.2 ▸ .input h.1
  | deliver =>
    simp only [step] at h
    split at h
    · cases h
    · cases h
      exact .deliver ‹_›
  | invoke =>
    simp only [step] at h
    split at h
    · cases h
      exact .invoke ‹_› ‹_›
    · cases h
  | join =>
    simp only [step] at h
    split at h
    · simp only [Option.ite_none_right_eq_some, Option.some_inj] at h
      exact h.2 ▸ .join ‹_› h.1
    · cases h
  | connectReply status =>
    simp only [step, Option.ite_none_right_eq_some, Option.some_inj] at h
    exact h.2 ▸ .connectReply h.1
  | callReply status =>
    simp only [step] at h
    split at h
    · cases h
      exact .callReply ‹_›
    · cases h
  | localFailure failure =>
    simp only [step] at h
    split at h
    · cases h
      exact .localFailure ‹_›
    · cases h
  | diagnosticProgress =>
    simp only [step] at h
    split at h
    · cases h
      exact .diagnosticProgress
    · cases h
  | logLineReady =>
    simp only [step] at h
    split at h
    · cases h
      exact .logLineReady
    · cases h
  | streamLogReply status =>
    simp only [step] at h
    split at h
    · cases h
      exact .streamLogReply ‹_›
    · cases h
  | streamReport =>
    simp only [step] at h
    split at h
    · cases h
      exact .streamReport ‹_›
    · cases h

/-- The sessions after runs in which every action satisfies `P`. -/
abbrev Reachable (P : Action → Session → Prop) : Session → Prop :=
  Runs.Reachable (fun action s s' => step action s = some s') P start

end Session
end EdgeScope
