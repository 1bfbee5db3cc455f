import EdgeScope.Client.RpcWorker

/-!
# `MainWindow`

The window shows a connection, and asks the worker for everything else: a handler changes the
window and queues slots of the worker. The data it shows, and its status bar, are left out. A
message box runs an event loop of its own, in which signals go on being delivered, and its handler
continues when it is closed. The boxes are closed from the top.
-/

namespace EdgeScope
open Text

/-- The slots of `RpcWorker` that do nothing without a client. -/
inductive WorkerRequest
  | refreshMetrics
  | refreshProcesses
  | getProcessDetails
  | controlProcess
  | refreshNetwork
  | listLogs
  | readLog
  | refreshServices
  | controlService
  | createAndDownloadDiagnostic
  deriving DecidableEq, Repr

inductive WorkerSlot
  | connectToAgent
  | disconnectFromAgent
  | startLogStream
  | stopLogStream
  | request (request : WorkerRequest)
  deriving DecidableEq, Repr

/-- The signals of `RpcWorker`; `display` is any of those whose handler shows data and nothing
else. -/
inductive WorkerSignal
  | connected
  | disconnected
  | logStreamStopped
  | diagnosticReady
  | rpcError (operation message : Bytes) (connectionLost : Bool)
  | display
  deriving DecidableEq, Repr

inductive ConnectionStatus
  | disconnected
  | connecting
  | connected
  | reconnecting
  deriving DecidableEq, Repr

/-- What a handler does when its box has been closed. -/
inductive Continuation
  | none
  | setDisconnected
  | requestIfYes (request : WorkerRequest)
  | downloadIfNamed
  deriving DecidableEq, Repr

structure Dialog where
  title : Bytes
  text : Bytes
  next : Continuation
  deriving DecidableEq, Repr

structure MainWindow where
  connectionStatus : ConnectionStatus
  connectButton : Bool
  disconnectButton : Bool
  reconnectButton : Bool
  networkRefreshButton : Bool
  logRefreshButton : Bool
  logStreamStartButton : Bool
  logStreamStopButton : Bool
  serviceRefreshButton : Bool
  diagnosticCreateButton : Bool
  /-- `host_edit_` and `port_spin_`. -/
  addressEdit : Bool
  metricsTimer : Bool
  processesTimer : Bool
  /-- The open boxes, the top one first. -/
  dialogs : List Dialog
  deriving DecidableEq, Repr

namespace MainWindow

def setConnected (connected : Bool) (w : MainWindow) : MainWindow :=
  { w with
    connectionStatus := if connected then .connected else .disconnected
    connectButton := !connected
    disconnectButton := connected
    reconnectButton := connected
    networkRefreshButton := connected
    logRefreshButton := connected
    logStreamStartButton := connected
    logStreamStopButton := false
    serviceRefreshButton := connected
    diagnosticCreateButton := connected
    addressEdit := !connected
    metricsTimer := if connected then w.metricsTimer else false
    processesTimer := if connected then w.processesTimer else false }

def start : MainWindow :=
  setConnected false
    { connectionStatus := .disconnected
      connectButton := true
      disconnectButton := true
      reconnectButton := true
      networkRefreshButton := true
      logRefreshButton := true
      logStreamStartButton := true
      logStreamStopButton := true
      serviceRefreshButton := true
      diagnosticCreateButton := true
      addressEdit := true
      metricsTimer := false
      processesTimer := false
      dialogs := [] }

def stopTimers (w : MainWindow) : MainWindow :=
  { w with metricsTimer := false, processesTimer := false }

def openDialog (title text : Bytes) (next : Continuation) (w : MainWindow) : MainWindow :=
  { w with dialogs := ⟨title, text, next⟩ :: w.dialogs }

/-- `host` is the text of `host_edit_`, trimmed. -/
def connectToAgent (host : Bytes) (w : MainWindow) : MainWindow × List WorkerSlot :=
  if host = [] then
    (w.openDialog (ascii "Invalid address") (ascii "Agent address cannot be empty.") .none, [])
  else ({ w with connectionStatus := .connecting, connectButton := false }, [.connectToAgent])

def disconnectFromAgent (w : MainWindow) : MainWindow × List WorkerSlot :=
  (w.stopTimers, [.stopLogStream, .disconnectFromAgent])

def reconnectToAgent (w : MainWindow) : MainWindow × List WorkerSlot :=
  ({ w.stopTimers with connectionStatus := .reconnecting },
    [.stopLogStream, .disconnectFromAgent, .connectToAgent])

def handleConnected (w : MainWindow) : MainWindow × List WorkerSlot :=
  ({ w.setConnected true with metricsTimer := true, processesTimer := true },
    [.request .refreshMetrics, .request .refreshProcesses, .request .refreshNetwork,
      .request .listLogs, .request .refreshServices])

def handleDisconnected (w : MainWindow) : MainWindow × List WorkerSlot :=
  (w.setConnected false, [])

def handleLogStreamStopped (w : MainWindow) : MainWindow :=
  { w with
    logStreamStopButton := false
    logStreamStartButton := w.connectionStatus = .connected }

def diagnosticCompleted (w : MainWindow) : MainWindow :=
  { w with diagnosticCreateButton := true }

def handleRpcError (operation message : Bytes) (connectionLost : Bool) (w : MainWindow) :
    MainWindow × List WorkerSlot :=
  let isDiagnostic := operation = ascii "CreateDiagnosticBundle" ∨
    operation = ascii "DownloadDiagnosticBundle"
  let w := { w with diagnosticCreateButton := w.diagnosticCreateButton || isDiagnostic }
  if connectionLost then
    ((w.stopTimers.setConnected false).openDialog (ascii "Agent connection lost") message .none,
      [.stopLogStream])
  else
    -- What follows the box waits for its end, and signals do not.
    (w.openDialog (operation ++ ascii " failed") message
      (if operation = ascii "Connect" then .setDisconnected else .none), [])

def handle (signal : WorkerSignal) (w : MainWindow) : MainWindow × List WorkerSlot :=
  match signal with
  | .connected => w.handleConnected
  | .disconnected => w.handleDisconnected
  | .logStreamStopped => (w.handleLogStreamStopped, [])
  | .diagnosticReady => (w.diagnosticCompleted, [])
  | .rpcError operation message connectionLost => w.handleRpcError operation message connectionLost
  | .display => (w, [])

/-- `pid` is that of the selected row, or 0. -/
def showSelectedProcessDetails (pid : ℤ) (w : MainWindow) : MainWindow × List WorkerSlot :=
  if pid ≤ 0 then
    (w.openDialog (ascii "Process details") (ascii "Select a process first.") .none, [])
  else (w, [.request .getProcessDetails])

def confirmProcessControl (actionName : Bytes) (pid : ℤ) (w : MainWindow) :
    MainWindow × List WorkerSlot :=
  if pid ≤ 0 then
    (w.openDialog (ascii "Process control") (ascii "Select a process first.") .none, [])
  else
    (w.openDialog (ascii "Confirm process operation")
      (ascii "Really " ++ actionName ++ ascii " process " ++ decimal pid.toNat ++ ascii "?")
      (.requestIfYes .controlProcess), [])

/-- `name` is that of the selected service, if there is one. -/
def confirmServiceControl (actionName : Bytes) (name : Option Bytes) (w : MainWindow) :
    MainWindow × List WorkerSlot :=
  match name with
  | none =>
    (w.openDialog (ascii "Service control") (ascii "Select an allowed service first.") .none, [])
  | some name =>
    (w.openDialog (ascii "Confirm service operation")
      (ascii "Really " ++ actionName ++ ascii " " ++ name ++ ascii "?")
      (.requestIfYes .controlService), [])

def readTail (logId : Bytes) (w : MainWindow) : MainWindow × List WorkerSlot :=
  if logId = [] then
    (w.openDialog (ascii "Logs") (ascii "No log source selected.") .none, [])
  else (w, [.request .readLog])

def startStreaming (logId : Bytes) (w : MainWindow) : MainWindow × List WorkerSlot :=
  if logId = [] then
    (w.openDialog (ascii "Logs") (ascii "No log source selected.") .none, [])
  else
    ({ w with logStreamStartButton := false, logStreamStopButton := true }, [.startLogStream])

def createDiagnostic (w : MainWindow) : MainWindow × List WorkerSlot :=
  (w.openDialog (ascii "Save diagnostic bundle") [] .downloadIfNamed, [])

/-- The top box is closed: with Yes, or with a file name, where `accepted`. -/
def closeDialog (accepted : Bool) (w : MainWindow) : MainWindow × List WorkerSlot :=
  match w.dialogs with
  | [] => (w, [])
  | dialog :: dialogs =>
    let w := { w with dialogs := dialogs }
    match dialog.next with
    | .none => (w, [])
    | .setDisconnected => (w.setConnected false, [])
    | .requestIfYes request => (w, if accepted then [.request request] else [])
    | .downloadIfNamed =>
      if accepted then
        ({ w with diagnosticCreateButton := false }, [.request .createAndDownloadDiagnostic])
      else (w, [])

inductive Input
  | connect (host : Bytes)
  | disconnect
  | reconnect
  | details (pid : ℤ)
  | processControl (actionName : Bytes) (pid : ℤ)
  | refreshNetwork
  | readTail (logId : Bytes)
  | startStreaming (logId : Bytes)
  | stopStreaming
  | refreshServices
  | serviceControl (actionName : Bytes) (name : Option Bytes)
  | createDiagnostic
  | closeDialog (accepted : Bool)
  | metricsTimeout
  | processesTimeout
  deriving DecidableEq, Repr

/-- An open box takes every click. Timers go on below it. -/
def allows (input : Input) (w : MainWindow) : Bool :=
  match input with
  | .connect _ => w.dialogs = [] && w.connectButton
  | .disconnect => w.dialogs = [] && w.disconnectButton
  | .reconnect => w.dialogs = [] && w.reconnectButton
  | .details _ => w.dialogs = []
  | .processControl _ _ => w.dialogs = []
  | .refreshNetwork => w.dialogs = [] && w.networkRefreshButton
  | .readTail _ => w.dialogs = [] && w.logRefreshButton
  | .startStreaming _ => w.dialogs = [] && w.logStreamStartButton
  | .stopStreaming => w.dialogs = [] && w.logStreamStopButton
  | .refreshServices => w.dialogs = [] && w.serviceRefreshButton
  | .serviceControl _ _ => w.dialogs = []
  | .createDiagnostic => w.dialogs = [] && w.diagnosticCreateButton
  | .closeDialog _ => w.dialogs ≠ []
  | .metricsTimeout => w.metricsTimer
  | .processesTimeout => w.processesTimer

def receive (input : Input) (w : MainWindow) : MainWindow × List WorkerSlot :=
  match input with
  | .connect host => w.connectToAgent host
  | .disconnect => w.disconnectFromAgent
  | .reconnect => w.reconnectToAgent
  | .details pid => w.showSelectedProcessDetails pid
  | .processControl actionName pid => w.confirmProcessControl actionName pid
  | .refreshNetwork => (w, [.request .refreshNetwork])
  | .readTail logId => w.readTail logId
  | .startStreaming logId => w.startStreaming logId
  | .stopStreaming => (w, [.stopLogStream])
  | .refreshServices => (w, [.request .refreshServices])
  | .serviceControl actionName name => w.confirmServiceControl actionName name
  | .createDiagnostic => w.createDiagnostic
  | .closeDialog accepted => w.closeDialog accepted
  | .metricsTimeout => (w, [.request .refreshMetrics])
  | .processesTimeout => (w, [.request .refreshProcesses])

end MainWindow
end EdgeScope
