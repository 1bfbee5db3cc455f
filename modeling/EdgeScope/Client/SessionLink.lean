import EdgeScope.Client.Link

/-!
# A session as a link

Every step of a session is a move of its link, or leaves the link as it is.
-/

namespace EdgeScope
open Text RpcWorker

@[simp] def Command.ofSlot : WorkerSlot → Option Command
  | .connectToAgent => some .connect
  | .disconnectFromAgent => some .disconnect
  | .startLogStream => some .start
  | .stopLogStream => some .stop
  | .request _ => none

def Report.ofSignal : WorkerSignal → Option Report
  | .connected => some .connected
  | .disconnected => some .disconnected
  | .logStreamStopped => some .stopped
  | .rpcError operation _ lost =>
    if operation = ascii "StreamLog" then some (.streamFailed lost)
    else if lost then some .connectionLost
    else if operation = ascii "Connect" then some .connectFailed
    else none
  | .diagnosticReady | .display => none

theorem Command.mem_filterMap_ofSlot {slot : WorkerSlot} {command : Command}
    (hslot : Command.ofSlot slot = some command) {slots : List WorkerSlot} :
    command ∈ slots.filterMap Command.ofSlot ↔ slot ∈ slots := by
  rw [List.mem_filterMap]
  constructor
  · rintro ⟨other, hmem, hother⟩
    have hsame : other = slot := by
      cases other <;> cases slot <;> cases hslot <;> first | rfl | cases hother
    exact hsame ▸ hmem
  · intro hmem
    exact ⟨slot, hmem, hslot⟩

theorem Report.ofSignal_eq_connected {signal : WorkerSignal} :
    Report.ofSignal signal = some .connected ↔ signal = .connected := by
  cases signal with
  | rpcError operation message lost =>
    simp only [Report.ofSignal]
    split_ifs <;> simp
  | _ => simp [Report.ofSignal]

def WorkerPhase.slots : WorkerPhase → List WorkerSlot
  | .joining slot => [slot]
  | .connecting => [.connectToAgent]
  | .idle | .calling _ _ => []

def WorkerPhase.isJoining : WorkerPhase → Bool
  | .joining _ => true
  | .idle | .connecting | .calling _ _ => false

def WorkerPhase.isConnecting : WorkerPhase → Bool
  | .connecting => true
  | .idle | .joining _ | .calling _ _ => false

namespace WorkerPhase

@[simp] theorem slots_idle : idle.slots = [] := rfl

@[simp] theorem slots_joining (slot : WorkerSlot) : (joining slot).slots = [slot] := rfl

@[simp] theorem slots_connecting : connecting.slots = [.connectToAgent] := rfl

@[simp] theorem slots_calling (call : RpcOperation) (rest : List RpcOperation) :
    (calling call rest).slots = [] := rfl

@[simp] theorem isJoining_idle : idle.isJoining = false := rfl

@[simp] theorem isJoining_joining (slot : WorkerSlot) : (joining slot).isJoining = true := rfl

@[simp] theorem isJoining_connecting : connecting.isJoining = false := rfl

@[simp] theorem isJoining_calling (call : RpcOperation) (rest : List RpcOperation) :
    (calling call rest).isJoining = false := rfl

@[simp] theorem isConnecting_idle : idle.isConnecting = false := rfl

@[simp] theorem isConnecting_joining (slot : WorkerSlot) :
    (joining slot).isConnecting = false := rfl

@[simp] theorem isConnecting_connecting : connecting.isConnecting = true := rfl

@[simp] theorem isConnecting_calling (call : RpcOperation) (rest : List RpcOperation) :
    (calling call rest).isConnecting = false := rfl

end WorkerPhase

namespace Session

def pending (s : Session) : List WorkerSlot := s.worker.phase.slots ++ s.slots

def link (s : Session) : Link :=
  { status := s.window.connectionStatus
    connectButton := s.window.connectButton
    reconnectButton := s.window.reconnectButton
    startButton := s.window.logStreamStartButton
    stopButton := s.window.logStreamStopButton
    deferred := s.window.dialogs.countP (·.next = .setDisconnected)
    commands := s.pending.filterMap Command.ofSlot
    waiting := s.worker.phase.isJoining
    connecting := s.worker.phase.isConnecting
    client := s.worker.client
    stream := s.worker.streamThreads.head?
    reports := s.signals.filterMap Report.ofSignal }

end Session

/-- There is one thread at most, and no request waits for it. -/
structure Worker.Sound (w : Worker) : Prop where
  streamThreads : w.streamThreads.length ≤ 1
  joining : ∀ request, w.phase ≠ .joining (.request request)

namespace Worker

theorem Sound.start : start.Sound := ⟨by decide, by simp [Worker.start]⟩

theorem Sound.tail_eq_nil {w : Worker} (h : w.Sound) : w.streamThreads.tail = [] := by
  rw [← List.length_eq_zero_iff, List.length_tail]
  have := h.streamThreads
  omega

theorem Sound.proceed {w : Worker} (h : w.Sound) (slot : WorkerSlot) :
    (w.proceed slot).1.Sound := by
  cases slot with
  | startLogStream =>
    constructor
    · simp only [Worker.proceed, h.tail_eq_nil]
      split <;> simp
    · simp [Worker.proceed]
  | _ => exact ⟨by simp [Worker.proceed, h.tail_eq_nil], by simp [Worker.proceed]⟩

theorem next_ne_joining (calls : List RpcOperation) (slot : WorkerSlot) :
    next calls ≠ .joining slot := by
  cases calls <;> simp [next]

theorem Sound.invoke {w : Worker} (h : w.Sound) (slot : WorkerSlot) : (w.invoke slot).1.Sound := by
  cases slot with
  | request request =>
    refine ⟨h.streamThreads, fun other => ?_⟩
    simp only [Worker.invoke]
    split
    · exact next_ne_joining _ _
    · simp
  | _ =>
    simp only [Worker.invoke]
    split
    · exact h.proceed _
    · exact ⟨h.streamThreads, by simp⟩

theorem Sound.connectReply {w : Worker} (h : w.Sound) (status : Status) :
    (w.connectReply status).1.Sound := by
  unfold Worker.connectReply
  split
  · exact ⟨h.streamThreads, by simp⟩
  · exact ⟨h.streamThreads, by simp [emitRpcError]⟩

theorem Sound.callReply {w : Worker} (h : w.Sound) (call : RpcOperation)
    (rest : List RpcOperation) (status : Status) : (w.callReply call rest status).1.Sound := by
  unfold Worker.callReply
  split
  · exact ⟨h.streamThreads, fun request => next_ne_joining _ _⟩
  · exact ⟨h.streamThreads, by simp [emitRpcError]⟩

/-- A thread that goes on remains the only one. -/
theorem Sound.streamed {w : Worker} (h : w.Sound) {thread : StreamPhase}
    {threads : List StreamPhase} (hthreads : w.streamThreads = thread :: threads)
    (phase : StreamPhase) : { w with streamThreads := phase :: threads }.Sound := by
  refine ⟨?_, h.joining⟩
  have := h.streamThreads
  rw [hthreads] at this
  exact this

end Worker

namespace Session

theorem sound_step {action : Action} {s s' : Session} (h : s.worker.Sound)
    (hstep : Step action s s') : s'.worker.Sound := by
  cases hstep with
  | input => exact h
  | deliver => exact h
  | invoke => exact h.invoke _
  | join => exact h.proceed _
  | connectReply => exact h.connectReply _
  | callReply => exact h.callReply _ _ _
  | localFailure => exact ⟨h.streamThreads, by simp [emitted]⟩
  | diagnosticProgress => exact h
  | logLineReady => exact h
  | streamLogReply hthreads => exact h.streamed hthreads _
  | streamReport hthreads => exact h.streamed hthreads _

theorem connect_mem_commands {s : Session} :
    .connect ∈ s.link.commands ↔ .connectToAgent ∈ s.pending :=
  Command.mem_filterMap_ofSlot rfl

theorem disconnect_mem_commands {s : Session} :
    .disconnect ∈ s.link.commands ↔ .disconnectFromAgent ∈ s.pending :=
  Command.mem_filterMap_ofSlot rfl

def event (action : Action) (s : Session) : Link.Event :=
  match action with
  | .input (.startStreaming logId) => if logId = [] then .other else .start
  | .deliver =>
    match s.signals.head?.bind Report.ofSignal with
    | some report => .deliver report
    | none => .other
  | .streamLogReply status => if status.code = .unavailable then .streamLost else .other
  | _ => .other

theorem link_handled (s : Session) (result : MainWindow × List WorkerSlot) :
    (s.handled result).link =
      { s.link with
        status := result.1.connectionStatus
        connectButton := result.1.connectButton
        reconnectButton := result.1.reconnectButton
        startButton := result.1.logStreamStartButton
        stopButton := result.1.logStreamStopButton
        deferred := result.1.dialogs.countP (·.next = .setDisconnected)
        commands := s.link.commands ++ result.2.filterMap Command.ofSlot } := by
  simp [link, handled, pending]

theorem link_emitted (s : Session) (result : Worker × List WorkerSignal) :
    (s.emitted result).link =
      { s.link with
        commands := (result.1.phase.slots ++ s.slots).filterMap Command.ofSlot
        waiting := result.1.phase.isJoining
        connecting := result.1.phase.isConnecting
        client := result.1.client
        stream := result.1.streamThreads.head?
        reports := s.link.reports ++ result.2.filterMap Report.ofSignal } := by
  simp [link, emitted, pending]

theorem alive_iff (s : Session) : s.link.Alive ↔ s.worker.streamEnded = false := by
  simp only [Link.Alive, link, Worker.streamEnded]
  cases s.worker.streamThreads.head? with
  | none => simp
  | some phase => cases phase <;> simp

theorem link_input {s : Session} {input : MainWindow.Input}
    (hallows : s.window.allows input = true) :
    (s.handled (s.window.receive input)).link = s.link ∨
      Link.Move (event (.input input) s) s.link (s.handled (s.window.receive input)).link := by
  rw [link_handled]
  cases input with
  | connect host =>
    simp only [MainWindow.allows, Bool.and_eq_true] at hallows
    -- an empty host opens a box instead
    simp only [MainWindow.receive, MainWindow.connectToAgent]
    split
    · left
      simp [link, MainWindow.openDialog]
    · right
      exact Link.Move.connect (l := s.link) hallows.2
  | disconnect => exact .inr .disconnect
  | reconnect =>
    simp only [MainWindow.allows, Bool.and_eq_true] at hallows
    exact .inr (.reconnect (l := s.link) hallows.2)
  | startStreaming logId =>
    simp only [MainWindow.allows, Bool.and_eq_true, decide_eq_true_eq] at hallows
    -- so does a missing selection
    simp only [MainWindow.receive, MainWindow.startStreaming]
    split
    · left
      simp [link, MainWindow.openDialog]
    · rename_i hlogId
      right
      simp only [event, if_neg hlogId]
      exact Link.Move.start (l := s.link) hallows.2 (by simp [link, hallows.1])
  | stopStreaming => exact .inr .stop
  | closeDialog accepted =>
    simp only [MainWindow.receive, MainWindow.closeDialog]
    cases hdialogs : s.window.dialogs with
    | nil =>
      left
      simp [link, hdialogs]
    | cons dialog dialogs =>
      -- only the box of a lost connection has left the link something to do
      cases hnext : dialog.next with
      | none =>
        left
        simp [link, hdialogs, hnext]
      | setDisconnected =>
        right
        have hdeferred : s.link.deferred =
            dialogs.countP (·.next = .setDisconnected) + 1 := by simp [link, hdialogs, hnext]
        simpa [link, Link.setConnected, MainWindow.setConnected, event, hnext]
          using Link.Move.close hdeferred
      | requestIfYes request =>
        left
        cases accepted <;> simp [link, hdialogs, hnext, Command.ofSlot]
      | downloadIfNamed =>
        left
        cases accepted <;> simp [link, hdialogs, hnext, Command.ofSlot]
  | details pid =>
    left
    simp only [MainWindow.receive, MainWindow.showSelectedProcessDetails]
    split <;> simp [link, MainWindow.openDialog, Command.ofSlot]
  | processControl actionName pid =>
    left
    simp only [MainWindow.receive, MainWindow.confirmProcessControl]
    split <;> simp [link, MainWindow.openDialog]
  | readTail logId =>
    left
    simp only [MainWindow.receive, MainWindow.readTail]
    split <;> simp [link, MainWindow.openDialog, Command.ofSlot]
  | serviceControl actionName name =>
    left
    cases name <;>
      simp [link, MainWindow.receive, MainWindow.confirmServiceControl, MainWindow.openDialog]
  | createDiagnostic =>
    left
    simp [link, MainWindow.receive, MainWindow.createDiagnostic, MainWindow.openDialog]
  | refreshNetwork | refreshServices | metricsTimeout | processesTimeout =>
    left
    simp [link, MainWindow.receive, Command.ofSlot]

theorem link_deliver {s : Session} {signal : WorkerSignal} {signals : List WorkerSignal}
    (hsignals : s.signals = signal :: signals) :
    let s' := { s with signals := signals }.handled (s.window.handle signal)
    s'.link = s.link ∨ Link.Move (event .deliver s) s.link s'.link := by
  intro s'
  simp only [s', link_handled]
  cases hreport : Report.ofSignal signal with
  | none =>
    left
    have hreports : s.link.reports = signals.filterMap Report.ofSignal := by
      simp only [link, hsignals, List.filterMap_cons_none hreport]
    cases signal with
    | display => simp [link, pending, MainWindow.handle, ← hreports]
    | diagnosticReady =>
      simp [link, pending, MainWindow.handle, MainWindow.diagnosticCompleted, ← hreports]
    | rpcError operation message lost =>
      have hnot : lost = false ∧ operation ≠ ascii "Connect" := by
        simp only [Report.ofSignal] at hreport
        split_ifs at hreport with hstream hlost hconnect
        exact ⟨by simpa using hlost, hconnect⟩
      obtain ⟨rfl, hconnect⟩ := hnot
      simp [link, pending, MainWindow.handle, MainWindow.handleRpcError,
        MainWindow.openDialog, ← hreports, hconnect]
    | _ => cases hreport
  | some report =>
    right
    have hreports : s.link.reports = report :: signals.filterMap Report.ofSignal := by
      simp [link, hsignals, hreport]
    have hevent : event .deliver s = .deliver report := by simp [event, hsignals, hreport]
    rw [hevent]
    -- Both sides handle the report in the same way; `simp` compares the fields.
    apply (Link.Move.deliver hreports).of_eq
    cases signal with
    | connected =>
      cases hreport
      simp [link, pending, MainWindow.handle, MainWindow.handleConnected,
        MainWindow.setConnected, Link.handle, Link.setConnected]
    | disconnected =>
      cases hreport
      simp [link, pending, MainWindow.handle, MainWindow.handleDisconnected,
        MainWindow.setConnected, Link.handle, Link.setConnected]
    | logStreamStopped =>
      cases hreport
      simp [link, pending, MainWindow.handle, MainWindow.handleLogStreamStopped, Link.handle]
    | rpcError operation message lost =>
      have hhandle : Link.handle report = if lost then Link.handleConnectionLost
          else if operation = ascii "Connect" then Link.handle .connectFailed else id := by
        simp only [Report.ofSignal] at hreport
        split_ifs at hreport with hstream hlost hconnect
        · cases hreport
          subst hstream
          funext l
          cases lost <;> rfl
        · cases hreport
          rw [if_pos hlost]
          rfl
        · cases hreport
          rw [if_neg hlost, if_pos hconnect]
      rw [hhandle]
      cases lost with
      | true =>
        simp [link, pending, MainWindow.handle, MainWindow.handleRpcError, MainWindow.setConnected,
          MainWindow.stopTimers, MainWindow.openDialog,
          Link.handleConnectionLost, Link.setConnected]
      | false =>
        by_cases hconnect : operation = ascii "Connect"
        · simp [link, pending, MainWindow.handle, MainWindow.handleRpcError,
            MainWindow.openDialog, hconnect, Link.handle]
        · simp [link, pending, MainWindow.handle, MainWindow.handleRpcError,
            MainWindow.openDialog, hconnect]
    | display | diagnosticReady => cases hreport

theorem link_proceed {s : Session} (h : s.worker.Sound) {slot : WorkerSlot}
    {slots : List WorkerSlot} (hslot : ∀ request, slot ≠ .request request)
    (hpending : s.pending = slot :: slots) (hphase : s.worker.phase.isConnecting = false)
    (hended : s.worker.streamEnded = true) :
    Link.Move .other s.link ({ s with slots := slots }.emitted (s.worker.proceed slot)).link := by
  have halive : ¬ s.link.Alive := by simp [alive_iff, hended]
  have hcommands : s.link.commands = (slot :: slots).filterMap Command.ofSlot := by
    simp [link, hpending]
  rw [link_emitted]
  cases slot with
  | connectToAgent =>
    apply (Link.Move.performConnect (l := s.link) hcommands halive hphase).of_eq
    simp [link, Worker.proceed, h.tail_eq_nil, hpending]
  | disconnectFromAgent =>
    apply (Link.Move.performDisconnect (l := s.link) hcommands halive hphase).of_eq
    simp [link, Worker.proceed, h.tail_eq_nil, hphase, Report.ofSignal]
  | startLogStream =>
    apply (Link.Move.performStart (l := s.link) hcommands halive hphase).of_eq
    cases hclient : s.worker.client <;>
      simp [link, Worker.proceed, h.tail_eq_nil, hphase, hclient]
  | stopLogStream =>
    apply (Link.Move.performStop (l := s.link) hcommands halive hphase).of_eq
    simp [link, Worker.proceed, h.tail_eq_nil, hphase]
  | request request => exact absurd rfl (hslot request)

theorem link_invoke {s : Session} (h : s.worker.Sound) {slot : WorkerSlot}
    {slots : List WorkerSlot} (hphase : s.worker.phase = .idle) (hslots : s.slots = slot :: slots) :
    let s' := { s with slots := slots }.emitted (s.worker.invoke slot)
    s'.link = s.link ∨ Link.Move .other s.link s'.link := by
  intro s'
  have hpending : s.pending = slot :: slots := by simp [pending, hphase, hslots]
  by_cases hrequest : ∃ request, slot = .request request
  · left
    obtain ⟨request, rfl⟩ := hrequest
    have hcommands : s.link.commands = slots.filterMap Command.ofSlot := by
      simp only [link, hpending]
      exact List.filterMap_cons_none rfl
    simp only [s', link_emitted, Worker.invoke]
    cases hclient : s.worker.client
    · simp [link, hphase, hclient, ← hcommands]
    · cases request.calls <;> simp [link, hphase, hclient, Worker.next, ← hcommands]
  · right
    push Not at hrequest
    have hinvoke : s.worker.invoke slot = if s.worker.streamEnded then s.worker.proceed slot
        else ({ s.worker with phase := .joining slot }, []) := by
      cases slot with
      | request request => exact absurd rfl (hrequest request)
      | _ => rfl
    -- The slot begins with `StopLogStream`, which waits where a thread is alive.
    simp only [s', hinvoke]
    split
    · rename_i hended
      exact link_proceed h hrequest hpending (by rw [hphase]; rfl) hended
    · rename_i hended
      have halive : s.link.Alive := by simpa [alive_iff] using hended
      have hcommands : s.link.commands ≠ [] := by
        simp only [link, hpending]
        cases slot <;> simp at hrequest ⊢
      apply (Link.Move.wait hcommands halive (by simp [link, hphase])).of_eq
      rw [link_emitted]
      simp [link, hpending, hphase]

theorem connect_ne_streamLog : ascii "Connect" ≠ ascii "StreamLog" := by
  decide

theorem link_connectReply {s : Session} {status : Status} (hphase : s.worker.phase = .connecting) :
    Link.Move .other s.link (s.emitted (s.worker.connectReply status)).link := by
  have hcommands : s.link.commands = .connect :: s.slots.filterMap Command.ofSlot := by
    simp [link, pending, hphase]
  have hconnecting : s.link.connecting = true := by simp [link, hphase]
  rw [link_emitted]
  simp only [Worker.connectReply]
  split
  · apply (Link.Move.connected hcommands hconnecting).of_eq
    simp [link, hphase, Report.ofSignal]
  · cases hlost : connectionLost status with
    | true =>
      apply (Link.Move.connectFailed hcommands hconnecting (.inr rfl)).of_eq
      simp [link, hphase, hlost, Report.ofSignal, Worker.emitRpcError, connect_ne_streamLog]
    | false =>
      apply (Link.Move.connectFailed hcommands hconnecting (.inl rfl)).of_eq
      simp [link, hphase, hlost, Report.ofSignal, Worker.emitRpcError, connect_ne_streamLog]

theorem link_callReply {s : Session} {call : RpcOperation} {rest : List RpcOperation}
    {status : Status} (hphase : s.worker.phase = .calling call rest) :
    let s' := s.emitted (s.worker.callReply call rest status)
    s'.link = s.link ∨ Link.Move .other s.link s'.link := by
  intro s'
  simp only [s', link_emitted, Worker.callReply]
  split
  · left
    have hsucceeded : call.succeeded.filterMap Report.ofSignal = [] := by cases call <;> rfl
    cases rest <;> simp [link, pending, hphase, hsucceeded, Worker.next]
  · cases hlost : connectionLost status with
    | true =>
      right
      apply (Link.Move.callLost (l := s.link) (by simp [link, hphase])).of_eq
      simp [link, pending, hphase, Worker.emitRpcError, hlost, Report.ofSignal, call.name_ne]
    | false =>
      left
      simp [link, pending, hphase, Worker.emitRpcError, hlost, Report.ofSignal, call.name_ne]

theorem link_streamLogReply {s : Session} {threads : List StreamPhase} {status : Status}
    (hthreads : s.worker.streamThreads = .calling :: threads) :
    Link.Move (event (.streamLogReply status) s) s.link
      (s.streamed threads (Worker.streamLogReply status)).link := by
  have hstream : s.link.stream = some .calling := by simp [link, hthreads]
  simp only [streamed, link_emitted, Worker.streamLogReply, event]
  by_cases hended : status.code = .ok ∨ status.code = .cancelled
  · have hlost : status.code ≠ .unavailable := by
      rintro hlost
      simp [hlost] at hended
    rw [if_pos hended, if_neg hlost]
    apply (Link.Move.streamStopped (l := s.link) (.inl hstream)).of_eq
    simp [link, pending, Report.ofSignal]
  · rw [if_neg hended]
    by_cases hlost : status.code = .unavailable
    · rw [if_pos hlost]
      apply (Link.Move.streamLost (l := s.link) hstream).of_eq
      simp [link, pending, Report.ofSignal, hlost]
    · rw [if_neg hlost]
      apply (Link.Move.streamFailed (l := s.link) hstream).of_eq
      simp [link, pending, Report.ofSignal, hlost]

/-- Every step of a session is a move of its link, or cannot be seen there. -/
theorem link_step {action : Action} {s s' : Session} (h : s.worker.Sound)
    (hstep : Step action s s') :
    s'.link = s.link ∨ Link.Move (event action s) s.link s'.link := by
  cases hstep with
  | input hallows => exact link_input hallows
  | deliver hsignals => exact link_deliver hsignals
  | invoke hphase hslots => exact link_invoke h hphase hslots
  | join hphase hended =>
    refine .inr (link_proceed h ?_ (by simp [pending, hphase]) (by simp [hphase]) hended)
    rintro request rfl
    exact h.joining request hphase
  | connectReply hphase => exact .inr (link_connectReply hphase)
  | callReply hphase => exact link_callReply hphase
  | localFailure hphase =>
    left
    rw [link_emitted]
    have hname := RpcOperation.name_ne .downloadDiagnosticBundle
    simp only [RpcOperation.name] at hname
    simp [link, pending, hphase, Report.ofSignal, hname]
  | diagnosticProgress =>
    left
    rw [link_emitted]
    simp [link, pending, Report.ofSignal]
  | logLineReady =>
    left
    rw [link_emitted]
    simp [link, pending, Report.ofSignal]
  | streamLogReply hthreads => exact .inr (link_streamLogReply hthreads)
  | streamReport hthreads =>
    right
    have hstream : s.link.stream = some .reporting := by simp [link, hthreads]
    apply (Link.Move.streamStopped (l := s.link) (.inr hstream)).of_eq
    rw [streamed, link_emitted]
    simp [link, pending, Report.ofSignal]

/-- A session takes its link along. -/
theorem reachable_link {P : Action → Session → Prop} {Q : Link.Event → Link → Prop}
    (hPQ : ∀ action s, s.worker.Sound → P action s → Q (event action s) s.link) {s : Session}
    (h : Reachable P s) :
    s.worker.Sound ∧ Runs.Reachable Link.Move Q start.link s.link := by
  apply h.simulate link (I := fun s => s.worker.Sound) Worker.Sound.start
  · intro action s s' hsound hstep
    exact sound_step hsound (.of_step hstep)
  · intro action s s' hsound hP hstep
    rcases link_step hsound (.of_step hstep) with hlink | hmove
    · exact .inl hlink
    · exact .inr ⟨event action s, hPQ action s hsound hP, hmove⟩

end Session
end EdgeScope
