import EdgeScope.Client.Session

/-!
# The connection and the log stream

What the window and the worker know of the connection and of the stream, apart from everything
else they do: the commands and the reports under way are the slots and signals that matter.
Some moves are possible here more often than in a session, none less often.
-/

namespace EdgeScope

inductive Command
  | connect
  | disconnect
  | start
  | stop
  deriving DecidableEq, Repr

inductive Report
  | connected
  | disconnected
  | stopped
  /-- An error of `Connect` that leaves open whether the connection is lost. -/
  | connectFailed
  | streamFailed (lost : Bool)
  /-- An error other than of the stream. -/
  | connectionLost
  deriving DecidableEq, Repr

@[grind =] def Report.lost : Report → Bool
  | .connectionLost => true
  | .streamFailed lost => lost
  | .connected | .disconnected | .stopped | .connectFailed => false

/-- Whether the window shows a connection after the report, and the boxes that come with it. -/
def Report.shown (connected : Bool) : Report → Bool
  | .connected => true
  | .disconnected | .connectFailed | .connectionLost => false
  | .streamFailed lost => connected && !lost
  | .stopped => connected

structure Link where
  status : ConnectionStatus
  connectButton : Bool
  reconnectButton : Bool
  startButton : Bool
  stopButton : Bool
  /-- How many open boxes the handler of an error of `Connect` waits for. -/
  deferred : ℕ
  /-- The command the worker is at, and those that are queued. -/
  commands : List Command
  /-- Whether the worker waits for the thread of the stream. -/
  waiting : Bool
  /-- Whether the worker waits for the reply to `GetAgentInfo`. -/
  connecting : Bool
  client : Bool
  stream : Option StreamPhase
  reports : List Report
  deriving DecidableEq, Repr

namespace Link

@[grind =] def setConnected (connected : Bool) (l : Link) : Link :=
  { l with
    status := if connected then .connected else .disconnected
    connectButton := !connected
    reconnectButton := connected
    startButton := connected
    stopButton := false }

def handleConnectionLost (l : Link) : Link :=
  { l.setConnected false with commands := l.commands ++ [.stop] }

def handle (report : Report) (l : Link) : Link :=
  match report with
  | .connected => l.setConnected true
  | .disconnected => l.setConnected false
  | .stopped => { l with stopButton := false, startButton := l.status = .connected }
  | .connectFailed => { l with deferred := l.deferred + 1 }
  | .streamFailed lost => if lost then l.handleConnectionLost else l
  | .connectionLost => l.handleConnectionLost

/-- Whether the window shows a connection, and no box is left to end that. -/
def shows (l : Link) : Bool := l.status = .connected && l.deferred = 0

/-- Whether the window will show a connection when all reports have been delivered. -/
def willShow (l : Link) : Bool := l.reports.foldl Report.shown l.shows

/-- Whether the thread of the stream has still something to emit. -/
def Alive (l : Link) : Prop := l.stream = some .calling ∨ l.stream = some .reporting

instance (l : Link) : Decidable l.Alive := inferInstanceAs (Decidable (_ ∨ _))

inductive Event
  | start
  | deliver (report : Report)
  | streamLost
  | other
  deriving DecidableEq, Repr

inductive Move : Event → Link → Link → Prop
  | connect {l : Link} (hbutton : l.connectButton = true) :
    Move .other l
      { l with
        status := .connecting, connectButton := false, commands := l.commands ++ [.connect] }
  | disconnect {l : Link} :
    Move .other l { l with commands := l.commands ++ [.stop, .disconnect] }
  | reconnect {l : Link} (hbutton : l.reconnectButton = true) :
    Move .other l
      { l with
        status := .reconnecting, commands := l.commands ++ [.stop, .disconnect, .connect] }
  | start {l : Link} (hbutton : l.startButton = true) (hdeferred : l.deferred = 0) :
    Move .start l
      { l with startButton := false, stopButton := true, commands := l.commands ++ [.start] }
  | stop {l : Link} : Move .other l { l with commands := l.commands ++ [.stop] }
  | close {l : Link} {deferred : ℕ} (hdeferred : l.deferred = deferred + 1) :
    Move .other l ({ l with deferred := deferred }.setConnected false)
  | deliver {l : Link} {report : Report} {reports : List Report}
      (hreports : l.reports = report :: reports) :
    Move (.deliver report) l ({ l with reports := reports }.handle report)
  | wait {l : Link} (hcommands : l.commands ≠ []) (halive : l.Alive)
      (hconnecting : l.connecting = false) :
    Move .other l { l with waiting := true }
  | performConnect {l : Link} {commands : List Command}
      (hcommands : l.commands = .connect :: commands) (halive : ¬ l.Alive)
      (hconnecting : l.connecting = false) :
    Move .other l { l with client := true, connecting := true, waiting := false, stream := none }
  | performDisconnect {l : Link} {commands : List Command}
      (hcommands : l.commands = .disconnect :: commands) (halive : ¬ l.Alive)
      (hconnecting : l.connecting = false) :
    Move .other l
      { l with
        commands := commands, client := false, waiting := false, stream := none
        reports := l.reports ++ [.disconnected] }
  | performStart {l : Link} {commands : List Command} (hcommands : l.commands = .start :: commands)
      (halive : ¬ l.Alive) (hconnecting : l.connecting = false) :
    Move .other l
      { l with
        commands := commands, waiting := false
        stream := if l.client then some .calling else none }
  | performStop {l : Link} {commands : List Command} (hcommands : l.commands = .stop :: commands)
      (halive : ¬ l.Alive) (hconnecting : l.connecting = false) :
    Move .other l { l with commands := commands, waiting := false, stream := none }
  | connected {l : Link} {commands : List Command} (hcommands : l.commands = .connect :: commands)
      (hconnecting : l.connecting = true) :
    Move .other l
      { l with
        commands := commands, connecting := false, reports := l.reports ++ [.connected] }
  | connectFailed {l : Link} {commands : List Command}
      (hcommands : l.commands = .connect :: commands) (hconnecting : l.connecting = true)
      {report : Report} (hreport : report = .connectFailed ∨ report = .connectionLost) :
    Move .other l
      { l with
        commands := commands, connecting := false, client := false
        reports := l.reports ++ [report] }
  | callLost {l : Link} (hconnecting : l.connecting = false) :
    Move .other l { l with client := false, reports := l.reports ++ [.connectionLost] }
  | streamStopped {l : Link} (hstream : l.Alive) :
    Move .other l { l with stream := some .finished, reports := l.reports ++ [.stopped] }
  | streamFailed {l : Link} (hstream : l.stream = some .calling) :
    Move .other l
      { l with stream := some .reporting, reports := l.reports ++ [.streamFailed false] }
  | streamLost {l : Link} (hstream : l.stream = some .calling) :
    Move .streamLost l
      { l with stream := some .reporting, reports := l.reports ++ [.streamFailed true] }

theorem Move.of_eq {event : Event} {l l' l'' : Link} (h : Move event l l') (heq : l'' = l') :
    Move event l l'' :=
  heq ▸ h

section

variable (report : Report) (l : Link)

@[simp, grind =] theorem handle_waiting : (l.handle report).waiting = l.waiting := by
  cases report with
  | streamFailed lost => cases lost <;> rfl
  | _ => rfl

@[simp, grind =] theorem handle_connecting : (l.handle report).connecting = l.connecting := by
  cases report with
  | streamFailed lost => cases lost <;> rfl
  | _ => rfl

@[simp, grind =] theorem handle_client : (l.handle report).client = l.client := by
  cases report with
  | streamFailed lost => cases lost <;> rfl
  | _ => rfl

@[simp, grind =] theorem handle_stream : (l.handle report).stream = l.stream := by
  cases report with
  | streamFailed lost => cases lost <;> rfl
  | _ => rfl

@[simp, grind =] theorem handle_reports : (l.handle report).reports = l.reports := by
  cases report with
  | streamFailed lost => cases lost <;> rfl
  | _ => rfl

@[simp, grind =] theorem alive_handle : (l.handle report).Alive ↔ l.Alive := by
  rw [Alive, Alive, handle_stream]

/-- The handlers ask the worker for nothing but to stop the stream. -/
@[grind =] theorem handle_commands :
    (l.handle report).commands = l.commands ++ if report.lost then [.stop] else [] := by
  cases report with
  | streamFailed lost => cases lost <;> simp [handle, handleConnectionLost, Report.lost]
  | _ => simp [handle, handleConnectionLost, setConnected, Report.lost]

theorem mem_handle_commands {command : Command} (hcommand : command ≠ .stop) :
    command ∈ (l.handle report).commands ↔ command ∈ l.commands := by
  rw [handle_commands]
  split <;> simp [hcommand]

theorem handle_deferred {report : Report} {l : Link} (hreport : report ≠ .connectFailed) :
    (l.handle report).deferred = l.deferred := by
  cases report with
  | connectFailed => exact absurd rfl hreport
  | streamFailed lost => cases lost <;> rfl
  | _ => rfl

end

theorem shows_handle {report : Report} {l : Link}
    (hdeferred : report = .connected → l.deferred = 0) :
    (l.handle report).shows = report.shown l.shows := by
  cases report with
  | connected => simp [handle, shows, setConnected, Report.shown, hdeferred]
  | disconnected => simp [handle, shows, setConnected, Report.shown]
  | stopped => rfl
  | connectFailed => simp [handle, shows, Report.shown]
  | streamFailed lost =>
    cases lost <;> simp [handle, handleConnectionLost, shows, setConnected, Report.shown]
  | connectionLost => simp [handle, handleConnectionLost, shows, setConnected, Report.shown]

/-- A box can only be in the way. -/
theorem shows_handle_le (report : Report) (l : Link) :
    (l.handle report).shows ≤ report.shown l.shows := by
  by_cases hreport : report = .connected
  · subst hreport
    exact Bool.le_true _
  · rw [shows_handle (fun h => absurd h hreport)]

theorem shown_mono (reports : List Report) {connected connected' : Bool}
    (h : connected ≤ connected') :
    reports.foldl Report.shown connected ≤ reports.foldl Report.shown connected' := by
  induction reports generalizing connected connected' with
  | nil => exact h
  | cons report reports ih =>
    apply ih
    cases report with
    | streamFailed lost => cases lost <;> simp [Report.shown, h]
    | stopped => exact h
    | _ => exact le_refl _

end Link
end EdgeScope
