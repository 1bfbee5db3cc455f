import EdgeScope.Client.SessionLink

/-!
# The connection the window shows

The worker has a client exactly when the window will show a connection, as long as no connect
or disconnect is under way. The thread of the stream can break that, which reports a lost
connection without regard to the client, and so can a box that closes late.
-/

namespace EdgeScope
open Text

namespace Link

/-- The stream loses the connection only when the worker has no client, or is about to connect
or disconnect, and no connection is reported while an error of `Connect` is being shown. -/
def Kept (event : Event) (l : Link) : Prop :=
  match event with
  | .streamLost => l.client = false ∨ .connect ∈ l.commands ∨ .disconnect ∈ l.commands
  | .deliver report => report = .connected → l.deferred = 0
  | .start | .other => True

structure Agrees (l : Link) : Prop where
  connecting : l.connecting = true → l.client = true
  client : .connect ∈ l.commands ∨ .disconnect ∈ l.commands ∨ l.willShow = l.client

theorem Agrees.connecting_move {event : Event} {l l' : Link} (h : l.Agrees)
    (hmove : Move event l l') : l'.connecting = true → l'.client = true := by
  have hconnecting := h.connecting
  cases hmove with
  | deliver => simpa using hconnecting
  | _ => grind -linarith

theorem willShow_handle {l : Link} {report : Report} {reports : List Report}
    (hreports : l.reports = report :: reports) (hdeferred : report = .connected → l.deferred = 0) :
    ({ l with reports := reports }.handle report).willShow = l.willShow := by
  have hshows : ({ l with reports := reports }.handle report).shows = report.shown l.shows :=
    shows_handle hdeferred
  rw [willShow, hshows, handle_reports, willShow, hreports]
  rfl

theorem Agrees.client_move {event : Event} {l l' : Link} (h : l.Agrees)
    (hmove : Move event l l') (hkept : Kept event l) :
    .connect ∈ l'.commands ∨ .disconnect ∈ l'.commands ∨ l'.willShow = l'.client := by
  have hclient := h.client
  have hconnecting := h.connecting
  cases hmove with
  | deliver hreports =>
    -- What the window will show does not change by its showing it.
    rw [mem_handle_commands _ _ (by simp), mem_handle_commands _ _ (by simp),
      willShow_handle hreports hkept, handle_client]
    exact hclient
  | _ => grind -linarith [willShow, shows, Report.shown, Kept]

theorem Agrees.of_reachable {l l' : Link} (hl : l.Agrees) (h : Runs.Reachable Move Kept l l') :
    l'.Agrees := by
  apply h.invariant hl
  intro event l l' hagrees hkept hmove
  exact ⟨hagrees.connecting_move hmove, hagrees.client_move hmove hkept⟩

end Link

namespace Session

/-- Nothing is queued, the worker waits for nothing, and no box is open. -/
def Quiet (s : Session) : Prop :=
  s.slots = [] ∧ s.signals = [] ∧ s.worker.phase = .idle ∧ s.window.dialogs = []

instance (s : Session) : Decidable s.Quiet := inferInstanceAs (Decidable (_ ∧ _))

/-- A log stream ends with `UNAVAILABLE` only when the worker has no client, or a connect or
disconnect is queued or being handled, and `Connected` is not delivered while the box of an error
of `Connect` is open. -/
def ConnectionKept (action : Action) (s : Session) : Prop :=
  match action with
  | .streamLogReply status => status.code = .unavailable →
    s.worker.client = false ∨ .connectToAgent ∈ s.pending ∨ .disconnectFromAgent ∈ s.pending
  | .deliver => s.signals.head? = some .connected →
    ∀ dialog ∈ s.window.dialogs, dialog.next ≠ .setDisconnected
  | _ => True

instance (action : Action) (s : Session) : Decidable (ConnectionKept action s) :=
  match action with
  | .streamLogReply status => inferInstanceAs (Decidable (status.code = .unavailable → _))
  | .deliver => inferInstanceAs (Decidable (s.signals.head? = some .connected → _))
  | .input _ | .invoke | .join | .connectReply _ | .callReply _ | .localFailure _
  | .diagnosticProgress | .logLineReady | .streamReport => isTrue trivial

theorem ConnectionKept.link {action : Action} {s : Session} (h : ConnectionKept action s) :
    Link.Kept (event action s) s.link := by
  cases action with
  | input input =>
    cases input with
    | startStreaming logId =>
      simp only [event]
      split <;> trivial
    | _ => trivial
  | deliver =>
    cases hsignals : s.signals with
    | nil => simp [event, hsignals, Link.Kept]
    | cons signal signals =>
      cases hreport : Report.ofSignal signal with
      | none => simp [event, hsignals, hreport, Link.Kept]
      | some report =>
        have hevent : event .deliver s = .deliver report := by simp [event, hsignals, hreport]
        rw [hevent]
        rintro rfl
        have hconnected := Report.ofSignal_eq_connected.mp hreport
        have hnext := h (by rw [hsignals, hconnected]; rfl)
        simpa [Session.link, List.countP_eq_zero] using hnext
  | streamLogReply status =>
    simp only [event]
    split
    · rename_i hlost
      simp only [Link.Kept, connect_mem_commands, disconnect_mem_commands]
      exact h hlost
    · trivial
  | _ => trivial

theorem agrees_start : start.link.Agrees := ⟨by decide, by decide⟩

/-- The window shows a connection exactly when the worker has a client, in every state of rest. -/
theorem connectionStatus_connected_iff {s : Session} (h : Reachable ConnectionKept s)
    (hquiet : s.Quiet) : s.window.connectionStatus = .connected ↔ s.worker.client = true := by
  obtain ⟨hslots, hsignals, hphase, hdialogs⟩ := hquiet
  obtain ⟨-, hlink⟩ := reachable_link (fun _ _ _ => ConnectionKept.link) h
  have hclient : .connect ∈ s.link.commands ∨ .disconnect ∈ s.link.commands ∨
      s.link.willShow = s.worker.client := (agrees_start.of_reachable hlink).client
  have hcommands : s.link.commands = [] := by simp [link, pending, hslots, hphase]
  have hshows : s.link.willShow = decide (s.window.connectionStatus = .connected) := by
    simp [Link.willShow, Link.shows, link, hsignals, hdialogs]
  simp only [hcommands, List.not_mem_nil, hshows, false_or] at hclient
  rw [← hclient, decide_eq_true_eq]

def connects : List Action :=
  [.input (.connect (ascii "localhost")), .invoke, .connectReply .ok, .deliver,
    .invoke, .callReply .ok, .invoke, .callReply .ok, .invoke, .callReply .ok, .callReply .ok,
    .invoke, .callReply .ok, .invoke, .callReply .ok,
    .deliver, .deliver, .deliver, .deliver, .deliver]

theorem connectionStatus_connected_iff_connects :
    ∃ s : Session, s.Quiet ∧ s.worker.client = true ∧ s.window.connectionStatus = .connected := by
  have hrun : ∃ s, Reachable ConnectionKept s ∧ s.Quiet ∧ s.worker.client = true := by
    apply Runs.Reachable.exists_of_replay connects
    decide +kernel
  obtain ⟨s, hs, hquiet, hclient⟩ := hrun
  exact ⟨s, hquiet, hclient, (connectionStatus_connected_iff hs hquiet).mpr hclient⟩

/-- The agent goes away while a log is streamed, and comes back before the window asks for
anything else. -/
def losesStream : List Action :=
  connects ++ [.input (.startStreaming (ascii "system")), .invoke,
    .streamLogReply ⟨.unavailable, ascii "Socket closed"⟩, .streamReport,
    .deliver, .deliver, .invoke, .input (.closeDialog true)]

theorem disconnected_with_client :
    ∃ s, Reachable (fun _ _ => True) s ∧
      s.Quiet ∧ s.worker.streamThreads = [] ∧ s.worker.client = true ∧
        s.window.connectionStatus ≠ .connected := by
  apply Runs.Reachable.exists_of_replay losesStream
  decide +kernel

end Session
end EdgeScope
