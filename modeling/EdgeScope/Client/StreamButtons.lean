import EdgeScope.Client.ClientReports
import EdgeScope.Client.ConnectionState

/-!
# The buttons of the log stream

In every state in which nothing is queued, the one button is enabled while the stream runs, and
the other while the window is connected and it does not.
-/

namespace EdgeScope
open Text

namespace Link

/-- What the buttons tell of the stream. -/
structure Enabled (l : Link) : Prop where
  calling : l.stream = some .calling → l.stopButton = true
  /-- The window has forgotten a start only where nothing will come of it. -/
  starting : .start ∈ l.commands →
    l.stopButton = true ∨ (l.client = false ∧ l.status ≠ .connected)
  /-- A start of which nothing will come is about to be forgotten. -/
  vain : .start ∈ l.commands → l.stopButton = true → l.client = false → l.Clearing
  stopButton : l.stopButton = true → 1 ≤ l.streams ∨ l.Clearing
  startButton : l.startButton = true → l.status ≠ .connected →
    l.Clearing ∨ [Command.disconnect, .connect].Sublist l.commands
  connectButton : l.connectButton = true → l.status = .disconnected ∧
    l.reconnectButton = false ∧ l.startButton = false ∧ l.stopButton = false
  connected : l.status = .connected → l.startButton = false → 1 ≤ l.streams ∨ l.Clearing

namespace Enabled

variable {event : Event} {l l' : Link}

/-- A start with a client stays as it is when a box closes. -/
theorem client_eq_false_of_deferred (ht : l.Told) (hstart : .start ∈ l.commands) {deferred : ℕ}
    (hdeferred : l.deferred = deferred + 1) : l.client = false := by
  by_contra hclient
  have := (ht.streaming (.inr ⟨hstart, by simpa using hclient⟩)).2
  omega

/-- What ends the connection while a start is queued comes of a client that is gone. -/
theorem client_eq_false_of_clears (ho : l.Ordered) (ht : l.Told) (hstart : .start ∈ l.commands)
    {report : Report} (hreport : report ∈ l.reports) (hclears : report.clears = true) :
    l.client = false := by
  by_contra hclient
  have hconnected := ho.connected (.inr hstart)
  have hnot := ht.notMem (by simpa using hclient) (ho.connecting_eq_false hstart) hconnected
  obtain ⟨halive, hstopped⟩ := notMem_of_start ho.streams_le hstart
  have hlost := ho.streamLost
  cases report with
  | streamFailed lost =>
    cases lost with
    | false => cases hclears
    | true => grind -linarith
  | _ => grind -linarith

theorem calling_move (ho : l.Ordered) (ht : l.Told) (h : l.Enabled) (hmove : Move event l l')
    (hp : Undisturbed event l) : l'.stream = some .calling → l'.stopButton = true := by
  have hcalling := h.calling
  cases hmove with
  | close hdeferred =>
    intro hstream
    have := (ht.streaming (.inl (.inl hstream))).2
    omega
  | deliver hreports =>
    rename_i report reports
    rw [handle_stream]
    -- None of the reports that disable the button can arrive while the call runs.
    intro hstream
    have halive : l.Alive := .inl hstream
    have hconnected := ho.connected (.inl halive)
    have hdisconnected := ht.alive halive
    have hstopped := (notMem_of_alive ho.streams_le halive).2
    have hlost := hp.1
    rw [hreports] at hconnected hdisconnected hstopped
    cases report <;> grind -linarith [handle]
  | performStart hcommands =>
    have hstarting := h.starting (by simp [hcommands])
    grind -linarith
  | _ => first | exact hcalling | grind -linarith

theorem starting_move (ho : l.Ordered) (ht : l.Told) (h : l.Enabled) (hmove : Move event l l') :
    .start ∈ l'.commands →
      l'.stopButton = true ∨ (l'.client = false ∧ l'.status ≠ .connected) := by
  have hstarting := h.starting
  cases hmove with
  | close hdeferred =>
    intro hstart
    exact .inr ⟨client_eq_false_of_deferred (l := l) ht hstart hdeferred, by simp [setConnected]⟩
  | deliver hreports =>
    rename_i report reports
    rw [mem_handle_commands _ _ (by simp), handle_client]
    -- A report that disables the button has come of a client that is gone.
    intro hstart
    have hmem : report ∈ l.reports := by simp [hreports]
    have hclears := client_eq_false_of_clears ho ht hstart hmem
    have hconnected := ho.connected (.inr hstart)
    have hstopped := (notMem_of_start ho.streams_le hstart).2
    cases report <;> grind -linarith [handle, handleConnectionLost]
  | performConnect hcommands =>
    intro hstart
    exact absurd hstart (ho.start_notMem hcommands)
  | _ => first | exact hstarting | grind -linarith

/-- A connection that is shown now and will not be shown is ended by a report. -/
theorem clearing_of_willShow (hshows : l.shows = true) (h : l.willShow = false) :
    l.Clearing ∨ .connectFailed ∈ l.reports := by
  by_contra hnone
  simp only [Clearing, not_or, not_exists, not_and, Bool.not_eq_true] at hnone
  have hkeeps : ∀ reports : List Report, reports ⊆ l.reports →
      reports.foldl Report.shown true = true := by
    intro reports hreports
    induction reports with
    | nil => rfl
    | cons report reports ih =>
      obtain ⟨hmem, hrest⟩ := List.cons_subset.mp hreports
      have hshown : Report.shown true report = true := by
        have := hnone.1 report hmem
        cases report <;> grind -linarith [Report.shown]
      rw [List.foldl_cons, hshown]
      exact ih hrest
  rw [willShow, hshows, hkeeps _ (List.Subset.refl _)] at h
  cases h

theorem vain_move (ho : l.Ordered) (ht : l.Told) (h : l.Enabled) (hmove : Move event l l')
    (hp : Undisturbed event l) :
    .start ∈ l'.commands → l'.stopButton = true → l'.client = false → l'.Clearing := by
  have hvain := h.vain
  cases hmove with
  | start hbutton hdeferred =>
    -- Without a client the connection shown is about to end, or a reconnect is under way.
    intro _ _ hclient
    obtain ⟨hconnect, -, hfailed⟩ := hp
    by_cases hstatus : l.status = .connected
    · rcases clearing_of_willShow (by simp [shows, hstatus, hdeferred]) (ht.dropped hclient) with
        hclearing | hmem
      · exact hclearing
      · exact hfailed hmem
    · rcases h.startButton hbutton hstatus with hclearing | hcommands
      · exact hclearing
      · exact absurd (hcommands.subset (by simp)) hconnect
  | deliver hreports =>
    rename_i report reports
    rw [mem_handle_commands _ _ (by simp), handle_client]
    cases report <;> grind -linarith [handle, handleConnectionLost]
  | performDisconnect => exact fun _ _ _ => ⟨.disconnected, by simp, rfl⟩
  | callLost => exact fun _ _ _ => ⟨.connectionLost, by simp, rfl⟩
  | connectFailed hcommands =>
    intro hstart
    exact absurd (hcommands ▸ .tail _ hstart) (ho.start_notMem hcommands)
  | _ => first | exact hvain | grind -linarith

theorem stopButton_move (h : l.Enabled) (hmove : Move event l l') :
    l'.stopButton = true → 1 ≤ l'.streams ∨ l'.Clearing := by
  have hbutton := h.stopButton
  have hvain := h.vain
  cases hmove with
  | deliver hreports =>
    rename_i report reports
    cases report <;> grind -linarith [streams, Alive, handle, handleConnectionLost]
  | _ => first | exact hbutton | grind -linarith [streams, Alive]

theorem startButton_move (h : l.Enabled) (hmove : Move event l l') :
    l'.startButton = true → l'.status ≠ .connected →
      l'.Clearing ∨ [Command.disconnect, .connect].Sublist l'.commands := by
  have hbutton := h.startButton
  have hconnect := h.connectButton
  cases hmove with
  | deliver hreports =>
    rename_i report reports
    cases report <;> grind -linarith [streams, Alive, handle, handleConnectionLost]
  | _ => first | exact hbutton | grind -linarith

theorem connectButton_move (h : l.Enabled) (hmove : Move event l l') :
    l'.connectButton = true → l'.status = .disconnected ∧
      l'.reconnectButton = false ∧ l'.startButton = false ∧ l'.stopButton = false := by
  have hbutton := h.connectButton
  cases hmove with
  | deliver hreports =>
    rename_i report reports
    cases report <;> grind -linarith [handle, handleConnectionLost]
  | _ => first | exact hbutton | grind -linarith

theorem connected_move (h : l.Enabled) (hmove : Move event l l') :
    l'.status = .connected → l'.startButton = false → 1 ≤ l'.streams ∨ l'.Clearing := by
  have hconnected := h.connected
  have hstarting := h.starting
  have hvain := h.vain
  cases hmove with
  | deliver hreports =>
    rename_i report reports
    cases report <;> grind -linarith [streams, Alive, handle, handleConnectionLost]
  | _ => first | exact hconnected | grind -linarith [streams, Alive]

theorem move (ho : l.Ordered) (ht : l.Told) (h : l.Enabled) (hmove : Move event l l')
    (hp : Undisturbed event l) : l'.Enabled :=
  { calling := calling_move ho ht h hmove hp
    starting := starting_move ho ht h hmove
    vain := vain_move ho ht h hmove hp
    stopButton := h.stopButton_move hmove
    startButton := h.startButton_move hmove
    connectButton := h.connectButton_move hmove
    connected := h.connected_move hmove }

/-- With no report under way and no command but the one the worker is at, the buttons are as the
thread of the stream is. -/
theorem of_rest (ho : l.Ordered) (h : l.Enabled) (hreports : l.reports = [])
    (hcommands : l.commands.length ≤ 1) (hstart : .start ∉ l.commands) :
    (l.stopButton = true ↔ l.stream = some .calling) ∧
    (l.startButton = true ↔ l.status = .connected ∧ l.stream ≠ some .calling) := by
  have hclearing : ¬ l.Clearing := by simp [Clearing, hreports]
  have hreporting : l.stream ≠ some .reporting := by
    intro hstream
    obtain ⟨lost, hlost⟩ := ho.reporting hstream
    simp [hreports] at hlost
  have hstreams : l.streams = 0 ↔ l.stream ≠ some .calling := by
    simp [streams_eq_zero_iff, hstart, hreports, Alive, hreporting]
  have hsublist : ¬ [Command.disconnect, .connect].Sublist l.commands := by
    intro hsublist
    have := hsublist.length_le
    simp only [List.length_cons, List.length_nil] at this
    omega
  refine ⟨⟨?_, h.calling⟩, ?_, ?_⟩
  · intro hstop
    by_contra hstream
    rcases h.stopButton hstop with hle | hmem
    · have := hstreams.mpr hstream
      omega
    · exact hclearing hmem
  · intro hbutton
    refine ⟨?_, hstreams.mp (ho.startButton hbutton)⟩
    by_contra hstatus
    exact (h.startButton hbutton hstatus).elim hclearing hsublist
  · rintro ⟨hstatus, hstream⟩
    by_contra hbutton
    rcases h.connected hstatus (by simpa using hbutton) with hle | hmem
    · have := hstreams.mpr hstream
      omega
    · exact hclearing hmem

end Enabled

theorem enabled_of_reachable {l l' : Link} (hl : l.Ordered ∧ l.Told ∧ l.Enabled)
    (h : Runs.Reachable Move Undisturbed l l') : l'.Ordered ∧ l'.Told ∧ l'.Enabled := by
  apply h.invariant (I := fun l => l.Ordered ∧ l.Told ∧ l.Enabled) hl
  rintro event l l' ⟨ho, ht, hb⟩ hp hmove
  exact ⟨ho.move hmove hp, Told.move ho ht hmove hp, Enabled.move ho ht hb hmove hp⟩

end Link

def WorkerSignal.connectFailed : WorkerSignal → Bool
  | .rpcError operation _ lost => operation = ascii "Connect" && !lost
  | _ => false

def WorkerSignal.connectionLost : WorkerSignal → Bool
  | .rpcError _ _ lost => lost
  | _ => false

def WorkerSignal.ofStream : WorkerSignal → Bool
  | .rpcError operation _ _ => operation = ascii "StreamLog"
  | _ => false

theorem Report.of_ofSignal {signal : WorkerSignal} {report : Report}
    (h : Report.ofSignal signal = some report) :
    (report = .connectFailed → signal.connectFailed = true) ∧
    report.lost = signal.connectionLost ∧
    ((∃ lost, report = .streamFailed lost) → signal.ofStream = true) := by
  cases signal with
  | rpcError operation message lost =>
    simp only [Report.ofSignal] at h
    split_ifs at h with hstream hlost hconnect
    · cases h
      simp [Report.lost, WorkerSignal.connectionLost, WorkerSignal.ofStream, hstream]
    · cases h
      simp [Report.lost, WorkerSignal.connectionLost, hlost]
    · cases h
      simp [Report.lost, WorkerSignal.connectionLost, WorkerSignal.connectFailed, hlost, hconnect]
  | _ => cases h <;> simp [Report.lost, WorkerSignal.connectionLost]

theorem Report.exists_clears {signal : WorkerSignal}
    (h : signal = .disconnected ∨ signal.connectionLost = true) :
    ∃ report, Report.ofSignal signal = some report ∧ report.clears = true := by
  rcases h with rfl | hlost
  · exact ⟨.disconnected, rfl, rfl⟩
  · cases signal with
    | rpcError operation message lost =>
      cases (hlost : lost = true)
      simp only [Report.ofSignal]
      split
      · exact ⟨_, rfl, rfl⟩
      · exact ⟨.connectionLost, rfl, rfl⟩
    | _ => cases hlost

namespace Session

/-- A stream is started only when no connect is queued or being handled, `Connected` is not
queued, and a failed `Connect` is queued only along with a signal upon which the window shows no
connection. A lost connection is not delivered while the thread is in `StreamLog`, and an error of
`StreamLog` not before the thread has emitted `LogStreamStopped`. -/
def StreamUndisturbed (action : Action) (s : Session) : Prop :=
  match action with
  | .input (.startStreaming logId) => logId ≠ [] →
    .connectToAgent ∉ s.pending ∧ .connected ∉ s.signals ∧
      ((∃ signal ∈ s.signals, signal.connectFailed = true) →
        ∃ signal ∈ s.signals, signal = .disconnected ∨ signal.connectionLost = true)
  | .deliver => ∀ signal ∈ s.signals.head?,
    (signal.connectionLost = true → .calling ∉ s.worker.streamThreads) ∧
      (signal.ofStream = true → .reporting ∉ s.worker.streamThreads)
  | _ => True

instance (action : Action) (s : Session) : Decidable (StreamUndisturbed action s) :=
  match action with
  | .deliver => inferInstanceAs (Decidable (∀ signal ∈ s.signals.head?, _ ∧ _))
  | .input input =>
    match input with
    | .startStreaming logId => inferInstanceAs (Decidable (logId ≠ [] → _ ∧ _ ∧ (_ → _)))
    | .connect _ | .disconnect | .reconnect | .details _ | .processControl _ _ | .refreshNetwork
    | .readTail _ | .stopStreaming | .refreshServices | .serviceControl _ _ | .createDiagnostic
    | .closeDialog _ | .metricsTimeout | .processesTimeout => isTrue trivial
  | .invoke | .join | .connectReply _ | .callReply _ | .localFailure _ | .diagnosticProgress
  | .logLineReady | .streamLogReply _ | .streamReport => isTrue trivial

theorem StreamUndisturbed.link {action : Action} {s : Session} (h : StreamUndisturbed action s) :
    Link.Undisturbed (event action s) s.link := by
  cases action with
  | input input =>
    cases input with
    | startStreaming logId =>
      simp only [event]
      split
      · trivial
      · rename_i hlogId
        obtain ⟨hconnect, hconnected, hfailed⟩ := h hlogId
        -- reports that wait are signals that wait
        refine ⟨mt connect_mem_commands.mp hconnect, fun hmem => ?_, fun hmem => ?_⟩
        · obtain ⟨signal, hsignal, hreport⟩ := List.mem_filterMap.mp hmem
          exact hconnected (Report.ofSignal_eq_connected.mp hreport ▸ hsignal)
        · obtain ⟨signal, hsignal, hreport⟩ := List.mem_filterMap.mp hmem
          obtain ⟨other, hother, hclears⟩ :=
            hfailed ⟨signal, hsignal, (Report.of_ofSignal hreport).1 rfl⟩
          obtain ⟨report, hreport, hclears⟩ := Report.exists_clears hclears
          exact ⟨report, List.mem_filterMap.mpr ⟨other, hother, hreport⟩, hclears⟩
    | _ => trivial
  | deliver =>
    cases hsignals : s.signals with
    | nil => simp [event, hsignals, Link.Undisturbed]
    | cons signal signals =>
      cases hreport : Report.ofSignal signal with
      | none => simp [event, hsignals, hreport, Link.Undisturbed]
      | some report =>
        have hevent : event .deliver s = .deliver report := by simp [event, hsignals, hreport]
        obtain ⟨hlost, hstream⟩ := h signal (by simp [hsignals])
        obtain ⟨-, hsame, hofStream⟩ := Report.of_ofSignal hreport
        rw [hevent]
        refine ⟨fun h hcalling => ?_, fun lost h hreporting => ?_⟩
        · exact hlost (hsame ▸ h) (List.mem_of_mem_head? hcalling)
        · exact hstream (hofStream ⟨lost, h⟩) (List.mem_of_mem_head? hreporting)
  | streamLogReply status =>
    simp only [event]
    split <;> trivial
  | _ => trivial

theorem enabled_start : start.link.Ordered ∧ start.link.Told ∧ start.link.Enabled := by
  refine ⟨?_, ?_, ?_⟩
  · constructor <;> simp [link, start, pending, Worker.start, MainWindow.start,
      MainWindow.setConnected, Link.streams, Link.Alive]
  · constructor <;> simp [link, start, pending, Worker.start, MainWindow.start,
      MainWindow.setConnected, Link.Alive, Link.willShow, Link.shows, Link.Held]
  · constructor <;> simp [link, start, pending, Worker.start, MainWindow.start,
      MainWindow.setConnected]

theorem head?_eq_some_iff {thread : StreamPhase} {threads : List StreamPhase}
    (h : threads.length ≤ 1) : threads.head? = some thread ↔ thread ∈ threads := by
  cases threads with
  | nil => simp
  | cons first threads =>
    have : threads = [] := by simpa using h
    simp [this, eq_comm]

/-- The two buttons of the log stream, in every state in which nothing is queued. -/
theorem logStreamButtons_enabled_iff {s : Session} (h : Reachable StreamUndisturbed s) :
    s.worker.streamThreads.count .calling ≤ 1 ∧
    (s.slots = [] → s.signals = [] →
      (s.window.logStreamStopButton = true ↔ .calling ∈ s.worker.streamThreads) ∧
      (s.window.logStreamStartButton = true ↔
        s.window.connectionStatus = .connected ∧ .calling ∉ s.worker.streamThreads)) := by
  obtain ⟨hsound, hlink⟩ := reachable_link (fun _ _ _ => StreamUndisturbed.link) h
  obtain ⟨ho, -, hb⟩ := Link.enabled_of_reachable enabled_start hlink
  refine ⟨List.count_le_length.trans hsound.streamThreads, fun hslots hsignals => ?_⟩
  have hcommands : s.link.commands = s.worker.phase.slots.filterMap Command.ofSlot := by
    simp [link, pending, hslots]
  rw [← head?_eq_some_iff hsound.streamThreads]
  apply Link.Enabled.of_rest ho hb
  · simp [link, hsignals]
  · rw [hcommands]
    apply (List.length_filterMap_le _ _).trans
    cases s.worker.phase <;> simp
  · cases hphase : s.worker.phase with
    | joining slot =>
      obtain ⟨command, commands, heq, hne⟩ := ho.waiting (by simp [link, hphase])
      rw [hcommands, hphase] at heq ⊢
      cases slot with
      | startLogStream =>
        cases heq
        exact absurd rfl hne
      | request request => cases heq
      | _ => simp
    | connecting => simp [hcommands, hphase]
    | idle => simp [hcommands, hphase]
    | calling call rest => simp [hcommands, hphase]

theorem logStreamButtons_enabled_iff_streaming :
    ∃ s : Session, s.slots = [] ∧ s.signals = [] ∧ .calling ∈ s.worker.streamThreads ∧
      s.window.logStreamStopButton = true ∧ s.window.logStreamStartButton = false := by
  have hrun : ∃ s, Reachable StreamUndisturbed s ∧ s.slots = [] ∧ s.signals = [] ∧
      .calling ∈ s.worker.streamThreads := by
    apply Runs.Reachable.exists_of_replay
      (connects ++ [.input (.startStreaming (ascii "system")), .invoke])
    decide +kernel
  obtain ⟨s, hs, hslots, hsignals, hcalling⟩ := hrun
  obtain ⟨hstop, hstart⟩ := (logStreamButtons_enabled_iff hs).2 hslots hsignals
  refine ⟨s, hslots, hsignals, hcalling, hstop.mpr hcalling, ?_⟩
  rw [← Bool.not_eq_true]
  exact fun hbutton => (hstart.mp hbutton).2 hcalling

/-- The user reconnects, and starts a stream before that has been done. -/
def startsWhileReconnecting : List Action :=
  connects ++ [.input .reconnect, .input (.startStreaming (ascii "system")),
    .invoke, .invoke, .invoke, .connectReply .ok, .invoke, .deliver, .deliver,
    .invoke, .callReply .ok, .invoke, .callReply .ok, .invoke, .callReply .ok, .callReply .ok,
    .invoke, .callReply .ok, .invoke, .callReply .ok,
    .deliver, .deliver, .deliver, .deliver, .deliver]

theorem startButton_while_streaming :
    ∃ s, Reachable (fun _ _ => True) s ∧ s.slots = [] ∧ s.signals = [] ∧
      .calling ∈ s.worker.streamThreads ∧ s.window.logStreamStartButton = true ∧
        s.window.logStreamStopButton = false := by
  apply Runs.Reachable.exists_of_replay startsWhileReconnecting
  decide +kernel

end Session
end EdgeScope
