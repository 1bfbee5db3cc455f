import EdgeScope.Client.StreamButtons

/-!
# The window of a session at rest

Between the clicks and the signals the window may show anything in between, and its buttons are
enabled and disabled one by one. Where it shows neither a connection nor none, or where the button
for diagnostics waits for its bundle, something is on its way that ends this.
-/

namespace EdgeScope
open Text

namespace Link

/-- The window is not going to show a connection without a client, unless one is being made or
given up. -/
structure Backed (l : Link) : Prop where
  connecting : l.connecting = true → l.client = true
  client : l.willShow = true →
    l.client = true ∨ .connect ∈ l.commands ∨ .disconnect ∈ l.commands

theorem Backed.connecting_move {event : Event} {l l' : Link} (h : l.Backed)
    (hmove : Move event l l') : l'.connecting = true → l'.client = true := by
  have hconnecting := h.connecting
  cases hmove with
  | deliver => simpa using hconnecting
  | _ => grind -linarith

/-- What is delivered can only take away from what the window will show. -/
theorem willShow_handle_le {l : Link} {report : Report} {reports : List Report}
    (hreports : l.reports = report :: reports) :
    ({ l with reports := reports }.handle report).willShow ≤ l.willShow := by
  rw [willShow, willShow, handle_reports, hreports]
  exact shown_mono reports (shows_handle_le report _)

theorem Backed.client_move {event : Event} {l l' : Link} (h : l.Backed)
    (hmove : Move event l l') : l'.willShow = true →
      l'.client = true ∨ .connect ∈ l'.commands ∨ .disconnect ∈ l'.commands := by
  have hclient := h.client
  have hconnecting := h.connecting
  cases hmove with
  | deliver hreports =>
    rw [mem_handle_commands _ _ (by simp), mem_handle_commands _ _ (by simp), handle_client]
    intro hshow
    exact hclient (Bool.eq_true_of_true_le (hshow ▸ willShow_handle_le hreports))
  | @close _ deferred hdeferred =>
    intro hshow
    have hle : ({ l with deferred := deferred }.setConnected false).willShow ≤ l.willShow :=
      shown_mono l.reports (Bool.false_le _)
    exact hclient (Bool.eq_true_of_true_le (hshow ▸ hle))
  | _ => grind -linarith [willShow, shows, Report.shown]

theorem Backed.move {event : Event} {l l' : Link} (h : l.Backed) (hmove : Move event l l') :
    l'.Backed :=
  ⟨h.connecting_move hmove, h.client_move hmove⟩

end Link
/-- A connection, or none: the text, the buttons and the timers. -/
def MainWindow.Shows (connected : Bool) (w : MainWindow) : Prop :=
  w.connectionStatus = (if connected then .connected else .disconnected) ∧
  w.connectButton = !connected ∧ w.disconnectButton = connected ∧
  w.reconnectButton = connected ∧ w.networkRefreshButton = connected ∧
  w.logRefreshButton = connected ∧ w.serviceRefreshButton = connected ∧
  w.addressEdit = !connected ∧ w.metricsTimer = connected ∧ w.processesTimer = connected

def MainWindow.Agrees (w : MainWindow) : Prop := ∃ connected, w.Shows connected

/-- Whether the window shows a connection, or none, when it has handled the signal and closed the
box that may come of it. -/
def WorkerSignal.decides : WorkerSignal → Bool
  | .connected | .disconnected => true
  | .rpcError operation _ lost => lost || operation = ascii "Connect"
  | .logStreamStopped | .diagnosticReady | .display => false

/-- Whether the signal ends a download of the window. -/
def WorkerSignal.endsDiagnostic : WorkerSignal → Bool
  | .diagnosticReady => true
  | .rpcError operation _ _ =>
    operation = ascii "CreateDiagnosticBundle" || operation = ascii "DownloadDiagnosticBundle"
  | .connected | .disconnected | .logStreamStopped | .display => false

/-- The slots that end in such a signal. -/
def WorkerSlot.Decides (slot : WorkerSlot) : Prop :=
  slot = .connectToAgent ∨ slot = .disconnectFromAgent

instance (slot : WorkerSlot) : Decidable slot.Decides := inferInstanceAs (Decidable (_ ∨ _))

def WorkerPhase.InDiagnostic (phase : WorkerPhase) : Prop :=
  phase = .calling .createDiagnosticBundle [.downloadDiagnosticBundle] ∨
    phase = .calling .downloadDiagnosticBundle []

/-- The calls under way are the last ones of a slot. -/
def Worker.InCalls (w : Worker) : Prop :=
  ∀ call rest, w.phase = .calling call rest →
    ∃ request : WorkerRequest, call :: rest <:+ request.calls

namespace Session

/-- Something is on its way that makes the window show a connection or none. -/
def Awaits (s : Session) : Prop :=
  (∃ signal ∈ s.signals, signal.decides = true) ∨
  (∃ dialog ∈ s.window.dialogs, dialog.next = .setDisconnected) ∨
  ∃ slot ∈ s.pending, slot.Decides

/-- Something is on its way that enables the button for diagnostics, or ends the connection. -/
def Owes (s : Session) : Prop :=
  s.Awaits ∨ (∃ signal ∈ s.signals, signal.endsDiagnostic = true) ∨
  s.worker.phase.InDiagnostic ∨ .request .createAndDownloadDiagnostic ∈ s.slots

structure Promised (s : Session) : Prop where
  settled : s.window.Agrees ∨ s.Awaits
  diagnostic : s.window.connectionStatus = .connected →
    s.window.diagnosticCreateButton = true ∨ s.Owes
  calls : s.worker.InCalls

section Handled

variable {s : Session} {result : MainWindow × List WorkerSlot}

theorem pending_handled : (s.handled result).pending = s.pending ++ result.2 :=
  (List.append_assoc ..).symm

def Waiting (dialogs dialogs' : List Dialog) : Prop :=
  ∀ dialog ∈ dialogs, dialog.next = .setDisconnected → dialog ∈ dialogs'

theorem Waiting.refl (dialogs : List Dialog) : Waiting dialogs dialogs := fun _ h _ => h

theorem Waiting.push (dialog : Dialog) (dialogs : List Dialog) :
    Waiting dialogs (dialog :: dialogs) :=
  fun _ h _ => List.mem_cons_of_mem _ h

theorem Waiting.pop {dialog : Dialog} (h : dialog.next ≠ .setDisconnected)
    (dialogs : List Dialog) : Waiting (dialog :: dialogs) dialogs := by
  intro other hother hnext
  obtain rfl | hmem := List.mem_cons.mp hother
  · exact absurd hnext h
  · exact hmem

/-- A handler that closes no such box takes nothing back. -/
theorem Awaits.handled (h : s.Awaits) (hdialogs : Waiting s.window.dialogs result.1.dialogs) :
    (s.handled result).Awaits := by
  obtain hsignal | ⟨dialog, hdialog, hnext⟩ | ⟨slot, hslot, hdecides⟩ := h
  · exact .inl hsignal
  · exact .inr (.inl ⟨dialog, hdialogs dialog hdialog hnext, hnext⟩)
  · refine .inr (.inr ⟨slot, ?_, hdecides⟩)
    rw [pending_handled]
    exact List.mem_append_left _ hslot

theorem Awaits.of_slot {slot : WorkerSlot} (hslot : slot ∈ result.2) (hdecides : slot.Decides) :
    (s.handled result).Awaits := by
  refine .inr (.inr ⟨slot, ?_, hdecides⟩)
  rw [pending_handled]
  exact List.mem_append_right _ hslot

theorem Owes.handled (h : s.Owes) (hdialogs : Waiting s.window.dialogs result.1.dialogs) :
    (s.handled result).Owes := by
  obtain hawaits | hsignal | hphase | hslot := h
  · exact .inl (hawaits.handled hdialogs)
  · exact .inr (.inl hsignal)
  · exact .inr (.inr (.inl hphase))
  · exact .inr (.inr (.inr (List.mem_append_left _ hslot)))

theorem Promised.handled (h : s.Promised) (hshows : ∀ c, s.window.Shows c → result.1.Shows c)
    (hstatus : result.1.connectionStatus = .connected → s.window.connectionStatus = .connected)
    (hbutton : s.window.diagnosticCreateButton = true → result.1.diagnosticCreateButton = true)
    (hdialogs : Waiting s.window.dialogs result.1.dialogs) : (s.handled result).Promised where
  settled := h.settled.imp (fun ⟨c, hc⟩ => ⟨c, hshows c hc⟩) (·.handled hdialogs)
  diagnostic hconnected := (h.diagnostic (hstatus hconnected)).imp hbutton (·.handled hdialogs)
  calls := h.calls

theorem Promised.of_shows (hcalls : s.worker.InCalls) (connected : Bool)
    (hshows : result.1.Shows connected)
    (hbutton : connected = true → result.1.diagnosticCreateButton = true) :
    (s.handled result).Promised where
  settled := .inl ⟨connected, hshows⟩
  diagnostic hstatus := by
    cases connected with
    | true => exact .inl (hbutton rfl)
    | false =>
      have hdisconnected : result.1.connectionStatus = .disconnected := hshows.1
      exact absurd (hdisconnected.symm.trans hstatus) (by decide)
  calls := hcalls

theorem Promised.of_awaits (hcalls : s.worker.InCalls) (hawaits : (s.handled result).Awaits) :
    (s.handled result).Promised where
  settled := .inr hawaits
  diagnostic _ := .inr (.inl hawaits)
  calls := hcalls

end Handled

theorem Promised.opens {s : Session} (h : s.Promised) (dialog : Dialog)
    (slots : List WorkerSlot) :
    (s.handled ({ s.window with dialogs := dialog :: s.window.dialogs }, slots)).Promised :=
  h.handled (fun _ => id) id id (.push dialog s.window.dialogs)

theorem Promised.asks {s : Session} (h : s.Promised) (slots : List WorkerSlot) :
    (s.handled (s.window, slots)).Promised :=
  h.handled (fun _ => id) id id (.refl s.window.dialogs)

theorem Promised.closeDialog {s : Session} (h : s.Promised) (accepted : Bool) :
    (s.handled (s.window.closeDialog accepted)).Promised := by
  unfold MainWindow.closeDialog
  cases hdialogs : s.window.dialogs with
  | nil => exact h.asks []
  | cons dialog dialogs =>
    have hpop (hnext : dialog.next ≠ .setDisconnected) : Waiting s.window.dialogs dialogs :=
      hdialogs ▸ .pop hnext dialogs
    obtain ⟨title, text, next⟩ := dialog
    cases next with
    | none => exact h.handled (fun _ => id) id id (hpop (by simp))
    | setDisconnected => exact .of_shows h.calls false (by repeat constructor) nofun
    | requestIfYes request => exact h.handled (fun _ => id) id id (hpop (by simp))
    | downloadIfNamed =>
      cases accepted with
      | false => exact h.handled (fun _ => id) id id (hpop (by simp))
      | true =>
        exact {
          settled := h.settled.imp id (·.handled (hpop (by simp)))
          diagnostic := fun _ => .inr (.inr (.inr (.inr
            (List.mem_append_right _ List.mem_cons_self))))
          calls := h.calls }

theorem Promised.input {s : Session} (h : s.Promised) (input : MainWindow.Input) :
    (s.handled (s.window.receive input)).Promised := by
  cases input with
  | connect host =>
    simp only [MainWindow.receive, MainWindow.connectToAgent]
    split_ifs
    · exact h.opens _ []
    · exact .of_awaits h.calls (.of_slot List.mem_cons_self (.inl rfl))
  | disconnect =>
    have hslot : .disconnectFromAgent ∈ (s.window.receive .disconnect).2 :=
      List.mem_cons_of_mem _ List.mem_cons_self
    exact .of_awaits h.calls (.of_slot hslot (.inr rfl))
  | reconnect =>
    have hslot : .disconnectFromAgent ∈ (s.window.receive .reconnect).2 :=
      List.mem_cons_of_mem _ List.mem_cons_self
    exact .of_awaits h.calls (.of_slot hslot (.inr rfl))
  | details pid =>
    simp only [MainWindow.receive, MainWindow.showSelectedProcessDetails]
    split_ifs
    · exact h.opens _ []
    · exact h.asks _
  | processControl actionName pid =>
    simp only [MainWindow.receive, MainWindow.confirmProcessControl]
    split_ifs <;> exact h.opens _ []
  | refreshNetwork => exact h.asks _
  | readTail logId =>
    simp only [MainWindow.receive, MainWindow.readTail]
    split_ifs
    · exact h.opens _ []
    · exact h.asks _
  | startStreaming logId =>
    simp only [MainWindow.receive, MainWindow.startStreaming]
    split_ifs
    · exact h.opens _ []
    · exact h.handled (fun _ => id) id id (.refl _)
  | stopStreaming => exact h.asks _
  | refreshServices => exact h.asks _
  | serviceControl actionName name => cases name <;> exact h.opens _ []
  | createDiagnostic => exact h.opens _ []
  | closeDialog accepted => exact h.closeDialog accepted
  | metricsTimeout => exact h.asks _
  | processesTimeout => exact h.asks _

section Deliver

variable {s : Session} {signal : WorkerSignal} {signals : List WorkerSignal}
  (hsignals : s.signals = signal :: signals)

include hsignals

theorem Awaits.rest (h : s.Awaits) (hsignal : signal.decides = false) :
    { s with signals := signals }.Awaits := by
  obtain ⟨other, hother, hdecides⟩ | hrest := h
  · rw [hsignals] at hother
    obtain rfl | hmem := List.mem_cons.mp hother
    · exact absurd hdecides (by simp [hsignal])
    · exact .inl ⟨other, hmem, hdecides⟩
  · exact .inr hrest

theorem Owes.rest (h : s.Owes) (hsignal : signal.decides = false)
    (hdiagnostic : signal.endsDiagnostic = false) : { s with signals := signals }.Owes := by
  obtain hawaits | ⟨other, hother, hends⟩ | hrest := h
  · exact .inl (hawaits.rest hsignals hsignal)
  · rw [hsignals] at hother
    obtain rfl | hmem := List.mem_cons.mp hother
    · exact absurd hends (by simp [hdiagnostic])
    · exact .inr (.inl ⟨other, hmem, hends⟩)
  · exact .inr (.inr hrest)

/-- A signal that decides nothing, and leaves the window as it is but for the button. -/
theorem Promised.deliver_other (h : s.Promised) (hsignal : signal.decides = false)
    {result : MainWindow × List WorkerSlot} (hshows : ∀ c, s.window.Shows c → result.1.Shows c)
    (hstatus : result.1.connectionStatus = .connected → s.window.connectionStatus = .connected)
    (hbutton : result.1.diagnosticCreateButton =
      (s.window.diagnosticCreateButton || signal.endsDiagnostic))
    (hdialogs : Waiting s.window.dialogs result.1.dialogs) :
    ({ s with signals := signals }.handled result).Promised where
  settled := h.settled.imp (fun ⟨c, hc⟩ => ⟨c, hshows c hc⟩)
    fun hawaits => (hawaits.rest hsignals hsignal).handled hdialogs
  diagnostic hconnected := by
    show result.1.diagnosticCreateButton = true ∨ _
    rw [hbutton]
    cases hends : signal.endsDiagnostic with
    | true => exact .inl (Bool.or_true _)
    | false =>
      rw [Bool.or_false]
      exact (h.diagnostic (hstatus hconnected)).imp id
        fun howes => (howes.rest hsignals hsignal hends).handled hdialogs
  calls := h.calls

theorem Promised.deliver (h : s.Promised) :
    ({ s with signals := signals }.handled (s.window.handle signal)).Promised := by
  have hcalls : { s with signals := signals }.worker.InCalls := h.calls
  cases signal with
  | connected => exact .of_shows hcalls true (by repeat constructor) fun _ => rfl
  | disconnected => exact .of_shows hcalls false (by repeat constructor) nofun
  | logStreamStopped =>
    exact h.deliver_other hsignals rfl (fun _ => id) id (Bool.or_false _).symm (.refl _)
  | diagnosticReady =>
    exact h.deliver_other hsignals rfl (fun _ => id) id (Bool.or_true _).symm (.refl _)
  | display => exact h.deliver_other hsignals rfl (fun _ => id) id (Bool.or_false _).symm (.refl _)
  | rpcError operation message lost =>
    cases lost with
    | true => exact .of_shows hcalls false (by repeat constructor) nofun
    | false =>
      by_cases hconnect : operation = ascii "Connect"
      · refine .of_awaits hcalls (.inr (.inl ⟨_, List.mem_cons_self, ?_⟩))
        exact if_pos hconnect
      · refine h.deliver_other hsignals ?_ (fun _ => id) id ?_ (.push _ _)
        · simp [WorkerSignal.decides, hconnect]
        · simp [MainWindow.handle, MainWindow.handleRpcError, MainWindow.openDialog,
            WorkerSignal.endsDiagnostic]

end Deliver

section Emitted

variable {s : Session} {result : Worker × List WorkerSignal}

/-- A slot that decides is still waited for, or has decided. -/
def Answers (phase : WorkerPhase) (result : Worker × List WorkerSignal) : Prop :=
  ∀ slot ∈ phase.slots, slot.Decides →
    slot ∈ result.1.phase.slots ∨ ∃ signal ∈ result.2, signal.decides = true

def Continues (phase : WorkerPhase) (result : Worker × List WorkerSignal) : Prop :=
  phase.InDiagnostic → result.1.phase.InDiagnostic ∨
    ∃ signal ∈ result.2, signal.endsDiagnostic = true

theorem Awaits.emitted (h : s.Awaits) (hanswers : Answers s.worker.phase result) :
    (s.emitted result).Awaits := by
  obtain ⟨signal, hsignal, hdecides⟩ | hdialog | ⟨slot, hslot, hdecides⟩ := h
  · exact .inl ⟨signal, List.mem_append_left _ hsignal, hdecides⟩
  · exact .inr (.inl hdialog)
  · obtain hphase | hqueued := List.mem_append.mp hslot
    · obtain hphase | ⟨signal, hsignal, hdecided⟩ := hanswers slot hphase hdecides
      · exact .inr (.inr ⟨slot, List.mem_append_left _ hphase, hdecides⟩)
      · exact .inl ⟨signal, List.mem_append_right _ hsignal, hdecided⟩
    · exact .inr (.inr ⟨slot, List.mem_append_right _ hqueued, hdecides⟩)

theorem Owes.emitted (h : s.Owes) (hanswers : Answers s.worker.phase result)
    (hcontinues : Continues s.worker.phase result) : (s.emitted result).Owes := by
  obtain hawaits | ⟨signal, hsignal, hends⟩ | hphase | hslot := h
  · exact .inl (hawaits.emitted hanswers)
  · exact .inr (.inl ⟨signal, List.mem_append_left _ hsignal, hends⟩)
  · obtain hphase | ⟨signal, hsignal, hends⟩ := hcontinues hphase
    · exact .inr (.inr (.inl hphase))
    · exact .inr (.inl ⟨signal, List.mem_append_right _ hsignal, hends⟩)
  · exact .inr (.inr (.inr hslot))

theorem Promised.emitted (h : s.Promised) (hanswers : Answers s.worker.phase result)
    (hcontinues : Continues s.worker.phase result) (hcalls : result.1.InCalls) :
    (s.emitted result).Promised where
  settled := h.settled.imp id (·.emitted hanswers)
  diagnostic hstatus := (h.diagnostic hstatus).imp id (·.emitted hanswers hcontinues)
  calls := hcalls

end Emitted

theorem answers_calling (call : RpcOperation) (rest : List RpcOperation)
    (result : Worker × List WorkerSignal) : Answers (.calling call rest) result :=
  fun _ hslot => absurd hslot List.not_mem_nil

theorem answers_same {phase : WorkerPhase} {result : Worker × List WorkerSignal}
    (h : result.1.phase = phase) : Answers phase result :=
  fun _ hslot _ => .inl (h ▸ hslot)

theorem continues_same {phase : WorkerPhase} {result : Worker × List WorkerSignal}
    (h : result.1.phase = phase) : Continues phase result :=
  fun hdiagnostic => .inl (h ▸ hdiagnostic)

theorem answers_proceed (slot : WorkerSlot) (w : Worker) :
    Answers (.joining slot) (w.proceed slot) := by
  intro other hother hdecides
  obtain rfl := List.mem_singleton.mp hother
  obtain rfl | rfl := hdecides
  · exact .inl List.mem_cons_self
  · exact .inr ⟨.disconnected, List.mem_cons_self, rfl⟩

theorem inCalls_proceed (slot : WorkerSlot) (w : Worker) : (w.proceed slot).1.InCalls := by
  intro call rest hphase
  cases slot <;> cases hphase

theorem answers_connectReply (status : Status) (w : Worker) :
    Answers .connecting (w.connectReply status) := by
  intro slot _ _
  right
  unfold Worker.connectReply
  split_ifs
  · exact ⟨.connected, List.mem_cons_self, rfl⟩
  · refine ⟨_, List.mem_cons_self, ?_⟩
    simp [WorkerSignal.decides]

theorem inCalls_connectReply (status : Status) (w : Worker) :
    (w.connectReply status).1.InCalls := by
  intro call rest hphase
  unfold Worker.connectReply at hphase
  split_ifs at hphase
  cases hphase

theorem inCalls_next {calls : List RpcOperation} {w : Worker}
    (h : ∃ request : WorkerRequest, calls <:+ request.calls) :
    { w with phase := Worker.next calls }.InCalls := by
  intro call rest hphase
  cases calls with
  | nil => cases hphase
  | cons first calls =>
    cases hphase
    exact h

theorem continues_callReply (call : RpcOperation) (rest : List RpcOperation) (status : Status)
    (w : Worker) : Continues (.calling call rest) (w.callReply call rest status) := by
  unfold Worker.callReply
  rintro (hcreate | hdownload)
  · cases hcreate
    split_ifs
    · exact .inl (.inr rfl)
    · refine .inr ⟨_, List.mem_cons_self, ?_⟩
      simp [WorkerSignal.endsDiagnostic, RpcOperation.name]
  · cases hdownload
    split_ifs
    · exact .inr ⟨.diagnosticReady, List.mem_cons_self, rfl⟩
    · refine .inr ⟨_, List.mem_cons_self, ?_⟩
      simp [WorkerSignal.endsDiagnostic, RpcOperation.name]

theorem inCalls_callReply {call : RpcOperation} {rest : List RpcOperation} (status : Status)
    {w : Worker} (h : w.InCalls) (hphase : w.phase = .calling call rest) :
    (w.callReply call rest status).1.InCalls := by
  obtain ⟨request, hsuffix⟩ := h call rest hphase
  unfold Worker.callReply
  split_ifs
  · exact inCalls_next ⟨request, (List.suffix_cons call rest).trans hsuffix⟩
  · intro call' rest' hidle
    cases hidle

theorem Promised.localFailure {s : Session} (h : s.Promised) {rest : List RpcOperation}
    (hphase : s.worker.phase = .calling .downloadDiagnosticBundle rest) (failure : LocalFailure) :
    (s.emitted ({ s.worker with phase := .idle },
      [.rpcError (ascii "DownloadDiagnosticBundle") failure.message false])).Promised := by
  refine h.emitted (hphase ▸ answers_calling _ _ _) (fun _ => ?_) (fun _ _ hidle => nomatch hidle)
  refine .inr ⟨_, List.mem_cons_self, ?_⟩
  simp [WorkerSignal.endsDiagnostic]

theorem decides_of_ofSignal {signal : WorkerSignal} {report : Report}
    (hof : Report.ofSignal signal = some report)
    (h : report.clears = true ∨ report = .connectFailed) : signal.decides = true := by
  cases signal with
  | rpcError operation message lost =>
    simp only [Report.ofSignal] at hof
    split_ifs at hof with hstream hlost hconnect
    · cases hof
      have hlost : lost = true := by simpa [Report.clears, Report.lost] using h
      simp [WorkerSignal.decides, hlost]
    · simp [WorkerSignal.decides, hlost]
    · simp [WorkerSignal.decides, hconnect]
  | logStreamStopped =>
    cases hof
    simp [Report.clears, Report.lost] at h
  | connected => rfl
  | disconnected => rfl
  | _ => cases hof

/-- A connection that is shown without a client is about to end. -/
theorem awaits_of_backed {s : Session} (h : s.link.Backed)
    (hstatus : s.window.connectionStatus = .connected) (hclient : s.worker.client = false) :
    s.Awaits := by
  by_cases hboxes : ∃ dialog ∈ s.window.dialogs, dialog.next = .setDisconnected
  · exact .inr (.inl hboxes)
  have hdeferred : s.link.deferred = 0 := by
    simpa [link, List.countP_eq_zero] using hboxes
  have hshows : s.link.shows = true := by
    simp only [Link.shows, hdeferred]
    simp [link, hstatus]
  cases hwill : s.link.willShow with
  | true =>
    obtain hbacked | hconnect | hdisconnect := h.client hwill
    · exact absurd (hclient.symm.trans hbacked) (by decide)
    · exact .inr (.inr ⟨_, connect_mem_commands.mp hconnect, .inl rfl⟩)
    · exact .inr (.inr ⟨_, disconnect_mem_commands.mp hdisconnect, .inr rfl⟩)
  | false =>
    -- some report is in the way
    have hreport : ∃ report ∈ s.link.reports, report.clears = true ∨ report = .connectFailed := by
      obtain ⟨report, hmem, hclears⟩ | hfailed := Link.Enabled.clearing_of_willShow hshows hwill
      · exact ⟨report, hmem, .inl hclears⟩
      · exact ⟨_, hfailed, .inr rfl⟩
    obtain ⟨report, hmem, hclears⟩ := hreport
    obtain ⟨signal, hsignal, hof⟩ := List.mem_filterMap.mp hmem
    exact .inl ⟨signal, hsignal, decides_of_ofSignal hof hclears⟩

theorem answers_invoke {slot : WorkerSlot} (hdecides : slot.Decides) (w : Worker) :
    slot ∈ (w.invoke slot).1.phase.slots ∨
      ∃ signal ∈ (w.invoke slot).2, signal.decides = true := by
  have hinvoke : w.invoke slot =
      if w.streamEnded then w.proceed slot else ({ w with phase := .joining slot }, []) := by
    obtain rfl | rfl := hdecides <;> rfl
  rw [hinvoke]
  split_ifs
  · exact answers_proceed slot w slot List.mem_cons_self hdecides
  · exact .inl List.mem_cons_self

theorem inCalls_invoke (slot : WorkerSlot) (w : Worker) :
    (w.invoke slot).1.InCalls := by
  cases slot with
  | request request =>
    simp only [Worker.invoke]
    split_ifs
    · exact inCalls_next ⟨request, List.suffix_rfl⟩
    · intro call rest hidle
      cases hidle
  | _ =>
    simp only [Worker.invoke]
    split_ifs
    · exact inCalls_proceed _ _
    · intro call rest hjoining
      cases hjoining

section Invoke

variable {s : Session} {slot : WorkerSlot} {slots : List WorkerSlot}
  (hphase : s.worker.phase = .idle) (hslots : s.slots = slot :: slots)

include hphase hslots

theorem Awaits.invoke (h : s.Awaits) :
    ({ s with slots := slots }.emitted (s.worker.invoke slot)).Awaits := by
  obtain ⟨signal, hsignal, hdecides⟩ | hdialog | ⟨other, hother, hdecides⟩ := h
  · exact .inl ⟨signal, List.mem_append_left _ hsignal, hdecides⟩
  · exact .inr (.inl hdialog)
  · rw [pending, hphase, WorkerPhase.slots_idle, List.nil_append, hslots] at hother
    obtain rfl | hmem := List.mem_cons.mp hother
    · obtain hphase' | ⟨signal, hsignal, hdecided⟩ := answers_invoke hdecides s.worker
      · exact .inr (.inr ⟨other, List.mem_append_left _ hphase', hdecides⟩)
      · exact .inl ⟨signal, List.mem_append_right _ hsignal, hdecided⟩
    · exact .inr (.inr ⟨other, List.mem_append_right _ hmem, hdecides⟩)

theorem Owes.invoke (h : s.Owes) (hbacked : s.link.Backed)
    (hstatus : s.window.connectionStatus = .connected) :
    ({ s with slots := slots }.emitted (s.worker.invoke slot)).Owes := by
  obtain hawaits | ⟨signal, hsignal, hends⟩ | hdiagnostic | hslot := h
  · exact .inl (hawaits.invoke hphase hslots)
  · exact .inr (.inl ⟨signal, List.mem_append_left _ hsignal, hends⟩)
  · rw [hphase] at hdiagnostic
    obtain hcalling | hcalling := hdiagnostic
    · cases hcalling
    · cases hcalling
  · rw [hslots] at hslot
    obtain rfl | hmem := List.mem_cons.mp hslot
    · cases hclient : s.worker.client with
      | true =>
        refine .inr (.inr (.inl (.inl ?_)))
        show (s.worker.invoke (.request .createAndDownloadDiagnostic)).1.phase = _
        simp [Worker.invoke, hclient, WorkerRequest.calls, Worker.next]
      | false => exact .inl ((awaits_of_backed hbacked hstatus hclient).invoke hphase hslots)
    · exact .inr (.inr (.inr hmem))

theorem Promised.invoke (h : s.Promised) (hbacked : s.link.Backed) :
    ({ s with slots := slots }.emitted (s.worker.invoke slot)).Promised where
  settled := h.settled.imp id (·.invoke hphase hslots)
  diagnostic hstatus :=
    (h.diagnostic hstatus).imp id (·.invoke hphase hslots hbacked hstatus)
  calls := inCalls_invoke slot s.worker

end Invoke

theorem Promised.step {action : Action} {s s' : Session} (h : s.Promised) (hbacked : s.link.Backed)
    (hstep : Step action s s') : s'.Promised := by
  cases hstep with
  | input => exact h.input _
  | deliver hsignals => exact h.deliver hsignals
  | invoke hphase hslots => exact h.invoke hphase hslots hbacked
  | join hphase =>
    exact h.emitted (hphase ▸ answers_proceed _ _)
      (fun hdiagnostic => by rw [hphase] at hdiagnostic; obtain h | h := hdiagnostic <;> cases h)
      (inCalls_proceed _ _)
  | connectReply hphase =>
    exact h.emitted (hphase ▸ answers_connectReply _ _)
      (fun hdiagnostic => by rw [hphase] at hdiagnostic; obtain h | h := hdiagnostic <;> cases h)
      (inCalls_connectReply _ _)
  | callReply hphase =>
    exact h.emitted (hphase ▸ answers_calling _ _ _) (hphase ▸ continues_callReply _ _ _ _)
      (inCalls_callReply _ h.calls hphase)
  | localFailure hphase => exact h.localFailure hphase _
  | diagnosticProgress => exact h.emitted (answers_same rfl) (continues_same rfl) h.calls
  | logLineReady => exact h.emitted (answers_same rfl) (continues_same rfl) h.calls
  | streamLogReply => exact h.emitted (answers_same rfl) (continues_same rfl) h.calls
  | streamReport => exact h.emitted (answers_same rfl) (continues_same rfl) h.calls

theorem promised_start : start.Promised where
  settled := .inl ⟨false, by repeat constructor⟩
  diagnostic hstatus := nomatch hstatus
  calls _ _ hphase := nomatch hphase

theorem promised_of_reachable {P : Action → Session → Prop} {s : Session} (h : Reachable P s) :
    s.Promised ∧ s.link.Backed ∧ s.worker.Sound := by
  apply h.invariant (I := fun s => s.Promised ∧ s.link.Backed ∧ s.worker.Sound)
  · exact ⟨promised_start, ⟨by decide, by decide⟩, Worker.Sound.start⟩
  · rintro action s s' ⟨hpromised, hbacked, hsound⟩ - hstep
    have hstep := Step.of_step hstep
    refine ⟨hpromised.step hbacked hstep, ?_, sound_step hsound hstep⟩
    obtain hlink | hmove := link_step hsound hstep
    · rw [hlink]
      exact hbacked
    · exact hbacked.move hmove

/-- However the run has gone, a window with nothing queued, no call under way and no box open shows
a connection in all its parts or none. If it shows one then the worker has a client, and the button
for diagnostics can be clicked. -/
theorem window_at_rest {P : Action → Session → Prop} {s : Session} (h : Reachable P s)
    (hquiet : s.Quiet) : ∃ connected, s.window.Shows connected ∧
      (connected = true →
        s.worker.client = true ∧ s.window.diagnosticCreateButton = true) := by
  obtain ⟨hpromised, hbacked, -⟩ := promised_of_reachable h
  obtain ⟨hslots, hsignals, hphase, hdialogs⟩ := hquiet
  have hnothing : ¬ s.Awaits := by
    simp [Awaits, hsignals, hdialogs, pending, hphase, hslots]
  have howes : ¬ s.Owes := by
    simp [Owes, hnothing, hsignals, hphase, hslots, WorkerPhase.InDiagnostic]
  obtain ⟨connected, hshows⟩ := hpromised.settled.resolve_right hnothing
  refine ⟨connected, hshows, ?_⟩
  rintro rfl
  have hstatus : s.window.connectionStatus = .connected := hshows.1
  refine ⟨?_, (hpromised.diagnostic hstatus).resolve_right howes⟩
  by_contra hclient
  exact hnothing (awaits_of_backed hbacked hstatus (Bool.not_eq_true _ ▸ hclient))

/-- The user connects, downloads a bundle, and reconnects while it is on its way. -/
def reconnectsWhileDownloading : List Action :=
  connects ++ [.input .createDiagnostic, .input (.closeDialog true), .invoke, .input .reconnect,
    .callReply .ok, .callReply .ok, .invoke, .invoke, .invoke, .connectReply .ok,
    .deliver, .deliver, .deliver,
    .invoke, .callReply .ok, .invoke, .callReply .ok, .invoke, .callReply .ok, .callReply .ok,
    .invoke, .callReply .ok, .invoke, .callReply .ok,
    .deliver, .deliver, .deliver, .deliver, .deliver]

theorem window_at_rest_reconnected :
    ∃ s : Session, s.Quiet ∧ s.window.connectionStatus = .connected ∧
      s.window.diagnosticCreateButton = true ∧ s.window.metricsTimer = true := by
  have hrun : ∃ s, Reachable (fun _ _ => True) s ∧ s.Quiet ∧
      s.window.connectionStatus = .connected := by
    apply Runs.Reachable.exists_of_replay reconnectsWhileDownloading
    decide +kernel
  obtain ⟨s, hs, hquiet, hstatus⟩ := hrun
  obtain ⟨connected, hshows, hconnected⟩ := window_at_rest hs hquiet
  cases connected with
  | false => cases hstatus.symm.trans hshows.1
  | true =>
    obtain ⟨-, -, -, -, -, -, -, -, hmetrics, -⟩ := hshows
    exact ⟨s, hquiet, hstatus, (hconnected rfl).2, hmetrics⟩

end Session
end EdgeScope
