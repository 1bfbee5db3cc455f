import EdgeScope.Client.ConnectionState
import EdgeScope.Runs.Ranking

/-!
# A session comes to rest

When the user only closes the boxes that open, the window and the worker have done after a while
with everything that is queued, whatever the agent answers and in whatever order they take their
turns. Every step of theirs leaves less to do, and as long as something is left there is one.
-/

namespace EdgeScope
open Text

/-- The steps that are left of calls which follow one another, with those an error would lead to. -/
def callsWork : List RpcOperation → ℕ
  | [] => 0
  | calls => 2 * calls.length + 4

def WorkerSlot.work : WorkerSlot → ℕ
  | .connectToAgent => 41
  | .disconnectFromAgent => 3
  | .startLogStream => 9
  | .stopLogStream => 2
  | .request asked => 1 + callsWork asked.calls

def WorkerSignal.work : WorkerSignal → ℕ
  | .connected => 38
  | .rpcError _ _ _ => 4
  | .disconnected | .logStreamStopped | .diagnosticReady | .display => 1

def Dialog.work (dialog : Dialog) : ℕ :=
  match dialog.next with
  | .none | .setDisconnected => 1
  | .requestIfYes request => 1 + (WorkerSlot.request request).work
  | .downloadIfNamed => 1 + (WorkerSlot.request .createAndDownloadDiagnostic).work

def StreamPhase.work : StreamPhase → ℕ
  | .calling => 7
  | .reporting => 2
  | .finished => 0

def WorkerPhase.work : WorkerPhase → ℕ
  | .idle => 0
  | .joining slot => slot.work - 1
  | .connecting => 39
  | .calling call rest => callsWork (call :: rest)

def Worker.work (w : Worker) : ℕ := w.phase.work + (w.streamThreads.map StreamPhase.work).sum

namespace Session

def work (s : Session) : ℕ :=
  (s.slots.map WorkerSlot.work).sum + (s.signals.map WorkerSignal.work).sum + s.worker.work +
    (s.window.dialogs.map Dialog.work).sum

/-- The steps that need neither the user nor a timer, but to close a box, and that end a call
instead of reporting from it. -/
def Action.concludes : Action → Bool
  | .input (.closeDialog _) => true
  | .input _ | .diagnosticProgress | .logLineReady => false
  | .deliver | .invoke | .join | .connectReply _ | .callReply _ | .localFailure _
  | .streamLogReply _ | .streamReport => true

theorem work_handled (s : Session) (result : MainWindow × List WorkerSlot) :
    (s.handled result).work + (s.window.dialogs.map Dialog.work).sum =
      s.work + (result.2.map WorkerSlot.work).sum + (result.1.dialogs.map Dialog.work).sum := by
  simp only [work, handled, List.map_append, List.sum_append]
  omega

theorem work_emitted (s : Session) (result : Worker × List WorkerSignal) :
    (s.emitted result).work + s.worker.work =
      s.work + result.1.work + (result.2.map WorkerSignal.work).sum := by
  simp only [work, emitted, List.map_append, List.sum_append]
  omega

end Session

namespace Worker

def streamWork (w : Worker) : ℕ := (w.streamThreads.map StreamPhase.work).sum

theorem work_next (calls : List RpcOperation) : (next calls).work = callsWork calls := by
  cases calls <;> rfl

theorem tail_streamWork_le (w : Worker) :
    (w.streamThreads.tail.map StreamPhase.work).sum ≤ w.streamWork := by
  unfold streamWork
  cases w.streamThreads with
  | nil => exact le_rfl
  | cons thread threads => simp

/-- A slot that has joined the thread leaves less to do than it has waited with. -/
theorem work_proceed (slot : WorkerSlot) (w : Worker) :
    (w.proceed slot).1.work + ((w.proceed slot).2.map WorkerSignal.work).sum <
      slot.work - 1 + w.streamWork := by
  have htail := w.tail_streamWork_le
  cases slot with
  | connectToAgent =>
    simp only [proceed, work, WorkerPhase.work, WorkerSlot.work, List.map_nil, List.sum_nil]
    omega
  | disconnectFromAgent =>
    simp only [proceed, work, WorkerPhase.work, WorkerSlot.work, List.map_cons, List.map_nil,
      WorkerSignal.work, List.sum_cons, List.sum_nil]
    omega
  | startLogStream =>
    have hthreads : ((w.proceed .startLogStream).1.streamThreads.map StreamPhase.work).sum ≤
        7 + w.streamWork := by
      simp only [proceed]
      split_ifs
      · rw [List.map_cons, List.sum_cons]
        exact Nat.add_le_add_left htail 7
      · omega
    rw [work]
    simp only [proceed] at hthreads ⊢
    simp only [WorkerPhase.work, WorkerSlot.work, List.map_nil, List.sum_nil]
    omega
  | stopLogStream =>
    simp only [proceed, work, WorkerPhase.work, WorkerSlot.work, List.map_nil, List.sum_nil]
    omega
  | request request =>
    have hcalls : 0 < callsWork request.calls := by cases request <;> decide
    simp only [proceed, work, WorkerPhase.work, WorkerSlot.work, List.map_nil, List.sum_nil]
    omega

theorem work_invoke (slot : WorkerSlot) {w : Worker} (hphase : w.phase = .idle) :
    (w.invoke slot).1.work + ((w.invoke slot).2.map WorkerSignal.work).sum <
      slot.work + w.work := by
  have hidle : w.work = w.streamWork := by
    rw [work, hphase]
    exact Nat.zero_add _
  rw [hidle]
  cases slot with
  | request request =>
    have hnext : (if w.client then next request.calls else .idle).work ≤
        callsWork request.calls := by
      split_ifs
      · exact (work_next _).le
      · exact Nat.zero_le _
    simp only [invoke, work, WorkerSlot.work, List.map_nil, List.sum_nil]
    rw [← streamWork]
    omega
  | _ =>
    simp only [invoke]
    split_ifs
    · refine (work_proceed _ w).trans_le ?_
      exact Nat.add_le_add_right (Nat.sub_le ..) _
    · simp only [work, WorkerPhase.work, WorkerSlot.work, List.map_nil, List.sum_nil, streamWork]
      omega

theorem work_emitRpcError (operation : Bytes) (status : Status) (w : Worker) :
    (w.emitRpcError operation status).1.work +
      ((w.emitRpcError operation status).2.map WorkerSignal.work).sum = w.streamWork + 4 := by
  simp only [emitRpcError, work, WorkerPhase.work, WorkerSignal.work, List.map_cons, List.map_nil,
    List.sum_cons, List.sum_nil, streamWork]
  omega

theorem work_connectReply (status : Status) {w : Worker} (hphase : w.phase = .connecting) :
    (w.connectReply status).1.work + ((w.connectReply status).2.map WorkerSignal.work).sum <
      w.work := by
  have hwork : w.work = 39 + w.streamWork := by
    rw [work, hphase]
    rfl
  unfold connectReply
  split_ifs
  · simp only [work, WorkerPhase.work, WorkerSignal.work, List.map_cons, List.map_nil,
      List.sum_cons, List.sum_nil] at hwork ⊢
    simp only [streamWork] at hwork
    omega
  · have herror := work_emitRpcError (ascii "Connect") status { w with client := false }
    have hsame : { w with client := false }.streamWork = w.streamWork := rfl
    omega

theorem work_succeeded (call : RpcOperation) : (call.succeeded.map WorkerSignal.work).sum ≤ 1 := by
  cases call <;> decide

theorem work_callReply {call : RpcOperation} {rest : List RpcOperation} (status : Status)
    {w : Worker} (hphase : w.phase = .calling call rest) :
    (w.callReply call rest status).1.work +
      ((w.callReply call rest status).2.map WorkerSignal.work).sum < w.work := by
  have hwork : w.work = 2 * rest.length + 6 + w.streamWork := by
    rw [work, hphase]
    simp only [WorkerPhase.work, callsWork, List.length_cons, streamWork]
    omega
  unfold callReply
  split_ifs
  · have hrest : (next rest).work ≤ 2 * rest.length + 4 := by
      rw [work_next]
      cases rest <;> simp [callsWork]
    have hsucceeded := work_succeeded call
    have hthreads : { w with phase := next rest }.work = (next rest).work + w.streamWork := rfl
    simp only [hthreads]
    omega
  · have herror := work_emitRpcError call.name status w
    omega

end Worker

namespace MainWindow

theorem work_handleRpcError (operation message : Bytes) (lost : Bool) (w : MainWindow) :
    ((w.handleRpcError operation message lost).1.dialogs.map Dialog.work).sum +
        ((w.handleRpcError operation message lost).2.map WorkerSlot.work).sum <
      4 + (w.dialogs.map Dialog.work).sum := by
  cases lost with
  | true =>
    simp only [handleRpcError, if_true, openDialog, stopTimers, setConnected,
      List.map_cons, List.sum_cons, List.map_nil, List.sum_nil, Dialog.work, WorkerSlot.work]
    omega
  | false =>
    have hbox : Dialog.work ⟨operation ++ ascii " failed", message,
        if operation = ascii "Connect" then .setDisconnected else .none⟩ = 1 := by
      unfold Dialog.work
      split_ifs <;> rfl
    simp only [handleRpcError, Bool.false_eq_true, if_false, openDialog,
      List.map_cons, List.sum_cons, List.map_nil, List.sum_nil, hbox]
    omega

/-- What a signal leads to is less than the signal. -/
theorem work_handle (signal : WorkerSignal) (w : MainWindow) :
    ((w.handle signal).1.dialogs.map Dialog.work).sum +
        ((w.handle signal).2.map WorkerSlot.work).sum <
      signal.work + (w.dialogs.map Dialog.work).sum := by
  cases signal with
  | rpcError operation message lost => exact work_handleRpcError operation message lost w
  | connected =>
    have hslots : ((w.handle .connected).2.map WorkerSlot.work).sum = 37 := rfl
    have hdialogs : (w.handle .connected).1.dialogs = w.dialogs := rfl
    rw [hslots, hdialogs, WorkerSignal.work]
    omega
  | _ =>
    simp only [handle, handleDisconnected, handleLogStreamStopped, diagnosticCompleted,
      setConnected, List.map_nil, List.sum_nil, WorkerSignal.work]
    omega

theorem work_closeDialog (accepted : Bool) {w : MainWindow} (hdialogs : w.dialogs ≠ []) :
    ((w.closeDialog accepted).1.dialogs.map Dialog.work).sum +
        ((w.closeDialog accepted).2.map WorkerSlot.work).sum <
      (w.dialogs.map Dialog.work).sum := by
  unfold closeDialog
  cases hcases : w.dialogs with
  | nil => exact absurd hcases hdialogs
  | cons dialog dialogs =>
    obtain ⟨title, text, next⟩ := dialog
    cases next with
    | none => simp [Dialog.work]
    | setDisconnected => simp [Dialog.work, setConnected]
    | requestIfYes request =>
      rw [List.map_cons, List.sum_cons]
      cases accepted
      · show (dialogs.map Dialog.work).sum + 0 < 1 + (WorkerSlot.request request).work + _
        omega
      · show (dialogs.map Dialog.work).sum + ((WorkerSlot.request request).work + 0) <
          1 + (WorkerSlot.request request).work + _
        omega
    | downloadIfNamed =>
      rw [List.map_cons, List.sum_cons]
      let request := WorkerSlot.request .createAndDownloadDiagnostic
      cases accepted
      · show (dialogs.map Dialog.work).sum + 0 < 1 + request.work + _
        omega
      · show (dialogs.map Dialog.work).sum + (request.work + 0) < 1 + request.work + _
        omega

end MainWindow

namespace Session

theorem work_streamed {s : Session} {thread : StreamPhase} (threads : List StreamPhase)
    (result : StreamPhase × List WorkerSignal)
    (hthreads : s.worker.streamThreads = thread :: threads) :
    (s.streamed threads result).work + thread.work =
      s.work + result.1.work + (result.2.map WorkerSignal.work).sum := by
  let worker : Worker := { s.worker with streamThreads := result.1 :: threads }
  have hwork := work_emitted s (worker, result.2)
  have hworker : worker.work + thread.work = s.worker.work + result.1.work := by
    simp only [Worker.work, hthreads, List.map_cons, List.sum_cons, worker]
    omega
  show (s.emitted (worker, result.2)).work + thread.work = _
  dsimp only at hwork
  omega

theorem work_step {action : Action} {s s' : Session} (haction : action.concludes = true)
    (h : step action s = some s') : s'.work < s.work := by
  cases Step.of_step h with
  | @input _ input hallows =>
    cases input with
    | closeDialog accepted =>
      have hdialogs : s.window.dialogs ≠ [] := by simpa [MainWindow.allows] using hallows
      have hwindow := MainWindow.work_closeDialog accepted hdialogs
      have hwork := work_handled s (s.window.closeDialog accepted)
      simp only [MainWindow.receive]
      omega
    | _ => cases haction
  | @deliver _ signal signals hsignals =>
    have hrest : { s with signals := signals }.work + signal.work = s.work := by
      simp only [work, hsignals, List.map_cons, List.sum_cons]
      omega
    have hwindow := MainWindow.work_handle signal s.window
    have hwork := work_handled { s with signals := signals } (s.window.handle signal)
    simp only at hwork
    omega
  | @invoke _ slot slots hphase hslots =>
    have hrest : { s with slots := slots }.work + slot.work = s.work := by
      simp only [work, hslots, List.map_cons, List.sum_cons]
      omega
    have hworker := Worker.work_invoke slot hphase
    have hwork := work_emitted { s with slots := slots } (s.worker.invoke slot)
    simp only at hwork
    omega
  | @join _ slot hphase hended =>
    have hjoining : s.worker.work = slot.work - 1 + s.worker.streamWork := by
      rw [Worker.work, hphase]
      rfl
    have hworker := Worker.work_proceed slot s.worker
    have hwork := work_emitted s (s.worker.proceed slot)
    omega
  | @connectReply _ status hphase =>
    have hworker := Worker.work_connectReply status hphase
    have hwork := work_emitted s (s.worker.connectReply status)
    omega
  | @callReply _ call rest status hphase =>
    have hworker := Worker.work_callReply status hphase
    have hwork := work_emitted s (s.worker.callReply call rest status)
    omega
  | @localFailure _ rest failure hphase =>
    have hcalling : s.worker.work = 2 * rest.length + 6 + s.worker.streamWork := by
      rw [Worker.work, hphase]
      simp only [WorkerPhase.work, callsWork, List.length_cons, Worker.streamWork]
      omega
    let worker : Worker := { s.worker with phase := .idle }
    have hidle : worker.work = s.worker.streamWork := Nat.zero_add _
    have hwork := work_emitted s (worker,
      [.rpcError (ascii "DownloadDiagnosticBundle") failure.message false])
    simp only [hidle, List.map_cons, List.map_nil, List.sum_cons, List.sum_nil, WorkerSignal.work]
      at hwork
    show (s.emitted (worker, _)).work < s.work
    omega
  | diagnosticProgress => cases haction
  | logLineReady => cases haction
  | @streamLogReply _ threads status hthreads =>
    have hreply : (Worker.streamLogReply status).1.work +
        ((Worker.streamLogReply status).2.map WorkerSignal.work).sum ≤ 6 := by
      unfold Worker.streamLogReply
      split_ifs
      · decide
      · rfl
    have hthread := work_streamed threads (Worker.streamLogReply status) hthreads
    have hcalling : StreamPhase.calling.work = 7 := rfl
    omega
  | @streamReport _ threads hthreads =>
    have hthread := work_streamed threads (.finished, [.logStreamStopped]) hthreads
    simp only [StreamPhase.work, List.map_cons, List.map_nil, List.sum_cons, List.sum_nil,
      WorkerSignal.work] at hthread
    omega

theorem exists_step {s : Session} (h : ¬ s.Quiet) :
    ∃ action s', action.concludes = true ∧ step action s = some s' := by
  by_cases hdialogs : s.window.dialogs = []
  · by_cases hsignals : s.signals = []
    · cases hphase : s.worker.phase with
      | idle =>
        cases hslots : s.slots with
        | nil => exact absurd ⟨hslots, hsignals, hphase, hdialogs⟩ h
        | cons slot slots => exact ⟨.invoke, _, rfl, by rw [step, hphase, hslots]⟩
      | joining slot =>
        -- the worker waits for the thread, which has a step of its own
        cases hended : s.worker.streamEnded with
        | true => exact ⟨.join, _, rfl, by rw [step, hphase]; exact if_pos hended⟩
        | false =>
          obtain hcalling | hreporting := (alive_iff s).mpr hended
          · obtain ⟨threads, hthreads⟩ := List.head?_eq_some_iff.mp hcalling
            exact ⟨.streamLogReply .ok, _, rfl, by rw [step, hthreads]⟩
          · obtain ⟨threads, hthreads⟩ := List.head?_eq_some_iff.mp hreporting
            exact ⟨.streamReport, _, rfl, by rw [step, hthreads]⟩
      | connecting => exact ⟨.connectReply .ok, _, rfl, by rw [step, if_pos hphase]⟩
      | calling call rest => exact ⟨.callReply .ok, _, rfl, by rw [step, hphase]⟩
    · obtain ⟨signal, signals, hcons⟩ := List.exists_cons_of_ne_nil hsignals
      exact ⟨.deliver, _, rfl, by rw [step, hcons]⟩
  · refine ⟨.input (.closeDialog false), _, rfl, if_pos ?_⟩
    simpa [MainWindow.allows] using hdialogs

/-- No session deadlocks or goes on for ever. From any state at all, however the agent answers and
whoever takes the next step, there are at most so many steps until nothing is queued, no call is
under way and no box is open, and the session cannot stop before. -/
theorem comes_to_rest (s : Session) :
    (∀ actions s', (∀ action ∈ actions, action.concludes = true) →
      Runs.follow step actions s = some s' →
        actions.length + s'.work ≤ s.work ∧
        ((∀ action, action.concludes = true → step action s' = none) → s'.Quiet)) ∧
    ∃ actions s', (∀ action ∈ actions, action.concludes = true) ∧
      Runs.follow step actions s = some s' ∧ s'.Quiet := by
  refine ⟨fun actions s' hactions hfollow => ⟨?_, fun hstuck => ?_⟩, ?_⟩
  · exact Runs.length_add_rank_le (I := fun _ => True) (fun _ _ _ _ _ => trivial)
      (fun _ _ _ _ => work_step) hactions trivial hfollow
  · by_contra hquiet
    obtain ⟨action, s'', haction, hstep⟩ := exists_step hquiet
    rw [hstuck action haction] at hstep
    cases hstep
  · exact Runs.exists_follow_rest (I := fun _ => True) (fun _ _ _ _ _ => trivial)
      (fun _ _ _ _ => work_step) (fun s _ => exists_step) trivial

end Session
end EdgeScope
