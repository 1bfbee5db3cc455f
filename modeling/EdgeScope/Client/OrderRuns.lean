import EdgeScope.Client.Orders
import Mathlib.Data.List.Flatten
import Mathlib.Data.List.ReduceOption

/-!
# What becomes of an order

The boxes and what they hold go side by side, and so do the slots and what they carry. An order in
the queue has the number of the connection that the worker will have when it gets to it.
-/

namespace EdgeScope
open Text

/-- The box asks for what its handler holds. -/
def Dialog.Asks (dialog : Dialog) : Option Order → Prop
  | none => ∀ request, dialog.next ≠ .requestIfYes request
  | some order => dialog.text = order.question ∧ dialog.next = .requestIfYes order.request

namespace WorkerSlot

def isControl (slot : WorkerSlot) : Bool :=
  slot = .request .controlProcess || slot = .request .controlService

/-- The slot takes what is queued beside it, over connection `n`. -/
def Takes (slot : WorkerSlot) (n : ℕ) : Option Sent → Prop
  | none => slot.isControl = false
  | some sent => slot = .request sent.order.request ∧ sent.connection = n

theorem isControl_request (order : Order) : isControl (.request order.request) = true := by
  cases order <;> rfl

end WorkerSlot

/-- Every slot takes what is queued beside it. A connection that is made on the way counts. -/
def Aligned : ℕ → List WorkerSlot → List (Option Sent) → Prop
  | _, [], [] => True
  | n, slot :: slots, sent :: queued =>
    slot.Takes n sent ∧ Aligned (n + [slot].count .connectToAgent) slots queued
  | _, _, _ => False

namespace Aligned

variable {n : ℕ} {slots slots' : List WorkerSlot} {queued queued' : List (Option Sent)}

theorem append (h : Aligned n slots queued)
    (h' : Aligned (n + slots.count .connectToAgent) slots' queued') :
    Aligned n (slots ++ slots') (queued ++ queued') := by
  induction slots generalizing n queued with
  | nil =>
    cases queued with
    | nil => exact h'
    | cons sent queued => exact h.elim
  | cons slot slots ih =>
    cases queued with
    | nil => exact h.elim
    | cons sent queued =>
      refine ⟨h.1, ih h.2 ?_⟩
      rwa [Nat.add_assoc, ← List.count_append]

theorem replicate_none (h : slots.any WorkerSlot.isControl = false) :
    Aligned n slots (List.replicate slots.length none) := by
  induction slots generalizing n with
  | nil => trivial
  | cons slot slots ih =>
    rw [List.any_cons, Bool.or_eq_false_iff] at h
    exact ⟨h.1, ih h.2⟩

theorem filter_isControl (h : Aligned n slots queued) :
    slots.filter WorkerSlot.isControl =
      queued.reduceOption.map fun sent => .request sent.order.request := by
  induction slots generalizing n queued with
  | nil =>
    cases queued with
    | nil => rfl
    | cons sent queued => exact h.elim
  | cons slot slots ih =>
    cases queued with
    | nil => exact h.elim
    | cons sent queued =>
      obtain ⟨htakes, hrest⟩ := h
      cases sent with
      | none =>
        have hplain : slot.isControl = false := htakes
        rw [List.filter_cons_of_neg (by rw [hplain]; simp), ih hrest,
          List.reduceOption_cons_of_none]
      | some sent =>
        obtain ⟨rfl, -⟩ := htakes
        rw [List.filter_cons_of_pos (WorkerSlot.isControl_request _), ih hrest,
          List.reduceOption_cons_of_some, List.map_cons]

end Aligned

theorem Orders.Action.eq_of_seen_other {action seen : Session.Action}
    (h : (Orders.Action.other action).seen = some seen) : seen = action := by
  unfold Orders.Action.seen at h
  split at h <;> simp_all

/-- A handler adds boxes and slots that carry no order. -/
structure AddsPlain (w : MainWindow) (result : MainWindow × List WorkerSlot) : Prop where
  dialogs : ∃ boxes, result.1.dialogs = boxes ++ w.dialogs ∧ ∀ box ∈ boxes, box.Asks none
  slots : result.2.any WorkerSlot.isControl = false

namespace AddsPlain

variable {w : MainWindow}

theorem of_dialogs_eq {result : MainWindow × List WorkerSlot} (h : result.1.dialogs = w.dialogs)
    (hslots : result.2.any WorkerSlot.isControl = false) : AddsPlain w result where
  dialogs := ⟨[], h, by simp⟩
  slots := hslots

theorem openDialog {title text : Bytes} {next : Continuation} {w' : MainWindow}
    {slots : List WorkerSlot} (h : w'.dialogs = w.dialogs)
    (hnext : ∀ request, next ≠ .requestIfYes request)
    (hslots : slots.any WorkerSlot.isControl = false) :
    AddsPlain w (w'.openDialog title text next, slots) where
  dialogs := ⟨[⟨title, text, next⟩], by rw [← h]; rfl, by simpa [Dialog.Asks] using hnext⟩
  slots := hslots

theorem handle (signal : WorkerSignal) (w : MainWindow) : AddsPlain w (w.handle signal) := by
  cases signal with
  | rpcError operation message connectionLost =>
    simp only [MainWindow.handle, MainWindow.handleRpcError]
    cases connectionLost with
    | true => exact openDialog rfl (by simp) rfl
    | false =>
      refine openDialog rfl (fun request => ?_) rfl
      split_ifs <;> simp
  | _ => exact of_dialogs_eq rfl rfl

/-- The clicks that ask for no order, and the timers. -/
theorem receive {input : MainWindow.Input}
    (hseen : (Orders.Action.other (.input input)).seen ≠ none) (w : MainWindow) :
    AddsPlain w (w.receive input) := by
  cases input with
  | processControl actionName pid => exact absurd rfl hseen
  | serviceControl actionName name => exact absurd rfl hseen
  | closeDialog accepted => exact absurd rfl hseen
  | connect host =>
    simp only [MainWindow.receive, MainWindow.connectToAgent]
    split_ifs
    · exact openDialog rfl (by simp) rfl
    · exact of_dialogs_eq rfl rfl
  | details pid =>
    simp only [MainWindow.receive, MainWindow.showSelectedProcessDetails]
    split_ifs
    · exact openDialog rfl (by simp) rfl
    · exact of_dialogs_eq rfl rfl
  | readTail logId =>
    simp only [MainWindow.receive, MainWindow.readTail]
    split_ifs
    · exact openDialog rfl (by simp) rfl
    · exact of_dialogs_eq rfl rfl
  | startStreaming logId =>
    simp only [MainWindow.receive, MainWindow.startStreaming]
    split_ifs
    · exact openDialog rfl (by simp) rfl
    · exact of_dialogs_eq rfl rfl
  | createDiagnostic => exact openDialog rfl (by simp) rfl
  | _ => exact of_dialogs_eq rfl rfl

end AddsPlain

theorem closeDialog_of_asks_none {w : MainWindow} {box : Dialog} {dialogs : List Dialog}
    (hdialogs : w.dialogs = box :: dialogs) (hbox : box.Asks none) (accepted : Bool) :
    (w.closeDialog accepted).1.dialogs = dialogs ∧
      (w.closeDialog accepted).2.any WorkerSlot.isControl = false := by
  simp only [MainWindow.closeDialog, hdialogs]
  cases hnext : box.next with
  | requestIfYes request => exact absurd hnext (hbox request)
  | downloadIfNamed => cases accepted <;> exact ⟨rfl, rfl⟩
  | _ => exact ⟨rfl, rfl⟩

theorem closeDialog_of_requestIfYes {w : MainWindow} {box : Dialog} {dialogs : List Dialog}
    {request : WorkerRequest} (hdialogs : w.dialogs = box :: dialogs)
    (hnext : box.next = .requestIfYes request) (accepted : Bool) :
    w.closeDialog accepted =
      ({ w with dialogs := dialogs }, if accepted then [.request request] else []) := by
  simp only [MainWindow.closeDialog, hdialogs, hnext]

namespace Orders

structure Sound (o : Orders) : Prop where
  asked : List.Forall₂ Dialog.Asks o.session.window.dialogs o.asked
  queued : Aligned o.connection o.session.slots o.queued
  /-- In their order, and none twice. -/
  kept : (o.sent ++ o.queued.reduceOption).Sublist (o.confirmed.map (·.sent))
  conserved : (o.sent ++ o.dropped ++ o.queued.reduceOption).Perm (o.confirmed.map (·.sent))
  texts : ∀ c ∈ o.confirmed, c.text = c.sent.order.question

theorem sound_start : Sound start where
  asked := .nil
  queued := trivial
  kept := List.Sublist.slnil
  conserved := List.Perm.nil
  texts _ h := nomatch h

theorem reduceOption_replicate_none (queued : List (Option Sent)) (n : ℕ) :
    (queued ++ List.replicate n none).reduceOption = queued.reduceOption := by
  rw [List.reduceOption_append, List.reduceOption_replicate_none, List.append_nil]

theorem forall₂_replicate_none {boxes : List Dialog} (h : ∀ box ∈ boxes, box.Asks none) :
    List.Forall₂ Dialog.Asks boxes (List.replicate boxes.length none) := by
  induction boxes with
  | nil => exact .nil
  | cons box boxes ih =>
    exact .cons (h box List.mem_cons_self) (ih fun box' h' => h box' (List.mem_cons_of_mem _ h'))

namespace Sound

variable {o : Orders}

theorem asking (h : Sound o) {session : Session} {order : Option Order} {box : Dialog}
    (hdialogs : session.window.dialogs = box :: o.session.window.dialogs) (hbox : box.Asks order)
    (hslots : session.slots = o.session.slots) : Sound (o.asking order session) where
  asked := by
    show List.Forall₂ Dialog.Asks session.window.dialogs (order :: o.asked)
    rw [hdialogs]
    exact .cons hbox h.asked
  queued := by
    show Aligned o.connection session.slots o.queued
    rw [hslots]
    exact h.queued
  kept := h.kept
  conserved := h.conserved
  texts := h.texts

/-- A step that adds no order to what is held beside `dialogs`. -/
theorem passing {asked : List (Option Order)} {session : Session} {boxes dialogs : List Dialog}
    {slots : List WorkerSlot} (h : Sound o) (hasked : List.Forall₂ Dialog.Asks dialogs asked)
    (hdialogs : session.window.dialogs = boxes ++ dialogs)
    (hlength : session.window.dialogs.length - o.session.window.dialogs.length = boxes.length)
    (hboxes : ∀ box ∈ boxes, box.Asks none)
    (hslots : session.slots = o.session.slots ++ slots)
    (hplain : slots.any WorkerSlot.isControl = false) :
    Sound ({ o with asked := asked }.passing session) := by
  have hnew : session.slots.length - o.session.slots.length = slots.length := by
    rw [hslots, List.length_append, Nat.add_sub_cancel_left]
  have hqueued : (o.queued ++ List.replicate slots.length none).reduceOption =
      o.queued.reduceOption := reduceOption_replicate_none o.queued slots.length
  have hpassing : { o with asked := asked }.passing session = { o with
      session := session
      asked := List.replicate boxes.length none ++ asked
      queued := o.queued ++ List.replicate slots.length none } := by
    rw [Orders.passing, hlength, hnew]
  rw [hpassing]
  exact
    { asked := by
        show List.Forall₂ Dialog.Asks session.window.dialogs _
        rw [hdialogs]
        exact List.rel_append (forall₂_replicate_none hboxes) hasked
      queued := by
        show Aligned o.connection session.slots _
        rw [hslots]
        exact h.queued.append (.replicate_none hplain)
      kept := by
        rw [hqueued]
        exact h.kept
      conserved := by
        rw [hqueued]
        exact h.conserved
      texts := h.texts }

theorem closing {box : Dialog} {dialogs : List Dialog} {asked : List (Option Order)}
    {session : Session} {slots : List WorkerSlot} (h : Sound o)
    (hbox : o.session.window.dialogs = box :: dialogs)
    (hasked : List.Forall₂ Dialog.Asks dialogs asked) (hdialogs : session.window.dialogs = dialogs)
    (hslots : session.slots = o.session.slots ++ slots)
    (hplain : slots.any WorkerSlot.isControl = false) :
    Sound ({ o with asked := asked }.passing session) := by
  have hlength : session.window.dialogs.length - o.session.window.dialogs.length =
      ([] : List Dialog).length := by
    rw [hdialogs, hbox, List.length_cons, List.length_nil]
    omega
  have hnothing : session.window.dialogs = [] ++ dialogs := hdialogs
  exact h.passing hasked hnothing hlength (by simp) hslots hplain

theorem answering (h : Sound o) (accepted : Bool) (hopen : o.session.window.dialogs ≠ []) :
    Sound (o.answering accepted (o.session.handled (o.session.window.closeDialog accepted))) := by
  obtain ⟨box, dialogs, hdialogs⟩ := List.exists_cons_of_ne_nil hopen
  have hasked := h.asked
  rw [hdialogs] at hasked
  cases hheld : o.asked with
  | nil =>
    rw [hheld] at hasked
    cases hasked
  | cons held asked =>
    rw [hheld] at hasked
    obtain ⟨hbox, hrest⟩ := List.forall₂_cons.mp hasked
    cases held with
    | none =>
      have hanswer (session : Session) : o.answering accepted session =
          { o with asked := asked }.passing session := by
        simp [Orders.answering, hheld]
      rw [hanswer]
      obtain ⟨hclosed, hplain⟩ := closeDialog_of_asks_none hdialogs hbox accepted
      exact h.closing hdialogs hrest hclosed rfl hplain
    | some order =>
      obtain ⟨htext, hnext⟩ := hbox
      have hclosed := closeDialog_of_requestIfYes hdialogs hnext accepted
      cases accepted with
      | false =>
        have hanswer (session : Session) : o.answering false session =
            { o with asked := asked }.passing session := by
          simp [Orders.answering, hheld]
        rw [hanswer, hclosed]
        exact h.closing hdialogs hrest rfl rfl rfl
      | true =>
        have hanswer (session : Session) : o.answering true session = { o with
            session := session
            asked := asked
            queued := o.queued ++ [some ⟨order, o.requested⟩]
            confirmed := o.confirmed ++ [⟨box.text, ⟨order, o.requested⟩⟩] } := by
          simp [Orders.answering, hheld, hdialogs]
        rw [hanswer, hclosed]
        let sent : Sent := ⟨order, o.requested⟩
        have hreduce :
            (o.queued ++ [some sent]).reduceOption = o.queued.reduceOption ++ [sent] := by
          rw [List.reduceOption_append, List.reduceOption_singleton, Option.toList_some]
        exact
          { asked := hrest
            queued := h.queued.append ⟨⟨rfl, rfl⟩, trivial⟩
            kept := by
              show (o.sent ++ (o.queued ++ [some sent]).reduceOption).Sublist _
              rw [hreduce, List.map_append, ← List.append_assoc]
              exact h.kept.append (List.Sublist.refl _)
            conserved := by
              show (o.sent ++ o.dropped ++ (o.queued ++ [some sent]).reduceOption).Perm _
              rw [hreduce, List.map_append, ← List.append_assoc]
              exact h.conserved.append_right _
            texts := by
              intro c hc
              obtain hc | hc := List.mem_append.mp hc
              · exact h.texts c hc
              · rw [List.mem_singleton.mp hc]
                exact htext }

theorem taking (h : Sound o) {slot : WorkerSlot} {slots : List WorkerSlot}
    (hslots : o.session.slots = slot :: slots) : Sound (o.taking
      ({ o.session with slots := slots }.emitted (o.session.worker.invoke slot))) := by
  have hqueued := h.queued
  rw [hslots] at hqueued
  cases hfirst : o.queued with
  | nil =>
    rw [hfirst] at hqueued
    exact hqueued.elim
  | cons first queued =>
    rw [hfirst] at hqueued
    obtain ⟨htakes, hrest⟩ := hqueued
    have hconnects : (if o.session.slots.head? = some .connectToAgent then 1 else 0) =
        [slot].count .connectToAgent := by
      rw [hslots, List.head?_cons, List.count_singleton]
      simp only [Option.some.injEq, beq_iff_eq]
    have hkept := h.kept
    have hconserved := h.conserved
    rw [hfirst] at hkept hconserved
    cases first with
    | none =>
      have htaking (session : Session) : o.taking session = { o with
          session := session
          queued := queued
          connection := o.connection + [slot].count .connectToAgent } := by
        simp only [Orders.taking, hfirst, hconnects, List.head?_cons, Option.join_some,
          List.tail_cons]
      rw [htaking]
      rw [List.reduceOption_cons_of_none] at hkept hconserved
      exact ⟨h.asked, hrest, hkept, hconserved, h.texts⟩
    | some sent =>
      -- the connection that was asked for is the one the worker has
      obtain ⟨-, hconnection⟩ := htakes
      have hsame : (⟨sent.order, o.connection⟩ : Sent) = sent := by rw [← hconnection]
      rw [List.reduceOption_cons_of_some] at hkept hconserved
      cases hclient : o.session.worker.client with
      | true =>
        have htaking (session : Session) : o.taking session = { o with
            session := session
            queued := queued
            connection := o.connection + [slot].count .connectToAgent
            sent := o.sent ++ [sent] } := by
          simp only [Orders.taking, hfirst, hconnects, List.head?_cons, Option.join_some,
            List.tail_cons, hclient, if_true, hsame]
        rw [htaking]
        exact
          { asked := h.asked
            queued := hrest
            kept := by
              show (o.sent ++ [sent] ++ queued.reduceOption).Sublist _
              rwa [List.append_assoc, List.singleton_append]
            conserved := by
              show (o.sent ++ [sent] ++ o.dropped ++ queued.reduceOption).Perm _
              refine List.Perm.trans ?_ hconserved
              simp only [List.append_assoc]
              exact (List.perm_append_comm_assoc [sent] o.dropped _).append_left o.sent
            texts := h.texts }
      | false =>
        have htaking (session : Session) : o.taking session = { o with
            session := session
            queued := queued
            connection := o.connection + [slot].count .connectToAgent
            dropped := o.dropped ++ [sent] } := by
          simp only [Orders.taking, hfirst, hconnects, List.head?_cons, Option.join_some,
            List.tail_cons, hclient, Bool.false_eq_true, if_false, hsame]
        rw [htaking]
        exact
          { asked := h.asked
            queued := hrest
            kept := by
              show (o.sent ++ queued.reduceOption).Sublist _
              exact ((List.sublist_cons_self sent _).append_left o.sent).trans hkept
            conserved := by
              show (o.sent ++ (o.dropped ++ [sent]) ++ queued.reduceOption).Perm _
              rwa [← List.append_assoc, List.append_assoc _ [sent], List.singleton_append]
            texts := h.texts }

/-- A handler that adds no order. -/
theorem handled (h : Sound o) {session : Session} {result : MainWindow × List WorkerSlot}
    (hwindow : session.window = o.session.window) (hslots : session.slots = o.session.slots)
    (hplain : AddsPlain session.window result) : Sound (o.passing (session.handled result)) := by
  obtain ⟨⟨boxes, hdialogs, hboxes⟩, hnone⟩ := hplain
  have hlength : result.1.dialogs.length - o.session.window.dialogs.length = boxes.length := by
    rw [hdialogs, hwindow, List.length_append, Nat.add_sub_cancel_right]
  rw [hwindow] at hdialogs
  have hadded : (session.handled result).slots = o.session.slots ++ result.2 := by
    rw [← hslots]
    rfl
  exact h.passing h.asked hdialogs hlength hboxes hadded hnone

theorem unseen (h : Sound o) {session : Session} (hwindow : session.window = o.session.window)
    (hslots : session.slots = o.session.slots) : Sound (o.passing session) := by
  have hdialogs : session.window.dialogs = [] ++ o.session.window.dialogs := by
    rw [hwindow, List.nil_append]
  have hlength : session.window.dialogs.length - o.session.window.dialogs.length =
      ([] : List Dialog).length := by
    rw [hwindow, Nat.sub_self, List.length_nil]
  exact h.passing h.asked hdialogs hlength (by simp) (by rw [hslots, List.append_nil]) rfl

theorem processControl (h : Sound o) (button : ProcessButton) (pid : ℤ) :
    Sound (o.asking (if pid ≤ 0 then none else some (.process button pid))
      (o.session.handled (o.session.window.confirmProcessControl button.actionName pid))) := by
  unfold MainWindow.confirmProcessControl
  split_ifs
  · exact h.asking rfl (by simp [Dialog.Asks]) (List.append_nil _)
  · exact h.asking rfl ⟨rfl, rfl⟩ (List.append_nil _)

theorem serviceControl (h : Sound o) (button : ServiceButton) (name : Option Bytes) :
    Sound (o.asking (name.map (.service button))
      (o.session.handled (o.session.window.confirmServiceControl button.actionName name))) := by
  unfold MainWindow.confirmServiceControl
  cases name with
  | none => exact h.asking rfl (by simp [Dialog.Asks]) (List.append_nil _)
  | some name => exact h.asking rfl ⟨rfl, rfl⟩ (List.append_nil _)

/-- What a step of the session leaves of the books, beside the actions with orders. -/
theorem other (h : Sound o) {action : Session.Action} {session : Session}
    (hseen : (Action.other action).seen = some action)
    (hstep : o.session.step action = some session) : Sound (o.passing session) := by
  have hmoves := Session.Step.of_step hstep
  cases hmoves with
  | input hallows => exact h.handled rfl rfl (AddsPlain.receive (by rw [hseen]; simp) _)
  | deliver hsignals => exact h.handled rfl rfl (AddsPlain.handle _ _)
  | invoke hphase hslots => exact absurd hseen (by simp [Action.seen])
  | _ => exact h.unseen rfl rfl

theorem step (h : Sound o) {action : Action} {o' : Orders} (hstep : o.step action = some o') :
    Sound o' := by
  obtain ⟨seen, hseen, hmap⟩ := Option.bind_eq_some_iff.mp hstep
  obtain ⟨session, hsession, rfl⟩ := Option.map_eq_some_iff.mp hmap
  have hmoves := Session.Step.of_step hsession
  cases action with
  | processControl button pid =>
    cases hseen
    cases hmoves with
    | input hallows => exact h.processControl button pid
  | serviceControl button name =>
    cases hseen
    cases hmoves with
    | input hallows => exact h.serviceControl button name
  | closeDialog accepted =>
    cases hseen
    cases hmoves with
    | input hallows => exact h.answering accepted (of_decide_eq_true hallows)
  | invoke =>
    cases hseen
    cases hmoves with
    | invoke hphase hslots => exact h.taking hslots
  | other action =>
    have hsame := Action.eq_of_seen_other hseen
    subst hsame
    exact h.other hseen hsession

end Sound

theorem Reachable.sound {o : Orders} (h : Reachable o) : Sound o :=
  h.invariant sound_start fun _ _ _ hsound _ hstep => hsound.step hstep

end Orders

namespace Order
open EdgeScopeServiceImpl

theorem processAction_button (button : ProcessButton) :
    ∃ action, processAction button.action = some action ∧
      ProcessController.signalNumber action = button.signal := by
  cases button <;> exact ⟨_, rfl, rfl⟩

theorem serviceAction_button (button : ServiceButton) :
    ∃ action, serviceAction button.action = some action ∧
      ServiceManager.operation action = button.actionName := by
  cases button <;> exact ⟨_, rfl, rfl⟩

theorem controlService_commands (allowedServices : List Bytes) (runner : ServiceCommandRunner)
    (name : Bytes) (action : ServiceAction) :
    (ServiceManager.controlService allowedServices runner name action).commands.Sublist
      [ServiceManager.controlArguments name action] := by
  unfold ServiceManager.controlService
  split_ifs
  · exact List.nil_sublist _
  · split
    · exact List.Sublist.refl _
    · split <;> exact List.Sublist.refl _
  · exact List.nil_sublist _

/-- The agent does what the order says, or nothing. -/
theorem effects_sublist (host : Host) (agent : EdgeScopeServiceImpl) (order : Order) :
    (handle host agent order.rpc).effects.Sublist order.effects := by
  cases order with
  | process button pid =>
    obtain ⟨action, haction, hsignal⟩ := processAction_button button
    simp only [rpc, handle, controlProcess, haction, reply_effects, effects,
      ProcessController.control_signals, hsignal]
    split
    · exact List.Sublist.refl _
    · exact List.nil_sublist _
  | service button name =>
    obtain ⟨action, haction, hverb⟩ := serviceAction_button button
    simp only [rpc, handle, controlService, haction, reply_effects, effects, systemctlRuns]
    have hcommands := controlService_commands agent.allowedServices host.runner name action
    rw [ServiceManager.controlArguments, hverb] at hcommands
    exact hcommands.map fun arguments => Effect.systemctl (ServiceManager.childArguments arguments)

end Order

/-- In any run, what the worker sends are orders that the user has said Yes to, in the order of the
answers and each of them once, over the connection asked for last when the answer was given; those
it takes without a connection are dropped, and the rest wait in the queue. Whatever of this reaches
an agent, the agent does no more than what the boxes said. -/
theorem Orders.carried_out {o : Orders} (h : Orders.Reachable o)
    (served : List (Sent × EdgeScopeServiceImpl × Host))
    (hserved : (served.map Prod.fst).Sublist o.sent) :
    Session.Reachable (fun _ _ => True) o.session ∧
    (∀ c ∈ o.confirmed, c.text = c.sent.order.question) ∧
    o.sent.Sublist (o.confirmed.map (·.sent)) ∧
    (o.sent ++ o.dropped ++ o.queued.reduceOption).Perm (o.confirmed.map (·.sent)) ∧
    o.session.slots.filter WorkerSlot.isControl =
      o.queued.reduceOption.map (fun sent => .request sent.order.request) ∧
    (served.flatMap fun call =>
      (EdgeScopeServiceImpl.handle call.2.2 call.2.1 call.1.order.rpc).effects).Sublist
        (o.confirmed.flatMap (·.sent.order.effects)) := by
  have hsound := h.sound
  have hsent : o.sent.Sublist (o.confirmed.map (·.sent)) :=
    (List.sublist_append_left o.sent _).trans hsound.kept
  refine ⟨h.session, hsound.texts, hsent, hsound.conserved, hsound.queued.filter_isControl, ?_⟩
  have hconfirmed := (hserved.trans hsent).flatMap (·.order.effects)
  rw [List.flatMap_map, List.flatMap_map] at hconfirmed
  have hserves := List.Sublist.flatMap_right served
    fun call _ => Order.effects_sublist call.2.2 call.2.1 call.1.order
  exact hserves.trans hconfirmed

def killRun : List Orders.Action :=
  [.other (.input (.connect (ascii "host"))), .invoke, .other (.connectReply .ok), .other .deliver,
    .processControl .kill 5, .closeDialog true, .invoke, .other (.callReply .ok), .invoke,
    .other (.callReply .ok), .invoke, .other (.callReply .ok), .other (.callReply .ok), .invoke,
    .other (.callReply .ok), .invoke, .other (.callReply .ok), .invoke]

theorem Orders.carried_out_kill : ∃ o : Orders, Orders.Reachable o ∧
    o.sent = [⟨.process .kill 5, 1⟩] ∧
    ([.signal 5 .sigkill] : List Effect).Sublist (o.confirmed.flatMap (·.sent.order.effects)) := by
  have hrun : ∃ o, Orders.Reachable o ∧ o.sent = [⟨.process .kill 5, 1⟩] := by
    apply Runs.Reachable.exists_of_replay killRun
    decide +kernel
  obtain ⟨o, h, hsent⟩ := hrun
  let agent : EdgeScopeServiceImpl := .create 100 .default
  have hcarried := Orders.carried_out h [(⟨.process .kill 5, 1⟩, agent, Host.quiet)]
    (by rw [hsent, List.map_singleton])
  exact ⟨o, h, hsent, hcarried.2.2.2.2.2⟩

end EdgeScope
