import EdgeScope.Agent.Capabilities
import EdgeScope.Client.Session

/-!
# The orders of the user

A button of the process or the service page asks first. The handler of its box holds what the user
was asked, and its `emit` copies it into the queue of the worker. The session is the one of
`Session`; beside it stand what its boxes and its slots carry, and what has become of it.
-/

namespace EdgeScope
open Text

inductive ProcessButton
  | terminate
  | kill
  | stop
  | continue'
  deriving DecidableEq, Repr

inductive ServiceButton
  | start
  | stop
  | restart
  deriving DecidableEq, Repr

def ProcessButton.actionName : ProcessButton → Bytes
  | .terminate => ascii "terminate"
  | .kill => ascii "kill"
  | .stop => ascii "stop"
  | .continue' => ascii "continue"

def ProcessButton.action : ProcessButton → ℤ
  | .terminate => 1
  | .kill => 2
  | .stop => 3
  | .continue' => 4

def ServiceButton.actionName : ServiceButton → Bytes
  | .start => ascii "start"
  | .stop => ascii "stop"
  | .restart => ascii "restart"

def ServiceButton.action : ServiceButton → ℤ
  | .start => 1
  | .stop => 2
  | .restart => 3

/-- The arguments of `RequestProcessControl` or `RequestServiceControl`. -/
inductive Order
  | process (button : ProcessButton) (pid : ℤ)
  | service (button : ServiceButton) (name : Bytes)
  deriving DecidableEq, Repr

namespace Order

def question : Order → Bytes
  | .process button pid =>
    ascii "Really " ++ button.actionName ++ ascii " process " ++ decimal pid.toNat ++ ascii "?"
  | .service button name => ascii "Really " ++ button.actionName ++ ascii " " ++ name ++ ascii "?"

def request : Order → WorkerRequest
  | .process _ _ => .controlProcess
  | .service _ _ => .controlService

def rpc : Order → Request
  | .process button pid => .controlProcess pid button.action
  | .service button name => .controlService name button.action

end Order

def ProcessButton.signal : ProcessButton → Signal
  | .terminate => .sigterm
  | .kill => .sigkill
  | .stop => .sigstop
  | .continue' => .sigcont

/-- What an order amounts to, when the agent lets it through. -/
def Order.effects : Order → List Effect
  | .process button pid => [.signal pid button.signal]
  | .service button name =>
    [.systemctl (ServiceManager.childArguments
      [button.actionName, ascii "--no-ask-password", name])]

/-- A request of the worker, over the connection of this number. -/
structure Sent where
  order : Order
  connection : ℕ
  deriving DecidableEq, Repr

/-- A box closed with Yes: its text, and what was queued. -/
structure Confirmation where
  text : Bytes
  sent : Sent
  deriving DecidableEq, Repr

structure Orders where
  session : Session
  /-- Beside the boxes of the window. -/
  asked : List (Option Order)
  /-- Beside the slots of the worker. -/
  queued : List (Option Sent)
  /-- How many `ConnectToAgent` the worker has taken. -/
  connection : ℕ
  confirmed : List Confirmation
  sent : List Sent
  /-- Taken without a client. -/
  dropped : List Sent
  deriving DecidableEq

namespace Orders

def start : Orders := ⟨.start, [], [], 0, [], [], []⟩

inductive Action
  | processControl (button : ProcessButton) (pid : ℤ)
  | serviceControl (button : ServiceButton) (name : Option Bytes)
  | closeDialog (accepted : Bool)
  | invoke
  | other (action : Session.Action)
  deriving DecidableEq

/-- What the session sees. The other actions are none of those that have a name of their own. -/
def Action.seen : Action → Option Session.Action
  | .processControl button pid => some (.input (.processControl button.actionName pid))
  | .serviceControl button name => some (.input (.serviceControl button.actionName name))
  | .closeDialog accepted => some (.input (.closeDialog accepted))
  | .invoke => some .invoke
  | .other (.input (.processControl _ _)) => none
  | .other (.input (.serviceControl _ _)) => none
  | .other (.input (.closeDialog _)) => none
  | .other .invoke => none
  | .other action => some action

/-- The number of the connection the user has asked for last. -/
def requested (o : Orders) : ℕ := o.connection + o.session.slots.count .connectToAgent

/-- A box has been opened that holds `order`. -/
def asking (order : Option Order) (o : Orders) (session : Session) : Orders :=
  { o with session := session, asked := order :: o.asked }

/-- The boxes and the slots that the handlers add carry no order. -/
def passing (o : Orders) (session : Session) : Orders :=
  { o with
    session := session
    asked := List.replicate
      (session.window.dialogs.length - o.session.window.dialogs.length) none ++ o.asked
    queued := o.queued ++ List.replicate (session.slots.length - o.session.slots.length) none }

def answering (accepted : Bool) (o : Orders) (session : Session) : Orders :=
  match o.asked.head?.join, accepted with
  | some order, true =>
    let sent : Sent := ⟨order, o.requested⟩
    { o with
      session := session
      asked := o.asked.tail
      queued := o.queued ++ [some sent]
      confirmed :=
        o.confirmed ++ [⟨(o.session.window.dialogs.head?.map (·.text)).getD [], sent⟩] }
  | _, _ => { o with asked := o.asked.tail }.passing session

def taking (o : Orders) (session : Session) : Orders :=
  let connects := if o.session.slots.head? = some .connectToAgent then 1 else 0
  let o' := { o with
    session := session
    queued := o.queued.tail
    connection := o.connection + connects }
  match o.queued.head?.join with
  | none => o'
  | some sent =>
    let sent : Sent := ⟨sent.order, o.connection⟩
    if o.session.worker.client then { o' with sent := o.sent ++ [sent] }
    else { o' with dropped := o.dropped ++ [sent] }

def follow (action : Action) (o : Orders) (session : Session) : Orders :=
  match action with
  | .processControl button pid =>
    o.asking (if pid ≤ 0 then none else some (.process button pid)) session
  | .serviceControl button name => o.asking (name.map (.service button)) session
  | .closeDialog accepted => o.answering accepted session
  | .invoke => o.taking session
  | .other _ => o.passing session

def step (action : Action) (o : Orders) : Option Orders :=
  action.seen.bind fun seen => (o.session.step seen).map (o.follow action)

abbrev Reachable : Orders → Prop :=
  Runs.Reachable (fun action o o' => step action o = some o') (fun _ _ => True) start

/-- The session of the orders is one of `Session`. -/
theorem Reachable.session {o : Orders} (h : Reachable o) :
    Session.Reachable (fun _ _ => True) o.session := by
  refine (h.simulate Orders.session (I := fun _ => True) trivial (fun _ _ _ _ _ => trivial) ?_).2
  intro action o o' _ _ hstep
  obtain ⟨seen, hseen, hmap⟩ := Option.bind_eq_some_iff.mp hstep
  obtain ⟨session, hsession, rfl⟩ := Option.map_eq_some_iff.mp hmap
  have hfollow : (o.follow action session).session = session := by
    cases action with
    | closeDialog accepted =>
      simp only [follow, answering]
      split
      · rfl
      · rfl
    | invoke =>
      simp only [follow, taking]
      split
      · rfl
      · split_ifs <;> rfl
    | _ => rfl
  exact .inr ⟨seen, trivial, by rw [hfollow]; exact hsession⟩

end Orders
end EdgeScope
