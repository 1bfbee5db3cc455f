import EdgeScope.Text.Lines
import EdgeScope.Text.Bytes

/-!
# `ServiceManager`

The services of the whitelist are shown and controlled by running `systemctl`. What the
runner answers is the environment's choice, run by run.
-/

namespace EdgeScope
open Text

inductive ServiceAction
  | start
  | stop
  | restart
  deriving DecidableEq, Repr

inductive ServiceManagerError
  | invalidArgument
  | notAllowed
  | notFound
  | permissionDenied
  | commandFailed
  deriving DecidableEq, Repr

structure CommandResult where
  exitCode : ℤ
  output : Bytes
  deriving DecidableEq

structure ServiceInfo where
  name : Bytes
  description : Bytes
  loadState : Bytes
  activeState : Bytes
  subState : Bytes
  deriving DecidableEq

/-- The answer to the `n`-th run of a call: a result, or the error of a run that could not be
made. -/
abbrev ServiceCommandRunner := ℕ → List Bytes → Except Bytes CommandResult

structure ServiceCall (ε α : Type) where
  commands : List (List Bytes)
  result : Except ε α

namespace ServiceManager

def valueFor (output key : Bytes) : Bytes :=
  let keyPrefix := key ++ ascii "="
  match (getlines newline output).find? fun line => keyPrefix.isPrefixOf line with
  | none => []
  | some line => line.drop keyPrefix.length

def showArguments (name : Bytes) : List Bytes :=
  [ascii "show", ascii "--no-pager",
    ascii "--property=Description,LoadState,ActiveState,SubState", name]

def serviceInfo (name : Bytes) (result : CommandResult) : ServiceInfo :=
  let loadState := valueFor result.output (ascii "LoadState")
  if result.exitCode ≠ 0 ∨ loadState = [] then
    { name := name
      description := valueFor result.output (ascii "Description")
      loadState := ascii "unavailable"
      activeState := ascii "unknown"
      subState := ascii "unknown" }
  else
    { name := name
      description := valueFor result.output (ascii "Description")
      loadState := loadState
      activeState := valueFor result.output (ascii "ActiveState")
      subState := valueFor result.output (ascii "SubState") }

def listLoop (runner : ServiceCommandRunner) :
    ℕ → List Bytes → List ServiceInfo → ServiceCall Bytes (List ServiceInfo)
  | _, [], services => ⟨[], .ok services⟩
  | n, name :: names, services =>
    match runner n (showArguments name) with
    | .error error => ⟨[showArguments name], .error error⟩
    | .ok result =>
      let call := listLoop runner (n + 1) names (services ++ [serviceInfo name result])
      ⟨showArguments name :: call.commands, call.result⟩

def listServices (allowedServices : List Bytes) (runner : ServiceCommandRunner) :
    ServiceCall Bytes (List ServiceInfo) :=
  listLoop runner 0 allowedServices []

def operation : ServiceAction → Bytes
  | .start => ascii "start"
  | .stop => ascii "stop"
  | .restart => ascii "restart"

def controlArguments (name : Bytes) (action : ServiceAction) : List Bytes :=
  [operation action, ascii "--no-ask-password", name]

def commandError (output : Bytes) : ServiceManagerError :=
  if (find (ascii "not found") output).isSome then .notFound
  else if (find (ascii "permission") output).isSome ∨
      (find (ascii "authentication") output).isSome then .permissionDenied
  else .commandFailed

def controlService (allowedServices : List Bytes) (runner : ServiceCommandRunner) (name : Bytes)
    (action : ServiceAction) : ServiceCall (ServiceManagerError × Bytes) Unit :=
  if name = [] then ⟨[], .error (.invalidArgument, ascii "service name is required")⟩
  else if name ∉ allowedServices then
    ⟨[], .error (.notAllowed, ascii "service is not in the configured whitelist")⟩
  else
    match runner 0 (controlArguments name action) with
    | .error error => ⟨[controlArguments name action], .error (.commandFailed, error)⟩
    | .ok result =>
      if result.exitCode ≠ 0 then
        ⟨[controlArguments name action], .error (commandError result.output,
          if result.output = [] then ascii "systemctl operation failed" else result.output)⟩
      else ⟨[controlArguments name action], .ok ()⟩

/-- The arguments the child gets: C strings, which end before the first NUL byte. -/
def childArguments (arguments : List Bytes) : List Bytes :=
  arguments.map fun argument => argument.takeWhile (· ≠ 0)

theorem childArguments_eq_self {arguments : List Bytes}
    (h : ∀ argument ∈ arguments, 0 ∉ argument) : childArguments arguments = arguments := by
  have hargument (argument : Bytes) (hmem : argument ∈ arguments) :
      argument.takeWhile (· ≠ 0) = argument :=
    List.takeWhile_eq_self_iff.mpr fun b hb =>
      decide_eq_true (ne_of_mem_of_not_mem hb (h argument hmem))
  simpa [childArguments] using List.map_congr_left (g := id) hargument

/-- `ListServices` shows services of the whitelist, in order, up to the first failure. -/
theorem listLoop_commands_grow (runner : ServiceCommandRunner) (n : ℕ) (names : List Bytes)
    (services : List ServiceInfo) :
    (listLoop runner n names services).commands <+: names.map showArguments := by
  induction names generalizing n services with
  | nil => exact List.prefix_refl _
  | cons name names ih =>
    rw [listLoop]
    split
    · exact (List.prefix_cons_inj _).mpr List.nil_prefix
    · exact (List.prefix_cons_inj _).mpr (ih _ _)

theorem listLoop_commands {runner : ServiceCommandRunner}
    (h : ∀ n arguments, ∃ result, runner n arguments = .ok result) (n : ℕ) (names : List Bytes)
    (services : List ServiceInfo) :
    (listLoop runner n names services).commands = names.map showArguments := by
  induction names generalizing n services with
  | nil => rfl
  | cons name names ih =>
    obtain ⟨result, hresult⟩ := h n (showArguments name)
    rw [listLoop, hresult]
    simp only [ih, List.map_cons]

theorem mem_listServices_commands {allowedServices : List Bytes} {runner : ServiceCommandRunner}
    {arguments : List Bytes} (h : arguments ∈ (listServices allowedServices runner).commands) :
    ∃ name ∈ allowedServices, arguments = showArguments name := by
  have hmem := (listLoop_commands_grow runner 0 allowedServices []).subset h
  obtain ⟨name, hname, rfl⟩ := List.mem_map.mp hmem
  exact ⟨name, hname, rfl⟩

/-- `ControlService` runs the operation on a service of the whitelist, or nothing. -/
theorem mem_controlService_commands {allowedServices : List Bytes} {runner : ServiceCommandRunner}
    {name : Bytes} {action : ServiceAction} {arguments : List Bytes}
    (h : arguments ∈ (controlService allowedServices runner name action).commands) :
    name ≠ [] ∧ name ∈ allowedServices ∧ arguments = controlArguments name action := by
  unfold controlService at h
  split at h
  · simp at h
  · rename_i hname
    split at h
    · simp at h
    · rename_i hallowed
      refine ⟨hname, not_not.mp hallowed, ?_⟩
      split at h
      · exact List.mem_singleton.mp h
      · split at h
        · exact List.mem_singleton.mp h
        · exact List.mem_singleton.mp h

theorem controlService_of_notMem {allowedServices : List Bytes} {name : Bytes}
    (h : name ∉ allowedServices) (runner : ServiceCommandRunner) (action : ServiceAction) :
    ∃ error, controlService allowedServices runner name action = ⟨[], .error error⟩ := by
  simp only [controlService, h, not_false_eq_true, if_true]
  split <;> exact ⟨_, rfl⟩

end ServiceManager
end EdgeScope
