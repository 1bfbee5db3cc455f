import EdgeScope.Agent.Host

/-!
# `ProcessController`

A signal is sent after the pid has passed two guards.
-/

namespace EdgeScope
open Text

inductive ProcessControlAction
  | terminate
  | kill
  | stop
  | continue'
  deriving DecidableEq, Repr

inductive ProcessControlError
  | invalidArgument
  | notFound
  | permissionDenied
  | internal
  deriving DecidableEq, Repr

inductive Signal
  | sigterm
  | sigkill
  | sigstop
  | sigcont
  deriving DecidableEq, Repr

/-- The signals handed to `kill`, and what the call returns. -/
structure ControlCall where
  signals : List (ℤ × Signal)
  result : Except (ProcessControlError × Bytes) Unit

namespace ProcessController

def signalNumber : ProcessControlAction → Signal
  | .terminate => .sigterm
  | .kill => .sigkill
  | .stop => .sigstop
  | .continue' => .sigcont

def killError : Errno → ProcessControlError × Bytes
  | .esrch => (.notFound, ascii "process does not exist")
  | .eperm => (.permissionDenied, ascii "permission denied while controlling process")
  | _ => (.internal, ascii "failed to control process")

/-- `getpid` is the agent's own pid; `kill` answers with the error number of a failure. -/
def control (getpid : ℤ) (kill : ℤ → Signal → Option Errno) (pid : ℤ)
    (action : ProcessControlAction) : ControlCall :=
  if pid ≤ 1 then ⟨[], .error (.invalidArgument, ascii "pid must be greater than 1")⟩
  else if pid = getpid then
    ⟨[], .error (.invalidArgument, ascii "the agent cannot control itself")⟩
  else
    match kill pid (signalNumber action) with
    | none => ⟨[(pid, signalNumber action)], .ok ()⟩
    | some errno => ⟨[(pid, signalNumber action)], .error (killError errno)⟩

/-- Behind the guards one signal is sent, whether `kill` fails or not. -/
theorem control_signals (getpid : ℤ) (kill : ℤ → Signal → Option Errno) (pid : ℤ)
    (action : ProcessControlAction) :
    (control getpid kill pid action).signals =
      if 1 < pid ∧ pid ≠ getpid then [(pid, signalNumber action)] else [] := by
  unfold control
  split
  · rw [if_neg (by omega)]
  · split
    · rw [if_neg (by omega)]
    · rw [if_pos (by omega)]
      split <;> rfl

theorem control_result_of_guard {getpid pid : ℤ} (h : ¬ (1 < pid ∧ pid ≠ getpid))
    (kill : ℤ → Signal → Option Errno) (action : ProcessControlAction) :
    ∃ error, (control getpid kill pid action).result = .error (.invalidArgument, error) := by
  unfold control
  split
  · exact ⟨_, rfl⟩
  · rw [if_pos (by omega)]
    exact ⟨_, rfl⟩

end ProcessController
end EdgeScope
