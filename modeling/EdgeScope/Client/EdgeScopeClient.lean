import EdgeScope.Client.Cli
import EdgeScope.Runs.Dialogue

/-!
# `EdgeScopeClient`

What a client asks of the agent, and what it gets for an answer. A unary call has a message or
the status of its failure. A stream has the messages that its reader finds, and the status that
`Finish` returns.
-/

namespace EdgeScope
open Text

structure StreamReply (α : Type) where
  delivered : List α
  status : Status

/-- The chunks of a download with the outcomes of their writes, the outcome of the close of the
local file, and the status. -/
structure Delivery where
  delivered : List (DiagnosticChunk × CallOutcome)
  closed : CallOutcome
  status : Status

def Request.Reply : Request → Type
  | .getAgentInfo => Except Status AgentInfo
  | .getSystemMetrics => Except Status SystemMetrics
  | .streamSystemMetrics _ => StreamReply SystemMetrics
  | .listProcesses => Except Status (List ProcessInfo)
  | .getProcessDetails _ => Except Status ProcessInfo
  | .controlProcess _ _ => Except Status Unit
  | .getNetworkInterfaces => Except Status (List NetworkInterfaceInfo)
  | .listTcpConnections => Except Status (List TcpConnectionInfo)
  | .listLogs => Except Status (List LogSourceInfo)
  | .readLog _ _ _ => Except Status (List Bytes × Bool)
  | .streamLog _ _ _ => StreamReply Bytes
  | .listServices => Except Status (List ServiceInfo)
  | .controlService _ _ => Except Status Unit
  | .createDiagnosticBundle => Except Status DiagnosticBundleInfo
  | .downloadDiagnosticBundle _ => Delivery

namespace EdgeScopeClient

/-- The loop of `StreamSystemMetrics`: the messages handed to the caller, and whether the call
has been cancelled at the limit. -/
def metricsLoop {α : Type} (maxSamples : ℕ) : List α → List α → List α × Bool
  | [], handed => (handed, false)
  | metrics :: delivered, handed =>
    let handed := handed ++ [metrics]
    if maxSamples ≠ 0 ∧ maxSamples ≤ handed.length then (handed, true)
    else metricsLoop maxSamples delivered handed

/-- A call that the client has cancelled is a success. -/
def streamSystemMetrics {α : Type} (maxSamples : ℕ) (reply : StreamReply α) : List α × Status :=
  let (handed, cancelledAfterLimit) := metricsLoop maxSamples reply.delivered []
  if cancelledAfterLimit ∧ reply.status.code = .cancelled then (handed, .ok)
  else (handed, reply.status)

theorem metricsLoop_of_unlimited {α : Type} (delivered handed : List α) :
    metricsLoop 0 delivered handed = (handed ++ delivered, false) := by
  induction delivered generalizing handed with
  | nil => simp [metricsLoop]
  | cons metrics delivered ih => simp [metricsLoop, ih]

theorem metricsLoop_of_limit {α : Type} {maxSamples : ℕ} (delivered : List α) {handed : List α}
    (h : handed.length < maxSamples) :
    metricsLoop maxSamples delivered handed =
      ((handed ++ delivered).take maxSamples,
        decide (maxSamples ≤ handed.length + delivered.length)) := by
  induction delivered generalizing handed with
  | nil =>
    have hnone : ¬ maxSamples ≤ handed.length + ([] : List α).length := by simpa using h
    rw [metricsLoop, List.append_nil, List.take_of_length_le h.le, decide_eq_false hnone]
  | cons metrics delivered ih =>
    have hsplit : handed ++ metrics :: delivered = (handed ++ [metrics]) ++ delivered := by simp
    have hlength : (handed ++ [metrics]).length = handed.length + 1 := by simp
    rw [metricsLoop, List.length_cons, hlength]
    split
    · have hfull : (handed ++ [metrics]).length = maxSamples := by omega
      have hreached : maxSamples ≤ handed.length + (delivered.length + 1) := by omega
      rw [decide_eq_true hreached, hsplit, ← hfull, List.take_left]
    · rw [ih (by omega), hsplit, hlength, Nat.add_assoc, Nat.add_comm 1]

/-- The caller gets the messages up to the limit, and the status of the call unless it was
cancelled there. -/
theorem streamSystemMetrics_eq {α : Type} (maxSamples : ℕ) (reply : StreamReply α) :
    streamSystemMetrics maxSamples reply =
      (if maxSamples = 0 then reply.delivered else reply.delivered.take maxSamples,
        if maxSamples ≠ 0 ∧ maxSamples ≤ reply.delivered.length ∧ reply.status.code = .cancelled
        then .ok else reply.status) := by
  unfold streamSystemMetrics
  obtain rfl | hlimit := Nat.eq_zero_or_pos maxSamples
  · simp [metricsLoop_of_unlimited]
  · rw [metricsLoop_of_limit reply.delivered (show ([] : List α).length < maxSamples from hlimit)]
    simp only [List.nil_append, List.length_nil, Nat.zero_add, decide_eq_true_eq,
      ne_eq, hlimit.ne', not_false_eq_true, true_and]
    split <;> rfl

end EdgeScopeClient
end EdgeScope
