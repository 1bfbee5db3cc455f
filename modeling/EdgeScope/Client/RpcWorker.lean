import EdgeScope.Agent.BundleDownload
import EdgeScope.Disk.OutputStream
import EdgeScope.Runs.Machine

/-!
# The download of `RpcWorker`

The worker asks for a bundle, then for its chunks, and writes them to a local file. It checks
every chunk and every write, and the status and the size at the end.
-/

namespace EdgeScope.RpcWorker
open Text

inductive Outcome
  | diagnosticReady (received : ℕ)
  | rpcError (operation message : Bytes) (connectionLost : Bool)
  deriving DecidableEq

structure Transfer where
  received : ℕ
  localWriteFailed : Bool
  output : OutputStream Byte
  /-- The arguments of `DiagnosticProgress`. -/
  progress : List (ℕ × ℕ)
  deriving DecidableEq

def Transfer.start : Transfer := ⟨0, false, .opened, []⟩

/-- The callback for a chunk, which is written with the outcome given. The answer tells whether
the callback has returned false, upon which the client cancels the call and stops reading. -/
def onChunk (created : DiagnosticBundleInfo) (input : DiagnosticChunk × CallOutcome)
    (t : Transfer) : Transfer × Bool :=
  let (chunk, outcome) := input
  if chunk.offset ≠ t.received ∨ chunk.totalSizeBytes ≠ created.sizeBytes then
    ({ t with localWriteFailed := true }, true)
  else
    let output := t.output.write chunk.data outcome
    if output.failed then ({ t with localWriteFailed := true, output := output }, true)
    else
      let received := t.received + chunk.data.length
      ({ t with
        received := received
        output := output
        progress := t.progress ++ [(received, chunk.totalSizeBytes)] }, false)

def downloadDiagnosticBundle (created : DiagnosticBundleInfo)
    (delivered : List (DiagnosticChunk × CallOutcome)) : Transfer :=
  (Runs.run (onChunk created) delivered .start).1

def connectionLost (status : Status) : Bool :=
  status.code = .unavailable || status.code = .deadlineExceeded

def emitRpcError (operation : Bytes) (status : Status) : Outcome :=
  .rpcError operation status.message (connectionLost status)

def downloadError (t : Transfer) (status : Status) : Outcome :=
  let operation := ascii "DownloadDiagnosticBundle"
  if t.localWriteFailed then
    .rpcError operation (ascii "Local write failed or chunk sequence was invalid") false
  else if status.code ≠ .ok then emitRpcError operation status
  else .rpcError operation (ascii "Downloaded size does not match bundle size") false

/-- What the destination holds afterwards, and what the worker has emitted. -/
structure DownloadResult where
  destination : Option Bytes
  progress : List (ℕ × ℕ)
  outcome : Outcome

/-- `created` is the answer to the first request, `opens` tells whether the destination can be
opened, `closed` is what becomes of the flush at its close, and `status` is the final status of
the second request. -/
def createAndDownloadDiagnostic (destination : Option Bytes)
    (created : Except Status DiagnosticBundleInfo) (opens : Bool)
    (delivered : List (DiagnosticChunk × CallOutcome)) (closed : CallOutcome)
    (status : Status) : DownloadResult :=
  match created with
  | .error status => ⟨destination, [], emitRpcError (ascii "CreateDiagnosticBundle") status⟩
  | .ok created =>
    if opens then
      let t := downloadDiagnosticBundle created delivered
      let output := t.output.close closed
      if t.localWriteFailed ∨ status.code ≠ .ok ∨ t.received ≠ created.sizeBytes then
        ⟨none, t.progress, downloadError t status⟩
      else ⟨some output.file, t.progress, .diagnosticReady t.received⟩
    else
      ⟨destination, [], .rpcError (ascii "DownloadDiagnosticBundle")
        (ascii "Cannot open the selected local file") false⟩

open BundleDownload

/-- The chunks follow one another from `received` on, and name the announced size. -/
def InSequence (announced : ℕ) : ℕ → List DiagnosticChunk → Prop
  | _, [] => True
  | received, chunk :: chunks =>
    chunk.offset = received ∧ chunk.totalSizeBytes = announced ∧
      InSequence announced (received + chunk.data.length) chunks

instance decidableInSequence (announced : ℕ) :
    ∀ (received : ℕ) (chunks : List DiagnosticChunk),
      Decidable (InSequence announced received chunks)
  | _, [] => isTrue trivial
  | received, chunk :: chunks =>
    have := decidableInSequence announced (received + chunk.data.length) chunks
    inferInstanceAs (Decidable (_ ∧ _ ∧ _))

/-- No chunk is rejected, and every write succeeds. -/
def Taken (created : DiagnosticBundleInfo) (received : ℕ)
    (delivered : List (DiagnosticChunk × CallOutcome)) : Prop :=
  InSequence created.sizeBytes received (delivered.map Prod.fst) ∧
    ∀ input ∈ delivered, input.2.succeeds = true

instance (created : DiagnosticBundleInfo) (received : ℕ)
    (delivered : List (DiagnosticChunk × CallOutcome)) :
    Decidable (Taken created received delivered) :=
  inferInstanceAs (Decidable (_ ∧ _))

theorem taken_cons {created : DiagnosticBundleInfo} {received : ℕ} {chunk : DiagnosticChunk}
    {outcome : CallOutcome} {delivered : List (DiagnosticChunk × CallOutcome)} :
    Taken created received ((chunk, outcome) :: delivered) ↔
      (chunk.offset = received ∧ chunk.totalSizeBytes = created.sizeBytes ∧
        outcome.succeeds = true) ∧
      Taken created (received + chunk.data.length) delivered := by
  simp only [Taken, List.map_cons, InSequence, List.forall_mem_cons]
  tauto

def writes (delivered : List (DiagnosticChunk × CallOutcome)) : List (Bytes × CallOutcome) :=
  delivered.map fun input => (input.1.data, input.2)

abbrev received (delivered : List (DiagnosticChunk × CallOutcome)) : Bytes :=
  payload (delivered.map Prod.fst)

theorem flatMap_writes (delivered : List (DiagnosticChunk × CallOutcome)) :
    (writes delivered).flatMap Prod.fst = received delivered := by
  simp only [writes, received, payload, List.flatMap_map]

theorem onChunk_eq (created : DiagnosticBundleInfo) (chunk : DiagnosticChunk)
    (outcome : CallOutcome) {t : Transfer} (ht : t.output.failed = false) :
    let result := onChunk created (chunk, outcome) t
    if chunk.offset = t.received ∧ chunk.totalSizeBytes = created.sizeBytes ∧
        outcome.succeeds = true then
      result = ({ t with
        received := t.received + chunk.data.length
        output := t.output.write chunk.data outcome
        progress := t.progress ++ [(t.received + chunk.data.length, chunk.totalSizeBytes)] }, false)
    else result.2 = true ∧ result.1.localWriteFailed = true := by
  intro result
  have hwrite := OutputStream.write_failed ht chunk.data outcome
  by_cases hsequence : chunk.offset = t.received ∧ chunk.totalSizeBytes = created.sizeBytes
  · cases hsucceeds : outcome.succeeds
    · simp [result, onChunk, hsequence, hwrite, hsucceeds]
    · simp [result, onChunk, hsequence, hwrite, hsucceeds]
  · rw [if_neg (by tauto)]
    have hreject : chunk.offset ≠ t.received ∨ chunk.totalSizeBytes ≠ created.sizeBytes := by tauto
    simp [result, onChunk, hreject]

/-- A transfer that has not failed fails exactly when not all chunks are taken, and otherwise has
handed all of their data to the stream. -/
theorem run_onChunk (created : DiagnosticBundleInfo)
    (delivered : List (DiagnosticChunk × CallOutcome)) {t : Transfer}
    (ht : t.output.failed = false) (hfailed : t.localWriteFailed = false) :
    let result := (Runs.run (onChunk created) delivered t).1
    (result.localWriteFailed = false ↔ Taken created t.received delivered) ∧
    (Taken created t.received delivered →
      result.received = t.received + (received delivered).length ∧
      result.output = t.output.writeAll (writes delivered)) := by
  induction delivered generalizing t with
  | nil => simp [Runs.run, hfailed, Taken, InSequence, received, payload, OutputStream.writeAll,
      writes]
  | cons input delivered ih =>
    obtain ⟨chunk, outcome⟩ := input
    have hstep := onChunk_eq created chunk outcome ht
    simp only [taken_cons]
    -- a chunk that is not taken stops the download
    by_cases htaken : chunk.offset = t.received ∧ chunk.totalSizeBytes = created.sizeBytes ∧
        outcome.succeeds = true
    · rw [if_pos htaken] at hstep
      rw [Runs.run_cons_of_goes (by rw [hstep]), hstep]
      have hwrite : (t.output.write chunk.data outcome).failed = false := by
        rw [OutputStream.write_failed ht, htaken.2.2]
        rfl
      obtain ⟨hiff, hall⟩ := ih (t := { t with
        received := t.received + chunk.data.length
        output := t.output.write chunk.data outcome
        progress := t.progress ++ [(t.received + chunk.data.length, chunk.totalSizeBytes)] })
        hwrite hfailed
      refine ⟨?_, fun h => ?_⟩
      · rw [hiff]
        simp only [htaken, and_self, true_and]
      · obtain ⟨hreceived, houtput⟩ := hall h.2
        refine ⟨?_, houtput⟩
        rw [hreceived]
        simp only [received, payload, List.map_cons, List.flatMap_cons, List.length_append,
          Nat.add_assoc]
    · rw [if_neg htaken] at hstep
      rw [Runs.run_cons, if_pos hstep.1]
      simp [hstep.2, htaken]

theorem downloadDiagnosticBundle_spec (created : DiagnosticBundleInfo)
    (delivered : List (DiagnosticChunk × CallOutcome)) :
    let t := downloadDiagnosticBundle created delivered
    (t.localWriteFailed = false ↔ Taken created 0 delivered) ∧
    (Taken created 0 delivered → t.received = (received delivered).length ∧
      t.output.taken = received delivered) := by
  obtain ⟨hiff, hall⟩ := run_onChunk created delivered (t := .start) rfl rfl
  refine ⟨hiff, fun h => ?_⟩
  obtain ⟨hreceived, houtput⟩ := hall h
  have hwrites : ∀ call ∈ writes delivered, call.2.succeeds = true := by
    intro call hcall
    obtain ⟨input, hinput, rfl⟩ := List.mem_map.mp hcall
    exact h.2 input hinput
  obtain ⟨-, htaken⟩ := OutputStream.writeAll_spec (s := .opened) rfl hwrites
  refine ⟨hreceived.trans (Nat.zero_add _), ?_⟩
  rw [downloadDiagnosticBundle, houtput]
  exact htaken.trans (flatMap_writes delivered)

theorem downloadError_ne (t : Transfer) (status : Status) (received : ℕ) :
    downloadError t status ≠ .diagnosticReady received := by
  unfold downloadError emitRpcError
  split
  · simp
  · split <;> simp

/-- The chunks are taken, the call has ended well, and they amount to the announced size. -/
def Complete (created : DiagnosticBundleInfo)
    (delivered : List (DiagnosticChunk × CallOutcome)) (status : Status) : Prop :=
  Taken created 0 delivered ∧ status.code = .ok ∧ (received delivered).length = created.sizeBytes

instance (created : DiagnosticBundleInfo) (delivered : List (DiagnosticChunk × CallOutcome))
    (status : Status) : Decidable (Complete created delivered status) :=
  inferInstanceAs (Decidable (_ ∧ _))

theorem fails_iff (created : DiagnosticBundleInfo)
    (delivered : List (DiagnosticChunk × CallOutcome)) (status : Status) :
    let t := downloadDiagnosticBundle created delivered
    (t.localWriteFailed = true ∨ status.code ≠ .ok ∨ t.received ≠ created.sizeBytes) ↔
      ¬ Complete created delivered status := by
  intro t
  obtain ⟨hiff, hall⟩ := downloadDiagnosticBundle_spec created delivered
  by_cases htaken : Taken created 0 delivered
  · simp only [t, hiff.mpr htaken, (hall htaken).1, Complete, htaken, true_and, ne_eq,
      Bool.false_eq_true, false_or, not_and_or]
  · have hfailed : t.localWriteFailed = true := by
      rw [← Bool.not_eq_false]
      exact mt hiff.mp htaken
    simp [hfailed, Complete, htaken]

/-- The worker makes a success exactly of a complete transfer, whatever became of the flush. -/
theorem createAndDownloadDiagnostic_eq (destination : Option Bytes)
    (created : DiagnosticBundleInfo) (delivered : List (DiagnosticChunk × CallOutcome))
    (closed : CallOutcome) (status : Status) :
    let t := downloadDiagnosticBundle created delivered
    createAndDownloadDiagnostic destination (.ok created) true delivered closed status =
      if Complete created delivered status then
        ⟨some (t.output.close closed).file, t.progress, .diagnosticReady created.sizeBytes⟩
      else ⟨none, t.progress, downloadError t status⟩ := by
  simp only [createAndDownloadDiagnostic, if_true, fails_iff, ite_not]
  split
  · rename_i hcomplete
    rw [((downloadDiagnosticBundle_spec created delivered).2 hcomplete.1).1, hcomplete.2.2]
  · rfl

end EdgeScope.RpcWorker
