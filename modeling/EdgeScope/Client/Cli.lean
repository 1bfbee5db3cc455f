import EdgeScope.Client.LocalFile

/-!
# The download of `edgescope-cli`

`main` with `--diagnostic` has a callback of its own for the chunks. It checks the offset of
a chunk, but not the size the chunk names, counts a chunk before it knows whether the write
succeeded, and leaves its file where it is when the download fails.
-/

namespace EdgeScope.Cli
open BundleDownload RpcWorker Text

structure Transfer where
  received : ℕ
  output : OutputStream Byte
  deriving DecidableEq

/-- The callback for a chunk. The answer tells whether it has returned false. -/
def onChunk (input : DiagnosticChunk × CallOutcome) (t : Transfer) : Transfer × Bool :=
  let (chunk, outcome) := input
  if chunk.offset ≠ t.received then (t, true)
  else
    let output := t.output.write chunk.data outcome
    (⟨t.received + chunk.data.length, output⟩, output.failed)

def downloadDiagnosticBundle (delivered : List (DiagnosticChunk × CallOutcome)) : Transfer :=
  (Runs.run onChunk delivered ⟨0, .opened⟩).1

/-- What `main` leaves at the destination, its exit code, and the line it prints. -/
structure Exit where
  destination : Option Bytes
  code : ℕ
  line : Bytes
  deriving DecidableEq

/-- `main` with `--diagnostic path`, once the agent has answered `GetAgentInfo`. -/
def diagnostic (path : Bytes) (destination : Option Bytes)
    (created : Except Status DiagnosticBundleInfo) (opens : Bool)
    (delivered : List (DiagnosticChunk × CallOutcome)) (closed : CallOutcome) (status : Status) :
    Exit :=
  match created with
  | .error status =>
    ⟨destination, 1, ascii "CreateDiagnosticBundle RPC failed: " ++ status.message⟩
  | .ok created =>
    if opens then
      let t := downloadDiagnosticBundle delivered
      let output := t.output.close closed
      if status.code ≠ .ok ∨ t.received ≠ created.sizeBytes then
        ⟨some output.file, 1, ascii "DownloadDiagnosticBundle failed: " ++ status.message⟩
      else
        ⟨some output.file, 0, ascii "Diagnostic bundle saved to " ++ path ++ ascii " (" ++
          decimal t.received ++ ascii " bytes)"⟩
    else ⟨destination, 1, ascii "Failed to open diagnostic output file"⟩

/-- What the worker takes, `main` takes as well. -/
theorem run_onChunk_of_taken {created : DiagnosticBundleInfo}
    {delivered : List (DiagnosticChunk × CallOutcome)} {t : Transfer}
    (ht : t.output.failed = false) (h : Taken created t.received delivered) :
    Runs.run onChunk delivered t =
      (⟨t.received + (received delivered).length, t.output.writeAll (writes delivered)⟩,
        false) := by
  induction delivered generalizing t with
  | nil => rfl
  | cons input delivered ih =>
    obtain ⟨chunk, outcome⟩ := input
    obtain ⟨⟨hoffset, -, hsucceeds⟩, hrest⟩ := taken_cons.mp h
    have hwrite : (t.output.write chunk.data outcome).failed = false := by
      rw [OutputStream.write_failed ht, hsucceeds]
      rfl
    have hstep : onChunk (chunk, outcome) t =
        (⟨t.received + chunk.data.length, t.output.write chunk.data outcome⟩, false) := by
      simp only [onChunk, hoffset, ne_eq, not_true_eq_false, if_false, hwrite]
    rw [Runs.run_cons_of_goes (by rw [hstep]), hstep, ih hwrite hrest]
    simp only [received, payload, List.map_cons, List.flatMap_cons, List.length_append,
      Nat.add_assoc]
    rfl

theorem downloadDiagnosticBundle_of_taken {created : DiagnosticBundleInfo}
    {delivered : List (DiagnosticChunk × CallOutcome)} (h : Taken created 0 delivered) :
    downloadDiagnosticBundle delivered =
      ⟨(received delivered).length, beforeClose delivered⟩ := by
  rw [downloadDiagnosticBundle, run_onChunk_of_taken rfl h, Nat.zero_add]
  rfl

/-- Both clients report the same, and leave the same at the destination: no file that they have
opened, when they report a failure. -/
structure Agree (created : Except Status DiagnosticBundleInfo) (opens : Bool) (exit : Exit)
    (result : DownloadResult) : Prop where
  success : exit.code = 0 ↔ ∃ size, result.outcome = .diagnosticReady size
  destination : exit.destination = result.destination
  clean : ∀ info, created = .ok info → opens = true → exit.code ≠ 0 → exit.destination = none

/-- The two downloads agree exactly when neither has opened its file, or the transfer is
complete. -/
theorem downloads_agree_iff (path : Bytes) (destination : Option Bytes)
    (created : Except Status DiagnosticBundleInfo) (opens : Bool)
    (delivered : List (DiagnosticChunk × CallOutcome)) (closed : CallOutcome) (status : Status) :
    Agree created opens (diagnostic path destination created opens delivered closed status)
        (createAndDownloadDiagnostic destination created opens delivered closed status) ↔
      ∀ info, created = .ok info → opens = true → Complete info delivered status := by
  match created, opens with
  | .error failure, opens =>
    refine iff_of_true ⟨?_, rfl, fun info h => ?_⟩ fun info h => ?_
    · simp [diagnostic, createAndDownloadDiagnostic, emitRpcError]
    · cases h
    · cases h
  | .ok created, false =>
    refine iff_of_true ⟨?_, rfl, fun info _ h => ?_⟩ fun info _ h => ?_
    · simp [diagnostic, createAndDownloadDiagnostic]
    · cases h
    · cases h
  | .ok created, true =>
    rw [createAndDownloadDiagnostic_eq]
    by_cases hcomplete : Complete created delivered status
    · have hworker : (RpcWorker.downloadDiagnosticBundle created delivered).output =
          beforeClose delivered :=
        ((run_onChunk created delivered (t := .start) rfl rfl).2 hcomplete.1).2
      have hcli : diagnostic path destination (.ok created) true delivered closed status =
          ⟨some ((beforeClose delivered).close closed).file, 0,
            ascii "Diagnostic bundle saved to " ++ path ++ ascii " (" ++
              decimal created.sizeBytes ++ ascii " bytes)"⟩ := by
        simp only [diagnostic, if_true, downloadDiagnosticBundle_of_taken hcomplete.1,
          hcomplete.2.1, hcomplete.2.2, ne_eq, not_true_eq_false, or_self, if_false]
      rw [if_pos hcomplete, hworker, hcli]
      refine iff_of_true ⟨by simp, rfl, fun _ _ _ h => absurd rfl h⟩ ?_
      rintro info hinfo -
      cases hinfo
      exact hcomplete
    · -- the worker removes the file, and `main` leaves it
      have hleft : ∃ file, (diagnostic path destination (.ok created) true delivered closed
          status).destination = some file := by
        simp only [diagnostic, if_true]
        split
        · exact ⟨_, rfl⟩
        · exact ⟨_, rfl⟩
      obtain ⟨file, hfile⟩ := hleft
      rw [if_neg hcomplete]
      refine iff_of_false (fun h => ?_) fun h => hcomplete (h created rfl rfl)
      have hsame := h.destination
      rw [hfile] at hsame
      cases hsame

/-- A stream that ends after two of three bytes: both clients report a failure, and `main` leaves
the two bytes. A chunk that names another size: the worker rejects it, and `main` reports a
success. -/
theorem downloads_disagree :
    ¬ Agree (.ok threeBytes) true
      (diagnostic (ascii "d.tar.gz") none (.ok threeBytes) true [(⟨[1, 2], 0, 3, false⟩, .kept)]
        .kept ⟨.unavailable, ascii "Socket closed"⟩)
      (createAndDownloadDiagnostic none (.ok threeBytes) true [(⟨[1, 2], 0, 3, false⟩, .kept)]
        .kept ⟨.unavailable, ascii "Socket closed"⟩) ∧
    ¬ Agree (.ok threeBytes) true
      (diagnostic (ascii "d.tar.gz") none (.ok threeBytes) true [(⟨[1, 2, 3], 0, 4, true⟩, .kept)]
        .kept .ok)
      (createAndDownloadDiagnostic none (.ok threeBytes) true [(⟨[1, 2, 3], 0, 4, true⟩, .kept)]
        .kept .ok) := by
  constructor
  · intro h
    exact absurd h.destination (by decide)
  · intro h
    obtain ⟨size, hready⟩ := h.success.mp (by decide)
    cases hready

end EdgeScope.Cli
