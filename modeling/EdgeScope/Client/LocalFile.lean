import EdgeScope.Client.RpcWorker

/-!
# What a download of `RpcWorker` leaves behind

The worker removes the file of a download that has failed. It looks at the stream after every
write, but not after the close, whose flush may lose the end of the file.
-/

namespace EdgeScope.RpcWorker
open BundleDownload Text

/-- A success leaves the data of the chunks, which have the announced size. A failure after the
destination was opened is reported, and leaves no file. -/
structure LeavesWholeOrNothing (created : Except Status DiagnosticBundleInfo) (opens : Bool)
    (delivered : List (DiagnosticChunk × CallOutcome)) (result : DownloadResult) : Prop where
  whole : ∀ size, result.outcome = .diagnosticReady size →
    ∃ info, created = .ok info ∧ result.destination = some (received delivered) ∧
      (received delivered).length = info.sizeBytes
  nothing : ∀ info, created = .ok info → opens = true →
    (∀ size, result.outcome ≠ .diagnosticReady size) →
      (∃ operation message lost, result.outcome = .rpcError operation message lost) ∧
        result.destination = none

/-- Every outcome is a success or an error. -/
theorem exists_rpcError {outcome : Outcome} (h : ∀ size, outcome ≠ .diagnosticReady size) :
    ∃ operation message lost, outcome = .rpcError operation message lost := by
  cases outcome with
  | diagnosticReady size => exact absurd rfl (h size)
  | rpcError operation message lost => exact ⟨operation, message, lost, rfl⟩

def beforeClose (delivered : List (DiagnosticChunk × CallOutcome)) : OutputStream Byte :=
  OutputStream.opened.writeAll (writes delivered)

/-- A download leaves the whole file or none exactly when a transfer that is complete loses
nothing in the flush at its close. -/
theorem leavesWholeOrNothing_iff (destination : Option Bytes)
    (created : Except Status DiagnosticBundleInfo) (opens : Bool)
    (delivered : List (DiagnosticChunk × CallOutcome)) (closed : CallOutcome) (status : Status) :
    LeavesWholeOrNothing created opens delivered
        (createAndDownloadDiagnostic destination created opens delivered closed status) ↔
      ∀ info, created = .ok info → opens = true → Complete info delivered status →
        (beforeClose delivered).ClosesInFull closed := by
  match created, opens with
  | .error failure, opens =>
    refine iff_of_true ⟨fun size h => ?_, fun info h => ?_⟩ fun info h => ?_
    · simp [createAndDownloadDiagnostic, emitRpcError] at h
    · cases h
    · cases h
  | .ok created, false =>
    refine iff_of_true ⟨fun size h => ?_, fun info _ h => ?_⟩ fun info _ h => ?_
    · simp [createAndDownloadDiagnostic] at h
    · cases h
    · cases h
  | .ok created, true =>
    rw [createAndDownloadDiagnostic_eq]
    by_cases hcomplete : Complete created delivered status
    · obtain ⟨hreceived, htaken⟩ :=
        (downloadDiagnosticBundle_spec created delivered).2 hcomplete.1
      have hstream : (downloadDiagnosticBundle created delivered).output = beforeClose delivered :=
        ((run_onChunk created delivered (t := .start) rfl rfl).2 hcomplete.1).2
      -- the buffer goes to the file when the stream is closed
      have hfile := (beforeClose delivered).close_file_eq_taken_iff closed
      rw [hstream] at htaken
      rw [htaken] at hfile
      rw [if_pos hcomplete, hstream]
      constructor
      · rintro h info hinfo - -
        obtain ⟨_, -, hdestination, -⟩ := h.whole created.sizeBytes rfl
        exact hfile.mp (Option.some.inj hdestination)
      · intro h
        have hwhole := hfile.mpr (h created rfl rfl hcomplete)
        refine ⟨fun size _ => ⟨created, rfl, congrArg some hwhole, hcomplete.2.2⟩, ?_⟩
        intro info _ _ hready
        exact absurd rfl (hready created.sizeBytes)
    · rw [if_neg hcomplete]
      have hready := downloadError_ne (downloadDiagnosticBundle created delivered) status
      refine iff_of_true ⟨fun size h => absurd h (hready size), ?_⟩ ?_
      · exact fun info _ _ h => ⟨exists_rpcError h, rfl⟩
      · rintro info hinfo -
        cases hinfo
        exact fun h => absurd h hcomplete

def threeBytes : DiagnosticBundleInfo := ⟨ascii "b", ascii "b.tar.gz", 3, 0⟩

/-- The only chunk of `threeBytes`, which stays in the buffer. -/
def threeBytesKept : List (DiagnosticChunk × CallOutcome) := [(⟨[1, 2, 3], 0, 3, true⟩, .kept)]

/-- The disk is full when the stream is closed: the worker reports a success, and the file is
empty. -/
theorem leaves_empty_file :
    (createAndDownloadDiagnostic none (.ok threeBytes) true threeBytesKept ⟨0, false⟩ .ok).outcome =
        .diagnosticReady 3 ∧
      (createAndDownloadDiagnostic none (.ok threeBytes) true threeBytesKept ⟨0, false⟩
        .ok).destination = some [] ∧
      ¬ LeavesWholeOrNothing (.ok threeBytes) true threeBytesKept
        (createAndDownloadDiagnostic none (.ok threeBytes) true threeBytesKept ⟨0, false⟩ .ok) := by
  refine ⟨by decide, by decide, fun h => ?_⟩
  obtain ⟨_, -, hdestination, -⟩ := h.whole 3 (by decide)
  exact absurd hdestination (by decide)

end EdgeScope.RpcWorker
