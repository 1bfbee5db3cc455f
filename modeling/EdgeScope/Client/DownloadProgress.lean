import EdgeScope.Client.RpcWorker

/-!
# How far a download may go

The callback compares the offset of a chunk and the total it names, and no more. While every
chunk it accepts ends within the announced size, so do the file and the reports, at every moment
of the transfer. A longer chunk is written and reported.
-/

namespace EdgeScope.MainWindow
open Text

/-- The value `UpdateDiagnosticProgress` gives to the progress bar. The product is a `quint64`, the
quotient is cast to `int`. -/
def progressPercent (received total : ℕ) : ℤ :=
  if total = 0 then 0 else Int.bmod (received * 100 % wordSize / total : ℕ) (2 ^ 32)

/-- A product that wraps only gets smaller. -/
theorem progressPercent_bounds {received total : ℕ} (h : received ≤ total) :
    0 ≤ progressPercent received total ∧ progressPercent received total ≤ 100 := by
  unfold progressPercent
  split
  · simp
  · rename_i hzero
    have hquotient : received * 100 % wordSize / total ≤ 100 := by
      calc received * 100 % wordSize / total
          ≤ received * 100 / total := Nat.div_le_div_right (Nat.mod_le _ _)
        _ ≤ total * 100 / total := Nat.div_le_div_right (Nat.mul_le_mul_right _ h)
        _ = 100 := Nat.mul_div_cancel_left _ (Nat.pos_of_ne_zero hzero)
    generalize received * 100 % wordSize / total = quotient at hquotient
    have hcast : Int.bmod (quotient : ℤ) (2 ^ 32) = quotient :=
      Int.bmod_eq_of_le (by omega) (by omega)
    rw [hcast]
    omega

end EdgeScope.MainWindow

namespace EdgeScope.RpcWorker
open MainWindow

/-- A report of no more than the announced size, which the progress bar can show. -/
def ReportWithin (announced : ℕ) (report : ℕ × ℕ) : Prop :=
  report.1 ≤ announced ∧ 0 ≤ progressPercent report.1 report.2 ∧
    progressPercent report.1 report.2 ≤ 100

structure Transfer.Within (announced : ℕ) (t : Transfer) : Prop where
  written : t.output.taken.length ≤ announced
  reported : ∀ report ∈ t.progress, ReportWithin announced report

def Accepts (created : DiagnosticBundleInfo) (chunk : DiagnosticChunk) (t : Transfer) : Prop :=
  chunk.offset = t.received ∧ chunk.totalSizeBytes = created.sizeBytes

def EndsWithin (created : DiagnosticBundleInfo) (input : DiagnosticChunk × CallOutcome)
    (t : Transfer) : Prop :=
  Accepts created input.1 t → input.1.offset + input.1.data.length ≤ created.sizeBytes

instance (created : DiagnosticBundleInfo) (input : DiagnosticChunk × CallOutcome) (t : Transfer) :
    Decidable (EndsWithin created input t) :=
  inferInstanceAs (Decidable (_ ∧ _ → _))

structure Transfer.Sound (announced : ℕ) (t : Transfer) : Prop where
  goes : t.output.failed = false
  received_eq : t.received = t.output.taken.length
  within : t.Within announced

theorem sound_start (announced : ℕ) : Transfer.Sound announced .start where
  goes := rfl
  received_eq := rfl
  within := ⟨Nat.zero_le _, by simp [Transfer.start]⟩

variable {created : DiagnosticBundleInfo} {chunk : DiagnosticChunk} {outcome : CallOutcome}
  {t : Transfer}

theorem onChunk_of_not_accepts (h : ¬ Accepts created chunk t) :
    onChunk created (chunk, outcome) t = ({ t with localWriteFailed := true }, true) := by
  have hreject : chunk.offset ≠ t.received ∨ chunk.totalSizeBytes ≠ created.sizeBytes :=
    not_and_or.mp h
  simp only [onChunk, if_pos hreject]

theorem onChunk_of_accepts (outcome : CallOutcome) (h : Accepts created chunk t)
    (hgoes : t.output.failed = false) :
    let result := onChunk created (chunk, outcome) t
    result.1.output = t.output.write chunk.data outcome ∧
      (outcome.succeeds = false → result.1.progress = t.progress ∧ result.2 = true) ∧
      (outcome.succeeds = true →
        result.1.received = t.received + chunk.data.length ∧ result.2 = false ∧
        result.1.progress =
          t.progress ++ [(t.received + chunk.data.length, created.sizeBytes)]) := by
  intro result
  have hwrite := OutputStream.write_failed hgoes chunk.data outcome
  cases hsucceeds : outcome.succeeds with
  | false => simp [result, onChunk, h.1, h.2, hwrite, hsucceeds]
  | true => simp [result, onChunk, h.1, h.2, hwrite, hsucceeds]

/-- A chunk that is accepted brings the file to its own end. -/
theorem Transfer.Sound.length_taken (hsound : t.Sound created.sizeBytes)
    (h : Accepts created chunk t) (outcome : CallOutcome) :
    (onChunk created (chunk, outcome) t).1.output.taken.length =
      chunk.offset + chunk.data.length := by
  obtain ⟨houtput, -, -⟩ := onChunk_of_accepts outcome h hsound.goes
  rw [houtput, OutputStream.write_taken hsound.goes, List.length_append, h.1, hsound.received_eq]

/-- The callback keeps to the announced size exactly when the chunk does. -/
theorem Transfer.Sound.within_step_iff (hsound : t.Sound created.sizeBytes)
    (input : DiagnosticChunk × CallOutcome) :
    (onChunk created input t).1.Within created.sizeBytes ↔ EndsWithin created input t := by
  obtain ⟨chunk, outcome⟩ := input
  by_cases haccepts : Accepts created chunk t
  · have hlength := hsound.length_taken haccepts outcome
    obtain ⟨-, hfails, hsucceeds⟩ := onChunk_of_accepts outcome haccepts hsound.goes
    constructor
    · intro hwithin _
      exact hlength ▸ hwithin.written
    · intro hends
      have hle : chunk.offset + chunk.data.length ≤ created.sizeBytes := hends haccepts
      have hreceived : t.received + chunk.data.length ≤ created.sizeBytes := haccepts.1 ▸ hle
      refine ⟨hlength ▸ hle, ?_⟩
      -- the one new report is that of this chunk
      intro report hmem
      cases houtcome : outcome.succeeds with
      | false =>
        rw [(hfails houtcome).1] at hmem
        exact hsound.within.reported report hmem
      | true =>
        rw [(hsucceeds houtcome).2.2, List.mem_append, List.mem_singleton] at hmem
        obtain hbefore | rfl := hmem
        · exact hsound.within.reported report hbefore
        · exact ⟨hreceived, progressPercent_bounds hreceived⟩
  · rw [onChunk_of_not_accepts haccepts]
    exact ⟨fun _ h => absurd h haccepts,
      fun _ => ⟨hsound.within.written, hsound.within.reported⟩⟩

theorem Transfer.Sound.step (hsound : t.Sound created.sizeBytes)
    {input : DiagnosticChunk × CallOutcome}
    (hwithin : (onChunk created input t).1.Within created.sizeBytes)
    (hgoes : (onChunk created input t).2 = false) :
    (onChunk created input t).1.Sound created.sizeBytes := by
  obtain ⟨chunk, outcome⟩ := input
  by_cases haccepts : Accepts created chunk t
  · obtain ⟨houtput, hfails, hsucceeds⟩ := onChunk_of_accepts outcome haccepts hsound.goes
    cases houtcome : outcome.succeeds with
    | false =>
      rw [(hfails houtcome).2] at hgoes
      cases hgoes
    | true =>
      refine ⟨?_, ?_, hwithin⟩
      · rw [houtput, OutputStream.write_failed hsound.goes, houtcome]
        rfl
      · rw [hsound.length_taken haccepts, (hsucceeds houtcome).1, haccepts.1]
  · rw [onChunk_of_not_accepts haccepts] at hgoes
    cases hgoes

/-- A download keeps to the announced size at every moment exactly when every chunk it accepts
ends within that size. -/
theorem download_within_iff (created : DiagnosticBundleInfo)
    (delivered : List (DiagnosticChunk × CallOutcome)) :
    (∀ n, (downloadDiagnosticBundle created (delivered.take n)).Within created.sizeBytes) ↔
      Runs.Throughout (onChunk created) (EndsWithin created) delivered .start := by
  have hstart := sound_start created.sizeBytes
  unfold downloadDiagnosticBundle
  rw [Runs.forall_run_take_iff, and_iff_right hstart.within]
  exact Runs.throughout_congr (fun input t hsound => hsound.within_step_iff input)
    (fun input t hsound hwithin hgoes => hsound.step hwithin hgoes) hstart

/-- Two bytes where one was announced: they are written, and the progress bar is set to 200. -/
theorem download_beyond_announced :
    ¬ ∀ (created : DiagnosticBundleInfo) (delivered : List (DiagnosticChunk × CallOutcome)) (n : ℕ),
      (downloadDiagnosticBundle created (delivered.take n)).Within created.sizeBytes := by
  intro h
  have hwithin := h ⟨[], [], 1, 0⟩ [(⟨[65, 66], 0, 1, false⟩, .kept)] 1
  have hbar : progressPercent 2 1 = 200 := by decide
  have hreported : ((2, 1) : ℕ × ℕ) ∈ (downloadDiagnosticBundle ⟨[], [], 1, 0⟩
      [(⟨[65, 66], 0, 1, false⟩, .kept)]).progress := by decide
  have hpercent := (hwithin.reported _ hreported).2.2
  simp only [hbar] at hpercent
  exact absurd hpercent (by decide)

/-- What stays at the destination is not longer than announced: the test at the end sees to it. -/
theorem destination_length_le (destination : Option Bytes) (created : DiagnosticBundleInfo)
    (delivered : List (DiagnosticChunk × CallOutcome)) (closed : CallOutcome) (status : Status)
    {contents : Bytes}
    (h : contents ∈ (createAndDownloadDiagnostic destination (.ok created) true delivered closed
      status).destination) :
    contents.length ≤ created.sizeBytes := by
  rw [createAndDownloadDiagnostic_eq] at h
  split at h
  · rename_i hcomplete
    obtain ⟨htaken, -, hsize⟩ := hcomplete
    have houtput := ((downloadDiagnosticBundle_spec created delivered).2 htaken).2
    obtain rfl := Option.some.inj h
    calc _ ≤ (downloadDiagnosticBundle created delivered).output.taken.length :=
          OutputStream.length_close_le _ closed
      _ = created.sizeBytes := by rw [houtput, hsize]
  · cases h

end EdgeScope.RpcWorker
