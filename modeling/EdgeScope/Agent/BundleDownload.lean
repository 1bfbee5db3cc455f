import EdgeScope.Rpc.Messages
import EdgeScope.Text.Pieces

/-!
# The handler of `DownloadDiagnosticBundle`

The handler looks the bundle up, opens the archive, and sends what it reads. Between two of
its steps other calls may change the registry and the directory; the archive it has opened
stays readable, so its contents are fixed when it is opened.
-/

namespace EdgeScope.BundleDownload
open Text

def kChunkSize : ℕ := 64 * 1024

/-- What the handler finds at one of its steps: the answer of `IsCancelled`, whether opening
fails, after how many bytes a read fails, and whether the writer takes a chunk. -/
structure Moment where
  cancelled : Bool := false
  openFails : Bool := false
  readFails : Option ℕ := none
  writes : Bool := true
  deriving DecidableEq

/-- An open archive of which `offset` bytes have been sent. `good` is the stream as a condition. -/
structure Sending where
  contents : Bytes
  totalSize : ℕ
  offset : ℕ
  good : Bool
  bad : Bool

/-- Of a call that has been cancelled. -/
def Moment.quit : Moment := { cancelled := true }

inductive Phase
  | requested
  | found (path : Path) (totalSize : ℕ)
  | sending (s : Sending)
  /-- After the loop. -/
  | sent (s : Sending)
  | finished (status : Status)

structure Download where
  phase : Phase
  /-- The paths handed to the stream, and the chunks handed to the writer. -/
  opened : List Path
  written : List DiagnosticChunk

def start : Download := ⟨.requested, [], []⟩

def lookUp (collector : DiagnosticCollector) (bundleId : Bytes) : Phase :=
  if bundleId = [] then .finished ⟨.invalidArgument, ascii "bundle_id is required"⟩
  else
    match collector.getBundlePath bundleId with
    | .error error => .finished ⟨.notFound, error⟩
    | .ok (path, totalSize) => .found path totalSize

def openArchive (tree : FileTree) (m : Moment) (path : Path) (totalSize : ℕ) : Phase :=
  match m.openFails, tree path with
  | false, some (.file contents) => .sending ⟨contents, totalSize, 0, true, false⟩
  | _, _ => .finished ⟨.internal, ascii "failed to open diagnostic bundle"⟩

def readChunk (m : Moment) (s : Sending) : Bytes × Sending :=
  let data := (s.contents.drop s.offset).take kChunkSize
  match m.readFails with
  | none => (data, { s with good := data.length = kChunkSize })
  | some count => (data.take count, { s with good := false, bad := true })

def sendChunk (m : Moment) (s : Sending) (d : Download) : Download :=
  if m.cancelled ∨ s.good = false then { d with phase := .sent s }
  else
    let (data, s) := readChunk m s
    if data = [] then { d with phase := .sent s }
    else
      let offset := s.offset + data.length
      let chunk : DiagnosticChunk := ⟨data, s.offset, s.totalSize, offset = s.totalSize⟩
      { d with
        phase := if m.writes then .sending { s with offset := offset } else .finished .ok
        written := d.written ++ [chunk] }

def endStatus (m : Moment) (s : Sending) : Status :=
  if m.cancelled then .ok
  else if s.bad ∨ s.offset ≠ s.totalSize then
    ⟨.internal, ascii "failed while reading diagnostic bundle"⟩
  else .ok

def step (collector : DiagnosticCollector) (bundleId : Bytes) (m : Moment) (d : Download) :
    Download :=
  match d.phase with
  | .requested => { d with phase := lookUp collector bundleId }
  | .found path totalSize =>
    { d with
      phase := openArchive collector.tree m path totalSize
      opened := d.opened ++ [path] }
  | .sending s => sendChunk m s d
  | .sent s => { d with phase := .finished (endStatus m s) }
  | .finished _ => d

/-- How many steps a cancelled call may still take. -/
def Phase.rank : Phase → ℕ
  | .requested => 4
  | .found _ _ => 3
  | .sending _ => 2
  | .sent _ => 1
  | .finished _ => 0

theorem rank_step_quit (collector : DiagnosticCollector) (bundleId : Bytes) (d : Download) :
    (step collector bundleId .quit d).phase.rank ≤ d.phase.rank - 1 := by
  cases hphase : d.phase with
  | requested =>
    simp only [step, hphase, lookUp]
    split
    · simp [Phase.rank]
    · split <;> simp [Phase.rank]
  | found path totalSize =>
    simp only [step, hphase, openArchive]
    split <;> simp [Phase.rank]
  | sending s => simp [step, hphase, sendChunk, Moment.quit, Phase.rank]
  | sent s => simp [step, hphase, Phase.rank]
  | finished status => simp [step, hphase, Phase.rank]

theorem rank_quit (collector : DiagnosticCollector) (bundleId : Bytes) (n : ℕ) (d : Download) :
    ((List.replicate n Moment.quit).foldl (fun d m => step collector bundleId m d) d).phase.rank ≤
      d.phase.rank - n := by
  induction n generalizing d with
  | zero => exact le_rfl
  | succ n ih =>
    rw [List.replicate_succ, List.foldl_cons]
    have hstep := rank_step_quit collector bundleId d
    have hrest := ih (step collector bundleId .quit d)
    omega

theorem Phase.finished_of_rank_eq_zero {phase : Phase} (h : phase.rank = 0) :
    ∃ status, phase = .finished status := by
  cases phase with
  | finished status => exact ⟨status, rfl⟩
  | _ => simp [Phase.rank] at h

def chunkPieces (chunks : List DiagnosticChunk) : List (ℕ × Bytes) :=
  chunks.map fun chunk => (chunk.offset, chunk.data)

def payload (chunks : List DiagnosticChunk) : Bytes := chunks.flatMap (·.data)

@[simp] theorem payload_nil : payload [] = [] := rfl

@[simp] theorem payload_append (chunks chunks' : List DiagnosticChunk) :
    payload (chunks ++ chunks') = payload chunks ++ payload chunks' :=
  List.flatMap_append

theorem flatMap_chunkPieces (chunks : List DiagnosticChunk) :
    (chunkPieces chunks).flatMap Prod.snd = payload chunks := by
  rw [chunkPieces, List.flatMap_map]
  rfl

/-- The chunks are consecutive pieces of `contents`, and each names its full size. -/
structure Carries (contents : Bytes) (chunks : List DiagnosticChunk) : Prop where
  consecutive : Pieces kChunkSize contents 0 (chunkPieces chunks)
  total : ∀ chunk ∈ chunks, chunk.totalSizeBytes = contents.length

namespace Carries

variable {contents : Bytes} {chunks front : List DiagnosticChunk}

theorem nil (contents : Bytes) : Carries contents [] := ⟨trivial, by simp⟩

theorem of_prefix (h : Carries contents chunks) (hfront : front <+: chunks) :
    Carries contents front where
  consecutive := h.consecutive.of_prefix (hfront.map _)
  total chunk hchunk := h.total chunk (hfront.subset hchunk)

theorem payload_prefix (h : Carries contents chunks) : payload chunks <+: contents := by
  have := h.consecutive.flatMap_prefix
  rwa [flatMap_chunkPieces, List.drop_zero] at this

theorem append (h : Carries contents chunks) {data : Bytes} (hne : data ≠ [])
    (hdata : data <+: (contents.drop (payload chunks).length).take kChunkSize) (eof : Bool) :
    Carries contents (chunks ++ [⟨data, (payload chunks).length, contents.length, eof⟩]) where
  consecutive := by
    have hlimit : data.length ≤ kChunkSize := hdata.length_le.trans (List.length_take_le ..)
    have hpre : data <+: contents.drop (0 + ((chunkPieces chunks).flatMap Prod.snd).length) := by
      rw [flatMap_chunkPieces, Nat.zero_add]
      exact hdata.trans (List.take_prefix ..)
    have hpieces := h.consecutive.append hne hlimit hpre
    rw [flatMap_chunkPieces, Nat.zero_add] at hpieces
    rw [chunkPieces, List.map_append]
    exact hpieces
  total chunk hchunk := by
    obtain hchunk | hchunk := List.mem_append.mp hchunk
    · exact h.total chunk hchunk
    · rw [List.mem_singleton.mp hchunk]

end Carries

/-- A handler that sends has sent the contents up to its offset. -/
structure Sending.Sound (s : Sending) (contents : Bytes) (written : List DiagnosticChunk) :
    Prop where
  source : s.contents = contents
  size : s.totalSize = contents.length
  position : s.offset = (payload written).length

theorem readChunk_fst_prefix (m : Moment) (s : Sending) :
    (readChunk m s).1 <+: (s.contents.drop s.offset).take kChunkSize := by
  unfold readChunk
  split
  · exact List.prefix_rfl
  · exact List.take_prefix ..

theorem readChunk_snd (m : Moment) (s : Sending) : ∃ good bad,
    (readChunk m s).2 = { s with good := good, bad := bad } := by
  unfold readChunk
  split
  · exact ⟨_, s.bad, rfl⟩
  · exact ⟨false, true, rfl⟩

structure Sound (contents : Bytes) (d : Download) : Prop where
  carries : Carries contents d.written
  sending : ∀ s, d.phase = .sending s ∨ d.phase = .sent s → s.Sound contents d.written

theorem Sound.sendChunk {contents : Bytes} {d : Download} (h : Sound contents d) {s : Sending}
    (hs : s.Sound contents d.written) (m : Moment) : Sound contents (sendChunk m s d) := by
  unfold BundleDownload.sendChunk
  obtain ⟨good, bad, hafter⟩ := readChunk_snd m s
  have hdata := readChunk_fst_prefix m s
  generalize readChunk m s = r at hafter hdata
  obtain ⟨data, s'⟩ := r
  obtain rfl : s' = { s with good := good, bad := bad } := hafter
  rw [hs.source, hs.position] at hdata
  split
  · refine ⟨h.carries, fun s' hs' => ?_⟩
    simp only [reduceCtorEq, Phase.sent.injEq, false_or] at hs'
    exact hs' ▸ hs
  · simp only
    split
    · refine ⟨h.carries, fun s' hs' => ?_⟩
      simp only [reduceCtorEq, Phase.sent.injEq, false_or] at hs'
      exact hs' ▸ ⟨hs.source, hs.size, hs.position⟩
    · rename_i hne
      refine ⟨?_, fun s' hs' => ?_⟩
      · have := h.carries.append hne hdata (decide (s.offset + data.length = s.totalSize))
        rw [← hs.position, ← hs.size] at this
        exact this
      · split at hs'
        · simp only [reduceCtorEq, Phase.sending.injEq, or_false] at hs'
          refine hs' ▸ ⟨hs.source, hs.size, ?_⟩
          simp [payload, hs.position]
        · simp at hs'

/-- Before the archive is opened nothing has been sent. -/
theorem sound_of_written_eq_nil (contents : Bytes) {d : Download} (hwritten : d.written = [])
    (hphase : ∀ s, d.phase ≠ .sending s ∧ d.phase ≠ .sent s) : Sound contents d where
  carries := by
    rw [hwritten]
    exact Carries.nil contents
  sending s hs := by
    obtain hs | hs := hs
    · exact absurd hs (hphase s).1
    · exact absurd hs (hphase s).2

theorem lookUp_cases (collector : DiagnosticCollector) (bundleId : Bytes) :
    (∃ status, lookUp collector bundleId = .finished status) ∨
    ∃ path totalSize, collector.getBundlePath bundleId = .ok (path, totalSize) ∧
      lookUp collector bundleId = .found path totalSize := by
  unfold lookUp
  split
  · exact .inl ⟨_, rfl⟩
  · split
    · exact .inl ⟨_, rfl⟩
    · rename_i path totalSize hget
      exact .inr ⟨path, totalSize, hget, rfl⟩

theorem openArchive_cases (tree : FileTree) (m : Moment) (path : Path) (totalSize : ℕ) :
    (∃ status, openArchive tree m path totalSize = .finished status) ∨
    ∃ contents, tree path = some (.file contents) ∧
      openArchive tree m path totalSize = .sending ⟨contents, totalSize, 0, true, false⟩ := by
  unfold openArchive
  split
  · rename_i contents _ htree
    exact .inr ⟨contents, htree, rfl⟩
  · exact .inl ⟨_, rfl⟩

def Phase.Early : Phase → Prop
  | .requested => True
  | .found _ _ => True
  | _ => False

/-- After the archive has been opened the registry and the directory no longer matter. -/
theorem Sound.step {contents : Bytes} {d : Download} (h : Sound contents d)
    (hphase : ¬ d.phase.Early) (collector : DiagnosticCollector) (bundleId : Bytes) (m : Moment) :
    Sound contents (step collector bundleId m d) := by
  unfold BundleDownload.step
  split
  · rename_i hrequested
    simp [hrequested, Phase.Early] at hphase
  · rename_i path totalSize hfound
    simp [hfound, Phase.Early] at hphase
  · rename_i s hs
    exact h.sendChunk (h.sending s (.inl hs)) m
  · exact ⟨h.carries, by simp⟩
  · exact h

theorem step_not_early {d : Download} (hphase : ¬ d.phase.Early)
    (collector : DiagnosticCollector) (bundleId : Bytes) (m : Moment) :
    ¬ (step collector bundleId m d).phase.Early := by
  unfold BundleDownload.step
  split
  · rename_i hrequested
    simp [hrequested, Phase.Early] at hphase
  · rename_i path totalSize hfound
    simp [hfound, Phase.Early] at hphase
  · unfold BundleDownload.sendChunk
    split
    · exact id
    · simp only
      split
      · exact id
      · simp only
        split <;> exact id
  · exact id
  · exact hphase

/-- The handler has come as far as it could: what is missing can still be sent. -/
def OnCourse (contents : Bytes) (d : Download) : Prop :=
  match d.phase with
  | .sending s => s.bad = false ∧ (s.good = false → s.offset = s.totalSize)
  | .sent s => s.bad = false ∧ s.offset = s.totalSize
  | .finished status => status = .ok ∧ payload d.written = contents
  | _ => False

theorem OnCourse.not_early {contents : Bytes} {d : Download} (h : OnCourse contents d) :
    ¬ d.phase.Early := by
  unfold OnCourse at h
  split at h
  · simp [*, Phase.Early]
  · simp [*, Phase.Early]
  · simp [*, Phase.Early]
  · exact h.elim

/-- How many steps an undisturbed handler may still take. -/
def Download.stepsLeft (d : Download) : ℕ :=
  match d.phase with
  | .sending s => if s.good then (s.contents.length - s.offset) / kChunkSize + 3 else 2
  | .sent _ => 1
  | _ => 0

theorem readChunk_quiet (s : Sending) : readChunk {} s =
    ((s.contents.drop s.offset).take kChunkSize, { s with
      good := decide (min kChunkSize (s.contents.length - s.offset) = kChunkSize) }) := by
  simp only [readChunk, List.length_take, List.length_drop]

theorem OnCourse.sendChunk {contents : Bytes} {d : Download} {s : Sending}
    (hphase : d.phase = .sending s) (h : OnCourse contents d) (hsound : Sound contents d) :
    OnCourse contents (sendChunk {} s d) ∧ (sendChunk {} s d).stepsLeft ≤ d.stepsLeft - 1 := by
  have hs := hsound.sending s (.inl hphase)
  have hle : s.offset ≤ contents.length := by
    rw [hs.position]
    exact hsound.carries.payload_prefix.length_le
  simp only [OnCourse, hphase] at h
  obtain ⟨hbad, hshort⟩ := h
  have hpos : 0 < kChunkSize := by decide
  simp only [BundleDownload.sendChunk, readChunk_quiet, Bool.false_eq_true, false_or, if_true]
  cases hgood : s.good with
  | false =>
    rw [if_pos rfl]
    exact ⟨⟨hbad, hshort hgood⟩, by simp [Download.stepsLeft, hphase, hgood]⟩
  | true =>
    rw [if_neg (by simp)]
    have hlength : ((s.contents.drop s.offset).take kChunkSize).length =
        min kChunkSize (contents.length - s.offset) := by
      rw [List.length_take, List.length_drop, hs.source]
    have hleft : d.stepsLeft = (contents.length - s.offset) / kChunkSize + 3 := by
      simp [Download.stepsLeft, hphase, hgood, hs.source]
    generalize (s.contents.drop s.offset).take kChunkSize = data at hlength
    split
    · -- the file has ended with a full chunk, or is empty
      rename_i hdata
      rw [hdata, List.length_nil] at hlength
      have hend : s.offset = s.totalSize := by
        rw [hs.size]
        omega
      refine ⟨⟨hbad, hend⟩, ?_⟩
      rw [hleft]
      exact Nat.le_add_left 1 _
    · rw [hs.source, ← hlength]
      constructor
      · refine ⟨hbad, fun hfull => ?_⟩
        have hne : data.length ≠ kChunkSize := of_decide_eq_false hfull
        rw [hs.size]
        simp only
        omega
      · rw [hleft]
        by_cases hfull : data.length = kChunkSize
        · have hdiv := Nat.div_eq_sub_div hpos
            (show kChunkSize ≤ contents.length - s.offset by omega)
          rw [Nat.sub_sub, ← hfull] at hdiv
          simp only [Download.stepsLeft, hfull, decide_true, if_true]
          rw [hfull] at hdiv
          omega
        · simp [Download.stepsLeft, hfull]

/-- An undisturbed step brings the handler nearer to its end. -/
theorem OnCourse.step {contents : Bytes} {d : Download} (h : OnCourse contents d)
    (hsound : Sound contents d) (collector : DiagnosticCollector) (bundleId : Bytes) :
    OnCourse contents (step collector bundleId {} d) ∧
      (step collector bundleId {} d).stepsLeft ≤ d.stepsLeft - 1 := by
  unfold BundleDownload.step
  split
  · rename_i hphase
    simp [OnCourse, hphase] at h
  · rename_i path totalSize hphase
    simp [OnCourse, hphase] at h
  · rename_i s hphase
    exact OnCourse.sendChunk hphase h hsound
  · rename_i s hphase
    have hs := hsound.sending s (.inr hphase)
    simp only [OnCourse, hphase] at h
    obtain ⟨hbad, hend⟩ := h
    have hall : payload d.written = contents := by
      refine hsound.carries.payload_prefix.eq_of_length ?_
      rw [← hs.position, hend, hs.size]
    refine ⟨⟨?_, hall⟩, by simp [Download.stepsLeft]⟩
    simp [endStatus, hbad, hend]
  · rename_i status hphase
    exact ⟨h, by simp [Download.stepsLeft, hphase]⟩

/-- A handler on course that has no step left has sent everything. -/
theorem OnCourse.finished {contents : Bytes} {d : Download} (h : OnCourse contents d)
    (hleft : d.stepsLeft = 0) : d.phase = .finished .ok ∧ payload d.written = contents := by
  unfold OnCourse at h
  unfold Download.stepsLeft at hleft
  split at h
  · rename_i s hphase
    simp only [hphase] at hleft
    split at hleft <;> simp at hleft
  · rename_i s hphase
    simp [hphase] at hleft
  · rename_i status hphase
    exact ⟨by rw [hphase, h.1], h.2⟩
  · exact h.elim

end EdgeScope.BundleDownload
