import EdgeScope.Agent.BundleContents
import EdgeScope.Client.RpcWorker

/-!
# A download beside other requests

The handler of one download takes its steps between any `CreateBundle` calls of other
requests. A call holds the lock of the registry from beginning to end; what the handler can
see of it outside the lock is the removal of the oldest archive, and there the call takes its
place in the order of steps.
-/

namespace EdgeScope.DiagnosticDownload
open Text FileTree DiagnosticCollector BundleDownload

structure System where
  ledger : Ledger
  download : Download

inductive Action
  | create (call : BundleCall)
  | serve (m : Moment)

def System.step (bundleId : Bytes) (s : System) : Action → System
  | .create call => { s with ledger := s.ledger.step call }
  | .serve m =>
    { s with download := BundleDownload.step s.ledger.collector bundleId m s.download }

def System.run (bundleId : Bytes) (s : System) (actions : List Action) : System :=
  actions.foldl (System.step bundleId) s

structure Continues (l l' : Ledger) : Prop where
  sound : l'.Sound
  created : l.created <+: l'.created

theorem Continues.refl {l : Ledger} (h : l.Sound) : Continues l l := ⟨h, List.prefix_rfl⟩

theorem Continues.step {l l' : Ledger} (h : Continues l l') (call : BundleCall) :
    Continues l (l'.step call) where
  sound := (h.sound.step call).1
  created := h.created.trans (List.prefix_append ..)

theorem Continues.run {l l' : Ledger} (h : Continues l l') (calls : List BundleCall) :
    Continues l (calls.foldl Ledger.step l') := by
  induction calls generalizing l' with
  | nil => exact h
  | cons call calls ih => exact ih (h.step call)

theorem Continues.mem {l l' : Ledger} (h : Continues l l') {c : Created} (hc : c ∈ l.created) :
    c ∈ l'.created :=
  h.created.subset hc

theorem eq_of_id_eq {l : Ledger} (h : l.Sound) {c c' : Created} (hc : c ∈ l.created)
    (hc' : c' ∈ l.created) (hid : c.stored.info.id = c'.stored.info.id) : c = c' :=
  List.inj_on_of_nodup_map h.ids_nodup hc hc' hid

theorem getBundlePath_created {l : Ledger} (h : l.Sound) {id : Bytes} {path : Path} {size : ℕ}
    (hfound : getBundlePath l.collector id = .ok (path, size)) :
    ∃ c ∈ l.created, c.stored.info.id = id ∧ c.stored.path = path ∧ size = c.contents.length := by
  obtain ⟨b, hb, hid, hpath, hsize⟩ := (getBundlePath_eq_ok_iff h.bundles_nodup ..).mp hfound
  rw [h.bundles] at hb
  obtain ⟨c, hc, rfl⟩ := List.mem_map.mp hb
  have hcreated := mem_of_mem_rtake hc
  exact ⟨c, hcreated, hid, hpath, hsize.symm.trans (h.sizes c hcreated)⟩

theorem contents_of_path {l : Ledger} (h : l.Sound) {c : Created} (hc : c ∈ l.created)
    {contents : Bytes} (htree : l.collector.tree c.stored.path = some (.file contents)) :
    contents = c.contents := by
  obtain ⟨c', hc', hpath, hcontents⟩ := (h.disk _ _).mp htree
  have hcreated := mem_of_mem_rtake hc'
  obtain rfl := List.inj_on_of_nodup_map (Ledger.nodup_paths h.ids_nodup h.paths) hcreated hc hpath
  exact (Node.file.inj hcontents).symm

/-- Nothing of the bundle is known yet, or the download was refused. -/
def Idle (d : Download) : Prop :=
  d.written = [] ∧ (d.phase = .requested ∨ ∃ status, d.phase = .finished status)

structure Serves (c : Created) (d : Download) : Prop where
  sound : Sound c.contents d
  started : d.phase ≠ .requested
  found : ∀ path totalSize, d.phase = .found path totalSize →
    path = c.stored.path ∧ totalSize = c.contents.length ∧ d.written = []

theorem Serves.of_not_early {c : Created} {d : Download} (h : Sound c.contents d)
    (hphase : ¬ d.phase.Early) : Serves c d where
  sound := h
  started hrequested := by simp [hrequested, Phase.Early] at hphase
  found path totalSize hfound := by simp [hfound, Phase.Early] at hphase

theorem serves_lookUp {l : Ledger} (h : l.Sound) (bundleId : Bytes) {d : Download}
    (hwritten : d.written = []) :
    let d' := { d with phase := lookUp l.collector bundleId }
    Idle d' ∨ ∃ c ∈ l.created, c.stored.info.id = bundleId ∧ Serves c d' := by
  intro d'
  obtain ⟨status, hlookUp⟩ | ⟨path, totalSize, hget, hlookUp⟩ := lookUp_cases l.collector bundleId
  · exact .inl ⟨hwritten, .inr ⟨status, hlookUp⟩⟩
  · obtain ⟨c, hc, hid, hpath, hsize⟩ := getBundlePath_created h hget
    refine .inr ⟨c, hc, hid, ?_, ?_, ?_⟩
    · exact sound_of_written_eq_nil _ hwritten fun s => by simp [d', hlookUp]
    · simp [d', hlookUp]
    · intro path' totalSize' hphase
      simp only [d', hlookUp, Phase.found.injEq] at hphase
      obtain ⟨rfl, rfl⟩ := hphase
      exact ⟨hpath.symm, hsize, hwritten⟩

/-- What is opened at the path of an entry is its archive. -/
theorem Serves.step {l : Ledger} (h : l.Sound) {c : Created} (hc : c ∈ l.created)
    {d : Download} (hserves : Serves c d) (bundleId : Bytes) (m : Moment) :
    Serves c (BundleDownload.step l.collector bundleId m d) := by
  by_cases hearly : d.phase.Early
  · cases hphase : d.phase with
    | requested => exact absurd hphase hserves.started
    | found path totalSize =>
      obtain ⟨rfl, rfl, hwritten⟩ := hserves.found path totalSize hphase
      simp only [BundleDownload.step, hphase]
      obtain ⟨status, hopen⟩ | ⟨contents, htree, hopen⟩ :=
        openArchive_cases l.collector.tree m c.stored.path c.contents.length
      · refine .of_not_early (sound_of_written_eq_nil _ hwritten fun s => ?_) ?_
        · simp [hopen]
        · simp [hopen, Phase.Early]
      · obtain rfl := contents_of_path h hc htree
        refine .of_not_early ⟨hserves.sound.carries, fun s hs => ?_⟩ ?_
        · simp only [hopen, Phase.sending.injEq, reduceCtorEq, or_false] at hs
          exact hs ▸ ⟨rfl, rfl, by rw [hwritten]; rfl⟩
        · simp [hopen, Phase.Early]
    | _ => simp [hphase, Phase.Early] at hearly
  · exact .of_not_early (hserves.sound.step hearly ..) (step_not_early hearly _ _ _)

structure Invariant (bundleId : Bytes) (s : System) : Prop where
  sound : s.ledger.Sound
  serves : Idle s.download ∨
    ∃ c ∈ s.ledger.created, c.stored.info.id = bundleId ∧ Serves c s.download

theorem invariant_start {l : Ledger} (h : l.Sound) (bundleId : Bytes) :
    Invariant bundleId ⟨l, BundleDownload.start⟩ :=
  ⟨h, .inl ⟨rfl, .inl rfl⟩⟩

namespace Invariant

variable {bundleId : Bytes} {s : System}

theorem step (h : Invariant bundleId s) (action : Action) :
    Invariant bundleId (s.step bundleId action) := by
  cases action with
  | create call =>
    refine ⟨(h.sound.step call).1, ?_⟩
    obtain hidle | ⟨c, hc, hserves⟩ := h.serves
    · exact .inl hidle
    · exact .inr ⟨c, ((Continues.refl h.sound).step call).mem hc, hserves⟩
  | serve m =>
    refine ⟨h.sound, ?_⟩
    obtain ⟨hwritten, hrequested | ⟨status, hfinished⟩⟩ | ⟨c, hc, hid, hserves⟩ := h.serves
    · simp only [System.step, BundleDownload.step, hrequested]
      exact serves_lookUp h.sound bundleId hwritten
    · simp only [System.step, BundleDownload.step, hfinished]
      exact .inl ⟨hwritten, .inr ⟨status, hfinished⟩⟩
    · exact .inr ⟨c, hc, hid, hserves.step h.sound hc bundleId m⟩

theorem run (h : Invariant bundleId s) (actions : List Action) :
    Invariant bundleId (s.run bundleId actions) := by
  induction actions generalizing s with
  | nil => exact h
  | cons action actions ih => exact ih (h.step action)

theorem carries (h : Invariant bundleId s) {delivered : List DiagnosticChunk}
    (hdelivered : delivered <+: s.download.written) :
    delivered = [] ∨ ∃ c ∈ s.ledger.created, c.stored.info.id = bundleId ∧
      Carries c.contents delivered := by
  obtain ⟨hwritten, -⟩ | ⟨c, hc, hid, hserves⟩ := h.serves
  · rw [hwritten] at hdelivered
    exact .inl (List.prefix_nil.mp hdelivered)
  · exact .inr ⟨c, hc, hid, hserves.sound.carries.of_prefix hdelivered⟩

end Invariant

theorem continues_run {l : Ledger} {bundleId : Bytes} {s : System} (h : Continues l s.ledger)
    (actions : List Action) : Continues l (s.run bundleId actions).ledger := by
  induction actions generalizing s with
  | nil => exact h
  | cons action actions ih =>
    refine ih ?_
    cases action with
    | create call => exact h.step call
    | serve m => exact h

/-- The chunks delivered for an entry that exists when the download is requested. -/
theorem carries_of_entry {l : Ledger} (h : l.Sound) {c : Created} (hc : c ∈ l.created)
    (actions : List Action) {delivered : List DiagnosticChunk}
    (hdelivered : delivered <+:
      (System.run c.stored.info.id ⟨l, BundleDownload.start⟩ actions).download.written) :
    Carries c.contents delivered := by
  have hrun := (invariant_start h c.stored.info.id).run actions
  obtain rfl | ⟨c', hc', hid, hcarries⟩ := hrun.carries hdelivered
  · exact .nil c.contents
  · have hc : c ∈ (System.run c.stored.info.id ⟨l, BundleDownload.start⟩ actions).ledger.created :=
      (continues_run (.refl h) actions).mem hc
    rwa [eq_of_id_eq hrun.sound hc hc' hid.symm]

def Action.isServe : Action → Bool
  | .create _ => false
  | .serve _ => true

/-- Undisturbed steps, whatever is created between them, bring the handler to its end. -/
theorem onCourse_run (bundleId : Bytes) {contents : Bytes} {actions : List Action}
    (hquiet : ∀ m, .serve m ∈ actions → m = {}) {s : System}
    (h : OnCourse contents s.download) (hsound : Sound contents s.download) :
    OnCourse contents (s.run bundleId actions).download ∧
      (s.run bundleId actions).download.stepsLeft ≤
        s.download.stepsLeft - actions.countP Action.isServe := by
  induction actions generalizing s with
  | nil => exact ⟨h, le_rfl⟩
  | cons action actions ih =>
    have hrest (m : Moment) (hm : .serve m ∈ actions) : m = {} :=
      hquiet m (List.mem_cons_of_mem _ hm)
    cases action with
    | create call => exact ih hrest h hsound
    | serve m =>
      obtain rfl := hquiet m List.mem_cons_self
      obtain ⟨hcourse, hleft⟩ := h.step hsound s.ledger.collector bundleId
      obtain ⟨hend, hcount⟩ := ih (s := s.step bundleId (.serve {})) hrest hcourse
        (hsound.step h.not_early ..)
      refine ⟨hend, hcount.trans ?_⟩
      rw [List.countP_cons_of_pos rfl]
      simp only [System.step]
      omega

theorem run_creates (bundleId : Bytes) (s : System) (calls : List BundleCall)
    (actions : List Action) :
    s.run bundleId (calls.map .create ++ actions) =
      System.run bundleId { s with ledger := calls.foldl Ledger.step s.ledger } actions := by
  induction calls generalizing s with
  | nil => rfl
  | cons call calls ih => exact ih (s.step bundleId (.create call))

theorem id_ne_nil {l : Ledger} (h : l.Sound) {c : Created} (hc : c ∈ l.created) :
    c.stored.info.id ≠ [] := by
  obtain ⟨t, n, -, hid⟩ := h.formed _ (h.returned.subset (List.mem_map_of_mem hc))
  rw [hid]
  simp [bundleId, decimal_ne_nil]

theorem getBundlePath_of_continues {l l' : Ledger} (h : l.Sound) (hcontinues : Continues l l')
    {c : Created} (hc : c ∈ l.created)
    (hregistered : ∃ b ∈ l'.collector.bundles, b.info.id = c.stored.info.id) :
    getBundlePath l.collector c.stored.info.id = .ok (c.stored.path, c.contents.length) := by
  obtain ⟨before, after, hcreated⟩ := List.append_of_mem hc
  obtain ⟨extra, hextra⟩ := hcontinues.created
  rw [hcreated, List.append_assoc, List.cons_append] at hextra
  obtain ⟨b, hb, hid⟩ := hregistered
  have hlater := (getBundlePath_eq_ok_iff hcontinues.sound.bundles_nodup ..).mpr
    ⟨b, hb, hid, rfl, rfl⟩
  rw [hcontinues.sound.lifetime hextra.symm] at hlater
  split at hlater
  · rename_i hlength
    rw [List.length_append] at hlength
    rw [h.lifetime hcreated, if_pos (by omega), h.sizes c hc]
  · simp at hlater

theorem tree_of_registered {l : Ledger} (h : l.Sound) {c : Created} (hc : c ∈ l.created)
    (hregistered : ∃ b ∈ l.collector.bundles, b.info.id = c.stored.info.id) :
    l.collector.tree c.stored.path = some (.file c.contents) := by
  obtain ⟨b, hb, hid⟩ := hregistered
  rw [h.bundles] at hb
  obtain ⟨e, he, rfl⟩ := List.mem_map.mp hb
  obtain rfl := eq_of_id_eq h (mem_of_mem_rtake he) hc hid
  exact (h.disk _ _).mpr ⟨e, he, rfl, rfl⟩

theorem undisturbed {l : Ledger} (h : l.Sound) {c : Created} (hc : c ∈ l.created)
    (first second : List BundleCall) (rest : List Action)
    (hregistered : ∃ b ∈ (second.foldl Ledger.step (first.foldl Ledger.step l)).collector.bundles,
      b.info.id = c.stored.info.id)
    (hquiet : ∀ m, .serve m ∈ rest → m = {})
    (hrounds : c.contents.length / kChunkSize + 3 ≤ rest.countP Action.isServe) :
    let d := (System.run c.stored.info.id ⟨l, BundleDownload.start⟩ (first.map .create ++
      .serve {} :: (second.map .create ++ .serve {} :: rest))).download
    d.phase = .finished .ok ∧ payload d.written = c.contents := by
  have hfirst := (Continues.refl h).run first
  have hsecond := (Continues.refl hfirst.sound).run second
  have hpath := getBundlePath_of_continues hfirst.sound hsecond (hfirst.mem hc) hregistered
  have htree := tree_of_registered hsecond.sound (hsecond.mem (hfirst.mem hc)) hregistered
  generalize hl₁ : first.foldl Ledger.step l = l₁ at *
  generalize hl₂ : second.foldl Ledger.step l₁ = l₂ at *
  have hlookUp : lookUp l₁.collector c.stored.info.id =
      .found c.stored.path c.contents.length := by
    rw [lookUp, if_neg (id_ne_nil h hc), hpath]
  have hopen : openArchive l₂.collector.tree {} c.stored.path c.contents.length =
      .sending ⟨c.contents, c.contents.length, 0, true, false⟩ := by
    rw [openArchive, htree]
  let d₀ : Download :=
    ⟨.sending ⟨c.contents, c.contents.length, 0, true, false⟩, [c.stored.path], []⟩
  -- the first two steps of the download find the bundle and open it
  have hrun : System.run c.stored.info.id ⟨l, BundleDownload.start⟩ (first.map .create ++
      .serve {} :: (second.map .create ++ .serve {} :: rest)) =
      System.run c.stored.info.id ⟨l₂, d₀⟩ rest := by
    have hfound : System.step c.stored.info.id ⟨l₁, BundleDownload.start⟩ (.serve {}) =
        ⟨l₁, ⟨.found c.stored.path c.contents.length, [], []⟩⟩ := by
      simp only [System.step, BundleDownload.step, BundleDownload.start, hlookUp]
    have hopened : System.step c.stored.info.id
        ⟨l₂, ⟨.found c.stored.path c.contents.length, [], []⟩⟩ (.serve {}) = ⟨l₂, d₀⟩ := by
      simp only [System.step, BundleDownload.step, hopen, d₀, List.nil_append]
    rw [run_creates, hl₁, System.run, List.foldl_cons, hfound, ← System.run, run_creates, hl₂,
      System.run, List.foldl_cons, hopened, ← System.run]
  have hsound : Sound c.contents d₀ :=
    ⟨.nil c.contents, fun s hs => by
      simp only [d₀, Phase.sending.injEq, reduceCtorEq, or_false] at hs
      exact hs ▸ ⟨rfl, rfl, rfl⟩⟩
  have hcourse : OnCourse c.contents d₀ := ⟨rfl, by simp⟩
  obtain ⟨hend, hleft⟩ := onCourse_run c.stored.info.id hquiet (s := ⟨l₂, d₀⟩)
    hcourse hsound
  have hstart : d₀.stepsLeft = c.contents.length / kChunkSize + 3 := by
    simp [d₀, Download.stepsLeft]
  rw [hrun]
  exact hend.finished (by simp only [hstart] at hleft; omega)

/-- The worker, having been promised the bundle `created`; local writes succeed. -/
def worker (created : DiagnosticBundleInfo) (destination : Option Bytes)
    (delivered : List DiagnosticChunk) (status : Status) : RpcWorker.DownloadResult :=
  RpcWorker.createAndDownloadDiagnostic destination (.ok created) true (delivered.map (·, .kept))
    .kept status

theorem inSequence_of_pieces {announced received : ℕ} {contents : Bytes}
    {chunks : List DiagnosticChunk}
    (hpieces : Pieces kChunkSize contents received (chunkPieces chunks))
    (htotal : ∀ chunk ∈ chunks, chunk.totalSizeBytes = announced) :
    RpcWorker.InSequence announced received chunks := by
  induction chunks generalizing received with
  | nil => trivial
  | cons chunk chunks ih =>
    obtain ⟨hoffset, -, -, -, hrest⟩ := hpieces
    refine ⟨hoffset, htotal chunk List.mem_cons_self, ?_⟩
    exact ih hrest fun chunk' h => htotal chunk' (List.mem_cons_of_mem _ h)

/-- Of chunks of the bundle the worker makes a success exactly when the call has ended well and
they are the whole of it. -/
theorem worker_eq (destination : Option Bytes) {created : DiagnosticBundleInfo}
    {contents : Bytes} {delivered : List DiagnosticChunk} (h : Carries contents delivered)
    (hsize : created.sizeBytes = contents.length) (status : Status) :
    ∃ progress error, (∀ received, error ≠ .diagnosticReady received) ∧
      worker created destination delivered status =
        if status.code = .ok ∧ payload delivered = contents then
          ⟨some contents, progress, .diagnosticReady contents.length⟩
        else ⟨none, progress, error⟩ := by
  let inputs : List (DiagnosticChunk × CallOutcome) := delivered.map (·, .kept)
  have hfst : inputs.map Prod.fst = delivered := by simp [inputs, Function.comp_def]
  have htaken : RpcWorker.Taken created 0 inputs := by
    refine ⟨?_, by simp [inputs, CallOutcome.kept]⟩
    rw [hfst]
    exact inSequence_of_pieces h.consecutive fun chunk hc => (h.total chunk hc).trans hsize.symm
  have hcomplete : RpcWorker.Complete created inputs status ↔
      status.code = .ok ∧ payload delivered = contents := by
    simp only [RpcWorker.Complete, htaken, true_and, RpcWorker.received, hfst, hsize]
    exact and_congr_right fun _ => ⟨h.payload_prefix.eq_of_length, congrArg _⟩
  have hfile := ((RpcWorker.downloadDiagnosticBundle_spec created inputs).2 htaken).2
  refine ⟨(RpcWorker.downloadDiagnosticBundle created inputs).progress,
    RpcWorker.downloadError (RpcWorker.downloadDiagnosticBundle created inputs) status,
    RpcWorker.downloadError_ne _ status, ?_⟩
  have hworker : worker created destination delivered status =
      RpcWorker.createAndDownloadDiagnostic destination (.ok created) true inputs .kept status :=
    rfl
  simp only [hworker, RpcWorker.createAndDownloadDiagnostic_eq, hcomplete]
  split
  · rename_i hok
    rw [(OutputStream.close_file_eq_taken_iff _ _).mpr (.inl rfl), hfile, RpcWorker.received, hfst,
      hok.2, hsize]
  · rfl

/-- The worker asks for a bundle, and then downloads it while others create theirs. What it is
given is a part of the bundle; it makes a success of the whole bundle only, and of an
undisturbed download always. -/
theorem download_exact (pid : ℕ) (logCollector : LogCollector) (calls : List BundleCall)
    (call : BundleCall) (hcreated : (call.result
      (calls.foldl Ledger.step (Ledger.start pid logCollector)).collector).outcome = .ok ()) :
    let l := (calls ++ [call]).foldl Ledger.step (Ledger.start pid logCollector)
    let created := (call.result
      (calls.foldl Ledger.step (Ledger.start pid logCollector)).collector).bundle
    let contents := contentsAt l.collector.tree [created.filename]
    -- any schedule, any cut of the stream, any final status
    (∀ actions delivered, delivered <+:
        (System.run created.id ⟨l, BundleDownload.start⟩ actions).download.written →
      Carries contents delivered ∧
      ∀ destination status received,
        (worker created destination delivered status).outcome = .diagnosticReady received →
          status.code = .ok ∧ payload delivered = contents ∧
            (worker created destination delivered status).destination = some contents) ∧
    -- no disturbance, and the bundle is registered when it is opened
    (∀ (first second : List BundleCall) (rest : List Action) destination,
      (∃ b ∈ (second.foldl Ledger.step (first.foldl Ledger.step l)).collector.bundles,
        b.info.id = created.id) →
      (∀ m, .serve m ∈ rest → m = {}) →
      contents.length / kChunkSize + 3 ≤ rest.countP Action.isServe →
      let d := (System.run created.id ⟨l, BundleDownload.start⟩ (first.map .create ++
        .serve {} :: (second.map .create ++ .serve {} :: rest))).download
      d.phase = .finished .ok ∧
        (worker created destination d.written .ok).outcome = .diagnosticReady contents.length) ∧
    -- whichever id is asked for
    ∀ id actions delivered, delivered <+:
        (System.run id ⟨l, BundleDownload.start⟩ actions).download.written →
      delivered = [] ∨
        ∃ c ∈ (System.run id ⟨l, BundleDownload.start⟩ actions).ledger.created,
          c.stored.info.id = id ∧ Carries c.contents delivered := by
  intro l created contents
  set before := calls.foldl Ledger.step (Ledger.start pid logCollector) with hbefore
  have hl : l = before.step call := by simp only [l, List.foldl_append, List.foldl_cons,
    List.foldl_nil, ← hbefore]
  have hsound : l.Sound := (Ledger.sound_start pid logCollector).run (calls ++ [call])
  let c : Created := ⟨⟨created, [created.filename]⟩, contents⟩
  have hc : c ∈ l.created := by
    have hresult : (call.result before.collector).created =
        [⟨⟨created, [created.filename]⟩, contentsAt (before.step call).collector.tree
          [created.filename]⟩] := by
      rw [CreateResult.created, hcreated]
      rfl
    rw [hl, Ledger.step, hresult]
    refine List.mem_append_right _ (List.mem_singleton.mpr ?_)
    simp only [c, contents, hl]
  have hsize : created.sizeBytes = contents.length := hsound.sizes c hc
  refine ⟨fun actions delivered hdelivered => ?_, ?_, fun id actions delivered hdelivered =>
    ((invariant_start hsound id).run actions).carries hdelivered⟩
  · have hcarries : Carries contents delivered :=
      carries_of_entry hsound hc actions hdelivered
    refine ⟨hcarries, fun destination status received hready => ?_⟩
    obtain ⟨progress, error, herror, hworker⟩ :=
      worker_eq destination hcarries hsize status
    simp only [hworker] at hready ⊢
    split at hready
    · rename_i hok
      rw [if_pos hok]
      exact ⟨hok.1, hok.2, rfl⟩
    · exact absurd hready (herror received)
  · intro first second rest destination hregistered hquiet hrounds d
    obtain ⟨hfinished, hpayload⟩ := undisturbed hsound hc first second rest hregistered hquiet
      hrounds
    refine ⟨hfinished, ?_⟩
    have hcarries : Carries contents d.written :=
      carries_of_entry hsound hc _ List.prefix_rfl
    obtain ⟨progress, error, -, hworker⟩ :=
      worker_eq destination hcarries hsize .ok
    rw [hworker]
    rw [if_pos ⟨rfl, hpayload⟩]

def quietCall (archive : Bytes) : BundleCall :=
  ⟨.quiet archive, ⟨0, 0, 0, 0, 0, 0, 0, 0⟩, ⟨[], [], 0, 0⟩⟩

/-- Nothing fails, so the call leaves the archive. -/
theorem contentsAt_quietCall {l : Ledger} (h : l.Sound) (archive : Bytes) :
    contentsAt (l.step (quietCall archive)).collector.tree
      [((quietCall archive).result l.collector).bundle.filename] = archive := by
  let call := quietCall archive
  let s := l.collector
  let id := bundleId call.env.timestamp s.pid (s.sequence + 1)
  have hnone : bundleError call.env s.logCollector call.metrics (stagingPath id) = none := by
    have hentries : (bundleEntries call.env s.logCollector call.metrics).findSome?
        (entryError call.env (stagingPath id)) = none := by
      refine List.findSome?_eq_none_iff.mpr fun entry _ => ?_
      obtain ⟨path, _ | contents⟩ := entry <;> rfl
    rw [bundleError, packError, hentries]
    rfl
  have hresult : call.result s =
      DiagnosticCollector.registered call.env { s with sequence := s.sequence + 1 } id archive :=
    (createBundle_outcome (fun _ => archive) call.env call.metrics call.bundle
      (h.fresh call.env.timestamp)).2 hnone
  have hcollector : (l.step call).collector = (call.result s).collector := rfl
  have hfile := h.registered_tree call archive
  have hfilename : [(call.result s).bundle.filename] = archivePath id := by rw [hresult]; rfl
  rw [hfilename, hcollector, hresult, contentsAt, hfile]

/-- Two chunks, downloaded while two other bundles are created in the same second. -/
theorem download_exact_two_chunks :
    let archive := List.replicate (kChunkSize + 1) (0 : Byte)
    let l := Ledger.start 7 (LogCollector.create (ascii "/tmp/agent.log"))
    let created := ((quietCall archive).result l.collector).bundle
    let d := (System.run created.id ⟨l.step (quietCall archive), BundleDownload.start⟩
      [.create (quietCall [4]), .serve {}, .serve {}, .serve {}, .create (quietCall [5, 6]),
        .serve {}, .serve {}, .serve {}]).download
    (worker created none d.written .ok).outcome = .diagnosticReady (kChunkSize + 1) := by
  intro archive l created d
  have hlength : archive.length = kChunkSize + 1 := List.length_replicate
  have hcontents := contentsAt_quietCall (Ledger.sound_start 7 _ : l.Sound) archive
  have hexact := (download_exact 7 (LogCollector.create (ascii "/tmp/agent.log")) []
    (quietCall archive) (by decide +kernel)).2.1 [quietCall [4]] []
    [.serve {}, .create (quietCall [5, 6]), .serve {}, .serve {}, .serve {}] none
    (by decide +kernel) (by simp)
  simp only [List.nil_append, List.foldl_nil, List.foldl_cons, List.map_cons, List.map_nil,
    List.cons_append] at hexact
  rw [hcontents, hlength] at hexact
  exact (hexact (by decide)).2

end EdgeScope.DiagnosticDownload
