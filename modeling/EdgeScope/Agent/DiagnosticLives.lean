import EdgeScope.Agent.BundleRegistry
import EdgeScope.Disk.Overlay

/-!
# The diagnostic directory over the lives of the agent

The directory outlives the agent. A collector meets whatever was left there before it, works
around it, and takes its own archives with it when it is destroyed. The calls on a directory with
other contents are the calls on an empty one, beside these contents.
-/

namespace EdgeScope.DiagnosticCollector
open Text FileTree

def atop (base : FileTree) (s : DiagnosticCollector) : DiagnosticCollector :=
  { s with tree := s.tree.atop base }

def Staging.atop (base : FileTree) (st : Staging) : Staging := { st with tree := st.tree.atop base }

def CreateResult.atop (base : FileTree) (result : CreateResult) : CreateResult :=
  { result with collector := result.collector.atop base }

/-- A step that does not see the further contents. -/
def Framed (base : FileTree) (step : Staging → Staging) : Prop :=
  ∀ st, step (st.atop base) = (step st).atop base

section Steps

variable {base : FileTree} {env : BundleEnvironment} {logCollector : LogCollector}
  {staging : Path}

theorem Framed.andThen {step : Staging → Staging} (h : Framed base step) (st : Staging) :
    (st.atop base).andThen step = (st.andThen step).atop base := by
  unfold Staging.andThen
  have herror : (st.atop base).error = st.error := rfl
  rw [herror]
  cases st.error with
  | some error => rfl
  | none => exact h st

theorem framed_writeTextFile {path : Path} (h : base path = none) (contents : Bytes) :
    Framed base (writeTextFile env path contents) := by
  intro st
  unfold writeTextFile
  cases env.write path with
  | written => simp only [Staging.atop, atop_set h]
  | cut length => simp only [Staging.atop, atop_set h]
  | failed left => simp only [Staging.atop, atop_set h]

variable (hbase : ∀ p, staging <+: p → base p = none)

include hbase

theorem framed_file (name contents : Bytes) :
    Framed base (writeTextFile env (staging ++ [name]) contents) :=
  framed_writeTextFile (hbase _ (List.prefix_append ..)) contents

theorem framed_collectProcesses : Framed base (collectProcesses env staging) := by
  intro st
  unfold collectProcesses
  cases env.processes with
  | error error => rfl
  | ok processes => exact framed_file hbase _ _ st

theorem framed_collectNetwork : Framed base (collectNetwork env staging) :=
  fun st => framed_file hbase _ _ { st with
    failures := st.failures ++ failureText (ascii "interfaces") env.interfaces ++
      failureText (ascii "tcp_connections") env.connections }

theorem framed_createLogsDirectory : Framed base (createLogsDirectory env staging) := by
  intro st
  unfold createLogsDirectory
  split_ifs
  · rfl
  · simp only [Staging.atop, logsDirectory, atop_set (hbase _ (List.prefix_append ..))]

theorem framed_collectLog (source : LogSourceInfo) :
    Framed base (collectLog env logCollector staging source) := by
  intro st
  unfold collectLog
  split_ifs
  · split
    · rfl
    · exact framed_writeTextFile (hbase _ ((List.prefix_append ..).trans (List.prefix_append ..))) _
        st
  · rfl

theorem framed_collectLogs : Framed base (collectLogs env logCollector staging) := by
  intro st
  unfold collectLogs
  induction logCollector.listLogs env.isRegularFile generalizing st with
  | nil => rfl
  | cons source sources ih =>
    rw [List.foldl_cons, List.foldl_cons, (framed_collectLog hbase source).andThen, ih]

theorem framed_collect (metrics : SystemMetrics) :
    Framed base (collect env logCollector metrics staging) := by
  intro st
  unfold collect
  rw [(framed_file hbase _ _).andThen, (framed_file hbase _ _).andThen,
    (framed_collectProcesses hbase).andThen, (framed_collectNetwork hbase).andThen,
    (framed_createLogsDirectory hbase).andThen, (framed_collectLogs hbase).andThen]
  exact Framed.andThen (fun st => framed_file hbase _ _ st) _

end Steps

theorem framed_createTarGzip {base : FileTree} {archive : Path} (h : base archive = none)
    (env : BundleEnvironment) : Framed base (createTarGzip env archive) := by
  intro st
  unfold createTarGzip
  cases env.tar with
  | created contents => simp only [Staging.atop, atop_set h]
  | forkFailed => rfl
  | failed left => simp only [Staging.atop, atop_set h]

theorem removeOldBundles_atop {base : FileTree} {bundles : List StoredBundle}
    (h : ∀ b ∈ bundles, base b.path = none) (tree : FileTree) :
    removeOldBundles bundles (tree.atop base) =
      ((removeOldBundles bundles tree).1, (removeOldBundles bundles tree).2.atop base) := by
  induction bundles generalizing tree with
  | nil => rfl
  | cons bundle bundles ih =>
    rw [removeOldBundles, removeOldBundles]
    split_ifs
    · rw [← atop_set (h bundle List.mem_cons_self)]
      exact ih (fun b hb => h b (List.mem_cons_of_mem _ hb)) _
    · rfl

section Calls

variable {base : FileTree} {s : DiagnosticCollector} {id : Bytes}
  (hbundles : ∀ b ∈ s.bundles, base b.path = none)

include hbundles

theorem registerArchive_atop (hid : Fresh base id) (env : BundleEnvironment) (tree : FileTree)
    (bundle : DiagnosticBundleInfo) :
    registerArchive env id (tree.atop base) bundle (s.atop base) =
      (registerArchive env id tree bundle s).atop base := by
  have hfails : (⟨{ s with tree := (tree.atop base).set (archivePath id) none }, bundle,
      .error (ascii "failed to determine diagnostic archive size")⟩ : CreateResult) =
      CreateResult.atop base ⟨{ s with tree := tree.set (archivePath id) none }, bundle,
        .error (ascii "failed to determine diagnostic archive size")⟩ := by
    rw [← atop_set hid.archive]
    rfl
  unfold registerArchive
  rw [atop_apply hid.archive]
  cases env.fileSizeFails with
  | true => exact hfails
  | false =>
    cases tree (archivePath id) with
    | none => exact hfails
    | some node =>
      cases node with
      | directory => exact hfails
      | file contents =>
        have hpaths : ∀ b ∈ s.bundles ++ [⟨⟨id, archiveName id, contents.length, env.timestamp⟩,
            archivePath id⟩], base b.path = none := by
          intro b hb
          obtain hb | hb := List.mem_append.mp hb
          · exact hbundles b hb
          · rw [List.mem_singleton.mp hb]
            exact hid.archive
        simp only [atop, removeOldBundles_atop hpaths]
        rfl

theorem packBundle_atop (hid : Fresh base id) (env : BundleEnvironment) (metrics : SystemMetrics)
    (tree : FileTree) (bundle : DiagnosticBundleInfo) :
    packBundle env metrics id (tree.atop base) bundle (s.atop base) =
      (packBundle env metrics id tree bundle s).atop base := by
  have hsteps : ((collect env s.logCollector metrics (stagingPath id)
        ⟨tree.atop base, none, []⟩).andThen (createTarGzip env (archivePath id))) =
      ((collect env s.logCollector metrics (stagingPath id) ⟨tree, none, []⟩).andThen
        (createTarGzip env (archivePath id))).atop base := by
    rw [← (framed_createTarGzip hid.archive env).andThen,
      ← framed_collect hid.staging metrics ⟨tree, none, []⟩]
    rfl
  have hcollector : (s.atop base).logCollector = s.logCollector := rfl
  unfold packBundle
  simp only [hcollector, hsteps]
  generalize (collect env s.logCollector metrics (stagingPath id) ⟨tree, none, []⟩).andThen
    (createTarGzip env (archivePath id)) = st
  have htree : (st.atop base).tree.removeAll (stagingPath id) =
      (st.tree.removeAll (stagingPath id)).atop base := (atop_removeAll hid.staging st.tree).symm
  have herror : (st.atop base).error = st.error := rfl
  rw [htree, herror]
  cases st.error with
  | none => exact registerArchive_atop hbundles hid env _ bundle
  | some error =>
    simp only [← atop_set hid.archive]
    rfl

/-- A call leaves the further contents alone, and does otherwise what it does without them. -/
theorem createBundle_atop (env : BundleEnvironment) (metrics : SystemMetrics)
    (bundle : DiagnosticBundleInfo)
    (hid : prepareRoot env = .ok () → Fresh base (bundleId env.timestamp s.pid (s.sequence + 1))) :
    createBundle env metrics bundle (s.atop base) =
      (createBundle env metrics bundle s).atop base := by
  unfold createBundle
  cases hroot : prepareRoot env with
  | error error => rfl
  | ok root =>
    have hfresh := hid hroot
    have hstaging := hfresh.staging _ List.prefix_rfl
    simp only [atop]
    generalize bundleId env.timestamp s.pid (s.sequence + 1) = id at hfresh hstaging ⊢
    rw [atop_apply hstaging]
    cases env.createStaging with
    | some message => rfl
    | none =>
      cases s.tree (stagingPath id) with
      | some node => rfl
      | none =>
        rw [← atop_set hstaging]
        cases env.secureStaging with
        | some message =>
          simp only [← atop_removeAll hfresh.staging]
          rfl
        | none =>
          exact packBundle_atop (s := { s with sequence := s.sequence + 1 }) hbundles hfresh env
            metrics _ bundle

end Calls

def serve (s : DiagnosticCollector) :
    List BundleCall → DiagnosticCollector × List (DiagnosticBundleInfo × Except Bytes Unit)
  | [] => (s, [])
  | call :: calls =>
    let result := call.result s
    let (s, answers) := serve result.collector calls
    (s, (result.bundle, result.outcome) :: answers)

def destroy (s : DiagnosticCollector) : FileTree :=
  s.bundles.foldl (fun tree bundle => tree.set bundle.path none) s.tree

inductive Ending
  | stopped
  | killed
  deriving DecidableEq

/-- An agent from its start to its end. One that is killed, between two calls, has no time to
destroy its collector. -/
structure Life where
  pid : ℕ
  logCollector : LogCollector
  calls : List BundleCall
  ending : Ending

namespace Life

def start (life : Life) (directory : FileTree) : DiagnosticCollector :=
  (create life.pid life.logCollector).atop directory

def ledger (life : Life) : Ledger :=
  life.calls.foldl Ledger.step (Ledger.start life.pid life.logCollector)

def leave (directory : FileTree) (life : Life) : FileTree :=
  let s := (serve (life.start directory) life.calls).1
  match life.ending with
  | .stopped => s.destroy
  | .killed => s.tree

def left (life : Life) : List Created :=
  match life.ending with
  | .stopped => []
  | .killed => life.ledger.newest

theorem sound_ledger (life : Life) : life.ledger.Sound :=
  (Ledger.sound_start life.pid life.logCollector).run life.calls

end Life

namespace Ledger

theorem formed_prefix_formed (l : Ledger) (calls : List BundleCall) :
    l.formed <+: (calls.foldl Ledger.step l).formed := by
  induction calls generalizing l with
  | nil => exact List.prefix_rfl
  | cons call calls ih => exact (List.prefix_append ..).trans (ih (l.step call))

/-- The archives of the registry have paths that the calls have formed. -/
theorem Sound.path_formed {l : Ledger} (h : l.Sound) {b : StoredBundle}
    (hb : b ∈ l.collector.bundles) : ∃ id ∈ l.formed, b.path = archivePath id := by
  rw [h.bundles] at hb
  obtain ⟨c, hc, rfl⟩ := List.mem_map.mp hb
  have hcreated := mem_of_mem_rtake hc
  exact ⟨c.stored.info.id, h.returned.subset (List.mem_map_of_mem hcreated), h.paths c hcreated⟩

/-- A life among further contents is the life in an empty directory beside them. -/
theorem Sound.serve_atop {l : Ledger} (h : l.Sound) {base : FileTree} (calls : List BundleCall)
    (hfresh : ∀ id ∈ (calls.foldl Ledger.step l).formed, Fresh base id) :
    serve (l.collector.atop base) calls =
      ((calls.foldl Ledger.step l).collector.atop base, (serve l.collector calls).2) := by
  induction calls generalizing l with
  | nil => rfl
  | cons call calls ih =>
    have hbundles : ∀ b ∈ l.collector.bundles, base b.path = none := by
      intro b hb
      obtain ⟨id, hid, hpath⟩ := h.path_formed hb
      rw [hpath]
      exact (hfresh id ((l.formed_prefix_formed (call :: calls)).subset hid)).archive
    have hid (hroot : prepareRoot call.env = .ok ()) :
        Fresh base (bundleId call.env.timestamp l.collector.pid (l.collector.sequence + 1)) := by
      refine hfresh _ (((l.step call).formed_prefix_formed calls).subset ?_)
      simp only [Ledger.step, BundleCall.formed, hroot]
      exact List.mem_append_right _ List.mem_cons_self
    have hcall : call.result (l.collector.atop base) = (call.result l.collector).atop base :=
      createBundle_atop hbundles call.env call.metrics call.bundle hid
    have hrest := ih (h.step call).1 hfresh
    rw [serve, serve, hcall]
    simp only [List.foldl_cons]
    rw [show ((call.result l.collector).atop base).collector =
      (l.step call).collector.atop base from rfl, hrest]
    rfl

end Ledger

theorem foldl_set_none (paths : List StoredBundle) (tree : FileTree) (p : Path) :
    paths.foldl (fun tree bundle => tree.set bundle.path none) tree p =
      if p ∈ paths.map (·.path) then none else tree p := by
  induction paths generalizing tree with
  | nil => rfl
  | cons bundle paths ih =>
    rw [List.foldl_cons, ih]
    by_cases hp : p = bundle.path
    · simp [hp]
    · simp [hp, set_of_ne hp]

namespace Life

variable {life : Life} {directory : FileTree}
  (hfresh : ∀ id ∈ life.ledger.formed, Fresh directory id)

include hfresh

theorem serve_start : serve (life.start directory) life.calls =
    (life.ledger.collector.atop directory, (serve (life.start .empty) life.calls).2) :=
  (Ledger.sound_start life.pid life.logCollector).serve_atop life.calls hfresh

/-- A life leaves what was there before it, and its own archives where it was killed. -/
theorem leave_eq_some_iff (p : Path) (node : Node) : life.leave directory p = some node ↔
    directory p = some node ∨ ∃ c ∈ life.left, c.stored.path = p ∧ .file c.contents = node := by
  have hsound := life.sound_ledger
  have hnone {b : StoredBundle} (hb : b ∈ life.ledger.collector.bundles) :
      directory b.path = none := by
    obtain ⟨id, hid, hpath⟩ := hsound.path_formed hb
    rw [hpath]
    exact (hfresh id hid).archive
  have hmem {c : Created} (hc : c ∈ life.ledger.newest) :
      c.stored ∈ life.ledger.collector.bundles := by
    rw [hsound.bundles]
    exact List.mem_map_of_mem hc
  unfold leave left
  rw [serve_start hfresh]
  cases life.ending with
  | stopped =>
    have hdestroy : destroy (life.ledger.collector.atop directory) p = directory p := by
      have htree : (life.ledger.collector.atop directory).tree =
        life.ledger.collector.tree.atop directory := rfl
      rw [destroy, foldl_set_none, htree]
      split_ifs with hp
      · obtain ⟨b, hb, rfl⟩ := List.mem_map.mp hp
        exact (hnone hb).symm
      · -- nothing is at a path that the registry does not know
        have hp' : life.ledger.collector.tree p = none := by
          refine Option.eq_none_iff_forall_not_mem.mpr fun node hnode => hp ?_
          obtain ⟨c, hc, rfl, -⟩ := (hsound.disk p node).mp hnode
          exact List.mem_map_of_mem (hmem hc)
        rw [FileTree.atop, hp', Option.none_or]
    simp only [hdestroy, List.not_mem_nil, false_and, exists_false, or_false]
  | killed =>
    have hapart : life.ledger.collector.tree p = none ∨ directory p = none := by
      cases hp : life.ledger.collector.tree p with
      | none => exact .inl rfl
      | some node =>
        obtain ⟨c, hc, rfl, -⟩ := (hsound.disk p node).mp hp
        exact .inr (hnone (hmem hc))
    exact (atop_eq_some_iff hapart).trans (or_congr_right (hsound.disk p node))

end Life

theorem bundleId_injective {t t' pid pid' n n' : ℕ} (h : bundleId t pid n = bundleId t' pid' n') :
    t = t' ∧ pid = pid' ∧ n = n' := by
  have hdash (m : ℕ) : (45 : Byte) ∉ decimal m := fun hm => by
    have := isDigit_of_mem_decimal hm
    simp [isDigit] at this
  have hparts (t pid n : ℕ) : terminated 45 (bundleId t pid n) = [decimal t, decimal pid] := by
    have hsplit : bundleId t pid n = decimal t ++ 45 :: (decimal pid ++ 45 :: decimal n) := by
      simp [bundleId, ascii, charByte]
    rw [hsplit, terminated_append_cons (hdash t), terminated_append_cons (hdash pid),
      terminated_of_notMem (hdash n)]
  have hterminated := congrArg (terminated 45) h
  rw [hparts, hparts, List.cons.injEq, List.cons.injEq] at hterminated
  exact ⟨decimal_injective hterminated.1, decimal_injective hterminated.2.1, bundleId_sequence h⟩

namespace Ledger

theorem Sound.pid_step {l : Ledger} (h : l.Sound) (call : BundleCall) :
    (l.step call).collector.pid = l.collector.pid := by
  have hcollector : (l.step call).collector = (call.result l.collector).collector := rfl
  rw [hcollector, BundleCall.result]
  obtain ⟨error, -, hresult⟩ | ⟨-, error, hresult⟩ | ⟨-, contents, hresult⟩ :=
    createBundle_cases call.env call.metrics call.bundle (h.fresh call.env.timestamp)
  · rw [hresult]
  · rw [hresult]
  · rw [hresult]
    rfl

theorem Sound.formed_eq {l : Ledger} (h : l.Sound) {calls : List BundleCall} {id : Bytes}
    (hid : id ∈ (calls.foldl Ledger.step l).formed) : id ∈ l.formed ∨
      ∃ call ∈ calls, ∃ n, id = bundleId call.env.timestamp l.collector.pid n := by
  induction calls generalizing l with
  | nil => exact .inl hid
  | cons call calls ih =>
    obtain hid | ⟨call', hcall', n, rfl⟩ := ih (h.step call).1 hid
    · obtain hid | hid := List.mem_append.mp hid
      · exact .inl hid
      · right
        unfold BundleCall.formed at hid
        split at hid
        · cases hid
        · exact ⟨call, List.mem_cons_self, _, List.mem_singleton.mp hid⟩
    · rw [h.pid_step call]
      exact .inr ⟨call', List.mem_cons_of_mem _ hcall', n, rfl⟩

end Ledger

namespace Life

/-- No id of the one is an id of the other. -/
def Apart (life later : Life) : Prop := ∀ id ∈ later.ledger.formed, id ∉ life.ledger.formed

/-- Two lives with one pid make no call in the same second. -/
theorem apart_of_timestamp {life later : Life}
    (h : life.pid = later.pid → ∀ call ∈ life.calls, ∀ call' ∈ later.calls,
      call.env.timestamp ≠ call'.env.timestamp) : life.Apart later := by
  intro id hid hid'
  obtain hnil | ⟨call, hcall, n, rfl⟩ :=
    (Ledger.sound_start life.pid life.logCollector).formed_eq hid'
  · cases hnil
  · obtain hnil | ⟨call', hcall', n', hsame⟩ :=
      (Ledger.sound_start later.pid later.logCollector).formed_eq hid
    · cases hnil
    · obtain ⟨htime, hpid, -⟩ := bundleId_injective hsame
      exact h hpid call hcall call' hcall' htime

/-- What a life leaves is in nobody's way. -/
theorem fresh_leave {life : Life} {directory : FileTree}
    (hfresh : ∀ id ∈ life.ledger.formed, Fresh directory id) {id : Bytes}
    (hid : Fresh directory id) (hnew : id ∉ life.ledger.formed) :
    Fresh (life.leave directory) id := by
  have hleft {c : Created} (hc : c ∈ life.left) : c ∈ life.ledger.newest := by
    unfold left at hc
    split at hc
    · cases hc
    · exact hc
  have hsound := life.sound_ledger
  constructor
  · intro p hp
    refine Option.eq_none_iff_forall_not_mem.mpr fun node hnode => ?_
    obtain hbase | ⟨c, hc, rfl, -⟩ := (leave_eq_some_iff hfresh p node).mp hnode
    · rw [hid.staging p hp] at hbase
      cases hbase
    · rw [hsound.paths c (mem_of_mem_rtake (hleft hc))] at hp
      exact stagingPath_not_prefix_archivePath _ _ hp
  · refine Option.eq_none_iff_forall_not_mem.mpr fun node hnode => ?_
    obtain hbase | ⟨c, hc, hpath, -⟩ := (leave_eq_some_iff hfresh _ node).mp hnode
    · rw [hid.archive] at hbase
      cases hbase
    · have hcreated := mem_of_mem_rtake (hleft hc)
      rw [hsound.paths c hcreated] at hpath
      apply hnew
      rw [← archivePath_injective hpath]
      exact hsound.returned.subset (List.mem_map_of_mem hcreated)

end Life

/-- However many agents have used the directory one after another, it holds what was there before
the first, and the newest archives of each that was killed. An agent that is stopped leaves
nothing. No agent is disturbed by what it finds: it answers every call, and keeps its registry, as
in an empty directory. -/
theorem lives_directory (directory : FileTree) (lives : List Life)
    (hfresh : ∀ life ∈ lives, ∀ id ∈ life.ledger.formed, Fresh directory id)
    (hapart : lives.Pairwise Life.Apart) :
    (∀ p node, lives.foldl Life.leave directory p = some node ↔ directory p = some node ∨
      ∃ life ∈ lives, ∃ c ∈ life.left, c.stored.path = p ∧ .file c.contents = node) ∧
    ∀ before life after, lives = before ++ life :: after →
      let run := serve (life.start (before.foldl Life.leave directory)) life.calls
      let alone := serve (life.start .empty) life.calls
      run.2 = alone.2 ∧ run.1.bundles = alone.1.bundles := by
  induction lives generalizing directory with
  | nil =>
    refine ⟨fun p node => by simp, fun before life after h => ?_⟩
    exact absurd h (by simp)
  | cons life lives ih =>
    obtain ⟨hhead, htail⟩ := List.pairwise_cons.mp hapart
    have hlife := hfresh life List.mem_cons_self
    obtain ⟨hdirectory, hcalls⟩ := ih (life.leave directory)
      (fun later hlater id hid => Life.fresh_leave hlife
        (hfresh later (List.mem_cons_of_mem _ hlater) id hid)
        (hhead later hlater id hid)) htail
    constructor
    · intro p node
      rw [List.foldl_cons, hdirectory, Life.leave_eq_some_iff hlife, List.exists_mem_cons_iff,
        or_assoc]
    · rintro (_ | ⟨first, before⟩) life' after hlives
      · obtain ⟨rfl, rfl⟩ := List.cons.inj hlives
        have halone : (serve (life.start .empty) life.calls).1 =
            life.ledger.collector.atop .empty :=
          congrArg Prod.fst (Life.serve_start fun id _ => ⟨fun _ _ => rfl, rfl⟩)
        simp only [List.foldl_nil, Life.serve_start hlife, halone, true_and]
        rfl
      · obtain ⟨rfl, rfl⟩ := List.cons.inj hlives
        exact hcalls before life' after rfl

/-- A life of pid 7 with a successful call at each of these times. -/
def callsAt (timestamps : List ℕ) (ending : Ending) : Life where
  pid := 7
  logCollector := LogCollector.create []
  calls := timestamps.map fun timestamp =>
    ⟨{ BundleEnvironment.quiet (ascii "tar") with timestamp := timestamp },
      ⟨0, 0, 0, 0, 0, 0, 0, 0⟩, ⟨[], [], 0, 0⟩⟩
  ending := ending

/-- A pid that is used again, in the second in which it was used last, and once more. -/
theorem lives_directory_again :
    let lives := [callsAt [99, 100] .killed, callsAt [100] .killed, callsAt [200] .stopped]
    lives.foldl Life.leave .empty (archivePath (ascii "100-7-2")) = some (.file (ascii "tar")) ∧
      lives.foldl Life.leave .empty (archivePath (ascii "100-7-1")) = some (.file (ascii "tar")) ∧
      lives.foldl Life.leave .empty (archivePath (ascii "200-7-1")) = none := by
  intro lives
  have hapart : lives.Pairwise Life.Apart := by
    have hlast (timestamps : List ℕ) (hne : 200 ∉ timestamps) (ending : Ending) :
        (callsAt timestamps ending).Apart (callsAt [200] .stopped) := by
      refine Life.apart_of_timestamp fun _ call hcall call' hcall' => ?_
      obtain ⟨timestamp, htimestamp, rfl⟩ := List.mem_map.mp hcall
      rw [List.mem_singleton.mp hcall']
      rintro rfl
      exact hne htimestamp
    have hfirst : (callsAt [99, 100] .killed).Apart (callsAt [100] .killed) := by
      unfold Life.Apart
      decide +kernel
    simp only [lives, List.pairwise_cons, List.forall_mem_cons, List.not_mem_nil, false_implies,
      implies_true, List.Pairwise.nil, and_true]
    exact ⟨⟨hfirst, hlast _ (by decide) _⟩, hlast _ (by decide) _⟩
  have hdirectory :=
    (lives_directory .empty lives (fun _ _ _ _ => ⟨fun _ _ => rfl, rfl⟩) hapart).1
  have hfirst : (callsAt [99, 100] .killed).left =
      [⟨⟨⟨ascii "99-7-1", archiveName (ascii "99-7-1"), 3, 99⟩,
          archivePath (ascii "99-7-1")⟩, ascii "tar"⟩,
        ⟨⟨⟨ascii "100-7-2", archiveName (ascii "100-7-2"), 3, 100⟩,
          archivePath (ascii "100-7-2")⟩, ascii "tar"⟩] := by
    rfl
  have hsecond : (callsAt [100] .killed).left =
      [⟨⟨⟨ascii "100-7-1", archiveName (ascii "100-7-1"), 3, 100⟩,
        archivePath (ascii "100-7-1")⟩, ascii "tar"⟩] := by
    rfl
  refine ⟨?_, ?_, ?_⟩
  · rw [hdirectory]
    exact .inr ⟨_, List.mem_cons_self, _,
      hfirst ▸ List.mem_cons_of_mem _ List.mem_cons_self, rfl, rfl⟩
  · rw [hdirectory]
    exact .inr ⟨_, List.mem_cons_of_mem _ List.mem_cons_self, _,
      hsecond ▸ List.mem_cons_self, rfl, rfl⟩
  · refine Option.eq_none_iff_forall_not_mem.mpr fun node hnode => ?_
    obtain hempty | ⟨life, hlife, c, hc, hpath, -⟩ := (hdirectory _ node).mp hnode
    · cases hempty
    · simp only [lives, List.mem_cons, List.not_mem_nil, or_false] at hlife
      obtain rfl | rfl | rfl := hlife
      · rw [hfirst] at hc
        obtain rfl | rfl := List.mem_pair.mp hc
        · exact absurd hpath (by decide)
        · exact absurd hpath (by decide)
      · rw [hsecond] at hc
        rw [List.mem_singleton.mp hc] at hpath
        exact absurd hpath (by decide)
      · cases hc

end EdgeScope.DiagnosticCollector
