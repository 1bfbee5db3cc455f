import EdgeScope.Agent.BundleRegistry
import EdgeScope.Disk.Writes

/-!
# What a bundle holds

The collection is a list of entries, written in order until one fails. What `tar` packs is a
directory of exactly these entries: a source that could be read has its file, one that could not
has its line in `collection_errors.txt`.
-/

namespace EdgeScope.DiagnosticCollector
open Text FileTree

section Entries

variable (env : BundleEnvironment) (logCollector : LogCollector) (metrics : SystemMetrics)

def file (name contents : Bytes) : Entry := ([name], .file contents)

def processEntries : List Entry :=
  match env.processes with
  | .error _ => []
  | .ok processes => [file (ascii "processes.txt") (processesText env processes)]

/-- Reading a log of the list, for those which are there. -/
def logReport (source : LogSourceInfo) : Option (Except Bytes LogReadResult) :=
  if source.available then
    some ((logCollector.readLog env.openFile source.id kRecentLogLines []).mapError Prod.snd)
  else none

def logEntries (source : LogSourceInfo) : List Entry :=
  match logReport env logCollector source with
  | some (.ok result) =>
    [([ascii "recent_logs", source.id ++ ascii ".log"],
      .file (result.lines.flatMap (· ++ endLine)))]
  | _ => []

def logFailure (source : LogSourceInfo) : Bytes :=
  match logReport env logCollector source with
  | some report => failureText (ascii "log " ++ source.id) report
  | none => []

def failuresText : Bytes :=
  failureText (ascii "processes") env.processes ++
    failureText (ascii "interfaces") env.interfaces ++
    failureText (ascii "tcp_connections") env.connections ++
    (logCollector.listLogs env.isRegularFile).flatMap (logFailure env logCollector)

def collectedEntries : List Entry :=
  [file (ascii "system_info.txt") (systemInfoText env metrics)] ++
    [file (ascii "agent_version.txt") (ascii "1.0.0\n")] ++ processEntries env ++
    [file (ascii "network.txt") (networkText env)] ++ [([ascii "recent_logs"], .directory)] ++
    (logCollector.listLogs env.isRegularFile).flatMap (logEntries env logCollector)

def bundleEntries : List Entry :=
  collectedEntries env logCollector metrics ++
    [file (ascii "collection_errors.txt") (failuresText env logCollector)]

def entryError (staging : Path) : Entry → Option Bytes
  | (path, .file _) =>
    match env.write (staging ++ path) with
    | .written | .cut _ => none
    | .failed _ => some (ascii "failed to write diagnostic file: " ++ path.getLast?.getD [])
  | (_, .directory) =>
    if env.createLogsDirectoryFails then some (ascii "failed to create recent_logs directory")
    else none

/-- What of a text is in the file after a write without an error. -/
def onDisk (contents : Bytes) : WriteOutcome → Bytes
  | .cut length => contents.take length
  | _ => contents

def reached (staging : Path) (entry : Entry) : Entry :=
  match entry.2 with
  | .file contents => (entry.1, .file (onDisk contents (env.write (staging ++ entry.1))))
  | .directory => entry

end Entries

theorem reached_path (env : BundleEnvironment) (staging : Path) (entry : Entry) :
    (reached env staging entry).1 = entry.1 := by
  unfold reached
  split <;> rfl

theorem map_reached_paths (env : BundleEnvironment) (staging : Path) (entries : List Entry) :
    (entries.map (reached env staging)).map Prod.fst = entries.map Prod.fst := by
  rw [List.map_map]
  exact List.map_congr_left fun entry _ => reached_path env staging entry

theorem reached_of_written {env : BundleEnvironment} {staging path : Path}
    (h : env.write (staging ++ path) = .written) (node : Node) :
    reached env staging (path, node) = (path, node) := by
  cases node with
  | directory => rfl
  | file contents => simp only [reached, h, onDisk]

section Steps

variable {env : BundleEnvironment} {logCollector : LogCollector} {metrics : SystemMetrics}
  {staging : Path}

/-- The step writes these entries and notes these failures, unless an entry fails. -/
def Writes (env : BundleEnvironment) (staging : Path) (entries : List Entry) (failures : Bytes)
    (step : Staging → Staging) : Prop :=
  ∀ st, st.error = none →
    (step st).error = entries.findSome? (entryError env staging) ∧
    ((step st).error = none →
      (step st).tree = st.tree.write (placedIn staging (entries.map (reached env staging))) ∧
      (step st).failures = st.failures ++ failures)

theorem Staging.andThen_of_none {st : Staging} (h : st.error = none) (step : Staging → Staging) :
    st.andThen step = step st := by
  rw [Staging.andThen, h]

theorem Staging.andThen_of_error {st : Staging} {error : Bytes} (h : st.error = some error)
    (step : Staging → Staging) : st.andThen step = st := by
  rw [Staging.andThen, h]

theorem Writes.nothing (env : BundleEnvironment) (staging : Path) :
    Writes env staging [] [] id :=
  fun _ h => ⟨h, fun _ => ⟨rfl, (List.append_nil _).symm⟩⟩

theorem Writes.andThen {entries entries' : List Entry} {failures failures' : Bytes}
    {step step' : Staging → Staging} (h : Writes env staging entries failures step)
    (h' : Writes env staging entries' failures' step') :
    Writes env staging (entries ++ entries') (failures ++ failures')
      (fun st => (step st).andThen step') := by
  intro st hst
  obtain ⟨herror, hwritten⟩ := h st hst
  rw [List.findSome?_append, ← herror]
  beta_reduce
  cases hfirst : (step st).error with
  | some error =>
    rw [Staging.andThen_of_error hfirst, hfirst]
    exact ⟨rfl, fun hnone => by cases hnone⟩
  | none =>
    obtain ⟨htree, hfailures⟩ := hwritten hfirst
    obtain ⟨herror', hwritten'⟩ := h' (step st) hfirst
    rw [Staging.andThen_of_none hfirst]
    refine ⟨herror', fun hnone => ?_⟩
    obtain ⟨htree', hfailures'⟩ := hwritten' hnone
    rw [htree', hfailures', htree, hfailures, List.map_append, placedIn_append, write_append,
      List.append_assoc]
    exact ⟨rfl, rfl⟩

theorem writes_file (env : BundleEnvironment) (staging path : Path) (hpath : path ≠ [])
    (contents : Bytes) :
    Writes env staging [(path, .file contents)] []
      (writeTextFile env (staging ++ path) contents) := by
  intro st hst
  have hname : (staging ++ path).getLast? = path.getLast? :=
    List.getLast?_append_of_ne_nil _ hpath
  rw [List.findSome?_singleton, List.map_singleton, entryError, writeTextFile]
  simp only [reached]
  cases env.write (staging ++ path) with
  | written => exact ⟨hst, fun _ => ⟨rfl, (List.append_nil _).symm⟩⟩
  | cut length => exact ⟨hst, fun _ => ⟨rfl, (List.append_nil _).symm⟩⟩
  | failed left => exact ⟨by rw [hname], fun hnone => by cases hnone⟩

/-- A failure that is noted before the file is written. -/
theorem Writes.noting {entries : List Entry} {failures : Bytes} {step : Staging → Staging}
    (h : Writes env staging entries failures step) (text : Bytes) :
    Writes env staging entries (text ++ failures)
      (fun st => step { st with failures := st.failures ++ text }) := by
  intro st hst
  obtain ⟨herror, hwritten⟩ := h { st with failures := st.failures ++ text } hst
  refine ⟨herror, fun hnone => ?_⟩
  obtain ⟨htree, hfailures⟩ := hwritten hnone
  exact ⟨htree, by rw [hfailures, List.append_assoc]⟩

theorem Staging.foldl_of_error {α : Type} {st : Staging} {error : Bytes}
    (h : st.error = some error) (step : α → Staging → Staging) (values : List α) :
    values.foldl (fun st value => st.andThen (step value)) st = st := by
  induction values with
  | nil => rfl
  | cons value values ih => rw [List.foldl_cons, Staging.andThen_of_error h, ih]

theorem Writes.foldl {α : Type} {entries : α → List Entry} {failures : α → Bytes}
    {step : α → Staging → Staging}
    (h : ∀ value, Writes env staging (entries value) (failures value) (step value))
    (values : List α) :
    Writes env staging (values.flatMap entries) (values.flatMap failures)
      (fun st => values.foldl (fun st value => st.andThen (step value)) st) := by
  induction values with
  | nil => exact Writes.nothing env staging
  | cons value values ih =>
    intro st hst
    have hloop : (value :: values).foldl (fun st value => st.andThen (step value)) st =
        (step value st).andThen
          (fun st => values.foldl (fun st value => st.andThen (step value)) st) := by
      rw [List.foldl_cons, Staging.andThen_of_none hst]
      cases hfirst : (step value st).error with
      | none => rw [Staging.andThen_of_none hfirst]
      | some error =>
        rw [Staging.andThen_of_error hfirst, Staging.foldl_of_error hfirst]
    have hboth := (h value).andThen ih st hst
    beta_reduce at hboth ⊢
    rw [hloop]
    exact hboth

theorem writes_collectProcesses :
    Writes env staging (processEntries env) (failureText (ascii "processes") env.processes)
      (collectProcesses env staging) := by
  unfold processEntries collectProcesses failureText
  cases env.processes with
  | error error =>
    have h := (Writes.nothing env staging).noting
      (ascii "processes" ++ ascii ": " ++ error ++ endLine)
    simpa [List.append_assoc, ascii] using h
  | ok processes => exact writes_file env staging [ascii "processes.txt"] (by simp) _

theorem writes_collectNetwork :
    Writes env staging [file (ascii "network.txt") (networkText env)]
      (failureText (ascii "interfaces") env.interfaces ++
        failureText (ascii "tcp_connections") env.connections)
      (collectNetwork env staging) := by
  have h := (writes_file env staging [ascii "network.txt"] (by simp)
    (networkText env)).noting (failureText (ascii "interfaces") env.interfaces ++
      failureText (ascii "tcp_connections") env.connections)
  have hstep : collectNetwork env staging = fun st =>
      writeTextFile env (staging ++ [ascii "network.txt"]) (networkText env)
        { st with failures := st.failures ++ (failureText (ascii "interfaces") env.interfaces ++
          failureText (ascii "tcp_connections") env.connections) } := by
    funext st
    rw [collectNetwork, List.append_assoc]
  rw [List.append_nil] at h
  rw [hstep]
  exact h

theorem writes_createLogsDirectory :
    Writes env staging [([ascii "recent_logs"], .directory)] []
      (createLogsDirectory env staging) := by
  intro st hst
  rw [List.findSome?_singleton, entryError, createLogsDirectory]
  split_ifs
  · exact ⟨rfl, fun hnone => by cases hnone⟩
  · exact ⟨hst, fun _ => ⟨rfl, (List.append_nil _).symm⟩⟩

theorem writes_collectLog (source : LogSourceInfo) :
    Writes env staging (logEntries env logCollector source) (logFailure env logCollector source)
      (collectLog env logCollector staging source) := by
  unfold logEntries logFailure logReport
  cases hav : source.available with
  | false =>
    have hskip : collectLog env logCollector staging source = id := by
      funext st
      simp [collectLog, hav]
    rw [hskip]
    exact Writes.nothing env staging
  | true =>
    cases hread : logCollector.readLog env.openFile source.id kRecentLogLines [] with
    | error error =>
      have hnote : collectLog env logCollector staging source = fun st =>
          id { st with failures := st.failures ++
            failureText (α := LogReadResult) (ascii "log " ++ source.id) (.error error.2) } := by
        funext st
        simp [collectLog, hav, hread, failureText]
      rw [hnote]
      have h := (Writes.nothing env staging).noting
        (failureText (α := LogReadResult) (ascii "log " ++ source.id) (.error error.2))
      rwa [List.append_nil] at h
    | ok result =>
      have hwrite : collectLog env logCollector staging source =
          writeTextFile env (staging ++ [ascii "recent_logs", source.id ++ ascii ".log"])
            (result.lines.flatMap (· ++ endLine)) := by
        funext st
        simp [collectLog, hav, hread, logsDirectory]
      rw [hwrite]
      exact writes_file env staging _ (by simp) _

theorem writes_collectLogs (logCollector : LogCollector) :
    Writes env staging
      ((logCollector.listLogs env.isRegularFile).flatMap (logEntries env logCollector))
      ((logCollector.listLogs env.isRegularFile).flatMap (logFailure env logCollector))
      (collectLogs env logCollector staging) :=
  Writes.foldl writes_collectLog _

def collectSources (env : BundleEnvironment) (logCollector : LogCollector)
    (metrics : SystemMetrics) (staging : Path) (st : Staging) : Staging :=
  writeTextFile env (staging ++ [ascii "system_info.txt"]) (systemInfoText env metrics) st
    |>.andThen (writeTextFile env (staging ++ [ascii "agent_version.txt"]) (ascii "1.0.0\n"))
    |>.andThen (collectProcesses env staging)
    |>.andThen (collectNetwork env staging)
    |>.andThen (createLogsDirectory env staging)
    |>.andThen (collectLogs env logCollector staging)

theorem writes_collectSources (env : BundleEnvironment) (logCollector : LogCollector)
    (metrics : SystemMetrics) (staging : Path) :
    Writes env staging (collectedEntries env logCollector metrics) (failuresText env logCollector)
      (collectSources env logCollector metrics staging) := by
  have hsystem := writes_file env staging [ascii "system_info.txt"] (by simp)
    (systemInfoText env metrics)
  have hversion := writes_file env staging [ascii "agent_version.txt"]
    (by simp) (ascii "1.0.0\n")
  have hprocesses := (hsystem.andThen hversion).andThen writes_collectProcesses
  have hdirectory := (hprocesses.andThen writes_collectNetwork).andThen writes_createLogsDirectory
  have hlogs := hdirectory.andThen (writes_collectLogs logCollector)
  have htext : [] ++ [] ++ failureText (ascii "processes") env.processes ++
      (failureText (ascii "interfaces") env.interfaces ++
        failureText (ascii "tcp_connections") env.connections) ++ [] ++
      (logCollector.listLogs env.isRegularFile).flatMap (logFailure env logCollector) =
      failuresText env logCollector := by
    simp only [failuresText, List.nil_append, List.append_nil, List.append_assoc]
  rw [htext] at hlogs
  exact hlogs

theorem collect_writes (env : BundleEnvironment) (logCollector : LogCollector)
    (metrics : SystemMetrics) (staging : Path) {st : Staging} (herror : st.error = none)
    (hfailures : st.failures = []) :
    let after := collect env logCollector metrics staging st
    after.error = (bundleEntries env logCollector metrics).findSome? (entryError env staging) ∧
    (after.error = none → after.tree = st.tree.write
      (placedIn staging ((bundleEntries env logCollector metrics).map (reached env staging)))) := by
  intro after
  obtain ⟨hfirst, hwritten⟩ := writes_collectSources env logCollector metrics staging st herror
  have hafter : after = (collectSources env logCollector metrics staging st).andThen
      (writeFailures env staging) := by
    simp only [after, collect, collectSources, Staging.andThen_of_none herror]
  rw [hafter, bundleEntries, List.findSome?_append, ← hfirst]
  cases hsources : (collectSources env logCollector metrics staging st).error with
  | some error =>
    rw [Staging.andThen_of_error hsources, hsources]
    exact ⟨rfl, fun hnone => by cases hnone⟩
  | none =>
    obtain ⟨htree, htext⟩ := hwritten hsources
    rw [hfailures, List.nil_append] at htext
    -- the last file holds what has been noted before it
    obtain ⟨hlast, hwrites⟩ := writes_file env staging
      [ascii "collection_errors.txt"] (by simp) (failuresText env logCollector)
      (collectSources env logCollector metrics staging st) hsources
    rw [Staging.andThen_of_none hsources, writeFailures, htext]
    refine ⟨hlast, fun hnone => ?_⟩
    rw [(hwrites hnone).1, htree, List.map_append, placedIn_append, write_append]
    rfl

end Steps

def bundlePaths : List Path :=
  [[ascii "system_info.txt"], [ascii "agent_version.txt"], [ascii "processes.txt"],
    [ascii "network.txt"], [ascii "recent_logs"], [ascii "recent_logs", ascii "system.log"],
    [ascii "recent_logs", ascii "packages.log"], [ascii "recent_logs", ascii "apt-history.log"],
    [ascii "recent_logs", ascii "edgescope-agent.log"], [ascii "collection_errors.txt"]]

theorem processEntries_paths (env : BundleEnvironment) :
    ((processEntries env).map Prod.fst).Sublist [[ascii "processes.txt"]] := by
  unfold processEntries
  split
  · exact List.nil_sublist _
  · exact List.Sublist.refl _

theorem logEntries_paths (env : BundleEnvironment) (logCollector : LogCollector)
    (source : LogSourceInfo) :
    ((logEntries env logCollector source).map Prod.fst).Sublist
      [[ascii "recent_logs", source.id ++ ascii ".log"]] := by
  unfold logEntries
  split
  · exact List.Sublist.refl _
  · exact List.nil_sublist _

theorem logsEntries_paths (env : BundleEnvironment) (logCollector : LogCollector)
    (sources : List LogSourceInfo) :
    ((sources.flatMap (logEntries env logCollector)).map Prod.fst).Sublist
      (sources.map fun source => [ascii "recent_logs", source.id ++ ascii ".log"]) := by
  induction sources with
  | nil => exact List.Sublist.refl _
  | cons source sources ih =>
    rw [List.flatMap_cons, List.map_append, List.map_cons]
    exact (logEntries_paths env logCollector source).append ih

theorem bundleEntries_paths (env : BundleEnvironment) (agentLogPath : Bytes)
    (metrics : SystemMetrics) :
    ((bundleEntries env (LogCollector.create agentLogPath) metrics).map Prod.fst).Sublist
      bundlePaths := by
  have hlogs := logsEntries_paths env (LogCollector.create agentLogPath)
    ((LogCollector.create agentLogPath).listLogs env.isRegularFile)
  simp only [bundleEntries, collectedEntries, List.map_append]
  have hfront := ((List.Sublist.refl [[ascii "system_info.txt"]]).append
    (List.Sublist.refl [[ascii "agent_version.txt"]])).append (processEntries_paths env)
  exact (((hfront.append (List.Sublist.refl [[ascii "network.txt"]])).append
    (List.Sublist.refl [[ascii "recent_logs"]])).append hlogs).append
    (List.Sublist.refl [[ascii "collection_errors.txt"]])

/-- No entry takes the place of another. -/
theorem bundleEntries_nodup (env : BundleEnvironment) (agentLogPath : Bytes)
    (metrics : SystemMetrics) :
    ((bundleEntries env (LogCollector.create agentLogPath) metrics).map Prod.fst).Nodup :=
  List.Nodup.sublist (bundleEntries_paths env agentLogPath metrics) (by decide +kernel)

/-- Whatever there is to collect could be read. -/
structure Complete (env : BundleEnvironment) (logCollector : LogCollector) : Prop where
  processes : env.processes.isOk
  interfaces : env.interfaces.isOk
  connections : env.connections.isOk
  logs : ∀ source ∈ logCollector.listLogs env.isRegularFile,
    ∀ report ∈ logReport env logCollector source, report.isOk

theorem failureText_eq_nil_iff {α : Type} (source : Bytes) (report : Except Bytes α) :
    failureText source report = [] ↔ report.isOk := by
  cases report with
  | error error => simp [failureText, endLine, Except.isOk, Except.toBool]
  | ok value => simp [failureText, Except.isOk, Except.toBool]

theorem logFailure_eq_nil_iff (env : BundleEnvironment) (logCollector : LogCollector)
    (source : LogSourceInfo) :
    logFailure env logCollector source = [] ↔
      ∀ report ∈ logReport env logCollector source, report.isOk := by
  unfold logFailure
  cases logReport env logCollector source with
  | none => simp
  | some report => simp [failureText_eq_nil_iff]

theorem failuresText_eq_nil_iff (env : BundleEnvironment) (logCollector : LogCollector) :
    failuresText env logCollector = [] ↔ Complete env logCollector := by
  simp only [failuresText, List.append_eq_nil_iff, failureText_eq_nil_iff, List.flatMap_eq_nil_iff,
    logFailure_eq_nil_iff]
  constructor
  · rintro ⟨⟨⟨hprocesses, hinterfaces⟩, hconnections⟩, hlogs⟩
    exact ⟨hprocesses, hinterfaces, hconnections, hlogs⟩
  · rintro ⟨hprocesses, hinterfaces, hconnections, hlogs⟩
    exact ⟨⟨⟨hprocesses, hinterfaces⟩, hconnections⟩, hlogs⟩

def bundleTree (env : BundleEnvironment) (logCollector : LogCollector) (metrics : SystemMetrics)
    (staging : Path) : FileTree :=
  (FileTree.empty.set [] (some .directory)).write
    ((bundleEntries env logCollector metrics).map (reached env staging))

theorem bundleTree_eq_some_iff (env : BundleEnvironment) (agentLogPath : Bytes)
    (metrics : SystemMetrics) (staging p : Path) (node : Node) :
    bundleTree env (LogCollector.create agentLogPath) metrics staging p = some node ↔
      p = [] ∧ node = .directory ∨
        ∃ entry ∈ bundleEntries env (LogCollector.create agentLogPath) metrics,
          reached env staging entry = (p, node) := by
  have hpaths := map_reached_paths env staging
    (bundleEntries env (LogCollector.create agentLogPath) metrics)
  have hnodup := bundleEntries_nodup env agentLogPath metrics
  rw [← hpaths] at hnodup
  rw [bundleTree, write_eq_some_iff hnodup, List.mem_map, hpaths]
  have hroot : [] ∉ (bundleEntries env (LogCollector.create agentLogPath) metrics).map Prod.fst :=
    fun hmem => absurd ((bundleEntries_paths env agentLogPath metrics).subset hmem)
      (by decide +kernel)
  by_cases hp : p = []
  · subst hp
    simp [hroot, eq_comm, or_comm]
  · simp [set_of_ne hp, hp, FileTree.empty]

theorem bundleTree_failures (env : BundleEnvironment) (agentLogPath : Bytes)
    (metrics : SystemMetrics) (staging : Path)
    (hwritten : env.write (staging ++ [ascii "collection_errors.txt"]) = .written) :
    bundleTree env (LogCollector.create agentLogPath) metrics staging
      [ascii "collection_errors.txt"] = some (.file []) ↔
        Complete env (LogCollector.create agentLogPath) := by
  have hmem : ([ascii "collection_errors.txt"],
      .file (failuresText env (LogCollector.create agentLogPath))) ∈
      bundleEntries env (LogCollector.create agentLogPath) metrics :=
    List.mem_append_right _ List.mem_cons_self
  have hat := (bundleTree_eq_some_iff env agentLogPath metrics staging _ _).mpr
    (.inr ⟨_, hmem, reached_of_written hwritten _⟩)
  rw [hat, Option.some.injEq, Node.file.injEq, failuresText_eq_nil_iff]

/-- `tar` packs the directory it is given; whether it fails is the environment's choice still. -/
def packing (pack : FileTree → Bytes) (env : BundleEnvironment) (metrics : SystemMetrics)
    (s : DiagnosticCollector) : BundleEnvironment :=
  let staging := stagingPath (bundleId env.timestamp s.pid (s.sequence + 1))
  let st := collect env s.logCollector metrics staging
    ⟨s.tree.set staging (some .directory), none, []⟩
  { env with
    tar :=
      match env.tar with
      | .created _ => .created (pack (st.tree.below staging))
      | outcome => outcome }

def tarError : TarOutcome → Option Bytes
  | .created _ => none
  | .forkFailed => some (ascii "failed to fork tar process")
  | .failed _ => some (ascii "tar failed to create diagnostic archive")

def sizeError (env : BundleEnvironment) : Option Bytes :=
  if env.fileSizeFails then some (ascii "failed to determine diagnostic archive size") else none

/-- The error of the first step that fails, from the staging directory on. -/
def packError (env : BundleEnvironment) (logCollector : LogCollector) (metrics : SystemMetrics)
    (staging : Path) : Option Bytes :=
  ((bundleEntries env logCollector metrics).findSome? (entryError env staging)).or
    ((tarError env.tar).or (sizeError env))

/-- The error of the first step that fails, up to the staging directory. -/
def prepareError (env : BundleEnvironment) : Option Bytes :=
  (env.createRoot.map (ascii "failed to create diagnostic directory: " ++ ·)).or <|
    (env.secureRoot.map (ascii "failed to secure diagnostic directory: " ++ ·)).or <|
    (env.createStaging.map (ascii "failed to create diagnostic staging directory: " ++ ·)).or
    (env.secureStaging.map (ascii "failed to secure diagnostic staging directory: " ++ ·))

def bundleError (env : BundleEnvironment) (logCollector : LogCollector) (metrics : SystemMetrics)
    (staging : Path) : Option Bytes :=
  (prepareError env).or (packError env logCollector metrics staging)

theorem below_staging {tree : FileTree} {id : Bytes} (h : Fresh tree id) :
    (tree.set (stagingPath id) (some .directory)).below (stagingPath id) =
      FileTree.empty.set [] (some .directory) := by
  have hempty : tree.below (stagingPath id) = FileTree.empty :=
    funext fun p => h.staging _ (List.prefix_append ..)
  have hself : stagingPath id = stagingPath id ++ [] := (List.append_nil _).symm
  calc (tree.set (stagingPath id) (some .directory)).below (stagingPath id)
      = (tree.set (stagingPath id ++ []) (some .directory)).below (stagingPath id) := by
        rw [← hself]
    _ = FileTree.empty.set [] (some .directory) := by rw [below_set, hempty]

section Call

variable (pack : FileTree → Bytes) (env : BundleEnvironment) (metrics : SystemMetrics)
  (bundle : DiagnosticBundleInfo) {s : DiagnosticCollector}

/-- Once the archive is written, only its size is left to fail. -/
theorem registerArchive_packs (s : DiagnosticCollector) (id contents : Bytes) :
    let result := registerArchive env id (s.tree.set (archivePath id) (some (.file contents)))
      bundle s
    (∀ error, sizeError env = some error → result.outcome = .error error) ∧
    (sizeError env = none → result = registered env s id contents) := by
  intro result
  have hat : (s.tree.set (archivePath id) (some (.file contents))) (archivePath id) =
      some (.file contents) := set_self ..
  simp only [result, registerArchive, hat, sizeError]
  cases env.fileSizeFails with
  | true => simp
  | false => exact ⟨fun error h => (nomatch h), fun _ => rfl⟩

theorem packBundle_of_error {id : Bytes} {tree : FileTree} {error : Bytes}
    (h : ((collect env s.logCollector metrics (stagingPath id) ⟨tree, none, []⟩).andThen
      (createTarGzip env (archivePath id))).error = some error) :
    (packBundle env metrics id tree bundle s).outcome = .error error := by
  simp only [packBundle, h]

theorem packBundle_of_none {id : Bytes} {tree : FileTree}
    (h : ((collect env s.logCollector metrics (stagingPath id) ⟨tree, none, []⟩).andThen
      (createTarGzip env (archivePath id))).error = none) :
    packBundle env metrics id tree bundle s = registerArchive env id
      (((collect env s.logCollector metrics (stagingPath id) ⟨tree, none, []⟩).andThen
        (createTarGzip env (archivePath id))).tree.removeAll (stagingPath id)) bundle s := by
  simp only [packBundle, h]

/-- The staging directory leaves no trace beside the archive. -/
theorem collect_removeAll {id : Bytes} (hid : Fresh s.tree id) (contents : Bytes) :
    ((collect env s.logCollector metrics (stagingPath id)
      ⟨s.tree.set (stagingPath id) (some .directory), none, []⟩).tree.set (archivePath id)
        (some (.file contents))).removeAll (stagingPath id) =
      s.tree.set (archivePath id) (some (.file contents)) := by
  have hagrees : AgreesOutside (stagingPath id) s.tree (collect env s.logCollector metrics
      (stagingPath id) ⟨s.tree.set (stagingPath id) (some .directory), none, []⟩).tree :=
    (AgreesOutside.set List.prefix_rfl s.tree _).trans (collect_agrees _)
  rw [removeAll_set (stagingPath_not_prefix_archivePath id id), hagrees.removeAll_eq hid.staging]

theorem collect_below {id : Bytes} (hid : Fresh s.tree id)
    (hnone : (bundleEntries env s.logCollector metrics).findSome?
      (entryError env (stagingPath id)) = none) :
    (collect env s.logCollector metrics (stagingPath id)
      ⟨s.tree.set (stagingPath id) (some .directory), none, []⟩).tree.below (stagingPath id) =
      bundleTree env s.logCollector metrics (stagingPath id) := by
  let st : Staging := ⟨s.tree.set (stagingPath id) (some .directory), none, []⟩
  have herror : st.error = none := rfl
  obtain ⟨herror, hwritten⟩ :=
    collect_writes env s.logCollector metrics (stagingPath id) herror rfl
  rw [hwritten (herror.trans hnone), below_write, below_staging hid, bundleTree]

/-- From the staging directory on, the call fails with the error of the first step that fails, or
registers the packed bundle. -/
theorem packBundle_packs (hid : Fresh s.tree (bundleId env.timestamp s.pid (s.sequence + 1))) :
    let id := bundleId env.timestamp s.pid (s.sequence + 1)
    let s' := { s with sequence := s.sequence + 1 }
    let result := packBundle (packing pack env metrics s) metrics id
      (s.tree.set (stagingPath id) (some .directory)) bundle s'
    (∀ error, packError env s.logCollector metrics (stagingPath id) = some error →
      result.outcome = .error error) ∧
    (packError env s.logCollector metrics (stagingPath id) = none →
      result = registered env s' id
        (pack (bundleTree env s.logCollector metrics (stagingPath id)))) := by
  intro id s' result
  set tree := s.tree.set (stagingPath id) (some .directory) with htree
  set env' := packing pack env metrics s with henv'
  have hid' : Fresh s'.tree id := hid
  set st := collect env' s'.logCollector metrics (stagingPath id) ⟨tree, none, []⟩ with hst
  have herror : st.error = (bundleEntries env s.logCollector metrics).findSome?
      (entryError env (stagingPath id)) :=
    (collect_writes env s.logCollector metrics (stagingPath id) rfl rfl).1
  rw [packError, ← herror]
  cases hfirst : st.error with
  | some error =>
    have hfails : result.outcome = .error error := packBundle_of_error env' metrics bundle
      (by rw [← hst, Staging.andThen_of_error hfirst, hfirst])
    exact ⟨fun error' h => by rw [hfails, ← Option.some.inj h], fun h => nomatch h⟩
  | none =>
    have hpacks : env'.tar = match env.tar with
        | .created _ => .created (pack (bundleTree env s.logCollector metrics (stagingPath id)))
        | outcome => outcome := by
      rw [← collect_below env metrics hid (herror.symm.trans hfirst)]
      rfl
    have hafter : st.andThen (createTarGzip env' (archivePath id)) =
        createTarGzip env' (archivePath id) st := Staging.andThen_of_none hfirst _
    cases htar : env.tar with
    | forkFailed =>
      rw [htar] at hpacks
      have hfails : result.outcome = .error (ascii "failed to fork tar process") :=
        packBundle_of_error env' metrics bundle (by rw [← hst, hafter, createTarGzip, hpacks])
      exact ⟨fun error h => by rw [hfails, ← Option.some.inj h], fun h => nomatch h⟩
    | failed left =>
      rw [htar] at hpacks
      have hfails : result.outcome = .error (ascii "tar failed to create diagnostic archive") :=
        packBundle_of_error env' metrics bundle (by rw [← hst, hafter, createTarGzip, hpacks])
      exact ⟨fun error h => by rw [hfails, ← Option.some.inj h], fun h => nomatch h⟩
    | created contents =>
      rw [htar] at hpacks
      have hcreated : createTarGzip env' (archivePath id) st = { st with
          tree := st.tree.set (archivePath id)
            (some (.file (pack (bundleTree env s.logCollector metrics (stagingPath id))))) } := by
        rw [createTarGzip, hpacks]
      have hnone : (st.andThen (createTarGzip env' (archivePath id))).error = none := by
        rw [hafter, hcreated, hfirst]
      have hregister := packBundle_of_none env' metrics bundle hnone
      rw [← hst, hafter, hcreated, hst, htree,
        collect_removeAll env' metrics hid'
          (pack (bundleTree env s.logCollector metrics (stagingPath id)))]
        at hregister
      have hsize := registerArchive_packs env' bundle s' id
        (pack (bundleTree env s.logCollector metrics (stagingPath id)))
      rw [← hregister] at hsize
      exact hsize

theorem createBundle_prepares
    (hnone : s.tree (stagingPath (bundleId env.timestamp s.pid (s.sequence + 1))) = none) :
    let id := bundleId env.timestamp s.pid (s.sequence + 1)
    (∀ error, prepareError env = some error →
      (createBundle env metrics bundle s).outcome = .error error) ∧
    (prepareError env = none → createBundle env metrics bundle s = packBundle env metrics id
      (s.tree.set (stagingPath id) (some .directory)) bundle
      { s with sequence := s.sequence + 1 }) := by
  intro id
  simp only [prepareError, createBundle, prepareRoot]
  cases env.createRoot with
  | some message => simp
  | none =>
    cases env.secureRoot with
    | some message => simp
    | none =>
      simp only [hnone]
      cases env.createStaging with
      | some message => simp
      | none =>
        cases env.secureStaging with
        | some message => simp
        | none => exact ⟨fun error h => (nomatch h), fun _ => rfl⟩

theorem createBundle_outcome
    (hid : Fresh s.tree (bundleId env.timestamp s.pid (s.sequence + 1))) :
    let id := bundleId env.timestamp s.pid (s.sequence + 1)
    let result := createBundle (packing pack env metrics s) metrics bundle s
    (∀ error, bundleError env s.logCollector metrics (stagingPath id) = some error →
      result.outcome = .error error) ∧
    (bundleError env s.logCollector metrics (stagingPath id) = none →
      result = registered env { s with sequence := s.sequence + 1 } id
        (pack (bundleTree env s.logCollector metrics (stagingPath id)))) := by
  intro id result
  have hprepares := createBundle_prepares (packing pack env metrics s) metrics bundle
    (hid.staging _ List.prefix_rfl)
  obtain ⟨hfails, hpacks⟩ := packBundle_packs pack env metrics bundle hid
  rw [bundleError]
  cases hfirst : prepareError env with
  | some error =>
    have hresult : result.outcome = .error error := hprepares.1 error hfirst
    exact ⟨fun error' h => by rw [hresult, ← Option.some.inj h], fun h => nomatch h⟩
  | none =>
    have hresult : result = packBundle (packing pack env metrics s) metrics id
        (s.tree.set (stagingPath id) (some .directory)) bundle
        { s with sequence := s.sequence + 1 } := hprepares.2 hfirst
    rw [hresult]
    exact ⟨hfails, hpacks⟩

end Call

theorem Ledger.Sound.step_logCollector {l : Ledger} (h : l.Sound) (call : BundleCall) :
    (l.step call).collector.logCollector = l.collector.logCollector := by
  have hcases := createBundle_cases call.env call.metrics call.bundle
    (h.fresh call.env.timestamp)
  show (createBundle call.env call.metrics call.bundle l.collector).collector.logCollector = _
  obtain ⟨error, -, hresult⟩ | ⟨-, error, hresult⟩ | ⟨-, contents, hresult⟩ := hcases
  · rw [hresult]
  · rw [hresult]
  · rw [hresult]
    rfl

theorem Ledger.Sound.run_logCollector {l : Ledger} (h : l.Sound) (calls : List BundleCall) :
    (calls.foldl Ledger.step l).collector.logCollector = l.collector.logCollector := by
  induction calls generalizing l with
  | nil => rfl
  | cons call calls ih => rw [List.foldl_cons, ih (h.step call).1, h.step_logCollector call]

theorem Ledger.Sound.registered_tree {l : Ledger} (h : l.Sound) (call : BundleCall)
    (contents : Bytes) :
    let s := l.collector
    let id := bundleId call.env.timestamp s.pid (s.sequence + 1)
    (DiagnosticCollector.registered call.env { s with sequence := s.sequence + 1 } id
      contents).collector.tree (archivePath id) = some (.file contents) := by
  intro s id
  have hsound := (h.registered call contents).1
  exact (hsound.disk (archivePath id) (.file contents)).mpr
    ⟨createdBy call id contents, mem_newest_append l _, rfl, rfl⟩

theorem Ledger.Sound.registered_lookup {l : Ledger} (h : l.Sound) (call : BundleCall)
    (contents : Bytes) :
    let s := l.collector
    let id := bundleId call.env.timestamp s.pid (s.sequence + 1)
    let result := DiagnosticCollector.registered call.env { s with sequence := s.sequence + 1 } id
      contents
    result.bundle = ⟨id, archiveName id, contents.length, call.env.timestamp⟩ ∧
      result.collector.bundles.getLast? = some ⟨result.bundle, archivePath id⟩ ∧
      getBundlePath result.collector id = .ok (archivePath id, contents.length) := by
  intro s id result
  have hsound := (h.registered call contents).1
  have hlast : result.collector.bundles =
      (l.created.rtake 4).map Created.stored ++ [⟨result.bundle, archivePath id⟩] := by
    calc result.collector.bundles
        = ((l.created ++ [createdBy call id contents]).rtake kMaximumBundles).map
            Created.stored := hsound.bundles
      _ = (l.created.rtake 4).map Created.stored ++ [⟨result.bundle, archivePath id⟩] := by
        rw [newest_concat, List.map_append]
        rfl
  refine ⟨rfl, by rw [hlast, List.getLast?_concat], ?_⟩
  exact (getBundlePath_eq_ok_iff hsound.bundles_nodup ..).mpr
    ⟨_, by rw [hlast]; exact List.mem_append_right _ List.mem_cons_self, rfl, rfl, rfl⟩

/-- Whatever was called before, a call fails with the error of its first step that fails. When none
fails, the archive it registers is the packing of a directory that holds the entries of a bundle as
they have reached the disk, and nothing else. -/
theorem createBundle_packs (pid : ℕ) (agentLogPath : Bytes) (calls : List BundleCall)
    (pack : FileTree → Bytes) (env : BundleEnvironment) (metrics : SystemMetrics)
    (bundle : DiagnosticBundleInfo) :
    let logCollector := LogCollector.create agentLogPath
    let s := (calls.foldl Ledger.step (Ledger.start pid logCollector)).collector
    let id := bundleId env.timestamp s.pid (s.sequence + 1)
    let result := createBundle (packing pack env metrics s) metrics bundle s
    (∀ error, bundleError env logCollector metrics (stagingPath id) = some error →
      result.outcome = .error error) ∧
    (bundleError env logCollector metrics (stagingPath id) = none →
      result.outcome = .ok () ∧
      ∃ tree : FileTree, result.collector.tree (archivePath id) = some (.file (pack tree)) ∧
        (result.bundle = ⟨id, archiveName id, (pack tree).length, env.timestamp⟩ ∧
          result.collector.bundles.getLast? = some ⟨result.bundle, archivePath id⟩ ∧
          getBundlePath result.collector id = .ok (archivePath id, (pack tree).length)) ∧
        (∀ p node, tree p = some node ↔ p = [] ∧ node = .directory ∨
          ∃ entry ∈ bundleEntries env logCollector metrics,
            reached env (stagingPath id) entry = (p, node)) ∧
        (env.write (stagingPath id ++ [ascii "collection_errors.txt"]) = .written →
          (tree [ascii "collection_errors.txt"] = some (.file []) ↔
            Complete env logCollector))) := by
  intro logCollector s id result
  have hsound := (Ledger.sound_start pid logCollector).run calls
  have hlogs : s.logCollector = logCollector :=
    (Ledger.sound_start pid logCollector).run_logCollector calls
  obtain ⟨hfails, hpacks⟩ :=
    createBundle_outcome pack env metrics bundle (hsound.fresh env.timestamp)
  rw [← hlogs]
  refine ⟨hfails, fun hnone => ?_⟩
  have hresult : result = registered env { s with sequence := s.sequence + 1 } id
      (pack (bundleTree env s.logCollector metrics (stagingPath id))) := hpacks hnone
  rw [hresult, hlogs]
  have hregistered := hsound.registered_lookup ⟨env, metrics, bundle⟩
    (pack (bundleTree env logCollector metrics (stagingPath id)))
  refine ⟨rfl, bundleTree env logCollector metrics (stagingPath id), ?_, hregistered, ?_, ?_⟩
  · exact hsound.registered_tree ⟨env, metrics, bundle⟩ _
  · exact bundleTree_eq_some_iff env agentLogPath metrics (stagingPath id)
  · exact bundleTree_failures env agentLogPath metrics (stagingPath id)

/-- The interfaces cannot be read, one log is there, and the disk is full while `network.txt` is
flushed. -/
def fullDisk : BundleEnvironment :=
  { BundleEnvironment.quiet [] with
    interfaces := .error (ascii "busy")
    isRegularFile := fun path => path = ascii "/agent.log"
    openFile := fun _ => .ok (.ofContents (ascii "up\n"))
    write := fun path =>
      if path.getLast? = some (ascii "network.txt") then .cut 4 else .written }

theorem createBundle_packs_fullDisk :
    let logCollector := LogCollector.create (ascii "/agent.log")
    let metrics : SystemMetrics := ⟨0, 0, 0, 0, 0, 0, 0, 0⟩
    let info : DiagnosticBundleInfo := ⟨[], [], 0, 0⟩
    let before : List BundleCall := [⟨.quiet [1, 2, 3], metrics, info⟩]
    let s := (before.foldl Ledger.step (Ledger.start 7 logCollector)).collector
    let result := createBundle (packing (fun _ => ascii "gz") fullDisk metrics s) metrics info s
    result.outcome = .ok () ∧ result.bundle.sizeBytes = (ascii "gz").length ∧
      ∃ tree : FileTree, tree [ascii "network.txt"] = some (.file (ascii "\nTCP")) ∧
        tree [ascii "recent_logs", ascii "edgescope-agent.log"] = some (.file (ascii "up\n")) ∧
        tree [ascii "collection_errors.txt"] ≠ some (.file []) := by
  intro logCollector metrics info before s result
  obtain ⟨-, hpacks⟩ := createBundle_packs 7 (ascii "/agent.log") before (fun _ => ascii "gz")
    fullDisk metrics info
  obtain ⟨hok, hpacked⟩ := hpacks (by decide +kernel)
  obtain ⟨tree, -, hregistered, hentries, herrors⟩ := hpacked
  have hsize : result.bundle.sizeBytes = (ascii "gz").length :=
    congrArg DiagnosticBundleInfo.sizeBytes hregistered.1
  refine ⟨hok, hsize, tree, (hentries _ _).mpr (.inr ?_), (hentries _ _).mpr (.inr ?_), ?_⟩
  · decide +kernel
  · decide +kernel
  · intro hempty
    cases ((herrors rfl).mp hempty).interfaces

end EdgeScope.DiagnosticCollector
