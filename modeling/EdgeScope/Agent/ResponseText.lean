import EdgeScope.Agent.EdgeScopeServiceImpl
import EdgeScope.Agent.LogTail
import EdgeScope.Agent.ProcessText
import EdgeScope.Agent.StreamViews

/-!
# The text of the responses

A receiver rejects a message with a string that is not well-formed UTF-8. The lines of logs
are sanitized; the texts of processes and services are as well formed as where they come from.
-/

namespace EdgeScope
open Text

namespace ServiceManager

def LineWellFormed (output key : Bytes) : Prop :=
  ∀ line, (getlines newline output).find? (fun line => (key ++ ascii "=").isPrefixOf line) =
    some line → WellFormed line

theorem wellFormed_valueFor_iff (key : Bytes) (hkey : isAscii key = true) (output : Bytes) :
    WellFormed (valueFor output key) ↔ LineWellFormed output key := by
  simp only [valueFor, LineWellFormed]
  split
  · rename_i hnone
    simp [hnone, WellFormed.nil]
  · rename_i line hline
    simp only [hline, Option.some.injEq, forall_eq']
    obtain ⟨rest, rfl⟩ := List.isPrefixOf_iff_prefix.mp (List.find?_some hline)
    have hascii : ∀ b ∈ key ++ ascii "=", b.toNat < 0x80 :=
      List.forall_mem_append.mpr ⟨lt_of_isAscii hkey, lt_of_isAscii (by decide)⟩
    rw [List.drop_left, wellFormed_ascii_append_iff hascii]

structure OutputWellFormed (result : CommandResult) : Prop where
  description : LineWellFormed result.output (ascii "Description")
  states : result.exitCode = 0 → valueFor result.output (ascii "LoadState") ≠ [] →
    LineWellFormed result.output (ascii "LoadState") ∧
    LineWellFormed result.output (ascii "ActiveState") ∧
    LineWellFormed result.output (ascii "SubState")

theorem wellFormed_serviceInfo_iff {name : Bytes} (hname : WellFormed name)
    (result : CommandResult) :
    (∀ text ∈ (serviceInfo name result).strings, WellFormed text) ↔ OutputWellFormed result := by
  have hdescription := wellFormed_valueFor_iff (ascii "Description") (by decide)
    result.output
  have hload := wellFormed_valueFor_iff (ascii "LoadState") (by decide) result.output
  have hactive := wellFormed_valueFor_iff (ascii "ActiveState") (by decide) result.output
  have hsub := wellFormed_valueFor_iff (ascii "SubState") (by decide) result.output
  simp only [serviceInfo]
  split
  · rename_i hunavailable
    have hconstants : WellFormed (ascii "unavailable") ∧ WellFormed (ascii "unknown") :=
      ⟨wellFormed_of_isAscii (by decide), wellFormed_of_isAscii (by decide)⟩
    simp only [ServiceInfo.strings, List.forall_mem_cons, List.not_mem_nil, false_implies,
      implies_true, and_true, hname, hconstants, true_and, hdescription]
    refine ⟨fun h => ⟨h, fun hexit hloaded => ?_⟩, fun h => h.description⟩
    obtain hexit' | hload' := hunavailable
    · exact absurd hexit hexit'
    · exact absurd hload' hloaded
  · rename_i havailable
    simp only [ServiceInfo.strings, List.forall_mem_cons, List.not_mem_nil, false_implies,
      implies_true, and_true, hname, true_and, hdescription, hload, hactive, hsub]
    obtain ⟨hexit, hloaded⟩ := not_or.mp havailable
    exact ⟨fun h => ⟨h.1, fun _ _ => h.2⟩,
      fun h => ⟨h.description, h.states (not_not.mp hexit) hloaded⟩⟩

def runs (runner : ServiceCommandRunner) : ℕ → List Bytes → Option (List CommandResult)
  | _, [] => some []
  | n, name :: names =>
    match runner n (showArguments name) with
    | .error _ => none
    | .ok result => (runs runner (n + 1) names).map (result :: ·)

theorem wellFormed_listLoop_iff (runner : ServiceCommandRunner) (n : ℕ) {names : List Bytes}
    (hnames : ∀ name ∈ names, WellFormed name) (services : List ServiceInfo) :
    (∀ services', (listLoop runner n names services).result = .ok services' →
      ∀ text ∈ services'.flatMap ServiceInfo.strings, WellFormed text) ↔
    ∀ results, runs runner n names = some results →
      (∀ text ∈ services.flatMap ServiceInfo.strings, WellFormed text) ∧
        ∀ result ∈ results, OutputWellFormed result := by
  induction names generalizing n services with
  | nil => simp [listLoop, runs]
  | cons name names ih =>
    rw [List.forall_mem_cons] at hnames
    simp only [listLoop, runs]
    cases runner n (showArguments name) with
    | error error => simp
    | ok result =>
      simp only [ih (n + 1) hnames.2, Option.map_eq_some_iff, List.flatMap_append,
        List.forall_mem_append, List.flatMap_singleton, wellFormed_serviceInfo_iff hnames.1]
      constructor
      · rintro h - ⟨results, hresults, rfl⟩
        obtain ⟨⟨hservices, hresult⟩, hrest⟩ := h results hresults
        exact ⟨hservices, List.forall_mem_cons.mpr ⟨hresult, hrest⟩⟩
      · intro h results hresults
        obtain ⟨hservices, hall⟩ := h (result :: results) ⟨results, hresults, rfl⟩
        obtain ⟨hresult, hrest⟩ := List.forall_mem_cons.mp hall
        exact ⟨⟨hservices, hresult⟩, hrest⟩

end ServiceManager

namespace ProcessCollector

theorem wellFormed_strings_iff {proc : ProcFs} {pid : ℤ} {process : ProcessInfo}
    (h : getProcess proc pid = .ok process) :
    (∀ text ∈ process.strings, WellFormed text) ↔ TextWellFormed (proc.files pid) := by
  rw [← wellFormed_process_iff h]
  simp [ProcessInfo.strings]

theorem wellFormed_getProcess_iff (proc : ProcFs) (pid : ℤ) :
    (∀ process, getProcess proc pid = .ok process → ∀ text ∈ process.strings, WellFormed text) ↔
      (0 < pid → Reported (proc.files pid) → TextWellFormed (proc.files pid)) := by
  constructor
  · intro h hpid hreported
    obtain ⟨process, hprocess⟩ := getProcess_of_reported hpid hreported
    exact (wellFormed_strings_iff hprocess).mp (h process hprocess)
  · intro h process hprocess
    obtain ⟨hpid, hreported, -⟩ := getProcess_text hprocess
    exact (wellFormed_strings_iff hprocess).mpr (h hpid hreported)

theorem entryPid_pos {filename : Bytes} {pid : ℤ} (h : entryPid filename = some pid) : 0 < pid := by
  unfold entryPid at h
  split_ifs at h with hpid
  cases h
  exact_mod_cast hpid.2.1

theorem wellFormed_listProcesses_iff (proc : ProcFs) :
    (∀ processes, listProcesses proc = .ok processes →
      ∀ text ∈ processes.flatMap ProcessInfo.strings, WellFormed text) ↔
    ∀ entries, proc.entries = .ok entries → ∀ pid ∈ entries.filterMap entryPid,
      Reported (proc.files pid) → TextWellFormed (proc.files pid) := by
  constructor
  · intro h entries hentries pid hpid hreported
    obtain ⟨filename, -, hentry⟩ := List.mem_filterMap.mp hpid
    obtain ⟨process, hprocess⟩ := getProcess_of_reported (entryPid_pos hentry) hreported
    obtain ⟨processes, hlist⟩ : ∃ processes, listProcesses proc = .ok processes := by
      rw [listProcesses, hentries]
      exact ⟨_, rfl⟩
    have hmem := (mem_listProcesses_iff hlist).mpr ⟨entries, hentries, pid, hpid, hprocess⟩
    refine (wellFormed_strings_iff hprocess).mp fun text htext => h processes hlist text ?_
    exact List.mem_flatMap.mpr ⟨process, hmem, htext⟩
  · intro h processes hlist text htext
    obtain ⟨process, hmem, htext⟩ := List.mem_flatMap.mp htext
    obtain ⟨entries, hentries, pid, hpid, hprocess⟩ := (mem_listProcesses_iff hlist).mp hmem
    obtain ⟨-, hreported, -⟩ := getProcess_text hprocess
    exact (wellFormed_strings_iff hprocess).mpr (h entries hentries pid hpid hreported) text htext

end ProcessCollector

theorem LogCollector.wellFormed_readLog {collector : LogCollector} {openFile : OpenFile}
    {logId : Bytes} {maxLines : ℕ} {keyword : Bytes} {result : LogReadResult}
    (h : collector.readLog openFile logId maxLines keyword = .ok result) :
    ∀ line ∈ result.lines, WellFormed line := by
  unfold readLog at h
  split at h
  · cases h
  · unfold readOpened at h
    split at h
    · cases h
    · split at h
      · cases h
      · split at h
        · cases h
        · cases h
          intro line hline
          simp only [selectLines_eq] at hline
          obtain ⟨source, -, rfl⟩ := List.mem_map.mp (mem_of_mem_rtake hline)
          exact wellFormed_sanitizeUtf8 _

namespace StreamLog

theorem wellFormed_streamLine {keyword line output : Bytes}
    (h : streamLine keyword line = some output) : WellFormed output := by
  unfold streamLine at h
  simp only at h
  split_ifs at h
  · cases h
    exact LogCollector.wellFormed_sanitizeUtf8 _
  · cases h
    exact LogCollector.wellFormed_sanitizeUtf8 _

theorem wellFormed_poll {keyword : Bytes} {writer : ℕ → Bool} {p : Poll} {s : StreamState}
    (h : ∀ line ∈ s.written, WellFormed line) :
    ∀ line ∈ (poll keyword writer p s).1.written, WellFormed line := by
  unfold poll
  split
  · exact h
  · rename_i status _
    have hreset : ∀ line ∈ (resetIfReplaced status s).written, WellFormed line := by
      rwa [resetIfReplaced_written]
    simp only
    split
    · intro line hline
      have hwritten := (drainLines_spec keyword writer (resetIfReplaced status s).written
        (le_refl ((resetIfReplaced status s).partialLine ++
          appended p.file (resetIfReplaced status s).offset).length)).2
      obtain hline | hline := List.mem_append.mp (hwritten.subset hline)
      · exact hreset line hline
      · obtain ⟨source, -, houtput⟩ := List.mem_filterMap.mp hline
        exact wellFormed_streamLine houtput
    · exact hreset

theorem wellFormed_run {keyword : Bytes} {writer : ℕ → Bool} (ps : List Poll) {s : StreamState}
    (h : ∀ line ∈ s.written, WellFormed line) :
    ∀ line ∈ (run keyword writer ps s).1.written, WellFormed line := by
  have hall : Runs.Throughout (poll keyword writer) (fun _ _ => True) ps s := by
    induction ps generalizing s with
    | nil => trivial
    | cons p ps ih => exact ⟨trivial, fun _ => ih (wellFormed_poll h)⟩
  refine (hall.run (I := fun s => ∀ line ∈ s.written, WellFormed line) (fun _ => id)
    (fun p s hs _ => ⟨fun _ => wellFormed_poll hs, wellFormed_poll hs⟩) h).2

end StreamLog
namespace EdgeScopeServiceImpl

/-- The requests that are answered with text of the host. -/
def asksForText : Request → Bool
  | .listProcesses => true
  | .getProcessDetails _ => true
  | .listServices => true
  | .readLog _ _ _ => true
  | .streamLog _ _ _ => true
  | _ => false

/-- Where the text of the answer comes from is well formed. Logs may hold anything. -/
def SourcesWellFormed (host : Host) (allowedServices : List Bytes) : Request → Prop
  | .listProcesses => ∀ entries, host.proc.entries = .ok entries →
    ∀ pid ∈ entries.filterMap ProcessCollector.entryPid,
      ProcessCollector.Reported (host.proc.files pid) →
        ProcessCollector.TextWellFormed (host.proc.files pid)
  | .getProcessDetails pid => 0 < pid → ProcessCollector.Reported (host.proc.files pid) →
    ProcessCollector.TextWellFormed (host.proc.files pid)
  | .listServices => ∀ results, ServiceManager.runs host.runner 0 allowedServices = some results →
    ∀ result ∈ results, ServiceManager.OutputWellFormed result
  | _ => True

def TextWellFormed (answer : Answer) : Prop :=
  ∀ message ∈ answer.messages, ∀ text ∈ message.strings, WellFormed text

theorem textWellFormed_reply_iff {ε α : Type} (s : EdgeScopeServiceImpl) (effects : List Effect)
    (status : ε → Status) (message : α → Message) (result : Except ε α) :
    TextWellFormed (reply s effects status message result) ↔
      ∀ value, result = .ok value → ∀ text ∈ (message value).strings, WellFormed text := by
  cases result <;> simp [TextWellFormed, reply]

/-- Whatever was asked before: every string of the answer is well formed exactly when its
sources are. -/
theorem answer_textWellFormed_iff (path : Bytes) (text : Option Bytes) (config : AgentConfig)
    (hload : AgentConfig.load path text = .ok config) (pid : ℕ) (calls : List RpcCall)
    (call : RpcCall) (hcall : asksForText call.request = true) :
    TextWellFormed (((create pid config).serve calls).answer call) ↔
      SourcesWellFormed call.host config.allowedServices call.request := by
  obtain ⟨collector, hserve⟩ := (create pid config).serve_service calls
  rw [hserve]
  obtain ⟨request, host⟩ := call
  have hnames : ∀ name ∈ config.allowedServices, WellFormed name := fun name hname =>
    wellFormed_of_forall_lt fun b hb => (AgentConfig.isServiceNameByte_range
      (AgentConfig.hasServiceNames_of_load hload name hname b hb)).2
  cases request with
  | listProcesses =>
    simp only [answer, handle, listProcesses, textWellFormed_reply_iff]
    exact ProcessCollector.wellFormed_listProcesses_iff host.proc
  | getProcessDetails pid =>
    simp only [answer, handle, getProcessDetails, textWellFormed_reply_iff]
    exact ProcessCollector.wellFormed_getProcess_iff host.proc pid
  | listServices =>
    simp only [answer, handle, listServices, textWellFormed_reply_iff]
    refine (ServiceManager.wellFormed_listLoop_iff host.runner 0 hnames []).trans ?_
    simp [SourcesWellFormed]
  | readLog logId maxLines keyword =>
    simp only [answer, handle, readLog, textWellFormed_reply_iff]
    exact iff_of_true (fun result hread => LogCollector.wellFormed_readLog hread) trivial
  | streamLog logId keyword startAtEnd =>
    refine iff_of_true ?_ trivial
    simp only [answer, handle, streamLog, refuse]
    split
    · simp [TextWellFormed]
    · split
      · simp [TextWellFormed]
      · split
        · simp [TextWellFormed]
        · simp only [TextWellFormed, List.forall_mem_map, Message.strings,
            List.forall_mem_singleton]
          exact StreamLog.wellFormed_run _ (by simp [StreamLog.start])
  | _ => simp [asksForText] at hcall

def filesOfProcess (name : Bytes) : ProcessFiles where
  stat := .ok (ascii "7 (" ++ name ++ ascii ") S 1 0 0 0 0 0 0 0 0 0 0 0 0 0 0 0 1 0 5")
  status := .ok []
  cmdline := .ok []
  io := .error .eacces

def hostOfProcess (name : Bytes) : Host :=
  { Host.quiet with proc := ⟨.ok [ascii "7"], fun _ => filesOfProcess name, fun _ _ => 0⟩ }

theorem answer_textWellFormed_shell :
    TextWellFormed (((create 1 .default).serve [⟨.listLogs, .quiet⟩]).answer
      ⟨.getProcessDetails 7, hostOfProcess (ascii "sh")⟩) := by
  refine (answer_textWellFormed_iff [] (some []) .default rfl 1 [⟨.listLogs, .quiet⟩]
    ⟨.getProcessDetails 7, hostOfProcess (ascii "sh")⟩ rfl).mpr fun _ _ => ⟨?_, ?_, ?_⟩
  · intro stat name hstat hname
    cases hstat
    have hsh : some name = some (ascii "sh") := hname.symm.trans (by decide)
    cases hsh
    exact wellFormed_of_isAscii (by decide)
  · intro stat state hstat hstate
    cases hstat
    have hsleeping : some state = some (charByte 'S') := hstate.symm.trans (by decide)
    cases hsleeping
    decide
  · intro contents hcontents
    cases hcontents
    exact .nil

/-- A process whose name is a byte that never occurs in UTF-8. -/
theorem answer_text_of_byte_name :
    ¬ TextWellFormed ((create 1 .default).answer ⟨.getProcessDetails 7, hostOfProcess [0xFF]⟩) := by
  have hstrings : ((create 1 .default).answer
      ⟨.getProcessDetails 7, hostOfProcess [0xFF]⟩).messages.flatMap Message.strings =
      [[0xFF], [83], [91, 0xFF, 93]] := by
    decide +kernel
  intro h
  have hname : WellFormed [0xFF] := by
    have hmem : [0xFF] ∈ ((create 1 .default).answer
        ⟨.getProcessDetails 7, hostOfProcess [0xFF]⟩).messages.flatMap Message.strings := by
      rw [hstrings]
      exact List.mem_cons_self
    obtain ⟨message, hmessage, htext⟩ := List.mem_flatMap.mp hmem
    exact h message hmessage _ htext
  exact absurd ((wellFormed_singleton_iff 0xFF).mp hname) (by decide)

end EdgeScopeServiceImpl
end EdgeScope
