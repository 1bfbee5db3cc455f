import EdgeScope.Client.Commands

/-!
# Runs of `edgescope-cli`

`main` gives up at the first call that fails, and says so. Only the reading of a log may fail
without consequence: the next log is tried.
-/

namespace EdgeScope.Cli
open Runs Dialogue Text

def IsError {α : Type} (reply : Except Status α) : Prop := ∃ status, reply = .error status

/-- The replies that `main` takes for a failure. -/
def Failed : (request : Request) → request.Reply → Prop
  | .getAgentInfo, reply => IsError reply
  | .getSystemMetrics, reply => IsError reply
  | .streamSystemMetrics _, reply =>
    reply.status.code ≠ .ok ∧ ¬ (3 ≤ reply.delivered.length ∧ reply.status.code = .cancelled)
  | .listProcesses, reply => IsError reply
  | .getProcessDetails _, reply => IsError reply
  | .controlProcess _ _, reply => IsError reply
  | .getNetworkInterfaces, reply => IsError reply
  | .listTcpConnections, reply => IsError reply
  | .listLogs, reply => IsError reply
  | .readLog _ _ _, _ => False
  | .streamLog _ _ _, reply => reply.status.code ≠ .ok ∧ reply.status.code ≠ .cancelled
  | .listServices, reply => IsError reply
  | .controlService _ _, reply => IsError reply
  | .createDiagnosticBundle, reply => IsError reply
  | .downloadDiagnosticBundle _, reply => reply.status.code ≠ .ok

abbrev Talk := List (Exchange Question.Reply)

def Incomplete (past : Talk) (delivery : Delivery) : Prop :=
  ∃ created : DiagnosticBundleInfo, ⟨.rpc .createDiagnosticBundle, .ok created⟩ ∈ past ∧
    (downloadDiagnosticBundle delivery.delivered).received ≠ created.sizeBytes

def Fails (past : Talk) : Exchange Question.Reply → Prop
  | ⟨.openOutput _, opens⟩ => opens = false
  | ⟨.rpc (.downloadDiagnosticBundle bundleId), delivery⟩ =>
    Failed (.downloadDiagnosticBundle bundleId) delivery ∨ Incomplete past delivery
  | ⟨.rpc request, reply⟩ => Failed request reply

def EndsInFailure (talk : Talk) : Prop := ∃ past e, talk = past ++ [e] ∧ Fails past e

theorem endsInFailure_append_iff {past : Talk} {e : Exchange Question.Reply} :
    EndsInFailure (past ++ [e]) ↔ Fails past e := by
  constructor
  · rintro ⟨past', e', heq, hfails⟩
    obtain ⟨rfl, he⟩ := List.append_inj' heq rfl
    cases he
    exact hfails
  · exact fun h => ⟨past, e, rfl, h⟩

theorem not_endsInFailure_nil : ¬ EndsInFailure [] := by
  rintro ⟨past, e, heq, -⟩
  simp at heq

structure Succeeds (exit : ProgramExit) : Prop where
  code : exit.code = 0
  errors : exit.errors = []

structure Complains (exit : ProgramExit) : Prop where
  code : exit.code = 1
  errors : exit.errors ≠ []

theorem complains {output errors : Bytes} : Complains ⟨output, errors ++ endl, 1⟩ :=
  ⟨rfl, by simp [endl]⟩

abbrev GivesUp (past : Talk) (program : Program) : Prop :=
  FailsFast EndsInFailure Complains Succeeds past program

theorem givesUp_checked {α : Type} (exchange : Except Status α → Exchange Question.Reply)
    {past : Talk} {operation output : Bytes} {next : α → Program}
    (hfails : ∀ reply, Fails past (exchange reply) ↔ IsError reply)
    (hnext : ∀ response, GivesUp (past ++ [exchange (.ok response)]) (next response))
    (reply : Except Status α) :
    (EndsInFailure (past ++ [exchange reply]) ∧
      ∃ result, checked operation output next reply = .done result ∧ Complains result) ∨
    (¬ EndsInFailure (past ++ [exchange reply]) ∧
      GivesUp (past ++ [exchange reply]) (checked operation output next reply)) := by
  rw [endsInFailure_append_iff, hfails]
  cases reply with
  | error status => exact .inl ⟨⟨status, rfl⟩, _, rfl, complains⟩
  | ok response => exact .inr ⟨nofun, hnext response⟩

theorem givesUp_last {past : Talk} {e : Exchange Question.Reply} {failure success : ProgramExit}
    {p : Prop} [Decidable p] (hfails : Fails past e ↔ p) (hfailure : Complains failure)
    (hsuccess : Succeeds success) :
    (EndsInFailure (past ++ [e]) ∧ ∃ result,
      (if p then .done failure else .done success : Program) = .done result ∧ Complains result) ∨
    (¬ EndsInFailure (past ++ [e]) ∧
      GivesUp (past ++ [e]) (if p then .done failure else .done success)) := by
  rw [endsInFailure_append_iff, hfails]
  by_cases hp : p
  · exact .inl ⟨hp, failure, if_pos hp, hfailure⟩
  · rw [if_neg hp]
    exact .inr ⟨hp, hsuccess⟩

theorem servicesPart_givesUp (past : Talk) (output : Bytes) :
    GivesUp past (servicesPart output) :=
  givesUp_checked (fun reply => ⟨.rpc .listServices, reply⟩) (fun _ => Iff.rfl)
    fun _ => ⟨rfl, rfl⟩

theorem readFirstLog_givesUp {next : Bytes → Program}
    (hnext : ∀ past output, GivesUp past (next output)) (logs : List LogSourceInfo) (past : Talk)
    (output : Bytes) : GivesUp past (readFirstLog next logs output) := by
  induction logs generalizing past with
  | nil => exact hnext past output
  | cons log logs ih =>
    rw [readFirstLog]
    split
    · intro reply
      refine .inr ⟨endsInFailure_append_iff.not.mpr id, ?_⟩
      match reply with
      | .error status => exact ih _
      | .ok (lines, truncated) => exact hnext _ _
    · exact ih past

theorem logsPart_givesUp (past : Talk) (output : Bytes) : GivesUp past (logsPart output) :=
  givesUp_checked (fun reply => ⟨.rpc .listLogs, reply⟩) (fun _ => Iff.rfl)
    fun logs => readFirstLog_givesUp servicesPart_givesUp logs _ _

theorem networkPart_givesUp (past : Talk) (output : Bytes) : GivesUp past (networkPart output) :=
  givesUp_checked (fun reply => ⟨.rpc .getNetworkInterfaces, reply⟩) (fun _ => Iff.rfl)
    fun _ => givesUp_checked (fun reply => ⟨.rpc .listTcpConnections, reply⟩) (fun _ => Iff.rfl)
      fun _ => logsPart_givesUp _ _

theorem processesPart_givesUp (decimals : Decimals) (past : Talk) (output : Bytes) :
    GivesUp past (processesPart decimals output) := by
  refine givesUp_checked (fun reply => ⟨.rpc .listProcesses, reply⟩) (fun _ => Iff.rfl)
    fun processes => ?_
  cases processes with
  | nil => exact networkPart_givesUp _ _
  | cons process processes =>
    exact givesUp_checked (fun reply => ⟨.rpc (.getProcessDetails process.pid), reply⟩)
      (fun _ => Iff.rfl) fun _ => networkPart_givesUp _ _

theorem fails_streamSystemMetrics_iff (past : Talk) (intervalMs : ℕ)
    (reply : StreamReply SystemMetrics) :
    Fails past ⟨.rpc (.streamSystemMetrics intervalMs), reply⟩ ↔
      (EdgeScopeClient.streamSystemMetrics 3 reply).2.code ≠ .ok := by
  rw [EdgeScopeClient.streamSystemMetrics_eq]
  simp only [Fails, Failed, ne_eq, OfNat.ofNat_ne_zero, not_false_eq_true, true_and]
  split
  · rename_i hcancelled
    exact iff_of_false (fun h => h.2 hcancelled) fun h => h rfl
  · rename_i hgoes
    exact and_iff_left hgoes

theorem overviewCommand_givesUp (decimals : Decimals) (past : Talk) (output : Bytes) :
    GivesUp past (overviewCommand decimals output) := by
  refine givesUp_checked (fun reply => ⟨.rpc .getSystemMetrics, reply⟩) (fun _ => Iff.rfl)
    fun metrics reply => ?_
  have hfails := fails_streamSystemMetrics_iff
    (past ++ [⟨.rpc .getSystemMetrics, .ok metrics⟩]) 1000 reply
  by_cases hstatus : (EdgeScopeClient.streamSystemMetrics 3 reply).2.code ≠ .ok
  · exact .inl ⟨endsInFailure_append_iff.mpr (hfails.mpr hstatus), _, if_pos hstatus, complains⟩
  · refine .inr ⟨endsInFailure_append_iff.not.mpr (hfails.not.mpr hstatus), ?_⟩
    simp only [if_neg hstatus]
    exact processesPart_givesUp decimals _ _

theorem diagnosticCommand_givesUp {past : Talk} (output path : Bytes)
    (hpast : ∀ created, ⟨.rpc .createDiagnosticBundle, .ok created⟩ ∉ past) :
    GivesUp past (diagnosticCommand output path) := by
  refine givesUp_checked (fun reply => ⟨.rpc .createDiagnosticBundle, reply⟩) (fun _ => Iff.rfl)
    fun created opens => ?_
  rw [endsInFailure_append_iff]
  cases opens with
  | false => exact .inl ⟨rfl, _, rfl, complains⟩
  | true =>
    refine .inr ⟨nofun, fun delivery => givesUp_last ?_ complains ⟨rfl, rfl⟩⟩
    -- the bundle of this talk is the one just created
    simp only [Fails, Failed, Incomplete, List.mem_append, List.mem_singleton]
    refine or_congr_right ⟨?_, fun hsize => ⟨created, .inl (.inr rfl), hsize⟩⟩
    rintro ⟨info, (hmem | hmem) | hmem, hsize⟩
    · exact absurd hmem (hpast info)
    · cases hmem
      exact hsize
    · cases hmem

/-- The command asks in the order of `diagnostic`, and exits as `diagnostic` does on the answers. -/
theorem talks_diagnosticCommand {output path : Bytes} {talk : Talk} {exit : ProgramExit}
    (h : (diagnosticCommand output path).Talks talk exit) (destination : Option Bytes) :
    ∃ (created : Except Status DiagnosticBundleInfo) (opens : Bool) (delivery : Delivery),
      talk = ⟨.rpc .createDiagnosticBundle, created⟩ :: (match created with
        | .error _ => []
        | .ok info => ⟨.openOutput path, opens⟩ ::
          if opens then [⟨.rpc (.downloadDiagnosticBundle info.id), delivery⟩] else []) ∧
      exit.code = (diagnostic path destination created opens delivery.delivered delivery.closed
        delivery.status).code := by
  obtain ⟨created, rest, rfl, hrest⟩ := talks_ask_iff.mp h
  match created with
  | .error status =>
    obtain ⟨rfl, rfl⟩ := talks_done_iff.mp hrest
    exact ⟨.error status, false, ⟨[], .kept, .ok⟩, rfl, rfl⟩
  | .ok info =>
    obtain ⟨opens, rest, rfl, hopens⟩ := talks_ask_iff.mp hrest
    match opens with
    | false =>
      obtain ⟨rfl, rfl⟩ := talks_done_iff.mp hopens
      exact ⟨.ok info, false, ⟨[], .kept, .ok⟩, rfl, rfl⟩
    | true =>
      obtain ⟨delivery, rest, rfl, hdelivery⟩ := talks_ask_iff.mp hopens
      refine ⟨.ok info, true, delivery, ?_⟩
      simp only [diagnostic, if_true]
      simp only at hdelivery
      split at hdelivery
      · rename_i hfails
        obtain ⟨rfl, rfl⟩ := talks_done_iff.mp hdelivery
        rw [if_pos hfails]
        exact ⟨rfl, rfl⟩
      · rename_i hsucceeds
        obtain ⟨rfl, rfl⟩ := talks_done_iff.mp hdelivery
        rw [if_neg hsucceeds]
        exact ⟨rfl, rfl⟩

theorem streamLogCommand_givesUp (past : Talk) (output logId : Bytes) {count : Bytes}
    (h : (parseCount count).isSome) : GivesUp past (streamLogCommand output logId count) := by
  obtain ⟨wanted, hwanted⟩ := Option.isSome_iff_exists.mp h
  simp only [streamLogCommand, hwanted]
  exact fun reply => givesUp_last Iff.rfl complains ⟨rfl, rfl⟩

theorem controlCommand_givesUp (past : Talk) (output : Bytes) {pid action : Bytes}
    (hpid : (parsePid pid).isSome) (haction : (parseControlAction action).isSome) :
    GivesUp past (controlCommand output pid action) := by
  obtain ⟨target, htarget⟩ := Option.isSome_iff_exists.mp hpid
  obtain ⟨number, hnumber⟩ := Option.isSome_iff_exists.mp haction
  simp only [controlCommand, htarget, hnumber]
  exact givesUp_checked (fun reply => ⟨.rpc (.controlProcess target number), reply⟩)
    (fun _ => Iff.rfl) fun _ => ⟨rfl, rfl⟩

/-- The arguments, behind the target, that name a command. -/
def Accepts : List Bytes → Prop
  | [] => True
  | [flag, _] => flag = ascii "--diagnostic"
  | [flag, first, second] =>
    flag = ascii "--stream-log" ∧ (parseCount second).isSome ∨
    flag = ascii "--control" ∧ (parsePid first).isSome ∧ (parseControlAction second).isSome
  | _ => False

theorem command_givesUp (decimals : Decimals) (program output : Bytes) {arguments : List Bytes}
    (h : Accepts arguments) (info : AgentInfo) :
    GivesUp [⟨.rpc .getAgentInfo, .ok info⟩] (command decimals program output arguments) := by
  match arguments, h with
  | [], _ => exact overviewCommand_givesUp decimals _ _
  | [flag, path], h =>
    obtain rfl : flag = ascii "--diagnostic" := h
    rw [command, if_pos rfl]
    exact diagnosticCommand_givesUp _ _ fun created hmem =>
      nomatch List.mem_singleton.mp hmem
  | [flag, first, second], h =>
    obtain ⟨rfl, hcount⟩ | ⟨rfl, hpid, haction⟩ := h
    · rw [command, if_pos rfl]
      exact streamLogCommand_givesUp _ _ _ hcount
    · rw [command, if_neg (by decide), if_pos rfl]
      exact controlCommand_givesUp _ _ hpid haction

theorem command_of_not_accepts (decimals : Decimals) (program output : Bytes)
    {arguments : List Bytes} (h : ¬ Accepts arguments) :
    ∃ exit, command decimals program output arguments = .done exit ∧ Complains exit := by
  have husage : Complains ⟨output, usageText program, 1⟩ := complains
  match arguments with
  | [] => exact absurd trivial h
  | [_] => exact ⟨_, rfl, husage⟩
  | [flag, path] => exact ⟨_, if_neg h, husage⟩
  | [flag, first, second] =>
    rw [command]
    split
    · rename_i hflag
      have hcount : parseCount second = none := by
        by_contra hsome
        exact h (.inl ⟨hflag, Option.isSome_iff_ne_none.mpr hsome⟩)
      rw [streamLogCommand, hcount]
      exact ⟨_, rfl, complains⟩
    · split
      · rename_i hflag
        rw [controlCommand]
        split
        · rename_i hpid haction
          exact absurd (.inr ⟨hflag, by rw [hpid]; rfl, by rw [haction]; rfl⟩) h
        · exact ⟨_, rfl, complains⟩
      · exact ⟨_, rfl, husage⟩
  | _ :: _ :: _ :: _ :: _ => exact ⟨_, rfl, husage⟩

/-- Whatever the agent and the network answer, `main` returns 0 exactly when its arguments name
a command and no call has failed. It calls nothing after a failure, and nothing but
`GetAgentInfo` for other arguments. -/
theorem main_gives_up {decimals : Decimals} {program : Bytes} {arguments : List Bytes}
    {talk : Talk} {exit : ProgramExit} (h : (main decimals program arguments).Talks talk exit) :
    (Accepts (splitTarget arguments).2 ∧ ¬ EndsInFailure talk ∧ Succeeds exit ∨
      (¬ Accepts (splitTarget arguments).2 ∨ EndsInFailure talk) ∧ Complains exit) ∧
    (∀ front, front <+: talk → front ≠ talk → ¬ EndsInFailure front) ∧
    (¬ Accepts (splitTarget arguments).2 →
      ∃ reply, talk = [⟨.rpc .getAgentInfo, reply⟩]) := by
  by_cases haccepts : Accepts (splitTarget arguments).2
  · have hmain : GivesUp [] (main decimals program arguments) :=
      givesUp_checked (fun reply => ⟨.rpc .getAgentInfo, reply⟩) (fun _ => Iff.rfl)
        fun info => command_givesUp decimals program _ haccepts info
    obtain ⟨hresult, hfronts⟩ := hmain.of_talks h not_endsInFailure_nil
    refine ⟨?_, hfronts, fun hnot => absurd haccepts hnot⟩
    obtain ⟨hfailed, hexit⟩ | ⟨hgoes, hexit⟩ := hresult
    · exact .inr ⟨.inr hfailed, hexit⟩
    · exact .inl ⟨haccepts, hgoes, hexit⟩
  · obtain ⟨reply, rest, rfl, hrest⟩ := talks_ask_iff.mp h
    -- the greeting is the only call
    have hlast : rest = [] ∧ Complains exit := by
      match reply with
      | .error status =>
        obtain ⟨rfl, rfl⟩ := talks_done_iff.mp hrest
        exact ⟨rfl, complains⟩
      | .ok info =>
        obtain ⟨last, hlast, hcomplains⟩ := command_of_not_accepts decimals program
          (agentInfoText info) haccepts
        simp only [checked, hlast] at hrest
        obtain ⟨rfl, rfl⟩ := talks_done_iff.mp hrest
        exact ⟨rfl, hcomplains⟩
    obtain ⟨rfl, hcomplains⟩ := hlast
    refine ⟨.inr ⟨.inl haccepts, hcomplains⟩, fun front hfront hne => ?_, fun _ => ⟨reply, rfl⟩⟩
    cases front with
    | nil => exact not_endsInFailure_nil
    | cons e front =>
      obtain ⟨rfl, hfront'⟩ := List.cons_prefix_cons.mp hfront
      exact absurd (by rw [List.prefix_nil.mp hfront']) hne

/-! A signal to process 8, with whatever reply. -/

def controlEight : List Bytes := [ascii "--control", ascii "8", ascii "term"]

def noDecimals : Decimals := ⟨fun _ _ => [], fun _ _ _ => []⟩

def controlTalk (reply : Except Status Unit) : Talk :=
  [⟨.rpc .getAgentInfo, .ok ⟨ascii "host", ascii "6.1", 1, ascii "1.0.0"⟩⟩,
    ⟨.rpc (.controlProcess 8 1), reply⟩]

theorem talks_controlTalk (reply : Except Status Unit) :
    ∃ exit, (main noDecimals (ascii "cli") controlEight).Talks (controlTalk reply) exit := by
  have hpid : parsePid (ascii "8") = some 8 := by decide
  have hcontrol (output : Bytes) : ∃ exit, (controlCommand output (ascii "8") (ascii "term")).Talks
      [⟨.rpc (.controlProcess 8 1), reply⟩] exit := by
    simp only [controlCommand, hpid, parseControlAction, if_true]
    cases reply with
    | error status => exact ⟨_, .ask _ _ (.done _)⟩
    | ok response => exact ⟨_, .ask _ _ (.done _)⟩
  obtain ⟨exit, hexit⟩ := hcontrol (agentInfoText ⟨ascii "host", ascii "6.1", 1, ascii "1.0.0"⟩)
  exact ⟨exit, .ask _ _ hexit⟩

theorem main_gives_up_control : ∃ exit,
    (main noDecimals (ascii "cli") controlEight).Talks
      (controlTalk (.error ⟨.permissionDenied, []⟩)) exit ∧ Complains exit := by
  obtain ⟨exit, hexit⟩ := talks_controlTalk (.error ⟨.permissionDenied, []⟩)
  refine ⟨exit, hexit, ?_⟩
  obtain ⟨-, hgoes, -⟩ | ⟨-, hcomplains⟩ := (main_gives_up hexit).1
  · exact absurd ⟨[_], _, rfl, _, rfl⟩ hgoes
  · exact hcomplains

end EdgeScope.Cli
