import EdgeScope.Agent.Capabilities
import EdgeScope.Client.CommandRuns

/-!
# What a command makes the agent do

The calls of `edgescope-cli` against the handlers of the agent. Its arguments decide which calls
it may make, so they bound what the agent does to its host, whatever the network loses.
-/

namespace EdgeScope.Cli
open Runs Dialogue EdgeScopeServiceImpl Text

def controls : List Bytes → Option (ℤ × ℤ)
  | [flag, pid, action] =>
    if flag = ascii "--control" then
      match parsePid pid, parseControlAction action with
      | some pid, some action => some (pid, action)
      | _, _ => none
    else none
  | _ => none

def MayAsk (arguments : List Bytes) : Question → Prop
  | .openOutput path => arguments = [ascii "--diagnostic", path]
  | .rpc .createDiagnosticBundle => ∃ path, arguments = [ascii "--diagnostic", path]
  | .rpc (.downloadDiagnosticBundle _) => ∃ path, arguments = [ascii "--diagnostic", path]
  | .rpc (.streamLog logId keyword startAtEnd) =>
    keyword = [] ∧ startAtEnd = true ∧
      ∃ count, arguments = [ascii "--stream-log", logId, count] ∧ (parseCount count).isSome
  | .rpc (.controlProcess pid action) => controls arguments = some (pid, action)
  | .rpc (.controlService _ _) => False
  | .rpc _ => True

theorem asks_checked {α : Type} {P : Question → Prop} {operation output : Bytes}
    {next : α → Program} (hnext : ∀ response, (next response).Asks P)
    (reply : Except Status α) : (checked operation output next reply).Asks P := by
  cases reply with
  | error status => trivial
  | ok response => exact hnext response

section Asks

variable (arguments : List Bytes)

theorem readFirstLog_asks {next : Bytes → Program}
    (hnext : ∀ output, (next output).Asks (MayAsk arguments)) (logs : List LogSourceInfo)
    (output : Bytes) : (readFirstLog next logs output).Asks (MayAsk arguments) := by
  induction logs with
  | nil => exact hnext output
  | cons log logs ih =>
    rw [readFirstLog]
    split
    · refine ⟨trivial, fun reply => ?_⟩
      cases reply with
      | error status => exact ih
      | ok content => exact hnext _
    · exact ih

theorem networkPart_asks (output : Bytes) : (networkPart output).Asks (MayAsk arguments) := by
  have hservices (output : Bytes) : (servicesPart output).Asks (MayAsk arguments) :=
    ⟨trivial, asks_checked fun _ => trivial⟩
  have hlogs (output : Bytes) : (logsPart output).Asks (MayAsk arguments) :=
    ⟨trivial, asks_checked fun logs => readFirstLog_asks arguments hservices logs _⟩
  exact ⟨trivial, asks_checked fun _ => ⟨trivial, asks_checked fun _ => hlogs _⟩⟩

theorem overviewCommand_asks (decimals : Decimals) (output : Bytes) :
    (overviewCommand decimals output).Asks (MayAsk arguments) := by
  have hprocesses (output : Bytes) : (processesPart decimals output).Asks (MayAsk arguments) := by
    refine ⟨trivial, asks_checked fun processes => ?_⟩
    cases processes with
    | nil => exact networkPart_asks arguments _
    | cons process processes =>
      exact ⟨trivial, asks_checked fun _ => networkPart_asks arguments _⟩
  refine ⟨trivial, asks_checked fun metrics => ⟨trivial, fun reply => ?_⟩⟩
  simp only
  split
  · trivial
  · exact hprocesses _

theorem diagnosticCommand_asks (output path : Bytes) :
    (diagnosticCommand output path).Asks (MayAsk [ascii "--diagnostic", path]) := by
  refine ⟨⟨path, rfl⟩, asks_checked fun created => ⟨rfl, fun opens => ?_⟩⟩
  cases opens with
  | false => trivial
  | true =>
    refine ⟨⟨path, rfl⟩, fun delivery => ?_⟩
    simp only
    split <;> trivial

theorem streamLogCommand_asks (output logId count : Bytes) :
    (streamLogCommand output logId count).Asks (MayAsk [ascii "--stream-log", logId, count]) := by
  rw [streamLogCommand]
  split
  · trivial
  · rename_i hcount
    refine ⟨⟨rfl, rfl, count, rfl, by rw [hcount]; rfl⟩, fun reply => ?_⟩
    simp only
    split <;> trivial

theorem controlCommand_asks (output pid action : Bytes) :
    (controlCommand output pid action).Asks (MayAsk [ascii "--control", pid, action]) := by
  rw [controlCommand]
  split
  · rename_i hpid haction
    refine ⟨?_, asks_checked fun _ => trivial⟩
    simp only [MayAsk, controls, if_true, hpid, haction]
  · trivial

theorem main_asks (decimals : Decimals) (program : Bytes) :
    (main decimals program arguments).Asks (MayAsk (splitTarget arguments).2) := by
  refine ⟨trivial, asks_checked fun info => ?_⟩
  match (splitTarget arguments).2 with
  | [] => exact overviewCommand_asks [] decimals _
  | [flag] => trivial
  | [flag, path] =>
    rw [command]
    split
    · rename_i hflag
      rw [hflag]
      exact diagnosticCommand_asks _ _
    · trivial
  | [flag, first, second] =>
    rw [command]
    split
    · rename_i hflag
      rw [hflag]
      exact streamLogCommand_asks _ _ _
    · split
      · rename_i hflag
        rw [hflag]
        exact controlCommand_asks _ _ _
      · trivial
  | _ :: _ :: _ :: _ :: _ => trivial

end Asks

def requests (talk : Talk) : List Request :=
  talk.filterMap fun e => match e.1 with
    | .rpc request => some request
    | .openOutput _ => none

theorem mem_requests_iff {talk : Talk} {request : Request} :
    request ∈ requests talk ↔ ∃ e ∈ talk, e.1 = .rpc request := by
  rw [requests, List.mem_filterMap]
  refine exists_congr fun e => and_congr_right fun _ => ?_
  obtain ⟨question, answer⟩ := e
  cases question with
  | rpc request' => simp
  | openOutput path => simp

/-- An effect that changes nothing: a file is opened for reading, or a service is shown. -/
def Effect.ReadsOnly : Effect → Prop
  | .signal _ _ => False
  | .systemctl arguments => arguments.head? = some (ascii "show")
  | .openLog _ => True
  | .openBundle _ => True

/-- A request allowed by the arguments, on the agent, reads only, or is the signal they name. -/
theorem permits_of_mayAsk {pid : ℕ} {config : AgentConfig} {before : List RpcCall}
    {arguments : List Bytes} {request : Request} {effect : Effect}
    (hasks : MayAsk arguments (.rpc request)) (h : Permits pid config before request effect) :
    Effect.ReadsOnly effect ∨ ∃ target action signal, controls arguments = some (target, action) ∧
      (action, signal) ∈ processSignals ∧ 1 < target ∧ target ≠ pid ∧
      effect = .signal target signal := by
  cases request with
  | controlProcess target action =>
    cases effect with
    | signal target' signal =>
      obtain ⟨rfl, hlow, hown, hsignal⟩ := h
      exact .inr ⟨target', action, signal, hasks, hsignal, hlow, hown, rfl⟩
    | _ => exact absurd h id
  | controlService name action => exact absurd hasks id
  | listServices =>
    cases effect with
    | systemctl arguments => exact .inl h.1
    | _ => exact absurd h id
  | readLog logId maxLines keyword =>
    cases effect with
    | openLog path => exact .inl trivial
    | _ => exact absurd h id
  | streamLog logId keyword startAtEnd =>
    cases effect with
    | openLog path => exact .inl trivial
    | _ => exact absurd h id
  | downloadDiagnosticBundle bundleId =>
    cases effect with
    | openBundle path => exact .inl trivial
    | _ => exact absurd h id
  | _ => cases effect <;> exact absurd h id

/-- What the agent does to its host for the calls that are marked, among those of others. -/
def effectsOfMarked (s : EdgeScopeServiceImpl) : List (RpcCall × Bool) → List Effect
  | [] => []
  | (call, marked) :: calls =>
    (if marked then (s.answer call).effects else []) ++
      effectsOfMarked (s.answer call).service calls

def markedRequests (calls : List (RpcCall × Bool)) : List Request :=
  (calls.filter Prod.snd).map fun call => call.1.request

theorem mem_effectsOfMarked {pid : ℕ} {config : AgentConfig} {calls : List (RpcCall × Bool)}
    {before : List RpcCall} {effect : Effect}
    (h : effect ∈ effectsOfMarked ((create pid config).serve before) calls) :
    ∃ call earlier, call.request ∈ markedRequests calls ∧
      effect ∈ (((create pid config).serve earlier).answer call).effects := by
  induction calls generalizing before with
  | nil => cases h
  | cons call calls ih =>
    obtain ⟨call, marked⟩ := call
    rw [effectsOfMarked, List.mem_append] at h
    obtain h | h := h
    · cases marked with
      | true => exact ⟨call, before, List.mem_cons_self, h⟩
      | false => cases h
    · rw [← serve_append] at h
      obtain ⟨call', earlier, hmem, heffect⟩ := ih h
      refine ⟨call', earlier, ?_, heffect⟩
      cases marked with
      | true => exact List.mem_cons_of_mem _ hmem
      | false => exact hmem

def isControl : Request → Bool
  | .controlProcess _ _ => true
  | _ => false

theorem countP_answer_le {config : AgentConfig} (hconfig : config.HasServiceNames) (pid : ℕ)
    (before : List RpcCall) (call : RpcCall) :
    (((create pid config).serve before).answer call).effects.countP Effect.isSignal ≤
      [call.request].countP isControl := by
  by_cases hcontrol : isControl call.request = true
  · rw [List.countP_singleton, if_pos hcontrol]
    exact answer_signals hconfig pid before call
  · refine (List.countP_eq_zero.mpr fun effect heffect hsignal => ?_).trans_le (Nat.zero_le _)
    have hpermits := answer_permits hconfig pid before call effect heffect
    obtain ⟨request, host⟩ := call
    cases effect with
    | signal target signal =>
      cases request with
      | controlProcess target action => exact hcontrol rfl
      | _ => exact hpermits
    | _ => cases hsignal

theorem countP_effectsOfMarked_le {config : AgentConfig} (hconfig : config.HasServiceNames)
    (pid : ℕ) (before : List RpcCall) (calls : List (RpcCall × Bool)) :
    (effectsOfMarked ((create pid config).serve before) calls).countP Effect.isSignal ≤
      (markedRequests calls).countP isControl := by
  induction calls generalizing before with
  | nil => exact le_rfl
  | cons call calls ih =>
    obtain ⟨call, marked⟩ := call
    have hrest := ih (before ++ [call])
    rw [serve_append] at hrest
    rw [effectsOfMarked, List.countP_append]
    cases marked with
    | true =>
      have hcall := countP_answer_le hconfig pid before call
      have hsplit : markedRequests ((call, true) :: calls) =
          [call.request] ++ markedRequests calls := rfl
      rw [hsplit, List.countP_append]
      exact Nat.add_le_add hcall hrest
    | false => simpa [markedRequests] using hrest

theorem controls_eq_some_iff {arguments : List Bytes} {target action : ℤ} :
    controls arguments = some (target, action) ↔
      ∃ pidText actionText, arguments = [ascii "--control", pidText, actionText] ∧
        parsePid pidText = some target ∧ parseControlAction actionText = some action := by
  constructor
  · intro h
    unfold controls at h
    split at h
    · rename_i flag pidText actionText
      split_ifs at h with hflag
      split at h
      · rename_i hpid haction
        cases h
        exact ⟨pidText, actionText, by rw [hflag], hpid, haction⟩
      · cases h
    · cases h
  · rintro ⟨pidText, actionText, rfl, hpid, haction⟩
    simp only [controls, if_true, hpid, haction]

theorem talks_of_controls {decimals : Decimals} {program : Bytes} {arguments : List Bytes}
    {talk : Talk} {exit : ProgramExit} (h : (main decimals program arguments).Talks talk exit)
    {target action : ℤ} (hcontrols : controls (splitTarget arguments).2 = some (target, action)) :
    (∃ status, talk = [⟨.rpc .getAgentInfo, .error status⟩] ∧ exit.code = 1) ∨
    ∃ info reply, talk = [⟨.rpc .getAgentInfo, .ok info⟩,
        ⟨.rpc (.controlProcess target action), reply⟩] ∧
      (exit.code = 0 ↔ reply = (.ok () : Except Status Unit)) := by
  obtain ⟨pidText, actionText, harguments, hpid, haction⟩ := controls_eq_some_iff.mp hcontrols
  obtain ⟨greeting, rest, rfl, hrest⟩ := talks_ask_iff.mp h
  cases greeting with
  | error status =>
    obtain ⟨rfl, rfl⟩ := talks_done_iff.mp hrest
    exact .inl ⟨status, rfl, rfl⟩
  | ok info =>
    rw [harguments] at hrest
    simp only [checked, command, controlCommand, hpid, haction, if_true,
      if_neg (show ascii "--control" ≠ ascii "--stream-log" by decide)] at hrest
    obtain ⟨reply, last, rfl, hlast⟩ := talks_ask_iff.mp hrest
    refine .inr ⟨info, reply, ?_⟩
    cases reply with
    | error status =>
      obtain ⟨rfl, rfl⟩ := talks_done_iff.mp hlast
      exact ⟨rfl, iff_of_false one_ne_zero (by simp)⟩
    | ok done =>
      obtain ⟨rfl, rfl⟩ := talks_done_iff.mp hlast
      exact ⟨rfl, iff_of_true rfl rfl⟩

theorem countP_requests_le {decimals : Decimals} {program : Bytes} {arguments : List Bytes}
    {talk : Talk} {exit : ProgramExit} (h : (main decimals program arguments).Talks talk exit) :
    (requests talk).countP isControl ≤ 1 := by
  by_cases hcontrol : ∃ request ∈ requests talk, isControl request = true
  · obtain ⟨request, hmem, hrequest⟩ := hcontrol
    obtain ⟨e, he, hquestion⟩ := mem_requests_iff.mp hmem
    have hasks := (main_asks arguments decimals program).of_talks h e he
    rw [hquestion] at hasks
    cases request with
    | controlProcess target action =>
      obtain ⟨status, rfl, -⟩ | ⟨info, reply, rfl, -⟩ := talks_of_controls h hasks
      · exact Nat.zero_le 1
      · exact le_rfl
    | _ => cases hrequest
  · refine (List.countP_eq_zero.mpr fun request hmem hrequest => ?_).trans_le (Nat.zero_le 1)
    exact hcontrol ⟨request, hmem, hrequest⟩

/-- Whatever is lost on the way and whoever else calls the agent in between: for a command the
agent does nothing to its host but read, unless the command is a signal, which it sends at most
once and only to another process than itself and `init`. And only a download leaves something in
the agent. -/
theorem main_effects {decimals : Decimals} {program : Bytes} {arguments : List Bytes}
    {talk : Talk} {exit : ProgramExit} (h : (main decimals program arguments).Talks talk exit)
    {path : Bytes} {text : Option Bytes} {config : AgentConfig}
    (hload : AgentConfig.load path text = .ok config) (pid : ℕ) (before : List RpcCall)
    (calls : List (RpcCall × Bool)) (hcalls : (markedRequests calls).Sublist (requests talk)) :
    (∀ effect ∈ effectsOfMarked ((create pid config).serve before) calls,
      Effect.ReadsOnly effect ∨ ∃ target action signal,
        controls (splitTarget arguments).2 = some (target, action) ∧
        (action, signal) ∈ processSignals ∧ 1 < target ∧ target ≠ pid ∧
        effect = .signal target signal) ∧
    (effectsOfMarked ((create pid config).serve before) calls).countP Effect.isSignal ≤ 1 ∧
    ((∀ output, (splitTarget arguments).2 ≠ [ascii "--diagnostic", output]) →
      ∀ call s, call.request ∈ requests talk → (answer s call).service = s) := by
  have hconfig := AgentConfig.hasServiceNames_of_load hload
  have hasks {request : Request} (hmem : request ∈ requests talk) :
      MayAsk (splitTarget arguments).2 (.rpc request) := by
    obtain ⟨e, he, hquestion⟩ := mem_requests_iff.mp hmem
    exact hquestion ▸ (main_asks arguments decimals program).of_talks h e he
  refine ⟨fun effect heffect => ?_, ?_, fun hother call s hmem => ?_⟩
  · obtain ⟨call, earlier, hmem, hanswer⟩ := mem_effectsOfMarked heffect
    exact permits_of_mayAsk (hasks (hcalls.subset hmem))
      (answer_permits hconfig pid earlier call effect hanswer)
  · exact (countP_effectsOfMarked_le hconfig pid before calls).trans
      (hcalls.countP_le.trans (countP_requests_le h))
  · apply answer_service_of_ne
    intro hcreate
    obtain ⟨output, houtput⟩ : MayAsk _ (.rpc .createDiagnosticBundle) := hcreate ▸ hasks hmem
    exact hother output houtput

/-- The call for the signal is served between those of others, and the greeting is lost. -/
theorem main_effects_eight :
    (effectsOfMarked (create 7 .default) [(⟨.controlProcess 9 2, .quiet⟩, false),
      (⟨.controlProcess 8 1, .quiet⟩, true)]).countP Effect.isSignal ≤ 1 := by
  obtain ⟨exit, hexit⟩ := talks_controlTalk (.ok ())
  have hload : AgentConfig.load [] (some []) = .ok .default := rfl
  exact (main_effects hexit hload 7 [] [(⟨.controlProcess 9 2, .quiet⟩, false),
    (⟨.controlProcess 8 1, .quiet⟩, true)] (List.sublist_cons_self _ _)).2.1

/-- A number from 1 to the largest pid. It may have white space and a plus sign in front. -/
def IsPidText (text : Bytes) (pid : ℤ) : Prop :=
  ∃ blank sign digits, text = blank ++ (sign ++ digits) ∧ IsBlank blank ∧
    (sign = [] ∨ sign = [charByte '+']) ∧ IsDigits digits ∧ pid = digitsValue digits ∧
    1 ≤ pid ∧ pid ≤ 2 ^ 31 - 1

theorem parsePid_eq_some_iff {text : Bytes} {pid : ℤ} :
    parsePid text = some pid ↔ IsPidText text pid := by
  have hread : parsePid text = some pid ↔
      stoll text = some (pid, text.length) ∧ 1 ≤ pid ∧ pid ≤ 2 ^ 31 - 1 := by
    unfold parsePid
    cases stoll text with
    | none => simp
    | some result =>
      obtain ⟨parsed, characters⟩ := result
      simp only [Option.some.injEq, Prod.mk.injEq]
      split_ifs with hrejected
      · refine iff_of_false nofun ?_
        rintro ⟨⟨rfl, rfl⟩, hlow, hhigh⟩
        omega
      · rw [Option.some.injEq]
        constructor
        · rintro rfl
          omega
        · exact fun h => h.1.1
  rw [hread, stoll_eq_some_length_iff]
  constructor
  · rintro ⟨⟨blank, sign, digits, hsplit, hblank, hsign, hdigits, hvalue, -⟩, hlow, hhigh⟩
    have hplain : sign ≠ [charByte '-'] := by
      rintro rfl
      rw [integerValue, if_pos rfl] at hvalue
      omega
    rw [integerValue, if_neg hplain] at hvalue
    refine ⟨blank, sign, digits, hsplit, hblank, ?_, hdigits, hvalue, hlow, hhigh⟩
    obtain rfl | rfl | rfl := hsign
    · exact .inl rfl
    · exact absurd rfl hplain
    · exact .inr rfl
  · rintro ⟨blank, sign, digits, hsplit, hblank, hsign, hdigits, hvalue, hlow, hhigh⟩
    have hplain : sign ≠ [charByte '-'] := by
      obtain rfl | rfl := hsign <;> decide
    refine ⟨⟨blank, sign, digits, hsplit, hblank, ?_, hdigits, ?_, by omega, by omega⟩, hlow,
      hhigh⟩
    · exact hsign.imp_right .inr
    · rw [integerValue, if_neg hplain, hvalue]

def signalWords : List (Bytes × Signal) :=
  [(ascii "term", .sigterm), (ascii "kill", .sigkill), (ascii "stop", .sigstop),
    (ascii "continue", .sigcont)]

theorem signalWords_iff {word : Bytes} {signal : Signal} :
    (word, signal) ∈ signalWords ↔ ∃ number action, parseControlAction word = some number ∧
      processAction number = some action ∧ ProcessController.signalNumber action = signal := by
  constructor
  · intro h
    simp only [signalWords, List.mem_cons, Prod.mk.injEq, List.not_mem_nil, or_false] at h
    obtain ⟨rfl, rfl⟩ | ⟨rfl, rfl⟩ | ⟨rfl, rfl⟩ | ⟨rfl, rfl⟩ := h
    · exact ⟨1, .terminate, by decide, rfl, rfl⟩
    · exact ⟨2, .kill, by decide, rfl, rfl⟩
    · exact ⟨3, .stop, by decide, rfl, rfl⟩
    · exact ⟨4, .continue', by decide, rfl, rfl⟩
  · rintro ⟨number, action, hword, haction, rfl⟩
    unfold parseControlAction at hword
    split_ifs at hword with h₁ h₂ h₃ h₄
    all_goals
      cases hword
      cases haction
      subst word
      simp [signalWords, ProcessController.signalNumber]

theorem exists_processAction {word : Bytes} {number : ℤ}
    (h : parseControlAction word = some number) :
    ∃ action, processAction number = some action := by
  unfold parseControlAction at h
  split_ifs at h <;> cases h <;> exact ⟨_, rfl⟩

/-- The reply to a call whose response has no fields, when nothing is lost on the way. -/
def arrived (answer : Answer) : Except Status Unit :=
  if answer.status.code = .ok then .ok () else .error answer.status

theorem arrived_controlProcess_iff (host : Host) (s : EdgeScopeServiceImpl) {target number : ℤ}
    {action : ProcessControlAction} (h : processAction number = some action) :
    arrived (s.answer ⟨.controlProcess target number, host⟩) = .ok () ↔
      1 < target ∧ target ≠ s.getpid ∧
        host.kill target (ProcessController.signalNumber action) = none := by
  have hanswer : s.answer ⟨.controlProcess target number, host⟩ =
      reply s ((ProcessController.control s.getpid host.kill target action).signals.map
        fun sent => .signal sent.1 sent.2) processControlStatus (fun _ => .controlProcess)
        (ProcessController.control s.getpid host.kill target action).result := by
    simp only [answer, handle, controlProcess, h]
  have hfails (error : ProcessControlError × Bytes) (effects : List Effect) :
      arrived (reply s effects processControlStatus (fun _ => .controlProcess)
        (.error error : Except _ Unit)) ≠ .ok () := by
    rw [arrived, reply, if_neg (processControlStatus_ne_ok error)]
    intro hok
    cases hok
  rw [hanswer, ProcessController.control]
  split_ifs with hlow hown
  · exact iff_of_false (hfails _ _) fun hguard => by omega
  · exact iff_of_false (hfails _ _) fun hguard => hguard.2.1 hown
  · cases hkill : host.kill target (ProcessController.signalNumber action) with
    | none => exact iff_of_true rfl ⟨by omega, hown, rfl⟩
    | some errno =>
      refine iff_of_false (hfails _ _) fun hguard => ?_
      cases hguard.2.2

/-- With a network that answers, `--control` returns 0 exactly when its two words name another
process than `init` and the agent, and a signal that the process has taken. -/
theorem main_control_iff {decimals : Decimals} {program : Bytes} {arguments : List Bytes}
    {pidText word : Bytes}
    (harguments : (splitTarget arguments).2 = [ascii "--control", pidText, word])
    {talk : Talk} {exit : ProgramExit} (h : (main decimals program arguments).Talks talk exit)
    (pid : ℕ) (config : AgentConfig) (before : List RpcCall) (host : Host)
    (hgreeting : ∀ status, ⟨.rpc .getAgentInfo, .error status⟩ ∉ talk)
    (hreplies : ∀ target action reply, ⟨.rpc (.controlProcess target action), reply⟩ ∈ talk →
      reply = arrived (((create pid config).serve before).answer
        ⟨.controlProcess target action, host⟩)) :
    exit.code = 0 ↔ ∃ target signal, IsPidText pidText target ∧ (word, signal) ∈ signalWords ∧
      1 < target ∧ target ≠ pid ∧ host.kill target signal = none := by
  have hown := (configured_serve pid config before).getpid
  simp only [← parsePid_eq_some_iff, signalWords_iff]
  by_cases hcontrols : ∃ target number, controls [ascii "--control", pidText, word] =
      some (target, number)
  · obtain ⟨target, number, hsome⟩ := hcontrols
    obtain ⟨_, _, hwords, hpid, hword⟩ := controls_eq_some_iff.mp hsome
    cases hwords
    obtain ⟨action, haction⟩ := exists_processAction hword
    obtain ⟨status, rfl, -⟩ | ⟨info, reply, rfl, hcode⟩ := talks_of_controls h (harguments ▸ hsome)
    · exact absurd List.mem_cons_self (hgreeting status)
    · obtain rfl := hreplies target number reply (List.mem_cons_of_mem _ List.mem_cons_self)
      refine hcode.trans ((arrived_controlProcess_iff host _ haction).trans ?_)
      rw [hown]
      constructor
      · exact fun htaken => ⟨target, _, hpid, ⟨number, action, hword, haction, rfl⟩, htaken⟩
      · rintro ⟨target', signal, hpid', ⟨number', action', hword', haction', rfl⟩, htaken⟩
        obtain rfl := Option.some.inj (hpid.symm.trans hpid')
        obtain rfl := Option.some.inj (hword.symm.trans hword')
        obtain rfl := Option.some.inj (haction.symm.trans haction')
        exact htaken
  · -- the words name no signal to no process
    have hrefused : ¬ Accepts [ascii "--control", pidText, word] := by
      rintro (⟨hflag, -⟩ | ⟨-, hpid, hword⟩)
      · exact absurd hflag (by decide)
      · obtain ⟨target, htarget⟩ := Option.isSome_iff_exists.mp hpid
        obtain ⟨number, hnumber⟩ := Option.isSome_iff_exists.mp hword
        exact hcontrols ⟨target, number, controls_eq_some_iff.mpr
          ⟨pidText, word, rfl, htarget, hnumber⟩⟩
    refine iff_of_false (fun hcode => ?_) ?_
    · obtain ⟨greeting, rest, rfl, hrest⟩ := talks_ask_iff.mp h
      match greeting with
      | .error status => exact hgreeting status List.mem_cons_self
      | .ok info =>
        obtain ⟨last, hlast, hcomplains⟩ := command_of_not_accepts decimals program
          (agentInfoText info) hrefused
        simp only [checked, harguments, hlast] at hrest
        obtain ⟨-, rfl⟩ := talks_done_iff.mp hrest
        exact absurd (hcode.symm.trans hcomplains.code) (by decide)
    · rintro ⟨target, signal, hpid, ⟨number, action, hword, -⟩, -⟩
      exact hcontrols ⟨target, number, controls_eq_some_iff.mpr
        ⟨pidText, word, rfl, hpid, hword⟩⟩

/-- The agent 7 takes a signal to process 8, and the reply says so. -/
theorem main_control_eight : ∃ exit,
    (main noDecimals (ascii "cli") controlEight).Talks (controlTalk (.ok ())) exit ∧
      exit.code = 0 := by
  obtain ⟨exit, hexit⟩ := talks_controlTalk (.ok ())
  have harguments : (splitTarget controlEight).2 = [ascii "--control", ascii "8", ascii "term"] :=
    rfl
  refine ⟨exit, hexit, (main_control_iff harguments hexit 7 .default [] .quiet ?_ ?_).mpr
    ⟨8, .sigterm, ?_, List.mem_cons_self, by decide, by decide, rfl⟩⟩
  · intro status hmem
    obtain hmem | hmem := List.mem_pair.mp hmem <;> cases hmem
  · intro target action reply hmem
    obtain hmem | hmem := List.mem_pair.mp hmem <;> cases hmem
    rfl
  · exact ⟨[], [], ascii "8", by decide, by decide, .inl rfl, by decide, by decide, by decide,
      by decide⟩

end EdgeScope.Cli
