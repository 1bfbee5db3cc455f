import EdgeScope.Agent.BundleRegistry
import EdgeScope.Agent.EdgeScopeServiceImpl

/-!
# What the agent may do to its host

For every request, which effects its handler may have, and that a request outside these limits
has none and is refused.
-/

namespace EdgeScope
open Text

def Effect.isSignal : Effect → Bool
  | .signal _ _ => true
  | _ => false

namespace BundleDownload

variable {collector : DiagnosticCollector} {bundleId : Bytes}

structure Opens (collector : DiagnosticCollector) (bundleId : Bytes) (d : Download) : Prop where
  opened : ∀ path ∈ d.opened, ∃ size, collector.getBundlePath bundleId = .ok (path, size)
  found : ∀ path size, d.phase = .found path size →
    collector.getBundlePath bundleId = .ok (path, size)

theorem Opens.step {d : Download} (h : Opens collector bundleId d) (m : Moment) :
    Opens collector bundleId (step collector bundleId m d) := by
  unfold BundleDownload.step
  split
  · refine ⟨h.opened, fun path size hfound => ?_⟩
    obtain ⟨status, hlookUp⟩ | ⟨path', size', hget, hlookUp⟩ := lookUp_cases collector bundleId
    · simp [hlookUp] at hfound
    · simp only [hlookUp, Phase.found.injEq] at hfound
      obtain ⟨rfl, rfl⟩ := hfound
      exact hget
  · rename_i path size hphase
    refine ⟨fun path' hpath' => ?_, fun path' size' hfound => ?_⟩
    · obtain hpath' | hpath' := List.mem_append.mp hpath'
      · exact h.opened path' hpath'
      · obtain rfl := List.mem_singleton.mp hpath'
        exact ⟨size, h.found _ _ hphase⟩
    · obtain ⟨status, hopen⟩ | ⟨contents, -, hopen⟩ :=
        openArchive_cases collector.tree m path size
      · simp [hopen] at hfound
      · simp [hopen] at hfound
  · rename_i s hphase
    have hearly : ¬ d.phase.Early := by simp [hphase, Phase.Early]
    have hstep := step_not_early hearly collector bundleId m
    simp only [BundleDownload.step, hphase] at hstep
    refine ⟨?_, fun path size hfound => by simp [hfound, Phase.Early] at hstep⟩
    unfold sendChunk
    split
    · exact h.opened
    · simp only
      split <;> exact h.opened
  · exact ⟨h.opened, by simp⟩
  · exact h

theorem Opens.run (ms : List Moment) {d : Download} (h : Opens collector bundleId d) :
    Opens collector bundleId
      (ms.foldl (fun d m => BundleDownload.step collector bundleId m d) d) := by
  induction ms generalizing d with
  | nil => exact h
  | cons m ms ih => exact ih (h.step m)

theorem run_finished (ms : List Moment) {d : Download} {status : Status}
    (h : d.phase = .finished status) :
    ms.foldl (fun d m => step collector bundleId m d) d = d := by
  induction ms with
  | nil => rfl
  | cons m ms ih => simpa only [List.foldl_cons, step, h] using ih

/-- A lookup that fails ends the download. -/
theorem lookUp_of_unregistered (h : ¬ ∃ b ∈ collector.bundles, b.info.id = bundleId) :
    ∃ status, status.code ≠ .ok ∧ lookUp collector bundleId = .finished status := by
  unfold lookUp
  split
  · exact ⟨_, by simp, rfl⟩
  · rw [DiagnosticCollector.getBundlePath_eq_error fun b hb hid => h ⟨b, hb, hid⟩]
    exact ⟨_, by simp, rfl⟩

end BundleDownload

namespace EdgeScopeServiceImpl
open DiagnosticCollector

def CreatedBy (s : EdgeScopeServiceImpl) (calls : List RpcCall) (info : DiagnosticBundleInfo) :
    Prop :=
  ∃ before call after, calls = before ++ call :: after ∧
    call.request = .createDiagnosticBundle ∧
    ((s.serve before).answer call).messages = [.bundle info] ∧
    ((s.serve before).answer call).status = .ok

theorem CreatedBy.append {s : EdgeScopeServiceImpl} {calls : List RpcCall}
    {info : DiagnosticBundleInfo} (h : CreatedBy s calls info) (call : RpcCall) :
    CreatedBy s (calls ++ [call]) info := by
  obtain ⟨before, creating, after, rfl, hcreated⟩ := h
  exact ⟨before, creating, after ++ [call], by simp, hcreated⟩

/-- The collector of a service has a sound history, made by the calls. -/
theorem exists_ledger (pid : ℕ) (config : AgentConfig) (calls : List RpcCall) :
    ∃ l : Ledger, l.Sound ∧
      l.collector = ((create pid config).serve calls).diagnosticCollector ∧
      ∀ c ∈ l.created, CreatedBy (create pid config) calls c.stored.info ∧
        c.stored.path = [c.stored.info.filename] := by
  induction calls using List.reverseRecOn with
  | nil => exact ⟨_, Ledger.sound_start pid (.create config.logFile), rfl, by simp [Ledger.start]⟩
  | append_singleton calls call ih =>
    obtain ⟨l, hsound, hcollector, hcreated⟩ := ih
    have hold : ∀ c ∈ l.created, CreatedBy (create pid config) (calls ++ [call]) c.stored.info ∧
        c.stored.path = [c.stored.info.filename] :=
      fun c hc => ⟨(hcreated c hc).1.append call, (hcreated c hc).2⟩
    rw [serve_append]
    -- only `CreateDiagnosticBundle` changes the collector
    by_cases hrequest : call.request = .createDiagnosticBundle
    · obtain ⟨request, host⟩ := call
      obtain rfl : request = .createDiagnosticBundle := hrequest
      cases hlatest : host.latest with
      | error error =>
        refine ⟨l, hsound, ?_, hold⟩
        simp only [answer, handle, createDiagnosticBundle, hlatest, hcollector]
      | ok latest =>
        let bundleCall : BundleCall := ⟨host.bundle, latest.1, ⟨[], [], 0, 0⟩⟩
        have hanswer : ((create pid config).serve calls).answer ⟨.createDiagnosticBundle, host⟩ =
            reply { (create pid config).serve calls with
              diagnosticCollector := (bundleCall.result l.collector).collector } [] internal
              (fun _ => .bundle (bundleCall.result l.collector).bundle)
              (bundleCall.result l.collector).outcome := by
          simp only [answer, handle, createDiagnosticBundle, hlatest, hcollector, bundleCall,
            BundleCall.result]
        refine ⟨l.step bundleCall, (hsound.step bundleCall).1, ?_, fun c hc => ?_⟩
        · rw [hanswer, reply_service]
          rfl
        · obtain hc | hc := List.mem_append.mp hc
          · exact hold c hc
          · unfold CreateResult.created at hc
            split at hc
            · simp at hc
            · rename_i houtcome
              obtain rfl := List.mem_singleton.mp hc
              refine ⟨⟨calls, _, [], rfl, rfl, ?_, ?_⟩, rfl⟩
              · rw [hanswer, houtcome]
                rfl
              · rw [hanswer, houtcome]
                rfl
    · rw [answer_service_of_ne hrequest]
      exact ⟨l, hsound, hcollector, hold⟩

/-- The numbers of the actions of the protocol, and the signals and verbs they name. -/
def processSignals : List (ℤ × Signal) :=
  [(1, .sigterm), (2, .sigkill), (3, .sigstop), (4, .sigcont)]

def serviceVerbs : List (ℤ × Bytes) :=
  [(1, ascii "start"), (2, ascii "stop"), (3, ascii "restart")]

def allowedLogs (config : AgentConfig) : List AllowedLog :=
  (LogCollector.create config.logFile).allowedLogs

/-- The effects a request may have on the agent with this pid after `calls`. -/
def Permits (pid : ℕ) (config : AgentConfig) (calls : List RpcCall) : Request → Effect → Prop
  | .controlProcess target action, .signal target' signal =>
    target' = target ∧ 1 < target ∧ target ≠ pid ∧ (action, signal) ∈ processSignals
  | .listServices, .systemctl arguments =>
    arguments.head? = some (ascii "show") ∧
      ∃ name ∈ config.allowedServices, arguments.getLast? = some name
  | .controlService name action, .systemctl arguments =>
    name ∈ config.allowedServices ∧ arguments.getLast? = some name ∧
      ∃ verb, (action, verb) ∈ serviceVerbs ∧ arguments.head? = some verb
  | .readLog logId _ _, .openLog path =>
    ∃ log ∈ allowedLogs config, log.id = logId ∧ log.path = path
  | .streamLog logId _ _, .openLog path =>
    ∃ log ∈ allowedLogs config, log.id = logId ∧ log.path = path
  | .downloadDiagnosticBundle bundleId, .openBundle path =>
    ∃ b ∈ ((create pid config).serve calls).diagnosticCollector.bundles, b.info.id = bundleId ∧
      b.path = path ∧ path = [b.info.filename] ∧ CreatedBy (create pid config) calls b.info
  | _, _ => False

def Within (pid : ℕ) (config : AgentConfig) (calls : List RpcCall) : Request → Prop
  | .controlProcess target action =>
    1 < target ∧ target ≠ pid ∧ ∃ signal, (action, signal) ∈ processSignals
  | .controlService name action =>
    name ∈ config.allowedServices ∧ ∃ verb, (action, verb) ∈ serviceVerbs
  | .readLog logId _ _ => ∃ log ∈ allowedLogs config, log.id = logId
  | .streamLog logId _ _ => ∃ log ∈ allowedLogs config, log.id = logId
  | .downloadDiagnosticBundle bundleId =>
    ∃ b ∈ ((create pid config).serve calls).diagnosticCollector.bundles, b.info.id = bundleId
  | _ => True

theorem reply_effects {ε α : Type} (s : EdgeScopeServiceImpl) (effects : List Effect)
    (status : ε → Status) (message : α → Message) (result : Except ε α) :
    (reply s effects status message result).effects = effects := by
  cases result <;> rfl

theorem mem_processSignals {number : ℤ} {action : ProcessControlAction}
    (h : processAction number = some action) :
    (number, ProcessController.signalNumber action) ∈ processSignals := by
  unfold processAction at h
  split at h <;> cases h <;> decide

theorem mem_serviceVerbs {number : ℤ} {action : ServiceAction}
    (h : serviceAction number = some action) :
    (number, ServiceManager.operation action) ∈ serviceVerbs := by
  unfold serviceAction at h
  split at h <;> cases h <;> decide

theorem childArguments_eq {config : AgentConfig} (h : config.HasServiceNames) {name : Bytes}
    (hname : name ∈ config.allowedServices) :
    ServiceManager.childArguments (ServiceManager.showArguments name) =
        ServiceManager.showArguments name ∧
      ∀ action, ServiceManager.childArguments (ServiceManager.controlArguments name action) =
        ServiceManager.controlArguments name action := by
  have hbytes : 0 ∉ name := fun hb =>
    absurd (AgentConfig.isServiceNameByte_range (h name hname 0 hb)).1 (by decide)
  constructor
  · refine ServiceManager.childArguments_eq_self ?_
    simp only [ServiceManager.showArguments, List.forall_mem_cons]
    exact ⟨by decide, by decide, by decide, hbytes, by simp⟩
  · intro action
    refine ServiceManager.childArguments_eq_self ?_
    simp only [ServiceManager.controlArguments, List.forall_mem_cons]
    exact ⟨by cases action <;> decide, by decide, hbytes, by simp⟩

/-- The parts of a service that no call changes. -/
structure Configured (pid : ℕ) (config : AgentConfig) (s : EdgeScopeServiceImpl) : Prop where
  getpid : s.getpid = pid
  allowedServices : s.allowedServices = config.allowedServices
  allowedLogs : s.logCollector.allowedLogs = EdgeScopeServiceImpl.allowedLogs config

theorem configured_serve (pid : ℕ) (config : AgentConfig) (calls : List RpcCall) :
    Configured pid config ((create pid config).serve calls) := by
  obtain ⟨collector, hserve⟩ := (create pid config).serve_service calls
  rw [hserve]
  exact ⟨rfl, rfl, rfl⟩

section Handlers

variable {pid : ℕ} {config : AgentConfig} {calls : List RpcCall} {s : EdgeScopeServiceImpl}
  {host : Host}

theorem controlProcess_effects (h : Configured pid config s) (host : Host) (target action : ℤ) :
    (∃ signal, (action, signal) ∈ processSignals ∧ 1 < target ∧ target ≠ pid ∧
      (controlProcess host s target action).effects = [.signal target signal]) ∨
    (controlProcess host s target action).effects = [] := by
  unfold controlProcess
  cases haction : processAction action with
  | none => exact .inr rfl
  | some control =>
    simp only [reply_effects, ProcessController.control_signals, h.getpid]
    split
    · rename_i hguard
      exact .inl ⟨_, mem_processSignals haction, hguard.1, hguard.2, rfl⟩
    · exact .inr rfl

theorem listServices_permits (h : Configured pid config s) (hconfig : config.HasServiceNames) :
    ∀ effect ∈ (listServices host s).effects, Permits pid config calls .listServices effect := by
  intro effect heffect
  simp only [listServices, reply_effects, systemctlRuns] at heffect
  obtain ⟨arguments, harguments, rfl⟩ := List.mem_map.mp heffect
  obtain ⟨name, hname, rfl⟩ := ServiceManager.mem_listServices_commands harguments
  rw [h.allowedServices] at hname
  rw [(childArguments_eq hconfig hname).1]
  exact ⟨rfl, name, hname, rfl⟩

theorem controlService_permits (h : Configured pid config s) (hconfig : config.HasServiceNames)
    (name : Bytes) (action : ℤ) : ∀ effect ∈ (controlService host s name action).effects,
      Permits pid config calls (.controlService name action) effect := by
  intro effect heffect
  unfold controlService at heffect
  cases haction : serviceAction action with
  | none => simp [haction, refuse] at heffect
  | some control =>
    simp only [haction, reply_effects, systemctlRuns] at heffect
    obtain ⟨arguments, harguments, rfl⟩ := List.mem_map.mp heffect
    obtain ⟨-, hname, rfl⟩ := ServiceManager.mem_controlService_commands harguments
    rw [h.allowedServices] at hname
    rw [(childArguments_eq hconfig hname).2]
    exact ⟨hname, rfl, _, mem_serviceVerbs haction, rfl⟩

theorem readLog_permits (h : Configured pid config s) (logId : Bytes) (maxLines : ℕ)
    (keyword : Bytes) : ∀ effect ∈ (readLog host s logId maxLines keyword).effects,
      Permits pid config calls (.readLog logId maxLines keyword) effect := by
  intro effect heffect
  simp only [readLog, reply_effects, LogCollector.checkRead] at heffect
  cases hlog : s.logCollector.findAllowedLog logId with
  | none => simp [hlog] at heffect
  | some log =>
    obtain ⟨hmem, hid⟩ := LogCollector.mem_of_findAllowedLog hlog
    rw [h.allowedLogs] at hmem
    simp only [hlog] at heffect
    split at heffect
    · simp at heffect
    · rename_i hchecked
      split_ifs at hchecked
      cases hchecked
      rw [List.mem_singleton.mp heffect]
      exact ⟨log, hmem, hid, rfl⟩

theorem streamLog_permits (h : Configured pid config s) (logId keyword : Bytes)
    (startAtEnd : Bool) : ∀ effect ∈ (streamLog host s logId keyword startAtEnd).effects,
      Permits pid config calls (.streamLog logId keyword startAtEnd) effect := by
  intro effect heffect
  unfold streamLog at heffect
  split at heffect
  · simp [refuse] at heffect
  · unfold LogCollector.resolveLogPath at heffect
    cases hlog : s.logCollector.findAllowedLog logId with
    | none => simp [hlog] at heffect
    | some log =>
      obtain ⟨hmem, hid⟩ := LogCollector.mem_of_findAllowedLog hlog
      rw [h.allowedLogs] at hmem
      simp only [hlog] at heffect
      split at heffect
      · simp [refuse] at heffect
      · rw [List.eq_of_mem_replicate heffect]
        exact ⟨log, hmem, hid, rfl⟩

theorem download_permits (bundleId : Bytes) :
    ∀ effect ∈ (downloadDiagnosticBundle host ((create pid config).serve calls) bundleId).effects,
      Permits pid config calls (.downloadDiagnosticBundle bundleId) effect := by
  intro effect heffect
  obtain ⟨path, hpath, rfl⟩ := List.mem_map.mp heffect
  obtain ⟨l, hsound, hcollector, hcreated⟩ := exists_ledger pid config calls
  have hopens : BundleDownload.Opens ((create pid config).serve calls).diagnosticCollector bundleId
      (download host ((create pid config).serve calls) bundleId) :=
    BundleDownload.Opens.run _ ⟨by simp [BundleDownload.start], by simp [BundleDownload.start]⟩
  obtain ⟨size, hget⟩ := hopens.opened path hpath
  rw [← hcollector] at hget
  obtain ⟨b, hb, hid, hbpath, -⟩ := (getBundlePath_eq_ok_iff hsound.bundles_nodup ..).mp hget
  have hentry := hb
  rw [hsound.bundles] at hentry
  obtain ⟨c, hc, rfl⟩ := List.mem_map.mp hentry
  obtain ⟨hby, hfilename⟩ := hcreated c (mem_of_mem_rtake hc)
  rw [hcollector] at hb
  exact ⟨c.stored, hb, hid, hbpath, hbpath.symm.trans hfilename, hby⟩

structure Refused (answer : Answer) : Prop where
  effects : answer.effects = []
  messages : answer.messages = []
  status : answer.status.code ≠ .ok

theorem refused_refuse {code : StatusCode} (h : code ≠ .ok) (message : Bytes) :
    Refused (refuse s code message) :=
  ⟨rfl, rfl, h⟩

theorem refused_reply {ε α : Type} {status : ε → Status} {error : ε}
    (h : (status error).code ≠ .ok) (message : α → Message) :
    Refused (reply s [] status message (.error error)) :=
  ⟨rfl, rfl, h⟩

theorem processControlStatus_ne_ok (error : ProcessControlError × Bytes) :
    (processControlStatus error).code ≠ .ok := by
  obtain ⟨code, message⟩ := error
  cases code <;> simp [processControlStatus]

theorem logStatus_ne_ok (error : LogCollectorError × Bytes) : (logStatus error).code ≠ .ok := by
  obtain ⟨code, message⟩ := error
  cases code <;> simp [logStatus]

theorem serviceStatus_ne_ok (error : ServiceManagerError × Bytes) :
    (serviceStatus error).code ≠ .ok := by
  obtain ⟨code, message⟩ := error
  cases code <;> simp [serviceStatus]

theorem controlProcess_refused (h : Configured pid config s) {target action : ℤ}
    (hlimit : ¬ Within pid config calls (.controlProcess target action)) :
    Refused (controlProcess host s target action) := by
  unfold controlProcess
  cases haction : processAction action with
  | none => exact refused_refuse (by simp) _
  | some control =>
    have hguard : ¬ (1 < target ∧ target ≠ s.getpid) := by
      rw [h.getpid]
      exact fun hguard => hlimit ⟨hguard.1, hguard.2, _, mem_processSignals haction⟩
    obtain ⟨error, hresult⟩ := ProcessController.control_result_of_guard hguard host.kill control
    simp only [ProcessController.control_signals, if_neg hguard, hresult, List.map_nil]
    exact refused_reply (processControlStatus_ne_ok _) _

theorem controlService_refused (h : Configured pid config s) {name : Bytes} {action : ℤ}
    (hlimit : ¬ Within pid config calls (.controlService name action)) :
    Refused (controlService host s name action) := by
  unfold controlService
  cases haction : serviceAction action with
  | none => exact refused_refuse (by simp) _
  | some control =>
    have hname : name ∉ s.allowedServices := by
      rw [h.allowedServices]
      exact fun hname => hlimit ⟨hname, _, mem_serviceVerbs haction⟩
    obtain ⟨error, hcall⟩ := ServiceManager.controlService_of_notMem hname host.runner control
    simp only [hcall, systemctlRuns, List.map_nil]
    exact refused_reply (serviceStatus_ne_ok _) _

theorem readLog_refused (h : Configured pid config s) {logId : Bytes} (maxLines : ℕ)
    (keyword : Bytes) (hlimit : ¬ ∃ log ∈ allowedLogs config, log.id = logId) :
    Refused (readLog host s logId maxLines keyword) := by
  rw [← h.allowedLogs] at hlimit
  have hlog := LogCollector.findAllowedLog_eq_none hlimit
  simp only [readLog, LogCollector.readLog, LogCollector.checkRead, hlog]
  exact refused_reply (logStatus_ne_ok _) _

theorem streamLog_refused (h : Configured pid config s) {logId : Bytes} (keyword : Bytes)
    (startAtEnd : Bool) (hlimit : ¬ ∃ log ∈ allowedLogs config, log.id = logId) :
    Refused (streamLog host s logId keyword startAtEnd) := by
  rw [← h.allowedLogs] at hlimit
  have hlog := LogCollector.findAllowedLog_eq_none hlimit
  simp only [streamLog, LogCollector.resolveLogPath, hlog]
  split
  · exact refused_refuse (by simp) _
  · exact ⟨rfl, rfl, logStatus_ne_ok _⟩

theorem download_refused {bundleId : Bytes}
    (hlimit : ¬ ∃ b ∈ s.diagnosticCollector.bundles, b.info.id = bundleId) :
    Refused (downloadDiagnosticBundle host s bundleId) := by
  obtain ⟨status, hstatus, hlookUp⟩ := BundleDownload.lookUp_of_unregistered hlimit
  have hstep (m : BundleDownload.Moment) : BundleDownload.step s.diagnosticCollector bundleId m
      BundleDownload.start = ⟨.finished status, [], []⟩ := by
    simp only [BundleDownload.step, BundleDownload.start, hlookUp]
  have hdownload : download host s bundleId = ⟨.finished status, [], []⟩ := by
    obtain ⟨m, ms, hms⟩ := List.exists_cons_of_ne_nil (l := host.moments ++
      List.replicate 4 BundleDownload.Moment.quit) (by simp)
    rw [download, hms, List.foldl_cons, hstep, BundleDownload.run_finished ms rfl]
  simp only [downloadDiagnosticBundle, hdownload, List.map_nil]
  exact ⟨rfl, rfl, hstatus⟩

theorem streamSystemMetrics_effects (intervalMs : ℕ) :
    (streamSystemMetrics host s intervalMs).effects = [] := by
  unfold streamSystemMetrics
  generalize (if intervalMs = 0 then kDefaultStreamIntervalMs else intervalMs) = intervalMs
  simp only
  split
  · rfl
  · split
    · rfl
    · split <;> rfl

theorem createDiagnosticBundle_effects : (createDiagnosticBundle host s).effects = [] := by
  unfold createDiagnosticBundle
  split
  · rfl
  · exact reply_effects ..

end Handlers

theorem answer_permits {config : AgentConfig} (hconfig : config.HasServiceNames) (pid : ℕ)
    (calls : List RpcCall) (call : RpcCall) :
    ∀ effect ∈ (((create pid config).serve calls).answer call).effects,
      Permits pid config calls call.request effect := by
  have hserve := configured_serve pid config calls
  obtain ⟨request, host⟩ := call
  cases request with
  | controlProcess target action =>
    intro effect heffect
    obtain ⟨signal, hsignal, hlow, hown, heffects⟩ | heffects :=
      controlProcess_effects hserve host target action
    · simp only [answer, handle, heffects, List.mem_singleton] at heffect
      rw [heffect]
      exact ⟨rfl, hlow, hown, hsignal⟩
    · simp [answer, handle, heffects] at heffect
  | listServices => exact listServices_permits hserve hconfig
  | controlService name action => exact controlService_permits hserve hconfig name action
  | readLog logId maxLines keyword => exact readLog_permits hserve logId maxLines keyword
  | streamLog logId keyword startAtEnd => exact streamLog_permits hserve logId keyword startAtEnd
  | downloadDiagnosticBundle bundleId => exact download_permits bundleId
  | streamSystemMetrics intervalMs =>
    simp [answer, handle, streamSystemMetrics_effects]
  | createDiagnosticBundle =>
    simp [answer, handle, createDiagnosticBundle_effects]
  | getAgentInfo => simp [answer, handle, getAgentInfo]
  | listLogs => simp [answer, handle, listLogs]
  | getSystemMetrics => simp [answer, handle, getSystemMetrics, reply_effects]
  | listProcesses => simp [answer, handle, listProcesses, reply_effects]
  | getProcessDetails target => simp [answer, handle, getProcessDetails, reply_effects]
  | getNetworkInterfaces => simp [answer, handle, getNetworkInterfaces, reply_effects]
  | listTcpConnections => simp [answer, handle, listTcpConnections, reply_effects]

/-- Only the request that names a signal sends one, and only one. -/
theorem answer_signals {config : AgentConfig} (hconfig : config.HasServiceNames) (pid : ℕ)
    (calls : List RpcCall) (call : RpcCall) :
    (((create pid config).serve calls).answer call).effects.countP Effect.isSignal ≤ 1 := by
  have hpermits := answer_permits hconfig pid calls call
  obtain ⟨request, host⟩ := call
  by_cases hcontrol : ∃ target action, request = .controlProcess target action
  · obtain ⟨target, action, rfl⟩ := hcontrol
    obtain ⟨signal, -, -, -, heffects⟩ | heffects :=
      controlProcess_effects (configured_serve pid config calls) host target action
    · simp [answer, handle, heffects, Effect.isSignal]
    · simp [answer, handle, heffects]
  · refine (List.countP_eq_zero.mpr fun effect heffect hsignal => ?_).trans_le (Nat.zero_le 1)
    have hpermit := hpermits effect heffect
    cases effect with
    | signal target signal =>
      cases request with
      | controlProcess target action => exact hcontrol ⟨target, action, rfl⟩
      | _ => exact hpermit
    | _ => simp [Effect.isSignal] at hsignal

theorem answer_refused {pid : ℕ} {config : AgentConfig} {calls : List RpcCall} {call : RpcCall}
    (hlimit : ¬ Within pid config calls call.request) :
    Refused (((create pid config).serve calls).answer call) := by
  have hserve := configured_serve pid config calls
  obtain ⟨request, host⟩ := call
  cases request with
  | controlProcess target action => exact controlProcess_refused hserve hlimit
  | controlService name action => exact controlService_refused hserve hlimit
  | readLog logId maxLines keyword => exact readLog_refused hserve maxLines keyword hlimit
  | streamLog logId keyword startAtEnd =>
    exact streamLog_refused hserve keyword startAtEnd hlimit
  | downloadDiagnosticBundle bundleId => exact download_refused hlimit
  | _ => exact absurd trivial hlimit

/-- Whatever has been asked before, a request has only the effects it may have, among them at
most one signal, and is refused when it is outside its limits. -/
theorem capability_boundary (path : Bytes) (text : Option Bytes) (config : AgentConfig)
    (hload : AgentConfig.load path text = .ok config) (pid : ℕ) (calls : List RpcCall)
    (call : RpcCall) :
    let answer := ((create pid config).serve calls).answer call
    (∀ effect ∈ answer.effects, Permits pid config calls call.request effect) ∧
    answer.effects.countP Effect.isSignal ≤ 1 ∧
    (¬ Within pid config calls call.request → Refused answer) :=
  have hconfig := AgentConfig.hasServiceNames_of_load hload
  ⟨answer_permits hconfig pid calls call, answer_signals hconfig pid calls call, answer_refused⟩

/-- The second signal of two is refused, since it would be for the agent itself. -/
theorem capability_boundary_own_pid :
    Refused (((create 7 .default).serve [⟨.controlProcess 8 1, .quiet⟩]).answer
      ⟨.controlProcess 7 2, .quiet⟩) := by
  refine (capability_boundary [] (some []) .default rfl 7 [⟨.controlProcess 8 1, .quiet⟩]
    ⟨.controlProcess 7 2, .quiet⟩).2.2 ?_
  rintro ⟨-, hown, -⟩
  exact hown rfl

end EdgeScopeServiceImpl
end EdgeScope
