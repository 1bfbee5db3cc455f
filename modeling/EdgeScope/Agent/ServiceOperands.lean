import EdgeScope.Agent.AgentConfig
import EdgeScope.Agent.ServiceManager

/-!
# What `systemctl` takes for a unit

The names of the whitelist come from the last `allowed_services` setting of the text. They
are never empty, but a name may begin with `'-'`, and no `--` precedes it.
-/

namespace EdgeScope
open Text

namespace AgentConfig

def setting (line : Bytes) : Option (Bytes × Bytes) :=
  let line := trim line
  if line = [] ∨ line.head? = some (charByte '#') then none
  else (findChar (charByte '=') line).map fun separator =>
    (trim (line.take separator), trim (line.drop (separator + 1)))

def lastValue (key : Bytes) (settings : List (Bytes × Bytes)) : Option Bytes :=
  ((settings.filter (·.1 = key)).map Prod.snd).getLast?

theorem lastValue_cons (key : Bytes) (s : Bytes × Bytes) (settings : List (Bytes × Bytes)) :
    lastValue key (s :: settings) =
      if s.1 = key then some ((lastValue key settings).getD s.2) else lastValue key settings := by
  unfold lastValue
  by_cases h : s.1 = key
  · simp only [h, List.filter_cons, decide_true, if_true, List.map_cons, List.getLast?_cons]
  · simp only [h, List.filter_cons, decide_false, Bool.false_eq_true, if_false]

def configuredServices (text : Bytes) : List Bytes :=
  match lastValue (ascii "allowed_services") ((getlines newline text).filterMap setting) with
  | none => default.allowedServices
  | some value => splitServices value

theorem loadSetting_allowedServices {lineNumber : ℕ} {key value : Bytes}
    {parsed parsed' : AgentConfig} (h : loadSetting lineNumber key value parsed = .ok parsed') :
    parsed'.allowedServices = if key = ascii "allowed_services" then splitServices value
      else parsed.allowedServices := by
  unfold loadSetting at h
  split_ifs at h with haddress _ hinterval hlog _ hdirectory _ hservices
  · cases h
    rw [if_neg (by rw [haddress]; decide)]
  · rw [if_neg (by rw [hinterval]; decide)]
    split at h
    · cases h
    · split_ifs at h
      cases h
      rfl
  · cases h
    rw [if_neg (by rw [hlog]; decide)]
  · cases h
    rw [if_neg (by rw [hdirectory]; decide)]
  · cases h
    rw [if_pos hservices]

theorem loadLine_allowedServices {lineNumber : ℕ} {line : Bytes} {parsed parsed' : AgentConfig}
    (h : loadLine lineNumber line parsed = .ok parsed') :
    parsed'.allowedServices =
      match (setting line).filter (·.1 = ascii "allowed_services") with
      | none => parsed.allowedServices
      | some (_, value) => splitServices value := by
  unfold loadLine at h
  unfold setting
  simp only at h ⊢
  split_ifs at h ⊢ with hskip
  · cases h
    rfl
  · cases hseparator : findChar (charByte '=') (trim line) with
    | none =>
      rw [hseparator] at h
      cases h
    | some separator =>
      rw [hseparator] at h
      rw [loadSetting_allowedServices h]
      simp only [Option.map_some, Option.filter_some, decide_eq_true_eq]
      split_ifs <;> rfl

theorem loadLines_allowedServices {lineNumber : ℕ} {lines : List Bytes}
    {parsed config : AgentConfig} (h : loadLines lineNumber lines parsed = .ok config) :
    config.allowedServices =
      match lastValue (ascii "allowed_services") (lines.filterMap setting) with
      | none => parsed.allowedServices
      | some value => splitServices value := by
  induction lines generalizing lineNumber parsed with
  | nil =>
    cases h
    rfl
  | cons line lines ih =>
    rw [loadLines] at h
    split at h
    · cases h
    · rename_i parsed' hline
      rw [ih h]
      have hfirst := loadLine_allowedServices hline
      cases hsetting : setting line with
      | none =>
        rw [hsetting] at hfirst
        rw [List.filterMap_cons_none hsetting, hfirst]
        rfl
      | some s =>
        rw [hsetting, Option.filter_some] at hfirst
        rw [List.filterMap_cons_some hsetting, lastValue_cons, hfirst]
        by_cases hkey : s.1 = ascii "allowed_services"
        · simp only [hkey, decide_true, if_true]
          cases lastValue (ascii "allowed_services") (lines.filterMap setting) <;> rfl
        · simp only [hkey, decide_false, Bool.false_eq_true, if_false]

theorem load_allowedServices {path text : Bytes} {config : AgentConfig}
    (h : load path (some text) = .ok config) : config.allowedServices = configuredServices text :=
  loadLines_allowedServices h

theorem ne_nil_of_mem_configuredServices {text name : Bytes} (h : name ∈ configuredServices text) :
    name ≠ [] := by
  unfold configuredServices at h
  split at h
  · revert h name
    decide
  · simpa using (List.mem_filter.mp h).2

end AgentConfig

/-- A fixed verb, fixed options, and a last argument that is read as a unit. -/
def IsUnitCommand (arguments : List Bytes) : Prop :=
  ∃ name : Bytes, name ≠ [] ∧ name.head? ≠ some (charByte '-') ∧
    (arguments = ServiceManager.showArguments name ∨
      ∃ action, arguments = ServiceManager.controlArguments name action)

theorem ServiceManager.isUnitCommand_showArguments_iff (name : Bytes) :
    IsUnitCommand (showArguments name) ↔ name ≠ [] ∧ name.head? ≠ some (charByte '-') := by
  constructor
  · rintro ⟨name', hne, hhead, hshow | ⟨action, hcontrol⟩⟩
    · obtain rfl : name = name' := by simpa [showArguments] using hshow
      exact ⟨hne, hhead⟩
    · simp [showArguments, controlArguments] at hcontrol
  · rintro ⟨hne, hhead⟩
    exact ⟨name, hne, hhead, .inl rfl⟩

/-- Every command of `ListServices` and `ControlService` ends in a unit exactly when no
configured name begins with `'-'`. -/
theorem unit_operands_iff (path text : Bytes) (config : AgentConfig)
    (hload : AgentConfig.load path (some text) = .ok config) :
    (∀ (runner : ServiceCommandRunner) (name : Bytes) (action : ServiceAction),
      ∀ arguments ∈ (ServiceManager.listServices config.allowedServices runner).commands ++
        (ServiceManager.controlService config.allowedServices runner name action).commands,
        IsUnitCommand arguments) ↔
      ∀ name ∈ AgentConfig.configuredServices text, name.head? ≠ some (charByte '-') := by
  rw [AgentConfig.load_allowedServices hload]
  constructor
  · intro h name hname
    have hcommands := ServiceManager.listLoop_commands
      (fun _ _ => ⟨_, rfl⟩ : ∀ n arguments, ∃ result, (fun _ _ => .ok ⟨0, []⟩ :
        ServiceCommandRunner) n arguments = .ok result) 0 (AgentConfig.configuredServices text) []
    have hmem : ServiceManager.showArguments name ∈
        (ServiceManager.listServices (AgentConfig.configuredServices text)
          fun _ _ => .ok ⟨0, []⟩).commands := by
      rw [ServiceManager.listServices, hcommands]
      exact List.mem_map_of_mem hname
    have hunit := h (fun _ _ => .ok ⟨0, []⟩) [] .start _ (List.mem_append_left _ hmem)
    exact ((ServiceManager.isUnitCommand_showArguments_iff name).mp hunit).2
  · intro h runner name action arguments hmem
    rcases List.mem_append.mp hmem with hlist | hcontrol
    · obtain ⟨name, hname, rfl⟩ := ServiceManager.mem_listServices_commands hlist
      exact ⟨name, AgentConfig.ne_nil_of_mem_configuredServices hname, h name hname, .inl rfl⟩
    · obtain ⟨hne, hname, rfl⟩ := ServiceManager.mem_controlService_commands hcontrol
      exact ⟨name, hne, h name hname, .inr ⟨action, rfl⟩⟩

theorem unit_operands_two_services :
    ∃ config, AgentConfig.load [] (some (ascii "allowed_services=ssh.service, cron.service\n")) =
        .ok config ∧
      ∀ arguments ∈ (ServiceManager.listServices config.allowedServices
        fun _ _ => .ok ⟨0, []⟩).commands, IsUnitCommand arguments := by
  refine ⟨_, rfl, fun arguments hmem => ?_⟩
  exact (unit_operands_iff [] (ascii "allowed_services=ssh.service, cron.service\n") _ rfl).mpr
    (by decide) (fun _ _ => .ok ⟨0, []⟩) [] .start arguments (List.mem_append_left _ hmem)

/-- A name one byte shorter than the suffix, whose length minus 8 is `npos`, and a name with the
suffix: both are options. -/
theorem unit_operands_option_names :
    ∃ config, AgentConfig.load [] (some (ascii "allowed_services=--force, -x.service\n")) =
        .ok config ∧
      (ServiceManager.listServices config.allowedServices fun _ _ => .ok ⟨0, []⟩).commands =
        [ServiceManager.showArguments (ascii "--force"),
          ServiceManager.showArguments (ascii "-x.service")] ∧
      ¬ IsUnitCommand (ServiceManager.showArguments (ascii "--force")) ∧
      ¬ IsUnitCommand (ServiceManager.showArguments (ascii "-x.service")) := by
  refine ⟨_, rfl, by decide, ?_, ?_⟩
  · rw [ServiceManager.isUnitCommand_showArguments_iff]
    decide
  · rw [ServiceManager.isUnitCommand_showArguments_iff]
    decide

end EdgeScope
