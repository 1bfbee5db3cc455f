import EdgeScope.Text.Scan

/-!
# `AgentConfig`

The configuration file is a list of settings, one a line. A setting that occurs twice
counts the second time.
-/

namespace EdgeScope
open Text

structure AgentConfig where
  listenAddress : Bytes
  /-- In milliseconds. -/
  sampleInterval : ℕ
  logFile : Bytes
  diagnosticDirectory : Bytes
  allowedServices : List Bytes
  deriving DecidableEq

namespace AgentConfig

def default : AgentConfig where
  listenAddress := ascii "127.0.0.1:50051"
  sampleInterval := 1000
  logFile := ascii "/tmp/edgescope-agent.log"
  diagnosticDirectory := ascii "/tmp/edgescope-diagnostics"
  allowedServices := [ascii "ssh.service", ascii "cron.service"]

def isValidAddress (address : Bytes) : Bool :=
  match rfindChar (charByte ':') address with
  | none => false
  | some separator =>
    if separator = 0 ∨ separator + 1 = address.length then false
    else
      match stoul (address.drop (separator + 1)) with
      | none => false
      | some (port, parsed) =>
        parsed = address.length - separator - 1 && 0 < port && port ≤ 65535

def npos : ℕ := wordSize - 1

def isServiceNameByte (b : Byte) : Bool :=
  isAlnum b || b = charByte '-' || b = charByte '_' || b = charByte '.' || b = charByte '@'

/-- `name.size() - 8` is computed in `std::size_t`, and a search that fails answers `npos`. -/
def isValidServiceName (name : Bytes) : Bool :=
  if name = [] ∨ 128 < name.length ∨
      (find (ascii ".service") name).getD npos ≠ (name.length + wordSize - 8) % wordSize then false
  else name.all isServiceNameByte

def splitServices (value : Bytes) : List Bytes :=
  ((getlines (charByte ',') value).map trim).filter (· ≠ [])

def loadSetting (lineNumber : ℕ) (key value : Bytes) (parsed : AgentConfig) :
    Except Bytes AgentConfig :=
  if key = ascii "listen_address" then
    if isValidAddress value then .ok { parsed with listenAddress := value }
    else .error (ascii "invalid listen_address on line " ++ decimal lineNumber)
  else if key = ascii "sample_interval_ms" then
    match stoul value with
    | none => .error (ascii "sample_interval_ms must be between 100 and 60000")
    | some (interval, consumed) =>
      if consumed ≠ value.length ∨ interval < 100 ∨ 60000 < interval then
        .error (ascii "sample_interval_ms must be between 100 and 60000")
      else .ok { parsed with sampleInterval := interval }
  else if key = ascii "log_file" then
    if value.head? ≠ some (charByte '/') then .error (ascii "log_file must be an absolute path")
    else .ok { parsed with logFile := value }
  else if key = ascii "diagnostic_directory" then
    if value.head? ≠ some (charByte '/') then
      .error (ascii "diagnostic_directory must be an absolute path")
    else .ok { parsed with diagnosticDirectory := value }
  else if key = ascii "allowed_services" then
    if (splitServices value).all isValidServiceName then
      .ok { parsed with allowedServices := splitServices value }
    else .error (ascii "allowed_services contains an invalid service name")
  else .error (ascii "unknown config key on line " ++ decimal lineNumber ++ ascii ": " ++ key)

def loadLine (lineNumber : ℕ) (line : Bytes) (parsed : AgentConfig) : Except Bytes AgentConfig :=
  let line := trim line
  if line = [] ∨ line.head? = some (charByte '#') then .ok parsed
  else
    match findChar (charByte '=') line with
    | none => .error (ascii "invalid config line " ++ decimal lineNumber)
    | some separator =>
      loadSetting lineNumber (trim (line.take separator)) (trim (line.drop (separator + 1))) parsed

/-- The loop over lines, `lineNumber` being the number of the first one. -/
def loadLines : ℕ → List Bytes → AgentConfig → Except Bytes AgentConfig
  | _, [], parsed => .ok parsed
  | lineNumber, line :: lines, parsed =>
    match loadLine lineNumber line parsed with
    | .error error => .error error
    | .ok parsed => loadLines (lineNumber + 1) lines parsed

/-- The text of the file at `path`, or `none` when it cannot be opened. -/
def load (path : Bytes) (text : Option Bytes) : Except Bytes AgentConfig :=
  match text with
  | none => .error (ascii "failed to open config file: " ++ path)
  | some text => loadLines 1 (getlines newline text) default

/-- The rule for configurations: what the settings preserve holds of what is loaded. -/
theorem load_rule {P : AgentConfig → Prop} (hdefault : P default)
    (hsetting : ∀ {lineNumber : ℕ} {key value : Bytes} {parsed parsed' : AgentConfig}, P parsed →
      loadSetting lineNumber key value parsed = .ok parsed' → P parsed')
    {path : Bytes} {text : Option Bytes} {config : AgentConfig}
    (h : load path text = .ok config) : P config := by
  have hline {lineNumber : ℕ} {line : Bytes} {parsed parsed' : AgentConfig} (hparsed : P parsed)
      (h : loadLine lineNumber line parsed = .ok parsed') : P parsed' := by
    unfold loadLine at h
    simp only at h
    split_ifs at h
    · cases h
      exact hparsed
    · split at h
      · cases h
      · exact hsetting hparsed h
  have hlines (lines : List Bytes) : ∀ {lineNumber : ℕ} {parsed : AgentConfig}, P parsed →
      loadLines lineNumber lines parsed = .ok config → P config := by
    induction lines with
    | nil =>
      intro lineNumber parsed hparsed h
      cases h
      exact hparsed
    | cons line lines ih =>
      intro lineNumber parsed hparsed h
      rw [loadLines] at h
      split at h
      · cases h
      · rename_i parsed' hfirst
        exact ih (hline hparsed hfirst) h
  cases text with
  | none => cases h
  | some text => exact hlines _ hdefault h

/-- What one setting does to the two fields that other components rely on. -/
theorem loadSetting_cases {lineNumber : ℕ} {key value : Bytes} {parsed parsed' : AgentConfig}
    (h : loadSetting lineNumber key value parsed = .ok parsed') :
    (parsed'.sampleInterval = parsed.sampleInterval ∨
      100 ≤ parsed'.sampleInterval ∧ parsed'.sampleInterval ≤ 60000) ∧
    (parsed'.allowedServices = parsed.allowedServices ∨
      parsed'.allowedServices = splitServices value ∧
        ∀ name ∈ parsed'.allowedServices, isValidServiceName name = true) := by
  unfold loadSetting at h
  split_ifs at h with _ _ _ _ _ _ _ _ hvalid
  · cases h
    exact ⟨.inl rfl, .inl rfl⟩
  · split at h
    · cases h
    · rename_i interval consumed _
      split_ifs at h with hrange
      cases h
      exact ⟨.inr ⟨by simp only; omega, by simp only; omega⟩, .inl rfl⟩
  · cases h
    exact ⟨.inl rfl, .inl rfl⟩
  · cases h
    exact ⟨.inl rfl, .inl rfl⟩
  · cases h
    exact ⟨.inl rfl, .inr ⟨rfl, List.all_eq_true.mp hvalid⟩⟩

theorem sampleInterval_of_load {path : Bytes} {text : Option Bytes} {config : AgentConfig}
    (h : load path text = .ok config) :
    100 ≤ config.sampleInterval ∧ config.sampleInterval ≤ 60000 := by
  refine load_rule (P := fun c => 100 ≤ c.sampleInterval ∧ c.sampleInterval ≤ 60000)
    (by decide) (fun hparsed hsetting => ?_) h
  obtain hsame | hrange := (loadSetting_cases hsetting).1
  · rw [hsame]
    exact hparsed
  · exact hrange

def HasServiceNames (config : AgentConfig) : Prop :=
  ∀ name ∈ config.allowedServices, ∀ b ∈ name, isServiceNameByte b = true

theorem hasServiceNames_default : default.HasServiceNames := by
  intro name hname
  have hall : ∀ name ∈ default.allowedServices, name.all isServiceNameByte = true := by decide
  exact List.all_eq_true.mp (hall name hname)

theorem bytes_of_isValidServiceName {name : Bytes} (h : isValidServiceName name = true) :
    ∀ b ∈ name, isServiceNameByte b = true := by
  unfold isValidServiceName at h
  split at h
  · cases h
  · exact List.all_eq_true.mp h

theorem hasServiceNames_of_load {path : Bytes} {text : Option Bytes} {config : AgentConfig}
    (h : load path text = .ok config) : config.HasServiceNames := by
  refine load_rule hasServiceNames_default (fun hparsed hsetting => ?_) h
  intro name hname
  obtain hsame | ⟨-, hvalid⟩ := (loadSetting_cases hsetting).2
  · exact hparsed name (hsame ▸ hname)
  · exact bytes_of_isValidServiceName (hvalid name hname)

theorem isServiceNameByte_range {b : Byte} (h : isServiceNameByte b = true) :
    0 < b.toNat ∧ b.toNat < 0x80 := by
  have hchars (c : Char) (hc : b = charByte c) (hlow : 0 < (charByte c).toNat)
      (hhigh : (charByte c).toNat < 0x80) : 0 < b.toNat ∧ b.toNat < 0x80 := by
    rw [hc]
    exact ⟨hlow, hhigh⟩
  simp only [isServiceNameByte, isAlnum, isDigit, Bool.or_eq_true, Bool.and_eq_true,
    decide_eq_true_eq] at h
  obtain ((((((h | h) | h) | h) | h) | h) | h) := h
  · omega
  · omega
  · omega
  · exact hchars '-' h (by decide) (by decide)
  · exact hchars '_' h (by decide) (by decide)
  · exact hchars '.' h (by decide) (by decide)
  · exact hchars '@' h (by decide) (by decide)

end AgentConfig
end EdgeScope
