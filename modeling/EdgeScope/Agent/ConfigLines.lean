import EdgeScope.Agent.ServiceOperands
import EdgeScope.Runs.Registers
import EdgeScope.Text.Search
import EdgeScope.Text.Trim

/-!
# A configuration as a fold over lines

Every line is ignored, or assigns a value to one field, or is an error. A text without errors
sets every field to the last value assigned to it; one error, wherever it stands, leaves the
caller's configuration as it was.
-/

namespace EdgeScope.AgentConfig
open Text Runs

/-- What a call leaves in the caller's `*config` and `*error`. -/
structure LoadCall where
  succeeded : Bool
  config : AgentConfig
  error : Bytes

/-- `AgentConfigLoader::Load` with its out-parameters. -/
def loadInto (path : Bytes) (text : Option Bytes) (config : AgentConfig) : LoadCall :=
  match load path text with
  | .error error => ⟨false, config, error⟩
  | .ok parsed => ⟨true, parsed, []⟩

def IsIgnored (line : Bytes) : Prop := trim line = [] ∨ (trim line).head? = some (charByte '#')

instance (line : Bytes) : Decidable (IsIgnored line) := inferInstanceAs (Decidable (_ ∨ _))

/-- The validator of a key; none accepts a value for an unknown one. -/
def Validates (s : Bytes × Bytes) : Prop :=
  if s.1 = ascii "listen_address" then isValidAddress s.2 = true
  else if s.1 = ascii "sample_interval_ms" then
    ∃ interval, stoul s.2 = some (interval, s.2.length) ∧ 100 ≤ interval ∧ interval ≤ 60000
  else if s.1 = ascii "log_file" then s.2.head? = some (charByte '/')
  else if s.1 = ascii "diagnostic_directory" then s.2.head? = some (charByte '/')
  else s.1 = ascii "allowed_services" ∧ (splitServices s.2).all isValidServiceName = true

/-- A line that `Load` can go on after. -/
def IsAccepted (line : Bytes) : Prop := IsIgnored line ∨ ∃ s ∈ setting line, Validates s

def intervalValue (value : Bytes) : ℕ := ((stoul value).map Prod.fst).getD 0

def assign (c : AgentConfig) (s : Bytes × Bytes) : AgentConfig where
  listenAddress := if s.1 = ascii "listen_address" then s.2 else c.listenAddress
  sampleInterval :=
    if s.1 = ascii "sample_interval_ms" then intervalValue s.2 else c.sampleInterval
  logFile := if s.1 = ascii "log_file" then s.2 else c.logFile
  diagnosticDirectory :=
    if s.1 = ascii "diagnostic_directory" then s.2 else c.diagnosticDirectory
  allowedServices :=
    if s.1 = ascii "allowed_services" then splitServices s.2 else c.allowedServices

def configured (settings : List (Bytes × Bytes)) : AgentConfig where
  listenAddress := (lastValue (ascii "listen_address") settings).getD default.listenAddress
  sampleInterval :=
    ((lastValue (ascii "sample_interval_ms") settings).map intervalValue).getD
      default.sampleInterval
  logFile := (lastValue (ascii "log_file") settings).getD default.logFile
  diagnosticDirectory :=
    (lastValue (ascii "diagnostic_directory") settings).getD default.diagnosticDirectory
  allowedServices :=
    ((lastValue (ascii "allowed_services") settings).map splitServices).getD
      default.allowedServices

theorem loadSetting_spec (lineNumber : ℕ) (s : Bytes × Bytes) (parsed : AgentConfig) :
    (Validates s → loadSetting lineNumber s.1 s.2 parsed = .ok (assign parsed s)) ∧
      (¬ Validates s → ∃ error, loadSetting lineNumber s.1 s.2 parsed = .error error) := by
  obtain ⟨key, value⟩ := s
  -- one case for each key, then the unknown ones
  unfold loadSetting Validates
  simp only
  split_ifs with haddress hvalid hinterval hlog hslash hdirectory hslash hservices hvalid
  · subst haddress
    exact ⟨fun _ => rfl, fun h => absurd hvalid h⟩
  · exact ⟨fun h => absurd h hvalid, fun _ => ⟨_, rfl⟩⟩
  · subst hinterval
    cases hread : stoul value with
    | none => exact ⟨fun ⟨_, h, _⟩ => absurd h (by simp), fun _ => ⟨_, rfl⟩⟩
    | some result =>
      obtain ⟨interval, consumed⟩ := result
      simp only [Option.some.injEq, Prod.mk.injEq]
      split
      · rename_i hbad
        refine ⟨?_, fun _ => ⟨_, rfl⟩⟩
        rintro ⟨_, ⟨rfl, rfl⟩, hrange⟩
        omega
      · rename_i hgood
        refine ⟨fun _ => ?_, fun h => absurd ⟨interval, ⟨rfl, by omega⟩, by omega⟩ h⟩
        have hvalue : intervalValue value = interval := by rw [intervalValue, hread]; rfl
        rw [← hvalue]
        rfl
  · exact ⟨fun h => absurd h hslash, fun _ => ⟨_, rfl⟩⟩
  · subst hlog
    exact ⟨fun _ => rfl, fun h => absurd h hslash⟩
  · exact ⟨fun h => absurd h hslash, fun _ => ⟨_, rfl⟩⟩
  · subst hdirectory
    exact ⟨fun _ => rfl, fun h => absurd h hslash⟩
  · subst hservices
    exact ⟨fun _ => rfl, fun h => absurd ⟨rfl, hvalid⟩ h⟩
  · exact ⟨fun h => absurd h.2 hvalid, fun _ => ⟨_, rfl⟩⟩
  · exact ⟨fun h => absurd h.1 hservices, fun _ => ⟨_, rfl⟩⟩

def loadAccepted (c : AgentConfig) (line : Bytes) : AgentConfig :=
  match setting line with
  | none => c
  | some s => assign c s

theorem loadLine_spec (lineNumber : ℕ) (line : Bytes) (parsed : AgentConfig) :
    (IsAccepted line → loadLine lineNumber line parsed = .ok (loadAccepted parsed line)) ∧
      (¬ IsAccepted line → ∃ error, loadLine lineNumber line parsed = .error error) := by
  unfold loadLine IsAccepted loadAccepted IsIgnored setting
  simp only
  split_ifs with hignored
  · exact ⟨fun _ => rfl, fun h => absurd (.inl hignored) h⟩
  · rw [or_iff_right hignored]
    cases findChar (charByte '=') (trim line) with
    | none =>
      refine ⟨?_, fun _ => ⟨_, rfl⟩⟩
      rintro ⟨_, hs, -⟩
      cases hs
    | some separator =>
      simp only [Option.map_some, Option.mem_def, Option.some.injEq, exists_eq_left']
      exact loadSetting_spec lineNumber
        (trim ((trim line).take separator), trim ((trim line).drop (separator + 1))) parsed

theorem loadLines_spec (lineNumber : ℕ) (lines : List Bytes) (parsed : AgentConfig) :
    ((∀ line ∈ lines, IsAccepted line) →
      loadLines lineNumber lines parsed = .ok (lines.foldl loadAccepted parsed)) ∧
      (¬ (∀ line ∈ lines, IsAccepted line) →
        ∃ error, loadLines lineNumber lines parsed = .error error) := by
  induction lines generalizing lineNumber parsed with
  | nil => exact ⟨fun _ => rfl, fun h => absurd (by simp) h⟩
  | cons line lines ih =>
    obtain ⟨haccepted, hrejected⟩ := loadLine_spec lineNumber line parsed
    rw [List.forall_mem_cons, loadLines]
    by_cases h : IsAccepted line
    · rw [haccepted h, and_iff_right h]
      exact ih (lineNumber + 1) (loadAccepted parsed line)
    · obtain ⟨error, herror⟩ := hrejected h
      rw [herror]
      exact ⟨fun hall => absurd hall.1 h, fun _ => ⟨error, rfl⟩⟩

theorem lastWrite_eq_lastValue {β : Type} (key : Bytes) (f : Bytes → β)
    (settings : List (Bytes × Bytes)) :
    lastWrite (fun s => if s.1 = key then some (f s.2) else none) settings =
      (lastValue key settings).map f := by
  rw [lastWrite, lastValue, ← List.getLast?_map, List.map_map]
  congr 1
  induction settings with
  | nil => rfl
  | cons s settings ih =>
    by_cases h : s.1 = key <;> simp [h, ih]

theorem foldl_assign (settings : List (Bytes × Bytes)) :
    settings.foldl assign default = configured settings := by
  have hfield {β : Type} (get : AgentConfig → β) (key : Bytes) (f : Bytes → β)
      (h : ∀ c s, get (assign c s) = if s.1 = key then f s.2 else get c) :
      get (settings.foldl assign default) =
        ((lastValue key settings).map f).getD (get default) := by
    rw [← lastWrite_eq_lastValue]
    refine get_foldl (fun c s => ?_) settings default
    rw [h]
    split <;> rfl
  have haddress := hfield (·.listenAddress) (ascii "listen_address") id fun _ _ => rfl
  have hinterval :=
    hfield (·.sampleInterval) (ascii "sample_interval_ms") intervalValue fun _ _ => rfl
  have hlog := hfield (·.logFile) (ascii "log_file") id fun _ _ => rfl
  have hdirectory :=
    hfield (·.diagnosticDirectory) (ascii "diagnostic_directory") id fun _ _ => rfl
  have hservices :=
    hfield (·.allowedServices) (ascii "allowed_services") splitServices fun _ _ => rfl
  simp only [Option.map_id_fun, id_eq] at haddress hlog hdirectory
  generalize settings.foldl assign default = result at *
  cases result
  simp only [configured, AgentConfig.mk.injEq]
  exact ⟨haddress, hinterval, hlog, hdirectory, hservices⟩

theorem foldl_loadAccepted (lines : List Bytes) (c : AgentConfig) :
    lines.foldl loadAccepted c = (lines.filterMap setting).foldl assign c := by
  rw [List.foldl_filterMap]
  congr 1
  funext c line
  unfold loadAccepted
  cases setting line <;> rfl

theorem assign_comm {s s' : Bytes × Bytes} (h : s.1 ≠ s'.1) (c : AgentConfig) :
    assign (assign c s) s' = assign (assign c s') s := by
  have hfield {β : Type} (key : Bytes) (a b d : β) :
      (if s'.1 = key then a else if s.1 = key then b else d) =
        if s.1 = key then b else if s'.1 = key then a else d := by
    split_ifs with h' h''
    · exact absurd (h''.trans h'.symm) h
    · rfl
    · rfl
    · rfl
  simp only [assign, AgentConfig.mk.injEq]
  exact ⟨hfield _ _ _ _, hfield _ _ _ _, hfield _ _ _ _, hfield _ _ _ _, hfield _ _ _ _⟩

theorem head?_trim {s : Bytes} (h : Ends isSpace s) : (trim s).head? = s.head? := by
  cases s with
  | nil => rfl
  | cons b s =>
    have hb : isSpace b = false := (ends_cons _ _ _).mp h
    have hleft : (b :: s).dropWhile isSpace = b :: s := by simp [hb]
    have hne : trim (b :: s) ≠ [] := by
      rw [trim, hleft, ne_eq, List.rdropWhile_eq_nil_iff]
      intro hall
      rw [hall b List.mem_cons_self] at hb
      cases hb
    obtain ⟨a, rest, htrim⟩ := List.exists_cons_of_ne_nil hne
    have hprefix : trim (b :: s) <+: b :: s := by
      rw [trim, hleft]
      exact List.rdropWhile_prefix _ _
    rw [htrim, List.cons_prefix_cons] at hprefix
    rw [htrim, hprefix.1]
    rfl

/-- The line is seen through `trim`, and its key and its value are, too. -/
theorem setting_separator {x : Bytes} (hx : charByte '=' ∉ x) (y : Bytes) :
    (IsIgnored (x ++ charByte '=' :: y) ↔ (trim x).head? = some (charByte '#')) ∧
      setting (x ++ charByte '=' :: y) =
        if (trim x).head? = some (charByte '#') then none else some (trim x, trim y) := by
  obtain ⟨x', y', htrim, hkey, hvalue, hends, hsub⟩ :=
    trim_separator (a := charByte '=') (by decide) x y
  have hx' : charByte '=' ∉ x' := fun hmem => hx (hsub _ hmem)
  have hhead : (x' ++ charByte '=' :: y').head? = some (charByte '#') ↔
      (trim x).head? = some (charByte '#') := by
    rw [← hkey, head?_trim hends]
    cases x' with
    | nil => simp [charByte]
    | cons b x' => simp
  have hignored : IsIgnored (x ++ charByte '=' :: y) ↔ (trim x).head? = some (charByte '#') := by
    rw [IsIgnored, htrim, hhead]
    simp
  refine ⟨hignored, ?_⟩
  rw [setting]
  simp only [htrim, findChar_separator hx', Option.map_some, take_separator, drop_separator, hkey,
    hvalue, hhead, List.append_eq_nil_iff, reduceCtorEq, and_false, false_or]

def names (pieces : List Bytes) : List Bytes := (pieces.map trim).filter (· ≠ [])

theorem names_append (pieces more : List Bytes) :
    names (pieces ++ more) = names pieces ++ names more := by
  simp [names]

theorem names_cons (piece : Bytes) (pieces : List Bytes) :
    names (piece :: pieces) = names [piece] ++ names pieces := names_append [piece] pieces

theorem names_singleton_congr {piece piece' : Bytes} (h : trim piece = trim piece') :
    names [piece] = names [piece'] := by
  simp [names, h]

theorem names_getlines_of_notMem {s : Bytes} (h : charByte ',' ∉ s) :
    names (getlines (charByte ',') s) = names [s] := by
  rw [getlines_of_notMem h]
  split
  · rename_i hnil
    rw [hnil]
    rfl
  · rfl

theorem splitServices_comma (x y : Bytes) :
    splitServices (x ++ charByte ',' :: y) = splitServices x ++ splitServices y := by
  have hrest := notMem_unterminated (d := charByte ',') x
  have hlast : getlines (charByte ',') x = terminated (charByte ',') x ++
      getlines (charByte ',') (unterminated (charByte ',') x) := by
    rw [getlines_of_notMem hrest]
    rfl
  change names (getlines _ _) = names (getlines _ _) ++ names (getlines _ _)
  rw [getlines_append, getlines_append_cons hrest, hlast, names_append, names_append, names_cons,
    names_getlines_of_notMem hrest, List.append_assoc]

theorem comma_notMem_of_isBlank {blank : Bytes} (h : IsBlank blank) : charByte ',' ∉ blank :=
  fun hmem => absurd (h _ hmem) (by decide)

/-- The names are trimmed, so white space around the list makes no difference. -/
theorem splitServices_surround {blank blank' : Bytes} (h : IsBlank blank) (h' : IsBlank blank')
    (value : Bytes) : splitServices (blank ++ value ++ blank') = splitServices value := by
  have hcomma := comma_notMem_of_isBlank h
  have hcomma' := comma_notMem_of_isBlank h'
  have hone {s : Bytes} (hs : charByte ',' ∉ s) : splitServices s = names [s] :=
    names_getlines_of_notMem hs
  have hback (s : Bytes) : splitServices (s ++ blank') = splitServices s := by
    induction s using pieces_induction (charByte ',') with
    | rest s hs =>
      rw [hone (by simp [hs, hcomma']), hone hs]
      exact names_singleton_congr (trim_append_blank h' s)
    | piece p s hp ih =>
      rw [List.append_assoc, List.cons_append, splitServices_comma, splitServices_comma, ih]
  rw [hback]
  by_cases hmem : charByte ',' ∈ value
  · obtain ⟨p, s, rfl, hp⟩ := List.eq_append_cons_of_mem hmem
    rw [← List.append_assoc, splitServices_comma, splitServices_comma, hone (by simp [hp, hcomma]),
      hone hp]
    rw [names_singleton_congr (trim_blank_append h p)]
  · rw [hone (by simp [hmem, hcomma]), hone hmem]
    exact names_singleton_congr (trim_blank_append h value)

theorem splitServices_trim (value : Bytes) : splitServices (trim value) = splitServices value := by
  obtain ⟨blank, blank', h, h', hvalue⟩ := exists_surround_trim value
  conv_rhs => rw [hvalue, splitServices_surround h h']

/-- Lines that `Load` cannot tell apart, but for the numbers in its error texts. -/
def SameLine (line line' : Bytes) : Prop :=
  (IsAccepted line ↔ IsAccepted line') ∧ ∀ c, loadAccepted c line = loadAccepted c line'

/-- Texts with the same settings: lines of different keys change places, blank lines and comments
come and go, and so does white space around a line, a key, a value and a service name. -/
inductive SameSettings : List Bytes → List Bytes → Prop
  | refl (lines : List Bytes) : SameSettings lines lines
  | symm {lines lines' : List Bytes} : SameSettings lines lines' → SameSettings lines' lines
  | trans {lines lines' lines'' : List Bytes} :
    SameSettings lines lines' → SameSettings lines' lines'' → SameSettings lines lines''
  | swap (before after : List Bytes) {line line' : Bytes} :
    (∀ s s', setting line = some s → setting line' = some s' → s.1 ≠ s'.1) →
    SameSettings (before ++ line :: line' :: after) (before ++ line' :: line :: after)
  | ignored (before after : List Bytes) {line : Bytes} :
    IsIgnored line → SameSettings (before ++ line :: after) (before ++ after)
  | surround (before after : List Bytes) {blank blank' : Bytes} (line : Bytes) :
    IsBlank blank → IsBlank blank' →
    SameSettings (before ++ (blank ++ line ++ blank') :: after) (before ++ line :: after)
  | separator (before after : List Bytes) {key blank blank' : Bytes} (value : Bytes) :
    charByte '=' ∉ key → IsBlank blank → IsBlank blank' →
    SameSettings (before ++ (key ++ blank ++ charByte '=' :: (blank' ++ value)) :: after)
      (before ++ (key ++ charByte '=' :: value) :: after)
  | comma (before after : List Bytes) {key blank blank' : Bytes} (value value' : Bytes) :
    charByte '=' ∉ key → trim key = ascii "allowed_services" → IsBlank blank → IsBlank blank' →
    SameSettings
      (before ++ (key ++ charByte '=' ::
        (value ++ blank ++ charByte ',' :: (blank' ++ value'))) :: after)
      (before ++ (key ++ charByte '=' :: (value ++ charByte ',' :: value')) :: after)

theorem SameLine.of_trim {line line' : Bytes} (h : trim line = trim line') :
    SameLine line line' := by
  unfold SameLine IsAccepted IsIgnored loadAccepted setting
  rw [h]
  exact ⟨Iff.rfl, fun _ => rfl⟩

theorem SameLine.of_separator {key key' value value' : Bytes} (h : charByte '=' ∉ key)
    (h' : charByte '=' ∉ key') (hkey : trim key = trim key')
    (hvalue : trim value = trim value') :
    SameLine (key ++ charByte '=' :: value) (key' ++ charByte '=' :: value') := by
  obtain ⟨hignored, hsetting⟩ := setting_separator h value
  obtain ⟨hignored', hsetting'⟩ := setting_separator h' value'
  rw [hkey] at hignored hsetting
  rw [hvalue, ← hsetting'] at hsetting
  unfold SameLine IsAccepted loadAccepted
  rw [hignored, hignored', hsetting]
  exact ⟨Iff.rfl, fun _ => rfl⟩

theorem validates_services_iff (value : Bytes) : Validates (ascii "allowed_services", value) ↔
    (splitServices value).all isValidServiceName = true := by
  unfold Validates
  simp only
  rw [if_neg (by decide), if_neg (by decide), if_neg (by decide), if_neg (by decide)]
  exact and_iff_right trivial

theorem SameLine.of_services {key value value' : Bytes} (h : charByte '=' ∉ key)
    (hkey : trim key = ascii "allowed_services")
    (hvalue : splitServices value = splitServices value') :
    SameLine (key ++ charByte '=' :: value) (key ++ charByte '=' :: value') := by
  obtain ⟨hignored, hsetting⟩ := setting_separator h value
  obtain ⟨hignored', hsetting'⟩ := setting_separator h value'
  rw [hkey, if_neg (by decide)] at hsetting hsetting'
  have hnames : splitServices (trim value) = splitServices (trim value') := by
    rw [splitServices_trim, splitServices_trim, hvalue]
  have hvalidates : Validates (ascii "allowed_services", trim value) ↔
      Validates (ascii "allowed_services", trim value') := by
    rw [validates_services_iff, validates_services_iff, hnames]
  unfold SameLine IsAccepted loadAccepted
  rw [hignored, hignored', hsetting, hsetting']
  simp only [Option.mem_def, Option.some.injEq, exists_eq_left', hvalidates, true_and]
  intro c
  simp only [assign, hnames, AgentConfig.mk.injEq, and_true]
  exact ⟨rfl, rfl, rfl, rfl⟩

/-- What is said the same is loaded the same. -/
theorem SameSettings.same {lines lines' : List Bytes} (h : SameSettings lines lines') :
    ((∀ line ∈ lines, IsAccepted line) ↔ ∀ line ∈ lines', IsAccepted line) ∧
      ∀ c, lines.foldl loadAccepted c = lines'.foldl loadAccepted c := by
  -- a line can be replaced by one that assigns the same
  have hreplace (before after : List Bytes) {line line' : Bytes} (h : SameLine line line') :
      ((∀ l ∈ before ++ line :: after, IsAccepted l) ↔
        ∀ l ∈ before ++ line' :: after, IsAccepted l) ∧
        ∀ c, (before ++ line :: after).foldl loadAccepted c =
          (before ++ line' :: after).foldl loadAccepted c := by
    refine ⟨?_, foldl_replace h.2 before after⟩
    simp only [List.forall_mem_append, List.forall_mem_cons, h.1]
  induction h with
  | refl lines => exact ⟨Iff.rfl, fun _ => rfl⟩
  | symm _ ih => exact ⟨ih.1.symm, fun c => (ih.2 c).symm⟩
  | trans _ _ ih ih' => exact ⟨ih.1.trans ih'.1, fun c => (ih.2 c).trans (ih'.2 c)⟩
  | @swap before after line line' hkeys =>
    constructor
    · simp only [List.forall_mem_append, List.forall_mem_cons]
      tauto
    · -- settings of different keys write different fields
      refine foldl_swap (fun c => ?_) before after
      unfold loadAccepted
      cases hs : setting line with
      | none => rfl
      | some s =>
        cases hs' : setting line' with
        | none => rfl
        | some s' => exact assign_comm (hkeys s s' hs hs') c
  | @ignored before after line hignored =>
    have hsetting : setting line = none := if_pos hignored
    constructor
    · simp only [List.forall_mem_append, List.forall_mem_cons]
      exact ⟨fun h => ⟨h.1, h.2.2⟩, fun h => ⟨h.1, .inl hignored, h.2⟩⟩
    · exact foldl_skip (fun c => by rw [loadAccepted, hsetting]) before after
  | surround before after line h h' =>
    exact hreplace before after (.of_trim (trim_surround h h' line))
  | @separator before after key blank blank' value hkey h h' =>
    have hblank : charByte '=' ∉ blank := fun hmem => absurd (h _ hmem) (by decide)
    refine hreplace before after (.of_separator (by simp [hkey, hblank]) hkey ?_ ?_)
    · exact trim_append_blank h key
    · exact trim_blank_append h' value
  | @comma before after key blank blank' value value' hkey hservices h h' =>
    refine hreplace before after (.of_services hkey hservices ?_)
    have hfront := splitServices_surround isBlank_nil h value
    have hback := splitServices_surround h' isBlank_nil value'
    rw [List.nil_append] at hfront
    rw [List.append_nil] at hback
    rw [splitServices_comma, splitServices_comma, hfront, hback]

/-- A text with an error changes nothing; a text without one sets every field to what its last
setting says, or to the default. Texts with the same settings have the same outcome. -/
theorem loadInto_all_or_nothing (path text : Bytes) (config : AgentConfig) :
    let lines := getlines newline text
    let call := loadInto path (some text) config
    ((∃ line ∈ lines, ¬ IsAccepted line) → call.succeeded = false ∧ call.config = config) ∧
    ((∀ line ∈ lines, IsAccepted line) →
      call.succeeded = true ∧ call.config = configured (lines.filterMap setting) ∧
        call.error = []) ∧
    ∀ text', SameSettings lines (getlines newline text') →
      (loadInto path (some text') config).succeeded = call.succeeded ∧
        (loadInto path (some text') config).config = call.config := by
  have hcall (text : Bytes) :
      (¬ (∀ line ∈ getlines newline text, IsAccepted line) →
        (loadInto path (some text) config).succeeded = false ∧
          (loadInto path (some text) config).config = config) ∧
      ((∀ line ∈ getlines newline text, IsAccepted line) → loadInto path (some text) config =
        ⟨true, (getlines newline text).foldl loadAccepted default, []⟩) := by
    obtain ⟨haccepted, hrejected⟩ := loadLines_spec 1 (getlines newline text) default
    constructor
    · intro h
      obtain ⟨error, herror⟩ := hrejected h
      rw [loadInto, load, herror]
      exact ⟨rfl, rfl⟩
    · intro h
      rw [loadInto, load, haccepted h]
  intro lines call
  refine ⟨fun h => (hcall text).1 (by simpa using h), fun h => ?_, fun text' hsame => ?_⟩
  · have hsucceeded : call = ⟨true, lines.foldl loadAccepted default, []⟩ := (hcall text).2 h
    rw [hsucceeded, foldl_loadAccepted, foldl_assign]
    exact ⟨rfl, rfl, rfl⟩
  · obtain ⟨haccepted, hfold⟩ := hsame.same
    by_cases h : ∀ line ∈ lines, IsAccepted line
    · have hsucceeded : call = ⟨true, lines.foldl loadAccepted default, []⟩ := (hcall text).2 h
      rw [(hcall text').2 (haccepted.mp h), hsucceeded, hfold]
      exact ⟨rfl, rfl⟩
    · obtain ⟨hflag, hconfig⟩ := (hcall text).1 h
      obtain ⟨hflag', hconfig'⟩ := (hcall text').1 (mt haccepted.mpr h)
      exact ⟨hflag'.trans hflag.symm, hconfig'.trans hconfig.symm⟩

end EdgeScope.AgentConfig
