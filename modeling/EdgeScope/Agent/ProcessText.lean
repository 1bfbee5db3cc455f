import EdgeScope.Agent.ProcessCollector
import EdgeScope.Text.Utf8

/-!
# The text of a process

The name, the state and the command line of a process are bytes of two of its files, and the
collector hands them on as they are.
-/

namespace EdgeScope.ProcessCollector
open Text

@[simp] theorem orError_eq_ok_iff {α : Type} {error : Bytes} {o : Option α} {a : α} :
    orError error o = .ok a ↔ o = some a := by
  cases o <;> simp [orError]

theorem bind_eq_ok_iff {ε α β : Type} {x : Except ε α} {f : α → Except ε β} {b : β} :
    (x >>= f) = .ok b ↔ ∃ a, x = .ok a ∧ f a = .ok b := by
  cases x with
  | error error => simp [Bind.bind, Except.bind]
  | ok a => simp [Bind.bind, Except.bind]

def statName (line : Bytes) : Option Bytes :=
  (statParentheses line).map fun (openParenthesis, closeParenthesis) =>
    (line.drop (openParenthesis + 1)).take (closeParenthesis - openParenthesis - 1)

/-- The first byte after the closing parenthesis that is no white space. -/
def statState (line : Bytes) : Option Byte :=
  (statParentheses line).bind fun (_, closeParenthesis) =>
    (scanChar (line.drop (closeParenthesis + 1))).map (·.1)

theorem statStateAndParent_state {fields : Bytes} {state : Byte} {ppid : ℤ} {rest : Bytes}
    (h : statStateAndParent fields = some (state, ppid, rest)) :
    (scanChar fields).map (·.1) = some state := by
  unfold statStateAndParent at h
  split at h
  · cases h
  · rename_i hscan
    rw [hscan]
    split at h
    · cases h
    · split_ifs at h
      cases h
      rfl

theorem parseStatLine_text {line : Bytes} {process process' : ProcessInfo} {ticks : ℕ}
    (h : parseStatLine line process = .ok (process', ticks)) :
    ∃ name state, statName line = some name ∧ statState line = some state ∧
      process'.name = name ∧ process'.state = [state] := by
  unfold parseStatLine at h
  simp only [bind_eq_ok_iff, orError_eq_ok_iff, Prod.exists] at h
  obtain ⟨o, c, hparentheses, pid, -, state, ppid, fields, hstate, h⟩ := h
  have hname : statName line = some ((line.drop (o + 1)).take (c - o - 1)) := by
    rw [statName, hparentheses]
    rfl
  have hstate' : statState line = some state := by
    rw [statState, hparentheses]
    exact statStateAndParent_state hstate
  obtain ⟨fields, -, user, system, fields, -, h⟩ := h
  split_ifs at h
  simp only [bind_eq_ok_iff, orError_eq_ok_iff, Prod.exists] at h
  obtain ⟨fields, -, threads, startTimeTicks, -, h⟩ := h
  cases h
  exact ⟨_, state, hname, hstate', rfl, rfl⟩

theorem parseStatusLine_text {line : Bytes} {s s' : StatusScan}
    (h : parseStatusLine line s = .ok s') :
    s'.process.name = s.process.name ∧ s'.process.state = s.process.state := by
  unfold parseStatusLine at h
  split_ifs at h
  · split at h
    · cases h
    · cases h
      exact ⟨rfl, rfl⟩
  · split at h
    · cases h
    · cases h
      exact ⟨rfl, rfl⟩
  · split at h
    · cases h
    · cases h
      exact ⟨rfl, rfl⟩
  · cases h
    exact ⟨rfl, rfl⟩

theorem parseStatus_text {contents : Bytes} {process process' : ProcessInfo}
    (h : parseStatus contents process = .ok process') :
    process'.name = process.name ∧ process'.state = process.state := by
  have hlines (lines : List Bytes) (s s' : StatusScan) (h : parseStatusLines lines s = .ok s') :
      s'.process.name = s.process.name ∧ s'.process.state = s.process.state := by
    induction lines generalizing s with
    | nil =>
      cases h
      exact ⟨rfl, rfl⟩
    | cons line lines ih =>
      rw [parseStatusLines] at h
      split at h
      · cases h
      · rename_i hline
        obtain ⟨hname, hstate⟩ := parseStatusLine_text hline
        obtain ⟨hname', hstate'⟩ := ih _ h
        exact ⟨hname'.trans hname, hstate'.trans hstate⟩
  unfold parseStatus at h
  split at h
  · cases h
  · rename_i hscan
    cases h
    exact hlines _ _ _ hscan

theorem parseIo_text (contents : Bytes) (process : ProcessInfo) :
    (parseIo contents process).name = process.name ∧
      (parseIo contents process).state = process.state ∧
      (parseIo contents process).commandLine = process.commandLine := by
  have hloop (fuel : ℕ) (s : Bytes) (process : ProcessInfo) :
      (parseIoLoop fuel s process).name = process.name ∧
        (parseIoLoop fuel s process).state = process.state ∧
        (parseIoLoop fuel s process).commandLine = process.commandLine := by
    induction fuel generalizing s process with
    | zero => exact ⟨rfl, rfl, rfl⟩
    | succ fuel ih =>
      rw [parseIoLoop]
      split
      · exact ⟨rfl, rfl, rfl⟩
      · split
        · exact ⟨rfl, rfl, rfl⟩
        · split
          · exact ih _ _
          · split
            · exact ih _ _
            · exact ih _ _
  exact hloop _ _ _

/-- The collector gets as far as the record of the process. -/
def Reported (files : ProcessFiles) : Prop :=
  ∃ stat process ticks status process',
    files.stat = .ok stat ∧ parseStatLine stat {} = .ok (process, ticks) ∧
    files.status = .ok status ∧ parseStatus status process = .ok process'

theorem getProcess_text {proc : ProcFs} {pid : ℤ} {process : ProcessInfo}
    (h : getProcess proc pid = .ok process) :
    0 < pid ∧ Reported (proc.files pid) ∧ ∃ stat name state,
      (proc.files pid).stat = .ok stat ∧ statName stat = some name ∧ statState stat = some state ∧
      process.name = name ∧ process.state = [state] ∧
      process.commandLine = readCommandLine (proc.files pid).cmdline name := by
  unfold getProcess at h
  split_ifs at h with hpid
  simp only at h
  split at h
  · cases h
  · rename_i stat hstat
    split at h
    · cases h
    · rename_i parsed ticks hparsed
      split at h
      · cases h
      · rename_i status hstatus
        split at h
        · cases h
        · rename_i withStatus hwithStatus
          obtain ⟨name, state, hname, hstate, hparsedName, hparsedState⟩ :=
            parseStatLine_text hparsed
          obtain ⟨hsameName, hsameState⟩ := parseStatus_text hwithStatus
          have hnameEq := hsameName.trans hparsedName
          have hstateEq := hsameState.trans hparsedState
          refine ⟨by omega, ⟨stat, parsed, ticks, status, withStatus, hstat, hparsed, hstatus,
            hwithStatus⟩, stat, name, state, hstat, hname, hstate, ?_⟩
          cases h
          split
          · exact ⟨hnameEq, hstateEq, by rw [hnameEq]⟩
          · rename_i io _
            obtain ⟨hio, hio', hio''⟩ := parseIo_text io
              { withStatus with
                commandLine := readCommandLine (proc.files pid).cmdline withStatus.name }
            exact ⟨hio.trans hnameEq, hio'.trans hstateEq, by rw [hio'', hnameEq]⟩

theorem getProcess_of_reported {proc : ProcFs} {pid : ℤ} (hpid : 0 < pid)
    (h : Reported (proc.files pid)) : ∃ process, getProcess proc pid = .ok process := by
  obtain ⟨stat, process, ticks, status, process', hstat, hparsed, hstatus, hwithStatus⟩ := h
  simp only [getProcess, if_neg (not_le.mpr hpid), hstat, hparsed, hstatus, hwithStatus]
  exact ⟨_, rfl⟩

/-- The processes listed are those of the directory names that can be read. -/
theorem mem_listProcesses_iff {proc : ProcFs} {processes : List ProcessInfo}
    (h : listProcesses proc = .ok processes) {process : ProcessInfo} :
    process ∈ processes ↔ ∃ entries, proc.entries = .ok entries ∧
      ∃ pid ∈ entries.filterMap entryPid, getProcess proc pid = .ok process := by
  have hok (pid : ℤ) : (getProcess proc pid).toOption = some process ↔
      getProcess proc pid = .ok process := by
    cases getProcess proc pid <;> simp [Except.toOption]
  unfold listProcesses at h
  split at h
  · cases h
  · rename_i entries hentries
    cases h
    rw [List.mem_insertionSort, List.mem_filterMap]
    simp only [hok, hentries, Except.ok.injEq, exists_eq_left']

theorem asciiMap_nulToSpace : AsciiMap nulToSpace where
  low b hb := by
    unfold nulToSpace
    split
    · decide
    · exact hb
  high b hb := by
    refine if_neg ?_
    rintro rfl
    simp at hb

theorem wellFormed_bracketed_iff (name : Bytes) :
    WellFormed (ascii "[" ++ name ++ ascii "]") ↔ WellFormed name := by
  rw [wellFormed_append_ascii_iff (lt_of_isAscii (by decide)),
    wellFormed_ascii_append_iff (lt_of_isAscii (by decide))]

/-- Beside a well-formed name, the command line is as well formed as its file. -/
theorem wellFormed_readCommandLine_iff (cmdline : Except Errno Bytes) {name : Bytes}
    (hname : WellFormed name) :
    WellFormed (readCommandLine cmdline name) ↔
      ∀ contents, cmdline = .ok contents → WellFormed contents := by
  cases cmdline with
  | error errno =>
    simp only [readCommandLine, wellFormed_bracketed_iff, reduceCtorEq, false_implies,
      implies_true, iff_true]
    exact hname
  | ok contents =>
    have htrim : WellFormed ((contents.map nulToSpace).rdropWhile (· = charByte ' ')) ↔
        WellFormed contents := by
      have hspaces : ∀ b ∈ (contents.map nulToSpace).rtakeWhile (· = charByte ' '),
          b.toNat < 0x80 := by
        intro b hb
        have hspace : b = charByte ' ' := by simpa using List.mem_rtakeWhile_imp hb
        rw [hspace]
        decide
      rw [← wellFormed_append_ascii_iff hspaces, List.rdropWhile_append_rtakeWhile,
        asciiMap_nulToSpace.wellFormed_iff]
    simp only [Except.ok.injEq, forall_eq', readCommandLine]
    rw [← htrim]
    split
    · rename_i hempty
      rw [hempty, wellFormed_bracketed_iff]
      exact ⟨fun _ => .nil, fun _ => hname⟩
    · rfl

structure TextWellFormed (files : ProcessFiles) : Prop where
  name : ∀ stat name, files.stat = .ok stat → statName stat = some name → WellFormed name
  state : ∀ stat state, files.stat = .ok stat → statState stat = some state → state.toNat < 0x80
  cmdline : ∀ contents, files.cmdline = .ok contents → WellFormed contents

/-- The record of a process is as well formed as its files. -/
theorem wellFormed_process_iff {proc : ProcFs} {pid : ℤ} {process : ProcessInfo}
    (h : getProcess proc pid = .ok process) :
    WellFormed process.name ∧ WellFormed process.state ∧ WellFormed process.commandLine ↔
      TextWellFormed (proc.files pid) := by
  obtain ⟨-, -, stat, name, state, hstat, hname, hstate, hp, hp', hp''⟩ := getProcess_text h
  rw [hp, hp', hp'', wellFormed_singleton_iff]
  constructor
  · rintro ⟨hwell, hascii, hcommand⟩
    constructor
    · intro stat' name' hstat' hname'
      cases hstat.symm.trans hstat'
      cases hname.symm.trans hname'
      exact hwell
    · intro stat' state' hstat' hstate'
      cases hstat.symm.trans hstat'
      cases hstate.symm.trans hstate'
      exact hascii
    · exact (wellFormed_readCommandLine_iff _ hwell).mp hcommand
  · rintro ⟨hwell, hascii, hcommand⟩
    have hwell := hwell stat name hstat hname
    exact ⟨hwell, hascii stat state hstat hstate,
      (wellFormed_readCommandLine_iff _ hwell).mpr hcommand⟩

end EdgeScope.ProcessCollector
