import EdgeScope.Agent.DiagnosticCollector
import EdgeScope.Agent.ProcessText
import EdgeScope.Text.Numerals
import EdgeScope.Text.Table

/-!
# Reading `processes.txt`

The table of a bundle has a line for each process and a tab between its columns. Names and command
lines are printed as the processes have chosen them, so a tab or a line break in one of them is
taken for a column or a line.
-/

namespace EdgeScope.DiagnosticCollector
open Text ProcessCollector

def tabByte : Byte := 9

def columns (env : BundleEnvironment) (process : ProcessInfo) : List Bytes :=
  [signedDecimal process.pid, signedDecimal process.ppid, process.state,
    env.defaultText process.cpuUsagePercent, decimal process.residentMemoryBytes,
    decimal process.threadCount, process.name, process.commandLine]

def header : List Bytes :=
  [ascii "PID", ascii "PPID", ascii "STATE", ascii "CPU%", ascii "RSS_BYTES", ascii "THREADS",
    ascii "NAME", ascii "COMMAND"]

def identity (process : ProcessInfo) : ℤ × ℤ × Bytes × Bytes × Bytes :=
  (process.pid, process.ppid, process.state, process.name, process.commandLine)

def readProcesses (text : Bytes) : List (List Bytes) := (readTable tabByte newline text).tail

/-- A text that neither begins a column nor ends a line. -/
def IsPlain (s : Bytes) : Prop := IsCell tabByte newline s

instance (s : Bytes) : Decidable (IsPlain s) := inferInstanceAs (Decidable (IsCell _ _ s))

theorem processesText_eq (env : BundleEnvironment) (processes : List ProcessInfo) :
    processesText env processes =
      printTable tabByte newline (header :: processes.map (columns env)) := by
  have hrow : processRow env = fun process => printRow tabByte newline (columns env process) := by
    funext process
    simp only [processRow, printRow, columns, List.intercalate_cons_cons,
      List.intercalate_singleton, List.append_assoc]
    rfl
  have hheader : ascii "PID\tPPID\tSTATE\tCPU%\tRSS_BYTES\tTHREADS\tNAME\tCOMMAND\n" =
      printRow tabByte newline header := by decide +kernel
  rw [processesText, printTable, List.flatMap_cons, ← hheader, List.flatMap_map, hrow]

theorem isPlain_decimal (n : ℕ) : IsPlain (decimal n) :=
  ⟨fun h => absurd (isDigit_of_mem_decimal h) (by decide),
    fun h => absurd (isDigit_of_mem_decimal h) (by decide)⟩

theorem isPlain_signedDecimal (n : ℤ) : IsPlain (signedDecimal n) := by
  refine IsCell.append ?_ (isPlain_decimal n.natAbs)
  split <;> decide

theorem not_isSpace_of_scanChar {s rest : Bytes} {b : Byte} (h : scanChar s = some (b, rest)) :
    isSpace b = false := by
  unfold scanChar at h
  split at h
  · cases h
  · rename_i b' rest' hdrop
    cases h
    have hhead := List.head?_dropWhile_not isSpace s
    rwa [hdrop, List.head?_cons] at hhead

/-- The state of a process is one character that is no white space. -/
theorem isPlain_state {proc : ProcFs} {processes : List ProcessInfo} {process : ProcessInfo}
    (h : listProcesses proc = .ok processes) (hmem : process ∈ processes) :
    IsPlain process.state := by
  obtain ⟨entries, -, pid, -, hprocess⟩ := (mem_listProcesses_iff h).mp hmem
  obtain ⟨-, -, stat, -, state, -, -, hstate, -, hprocessState, -⟩ := getProcess_text hprocess
  obtain ⟨⟨_, closeParenthesis⟩, -, hscan⟩ := Option.bind_eq_some_iff.mp hstate
  obtain ⟨⟨state', rest⟩, hscan, hsame⟩ := Option.map_eq_some_iff.mp hscan
  have hspace := not_isSpace_of_scanChar hscan
  simp only at hsame
  rw [hprocessState, ← hsame]
  constructor
  · rintro hmem
    rw [← List.mem_singleton.mp hmem] at hspace
    exact absurd hspace (by decide)
  · rintro hmem
    rw [← List.mem_singleton.mp hmem] at hspace
    exact absurd hspace (by decide)

section Double

variable {env : BundleEnvironment} (hdouble : ∀ x, IsPlain (env.defaultText x))

include hdouble

/-- Only the name and the command line can spoil a line. -/
theorem isPlain_columns_iff {proc : ProcFs} {processes : List ProcessInfo} {process : ProcessInfo}
    (h : listProcesses proc = .ok processes) (hmem : process ∈ processes) :
    (∀ column ∈ columns env process, IsPlain column) ↔
      IsPlain process.name ∧ IsPlain process.commandLine := by
  simp only [columns, List.forall_mem_cons, List.not_mem_nil, IsEmpty.forall_iff, implies_true,
    and_true, isPlain_decimal, isPlain_signedDecimal, isPlain_state h hmem, hdouble, true_and]

theorem readProcesses_iff {proc : ProcFs} {processes : List ProcessInfo}
    (h : listProcesses proc = .ok processes) :
    readProcesses (processesText env processes) = processes.map (columns env) ↔
      ∀ process ∈ processes, IsPlain process.name ∧ IsPlain process.commandLine := by
  constructor
  · intro hread process hmem
    refine (isPlain_columns_iff hdouble h hmem).mp fun column hcolumn => ?_
    have hcolumns : columns env process ∈ readProcesses (processesText env processes) := by
      rw [hread]
      exact List.mem_map_of_mem hmem
    exact isCell_of_mem_readTable (List.mem_of_mem_tail hcolumns) hcolumn
  · intro hplain
    have hrows : ∀ cells ∈ header :: processes.map (columns env), ∀ cell ∈ cells, IsPlain cell := by
      rw [List.forall_mem_cons, List.forall_mem_map]
      refine ⟨by decide +kernel, fun process hmem => ?_⟩
      exact (isPlain_columns_iff hdouble h hmem).mpr (hplain process hmem)
    have hne : ∀ cells ∈ header :: processes.map (columns env), cells ≠ [] := by
      rw [List.forall_mem_cons, List.forall_mem_map]
      exact ⟨by decide, fun process _ => List.cons_ne_nil _ _⟩
    rw [readProcesses, processesText_eq, readTable_printTable (by decide) hne hrows, List.tail_cons]

end Double

theorem identity_of_columns {env : BundleEnvironment} {process process' : ProcessInfo}
    (h : columns env process = columns env process') : identity process = identity process' := by
  simp only [columns, List.cons.injEq] at h
  obtain ⟨hpid, hppid, hstate, -, -, -, hname, hcommand, -⟩ := h
  rw [identity, identity, integer_injective hpid, integer_injective hppid, hstate,
    hname, hcommand]

/-- The table of the collected processes reads back exactly where no name and no command line
holds a tab or a line break. Among such lists, those that differ in a process have different
tables. All that is assumed of a `double` is that it is printed without either. -/
theorem processesText_iff {env : BundleEnvironment}
    (hdouble : ∀ x, IsPlain (env.defaultText x)) :
    (∀ proc processes, listProcesses proc = .ok processes →
      (readProcesses (processesText env processes) = processes.map (columns env) ↔
        ∀ process ∈ processes, IsPlain process.name ∧ IsPlain process.commandLine)) ∧
    ∀ proc processes proc' processes', listProcesses proc = .ok processes →
      listProcesses proc' = .ok processes' →
      (∀ process ∈ processes, IsPlain process.name ∧ IsPlain process.commandLine) →
      (∀ process ∈ processes', IsPlain process.name ∧ IsPlain process.commandLine) →
      processes.map identity ≠ processes'.map identity →
        processesText env processes ≠ processesText env processes' := by
  refine ⟨fun proc processes => readProcesses_iff hdouble, ?_⟩
  intro proc processes proc' processes' h h' hplain hplain' hdiffer hsame
  have hread := (readProcesses_iff hdouble h).mpr hplain
  have hread' := (readProcesses_iff hdouble h').mpr hplain'
  rw [hsame, hread'] at hread
  have hcolumns : List.Forall₂ (· = ·) (processes.map (columns env))
      (processes'.map (columns env)) := by
    rw [List.forall₂_eq_eq_eq]
    exact hread.symm
  rw [List.forall₂_map_left_iff, List.forall₂_map_right_iff] at hcolumns
  have hidentity := hcolumns.imp fun _ _ => identity_of_columns
  refine hdiffer ?_
  rwa [← List.forall₂_eq_eq_eq, List.forall₂_map_left_iff, List.forall₂_map_right_iff]

/-- Processes with a name and a command line of their choice. -/
def named (pids : List ℕ) (name cmdline : Bytes) : ProcFs where
  entries := .ok (pids.map decimal)
  files pid :=
    { stat := .ok (decimal pid.toNat ++ ascii " (" ++ name ++
        ascii ") S 1 7 7 0 -1 64 1 0 2 0 30 12 0 0 20 0 3 0 900")
      status := .ok []
      cmdline := .ok cmdline
      io := .error .enoent }
  cpuUsage _ _ _ := 0

def namedInfo (pid : ℤ) (name commandLine : Bytes) : ProcessInfo where
  pid := pid
  ppid := 1
  name := name
  state := ascii "S"
  commandLine := commandLine
  threadCount := 3
  startTimeTicks := 900

theorem processesText_plain :
    let processes := [7, 9].map fun pid => namedInfo pid (ascii "sh") (ascii "sh -i")
    readProcesses (processesText (.quiet []) processes) = processes.map (columns (.quiet [])) := by
  intro processes
  have hzero : IsPlain (ascii "0") := by decide
  have hdouble : ∀ x, IsPlain ((BundleEnvironment.quiet []).defaultText x) := fun _ => hzero
  have hlist : listProcesses (named [9, 7] (ascii "sh") (ascii "sh\x00-i\x00")) =
      .ok processes := by rfl
  exact ((processesText_iff hdouble).1 _ _ hlist).mpr (by decide +kernel)

/-- A tab moves from the name to the command line and leaves no trace, and a line break in a
command line makes a line of its own. -/
theorem processesText_forged :
    let env := BundleEnvironment.quiet []
    (∃ processes processes',
      listProcesses (named [7] (ascii "a\tb") (ascii "c")) = .ok processes ∧
      listProcesses (named [7] (ascii "a") (ascii "b\tc")) = .ok processes' ∧
      processes.map identity ≠ processes'.map identity ∧
      processesText env processes = processesText env processes' ∧
      readProcesses (processesText env processes) ≠ processes.map (columns env)) ∧
    ∃ processes,
      listProcesses (named [7] (ascii "sh") (ascii "sh\x00-c\x00ls\nid")) = .ok processes ∧
      (readProcesses (processesText env processes)).length ≠ processes.length := by
  intro env
  refine ⟨⟨[namedInfo 7 (ascii "a\tb") (ascii "c")], [namedInfo 7 (ascii "a") (ascii "b\tc")],
    rfl, rfl, by decide, rfl, ?_⟩, [namedInfo 7 (ascii "sh") (ascii "sh -c ls\nid")], rfl, ?_⟩
  · decide +kernel
  · decide +kernel

end EdgeScope.DiagnosticCollector
