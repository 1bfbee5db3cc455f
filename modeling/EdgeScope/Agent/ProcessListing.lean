import EdgeScope.Agent.ProcessStat
import EdgeScope.Agent.ProcessStatus
import EdgeScope.Text.Trim

/-!
# Reading `/proc`

The kernel shows a process in four files of a directory that is named by its pid, and the
collector makes one record of them. Two of the files may be missing, and then something else
stands in the record. A process whose `stat` or `status` is gone has no record, and the list
goes on without it.
-/

namespace EdgeScope.ProcessCollector
open Text

def argumentsText (arguments : List Bytes) : Bytes :=
  arguments.flatMap fun argument => argument ++ [0]

/-- What stands for the command line of a process that shows none. -/
def bracketed (name : Bytes) : Bytes := ascii "[" ++ name ++ ascii "]"

def argumentsLine (name : Bytes) (arguments : List Bytes) : Bytes :=
  let line := ([charByte ' '].intercalate arguments).rdropWhile (· = charByte ' ')
  if line = [] then bracketed name else line

theorem map_nulToSpace {argument : Bytes} (h : 0 ∉ argument) :
    argument.map nulToSpace = argument := by
  conv_rhs => rw [← List.map_id argument]
  apply List.map_congr_left
  intro b hb
  refine if_neg fun hzero => h ?_
  rwa [hzero] at hb

theorem map_nulToSpace_argumentsText {arguments : List Bytes} (hne : arguments ≠ [])
    (h : ∀ argument ∈ arguments, 0 ∉ argument) :
    (argumentsText arguments).map nulToSpace =
      [charByte ' '].intercalate arguments ++ [charByte ' '] := by
  induction arguments with
  | nil => exact absurd rfl hne
  | cons argument arguments ih =>
    have hargument := map_nulToSpace (h argument List.mem_cons_self)
    have hspace : [(0 : Byte)].map nulToSpace = [charByte ' '] := rfl
    rw [argumentsText, List.flatMap_cons, List.map_append, List.map_append, hargument, hspace]
    cases arguments with
    | nil => simp
    | cons next arguments =>
      have hrest := ih (List.cons_ne_nil _ _) fun argument hmem =>
        h argument (List.mem_cons_of_mem _ hmem)
      rw [argumentsText] at hrest
      rw [hrest, List.intercalate_cons_cons]
      simp only [List.append_assoc]

theorem readCommandLine_argumentsText (name : Bytes) {arguments : List Bytes}
    (h : ∀ argument ∈ arguments, 0 ∉ argument) :
    readCommandLine (.ok (argumentsText arguments)) name = argumentsLine name arguments := by
  have htrim : ((argumentsText arguments).map nulToSpace).rdropWhile (· = charByte ' ') =
      ([charByte ' '].intercalate arguments).rdropWhile (· = charByte ' ') := by
    by_cases hne : arguments = []
    · rw [hne]
      rfl
    · rw [map_nulToSpace_argumentsText hne h]
      exact rdropWhile_append_of_pos (by simp)
  simp only [readCommandLine, argumentsLine, htrim, bracketed]

def countersText (counters : List (Bytes × UInt64)) : Bytes :=
  counters.flatMap fun counter =>
    (counter.1 ++ ascii ":") ++ (ascii " " ++ (decimal counter.2.toNat ++ [newline]))

def lastCounter (key : Bytes) (counters : List (Bytes × UInt64)) : Option UInt64 :=
  counters.reverse.lookup key

theorem lastCounter_cons (key : Bytes) (counter : Bytes × UInt64)
    (counters : List (Bytes × UInt64)) : lastCounter key (counter :: counters) =
      (lastCounter key counters).or (if key = counter.1 then some counter.2 else none) := by
  rw [lastCounter, List.reverse_cons, List.lookup_append]
  congr 1
  obtain ⟨word, value⟩ := counter
  by_cases hkey : key = word
  · rw [hkey, if_pos rfl]
    exact List.lookup_cons_self
  · rw [if_neg hkey, List.lookup_cons, beq_eq_false_iff_ne.mpr hkey]
    rfl

def withCounters (counters : List (Bytes × UInt64)) (process : ProcessInfo) : ProcessInfo :=
  { process with
    readBytes := ((lastCounter (ascii "read_bytes") counters).map UInt64.toNat).getD
      process.readBytes
    writeBytes := ((lastCounter (ascii "write_bytes") counters).map UInt64.toNat).getD
      process.writeBytes }

def withCounter (key : Bytes) (value : UInt64) (process : ProcessInfo) : ProcessInfo :=
  if key = ascii "read_bytes" then { process with readBytes := value.toNat }
  else if key = ascii "write_bytes" then { process with writeBytes := value.toNat }
  else process

theorem withCounters_cons (key : Bytes) (value : UInt64) (counters : List (Bytes × UInt64))
    (process : ProcessInfo) : withCounters ((key, value) :: counters) process =
      withCounters counters (withCounter key value process) := by
  unfold withCounters withCounter
  rw [lastCounter_cons, lastCounter_cons]
  simp only
  -- a later line under the same key is the one that counts
  by_cases hread : key = ascii "read_bytes"
  · rw [hread, if_pos rfl, if_pos rfl, if_neg (by decide)]
    cases lastCounter (ascii "read_bytes") counters <;>
      cases lastCounter (ascii "write_bytes") counters <;> rfl
  · rw [if_neg fun h => hread h.symm, if_neg hread]
    by_cases hwrite : key = ascii "write_bytes"
    · rw [hwrite, if_pos rfl, if_pos rfl]
      cases lastCounter (ascii "read_bytes") counters <;>
        cases lastCounter (ascii "write_bytes") counters <;> rfl
    · rw [if_neg fun h => hwrite h.symm, if_neg hwrite, Option.or_none, Option.or_none]

theorem isBlank_newline : IsBlank [newline] := by decide

theorem parseIoLoop_countersText {counters : List (Bytes × UInt64)}
    (h : ∀ counter ∈ counters, ∀ b ∈ counter.1, isSpace b = false) {blank : Bytes}
    (hblank : IsBlank blank) (fuel : ℕ) (hfuel : counters.length ≤ fuel) (process : ProcessInfo) :
    parseIoLoop fuel (blank ++ countersText counters) process = withCounters counters process := by
  induction counters generalizing blank fuel process with
  | nil =>
    rw [countersText, List.flatMap_nil, List.append_nil]
    cases fuel with
    | zero => rfl
    | succ fuel =>
      rw [parseIoLoop, scanWord_blank hblank]
      rfl
  | cons counter counters ih =>
    cases fuel with
    | zero => exact absurd hfuel (by simp)
    | succ fuel =>
      obtain ⟨key, value⟩ := counter
      have hword : IsWord (key ++ ascii ":") := by
        refine ⟨by simp [ascii], fun b hb => ?_⟩
        obtain hb | hb := List.mem_append.mp hb
        · exact h (key, value) List.mem_cons_self b hb
        · rw [List.mem_singleton.mp hb]
          decide
      let numberText := decimal value.toNat ++ ([newline] ++ countersText counters)
      have hkey : scanWord (blank ++ ((key ++ ascii ":") ++ (ascii " " ++ numberText))) =
          some (key ++ ascii ":", ascii " " ++ numberText) :=
        scanWord_append hblank hword (endsWord_append (by decide) isBlank_space numberText)
      have hvalue : scanUInt64 (ascii " " ++ numberText) =
          some (value.toNat, [newline] ++ countersText counters) :=
        scanUInt64_decimal isBlank_space
          (endsWord_append (by decide) isBlank_newline _).ends_isDigit value.toNat_lt
      have hnext := ih (fun counter hmem => h counter (List.mem_cons_of_mem _ hmem))
        isBlank_newline fuel (by simpa using hfuel)
      have htext : blank ++ countersText ((key, value) :: counters) =
          blank ++ ((key ++ ascii ":") ++ (ascii " " ++ numberText)) := by
        simp only [countersText, List.flatMap_cons, List.append_assoc, numberText]
      have hcolon (word : Bytes) : key ++ ascii ":" = word ++ ascii ":" ↔ key = word :=
        List.append_left_inj _
      have hread : ascii "read_bytes:" = ascii "read_bytes" ++ ascii ":" := by decide
      have hwrite : ascii "write_bytes:" = ascii "write_bytes" ++ ascii ":" := by decide
      rw [htext, parseIoLoop, hkey, withCounters_cons, withCounter]
      simp only [hvalue, hnext, hread, hwrite, hcolon]
      split_ifs <;> rfl

theorem length_le_countersText (counters : List (Bytes × UInt64)) :
    counters.length ≤ (countersText counters).length := by
  induction counters with
  | nil => exact le_rfl
  | cons counter counters ih =>
    rw [countersText, List.flatMap_cons, ← countersText]
    simp only [List.length_append, List.length_cons]
    omega

theorem parseIo_countersText {counters : List (Bytes × UInt64)}
    (h : ∀ counter ∈ counters, ∀ b ∈ counter.1, isSpace b = false) (process : ProcessInfo) :
    parseIo (countersText counters) process = withCounters counters process :=
  parseIoLoop_countersText h isBlank_nil _ (length_le_countersText counters) process

/-- A process as the kernel shows it: the fields of `stat`, the text of `status` with the fields
in it, the arguments of the program, and the counters. A kernel thread has no arguments, and
either of the last two files may be closed to the agent. -/
structure KernelProcess where
  stat : KernelStat
  further : List ℤ
  status : Bytes
  fields : StatusFields
  arguments : Except Errno (List Bytes)
  counters : Except Errno (List (Bytes × UInt64))
  pid_pos : 0 < stat.pid.toInt
  ppid_nonneg : 0 ≤ stat.ppid.toInt
  isSpace_state : isSpace stat.state = false
  state_ne : stat.state ≠ charByte ')'
  ticks_lt : stat.utime.toNat + stat.stime.toNat < 2 ^ 64
  threads_nonneg : 0 ≤ stat.numThreads.toInt
  threads_lt : stat.numThreads.toInt < 2 ^ 32
  describes : fields.Describes (getlines newline status)
  isValid : fields.IsValid
  nul_notMem : ∀ words, arguments = .ok words → ∀ word ∈ words, 0 ∉ word
  not_isSpace : ∀ lines, counters = .ok lines → ∀ line ∈ lines, ∀ b ∈ line.1, isSpace b = false

namespace KernelProcess

def pid (p : KernelProcess) : ℤ := p.stat.pid.toInt

def files (p : KernelProcess) : ProcessFiles where
  stat := .ok (p.stat.line p.further ++ [newline])
  status := .ok p.status
  cmdline := p.arguments.map argumentsText
  io := p.counters.map countersText

def commandLine (p : KernelProcess) : Bytes :=
  match p.arguments with
  | .error _ => bracketed p.stat.name
  | .ok arguments => argumentsLine p.stat.name arguments

def counter (p : KernelProcess) (key : Bytes) : ℕ :=
  match p.counters with
  | .error _ => 0
  | .ok counters => ((lastCounter key counters).map UInt64.toNat).getD 0

/-- The record of a process. The threads are those of `status`, where it has them. -/
def info (cpuUsage : ℤ → ℕ → ℕ → Double) (p : KernelProcess) : ProcessInfo where
  pid := p.pid
  ppid := p.stat.ppid.toInt
  name := p.stat.name
  state := [p.stat.state]
  commandLine := p.commandLine
  cpuUsagePercent :=
    cpuUsage p.pid (p.stat.utime.toNat + p.stat.stime.toNat) p.stat.starttime.toNat
  residentMemoryBytes := (p.fields.rss.map (·.value * 1024)).getD 0
  virtualMemoryBytes := (p.fields.size.map (·.value * 1024)).getD 0
  threadCount := (p.fields.threads.map (·.value)).getD p.stat.numThreads.toInt.toNat
  readBytes := p.counter (ascii "read_bytes")
  writeBytes := p.counter (ascii "write_bytes")
  startTimeTicks := p.stat.starttime.toNat

def statInfo (p : KernelProcess) : ProcessInfo where
  pid := p.pid
  ppid := p.stat.ppid.toInt
  name := p.stat.name
  state := [p.stat.state]
  threadCount := p.stat.numThreads.toInt.toNat
  startTimeTicks := p.stat.starttime.toNat

def statusInfo (p : KernelProcess) : ProcessInfo :=
  { p.statInfo with
    residentMemoryBytes := (p.fields.rss.map (·.value * 1024)).getD 0
    virtualMemoryBytes := (p.fields.size.map (·.value * 1024)).getD 0
    threadCount := (p.fields.threads.map (·.value)).getD p.statInfo.threadCount }

variable (p : KernelProcess)

theorem parseStatLine_stat : parseStatLine (p.stat.line p.further ++ [newline]) {} =
    .ok (p.statInfo, p.stat.utime.toNat + p.stat.stime.toNat) := by
  have hrest : EndsWord (fieldsText p.further ++ [newline]) :=
    endsWord_fieldsText (endsWord_append (by decide) isBlank_newline []) p.further
  have hticks := endsWord_ticksText p.stat hrest
  have hparent := statStateAndParent_line p.stat (endsWord_fieldsText hticks p.stat.accounting)
    p.isSpace_state p.ppid_nonneg
  rw [← p.stat.tail_eq, ← drop_line] at hparent
  have hname := statName_line p.stat p.further [newline]
  simp only at hname
  obtain ⟨threads, hthreads⟩ := Int.eq_ofNat_of_zero_le p.threads_nonneg
  have hsmall := p.threads_lt
  have hfits : ¬ kUInt64Max - p.stat.stime.toNat < p.stat.utime.toNat := by
    have := p.ticks_lt
    unfold kUInt64Max
    omega
  simp only [parseStatLine, statParentheses_line p.stat p.further p.state_ne isBlank_newline,
    orError, statPid_line p.stat p.further p.pid_pos [newline], hparent,
    skipFields_accounting p.stat hticks, statTicks_line p.stat hrest, hname, bind, Except.bind,
    if_neg hfits, skipFields_scheduling p.stat (endsWord_threadsText p.stat hrest),
    statThreadsAndStart_line p.stat hrest hthreads (by omega)]
  rw [statInfo, hthreads]
  rfl

theorem parseStatus_status : parseStatus p.status p.statInfo = .ok p.statusInfo := by
  rw [parseStatus, (parseStatusLines_describes p.describes ⟨p.statInfo, false, false⟩).1 p.isValid,
    statusInfo]
  cases hrss : p.fields.rss <;> cases hsize : p.fields.size <;>
    simp [StatusFields.record, hrss, hsize, statInfo]

theorem readCommandLine_arguments :
    readCommandLine (p.arguments.map argumentsText) p.stat.name = p.commandLine := by
  unfold commandLine
  cases h : p.arguments with
  | error errno => rfl
  | ok arguments => exact readCommandLine_argumentsText p.stat.name (p.nul_notMem arguments h)

end KernelProcess

theorem getProcess_files {proc : ProcFs} {p : KernelProcess} (h : proc.files p.pid = p.files) :
    getProcess proc p.pid = .ok (p.info proc.cpuUsage) := by
  have hpid : ¬ p.pid ≤ 0 := not_le.mpr p.pid_pos
  have hname : p.statusInfo.name = p.stat.name := rfl
  simp only [getProcess, if_neg hpid, h, KernelProcess.files, p.parseStatLine_stat,
    p.parseStatus_status, hname, p.readCommandLine_arguments]
  cases hcounters : p.counters with
  | error errno =>
    simp only [Except.map, KernelProcess.info, KernelProcess.counter, hcounters]
    rfl
  | ok counters =>
    simp only [Except.map, parseIo_countersText (p.not_isSpace counters hcounters),
      KernelProcess.info, KernelProcess.counter, hcounters]
    rfl

/-- A process that is gone, or closed to the agent, when one of its files is opened or its `stat`
is read. A read that fails finds nothing. -/
def Unreadable (files : ProcessFiles) : Prop :=
  (∃ errno, files.stat = .error errno) ∨ files.stat = .ok [] ∨ ∃ errno, files.status = .error errno

theorem toOption_getProcess_of_unreadable {proc : ProcFs} {pid : ℤ}
    (h : Unreadable (proc.files pid)) : (getProcess proc pid).toOption = none := by
  cases hread : getProcess proc pid with
  | error error => rfl
  | ok process =>
    obtain ⟨-, ⟨stat, _, _, status, _, hstat, hparsed, hstatus, -⟩, -⟩ := getProcess_text hread
    obtain ⟨errno, hstat'⟩ | hstat' | ⟨errno, hstatus'⟩ := h
    · cases hstat.symm.trans hstat'
    · cases hstat.symm.trans hstat'
      cases hparsed
    · cases hstatus.symm.trans hstatus'

theorem entryPid_decimal {pid : ℤ} (hpos : 0 < pid) (hmax : pid < 2 ^ 31) :
    entryPid (decimal pid.toNat) = some pid := by
  obtain ⟨n, rfl⟩ := Int.eq_ofNat_of_zero_le hpos.le
  have hnumeric : isNumeric (decimal n) = true := by
    obtain ⟨hne, hdigits⟩ := isDigits_decimal n
    simpa [isNumeric, hne] using hdigits
  have hmax' : n ≤ kInt32Max := by
    unfold kInt32Max
    omega
  rw [Int.toNat_natCast, entryPid, digitsValue_decimal, if_pos ⟨hnumeric, by omega, hmax'⟩]

/-- The directory `/proc` while the agent reads it: the entries that are pids are those of the
processes it can read, with their files, and of others it cannot. Every pid is met once. -/
structure ShowsProcesses (proc : ProcFs) (entries : List Bytes) (processes : List KernelProcess) :
    Prop where
  entries_eq : proc.entries = .ok entries
  nodup : (entries.filterMap entryPid).Nodup
  name_mem : ∀ p ∈ processes, decimal p.pid.toNat ∈ entries
  files_eq : ∀ p ∈ processes, proc.files p.pid = p.files
  unreadable : ∀ pid ∈ entries.filterMap entryPid, (∀ p ∈ processes, p.pid ≠ pid) →
    Unreadable (proc.files pid)

theorem pid_mem_entries {proc : ProcFs} {entries : List Bytes} {processes : List KernelProcess}
    (h : ShowsProcesses proc entries processes) {p : KernelProcess} (hp : p ∈ processes) :
    p.pid ∈ entries.filterMap entryPid :=
  List.mem_filterMap.mpr ⟨_, h.name_mem p hp, entryPid_decimal p.pid_pos p.stat.pid.toInt_lt⟩

theorem toOption_getProcess_eq_some_iff {proc : ProcFs} {entries : List Bytes}
    {processes : List KernelProcess} (h : ShowsProcesses proc entries processes) {pid : ℤ}
    (hpid : pid ∈ entries.filterMap entryPid) {info : ProcessInfo} :
    (getProcess proc pid).toOption = some info ↔
      ∃ p ∈ processes, p.pid = pid ∧ info = p.info proc.cpuUsage := by
  by_cases hshown : ∃ p ∈ processes, p.pid = pid
  · obtain ⟨p, hp, rfl⟩ := hshown
    have hread := getProcess_files (h.files_eq p hp)
    rw [hread]
    constructor
    · rintro ⟨⟩
      exact ⟨p, hp, rfl, rfl⟩
    · rintro ⟨p', hp', hsame, rfl⟩
      -- two processes with one pid have one record
      have hread' := getProcess_files (h.files_eq p' hp')
      rw [hsame, hread] at hread'
      rw [Except.ok.inj hread']
      rfl
  · have hnone : ∀ p ∈ processes, p.pid ≠ pid := fun p hp hsame => hshown ⟨p, hp, hsame⟩
    rw [toOption_getProcess_of_unreadable (h.unreadable pid hpid hnone)]
    refine iff_of_false nofun ?_
    rintro ⟨p, hp, hsame, -⟩
    exact hnone p hp hsame

theorem pairwise_insertionSort_pid (records : List ProcessInfo) :
    (records.insertionSort fun left right => left.pid ≤ right.pid).Pairwise
      fun left right => left.pid ≤ right.pid := by
  have : Std.Total fun left right : ProcessInfo => left.pid ≤ right.pid :=
    ⟨fun left right => le_total left.pid right.pid⟩
  have : IsTrans ProcessInfo fun left right => left.pid ≤ right.pid :=
    ⟨fun _ _ _ => le_trans⟩
  exact List.pairwise_insertionSort _ records

/-- The records are in the order of the pids and no two have the same, every process that can be
read has its record with all that the kernel shows of it, and there is no other. -/
theorem listProcesses_shows {proc : ProcFs} {entries : List Bytes}
    {processes : List KernelProcess} (h : ShowsProcesses proc entries processes) :
    ∃ infos, listProcesses proc = .ok infos ∧
      infos.Pairwise (fun left right => left.pid < right.pid) ∧
      ∀ info, info ∈ infos ↔ ∃ p ∈ processes, info = p.info proc.cpuUsage := by
  let records := (entries.filterMap entryPid).filterMap fun pid => (getProcess proc pid).toOption
  have hlist : listProcesses proc =
      .ok (records.insertionSort fun left right => left.pid ≤ right.pid) := by
    simp only [listProcesses, h.entries_eq, records]
  refine ⟨_, hlist, ?_, fun info => ?_⟩
  · have hne : records.Pairwise fun left right => left.pid ≠ right.pid := by
      refine List.Pairwise.filterMap _ ?_ (List.Pairwise.and_mem.mp h.nodup)
      rintro pid pid' ⟨hpid, hpid', hdiffer⟩ info hinfo info' hinfo'
      obtain ⟨p, -, rfl, rfl⟩ := (toOption_getProcess_eq_some_iff h hpid).mp hinfo
      obtain ⟨p', -, rfl, rfl⟩ := (toOption_getProcess_eq_some_iff h hpid').mp hinfo'
      exact hdiffer
    have hne' := hne.perm (List.perm_insertionSort (fun left right => left.pid ≤ right.pid)
      records).symm fun hpids => hpids.symm
    refine (hne'.and (pairwise_insertionSort_pid records)).imp ?_
    rintro left right ⟨hdiffer, hle⟩
    exact lt_of_le_of_ne hle hdiffer
  · rw [List.mem_insertionSort, List.mem_filterMap]
    constructor
    · rintro ⟨pid, hpid, hrecord⟩
      obtain ⟨p, hp, -, rfl⟩ := (toOption_getProcess_eq_some_iff h hpid).mp hrecord
      exact ⟨p, hp, rfl⟩
    · rintro ⟨p, hp, rfl⟩
      have hpid := pid_mem_entries h hp
      exact ⟨p.pid, hpid, (toOption_getProcess_eq_some_iff h hpid).mpr ⟨p, hp, rfl, rfl⟩⟩

/-- A process with a misleading name, more threads in `status` than in `stat`, and a key that
comes twice in `io`. -/
def misleading : KernelProcess where
  stat := disguised (charByte 'S')
  further := [0, -5]
  status := disordered
  fields := disorderedFields
  arguments := .ok [ascii "sh", ascii "a b", []]
  counters := .ok [(ascii "read_bytes", 3), (ascii "rchar", 9), (ascii "read_bytes", 4)]
  pid_pos := by decide
  ppid_nonneg := by decide
  isSpace_state := by decide
  state_ne := by decide
  ticks_lt := by decide
  threads_nonneg := by decide
  threads_lt := by decide
  describes := ⟨by decide, by decide, by decide⟩
  isValid := ⟨by rintro f ⟨⟩; decide, by rintro f ⟨⟩, by rintro f ⟨⟩; decide⟩
  nul_notMem := by rintro _ ⟨⟩; decide
  not_isSpace := by rintro _ ⟨⟩; decide +kernel

def kernelThread : KernelProcess where
  stat := ⟨2, ascii "kthreadd", charByte 'I', 0, 0, 0, 0, -1, 64, 0, 0, 0, 0, 0, 5, 0, 0, 20, 0, 1,
    0, 1⟩
  further := []
  status := []
  fields := ⟨none, none, none⟩
  arguments := .ok []
  counters := .error .eacces
  pid_pos := by decide
  ppid_nonneg := by decide
  isSpace_state := by decide
  state_ne := by decide
  ticks_lt := by decide
  threads_nonneg := by decide
  threads_lt := by decide
  describes := ⟨by decide, by decide, by decide⟩
  isValid := ⟨by rintro f ⟨⟩, by rintro f ⟨⟩, by rintro f ⟨⟩⟩
  nul_notMem := by rintro _ ⟨⟩; decide
  not_isSpace := by rintro _ ⟨⟩

/-- The two, and two others that have gone. -/
def fourDirectories : ProcFs where
  entries := .ok [ascii "7", ascii "self", ascii "9", ascii "2", ascii "10"]
  files pid :=
    if pid = 7 then misleading.files
    else if pid = 2 then kernelThread.files
    else if pid = 9 then ⟨.error .esrch, .ok [], .ok [], .ok []⟩
    else ⟨.ok [], .ok [], .ok [], .ok []⟩
  cpuUsage _ _ _ := 0

theorem showsProcesses_fourDirectories :
    ShowsProcesses fourDirectories [ascii "7", ascii "self", ascii "9", ascii "2", ascii "10"]
      [misleading, kernelThread] where
  entries_eq := rfl
  nodup := by decide +kernel
  name_mem := by
    intro p hp
    obtain rfl | rfl := List.mem_pair.mp hp
    · decide +kernel
    · decide +kernel
  files_eq := by
    intro p hp
    obtain rfl | rfl := List.mem_pair.mp hp
    · rfl
    · rfl
  unreadable := by
    intro pid _ hother
    have hseven : pid ≠ 7 := (hother misleading (by simp)).symm
    have htwo : pid ≠ 2 := (hother kernelThread (by simp)).symm
    rw [fourDirectories]
    simp only [if_neg hseven, if_neg htwo]
    split_ifs
    · exact .inl ⟨.esrch, rfl⟩
    · exact .inr (.inl rfl)

theorem listProcesses_fourDirectories :
    ∃ thread info, listProcesses fourDirectories = .ok [thread, info] ∧
      thread.pid = 2 ∧ thread.commandLine = ascii "[kthreadd]" ∧
      info.pid = 7 ∧ info.threadCount = 8 ∧ info.commandLine = ascii "sh a b" ∧
      info.readBytes = 4 := by
  obtain ⟨infos, hlist, hsorted, hmem⟩ := listProcesses_shows showsProcesses_fourDirectories
  have htwo : infos = [kernelThread.info fourDirectories.cpuUsage,
      misleading.info fourDirectories.cpuUsage] := by
    have hsorted' : [kernelThread.info fourDirectories.cpuUsage,
        misleading.info fourDirectories.cpuUsage].Pairwise
          (fun left right => left.pid < right.pid) := List.pairwise_pair.mpr (by decide)
    refine List.Perm.eq_of_pairwise (fun left right _ _ hlt hgt => (lt_asymm hlt hgt).elim)
      hsorted hsorted' ((List.perm_ext_iff_of_nodup ?_ ?_).mpr fun info => ?_)
    · exact hsorted.imp fun hlt hsame => (hsame ▸ hlt).false
    · exact hsorted'.imp fun hlt hsame => (hsame ▸ hlt).false
    · rw [hmem]
      simp only [List.mem_cons, List.not_mem_nil, or_false, exists_eq_or_imp, exists_eq_left]
      exact or_comm
  exact ⟨_, _, htwo ▸ hlist, by decide, by decide, by decide, by decide, by decide, by decide⟩

end EdgeScope.ProcessCollector
