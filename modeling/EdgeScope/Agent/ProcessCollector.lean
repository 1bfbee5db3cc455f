import EdgeScope.Agent.Host
import EdgeScope.Text.Scan
import Mathlib.Data.List.Sort

/-!
# `ProcessCollector`

What is known of a process comes from four files of its directory under `/proc`. The name
stands between the first `'('` and the last `')'` of `stat`, so it may hold any bytes.
-/

namespace EdgeScope
open Text

structure ProcessInfo where
  pid : ℤ := 0
  ppid : ℤ := 0
  name : Bytes := []
  state : Bytes := []
  commandLine : Bytes := []
  cpuUsagePercent : Double := 0
  residentMemoryBytes : ℕ := 0
  virtualMemoryBytes : ℕ := 0
  threadCount : ℕ := 0
  readBytes : ℕ := 0
  writeBytes : ℕ := 0
  startTimeTicks : ℕ := 0
  deriving DecidableEq

inductive ProcessCollectorError
  | invalidArgument
  | notFound
  | permissionDenied
  | parseError
  | ioError
  deriving DecidableEq, Repr

/-- The files of `/proc/[pid]`, as `ReadFile` finds them. -/
structure ProcessFiles where
  stat : Except Errno Bytes
  status : Except Errno Bytes
  cmdline : Except Errno Bytes
  io : Except Errno Bytes

/-- What the collector reads: the names in `/proc` or the error of the scan, the files of a
process, and the usage computed from its clock ticks and its start time. The time is read anew for
every process. -/
structure ProcFs where
  entries : Except Bytes (List Bytes)
  files : ℤ → ProcessFiles
  cpuUsage : ℤ → ℕ → ℕ → Double

namespace ProcessCollector

def kBytesPerKilobyte : ℕ := 1024
def kInt32Max : ℕ := 2 ^ 31 - 1
def kUInt32Max : ℕ := 2 ^ 32 - 1
def kUInt64Max : ℕ := 2 ^ 64 - 1

def isNumeric (value : Bytes) : Bool := value ≠ [] && value.all isDigit

def errorFromErrno : Errno → ProcessCollectorError
  | .enoent | .esrch => .notFound
  | .eacces | .eperm => .permissionDenied
  | _ => .ioError

/-- The value of an extraction, or the error text of the caller. -/
def orError {α : Type} (error : Bytes) : Option α → Except Bytes α
  | none => .error error
  | some a => .ok a

def statParentheses (line : Bytes) : Option (ℕ × ℕ) :=
  match findChar (charByte '(') line, rfindChar (charByte ')') line with
  | some openParenthesis, some closeParenthesis =>
    if closeParenthesis ≤ openParenthesis ∨ line.length < closeParenthesis + 2 then none
    else some (openParenthesis, closeParenthesis)
  | _, _ => none

def statPid (s : Bytes) : Option ℤ :=
  match scanInt64 s with
  | none => none
  | some (pid, _) => if pid ≤ 0 ∨ (kInt32Max : ℤ) < pid then none else some pid

def statStateAndParent (fields : Bytes) : Option (Byte × ℤ × Bytes) :=
  match scanChar fields with
  | none => none
  | some (state, fields) =>
    match scanInt64 fields with
    | none => none
    | some (ppid, fields) =>
      if ppid < 0 ∨ (kInt32Max : ℤ) < ppid then none else some (state, ppid, fields)

def statTicks (fields : Bytes) : Option (ℕ × ℕ × Bytes) :=
  match scanUInt64 fields with
  | none => none
  | some (userTicks, fields) =>
    match scanUInt64 fields with
    | none => none
    | some (systemTicks, fields) => some (userTicks, systemTicks, fields)

def statThreadsAndStart (fields : Bytes) : Option (ℕ × ℕ) :=
  match scanUInt64 fields with
  | none => none
  | some (threads, fields) =>
    match scanInt64 fields with
    | none => none
    | some (_, fields) =>
      match scanUInt64 fields with
      | none => none
      | some (startTimeTicks, _) =>
        if kUInt32Max < threads then none else some (threads, startTimeTicks)

/-- The process with the fields of `stat`, and its clock ticks. -/
def parseStatLine (line : Bytes) (process : ProcessInfo) : Except Bytes (ProcessInfo × ℕ) := do
  let (openParenthesis, closeParenthesis) ←
    orError (ascii "invalid /proc/[pid]/stat process name") (statParentheses line)
  let pid ← orError (ascii "invalid pid in /proc/[pid]/stat") (statPid (line.take openParenthesis))
  let name := (line.drop (openParenthesis + 1)).take (closeParenthesis - openParenthesis - 1)
  let (state, ppid, fields) ← orError (ascii "invalid state or ppid in /proc/[pid]/stat")
    (statStateAndParent (line.drop (closeParenthesis + 1)))
  -- fields 5 to 13
  let fields ← orError (ascii "missing fields in /proc/[pid]/stat") (skipFields scanUInt64 9 fields)
  let (userTicks, systemTicks, fields) ←
    orError (ascii "invalid cpu fields in /proc/[pid]/stat") (statTicks fields)
  if kUInt64Max - systemTicks < userTicks then
    .error (ascii "cpu fields overflow in /proc/[pid]/stat")
  else
    -- fields 16 to 19
    let fields ← orError (ascii "missing scheduler fields in /proc/[pid]/stat")
      (skipFields scanInt64 4 fields)
    let (threads, startTimeTicks) ←
      orError (ascii "invalid thread or start fields in /proc/[pid]/stat")
        (statThreadsAndStart fields)
    .ok ({ process with
      pid := pid
      name := name
      state := [state]
      ppid := ppid
      startTimeTicks := startTimeTicks
      threadCount := threads }, userTicks + systemTicks)

def parseKilobyteField (line expectedKey : Bytes) : Option ℕ :=
  match scanWord line with
  | none => none
  | some (key, rest) =>
    match scanUInt64 rest with
    | none => none
    | some (value, rest) =>
      match scanWord rest with
      | none => none
      | some (unit, _) =>
        if key ≠ expectedKey ∨ unit ≠ ascii "kB" ∨ kUInt64Max / kBytesPerKilobyte < value then none
        else some (value * kBytesPerKilobyte)

def parseThreads (line : Bytes) : Option ℕ :=
  match scanWord line with
  | none => none
  | some (key, rest) =>
    match scanUInt64 rest with
    | none => none
    | some (threads, _) =>
      if key ≠ ascii "Threads:" ∨ kUInt32Max < threads then none else some threads

structure StatusScan where
  process : ProcessInfo
  foundRss : Bool
  foundVirtualMemory : Bool

def parseStatusLine (line : Bytes) (s : StatusScan) : Except Bytes StatusScan :=
  if (ascii "VmRSS:").isPrefixOf line then
    match parseKilobyteField line (ascii "VmRSS:") with
    | none => .error (ascii "invalid VmRSS in /proc/[pid]/status")
    | some bytes =>
      .ok { s with process := { s.process with residentMemoryBytes := bytes }, foundRss := true }
  else if (ascii "VmSize:").isPrefixOf line then
    match parseKilobyteField line (ascii "VmSize:") with
    | none => .error (ascii "invalid VmSize in /proc/[pid]/status")
    | some bytes =>
      .ok { s with
        process := { s.process with virtualMemoryBytes := bytes }
        foundVirtualMemory := true }
  else if (ascii "Threads:").isPrefixOf line then
    match parseThreads line with
    | none => .error (ascii "invalid Threads in /proc/[pid]/status")
    | some threads => .ok { s with process := { s.process with threadCount := threads } }
  else .ok s

def parseStatusLines : List Bytes → StatusScan → Except Bytes StatusScan
  | [], s => .ok s
  | line :: lines, s =>
    match parseStatusLine line s with
    | .error error => .error error
    | .ok s => parseStatusLines lines s

/-- Kernel threads may omit the memory fields. -/
def parseStatus (contents : Bytes) (process : ProcessInfo) : Except Bytes ProcessInfo :=
  match parseStatusLines (getlines newline contents) ⟨process, false, false⟩ with
  | .error error => .error error
  | .ok s =>
    .ok { s.process with
      residentMemoryBytes := if s.foundRss then s.process.residentMemoryBytes else 0
      virtualMemoryBytes := if s.foundVirtualMemory then s.process.virtualMemoryBytes else 0 }

/-- The loop over keys and values. Every round reads at least one byte. -/
def parseIoLoop : ℕ → Bytes → ProcessInfo → ProcessInfo
  | 0, _, process => process
  | fuel + 1, s, process =>
    match scanWord s with
    | none => process
    | some (key, rest) =>
      match scanUInt64 rest with
      | none => process
      | some (value, rest) =>
        if key = ascii "read_bytes:" then parseIoLoop fuel rest { process with readBytes := value }
        else if key = ascii "write_bytes:" then
          parseIoLoop fuel rest { process with writeBytes := value }
        else parseIoLoop fuel rest process

def parseIo (contents : Bytes) (process : ProcessInfo) : ProcessInfo :=
  parseIoLoop contents.length contents process

def nulToSpace (b : Byte) : Byte := if b = 0 then charByte ' ' else b

def readCommandLine (cmdline : Except Errno Bytes) (processName : Bytes) : Bytes :=
  let bracketed := ascii "[" ++ processName ++ ascii "]"
  match cmdline with
  | .error _ => bracketed
  | .ok contents =>
    let commandLine := (contents.map nulToSpace).rdropWhile (· = charByte ' ')
    if commandLine = [] then bracketed else commandLine

def getProcess (proc : ProcFs) (pid : ℤ) : Except (ProcessCollectorError × Bytes) ProcessInfo :=
  if pid ≤ 0 then .error (.invalidArgument, ascii "pid must be positive")
  else
    let files := proc.files pid
    match files.stat with
    | .error errno => .error (errorFromErrno errno,
        ascii "failed to read process stat for pid " ++ decimal pid.toNat)
    | .ok statContents =>
      match parseStatLine statContents {} with
      | .error error => .error (.parseError, error)
      | .ok (process, processCpuTicks) =>
        match files.status with
        | .error errno => .error (errorFromErrno errno,
            ascii "failed to read process status for pid " ++ decimal pid.toNat)
        | .ok statusContents =>
          match parseStatus statusContents process with
          | .error error => .error (.parseError, error)
          | .ok process =>
            let process :=
              { process with commandLine := readCommandLine files.cmdline process.name }
            let process :=
              match files.io with
              | .error _ => process
              | .ok ioContents => parseIo ioContents process
            .ok { process with
              cpuUsagePercent := proc.cpuUsage pid processCpuTicks process.startTimeTicks }

def entryPid (filename : Bytes) : Option ℤ :=
  if isNumeric filename ∧ 0 < digitsValue filename ∧ digitsValue filename ≤ kInt32Max then
    some (digitsValue filename)
  else none

/-- A process that cannot be read is left out. -/
def listProcesses (proc : ProcFs) : Except Bytes (List ProcessInfo) :=
  match proc.entries with
  | .error message => .error (ascii "failed to scan /proc: " ++ message)
  | .ok entries =>
    .ok (((entries.filterMap entryPid).filterMap fun pid =>
      (getProcess proc pid).toOption).insertionSort fun left right => left.pid ≤ right.pid)

end ProcessCollector
end EdgeScope
