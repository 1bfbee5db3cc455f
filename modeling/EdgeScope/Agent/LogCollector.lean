import EdgeScope.Agent.Host
import EdgeScope.Agent.SanitizeUtf8
import EdgeScope.Text.Lines

/-!
# `LogCollector`

The whitelist of logs, and the bounded read of the tail of one of them. `ReadLog`
reads blocks backwards from the end of the file, puts them together again, and runs
the lines of what it has read through a filter and a sliding window.
-/

namespace EdgeScope
open Text

structure AllowedLog where
  id : Bytes
  displayName : Bytes
  path : Bytes
  deriving DecidableEq

structure LogCollector where
  allowedLogs : List AllowedLog

structure LogSourceInfo where
  id : Bytes
  displayName : Bytes
  available : Bool
  deriving DecidableEq

structure LogReadResult where
  lines : List Bytes
  truncated : Bool
  deriving DecidableEq

inductive LogCollectorError
  | invalidArgument
  | notFound
  | permissionDenied
  | ioError
  deriving DecidableEq, Repr

namespace LogCollector

def kMaximumLines : ℕ := 1000
def kMaximumKeywordLength : ℕ := 256
def kMaximumLineLength : ℕ := 4096
def kReadBlockSize : ℕ := 64 * 1024
def kMaximumScanBytes : ℕ := 8 * 1024 * 1024

def openError : Errno → LogCollectorError
  | .eacces | .eperm => .permissionDenied
  | .enoent => .notFound
  | _ => .ioError

/-- The constructor: three fixed logs and the agent's own. -/
def create (agentLogPath : Bytes) : LogCollector where
  allowedLogs :=
    [⟨ascii "system", ascii "System log", ascii "/var/log/syslog"⟩,
     ⟨ascii "packages", ascii "Package manager log", ascii "/var/log/dpkg.log"⟩,
     ⟨ascii "apt-history", ascii "APT history", ascii "/var/log/apt/history.log"⟩,
     ⟨ascii "edgescope-agent", ascii "EdgeScope Agent log", agentLogPath⟩]

def findAllowedLog (collector : LogCollector) (id : Bytes) : Option AllowedLog :=
  collector.allowedLogs.find? fun log => id = log.id

/-- `isRegularFile` answers for `std::filesystem::is_regular_file` without an error. -/
def listLogs (collector : LogCollector) (isRegularFile : Bytes → Bool) : List LogSourceInfo :=
  collector.allowedLogs.map fun log => ⟨log.id, log.displayName, isRegularFile log.path⟩

def resolveLogPath (collector : LogCollector) (logId : Bytes) :
    Except (LogCollectorError × Bytes) Bytes :=
  match collector.findAllowedLog logId with
  | none => .error (.invalidArgument, ascii "unknown log id")
  | some log => .ok log.path

theorem mem_of_findAllowedLog {collector : LogCollector} {id : Bytes} {log : AllowedLog}
    (h : collector.findAllowedLog id = some log) : log ∈ collector.allowedLogs ∧ log.id = id :=
  ⟨List.mem_of_find?_eq_some h, by simpa [eq_comm] using List.find?_some h⟩

theorem findAllowedLog_eq_none {collector : LogCollector} {id : Bytes}
    (h : ¬ ∃ log ∈ collector.allowedLogs, log.id = id) : collector.findAllowedLog id = none := by
  cases hfind : collector.findAllowedLog id with
  | none => rfl
  | some log => exact absurd ⟨log, mem_of_findAllowedLog hfind⟩ h

structure Scan where
  position : ℕ
  scannedBytes : ℕ
  newlineCount : ℕ
  reverseChunks : List Bytes

def Scan.contents (scan : Scan) : Bytes := scan.reverseChunks.reverse.flatten

/-- The loop over blocks; `none` when a block is not delivered in full. Every round lowers
the position, so the position is fuel enough. -/
def scanBlocks (input : InputFile) (maxLines : ℕ) (keyword : Bytes) : ℕ → Scan → Option Scan
  | 0, scan => some scan
  | fuel + 1, scan =>
    if 0 < scan.position ∧ scan.scannedBytes < kMaximumScanBytes then
      let blockSize := min scan.position kReadBlockSize
      let position := scan.position - blockSize
      let chunk := input.read position blockSize
      if chunk.length ≠ blockSize then none
      else
        let scan' : Scan :=
          { position := position
            scannedBytes := scan.scannedBytes + blockSize
            newlineCount := scan.newlineCount + chunk.count newline
            reverseChunks := scan.reverseChunks ++ [chunk] }
        if keyword = [] ∧ maxLines < scan'.newlineCount then some scan'
        else scanBlocks input maxLines keyword fuel scan'
    else some scan

def stripCarriageReturn (line : Bytes) : Bytes :=
  if line.getLast? = some carriageReturn then line.dropLast else line

structure Selection where
  selectedLines : List Bytes
  truncated : Bool

def selectLine (maxLines : ℕ) (keyword : Bytes) (s : Selection) (line : Bytes) : Selection :=
  let line := stripCarriageReturn line
  if keyword ≠ [] ∧ find keyword line = none then s
  else
    let isCut : Bool := kMaximumLineLength < line.length
    let line := sanitizeUtf8 (if isCut then line.take kMaximumLineLength else line)
    let selectedLines := s.selectedLines ++ [line]
    if maxLines < selectedLines.length then ⟨selectedLines.tail, true⟩
    else ⟨selectedLines, s.truncated || isCut⟩

def selectLines (maxLines : ℕ) (keyword contents : Bytes) : Selection :=
  (getlines newline contents).foldl (selectLine maxLines keyword) ⟨[], false⟩

def checkRead (collector : LogCollector) (logId : Bytes) (maxLines : ℕ) (keyword : Bytes) :
    Except (LogCollectorError × Bytes) AllowedLog :=
  match collector.findAllowedLog logId with
  | none => .error (.invalidArgument, ascii "unknown log id")
  | some allowedLog =>
    if maxLines = 0 ∨ kMaximumLines < maxLines then
      .error (.invalidArgument, ascii "max_lines must be between 1 and 1000")
    else if kMaximumKeywordLength < keyword.length then
      .error (.invalidArgument, ascii "keyword is too long")
    else .ok allowedLog

def readOpened (opened : Except Errno InputFile) (maxLines : ℕ) (keyword : Bytes) :
    Except (LogCollectorError × Bytes) LogReadResult :=
  match opened with
  | .error errno => .error (openError errno, ascii "log file is not available")
  | .ok input =>
    match input.size with
    | none => .error (.ioError, ascii "failed to determine log file size")
    | some size =>
      match scanBlocks input maxLines keyword size ⟨size, 0, 0, []⟩ with
      | none => .error (.ioError, ascii "failed while reading log file")
      | some scan =>
        let selection := selectLines maxLines keyword scan.contents
        .ok ⟨selection.selectedLines, selection.truncated || decide (0 < scan.position)⟩

def readLog (collector : LogCollector) (openFile : OpenFile) (logId : Bytes) (maxLines : ℕ)
    (keyword : Bytes) : Except (LogCollectorError × Bytes) LogReadResult :=
  match collector.checkRead logId maxLines keyword with
  | .error error => .error error
  | .ok allowedLog => readOpened (openFile allowedLog.path) maxLines keyword

end LogCollector
end EdgeScope
