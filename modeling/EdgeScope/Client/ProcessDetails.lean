import EdgeScope.Agent.ProcessCollector
import EdgeScope.Text.FreeTexts
import EdgeScope.Text.Numerals

/-!
# The details of a process

`UpdateProcessDetails` fills in a template with twelve calls of `arg`, one after the other. Each
call replaces the marker of the lowest number in the text so far, and the name, the state and the
command line come from the process: what they hold of markers takes the place of later fields.
-/

namespace EdgeScope
open Text Markers

abbrev QChar := UInt16

abbrev QString := List QChar

instance : MarkerAlphabet QChar where
  mark := 37
  digit c := if 48 ≤ c.toNat ∧ c.toNat ≤ 57 then some (c.toNat - 48) else none
  digit_mark := by decide
  digit_lt := by
    intro c n h
    split at h
    · cases h
      omega
    · cases h

def fromLatin1 (s : Bytes) : QString := s.map UInt8.toUInt16

def qString (s : String) : QString := fromLatin1 (ascii s)

/-- What the client takes from Qt: one `arg`, the texts of `double` values with one decimal, the
quotient of a number of bytes and a unit, and the text of a UTF-8 string. -/
structure QtText where
  arg : ArgFunction QChar
  fixedText : Double → QString
  unmarked_fixedText : ∀ x, Unmarked (fixedText x)
  quotient : ℕ → ℕ → Double
  fromStdString : Bytes → QString
  percent_mem : ∀ s, MarkerAlphabet.mark ∈ fromStdString s → charByte '%' ∈ s

structure ProcessData where
  pid : ℤ
  ppid : ℤ
  name : QString
  state : QString
  commandLine : QString
  cpuUsagePercent : Double
  residentMemoryBytes : ℕ
  virtualMemoryBytes : ℕ
  threadCount : ℕ
  readBytes : ℕ
  writeBytes : ℕ
  startTimeTicks : ℕ

def RpcWorker.convertProcess (qt : QtText) (process : ProcessInfo) : ProcessData where
  pid := process.pid
  ppid := process.ppid
  name := qt.fromStdString process.name
  state := qt.fromStdString process.state
  commandLine := qt.fromStdString process.commandLine
  cpuUsagePercent := process.cpuUsagePercent
  residentMemoryBytes := process.residentMemoryBytes
  virtualMemoryBytes := process.virtualMemoryBytes
  threadCount := process.threadCount
  readBytes := process.readBytes
  writeBytes := process.writeBytes
  startTimeTicks := process.startTimeTicks

namespace MainWindow

def kBytesPerGibibyte : ℕ := 1024 * 1024 * 1024
def kBytesPerMebibyte : ℕ := 1024 * 1024

/-- The source compares the size as a `double`, which is exact up to `2 ^ 53` and keeps order. -/
def formatBytes (qt : QtText) (bytes : ℕ) : QString :=
  if kBytesPerGibibyte ≤ bytes then
    qt.fixedText (qt.quotient bytes kBytesPerGibibyte) ++ qString " GiB"
  else
    qt.fixedText (qt.quotient bytes kBytesPerMebibyte) ++ qString " MiB"

def number (n : ℤ) : QString := fromLatin1 (integer n)

def detailsTemplate : QString :=
  qString "PID: %1\nPPID: %2\nName: %3\nState: %4\nCommand: %5\n" ++
  qString "CPU: %6%\nRSS: %7\nVmSize: %8\nThreads: %9\n" ++
  qString "Read bytes: %10\nWrite bytes: %11\nStart ticks: %12"

def updateProcessDetails (qt : QtText) (process : ProcessData) : QString :=
  qt.arg.fill detailsTemplate
    [number process.pid, number process.ppid, process.name, process.state, process.commandLine,
      qt.fixedText process.cpuUsagePercent, formatBytes qt process.residentMemoryBytes,
      formatBytes qt process.virtualMemoryBytes, number process.threadCount,
      number process.readBytes, number process.writeBytes, number process.startTimeTicks]

/-- The template with every field in its own place. -/
def detailsText (qt : QtText) (process : ProcessData) : QString :=
  qString "PID: " ++ number process.pid ++
  qString "\nPPID: " ++ number process.ppid ++
  qString "\nName: " ++ process.name ++
  qString "\nState: " ++ process.state ++
  qString "\nCommand: " ++ process.commandLine ++
  qString "\nCPU: " ++ qt.fixedText process.cpuUsagePercent ++
  qString "%\nRSS: " ++ formatBytes qt process.residentMemoryBytes ++
  qString "\nVmSize: " ++ formatBytes qt process.virtualMemoryBytes ++
  qString "\nThreads: " ++ number process.threadCount ++
  qString "\nRead bytes: " ++ number process.readBytes ++
  qString "\nWrite bytes: " ++ number process.writeBytes ++
  qString "\nStart ticks: " ++ number process.startTimeTicks

def pidSlot : Slot QChar := ⟨1, qString "%1", qString "\nPPID: ", by decide, by decide, by decide⟩
def ppidSlot : Slot QChar := ⟨2, qString "%2", qString "\nName: ", by decide, by decide, by decide⟩
def nameSlot : Slot QChar := ⟨3, qString "%3", qString "\nState: ", by decide, by decide, by decide⟩

def stateSlot : Slot QChar :=
  ⟨4, qString "%4", qString "\nCommand: ", by decide, by decide, by decide⟩

def commandSlot : Slot QChar :=
  ⟨5, qString "%5", qString "\nCPU: ", by decide, by decide, by decide⟩

def numberSlots : List (Slot QChar) :=
  [⟨6, qString "%6", qString "%\nRSS: ", by decide, by decide, by decide⟩,
    ⟨7, qString "%7", qString "\nVmSize: ", by decide, by decide, by decide⟩,
    ⟨8, qString "%8", qString "\nThreads: ", by decide, by decide, by decide⟩,
    ⟨9, qString "%9", qString "\nRead bytes: ", by decide, by decide, by decide⟩,
    ⟨10, qString "%10", qString "\nWrite bytes: ", by decide, by decide, by decide⟩,
    ⟨11, qString "%11", qString "\nStart ticks: ", by decide, by decide, by decide⟩]

def ticksSlot : Slot QChar := ⟨12, qString "%12", [], by decide, by decide, by decide⟩

def textSlots : List (Slot QChar) :=
  nameSlot :: stateSlot :: commandSlot :: (numberSlots ++ [ticksSlot])

def detailsSlots : List (Slot QChar) := pidSlot :: ppidSlot :: textSlots

theorem detailsTemplate_eq : detailsTemplate = qString "PID: " ++ template detailsSlots := by
  decide

theorem inOrder_detailsSlots : InOrder detailsSlots := by decide

theorem inOrder_textSlots : InOrder textSlots :=
  List.Pairwise.of_cons (List.Pairwise.of_cons inOrder_detailsSlots)

theorem mark_notMem_fromLatin1 {s : Bytes} (h : charByte '%' ∉ s) :
    MarkerAlphabet.mark ∉ fromLatin1 s := by
  intro hmem
  obtain ⟨b, hb, hmark⟩ := List.mem_map.mp hmem
  have hpercent : b = charByte '%' := UInt8.toUInt16_inj.mp hmark
  exact h (hpercent ▸ hb)

theorem unmarked_number (n : ℤ) : Unmarked (number n) := by
  constructor
  · rw [number, fromLatin1, Ne, List.map_eq_nil_iff, integer_eq, List.append_eq_nil_iff]
    exact fun h => decimal_ne_nil _ h.2
  · refine mark_notMem_fromLatin1 fun hmem => ?_
    obtain h | h := mem_integer hmem
    · exact absurd h (by decide)
    · exact absurd h (by decide)

theorem unmarked_formatBytes (qt : QtText) (bytes : ℕ) : Unmarked (formatBytes qt bytes) := by
  have hunit (x : Double) {s : QString} (hs : MarkerAlphabet.mark ∉ s) :
      Unmarked (qt.fixedText x ++ s) := by
    obtain ⟨hne, hmark⟩ := qt.unmarked_fixedText x
    exact ⟨List.append_ne_nil_of_left_ne_nil hne s,
      fun hmem => (List.mem_append.mp hmem).elim hmark hs⟩
  unfold formatBytes
  split
  · exact hunit _ (by decide)
  · exact hunit _ (by decide)

def numberFields (qt : QtText) (process : ProcessData) : Ending QChar where
  slots := numberSlots
  last := ticksSlot
  args := [qt.fixedText process.cpuUsagePercent, formatBytes qt process.residentMemoryBytes,
    formatBytes qt process.virtualMemoryBytes, number process.threadCount,
    number process.readBytes, number process.writeBytes]
  text := number process.startTimeTicks
  length_eq := rfl
  literal_eq := rfl
  unmarked := by
    simp only [List.cons_append, List.nil_append, List.forall_mem_cons]
    exact ⟨qt.unmarked_fixedText _, unmarked_formatBytes qt _, unmarked_formatBytes qt _,
      unmarked_number _, unmarked_number _, unmarked_number _, unmarked_number _, by simp⟩
  two_digits := by decide

def textFields (qt : QtText) (process : ProcessData) : List QString :=
  process.name :: process.state :: process.commandLine :: (numberFields qt process).allArgs

def numbersText (process : ProcessData) : QString :=
  qString "PID: " ++ (number process.pid ++ pidSlot.literal) ++
    (number process.ppid ++ ppidSlot.literal)

theorem settled_label : Settled (qString "PID: ") := by decide

theorem settled_pid (process : ProcessData) :
    Settled (qString "PID: " ++ (number process.pid ++ pidSlot.literal)) :=
  settled_label.append (unmarked_number process.pid) (by decide)

theorem settled_numbersText (process : ProcessData) : Settled (numbersText process) :=
  (settled_pid process).append (unmarked_number process.ppid) (by decide)

/-- The numbers in front go into their slots in any case. -/
theorem updateProcessDetails_eq (qt : QtText) (process : ProcessData) :
    updateProcessDetails qt process =
      qt.arg.fill (numbersText process ++ template textSlots) (textFields qt process) := by
  have hppid : InOrder (ppidSlot :: textSlots) := List.Pairwise.of_cons inOrder_detailsSlots
  calc updateProcessDetails qt process
      = qt.arg.fill (qString "PID: " ++ template detailsSlots)
          (number process.pid :: number process.ppid :: textFields qt process) := by
        rw [← detailsTemplate_eq]
        rfl
    _ = qt.arg.fill (numbersText process ++ template textSlots) (textFields qt process) := by
        rw [detailsSlots, settled_label.fill_cons qt.arg inOrder_detailsSlots,
          (settled_pid process).fill_cons qt.arg hppid]
        rfl

theorem detailsText_eq (qt : QtText) (process : ProcessData) : detailsText qt process =
    numbersText process ++ filled textSlots (textFields qt process) := by
  have hfilled : filled textSlots (textFields qt process) =
      process.name ++ (qString "\nState: " ++ (process.state ++
      (qString "\nCommand: " ++ (process.commandLine ++ (qString "\nCPU: " ++
      (qt.fixedText process.cpuUsagePercent ++
      (qString "%\nRSS: " ++ (formatBytes qt process.residentMemoryBytes ++
      (qString "\nVmSize: " ++ (formatBytes qt process.virtualMemoryBytes ++
      (qString "\nThreads: " ++ (number process.threadCount ++
      (qString "\nRead bytes: " ++ (number process.readBytes ++
      (qString "\nWrite bytes: " ++ (number process.writeBytes ++
      (qString "\nStart ticks: " ++
      (number process.startTimeTicks ++ ([] ++ []))))))))))))))))))) := rfl
  rw [hfilled]
  unfold detailsText numbersText pidSlot ppidSlot
  simp only [List.append_assoc, List.append_nil]

theorem ticks_lt_ten_mul (qt : QtText) (process : ProcessData) :
    (numberFields qt process).last.number < 10 * stateSlot.number :=
  show 12 < 10 * 4 by decide

/-- The pane shows every field in its place exactly when no text of the process holds a marker of
the template. -/
theorem updateProcessDetails_verbatim_iff (qt : QtText) (process : ProcessData) :
    updateProcessDetails qt process = detailsText qt process ↔
      Above 12 process.name ∧ Above 12 process.state ∧ Above 12 process.commandLine := by
  rw [updateProcessDetails_eq, detailsText_eq]
  exact (numberFields qt process).fill_three_iff (settled_numbersText process) qt.arg
    inOrder_textSlots (by decide) (ticks_lt_ten_mul qt process)

/-- A client whose `double` values are all zero, and which takes bytes for characters. -/
def plainText : QtText where
  arg := .documented
  fixedText _ := qString "0.0"
  unmarked_fixedText _ := by decide
  quotient _ _ := 0
  fromStdString := fromLatin1
  percent_mem s h := by
    by_contra hs
    exact mark_notMem_fromLatin1 hs h

/-- A process called `%1` is shown with its state for its name, and so on. -/
theorem updateProcessDetails_ne :
    let process : ProcessData :=
      ⟨7, 1, qString "%1", qString "S", qString "run", 0, 0, 0, 1, 0, 0, 0⟩
    updateProcessDetails plainText process ≠ detailsText plainText process := by decide +kernel

/-- Whatever the texts of a process hold, the lines in front of them are right. -/
theorem numbersText_prefix (qt : QtText) (process : ProcessData) :
    numbersText process <+: updateProcessDetails qt process := by
  have hlength : (textFields qt process).length ≤ textSlots.length := show 10 ≤ 10 from le_rfl
  have hprefix := (settled_numbersText process).prefix_fill qt.arg inOrder_textSlots hlength []
  rwa [List.append_nil, ← updateProcessDetails_eq] at hprefix

/-- A process of the agent whose texts hold no `%` is shown as it is. -/
theorem updateProcessDetails_convertProcess (qt : QtText) (process : ProcessInfo)
    (hname : charByte '%' ∉ process.name) (hstate : charByte '%' ∉ process.state)
    (hcommandLine : charByte '%' ∉ process.commandLine) :
    updateProcessDetails qt (RpcWorker.convertProcess qt process) =
      detailsText qt (RpcWorker.convertProcess qt process) := by
  have habove {s : Bytes} (hs : charByte '%' ∉ s) : Above 12 (qt.fromStdString s) := by
    intro m hm
    rw [markers_eq_nil_of_notMem fun hmark => hs (qt.percent_mem s hmark)] at hm
    cases hm
  rw [updateProcessDetails_eq, detailsText_eq]
  exact ((numberFields qt _).fill_three_iff (settled_numbersText _) qt.arg inOrder_textSlots
    (by decide) (ticks_lt_ten_mul qt _)).mpr ⟨habove hname, habove hstate, habove hcommandLine⟩

end MainWindow
end EdgeScope
