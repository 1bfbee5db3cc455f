import EdgeScope.Agent.ProcessText
import EdgeScope.Text.Numerals
import EdgeScope.Text.Search

/-!
# What the kernel prints in `stat`

The name is printed as it is, between parentheses. The fields behind it are numbers, so the last
closing parenthesis of the line is the one of the name.
-/

namespace EdgeScope.ProcessCollector
open Text

/-- What `/proc/[pid]/stat` tells of a process up to field 22, in the types of the kernel. -/
structure KernelStat where
  pid : Int32
  name : Bytes
  state : Byte
  ppid : Int32
  pgrp : Int32
  session : Int32
  ttyNr : Int32
  tpgid : Int32
  flags : UInt32
  minflt : UInt64
  cminflt : UInt64
  majflt : UInt64
  cmajflt : UInt64
  utime : UInt64
  stime : UInt64
  cutime : Int64
  cstime : Int64
  priority : Int64
  nice : Int64
  numThreads : Int64
  itrealvalue : Int64
  starttime : UInt64

def KernelStat.accounting (s : KernelStat) : List ℤ :=
  [s.pgrp.toInt, s.session.toInt, s.ttyNr.toInt, s.tpgid.toInt, s.flags.toNat, s.minflt.toNat,
    s.cminflt.toNat, s.majflt.toNat, s.cmajflt.toNat]

def KernelStat.scheduling (s : KernelStat) : List ℤ :=
  [s.cutime.toInt, s.cstime.toInt, s.priority.toInt, s.nice.toInt]

def KernelStat.fields (s : KernelStat) : List ℤ :=
  [s.ppid.toInt] ++ s.accounting ++ [(s.utime.toNat : ℤ), (s.stime.toNat : ℤ)] ++ s.scheduling ++
    [s.numThreads.toInt, s.itrealvalue.toInt, (s.starttime.toNat : ℤ)]

def KernelStat.line (s : KernelStat) (further : List ℤ) : Bytes :=
  integer s.pid.toInt ++ ascii " (" ++ s.name ++ ascii ") " ++ [s.state] ++
    fieldsText (s.fields ++ further)

section Line

variable (s : KernelStat) (further : List ℤ) {ending : Bytes}

def KernelStat.tail (s : KernelStat) (further : List ℤ) (ending : Bytes) : Bytes :=
  fieldsText (s.fields ++ further) ++ ending

theorem KernelStat.line_append (ending : Bytes) : s.line further ++ ending =
    (integer s.pid.toInt ++ ascii " ") ++ charByte '(' :: (s.name ++ charByte ')' ::
      (ascii " " ++ s.state :: s.tail further ending)) := by
  simp only [KernelStat.line, KernelStat.tail, List.append_assoc]
  rfl

theorem parenthesis_notMem_fieldsText (fields : List ℤ) : charByte ')' ∉ fieldsText fields :=
  fun h => absurd (mem_fieldsText h) (by decide)

theorem parenthesis_notMem_of_isBlank {blank : Bytes} (h : IsBlank blank) :
    charByte ')' ∉ blank :=
  fun hmem => absurd (h _ hmem) (by decide)

/-- The first `'('` is the one in front of the name, whatever the name. -/
theorem findChar_line (ending : Bytes) : findChar (charByte '(') (s.line further ++ ending) =
    some (integer s.pid.toInt ++ ascii " ").length := by
  rw [s.line_append]
  refine findChar_separator (fun h => ?_) _
  obtain hpid | hspace := List.mem_append.mp h
  · obtain hminus | hdigit := mem_integer hpid
    · exact absurd hminus (by decide)
    · exact absurd hdigit (by decide)
  · exact absurd hspace (by decide)

/-- The last `')'` is the one behind the name, unless the state is one. -/
theorem rfindChar_line (hstate : s.state ≠ charByte ')') (hending : IsBlank ending) :
    rfindChar (charByte ')') (s.line further ++ ending) =
      some ((integer s.pid.toInt ++ ascii " ").length + 1 + s.name.length) := by
  have hsplit : s.line further ++ ending =
      ((integer s.pid.toInt ++ ascii " ") ++ charByte '(' :: s.name) ++ charByte ')' ::
        (ascii " " ++ s.state :: s.tail further ending) := by
    rw [s.line_append, List.append_assoc _ (charByte '(' :: s.name), List.cons_append]
  rw [hsplit, rfindChar_separator]
  · simp only [List.length_append, List.length_cons, Option.some.injEq]
    omega
  · intro h
    simp only [KernelStat.tail, List.mem_append, List.mem_cons] at h
    obtain h | h | h | h := h
    · exact absurd h (by decide)
    · exact hstate h.symm
    · exact parenthesis_notMem_fieldsText _ h
    · exact parenthesis_notMem_of_isBlank hending h

theorem statParentheses_line (hstate : s.state ≠ charByte ')') (hending : IsBlank ending) :
    let openParenthesis := (integer s.pid.toInt ++ ascii " ").length
    statParentheses (s.line further ++ ending) =
      some (openParenthesis, openParenthesis + 1 + s.name.length) := by
  intro openParenthesis
  have hlength : openParenthesis + 1 + s.name.length + 2 ≤ (s.line further ++ ending).length := by
    rw [s.line_append]
    simp only [List.length_append, List.length_cons, openParenthesis]
    omega
  rw [statParentheses, findChar_line, rfindChar_line s further hstate hending]
  simp only
  rw [if_neg (by omega)]

theorem statPid_line (hpid : 0 < s.pid.toInt) (ending : Bytes) :
    statPid ((s.line further ++ ending).take (integer s.pid.toInt ++ ascii " ").length) =
      some s.pid.toInt := by
  have hhigh := s.pid.toInt_lt
  have hblank : Ends isDigit (ascii " ") := by decide
  have hscan := scanInt64_integer isBlank_nil hblank (n := s.pid.toInt) (by omega) (by omega)
  rw [List.nil_append] at hscan
  rw [s.line_append, take_separator, statPid, hscan]
  simp only
  rw [if_neg]
  unfold kInt32Max
  omega

theorem statName_line (ending : Bytes) :
    let openParenthesis := (integer s.pid.toInt ++ ascii " ").length
    ((s.line further ++ ending).drop (openParenthesis + 1)).take
        (openParenthesis + 1 + s.name.length - openParenthesis - 1) = s.name := by
  intro openParenthesis
  rw [s.line_append, drop_separator,
    show openParenthesis + 1 + s.name.length - openParenthesis - 1 = s.name.length by omega,
    take_separator]

theorem drop_line (ending : Bytes) :
    (s.line further ++ ending).drop
        ((integer s.pid.toInt ++ ascii " ").length + 1 + s.name.length + 1) =
      ascii " " ++ s.state :: s.tail further ending := by
  rw [s.line_append, Nat.add_assoc _ s.name.length, ← List.drop_drop, drop_separator,
    drop_separator]

/-- The text behind field 19, behind the clock ticks, and so on. -/
def KernelStat.threadsText (rest : Bytes) : Bytes :=
  fieldsText [s.numThreads.toInt] ++
    (fieldsText [s.itrealvalue.toInt] ++ (fieldsText [(s.starttime.toNat : ℤ)] ++ rest))

def KernelStat.ticksText (rest : Bytes) : Bytes :=
  fieldsText [(s.utime.toNat : ℤ)] ++
    (fieldsText [(s.stime.toNat : ℤ)] ++ (fieldsText s.scheduling ++ s.threadsText rest))

theorem KernelStat.tail_eq (ending : Bytes) : s.tail further ending =
    fieldsText [s.ppid.toInt] ++
      (fieldsText s.accounting ++ s.ticksText (fieldsText further ++ ending)) := by
  have hthree (a b c : ℤ) : fieldsText [a, b, c] =
      fieldsText [a] ++ (fieldsText [b] ++ fieldsText [c]) := by
    rw [← fieldsText_append, ← fieldsText_append]
    rfl
  have htwo (a b : ℤ) : fieldsText [a, b] = fieldsText [a] ++ fieldsText [b] := by
    rw [← fieldsText_append]
    rfl
  simp only [KernelStat.tail, KernelStat.fields, KernelStat.ticksText, KernelStat.threadsText,
    fieldsText_append, hthree, htwo, List.append_assoc]

variable {rest : Bytes} (hrest : EndsWord rest)

include hrest

theorem endsWord_ticksText : EndsWord (s.ticksText rest) :=
  endsWord_fieldsText (endsWord_fieldsText (endsWord_fieldsText (endsWord_fieldsText
    (endsWord_fieldsText (endsWord_fieldsText hrest _) _) _) _) _) _

theorem endsWord_threadsText : EndsWord (s.threadsText rest) :=
  endsWord_fieldsText (endsWord_fieldsText (endsWord_fieldsText hrest _) _) _

theorem statStateAndParent_line (hspace : isSpace s.state = false) (hppid : 0 ≤ s.ppid.toInt) :
    statStateAndParent (ascii " " ++ s.state :: (fieldsText [s.ppid.toInt] ++ rest)) =
      some (s.state, s.ppid.toInt, rest) := by
  have hhigh := s.ppid.toInt_lt
  have hchar : scanChar (ascii " " ++ s.state :: (fieldsText [s.ppid.toInt] ++ rest)) =
      some (s.state, fieldsText [s.ppid.toInt] ++ rest) := by
    rw [scanChar, dropWhile_append_of_head isBlank_space (by simpa using hspace)]
  rw [statStateAndParent, hchar]
  simp only
  rw [scanInt64_field hrest (by omega) (by omega)]
  simp only
  rw [if_neg]
  unfold kInt32Max
  omega

/-- Fields 5 to 8 may be negative, and are read as large unsigned numbers. -/
theorem skipFields_accounting :
    skipFields scanUInt64 9 (fieldsText s.accounting ++ rest) = some rest := by
  refine skipFields_fieldsText s.accounting (fun field hfield rest hrest => ?_) hrest
  have hsize : field.natAbs < wordSize := by
    have hint (n : Int32) : n.toInt.natAbs < wordSize := by
      have := n.toInt_lt
      have := n.le_toInt
      unfold wordSize
      omega
    have hword (n : UInt64) : (n.toNat : ℤ).natAbs < wordSize := by
      have := n.toNat_lt
      unfold wordSize
      omega
    have hflags : (s.flags.toNat : ℤ).natAbs < wordSize := by
      have := s.flags.toNat_lt
      unfold wordSize
      omega
    simp only [KernelStat.accounting, List.mem_cons, List.not_mem_nil, or_false] at hfield
    obtain rfl | rfl | rfl | rfl | rfl | rfl | rfl | rfl | rfl := hfield
    · exact hint _
    · exact hint _
    · exact hint _
    · exact hint _
    · exact hflags
    · exact hword _
    · exact hword _
    · exact hword _
    · exact hword _
  obtain ⟨value, hvalue⟩ := scanUInt64_integer isBlank_space hrest.ends_isDigit hsize
  refine ⟨value, ?_⟩
  rwa [fieldsText_cons, fieldsText, List.flatMap_nil, List.append_nil, List.append_assoc]

theorem skipFields_scheduling :
    skipFields scanInt64 4 (fieldsText s.scheduling ++ rest) = some rest := by
  refine skipFields_fieldsText s.scheduling (fun field hfield rest hrest => ?_) hrest
  have hrange : -2 ^ 63 ≤ field ∧ field < 2 ^ 63 := by
    have hlong (n : Int64) : -2 ^ 63 ≤ n.toInt ∧ n.toInt < 2 ^ 63 := ⟨n.le_toInt, n.toInt_lt⟩
    simp only [KernelStat.scheduling, List.mem_cons, List.not_mem_nil, or_false] at hfield
    obtain rfl | rfl | rfl | rfl := hfield <;> exact hlong _
  exact ⟨field, scanInt64_field hrest hrange.1 hrange.2⟩

theorem statTicks_line : statTicks (s.ticksText rest) =
    some (s.utime.toNat, s.stime.toNat, fieldsText s.scheduling ++ s.threadsText rest) := by
  have hlater : EndsWord (fieldsText s.scheduling ++ s.threadsText rest) :=
    endsWord_fieldsText (endsWord_threadsText s hrest) _
  rw [statTicks, KernelStat.ticksText,
    scanUInt64_field (endsWord_fieldsText hlater _) s.utime.toNat_lt]
  simp only
  rw [scanUInt64_field hlater s.stime.toNat_lt]

theorem statThreadsAndStart_line {threads : ℕ} (hthreads : s.numThreads.toInt = threads)
    (hsmall : threads < 2 ^ 32) :
    statThreadsAndStart (s.threadsText rest) = some (threads, s.starttime.toNat) := by
  have hlast : EndsWord (fieldsText [(s.starttime.toNat : ℤ)] ++ rest) :=
    endsWord_fieldsText hrest _
  rw [statThreadsAndStart, KernelStat.threadsText, hthreads,
    scanUInt64_field (endsWord_fieldsText hlast _) (by unfold wordSize; omega)]
  simp only
  rw [scanInt64_field hlast s.itrealvalue.le_toInt s.itrealvalue.toInt_lt]
  simp only
  rw [scanUInt64_field hrest s.starttime.toNat_lt]
  simp only
  rw [if_neg]
  unfold kUInt32Max
  omega

end Line

/-- What the kernel prints is read back, whatever the name, unless the state is a `')'`. Clock
ticks that do not fit the word are an error. -/
theorem parseStatLine_line (s : KernelStat) (further : List ℤ) (ending : Bytes)
    (process : ProcessInfo) (hpid : 0 < s.pid.toInt) (hppid : 0 ≤ s.ppid.toInt)
    (hspace : isSpace s.state = false) (hstate : s.state ≠ charByte ')')
    (hending : IsBlank ending) :
    (s.utime.toNat + s.stime.toNat < 2 ^ 64 → 0 ≤ s.numThreads.toInt →
      s.numThreads.toInt < 2 ^ 32 →
        parseStatLine (s.line further ++ ending) process =
          .ok ({ process with
            pid := s.pid.toInt
            name := s.name
            state := [s.state]
            ppid := s.ppid.toInt
            startTimeTicks := s.starttime.toNat
            threadCount := s.numThreads.toInt.toNat }, s.utime.toNat + s.stime.toNat)) ∧
    (2 ^ 64 ≤ s.utime.toNat + s.stime.toNat →
      parseStatLine (s.line further ++ ending) process =
        .error (ascii "cpu fields overflow in /proc/[pid]/stat")) := by
  have hrest : EndsWord (fieldsText further ++ ending) :=
    endsWord_fieldsText (fun b hb => hending b (List.mem_of_mem_head? hb)) further
  have hticks := endsWord_ticksText s hrest
  have hstime := s.stime.toNat_lt
  have hname := statName_line s further ending
  have hparent := statStateAndParent_line s (endsWord_fieldsText hticks s.accounting) hspace hppid
  rw [← s.tail_eq, ← drop_line] at hparent
  have hoverflow : kUInt64Max - s.stime.toNat < s.utime.toNat ↔
      2 ^ 64 ≤ s.utime.toNat + s.stime.toNat := by
    unfold kUInt64Max
    omega
  simp only at hname
  -- the parts of the line, read one after another
  simp only [parseStatLine, statParentheses_line s further hstate hending, orError,
    statPid_line s further hpid ending, hparent, skipFields_accounting s hticks,
    statTicks_line s hrest, hname, bind, Except.bind, hoverflow]
  constructor
  · intro hsum hpositive hsmall
    obtain ⟨threads, hthreads⟩ := Int.eq_ofNat_of_zero_le hpositive
    rw [if_neg (not_le.mpr hsum), skipFields_scheduling s (endsWord_threadsText s hrest)]
    simp only
    rw [statThreadsAndStart_line s hrest hthreads (by omega), hthreads]
    rfl
  · intro hsum
    rw [if_pos hsum]

/-- A process whose name looks like the end of its line. -/
def disguised (state : Byte) : KernelStat :=
  ⟨7, ascii "a) R (b\n", state, 1, 7, 7, 0, -1, 64, 1, 0, 2, 0, 30, 12, 0, 0, 20, 0, 3, 0, 900⟩

theorem parseStatLine_disguised :
    parseStatLine ((disguised (charByte 'S')).line [0, -5] ++ [newline]) {} =
      .ok ({ pid := 7, name := ascii "a) R (b\n", state := ascii "S", ppid := 1,
             startTimeTicks := 900, threadCount := 3 }, 42) :=
  (parseStatLine_line (disguised (charByte 'S')) [0, -5] [newline] {} (by decide) (by decide)
    (by decide) (by decide) (by decide)).1 (by decide) (by decide) (by decide)

/-- A state that is a `')'` ends the name. -/
theorem parseStatLine_parenthesis :
    parseStatLine ((disguised (charByte ')')).line []) {} =
        .error (ascii "invalid thread or start fields in /proc/[pid]/stat") ∧
      ∃ process ticks, parseStatLine ((disguised (charByte ')')).line [0]) {} =
        .ok (process, ticks) ∧ process.name = ascii "a) R (b\n) " := by
  refine ⟨by decide +kernel, _, _, rfl, ?_⟩
  decide +kernel

end EdgeScope.ProcessCollector
