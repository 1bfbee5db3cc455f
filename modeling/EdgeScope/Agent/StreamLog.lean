import EdgeScope.Agent.LogCollector
import EdgeScope.Runs.Machine

/-!
# The loop of `StreamLog`

The handler polls the file four times a second. An iteration compares the status of
the file with what it remembers, reads at most 64 KiB from its offset, cuts the bytes
into lines, and keeps the unfinished line for the next iteration.
-/

namespace EdgeScope
open Text

/-- The fields of `struct stat` the loop reads. -/
structure FileStatus where
  inode : ℕ
  size : ℕ
  deriving DecidableEq

namespace StreamLog

/-- What one iteration finds: the answer of `stat`, and the stream opened at the path. -/
structure Poll where
  status : Option FileStatus
  file : Except Errno InputFile

structure StreamState where
  inode : ℕ
  offset : ℕ
  partialLine : Bytes
  /-- The lines the writer has taken, in order. -/
  written : List Bytes
  deriving DecidableEq

def kStreamReadSize : ℕ := 64 * 1024

def kLineLimit : ℕ := 4096

def initialOffset (startAtEnd : Bool) (initialSize : ℕ) : ℕ :=
  if startAtEnd then initialSize
  else if kStreamReadSize < initialSize then initialSize - kStreamReadSize
  else 0

def start (startAtEnd : Bool) (fileStatus : FileStatus) : StreamState where
  inode := fileStatus.inode
  offset := initialOffset startAtEnd fileStatus.size
  partialLine := []
  written := []

/-- The text sent for a finished line, if any. The line is cut before it is searched. -/
def streamLine (keyword line : Bytes) : Option Bytes :=
  let line := LogCollector.stripCarriageReturn line
  let line := if kLineLimit < line.length then line.take kLineLimit else line
  if keyword ≠ [] ∧ find keyword line = none then none
  else some (LogCollector.sanitizeUtf8 line)

/-- The outcome of the loop over newlines; `broken` when a `Write` has failed. -/
structure Drain where
  partialLine : Bytes
  written : List Bytes
  broken : Bool

/-- The loop over the newlines of `partial_line`. `writer n` tells whether the `Write` after
`n` successful ones succeeds. Every round shortens the line, so its length is fuel enough. -/
def drainLines (keyword : Bytes) (writer : ℕ → Bool) : ℕ → Bytes → List Bytes → Drain
  | 0, partialLine, written => ⟨partialLine, written, false⟩
  | fuel + 1, partialLine, written =>
    match findChar newline partialLine with
    | none => ⟨partialLine, written, false⟩
    | some position =>
      let line := partialLine.take position
      let partialLine := partialLine.drop (position + 1)
      match streamLine keyword line with
      | none => drainLines keyword writer fuel partialLine written
      | some output =>
        if writer written.length then
          drainLines keyword writer fuel partialLine (written ++ [output])
        else ⟨partialLine, written, true⟩

/-- A file that was replaced or truncated is read from its beginning. -/
def resetIfReplaced (status : FileStatus) (s : StreamState) : StreamState :=
  if status.inode ≠ s.inode ∨ status.size < s.offset then
    { s with inode := status.inode, offset := 0, partialLine := [] }
  else s

def appended (file : Except Errno InputFile) (offset : ℕ) : Bytes :=
  match file with
  | .error _ => []
  | .ok input => input.read offset kStreamReadSize

def trimPartial (partialLine : Bytes) : Bytes :=
  if kLineLimit < partialLine.length then partialLine.drop (partialLine.length - kLineLimit)
  else partialLine

/-- One iteration. The flag tells that the writer broke and the handler returned. -/
def poll (keyword : Bytes) (writer : ℕ → Bool) (p : Poll) (s : StreamState) :
    StreamState × Bool :=
  match p.status with
  | none => (s, false)
  | some status =>
    let s := resetIfReplaced status s
    if s.offset < status.size then
      let bytes := appended p.file s.offset
      let partialLine := s.partialLine ++ bytes
      let drained := drainLines keyword writer partialLine.length partialLine s.written
      let s := { s with
        offset := s.offset + bytes.length
        partialLine := if drained.broken then drained.partialLine
          else trimPartial drained.partialLine
        written := drained.written }
      (s, drained.broken)
    else (s, false)

/-- The iterations until the call is cancelled or the writer breaks. -/
def run (keyword : Bytes) (writer : ℕ → Bool) : List Poll → StreamState → StreamState × Bool :=
  Runs.run (poll keyword writer)

def opensFile (p : Poll) (s : StreamState) : Bool :=
  match p.status with
  | none => false
  | some status => (resetIfReplaced status s).offset < status.size

def opens (keyword : Bytes) (writer : ℕ → Bool) : List Poll → StreamState → ℕ
  | [], _ => 0
  | p :: ps, s =>
    (if opensFile p s then 1 else 0) +
      match poll keyword writer p s with
      | (_, true) => 0
      | (s, false) => opens keyword writer ps s

theorem trimPartial_eq (partialLine : Bytes) :
    trimPartial partialLine = partialLine.rtake kLineLimit := by
  unfold trimPartial List.rtake
  split
  · rfl
  · rw [Nat.sub_eq_zero_of_le (by omega), List.drop_zero]

theorem findChar_eq_none_iff {a : Byte} {s : Bytes} : findChar a s = none ↔ a ∉ s := by
  simp [findChar]

theorem findChar_append_cons {a : Byte} {p : Bytes} (h : a ∉ p) (s : Bytes) :
    findChar a (p ++ a :: s) = some p.length := by
  induction p with
  | nil => simp [findChar, List.idxOf?_cons]
  | cons b p ih =>
    have hb : b ≠ a := fun e => h (e ▸ List.mem_cons_self)
    have hp := ih fun hm => h (List.mem_cons_of_mem _ hm)
    simp only [findChar] at hp
    simp [findChar, List.idxOf?_cons, hb, hp]

def outputs (keyword bytes : Bytes) : List Bytes :=
  (terminated newline bytes).filterMap (streamLine keyword)

theorem outputs_append_cons (keyword : Bytes) {p : Bytes} (h : newline ∉ p) (s : Bytes) :
    outputs keyword (p ++ newline :: s) = (streamLine keyword p).toList ++ outputs keyword s := by
  simp only [outputs, terminated_append_cons h, List.filterMap_cons]
  cases streamLine keyword p <;> rfl

/-- While the writer holds, every terminated line is handled and the rest is kept. A writer
that breaks has taken the lines before. -/
theorem drainLines_spec (keyword : Bytes) (writer : ℕ → Bool) {fuel : ℕ} {partialLine : Bytes}
    (written : List Bytes) (hfuel : partialLine.length ≤ fuel) :
    let drained := drainLines keyword writer fuel partialLine written
    (drained.broken = false → drained.partialLine = unterminated newline partialLine ∧
      drained.written = written ++ outputs keyword partialLine) ∧
    drained.written <+: written ++ outputs keyword partialLine := by
  induction fuel generalizing partialLine written with
  | zero =>
    obtain rfl := List.length_eq_zero_iff.mp (Nat.le_zero.mp hfuel)
    simp [drainLines, outputs]
  | succ fuel ih =>
    by_cases h : newline ∈ partialLine
    · obtain ⟨p, s, rfl, hp⟩ := List.eq_append_cons_of_mem h
      have hs : s.length ≤ fuel := by simp at hfuel; omega
      have htake : (p ++ newline :: s).take p.length = p := List.take_left
      have hdrop : (p ++ newline :: s).drop (p.length + 1) = s := by
        rw [List.drop_length_add_append, List.drop_one, List.tail_cons]
      simp only [drainLines, findChar_append_cons hp, htake, hdrop, outputs_append_cons keyword hp,
        unterminated_append_cons hp]
      cases hline : streamLine keyword p with
      | none => simpa using ih written hs
      | some output =>
        simp only [Option.toList_some]
        cases hw : writer written.length with
        | true => simpa using ih (written ++ [output]) hs
        | false => simp
    · rw [drainLines, findChar_eq_none_iff.mpr h]
      simp [outputs, terminated_of_notMem h, unterminated_of_notMem h]

/-- A writer that never breaks lets the loops go on. -/
theorem drainLines_unbroken (keyword : Bytes) {writer : ℕ → Bool} (h : ∀ n, writer n = true)
    (fuel : ℕ) (partialLine : Bytes) (written : List Bytes) :
    (drainLines keyword writer fuel partialLine written).broken = false := by
  induction fuel generalizing partialLine written with
  | zero => rfl
  | succ fuel ih =>
    simp only [drainLines, h, if_true]
    split
    · rfl
    · split
      · exact ih _ _
      · exact ih _ _

theorem poll_unbroken (keyword : Bytes) {writer : ℕ → Bool} (h : ∀ n, writer n = true) (p : Poll)
    (s : StreamState) : (poll keyword writer p s).2 = false := by
  unfold poll
  split
  · rfl
  · simp only
    split
    · exact drainLines_unbroken keyword h _ _ _
    · rfl

theorem run_cons_of_unbroken {keyword : Bytes} {writer : ℕ → Bool} {p : Poll} {s : StreamState}
    (h : (poll keyword writer p s).2 = false) (ps : List Poll) :
    run keyword writer (p :: ps) s = run keyword writer ps (poll keyword writer p s).1 :=
  Runs.run_cons_of_goes h ps

theorem run_singleton (keyword : Bytes) (writer : ℕ → Bool) (p : Poll) (s : StreamState) :
    run keyword writer [p] s = poll keyword writer p s :=
  Runs.run_singleton (poll keyword writer) p s

end StreamLog
end EdgeScope
