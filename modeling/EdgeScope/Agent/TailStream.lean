import EdgeScope.Agent.LogTail
import EdgeScope.Agent.StreamChunks

/-!
# The tail and the stream of one file

`ReadLog` searches a line before it cuts it, `StreamLog` cuts it first. A keyword that
lies beyond the first 4096 bytes of a line is found by the one and not by the other, and
this is the only difference between them.
-/

namespace EdgeScope
open Text

/-- A line as `ReadLog` returns it: searched as a whole, then cut and repaired. -/
def LogCollector.tailLine (keyword line : Bytes) : Option Bytes :=
  if keyword <:+: stripCarriageReturn line then some (deliveredText (stripCarriageReturn line))
  else none

/-- The keyword occurs in the line, but only beyond the first 4096 bytes or across their end. -/
def OccursLate (keyword line : Bytes) : Prop :=
  keyword <:+: LogCollector.stripCarriageReturn line ∧
    ¬ keyword <:+: (LogCollector.stripCarriageReturn line).take 4096

instance (keyword line : Bytes) : Decidable (OccursLate keyword line) :=
  inferInstanceAs (Decidable (_ ∧ _))

theorem StreamLog.firstBytes_eq_or (keyword line : Bytes) :
    firstBytes keyword line = LogCollector.tailLine keyword line ∨
      firstBytes keyword line = none := by
  unfold firstBytes LogCollector.tailLine LogCollector.deliveredText
  by_cases hearly : keyword <:+: (LogCollector.stripCarriageReturn line).take kLineLimit
  · have hline := hearly.trans (List.take_prefix _ _).isInfix
    exact .inl (by rw [if_pos hearly, if_pos hline]; rfl)
  · exact .inr (if_neg hearly)

theorem StreamLog.firstBytes_eq_tailLine_iff (keyword line : Bytes) :
    firstBytes keyword line = LogCollector.tailLine keyword line ↔ ¬ OccursLate keyword line := by
  by_cases hline : keyword <:+: LogCollector.stripCarriageReturn line
  · have htail : LogCollector.tailLine keyword line ≠ none := by
      rw [LogCollector.tailLine, if_pos hline]
      exact Option.some_ne_none _
    by_cases hearly : keyword <:+: (LogCollector.stripCarriageReturn line).take 4096
    · refine iff_of_true ?_ fun h => h.2 hearly
      rw [firstBytes, LogCollector.tailLine, if_pos hline]
      exact if_pos hearly
    · refine iff_of_false ?_ (not_not.mpr ⟨hline, hearly⟩)
      have hnone : firstBytes keyword line = none := if_neg hearly
      rw [hnone]
      exact htail.symm
  · refine iff_of_true ?_ fun h => hline h.1
    have hearly : ¬ keyword <:+: (LogCollector.stripCarriageReturn line).take kLineLimit :=
      fun h => hline (h.trans (List.take_prefix _ _).isInfix)
    rw [firstBytes, LogCollector.tailLine, if_neg hline]
    exact if_neg hearly

theorem LogCollector.matchingLines_flatMap (keyword : Bytes) {lines : List Bytes}
    (hlines : ∀ line ∈ lines, newline ∉ line) :
    (matchingLines keyword (lines.flatMap (· ++ [newline]))).map deliveredText =
      lines.filterMap (tailLine keyword) := by
  rw [matchingLines, fileLines, getlines_flatMap hlines]
  clear hlines
  induction lines with
  | nil => rfl
  | cons line lines ih =>
    by_cases h : keyword <:+: stripCarriageReturn line
    · simp [tailLine, h, ih]
    · simp [tailLine, h, ih]

/-- `ReadLog` on a file of at most 64 KiB, when all its matching lines are wanted. -/
theorem LogCollector.readLog_lines (collector : LogCollector) (openFile : OpenFile)
    {logId : Bytes} {log : AllowedLog} {keyword : Bytes} {maxLines : ℕ} {lines : List Bytes}
    (hlines : ∀ line ∈ lines, newline ∉ line)
    (hlog : collector.findAllowedLog logId = some log)
    (hopen : openFile log.path = .ok (.ofContents (lines.flatMap (· ++ [newline]))))
    (hsize : (lines.flatMap (· ++ [newline])).length ≤ StreamLog.kStreamReadSize)
    (hmax : 1 ≤ maxLines ∧ maxLines ≤ 1000) (hkey : keyword.length ≤ 256)
    (hroom : (matchingLines keyword (lines.flatMap (· ++ [newline]))).length ≤ maxLines) :
    ∃ result, collector.readLog openFile logId maxLines keyword = .ok result ∧
      result.lines = lines.filterMap (tailLine keyword) := by
  have hlimit : StreamLog.kStreamReadSize ≤ kMaximumScanBytes := by decide
  have hread := readLog_eq_selectLines hlog hopen hmax hkey (.inl (hsize.trans hlimit))
  refine ⟨_, hread, ?_⟩
  rw [selectLines_eq]
  simp only [map_rtake]
  rw [rtake_of_length_le hroom, matchingLines_flatMap keyword hlines]

/-- One read of the stream on the same file. -/
theorem StreamLog.run_lines (keyword : Bytes) {writer : ℕ → Bool} (hwriter : ∀ n, writer n = true)
    (inode : ℕ) {lines : List Bytes} (hlines : ∀ line ∈ lines, newline ∉ line)
    (hsize : (lines.flatMap (· ++ [newline])).length ≤ kStreamReadSize) :
    (run keyword writer [.ofView (some ⟨inode, lines.flatMap (· ++ [newline])⟩)]
      (start false ⟨inode, (lines.flatMap (· ++ [newline])).length⟩)).1.written =
      lines.filterMap (firstBytes keyword) := by
  have hstart : start false ⟨inode, (lines.flatMap (· ++ [newline])).length⟩ =
      ⟨inode, 0, [], []⟩ := by
    rw [start, initialOffset]
    simp only [Bool.false_eq_true, if_false]
    rw [if_neg (not_lt.mpr hsize)]
  have htidy : StreamState.Tidy ⟨inode, 0, [], []⟩ := ⟨by simp, by simp⟩
  rw [run_singleton, hstart, poll_ofView_unbroken keyword hwriter _ htidy rfl (Nat.zero_le _),
    readBytes_of_length_le _ hsize]
  simp only [List.nil_append, List.drop_zero]
  rw [outputs, terminated_flatMap hlines]
  exact List.filterMap_congr fun line _ => streamLine_eq keyword line

/-- Two selections, the first of which selects less and the same text, agree only if they agree
on every element. -/
theorem filterMap_eq_filterMap_iff {α β : Type*} {f g : α → Option β} {l : List α}
    (h : ∀ a, f a = g a ∨ f a = none) :
    l.filterMap f = l.filterMap g ↔ ∀ a ∈ l, f a = g a := by
  refine ⟨fun heq => ?_, List.filterMap_congr⟩
  have hle : ∀ l : List α, (l.filterMap f).length ≤ (l.filterMap g).length := by
    intro l
    induction l with
    | nil => exact le_rfl
    | cons a l ih =>
      rw [List.filterMap_cons, List.filterMap_cons]
      rcases h a with ha | ha
      · rw [ha]
        cases g a <;> simp [ih]
      · rw [ha]
        cases g a
        · exact ih
        · exact ih.trans (by simp)
  induction l with
  | nil => simp
  | cons a l ih =>
    rw [List.filterMap_cons, List.filterMap_cons] at heq
    rw [List.forall_mem_cons]
    rcases h a with ha | ha
    · refine ⟨ha, ih ?_⟩
      rw [ha] at heq
      cases hg : g a with
      | none => simpa [hg] using heq
      | some b => simpa [hg] using heq
    · cases hg : g a with
      | none => exact ⟨ha, ih (by simpa [ha, hg] using heq)⟩
      | some b =>
        -- what `g` selects here is missing from the other side
        have hlength := congrArg List.length heq
        simp only [ha, hg, List.length_cons] at hlength
        have := hle l
        omega

/-- The tail and the stream of a file of complete lines agree exactly when no line holds the
keyword only beyond its first 4096 bytes. -/
theorem readLog_eq_stream_iff (collector : LogCollector) (openFile : OpenFile) (logId : Bytes)
    (log : AllowedLog) (keyword : Bytes) (maxLines : ℕ) (writer : ℕ → Bool) (inode : ℕ)
    (lines : List Bytes) (hlines : ∀ line ∈ lines, newline ∉ line)
    (hlog : collector.findAllowedLog logId = some log)
    (hopen : openFile log.path = .ok (.ofContents (lines.flatMap (· ++ [newline]))))
    (hsize : (lines.flatMap (· ++ [newline])).length ≤ StreamLog.kStreamReadSize)
    (hmax : 1 ≤ maxLines ∧ maxLines ≤ 1000) (hkey : keyword.length ≤ 256)
    (hroom :
      (LogCollector.matchingLines keyword (lines.flatMap (· ++ [newline]))).length ≤ maxLines)
    (hwriter : ∀ n, writer n = true) :
    ∃ result, collector.readLog openFile logId maxLines keyword = .ok result ∧
      ((StreamLog.run keyword writer [.ofView (some ⟨inode, lines.flatMap (· ++ [newline])⟩)]
          (StreamLog.start false ⟨inode, (lines.flatMap (· ++ [newline])).length⟩)).1.written =
        result.lines ↔ ∀ line ∈ lines, ¬ OccursLate keyword line) := by
  obtain ⟨result, hread, hresult⟩ :=
    LogCollector.readLog_lines collector openFile hlines hlog hopen hsize hmax hkey hroom
  refine ⟨result, hread, ?_⟩
  rw [hresult, StreamLog.run_lines keyword hwriter inode hlines hsize,
    filterMap_eq_filterMap_iff (StreamLog.firstBytes_eq_or keyword)]
  exact forall₂_congr fun line _ => StreamLog.firstBytes_eq_tailLine_iff keyword line

/-- A short line is in both or in neither. -/
theorem readLog_eq_stream_short :
    ∃ result, (LogCollector.create (ascii "/tmp/agent.log")).readLog
        (fun _ => .ok (.ofContents ([ascii "one\r", ascii "two"].flatMap (· ++ [newline]))))
        (ascii "system") 5 (ascii "n") = .ok result ∧
      (StreamLog.run (ascii "n") (fun _ => true)
        [.ofView (some ⟨1, [ascii "one\r", ascii "two"].flatMap (· ++ [newline])⟩)]
        (StreamLog.start false ⟨1, 9⟩)).1.written = result.lines := by
  obtain ⟨result, hread, hagree⟩ := readLog_eq_stream_iff
    (LogCollector.create (ascii "/tmp/agent.log"))
    (fun _ => .ok (.ofContents ([ascii "one\r", ascii "two"].flatMap (· ++ [newline]))))
    (ascii "system") ⟨ascii "system", ascii "System log", ascii "/var/log/syslog"⟩ (ascii "n") 5
    (fun _ => true) 1 [ascii "one\r", ascii "two"] (by decide) (by decide) rfl (by decide)
    (by decide) (by decide) (by decide) (fun _ => rfl)
  exact ⟨result, hread, hagree.mpr (by decide)⟩

def lateLine : Bytes := List.replicate 4096 (charByte 'a') ++ ascii "k"

theorem readLog_ne_stream_late :
    ∃ result, (LogCollector.create (ascii "/tmp/agent.log")).readLog
        (fun _ => .ok (.ofContents (lateLine ++ [newline]))) (ascii "system") 5 (ascii "k") =
          .ok result ∧
      result.lines = [List.replicate 4096 (charByte 'a')] ∧
      (StreamLog.run (ascii "k") (fun _ => true) [.ofView (some ⟨1, lateLine ++ [newline]⟩)]
        (StreamLog.start false ⟨1, (lateLine ++ [newline]).length⟩)).1.written = [] := by
  generalize hfront : List.replicate 4096 (charByte 'a') = front
  have hlength : front.length = 4096 := by rw [← hfront, List.length_replicate]
  have hbytes : ∀ b ∈ front, b = charByte 'a' := fun b hb =>
    List.eq_of_mem_replicate (hfront ▸ hb)
  have hline : lateLine = front ++ ascii "k" := by rw [lateLine, hfront]
  have hcontents : [lateLine].flatMap (· ++ [newline]) = lateLine ++ [newline] :=
    List.flatMap_singleton _ _
  have hnewline : ∀ line ∈ [lateLine], newline ∉ line := by
    intro line hmem hm
    rw [List.mem_singleton.mp hmem, hline, List.mem_append] at hm
    rcases hm with hm | hm
    · exact absurd (hbytes _ hm) (by decide)
    · exact absurd hm (by decide)
  have hstrip : LogCollector.stripCarriageReturn lateLine = lateLine := by
    refine if_neg fun h => ?_
    have hlast : (ascii "k").getLast? = some (charByte 'k') := by decide
    rw [hline, List.getLast?_append, hlast, Option.some_or] at h
    exact absurd h (by decide)
  have htake : lateLine.take 4096 = front := by rw [hline, ← hlength, List.take_left]
  have hlate : OccursLate (ascii "k") lateLine := by
    rw [OccursLate, hstrip, htake]
    refine ⟨hline ▸ (List.suffix_append _ _).isInfix, fun h => ?_⟩
    exact absurd (hbytes (charByte 'k') (h.subset (by decide))) (by decide)
  have hplain : WellFormed front :=
    wellFormed_of_forall_lt fun b hb => by
      rw [hbytes b hb]
      decide
  have htail : LogCollector.tailLine (ascii "k") lateLine = some front := by
    rw [LogCollector.tailLine, if_pos hlate.1, hstrip, LogCollector.deliveredText]
    rw [show lateLine.take LogCollector.kMaximumLineLength = front from htake,
      LogCollector.sanitizeUtf8_of_wellFormed hplain]
  have hfirst : StreamLog.firstBytes (ascii "k") lateLine = none :=
    (StreamLog.firstBytes_eq_or (ascii "k") lateLine).resolve_left fun h =>
      (StreamLog.firstBytes_eq_tailLine_iff (ascii "k") lateLine).mp h hlate
  have hsize : ([lateLine].flatMap (· ++ [newline])).length ≤ StreamLog.kStreamReadSize := by
    rw [hcontents, hline, List.length_append, List.length_append, hlength]
    decide
  have hroom : (LogCollector.matchingLines (ascii "k")
      ([lateLine].flatMap (· ++ [newline]))).length ≤ 5 := by
    have hlist := congrArg List.length
      (LogCollector.matchingLines_flatMap (ascii "k") hnewline)
    rw [List.length_map] at hlist
    rw [hlist]
    exact (List.length_filterMap_le _ _).trans (by decide)
  have hlog : (LogCollector.create (ascii "/tmp/agent.log")).findAllowedLog (ascii "system") =
      some ⟨ascii "system", ascii "System log", ascii "/var/log/syslog"⟩ := by decide
  obtain ⟨result, hread, hresult⟩ := LogCollector.readLog_lines
    (LogCollector.create (ascii "/tmp/agent.log"))
    (fun _ => .ok (.ofContents ([lateLine].flatMap (· ++ [newline])))) hnewline hlog rfl hsize
    (by decide) (by decide) hroom
  have hstream := StreamLog.run_lines (ascii "k")
    (fun _ => rfl : ∀ n, (fun _ => true : ℕ → Bool) n = true) 1
    hnewline hsize
  simp only [hcontents] at hread hstream
  refine ⟨result, hread, ?_, ?_⟩
  · rw [hresult, List.filterMap_cons_some htail, List.filterMap_nil]
  · rw [hstream, List.filterMap_cons_none hfirst, List.filterMap_nil]

end EdgeScope
