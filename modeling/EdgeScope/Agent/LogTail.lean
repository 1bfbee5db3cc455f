import EdgeScope.Agent.LogCollector

/-!
# What `ReadLog` returns

The selection keeps a sliding window of the matching lines, and the reverse scan ends
at a suffix of the file. A suffix with enough newlines has the same last lines as the
whole file, so the two together return the tail of the file.
-/

namespace EdgeScope.LogCollector
open Text

/-- The lines of a file as `getline` yields them, each without one trailing `'\r'`. -/
def fileLines (contents : Bytes) : List Bytes :=
  (getlines newline contents).map stripCarriageReturn

def matchingLines (keyword contents : Bytes) : List Bytes :=
  (fileLines contents).filter fun line => keyword <:+: line

/-- The text of a line as it is sent: its first 4096 bytes, repaired. -/
def deliveredText (line : Bytes) : Bytes := sanitizeUtf8 (line.take kMaximumLineLength)

/-- Some line is cut, or there are more lines than are wanted. -/
def LosesText (maxLines : ℕ) (lines : List Bytes) : Prop :=
  maxLines < lines.length ∨ ∃ line ∈ lines, kMaximumLineLength < line.length

instance (maxLines : ℕ) (lines : List Bytes) : Decidable (LosesText maxLines lines) :=
  inferInstanceAs (Decidable (_ ∨ _))

theorem selectLine_of_found (maxLines : ℕ) {keyword : Bytes} (s : Selection) {line : Bytes}
    (h : keyword <:+: stripCarriageReturn line) :
    selectLine maxLines keyword s line =
      ⟨pushBounded maxLines s.selectedLines (deliveredText (stripCarriageReturn line)),
        s.truncated || decide (kMaximumLineLength < (stripCarriageReturn line).length) ||
          decide (maxLines < s.selectedLines.length + 1)⟩ := by
  have hfind : find keyword (stripCarriageReturn line) ≠ none := by
    rw [ne_eq, find_eq_none_iff, not_not]
    exact h
  have htext : sanitizeUtf8 (if decide (kMaximumLineLength < (stripCarriageReturn line).length) then
      (stripCarriageReturn line).take kMaximumLineLength else stripCarriageReturn line) =
      deliveredText (stripCarriageReturn line) := by
    unfold deliveredText
    congr 1
    split
    · rfl
    · rename_i hlen
      exact (List.take_of_length_le (by simpa using hlen)).symm
  simp only [selectLine, hfind, and_false, if_false, htext, pushBounded, List.length_append,
    List.length_singleton]
  split_ifs with hfull <;> simp [hfull]

theorem selectLine_of_not_found (maxLines : ℕ) {keyword : Bytes} (s : Selection) {line : Bytes}
    (h : ¬ keyword <:+: stripCarriageReturn line) : selectLine maxLines keyword s line = s := by
  have hkey : keyword ≠ [] := by
    rintro rfl
    exact h List.nil_infix
  simp [selectLine, hkey, find_eq_none_iff.mpr h]

/-- The window after any number of lines, `done` being the matching ones among those before. -/
theorem foldl_selectLine (maxLines : ℕ) (keyword : Bytes) (lines done : List Bytes) :
    lines.foldl (selectLine maxLines keyword)
        ⟨(done.map deliveredText).rtake maxLines, decide (LosesText maxLines done)⟩ =
      let all := done ++ (lines.map stripCarriageReturn).filter fun line => keyword <:+: line
      ⟨(all.map deliveredText).rtake maxLines, decide (LosesText maxLines all)⟩ := by
  -- the window keeps the last lines selected so far
  induction lines generalizing done with
  | nil => simp
  | cons line lines ih =>
    rw [List.foldl_cons]
    by_cases h : keyword <:+: stripCarriageReturn line
    · have hstep : selectLine maxLines keyword
          ⟨(done.map deliveredText).rtake maxLines, decide (LosesText maxLines done)⟩ line =
          ⟨((done ++ [stripCarriageReturn line]).map deliveredText).rtake maxLines,
            decide (LosesText maxLines (done ++ [stripCarriageReturn line]))⟩ := by
        rw [selectLine_of_found maxLines _ h, pushBounded_rtake, List.map_append]
        congr 1
        rw [← Bool.decide_or, ← Bool.decide_or, decide_eq_decide]
        simp only [LosesText, length_rtake, List.length_map, List.length_append,
          List.length_singleton, List.mem_append, List.mem_singleton, or_and_right, exists_or,
          exists_eq_left]
        constructor
        · rintro (((hn | hcut) | hcut) | hn)
          · exact .inl (by omega)
          · exact .inr (.inl hcut)
          · exact .inr (.inr hcut)
          · exact .inl (by omega)
        · rintro (hn | hcut | hcut)
          · exact .inr (by omega)
          · exact .inl (.inl (.inr hcut))
          · exact .inl (.inr hcut)
      rw [hstep, ih]
      simp [h]
    · rw [selectLine_of_not_found maxLines _ h, ih]
      simp [h]

theorem selectLines_eq (maxLines : ℕ) (keyword contents : Bytes) :
    selectLines maxLines keyword contents =
      ⟨((matchingLines keyword contents).map deliveredText).rtake maxLines,
        decide (LosesText maxLines (matchingLines keyword contents))⟩ := by
  have h := foldl_selectLine maxLines keyword (getlines newline contents) []
  have hempty : decide (LosesText maxLines ([] : List Bytes)) = false := by simp [LosesText]
  simp only [List.map_nil, List.rtake_nil, hempty, List.nil_append] at h
  exact h

/-- What the scan has read so far is the file from its position on. -/
structure Scan.Covers (scan : Scan) (contents : Bytes) : Prop where
  position_le : scan.position ≤ contents.length
  scannedBytes : scan.scannedBytes = contents.length - scan.position
  newlineCount : scan.newlineCount = (contents.drop scan.position).count newline
  contents : scan.contents = contents.drop scan.position

def Scan.Stopped (scan : Scan) (maxLines : ℕ) (keyword : Bytes) : Prop :=
  scan.position = 0 ∨ kMaximumScanBytes ≤ scan.scannedBytes ∨
    keyword = [] ∧ maxLines < scan.newlineCount

theorem Scan.Covers.step {scan : Scan} {contents : Bytes} (h : scan.Covers contents) :
    let blockSize := min scan.position kReadBlockSize
    let position := scan.position - blockSize
    let chunk := (InputFile.ofContents contents).read position blockSize
    chunk.length = blockSize ∧
      Scan.Covers ⟨position, scan.scannedBytes + blockSize, scan.newlineCount + chunk.count newline,
        scan.reverseChunks ++ [chunk]⟩ contents := by
  intro blockSize position chunk
  have hle := h.position_le
  have hblock : blockSize ≤ scan.position := min_le_left _ _
  have hchunk : chunk = (contents.drop position).take blockSize := rfl
  have hpos : position + blockSize = scan.position := Nat.sub_add_cancel hblock
  have hsplit : contents.drop position = chunk ++ contents.drop scan.position := by
    rw [hchunk, ← hpos, ← List.drop_drop, List.take_append_drop]
  refine ⟨by rw [hchunk, List.length_take, List.length_drop]; omega, ?_, ?_, ?_, ?_⟩
  · simp only
    omega
  · simp only [h.scannedBytes]
    omega
  · simp only [hsplit, List.count_append, h.newlineCount]
    omega
  · have hcontents := h.contents
    simp only [Scan.contents] at hcontents ⊢
    rw [List.reverse_append, List.flatten_append, hcontents, hsplit]
    simp

/-- The scan of an unchanging file delivers a suffix of it. -/
theorem scanBlocks_ofContents (contents : Bytes) (maxLines : ℕ) (keyword : Bytes) (fuel : ℕ)
    (scan : Scan) (h : scan.Covers contents) (hfuel : scan.position ≤ fuel) :
    ∃ scan', scanBlocks (.ofContents contents) maxLines keyword fuel scan = some scan' ∧
      scan'.Covers contents ∧ scan'.Stopped maxLines keyword := by
  induction fuel generalizing scan with
  | zero => exact ⟨scan, rfl, h, .inl (Nat.le_zero.mp hfuel)⟩
  | succ fuel ih =>
    obtain ⟨hlen, hcovers⟩ := h.step
    simp only [scanBlocks]
    split
    · rename_i hgo
      have hblock : 0 < min scan.position kReadBlockSize := by
        simp only [kReadBlockSize]
        omega
      rw [if_neg (not_not.mpr hlen)]
      split
      · rename_i hexit
        exact ⟨_, rfl, hcovers, .inr (.inr hexit)⟩
      · exact ih _ hcovers (by simp only; omega)
    · rename_i hstop
      refine ⟨scan, rfl, h, ?_⟩
      simp only [not_and_or, not_lt, Nat.le_zero] at hstop
      rcases hstop with hstop | hstop
      · exact .inl hstop
      · exact .inr (.inl hstop)

/-- Full blocks add up to the limit, and the last one before the front of the file is short. -/
theorem scanBlocks_scannedBytes {input : InputFile} {maxLines : ℕ} {keyword : Bytes} {fuel : ℕ}
    {scan scan' : Scan} (hscan : scanBlocks input maxLines keyword fuel scan = some scan')
    (hlimit : scan.scannedBytes ≤ kMaximumScanBytes)
    (hblocks : scan.position = 0 ∨ kReadBlockSize ∣ scan.scannedBytes) :
    scan'.scannedBytes ≤ kMaximumScanBytes := by
  induction fuel generalizing scan with
  | zero =>
    cases hscan
    exact hlimit
  | succ fuel ih =>
    simp only [scanBlocks] at hscan
    split at hscan
    · rename_i hgo
      have hdvd := hblocks.resolve_left (by omega)
      have hroom : scan.scannedBytes + min scan.position kReadBlockSize ≤ kMaximumScanBytes := by
        simp only [kReadBlockSize, kMaximumScanBytes] at hdvd hgo ⊢
        omega
      have hnext : scan.position - min scan.position kReadBlockSize = 0 ∨
          kReadBlockSize ∣ scan.scannedBytes + min scan.position kReadBlockSize := by
        simp only [kReadBlockSize] at hdvd ⊢
        omega
      split at hscan
      · cases hscan
      · split at hscan
        · cases hscan
          exact hroom
        · exact ih hscan hroom hnext
    · cases hscan
      exact hlimit

theorem readLog_ofContents {collector : LogCollector} {openFile : OpenFile} {logId : Bytes}
    {log : AllowedLog} {contents keyword : Bytes} {maxLines : ℕ}
    (hlog : collector.findAllowedLog logId = some log)
    (hopen : openFile log.path = .ok (.ofContents contents))
    (hmax : 1 ≤ maxLines ∧ maxLines ≤ 1000) (hkey : keyword.length ≤ 256) :
    ∃ scan : Scan, scan.Covers contents ∧ scan.Stopped maxLines keyword ∧
      scan.scannedBytes ≤ kMaximumScanBytes ∧
      collector.readLog openFile logId maxLines keyword =
        .ok ⟨(selectLines maxLines keyword scan.contents).selectedLines,
          (selectLines maxLines keyword scan.contents).truncated ||
            decide (0 < scan.position)⟩ := by
  have hstart : Scan.Covers ⟨contents.length, 0, 0, []⟩ contents :=
    ⟨le_rfl, by simp, by simp, by simp [Scan.contents]⟩
  obtain ⟨scan, hscan, hcovers, hstopped⟩ :=
    scanBlocks_ofContents contents maxLines keyword contents.length _ hstart le_rfl
  have hlimit := scanBlocks_scannedBytes hscan (Nat.zero_le _) (.inr (Nat.dvd_zero _))
  refine ⟨scan, hcovers, hstopped, hlimit, ?_⟩
  have hlines : ¬ (maxLines = 0 ∨ kMaximumLines < maxLines) := by
    simp only [kMaximumLines]
    omega
  have hlength : ¬ kMaximumKeywordLength < keyword.length := by
    simp only [kMaximumKeywordLength]
    omega
  simp only [readLog, checkRead, readOpened, hlog, hopen, if_neg hlines, if_neg hlength,
    InputFile.ofContents] at hscan ⊢
  rw [hscan]

theorem matchingLines_nil (contents : Bytes) : matchingLines [] contents = fileLines contents := by
  simp [matchingLines]

theorem length_fileLines (contents : Bytes) :
    (fileLines contents).length = (getlines newline contents).length :=
  List.length_map _

/-- A suffix with more newlines than lines are wanted has the last lines of the file. -/
theorem rtake_fileLines_drop {contents : Bytes} {position maxLines : ℕ}
    (h : maxLines < ((contents.drop position).count newline)) :
    (fileLines (contents.drop position)).rtake maxLines = (fileLines contents).rtake maxLines := by
  have hlines : maxLines < (getlines newline (contents.drop position)).length :=
    h.trans_le (length_terminated (contents.drop position) ▸ length_terminated_le_getlines _)
  have hsame := rtake_getlines_append (contents.take position) _ hlines
  rw [List.take_append_drop] at hsame
  rw [fileLines, fileLines, map_rtake, map_rtake, hsame]

theorem Scan.Covers.enough {scan : Scan} {contents keyword : Bytes} {maxLines : ℕ}
    (h : scan.Covers contents) (hstop : scan.Stopped maxLines keyword)
    (hscan : contents.length ≤ kMaximumScanBytes ∨
      keyword = [] ∧ maxLines < (contents.rtake kMaximumScanBytes).count newline) :
    scan.position = 0 ∨ keyword = [] ∧ maxLines < (contents.drop scan.position).count newline := by
  have hle := h.position_le
  have hscanned := h.scannedBytes
  rcases hstop with h0 | hlimit | ⟨hkey, hcount⟩
  · exact .inl h0
  · rcases hscan with hsmall | ⟨hkey, hcount⟩
    · exact .inl (by omega)
    · -- the scan went past the last 8 MiB, so it has their newlines
      refine .inr ⟨hkey, hcount.trans_le ?_⟩
      have hsub : contents.rtake kMaximumScanBytes =
          (contents.drop scan.position).drop
            (contents.length - kMaximumScanBytes - scan.position) := by
        have hfrom : contents.length - kMaximumScanBytes =
            scan.position + (contents.length - kMaximumScanBytes - scan.position) := by omega
        rw [List.rtake, List.drop_drop, ← hfrom]
      calc (contents.rtake kMaximumScanBytes).count newline
          = _ := congrArg (List.count newline) hsub
        _ ≤ _ := (List.drop_sublist _ _).count_le _
  · exact .inr ⟨hkey, h.newlineCount ▸ hcount⟩

/-- Wherever the scan stops, the answer is the selection run on the whole file. -/
theorem readLog_eq_selectLines {collector : LogCollector} {openFile : OpenFile} {logId : Bytes}
    {log : AllowedLog} {contents keyword : Bytes} {maxLines : ℕ}
    (hlog : collector.findAllowedLog logId = some log)
    (hopen : openFile log.path = .ok (.ofContents contents))
    (hmax : 1 ≤ maxLines ∧ maxLines ≤ 1000) (hkey : keyword.length ≤ 256)
    (hscan : contents.length ≤ kMaximumScanBytes ∨
      keyword = [] ∧ maxLines < (contents.rtake kMaximumScanBytes).count newline) :
    collector.readLog openFile logId maxLines keyword =
      .ok ⟨(selectLines maxLines keyword contents).selectedLines,
        (selectLines maxLines keyword contents).truncated⟩ := by
  obtain ⟨scan, hcovers, hstopped, -, hread⟩ := readLog_ofContents hlog hopen hmax hkey
  rw [hread, hcovers.contents]
  rcases hcovers.enough hstopped hscan with h0 | ⟨rfl, hcount⟩
  · simp [h0]
  · have hlost : maxLines < (fileLines (contents.drop scan.position)).length := by
      rw [length_fileLines]
      exact hcount.trans_le (length_terminated (contents.drop scan.position) ▸
        length_terminated_le_getlines _)
    have hlost' : maxLines < (fileLines contents).length := by
      have hcount' := hcount.trans_le ((List.drop_sublist scan.position contents).count_le newline)
      rw [length_fileLines]
      exact hcount'.trans_le (length_terminated contents ▸ length_terminated_le_getlines _)
    simp only [selectLines_eq, matchingLines_nil, map_rtake, rtake_fileLines_drop hcount,
      LosesText, hlost, hlost', true_or, decide_true, Bool.true_or]

/-- `ReadLog` returns the last lines of the file, whatever block its scan ends in: the same
answer as the selection run on the whole file. -/
theorem readLog_tail (collector : LogCollector) (openFile : OpenFile) (logId : Bytes)
    (log : AllowedLog) (contents keyword : Bytes) (maxLines : ℕ)
    (hlog : collector.findAllowedLog logId = some log)
    (hopen : openFile log.path = .ok (.ofContents contents))
    (hmax : 1 ≤ maxLines ∧ maxLines ≤ 1000) (hkey : keyword.length ≤ 256)
    (hscan : contents.length ≤ kMaximumScanBytes ∨
      keyword = [] ∧ maxLines < (contents.rtake kMaximumScanBytes).count newline) :
    ∃ result, collector.readLog openFile logId maxLines keyword = .ok result ∧
      result.lines = ((matchingLines keyword contents).rtake
        (min maxLines (matchingLines keyword contents).length)).map deliveredText ∧
      (result.truncated = true ↔ maxLines < (matchingLines keyword contents).length ∨
        ∃ line ∈ matchingLines keyword contents, kMaximumLineLength < line.length) ∧
      result = ⟨(selectLines maxLines keyword contents).selectedLines,
        (selectLines maxLines keyword contents).truncated⟩ := by
  refine ⟨_, readLog_eq_selectLines hlog hopen hmax hkey hscan, ?_, ?_, rfl⟩
  · rw [selectLines_eq]
    simp only [map_rtake]
    congr 1
    rcases le_total maxLines (matchingLines keyword contents).length with h | h
    · rw [min_eq_left h]
    · rw [min_eq_right h, rtake_of_length_le h, rtake_of_length_le le_rfl]
  · rw [selectLines_eq]
    exact decide_eq_true_iff

/-- The last line of two, of a file without a final newline. -/
theorem readLog_tail_two_lines : ∃ result,
    (create (ascii "/tmp/agent.log")).readLog (fun _ => .ok (.ofContents (ascii "one\r\ntwo\r")))
        (ascii "system") 1 [] = .ok result ∧
      result.lines = [ascii "two"] ∧ result.truncated = true := by
  obtain ⟨result, hread, hlines, htruncated, -⟩ :=
    readLog_tail (create (ascii "/tmp/agent.log"))
      (fun _ => .ok (.ofContents (ascii "one\r\ntwo\r"))) (ascii "system")
      ⟨ascii "system", ascii "System log", ascii "/var/log/syslog"⟩ (ascii "one\r\ntwo\r") [] 1
      (by decide) rfl (by decide) (by decide) (.inl (by decide))
  refine ⟨result, hread, hlines.trans (by decide), htruncated.mpr (.inl (by decide))⟩

end EdgeScope.LogCollector
