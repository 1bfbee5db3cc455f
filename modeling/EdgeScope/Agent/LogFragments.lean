import EdgeScope.Agent.LogTail

/-!
# Where `ReadLog` cuts a line

The scan reads at most the last 8 MiB. When they begin inside a line, the end of that line is
treated as a line, and only a keyword it does not contain or enough lines behind it keep it out
of the answer.
-/

namespace EdgeScope.LogCollector
open Text

/-- Every text is that of a line of its own which contains the keyword, in the order of the
file. -/
def AreWholeLines (keyword contents : Bytes) (texts : List Bytes) : Prop :=
  ∃ lines : List Bytes, lines.Sublist (fileLines contents) ∧
    (∀ line ∈ lines, keyword <:+: line) ∧ texts = lines.map deliveredText

theorem areWholeLines_iff {keyword contents : Bytes} {texts : List Bytes} :
    AreWholeLines keyword contents texts ↔
      texts.Sublist ((matchingLines keyword contents).map deliveredText) := by
  rw [List.sublist_map_iff]
  constructor
  · rintro ⟨lines, hlines, hkeyword, htexts⟩
    refine ⟨lines, ?_, htexts⟩
    have hfilter := hlines.filter fun line => decide (keyword <:+: line)
    rwa [List.filter_eq_self.mpr fun line hline => decide_eq_true (hkeyword line hline)] at hfilter
  · rintro ⟨lines, hlines, htexts⟩
    refine ⟨lines, hlines.trans List.filter_sublist, fun line hline => ?_, htexts⟩
    have hmem := hlines.subset hline
    rw [matchingLines, List.mem_filter] at hmem
    exact of_decide_eq_true hmem.2

def unscanned (contents : Bytes) : Bytes :=
  contents.take (contents.length - kMaximumScanBytes)

/-- The end of the line in which the last 8 MiB begin. -/
def cutEnd (contents : Bytes) : Bytes :=
  (contents.rtake kMaximumScanBytes).takeWhile (· ≠ newline)

/-- The last 8 MiB begin a line, or what they have of their first line is no match, or falls out
of the window, or happens to be the text of a line up to that one. -/
def CutIsHarmless (contents : Bytes) (maxLines : ℕ) (keyword : Bytes) : Prop :=
  LineStart newline contents (contents.length - kMaximumScanBytes) ∨
  ¬ keyword <:+: stripCarriageReturn (cutEnd contents) ∨
  maxLines < (matchingLines keyword (contents.rtake kMaximumScanBytes)).length ∨
  deliveredText (stripCarriageReturn (cutEnd contents)) ∈
    (matchingLines keyword (unscanned contents ++ cutEnd contents)).map deliveredText

theorem matchingLines_append_of_unterminated_eq_nil (keyword : Bytes) {x : Bytes}
    (h : unterminated newline x = []) (y : Bytes) :
    matchingLines keyword (x ++ y) = matchingLines keyword x ++ matchingLines keyword y := by
  have hlines : getlines newline (x ++ y) = getlines newline x ++ getlines newline y := by
    rw [getlines_append, h]
    simp [getlines, h]
  simp only [matchingLines, fileLines, hlines, List.map_append, List.filter_append]

def laterMatches (keyword contents : Bytes) : List Bytes :=
  ((getlines newline contents).tail.map stripCarriageReturn).filter fun line => keyword <:+: line

theorem matchingLines_append_of_cut (keyword : Bytes) {x : Bytes}
    (h : unterminated newline x ≠ []) (y : Bytes) :
    matchingLines keyword (x ++ y) =
      matchingLines keyword (x ++ y.takeWhile (· ≠ newline)) ++ laterMatches keyword y := by
  simp only [matchingLines, fileLines, laterMatches, getlines_append_of_cut h y, List.map_append,
    List.filter_append]

theorem matchingLines_eq_first {keyword y : Bytes} (hy : y ≠ []) :
    matchingLines keyword y =
      if keyword <:+: stripCarriageReturn (y.takeWhile (· ≠ newline)) then
        stripCarriageReturn (y.takeWhile (· ≠ newline)) :: laterMatches keyword y
      else laterMatches keyword y := by
  rw [matchingLines, fileLines, getlines_eq_cons hy, List.map_cons, List.filter_cons]
  simp only [decide_eq_true_eq]
  rfl

/-- The window onto the lines of the last part `y` of a file. -/
theorem window_wholeLines_iff (keyword : Bytes) (maxLines : ℕ) (x : Bytes) {y : Bytes}
    (hy : y ≠ [] ∨ x = []) :
    AreWholeLines keyword (x ++ y) (((matchingLines keyword y).map deliveredText).rtake maxLines) ↔
      unterminated newline x = [] ∨
      ¬ keyword <:+: stripCarriageReturn (y.takeWhile (· ≠ newline)) ∨
      maxLines < (matchingLines keyword y).length ∨
      deliveredText (stripCarriageReturn (y.takeWhile (· ≠ newline))) ∈
        (matchingLines keyword (x ++ y.takeWhile (· ≠ newline))).map deliveredText := by
  rw [areWholeLines_iff]
  by_cases hcut : unterminated newline x = []
  · simp only [hcut, true_or, iff_true]
    rw [matchingLines_append_of_unterminated_eq_nil keyword hcut, List.map_append]
    exact (rtake_sublist _ _).trans (List.sublist_append_right _ _)
  · have hne : y ≠ [] := hy.resolve_right (by rintro rfl; exact hcut rfl)
    rw [matchingLines_eq_first hne, matchingLines_append_of_cut keyword hcut, List.map_append]
    by_cases hfirst : keyword <:+: stripCarriageReturn (y.takeWhile (· ≠ newline))
    · rw [if_pos hfirst, List.map_cons, rtake_cons_sublist_iff]
      simp only [hcut, hfirst, not_true_eq_false, false_or, List.length_cons, List.length_map]
    · rw [if_neg hfirst]
      simp only [hfirst, not_false_eq_true, true_or, or_true, iff_true]
      exact (rtake_sublist _ _).trans (List.sublist_append_right _ _)

/-- A scan that has read enough lines has the window of the part it would read otherwise. -/
theorem rtake_matchingLines_drop {contents keyword : Bytes} {maxLines position limit : ℕ}
    (h : position = contents.length - limit ∨ keyword = [] ∧
      contents.length - limit ≤ position ∧ maxLines < (contents.drop position).count newline) :
    (matchingLines keyword (contents.drop position)).rtake maxLines =
      (matchingLines keyword (contents.rtake limit)).rtake maxLines := by
  obtain rfl | ⟨rfl, hle, hcount⟩ := h
  · rfl
  · have hpart : contents.drop position =
        (contents.rtake limit).drop (position - (contents.length - limit)) := by
      rw [List.rtake, List.drop_drop]
      congr 1
      omega
    rw [hpart] at hcount ⊢
    rw [matchingLines_nil, matchingLines_nil, rtake_fileLines_drop hcount]

theorem readLog_window {collector : LogCollector} {openFile : OpenFile} {logId : Bytes}
    {log : AllowedLog} {contents keyword : Bytes} {maxLines : ℕ}
    (hlog : collector.findAllowedLog logId = some log)
    (hopen : openFile log.path = .ok (.ofContents contents)) {result : LogReadResult}
    (hread : collector.readLog openFile logId maxLines keyword = .ok result) :
    result.lines = ((matchingLines keyword (contents.rtake kMaximumScanBytes)).map
      deliveredText).rtake maxLines := by
  have hbounds : (1 ≤ maxLines ∧ maxLines ≤ 1000) ∧ keyword.length ≤ 256 := by
    unfold readLog checkRead at hread
    rw [hlog] at hread
    simp only at hread
    split_ifs at hread with hlines hkeyword
    unfold kMaximumLines at hlines
    unfold kMaximumKeywordLength at hkeyword
    omega
  obtain ⟨scan, hcovers, hstopped, hlimit, hanswer⟩ :=
    readLog_ofContents hlog hopen hbounds.1 hbounds.2
  rw [hanswer] at hread
  cases hread
  have hwindow : (matchingLines keyword (contents.drop scan.position)).rtake maxLines =
      (matchingLines keyword (contents.rtake kMaximumScanBytes)).rtake maxLines := by
    apply rtake_matchingLines_drop
    have hle := hcovers.position_le
    have hscanned := hcovers.scannedBytes
    obtain h0 | hcap | ⟨hkey, hcount⟩ := hstopped
    · exact .inl (by omega)
    · exact .inl (by omega)
    · exact .inr ⟨hkey, by omega, hcovers.newlineCount ▸ hcount⟩
  rw [selectLines_eq, hcovers.contents]
  simp only [map_rtake]
  rw [hwindow]

/-- An accepted request for an unchanging file is answered. -/
theorem exists_readLog {collector : LogCollector} {openFile : OpenFile} {logId : Bytes}
    {log : AllowedLog} {contents keyword : Bytes} {maxLines : ℕ}
    (hlog : collector.findAllowedLog logId = some log)
    (hopen : openFile log.path = .ok (.ofContents contents))
    (hmax : 1 ≤ maxLines ∧ maxLines ≤ 1000) (hkey : keyword.length ≤ 256) :
    ∃ result, collector.readLog openFile logId maxLines keyword = .ok result := by
  obtain ⟨scan, -, -, -, hread⟩ := readLog_ofContents hlog hopen hmax hkey
  exact ⟨_, hread⟩

/-- `ReadLog` returns whole lines exactly when the cut it may make does no harm. -/
theorem readLog_wholeLines_iff (collector : LogCollector) (openFile : OpenFile) (logId : Bytes)
    (log : AllowedLog) (contents keyword : Bytes) (maxLines : ℕ) (result : LogReadResult)
    (hlog : collector.findAllowedLog logId = some log)
    (hopen : openFile log.path = .ok (.ofContents contents))
    (hread : collector.readLog openFile logId maxLines keyword = .ok result) :
    AreWholeLines keyword contents result.lines ↔ CutIsHarmless contents maxLines keyword := by
  rw [readLog_window hlog hopen hread]
  have hfile : unscanned contents ++ contents.rtake kMaximumScanBytes = contents :=
    List.take_append_drop ..
  have hscanned : contents.rtake kMaximumScanBytes ≠ [] ∨ unscanned contents = [] := by
    by_cases hnil : contents = []
    · exact .inr (by rw [unscanned, hnil, List.take_nil])
    · have hpos := List.length_pos_of_ne_nil hnil
      left
      rw [← List.length_pos_iff, length_rtake]
      unfold kMaximumScanBytes
      omega
  have hwindow := window_wholeLines_iff keyword maxLines (unscanned contents) hscanned
  rw [hfile, unscanned, unterminated_take_eq_nil_iff (Nat.sub_le _ _)] at hwindow
  exact hwindow

theorem readLog_wholeLines_two_lines :
    AreWholeLines (ascii "o") (ascii "one\r\ntwo") [ascii "one", ascii "two"] :=
  (readLog_wholeLines_iff (create []) (fun _ => .ok (.ofContents (ascii "one\r\ntwo")))
    (ascii "system") ⟨ascii "system", ascii "System log", ascii "/var/log/syslog"⟩
    (ascii "one\r\ntwo") (ascii "o") 5 ⟨[ascii "one", ascii "two"], false⟩ rfl rfl
    rfl).mpr (.inl (by decide))

/-- The text of a line that begins with an ASCII character begins with it, too. -/
theorem head?_deliveredText {b : Byte} (h : b.toNat < 0x80) (line : Bytes) :
    (deliveredText (b :: line)).head? = some b := by
  have htake : (b :: line).take kMaximumLineLength = b :: line.take (kMaximumLineLength - 1) := rfl
  rw [deliveredText, htake, sanitizeUtf8_cons, if_pos h]
  rfl

theorem fileLines_of_one_line {line : Bytes} (hne : line ≠ [])
    (h : ∀ b ∈ line, b ≠ newline ∧ b ≠ carriageReturn) : fileLines line = [line] := by
  have hnewline : newline ∉ line := fun hmem => (h _ hmem).1 rfl
  have hlast : line.getLast? ≠ some carriageReturn := fun hlast =>
    (h _ (List.mem_of_getLast? hlast)).2 rfl
  rw [fileLines, getlines_of_notMem hnewline, if_neg hne, List.map_singleton,
    stripCarriageReturn, if_neg hlast]

theorem not_wholeLines_long_line (n : ℕ) :
    ¬ AreWholeLines [] (ascii "b" ++ List.replicate (n + 1) (charByte 'a'))
      (((matchingLines [] (List.replicate (n + 1) (charByte 'a'))).map deliveredText).rtake 1) := by
  have hline : ∀ b ∈ ascii "b" ++ List.replicate (n + 1) (charByte 'a'),
      b ≠ newline ∧ b ≠ carriageReturn := by
    intro b hb
    obtain hb | hb := List.mem_append.mp hb
    · rw [List.mem_singleton.mp hb]
      decide
    · rw [List.eq_of_mem_replicate hb]
      decide
  have hlines := fileLines_of_one_line (by simp [ascii]) hline
  have hrest : fileLines (List.replicate (n + 1) (charByte 'a')) =
      [List.replicate (n + 1) (charByte 'a')] :=
    fileLines_of_one_line (by simp) fun b hb => hline b (List.mem_append_right _ hb)
  rw [areWholeLines_iff, matchingLines_nil, matchingLines_nil, hlines, hrest]
  intro hsublist
  have hmem := hsublist.subset (a := deliveredText (List.replicate (n + 1) (charByte 'a')))
    (by simp [List.rtake])
  have hhead := congrArg List.head? (List.mem_singleton.mp hmem)
  rw [List.replicate_succ, head?_deliveredText (by decide)] at hhead
  rw [show ascii "b" ++ charByte 'a' :: List.replicate n (charByte 'a') =
    charByte 'b' :: charByte 'a' :: List.replicate n (charByte 'a') by rfl,
    head?_deliveredText (by decide)] at hhead
  exact absurd hhead (by decide)

/-- A file of one line, longer than 8 MiB by its first byte: the answer begins with the second
one. -/
theorem readLog_cut_line : ∃ result,
    (create []).readLog (fun _ => .ok (.ofContents (ascii "b" ++
      List.replicate kMaximumScanBytes (charByte 'a')))) (ascii "system") 1 [] = .ok result ∧
      ¬ AreWholeLines [] (ascii "b" ++ List.replicate kMaximumScanBytes (charByte 'a'))
        result.lines := by
  have hlog : (create []).findAllowedLog (ascii "system") =
    some ⟨ascii "system", ascii "System log", ascii "/var/log/syslog"⟩ := rfl
  obtain ⟨result, hread⟩ : ∃ result, (create []).readLog (fun _ => .ok (.ofContents (ascii "b" ++
      List.replicate kMaximumScanBytes (charByte 'a')))) (ascii "system") 1 [] = .ok result :=
    exists_readLog hlog rfl (by decide) (by decide)
  refine ⟨result, hread, ?_⟩
  rw [readLog_window hlog rfl hread]
  obtain ⟨n, hn⟩ : ∃ n, kMaximumScanBytes = n + 1 := ⟨8 * 1024 * 1024 - 1, by decide⟩
  have hlength := (List.length_replicate (a := charByte 'a') (n := n + 1))
  rw [hn, rtake_append_of_le_length _ hlength.ge,
    rtake_of_length_le (l := List.replicate (n + 1) (charByte 'a')) hlength.le]
  exact not_wholeLines_long_line n

end EdgeScope.LogCollector
