import EdgeScope.Agent.StreamRuns

/-!
# Long lines and the splitting into reads

A finished line is cut to its first 4096 bytes, but the unfinished line is cut to its
last 4096 bytes after every read. The two agree on a run in which no line is finished
after a part of it has been forgotten; a long line in two reads shows the difference.
-/

namespace EdgeScope.StreamLog
open Text

/-- The file has only grown since the last iteration. -/
def Observed.Appended (o : Observed) (view : FileView) : Prop :=
  view.inode = o.state.inode ∧ o.current.contents <+: view.contents

instance (o : Observed) (view : FileView) : Decidable (o.Appended view) :=
  inferInstanceAs (Decidable (_ ∧ _))

theorem Observed.Appended.not_replaced {keyword : Bytes} {o : Observed} {view : FileView}
    (h : o.Appended view) (hgood : o.Good keyword) : ¬ o.Replaced view := by
  have hlength := h.2.length_le
  have hconsumed := hgood.placed.consumed_le
  have hoffset := hgood.consumed
  rintro (hinode | hsize)
  · exact hinode h.1
  · omega

/-- A line as the client should get it: its first 4096 bytes, filtered and repaired. -/
def firstBytes (keyword line : Bytes) : Option Bytes :=
  let text := (LogCollector.stripCarriageReturn line).take kLineLimit
  if keyword <:+: text then some (LogCollector.sanitizeUtf8 text) else none

theorem streamLine_eq (keyword line : Bytes) :
    streamLine keyword line = firstBytes keyword line := by
  have htext : (if kLineLimit < (LogCollector.stripCarriageReturn line).length then
      (LogCollector.stripCarriageReturn line).take kLineLimit
      else LogCollector.stripCarriageReturn line) =
      (LogCollector.stripCarriageReturn line).take kLineLimit := by
    split
    · rfl
    · rw [List.take_of_length_le (by omega)]
  simp only [streamLine, firstBytes, htext, find_eq_none_iff]
  by_cases hk : keyword <:+: (LogCollector.stripCarriageReturn line).take kLineLimit
  · simp [hk]
  · have hne : keyword ≠ [] := by
      rintro rfl
      exact hk List.nil_infix
    simp [hk, hne]

theorem firstBytes_of_ascii {line : Bytes} (hreturn : carriageReturn ∉ line)
    (hascii : ∀ b ∈ line, b.toNat < 0x80) : firstBytes [] line = some (line.take kLineLimit) := by
  have hstrip : LogCollector.stripCarriageReturn line = line :=
    if_neg fun h => hreturn (List.mem_of_getLast? h)
  have htake : WellFormed (line.take kLineLimit) :=
    wellFormed_of_forall_lt fun b hb => hascii b (List.mem_of_mem_take hb)
  rw [firstBytes, hstrip]
  simp [LogCollector.sanitizeUtf8_of_wellFormed htake]

theorem readBytes_of_length_le {view : FileView} (offset : ℕ)
    (h : view.contents.length ≤ kStreamReadSize) :
    readBytes view offset = view.contents.drop offset := by
  rw [readBytes, List.take_of_length_le]
  rw [List.length_drop]
  omega

theorem tidy_start (startAtEnd : Bool) (status : FileStatus) : (start startAtEnd status).Tidy :=
  ⟨by simp [start], by simp [start]⟩

/-- An iteration that reads the file to its end. -/
theorem Observed.poll_toEnd (keyword : Bytes) {writer : ℕ → Bool} (hwriter : ∀ n, writer n = true)
    {o : Observed} (h : o.state.Tidy) (view : FileView) (hinode : view.inode = o.state.inode)
    (hoffset : o.state.offset ≤ view.contents.length)
    (hlength : view.contents.length ≤ kStreamReadSize) :
    let result := o.poll keyword writer (some view)
    result.2 = false ∧
      result.1.current = ⟨view.contents, o.current.start, view.contents.length⟩ := by
  have hsame : ¬ o.Replaced view := by
    rintro (hother | hshorter)
    · exact hother hinode
    · omega
  have hbytes := readBytes_of_length_le o.state.offset hlength
  have hpoll := poll_ofView_unbroken keyword hwriter view h hinode hoffset
  simp only [Observed.poll, if_neg hsame, hpoll, hbytes, List.length_drop,
    Nat.add_sub_cancel' hoffset, and_self]

/-- A file that only grows is one generation. -/
theorem run_appended_past (keyword : Bytes) (writer : ℕ → Bool) {o : Observed}
    (ho : o.Good keyword) (hpast : o.past = []) {views : List (Option FileView)}
    (hviews : Observed.Throughout (fun o view => o.Appended view ∧ o.Remembers view) keyword writer
      views o) :
    let result := Observed.run keyword writer views o
    (result.2 = false → result.1.Good keyword) ∧ result.1.past = [] := by
  obtain ⟨hdone, -, hpast'⟩ := hviews.run
    (I := fun o => o.Good keyword ∧ o.past = []) (Q := fun o => o.Tracked ∧ o.past = [])
    (fun o h => ⟨h.1.toTracked, h.2⟩)
    (fun o v h hv => by
      have hsame := hv.1.not_replaced h.1
      obtain ⟨hgood, htracked, -⟩ :=
        h.1.read writer hsame ((List.take_prefix _ _).trans hv.1.2) hv.2
      have hpast : (o.poll keyword writer (some v)).1.past = [] := by
        simp only [Observed.poll, if_neg hsame, h.2]
      exact ⟨fun hunbroken => ⟨hgood hunbroken, hpast⟩, htracked, hpast⟩)
    ⟨ho, hpast⟩
  exact ⟨fun hunbroken => (hdone hunbroken).1, hpast'⟩

/-- The lines of a run over a file that only grows depend on the bytes consumed alone, however
they were split into reads, as long as no line is finished after more than 4096 bytes of it have
been read: each is sent as its first 4096 bytes. -/
theorem run_splitting (keyword : Bytes) (writer₁ writer₂ : ℕ → Bool)
    (startAtEnd₁ startAtEnd₂ : Bool) (view₁ view₂ : FileView)
    (views₁ views₂ : List (Option FileView))
    (h₁ : Observed.Throughout (fun o view => o.Appended view ∧ o.Remembers view) keyword writer₁
      views₁ (.begin startAtEnd₁ view₁))
    (h₂ : Observed.Throughout (fun o view => o.Appended view ∧ o.Remembers view) keyword writer₂
      views₂ (.begin startAtEnd₂ view₂)) :
    let result₁ := Observed.run keyword writer₁ views₁ (.begin startAtEnd₁ view₁)
    let result₂ := Observed.run keyword writer₂ views₂ (.begin startAtEnd₂ view₂)
    let served₁ := run keyword writer₁ (views₁.map .ofView)
      (start startAtEnd₁ ⟨view₁.inode, view₁.contents.length⟩)
    let served₂ := run keyword writer₂ (views₂.map .ofView)
      (start startAtEnd₂ ⟨view₂.inode, view₂.contents.length⟩)
    served₁.2 = false → served₂.2 = false →
      result₁.1.current.segment = result₂.1.current.segment →
      served₁.1.written = served₂.1.written ∧ served₁.1.written =
        (terminated newline result₁.1.current.segment).filterMap (firstBytes keyword) := by
  intro result₁ result₂ served₁ served₂
  have hserved₁ : served₁ = (result₁.1.state, result₁.2) :=
    Observed.run_state keyword writer₁ views₁ (.begin startAtEnd₁ view₁)
  have hserved₂ : served₂ = (result₂.1.state, result₂.2) :=
    Observed.run_state keyword writer₂ views₂ (.begin startAtEnd₂ view₂)
  -- what a run has written depends on the segment alone
  have hwritten : ∀ {result : Observed × Bool}, result.1.Good keyword → result.1.past = [] →
      result.1.state.written =
        (terminated newline result.1.current.segment).filterMap (firstBytes keyword) := by
    intro result hgood hpast
    rw [hgood.written, Observed.delivered, hpast, List.nil_append, List.flatMap_singleton,
      Generation.delivered, outputs]
    exact List.filterMap_congr fun line _ => streamLine_eq keyword line
  obtain ⟨hdone₁, hpast₁⟩ :=
    run_appended_past keyword writer₁ (Observed.good_begin keyword startAtEnd₁ view₁) rfl h₁
  obtain ⟨hdone₂, hpast₂⟩ :=
    run_appended_past keyword writer₂ (Observed.good_begin keyword startAtEnd₂ view₂) rfl h₂
  rw [hserved₁, hserved₂]
  intro hunbroken₁ hunbroken₂ hsegment
  have hlines₁ := hwritten (hdone₁ hunbroken₁) hpast₁
  have hlines₂ := hwritten (hdone₂ hunbroken₂) hpast₂
  exact ⟨by rw [hlines₁, hlines₂, hsegment], hlines₁⟩

def longLine : Bytes := charByte 'a' :: List.replicate 4096 (charByte 'b')

theorem longLine_plain : ∀ b ∈ longLine, b.toNat < 0x80 ∧ b ≠ carriageReturn ∧ b ≠ newline := by
  intro b hb
  rcases List.mem_cons.mp hb with rfl | hb
  · decide
  · rw [List.eq_of_mem_replicate hb]
    decide

/-- The long line at once, and its first byte before the rest. -/
theorem run_splitting_first_byte :
    let served (views : List (Option FileView)) : List Bytes :=
      (run [] (fun _ => true) (views.map .ofView) (start false ⟨1, 0⟩)).1.written
    let whole : FileView := ⟨1, longLine ++ [newline]⟩
    served [some whole] = served [some ⟨1, [charByte 'a']⟩, some whole] ∧
      served [some whole] = [longLine.take 4096] := by
  intro served whole
  have hlength : whole.contents.length ≤ kStreamReadSize := by
    rw [List.length_append, longLine, List.length_cons, List.length_replicate]
    decide
  have hprefix : [charByte 'a'] <+: whole.contents := List.prefix_append _ _
  have hlines : terminated newline whole.contents = [longLine] :=
    terminated_append_cons (fun hm => (longLine_plain _ hm).2.2 rfl) []
  have hfirst : firstBytes [] longLine = some (longLine.take kLineLimit) :=
    firstBytes_of_ascii (fun hm => (longLine_plain _ hm).2.1 rfl) fun b hb =>
      (longLine_plain b hb).1
  have hinode : whole.inode = 1 := rfl
  generalize whole = view at hlength hprefix hlines hinode ⊢
  let o : Observed := .begin false ⟨1, []⟩
  let o' : Observed := (o.poll [] (fun _ => true) (some ⟨1, [charByte 'a']⟩)).1
  obtain ⟨-, hcurrent⟩ := o.poll_toEnd [] (fun _ => rfl) (tidy_start _ _) view hinode
    (Nat.zero_le _) hlength
  obtain ⟨-, hcurrent'⟩ := o'.poll_toEnd [] (fun _ => rfl) ⟨by decide, by decide⟩ view hinode
    hprefix.length_le hlength
  have honce : Observed.run [] (fun _ => true) [some view] o =
      o.poll [] (fun _ => true) (some view) := Runs.run_singleton _ _ _
  have htwice : Observed.run [] (fun _ => true) [some ⟨1, [charByte 'a']⟩, some view] o =
      o'.poll [] (fun _ => true) (some view) := Runs.run_singleton _ _ _
  have hsegments : (Observed.run [] (fun _ => true) [some view] o).1.current.segment =
      (Observed.run [] (fun _ => true)
        [some ⟨1, [charByte 'a']⟩, some view] o).1.current.segment := by
    rw [honce, htwice, hcurrent, hcurrent']
    rfl
  have hall : (Observed.run [] (fun _ => true) [some view] o).1.current.segment =
      view.contents := by
    rw [honce, hcurrent]
    exact List.take_length
  have hgoes := Runs.run_goes (poll_unbroken [] (fun _ => rfl : ∀ n, (fun _ => true) n = true))
  have hmeets {o : Observed} {view : FileView} (hinode : view.inode = o.state.inode)
      (hkeeps : o.current.contents <+: view.contents)
      (hshort : (unterminated newline o.current.segment).length ≤ kLineLimit) :
      ∀ v ∈ some view, o.Appended v ∧ o.Remembers v := by
    rintro _ ⟨⟩
    exact ⟨⟨hinode, hkeeps⟩, fun _ => hshort⟩
  obtain ⟨hsame, hwritten⟩ := run_splitting [] (fun _ => true) (fun _ => true) false false ⟨1, []⟩
    ⟨1, []⟩ [some view] [some ⟨1, [charByte 'a']⟩, some view]
    ⟨hmeets hinode List.nil_prefix (by decide), fun _ => trivial⟩
    ⟨hmeets rfl List.nil_prefix (by decide), fun _ =>
      ⟨hmeets hinode hprefix (by decide), fun _ => trivial⟩⟩
    (hgoes _ _) (hgoes _ _) hsegments
  refine ⟨hsame, ?_⟩
  rw [hall, hlines, List.filterMap_cons_some hfirst] at hwritten
  exact hwritten

theorem outputs_finished (keyword : Bytes) {line : Bytes} (h : newline ∉ line) :
    outputs keyword (line ++ [newline]) = (firstBytes keyword line).toList := by
  rw [outputs_append_cons keyword h, streamLine_eq]
  simp [outputs]

section LongLine

variable (keyword : Bytes) {writer : ℕ → Bool} (hwriter : ∀ n, writer n = true) (inode : ℕ)
  {line : Bytes} (hline : newline ∉ line) (hsize : line.length < kStreamReadSize)
include hwriter hline hsize

/-- A line that arrives with its newline is sent as its first 4096 bytes. -/
theorem run_one_read :
    (run keyword writer [.ofView (some ⟨inode, line ++ [newline]⟩)]
      (start false ⟨inode, 0⟩)).1.written = (firstBytes keyword line).toList := by
  have hlength : (line ++ [newline]).length ≤ kStreamReadSize := by
    rw [List.length_append, List.length_singleton]
    exact hsize
  rw [run_singleton, poll_ofView_unbroken keyword hwriter _ (tidy_start _ _) rfl
    (Nat.zero_le _), readBytes_of_length_le _ hlength]
  exact outputs_finished keyword hline

omit hline in
/-- The read of the newline finishes the line as far as it is remembered. -/
theorem poll_newline {s : StreamState} (hs : s.Tidy) (hinode : s.inode = inode)
    (hoffset : s.offset = line.length) (hwritten : s.written = []) :
    (poll keyword writer (.ofView (some ⟨inode, line ++ [newline]⟩)) s).1.written =
      (firstBytes keyword s.partialLine).toList := by
  have hlength : (line ++ [newline]).length ≤ kStreamReadSize := by
    rw [List.length_append, List.length_singleton]
    exact hsize
  have hread : readBytes ⟨inode, line ++ [newline]⟩ s.offset = [newline] := by
    rw [readBytes_of_length_le _ hlength, hoffset, List.drop_left]
  rw [poll_ofView_unbroken keyword hwriter _ hs hinode.symm (by simp [hoffset]), hread, hwritten]
  exact outputs_finished keyword hs.noNewline

/-- A line whose newline arrives in a second read is sent as what is left of it: its last 4096
bytes. -/
theorem run_two_reads :
    (run keyword writer
      [.ofView (some ⟨inode, line⟩), .ofView (some ⟨inode, line ++ [newline]⟩)]
      (start false ⟨inode, 0⟩)).1.written =
      (firstBytes keyword (line.rtake kLineLimit)).toList := by
  have hquiet : outputs keyword line = [] := by simp [outputs, terminated_of_notMem hline]
  have hfirst : poll keyword writer (.ofView (some ⟨inode, line⟩)) (start false ⟨inode, 0⟩) =
      (⟨inode, line.length, line.rtake kLineLimit, []⟩, false) := by
    rw [poll_ofView_unbroken keyword hwriter _ (tidy_start _ _) rfl (Nat.zero_le _),
      readBytes_of_length_le _ hsize.le]
    simp [start, initialOffset, unterminated_of_notMem hline, hquiet]
  generalize hrest : line.rtake kLineLimit = rest at hfirst
  have hkept : newline ∉ rest := hrest ▸ fun hm => hline (mem_of_mem_rtake hm)
  have hlength : rest.length ≤ kLineLimit := by
    rw [← hrest, length_rtake]
    exact min_le_left _ _
  have htidy : StreamState.Tidy ⟨inode, line.length, rest, []⟩ := ⟨hkept, hlength⟩
  have hsecond := poll_newline keyword hwriter inode hsize htidy rfl rfl rfl
  have hunbroken := congrArg Prod.snd hfirst
  rw [run_cons_of_unbroken hunbroken, run_singleton, hfirst]
  exact hsecond

end LongLine

/-- A line one byte too long: in one read the client gets its first byte, in two its last. -/
theorem run_splitting_long_line {a : Byte} {rest : Bytes} (hrest : rest.length = kLineLimit)
    (hplain : ∀ b ∈ a :: rest, b.toNat < 0x80 ∧ b ≠ carriageReturn ∧ b ≠ newline)
    {writer : ℕ → Bool} (hwriter : ∀ n, writer n = true) (inode : ℕ) :
    (run [] writer [.ofView (some ⟨inode, a :: rest ++ [newline]⟩)]
        (start false ⟨inode, 0⟩)).1.written = [a :: rest.dropLast] ∧
      (run [] writer
        [.ofView (some ⟨inode, a :: rest⟩), .ofView (some ⟨inode, a :: rest ++ [newline]⟩)]
        (start false ⟨inode, 0⟩)).1.written = [rest] := by
  have hnewline : newline ∉ a :: rest := fun hm => (hplain _ hm).2.2 rfl
  have hreturn : carriageReturn ∉ a :: rest := fun hm => (hplain _ hm).2.1 rfl
  have hreturn' : carriageReturn ∉ rest := fun hm => hreturn (List.mem_cons_of_mem _ hm)
  have hascii : ∀ b ∈ a :: rest, b.toNat < 0x80 := fun b hb => (hplain b hb).1
  have hlength : (a :: rest).length = kLineLimit + 1 := by rw [List.length_cons, hrest]
  have hsize : (a :: rest).length < kStreamReadSize := by
    rw [hlength]
    decide
  have hfirst : (a :: rest).take kLineLimit = a :: rest.dropLast := by
    have hdropLast : (a :: rest).dropLast = a :: rest.dropLast :=
      List.dropLast_cons_of_ne_nil (List.ne_nil_of_length_pos (by rw [hrest]; decide))
    rw [← hdropLast, List.dropLast_eq_take, hlength, Nat.add_sub_cancel]
  have hlast : (a :: rest).rtake kLineLimit = rest := by
    rw [List.rtake, hlength, Nat.add_sub_cancel_left, List.drop_one, List.tail_cons]
  constructor
  · rw [run_one_read [] hwriter inode hnewline hsize, firstBytes_of_ascii hreturn hascii, hfirst,
      Option.toList_some]
  · rw [run_two_reads [] hwriter inode hnewline hsize, hlast,
      firstBytes_of_ascii hreturn' fun b hb => hascii b (List.mem_cons_of_mem _ hb),
      List.take_of_length_le hrest.le, Option.toList_some]

theorem run_splitting_counterexample :
    (run [] (fun _ => true) [.ofView (some ⟨1, longLine ++ [newline]⟩)]
        (start false ⟨1, 0⟩)).1.written ≠
      (run [] (fun _ => true)
        [.ofView (some ⟨1, longLine⟩), .ofView (some ⟨1, longLine ++ [newline]⟩)]
        (start false ⟨1, 0⟩)).1.written ∧
    (run [] (fun _ => true)
        [.ofView (some ⟨1, longLine⟩), .ofView (some ⟨1, longLine ++ [newline]⟩)]
        (start false ⟨1, 0⟩)).1.written ≠ [longLine.take 4096] := by
  have hlength : (List.replicate 4096 (charByte 'b')).length = 4096 := List.length_replicate
  obtain ⟨hone, htwo⟩ := run_splitting_long_line hlength longLine_plain
    (fun _ => rfl : ∀ n, (fun _ => true : ℕ → Bool) n = true) 1
  have hne : ∀ s : Bytes, [charByte 'a' :: s] ≠ [List.replicate 4096 (charByte 'b')] := by
    intro s h
    rw [List.singleton_inj, List.replicate_succ] at h
    exact absurd (List.cons.inj h).1 (by decide)
  have htake : longLine.take 4096 =
      charByte 'a' :: (List.replicate 4096 (charByte 'b')).take 4095 := List.take_succ_cons
  rw [longLine, hone, htwo, ← longLine, htake]
  exact ⟨hne _, (hne _).symm⟩

end EdgeScope.StreamLog
