import EdgeScope.Agent.StreamRuns

/-!
# Lines put together again

When no line has more than 4096 bytes, the limit of the unfinished line never costs a
byte of a line that is finished later, and a finished line is never cut. So the client gets
the lines of the bytes consumed as they are in the file.
-/

namespace EdgeScope.StreamLog
open Text

/-- A line as the client should get it: without one trailing `'\r'`, filtered, and repaired. -/
def wholeLine (keyword line : Bytes) : Option Bytes :=
  let line := LogCollector.stripCarriageReturn line
  if keyword <:+: line then some (LogCollector.sanitizeUtf8 line) else none

def ShortLines (contents : Bytes) : Prop :=
  ∀ line ∈ terminated newline contents, line.length ≤ kLineLimit

instance (contents : Bytes) : Decidable (ShortLines contents) :=
  inferInstanceAs (Decidable (∀ line ∈ terminated newline contents, line.length ≤ kLineLimit))

theorem length_stripCarriageReturn_le (line : Bytes) :
    (LogCollector.stripCarriageReturn line).length ≤ line.length := by
  unfold LogCollector.stripCarriageReturn
  split <;> simp

theorem streamLine_of_length_le (keyword : Bytes) {line : Bytes} (h : line.length ≤ kLineLimit) :
    streamLine keyword line = wholeLine keyword line := by
  have hcut : ¬ kLineLimit < (LogCollector.stripCarriageReturn line).length := by
    have := length_stripCarriageReturn_le line
    omega
  simp only [streamLine, wholeLine, if_neg hcut, find_eq_none_iff]
  by_cases hk : keyword <:+: LogCollector.stripCarriageReturn line
  · simp [hk]
  · have hne : keyword ≠ [] := by
      rintro rfl
      exact hk List.nil_infix
    simp [hk, hne]

/-- The line that a read finishes contains the unfinished line before it. -/
theorem Observed.Good.remembers {keyword : Bytes} {o : Observed} (h : o.Good keyword)
    {view : FileView} (hkept : o.current.contents.take o.current.consumed <+: view.contents)
    (hshort : ShortLines (view.contents.drop o.current.start)) : o.Remembers view := by
  intro hnewline
  rw [readBytes, ← h.consumed] at hnewline
  obtain ⟨-, hsegment⟩ := h.placed.advance hkept kStreamReadSize
  obtain ⟨line, hline, hle⟩ :=
    exists_mem_terminated_append (notMem_unterminated o.current.segment) hnewline
  have hmem : line ∈ terminated newline (o.current.segment ++
      (view.contents.drop o.current.consumed).take kStreamReadSize) := by
    rw [terminated_append]
    exact List.mem_append_right _ hline
  rw [← hsegment, Generation.segment, List.drop_take] at hmem
  exact hle.trans (hshort line (mem_terminated_mono (List.take_prefix _ _) hmem))

/-- Behind a position, all lines but the first are lines of the file, and the first is the end of
one. -/
theorem ShortLines.drop {contents : Bytes} (h : ShortLines contents) (start : ℕ) :
    ShortLines (contents.drop start) := by
  intro line hline
  cases hlines : terminated newline (contents.drop start) with
  | nil =>
    rw [hlines] at hline
    cases hline
  | cons first lines =>
    rw [hlines] at hline
    obtain rfl | hlater := List.mem_cons.mp hline
    · obtain ⟨hfirst, more, hdrop⟩ := head?_terminated (d := newline)
        (by rw [hlines]; rfl : line ∈ (terminated newline (contents.drop start)).head?)
      have hjoined : newline ∉ unterminated newline (contents.take start) ++ line := fun hmem =>
        (List.mem_append.mp hmem).elim (notMem_unterminated _) hfirst
      have hmem : unterminated newline (contents.take start) ++ line ∈
          terminated newline contents := by
        rw [← List.take_append_drop start contents, terminated_append, List.take_append_drop,
          hdrop, ← List.append_assoc, terminated_append_cons hjoined]
        exact List.mem_append_right _ List.mem_cons_self
      exact (List.suffix_append _ line).length_le.trans (h _ hmem)
    · exact h line (mem_terminated_of_mem_tail_drop (i := start) (by rwa [hlines]))

/-- A generation that was begun at a line start, and whose lines are short. -/
structure Generation.Whole (g : Generation) : Prop where
  placed : g.Placed
  lineStart : LineStart newline g.contents g.start
  short : ShortLines g.segment

theorem Generation.Whole.delivered_eq {g : Generation} (h : g.Whole) (keyword : Bytes) :
    g.delivered keyword =
      (linesBetween newline g.contents g.start g.consumed).filterMap (wholeLine keyword) := by
  rw [linesBetween_eq h.lineStart h.placed.start_le h.placed.consumed_le]
  exact List.filterMap_congr fun line hline => streamLine_of_length_le keyword (h.short line hline)

theorem Generation.whole_of_shortLines {g : Generation} (hplaced : g.Placed)
    (hstart : LineStart newline g.contents g.start) (hshort : ShortLines g.contents) :
    g.Whole := by
  refine ⟨hplaced, hstart, fun line hline => ?_⟩
  rw [Generation.segment, List.drop_take] at hline
  exact hshort.drop g.start line (mem_terminated_mono (List.take_prefix _ _) hline)

def Observed.Whole (o : Observed) : Prop := ∀ g ∈ o.past ++ [o.current], g.Whole

theorem Observed.whole_begin (startAtEnd : Bool) (view : FileView)
    (hstart : LineStart newline view.contents (initialOffset startAtEnd view.contents.length)) :
    (Observed.begin startAtEnd view).Whole := by
  intro g hg
  have hg' : g = (Observed.begin startAtEnd view).current := by simpa [Observed.begin] using hg
  subst hg'
  refine ⟨(Observed.good_begin [] startAtEnd view).placed, hstart, fun line hline => ?_⟩
  simp [Observed.begin] at hline

theorem Observed.Whole.lineStart {o : Observed} (h : o.Whole) {view : FileView}
    (hkeeps : o.Keeps view) (hsame : ¬ o.Replaced view) :
    LineStart newline view.contents o.current.start := by
  have hcurrent := h o.current (List.mem_append_right _ (List.mem_singleton_self _))
  exact hcurrent.lineStart.of_take hcurrent.placed.start_le (hkeeps.resolve_right hsame)

theorem Observed.Whole.poll {keyword : Bytes} {o : Observed} (h : o.Whole) (writer : ℕ → Bool)
    {view : FileView} (hkeeps : o.Keeps view) (hshort : ShortLines view.contents)
    (htracked : (o.poll keyword writer (some view)).1.Tracked) :
    (o.poll keyword writer (some view)).1.Whole := by
  have hplaced := htracked.placed
  intro g hg
  simp only [Observed.poll] at hg hplaced
  split at hg <;> rename_i hreplaced <;> simp only [hreplaced, if_true, if_false] at hplaced <;>
    simp only [List.mem_append, List.mem_singleton] at hg
  · rcases hg with (hg | rfl) | rfl
    · exact h g (List.mem_append_left _ hg)
    · exact h o.current (List.mem_append_right _ (List.mem_singleton_self _))
    · exact Generation.whole_of_shortLines hplaced (.inl rfl) hshort
  · rcases hg with hg | rfl
    · exact h g (List.mem_append_left _ hg)
    · exact Generation.whole_of_shortLines hplaced (h.lineStart hkeeps hreplaced) hshort

/-- Whatever the schedule of the iterations, the client gets the lines that lie wholly inside
the bytes consumed, generation by generation and in order. If its stream breaks, it has got
the first of them. -/
theorem run_delivers_lines (keyword : Bytes) (writer : ℕ → Bool) (startAtEnd : Bool)
    (view : FileView) (views : List (Option FileView))
    (hstart : LineStart newline view.contents (initialOffset startAtEnd view.contents.length))
    (hviews : Observed.Throughout (fun o view => o.Allows view ∧ ShortLines view.contents)
      keyword writer views (.begin startAtEnd view)) :
    let result := Observed.run keyword writer views (.begin startAtEnd view)
    let served := run keyword writer (views.map .ofView)
      (start startAtEnd ⟨view.inode, view.contents.length⟩)
    let expected := (result.1.past ++ [result.1.current]).flatMap fun g =>
      (linesBetween newline g.contents g.start g.consumed).filterMap (wholeLine keyword)
    (result.1.state, result.2) = served ∧
      (served.2 = false → served.1.written = expected) ∧ served.1.written <+: expected ∧
      result.1.current.consumed = served.1.offset ∧
      ∀ g ∈ (result.1.past ++ [result.1.current]).tail, g.start = 0 := by
  intro result served expected
  have hserved : served = (result.1.state, result.2) :=
    Observed.run_state keyword writer views (.begin startAtEnd view)
  obtain ⟨hdone, ⟨htracked, hpre⟩, hwhole⟩ := hviews.run
    (I := fun o => o.Good keyword ∧ o.Whole)
    (Q := fun o => (o.Tracked ∧ o.state.written <+: o.delivered keyword) ∧ o.Whole)
    (fun o h => ⟨⟨h.1.toTracked, h.1.written ▸ List.prefix_refl _⟩, h.2⟩)
    (fun o v h hv => by
      have hremembers := fun hsame => h.1.remembers (hv.1.keeps.resolve_right hsame)
        (hv.2.drop _)
      obtain ⟨hgood, htracked, hpre⟩ := h.1.poll writer hv.1.keeps hremembers
      have hwhole := h.2.poll writer hv.1.keeps hv.2 htracked
      exact ⟨fun hunbroken => ⟨hgood hunbroken, hwhole⟩, ⟨htracked, hpre⟩, hwhole⟩)
    ⟨Observed.good_begin keyword startAtEnd view, Observed.whole_begin startAtEnd view hstart⟩
  have hexpected : result.1.delivered keyword = expected :=
    List.flatMap_congr fun g hg => (hwhole g hg).delivered_eq keyword
  rw [hserved]
  refine ⟨rfl, ?_, ?_, htracked.consumed, htracked.restarted⟩
  · intro hunbroken
    exact (hdone hunbroken).1.written.trans hexpected
  · exact hexpected ▸ hpre

/-- A line in two reads around a missing file, then a new file. -/
theorem run_delivers_lines_rotated :
    let views : List (Option FileView) :=
      [some ⟨1, ascii "on"⟩, none, some ⟨1, ascii "one\r\ntw"⟩, some ⟨2, ascii "three\n"⟩]
    (run [] (fun _ => true) (views.map .ofView) (start false ⟨1, 0⟩)).1.written =
      [ascii "one", ascii "three"] := by
  intro views
  obtain ⟨-, hwritten, -⟩ := run_delivers_lines [] (fun _ => true) false ⟨1, []⟩ views
    (by decide) (by decide)
  exact (hwritten (by decide)).trans (by decide)

end EdgeScope.StreamLog
