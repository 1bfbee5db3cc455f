import EdgeScope.Agent.StreamChunks

/-!
# Where a stream begins

The first offset is the size of the file, or 64 KiB less. When it lies inside a line, the rest
of that line is sent as if it were a line. Behind it, only whole lines are sent.
-/

namespace EdgeScope.StreamLog
open Text

def IsTextOfLine (keyword contents text : Bytes) : Prop :=
  ∃ line ∈ terminated newline contents, firstBytes keyword line = some text

instance (keyword contents text : Bytes) : Decidable (IsTextOfLine keyword contents text) :=
  inferInstanceAs (Decidable (∃ line ∈ terminated newline contents, _))

/-- The lines that end behind the first `n` bytes have at most 4096 bytes. -/
def ShortLinesFrom (n : ℕ) (contents : Bytes) : Prop :=
  ∀ i < contents.length, n ≤ i → contents[i]? = some newline →
    (unterminated newline (contents.take i)).length ≤ kLineLimit

instance (n : ℕ) (contents : Bytes) : Decidable (ShortLinesFrom n contents) :=
  inferInstanceAs (Decidable (∀ i < contents.length, _))

/-- The offset begins a line, or the rest of its line is not sent, or has the text of a line. -/
def StartIsHarmless (keyword : Bytes) (offset : ℕ) (contents : Bytes) : Prop :=
  LineStart newline contents offset ∨
  ∀ rest ∈ (terminated newline (contents.drop offset)).head?,
    ∀ text ∈ firstBytes keyword rest, IsTextOfLine keyword contents text

instance (keyword : Bytes) (offset : ℕ) (contents : Bytes) :
    Decidable (StartIsHarmless keyword offset contents) :=
  inferInstanceAs (Decidable (_ ∨ ∀ rest ∈ _, ∀ text ∈ firstBytes keyword rest, _))

/-- What is sent of a generation whose start is harmless is the text of its lines. -/
theorem textOfLine_of_mem_delivered {g : Generation} {keyword text : Bytes}
    (hstart : StartIsHarmless keyword g.start g.contents) (h : text ∈ g.delivered keyword) :
    IsTextOfLine keyword g.contents text := by
  obtain ⟨line, hline, htext⟩ := List.mem_filterMap.mp h
  rw [streamLine_eq] at htext
  rw [Generation.segment, List.drop_take] at hline
  have hmem := mem_terminated_mono (List.take_prefix _ _) hline
  obtain hstart | hstart := hstart
  · refine ⟨line, ?_, htext⟩
    rw [← List.take_append_drop g.start g.contents,
      terminated_append_of_unterminated_eq_nil hstart.take]
    exact List.mem_append_right _ hmem
  · cases hlines : terminated newline (g.contents.drop g.start) with
    | nil =>
      rw [hlines] at hmem
      cases hmem
    | cons rest lines =>
      rw [hlines] at hmem hstart
      obtain rfl | hlater := List.mem_cons.mp hmem
      · exact hstart line rfl text htext
      · exact ⟨line, mem_terminated_of_mem_tail_drop (i := g.start) (by rwa [hlines]), htext⟩

/-- The rest of the first line is sent once it has been read. -/
theorem harmless_of_delivered {g : Generation} {keyword : Bytes}
    (hread : ∀ rest ∈ (terminated newline (g.contents.drop g.start)).head?,
      g.start + rest.length + 1 ≤ g.consumed)
    (hall : ∀ text ∈ g.delivered keyword, IsTextOfLine keyword g.contents text) :
    StartIsHarmless keyword g.start g.contents := by
  right
  intro rest hrest text htext
  apply hall
  refine List.mem_filterMap.mpr ⟨rest, ?_, by rw [streamLine_eq]; exact htext⟩
  obtain ⟨hclean, more, hmore⟩ := head?_terminated hrest
  have hlength := hread rest hrest
  obtain ⟨k, hk⟩ : ∃ k, g.consumed - g.start = rest.length + (k + 1) :=
    ⟨g.consumed - g.start - rest.length - 1, by omega⟩
  have htake : (g.contents.drop g.start).take (g.consumed - g.start) =
      rest ++ newline :: more.take k := by
    rw [hmore, hk, List.take_length_add_append, List.take_succ_cons]
  rw [Generation.segment, List.drop_take, htake, terminated_append_cons hclean]
  exact List.mem_cons_self

/-- The lines that end behind the first `n` bytes, as they are cut at another position. -/
theorem ShortLinesFrom.length_le {n position : ℕ} {contents p s : Bytes}
    (h : ShortLinesFrom n contents) (hdrop : contents.drop position = p ++ newline :: s)
    (hp : newline ∉ p) (hn : n ≤ position + p.length) :
    (unterminated newline (contents.take position)).length + p.length ≤ kLineLimit := by
  have hget : contents[position + p.length]? = some newline := by
    rw [← List.getElem?_drop, hdrop]
    simp
  have hlt := (List.getElem?_eq_some_iff.mp hget).1
  have htake : contents.take (position + p.length) = contents.take position ++ p := by
    rw [List.take_add, hdrop, List.take_left]
  have hshort := h _ hlt hn hget
  rwa [htake, unterminated_append_of_notMem _ hp, List.length_append] at hshort

/-- The file has grown, by short lines. -/
def Observed.GrowsFrom (n : ℕ) (o : Observed) (view : FileView) : Prop :=
  o.Appended view ∧ ShortLinesFrom n view.contents

instance (n : ℕ) (o : Observed) (view : FileView) : Decidable (o.GrowsFrom n view) :=
  inferInstanceAs (Decidable (_ ∧ _))

/-- What holds between the iterations of a stream that was begun at `offset`, `view` being the
file at that time. -/
structure Observed.Following (keyword : Bytes) (offset : ℕ) (view : FileView) (o : Observed) :
    Prop where
  good : o.Good keyword
  past : o.past = []
  start : o.current.start = offset
  grown : view.contents <+: o.current.contents
  consumed : o.current.consumed = offset ∨ view.contents.length ≤ o.current.consumed

theorem Observed.following_begin (keyword : Bytes) (startAtEnd : Bool) (view : FileView) :
    (Observed.begin startAtEnd view).Following keyword
      (initialOffset startAtEnd view.contents.length) view :=
  ⟨Observed.good_begin keyword startAtEnd view, rfl, rfl, List.prefix_rfl, .inl rfl⟩

theorem size_le_initialOffset_add (startAtEnd : Bool) (size : ℕ) :
    size ≤ initialOffset startAtEnd size + kStreamReadSize := by
  unfold initialOffset
  split_ifs <;> omega

namespace Observed.Following

variable {keyword : Bytes} {offset : ℕ} {first : FileView} {o : Observed} {view : FileView}

/-- The first read has nothing to remember, and a later one finishes a short line. -/
theorem remembers (h : o.Following keyword offset first)
    (hview : o.GrowsFrom first.contents.length view) : o.Remembers view := by
  intro hnewline
  obtain hnothing | hpast := h.consumed
  · have hsegment : o.current.segment = [] := by
      rw [Generation.segment, h.start, hnothing]
      simp
    simp [hsegment]
  · rw [readBytes, ← h.good.consumed] at hnewline
    obtain ⟨p, s, hsplit, hp⟩ := List.eq_append_cons_of_mem (List.mem_of_mem_take hnewline)
    have hshort := hview.2.length_le hsplit hp (by omega)
    have hkept : o.current.contents.take o.current.consumed =
        view.contents.take o.current.consumed := by
      obtain ⟨more, hmore⟩ := hview.1.2
      rw [← hmore, List.take_append_of_le_length h.good.placed.consumed_le]
    have hle := length_unterminated_le_append (d := newline)
      ((view.contents.take o.current.consumed).take o.current.start) o.current.segment
    rw [Generation.segment, hkept, List.take_append_drop] at hle
    rw [Generation.segment, hkept]
    omega

/-- Step: one iteration that sees the file grown. -/
theorem poll (h : o.Following keyword offset first) (writer : ℕ → Bool)
    (hview : o.GrowsFrom first.contents.length view)
    (hsize : first.contents.length ≤ offset + kStreamReadSize) :
    let result := o.poll keyword writer (some view)
    (result.2 = false → result.1.Following keyword offset first) ∧
      result.1.past = [] ∧ result.1.current.start = offset ∧
      result.1.current.contents = view.contents ∧
      (∀ rest ∈ (terminated newline (view.contents.drop offset)).head?,
        offset + rest.length + 1 ≤ result.1.current.consumed) ∧
      result.1.state.written <+: result.1.delivered keyword := by
  have hsame := hview.1.not_replaced h.good
  have hkeeps := (List.take_prefix o.current.consumed _).trans hview.1.2
  obtain ⟨hgood, htracked, hwritten⟩ :=
    h.good.read writer hsame hkeeps (h.remembers hview)
  have hstate : o.state = resetIfReplaced ⟨view.inode, view.contents.length⟩ o.state :=
    (if_neg hsame).symm
  obtain ⟨-, hoffset, -⟩ := poll_ofView_some keyword writer view hstate rfl h.good.tidy
  have hresult : o.poll keyword writer (some view) =
      (⟨(StreamLog.poll keyword writer (.ofView (some view)) o.state).1, o.past,
        ⟨view.contents, o.current.start,
          (StreamLog.poll keyword writer (.ofView (some view)) o.state).1.offset⟩⟩,
        (StreamLog.poll keyword writer (.ofView (some view)) o.state).2) := by
    rw [Observed.poll]
    exact if_neg hsame
  have hgrown := h.grown.trans hview.1.2
  have hstart := h.start
  have hplaced := h.good.placed.start_le
  have hconsumed := h.good.consumed
  generalize StreamLog.poll keyword writer (.ofView (some view)) o.state = result at *
  rw [hresult] at hgood htracked hwritten ⊢
  rw [readBytes, List.length_take, List.length_drop] at hoffset
  have hlength := hgrown.length_le
  refine ⟨fun hunbroken => ⟨hgood hunbroken, h.past, hstart, hgrown, .inr ?_⟩, h.past, hstart,
    rfl, ?_, hwritten⟩
  · simp only
    have := h.consumed
    omega
  · intro rest hrest
    obtain ⟨hclean, more, hmore⟩ := head?_terminated hrest
    have hend : offset + rest.length + 1 ≤ view.contents.length := by
      have hdrop := congrArg List.length hmore
      rw [List.length_drop, List.length_append, List.length_cons] at hdrop
      omega
    simp only
    -- The line ended before the stream began, or it is short.
    obtain hinside | hbeyond := Nat.lt_or_ge (offset + rest.length) first.contents.length
    · have := h.consumed
      omega
    · have hshort := hview.2.length_le hmore hclean hbeyond
      unfold kLineLimit at hshort
      unfold kStreamReadSize at hoffset
      omega

end Observed.Following

/-- Every line sent so far is the text of a finished line of the file. -/
def Observed.SendsLines (keyword : Bytes) (o : Observed) : Prop :=
  ∀ text ∈ o.state.written, IsTextOfLine keyword o.current.contents text

instance (keyword : Bytes) (o : Observed) : Decidable (o.SendsLines keyword) :=
  inferInstanceAs (Decidable (∀ text ∈ o.state.written, _))

theorem Observed.delivered_of_past {keyword : Bytes} {o : Observed} (h : o.past = []) :
    o.delivered keyword = o.current.delivered keyword := by
  rw [Observed.delivered, h, List.nil_append, List.flatMap_singleton]

section Runs

variable {keyword : Bytes} {writer : ℕ → Bool} {offset : ℕ} {first : FileView} {o : Observed}
  {views : List (Option FileView)} (h : o.Following keyword offset first)
  (hsize : first.contents.length ≤ offset + kStreamReadSize)
  (hviews : Observed.Throughout (fun o view => o.GrowsFrom first.contents.length view) keyword
    writer views o)

include h hsize hviews

/-- Run: the iterations over a file that only grows. -/
theorem Observed.Following.run (hunbroken : (Observed.run keyword writer views o).2 = false) :
    (Observed.run keyword writer views o).1.Following keyword offset first :=
  (hviews.run (I := fun o => o.Following keyword offset first) (Q := fun _ => True)
    (fun _ _ => trivial) (fun _ _ ho hview => ⟨(ho.poll writer hview hsize).1, trivial⟩) h).1
    hunbroken

/-- Where no file that is seen makes the start do harm, only lines are sent. -/
theorem Observed.Following.run_sendsLines (hlines : o.SendsLines keyword)
    (hharmless : ∀ input ∈ views, ∀ view ∈ input, StartIsHarmless keyword offset view.contents) :
    (Observed.run keyword writer views o).1.SendsLines keyword := by
  have hsteps := Runs.Throughout.and hviews hharmless
  refine (Runs.Throughout.run (I := fun o => o.Following keyword offset first ∧
    o.SendsLines keyword) (Q := fun o => o.SendsLines keyword) (fun _ ho => ho.2) ?_ hsteps
    ⟨h, hlines⟩).2
  rintro (_ | view) o ⟨ho, hsends⟩ ⟨hview, hharmless⟩
  · exact ⟨fun _ => ⟨ho, hsends⟩, hsends⟩
  · obtain ⟨hfollows, hpast, hstart, hcontents, -, hwritten⟩ :=
      ho.poll writer (hview view rfl) hsize
    have hnext : (o.poll keyword writer (some view)).1.SendsLines keyword := by
      intro text htext
      have hdelivered := hwritten.subset htext
      rw [Observed.delivered_of_past hpast] at hdelivered
      refine textOfLine_of_mem_delivered ?_ hdelivered
      rw [hstart, hcontents]
      exact hharmless view rfl
    exact ⟨fun hunbroken => ⟨hfollows hunbroken, hnext⟩, hnext⟩

/-- A file that makes the start do harm is seen by an iteration that sends what is no line. -/
theorem Observed.Following.harmless_of_sendsLines (hwriter : ∀ n, writer n = true)
    (hsends : ∀ n, (Observed.run keyword writer (views.take n) o).1.SendsLines keyword)
    {view : FileView} (hview : some view ∈ views) :
    StartIsHarmless keyword offset view.contents := by
  obtain ⟨before, after, rfl⟩ := List.append_of_mem hview
  have hpoll (input : Option FileView) (o : Observed) :
      (o.poll keyword writer input).2 = false := by
    have hstate := o.poll_state keyword writer input
    rw [Prod.ext_iff] at hstate
    exact hstate.2.symm.trans (poll_unbroken keyword hwriter _ _)
  have hbefore : (Observed.run keyword writer before o).2 = false := Runs.run_goes hpoll before o
  have hfirst := Runs.Throughout.take hviews before.length
  rw [List.take_left] at hfirst
  have hprevious : (Observed.run keyword writer before o).1.Following keyword offset first :=
    h.run hsize hfirst hbefore
  obtain ⟨hfollows, hpast, hstart, hcontents, hread, -⟩ := hprevious.poll writer
    ((Runs.Throughout.of_append hviews hbefore).1 view rfl) hsize
  have hsent := hsends (before.length + 1)
  have htake : (before ++ some view :: after).take (before.length + 1) = before ++ [some view] := by
    rw [List.take_length_add_append]
    rfl
  have hrun : Observed.run keyword writer (before ++ [some view]) o =
      (Observed.run keyword writer before o).1.poll keyword writer (some view) :=
    (Runs.run_append hbefore _).trans (Runs.run_singleton _ _ _)
  rw [htake, hrun] at hsent
  rw [← hstart, ← hcontents] at hread ⊢
  refine harmless_of_delivered hread fun text htext => hsent text ?_
  rw [(hfollows (hpoll _ _)).good.written, Observed.delivered_of_past hpast]
  exact htext

end Runs

/-- Over a file that only grows, by lines of at most 4096 bytes, every line sent is one of the
file if the start does no harm in any file an iteration sees, and otherwise one is sent that is
not, unless the stream breaks before. -/
theorem stream_sends_lines_iff (keyword : Bytes) (writer : ℕ → Bool) (startAtEnd : Bool)
    (view : FileView) (views : List (Option FileView))
    (hviews : Observed.Throughout (fun o v => o.GrowsFrom view.contents.length v) keyword writer
      views (.begin startAtEnd view)) :
    let offset := initialOffset startAtEnd view.contents.length
    let after (n : ℕ) := Observed.run keyword writer (views.take n) (.begin startAtEnd view)
    (∀ n, (after n).map Observed.state id = run keyword writer ((views.take n).map .ofView)
      (start startAtEnd ⟨view.inode, view.contents.length⟩)) ∧
    ((∀ input ∈ views, ∀ v ∈ input, StartIsHarmless keyword offset v.contents) →
      ∀ n, (after n).1.SendsLines keyword) ∧
    ((∀ n, writer n = true) → (∀ n, (after n).1.SendsLines keyword) →
      ∀ input ∈ views, ∀ v ∈ input, StartIsHarmless keyword offset v.contents) := by
  intro offset after
  have hbegin := Observed.following_begin keyword startAtEnd view
  have hsize := size_le_initialOffset_add startAtEnd view.contents.length
  refine ⟨fun n => ?_, fun hharmless n => ?_, fun hwriter hsends input hinput v hv => ?_⟩
  · exact (Observed.run_state keyword writer (views.take n) (.begin startAtEnd view)).symm
  · refine hbegin.run_sendsLines hsize (Runs.Throughout.take hviews n) ?_
      fun input hinput => hharmless input (List.mem_of_mem_take hinput)
    intro text htext
    cases htext
  · obtain rfl : input = some v := hv
    exact hbegin.harmless_of_sendsLines hsize hviews hwriter hsends hinput

/-- A stream that begins behind the one line of the file. -/
theorem stream_sends_lines_at_end :
    let views : List (Option FileView) := [some ⟨1, ascii "one\ntw"⟩, some ⟨1, ascii "one\ntwo\n"⟩]
    ∀ n, (Observed.run [] (fun _ => true) (views.take n)
      (.begin true ⟨1, ascii "one\n"⟩)).1.SendsLines [] := by
  intro views
  obtain ⟨-, hlines, -⟩ := stream_sends_lines_iff [] (fun _ => true) true ⟨1, ascii "one\n"⟩ views
    (by decide)
  exact hlines (by decide)

/-- A stream that begins inside a line, which is then finished: its last byte is sent. -/
theorem stream_sends_cut_line :
    let o := Observed.begin true ⟨1, ascii "tw"⟩
    let views : List (Option FileView) := [some ⟨1, ascii "two\n"⟩]
    Observed.Throughout (fun o v => o.GrowsFrom 2 v) [] (fun _ => true) views o ∧
      (Observed.run [] (fun _ => true) views o).1.state.written = [ascii "o"] ∧
      ¬ (Observed.run [] (fun _ => true) views o).1.SendsLines [] := by
  decide

end EdgeScope.StreamLog
