import EdgeScope.Agent.StreamLog

/-!
# One iteration of `StreamLog` and the file

An iteration that sees one state of the file consumes a segment of it. A generation is one file
with the segment consumed of it so far; reading on appends to the segment, and the
lines of the longer segment are what the remembered rest and the new bytes yield.
-/

namespace EdgeScope.StreamLog
open Text

structure FileView where
  inode : ℕ
  contents : Bytes
  deriving DecidableEq

/-- An iteration whose `stat`, open and read see one state of the file, or no file. -/
def Poll.ofView : Option FileView → Poll
  | none => ⟨none, .error .enoent⟩
  | some view => ⟨some ⟨view.inode, view.contents.length⟩, .ok (.ofContents view.contents)⟩

/-- The part of one file that has been consumed. -/
structure Generation where
  contents : Bytes
  start : ℕ
  consumed : ℕ
  deriving DecidableEq

def Generation.segment (g : Generation) : Bytes := (g.contents.take g.consumed).drop g.start

/-- What a loop iteration keeps as its unfinished line. -/
structure StreamState.Tidy (s : StreamState) : Prop where
  noNewline : newline ∉ s.partialLine
  length_le : s.partialLine.length ≤ kLineLimit

theorem StreamState.Tidy.resetIfReplaced {s : StreamState} (h : s.Tidy) (status : FileStatus) :
    (StreamLog.resetIfReplaced status s).Tidy := by
  unfold StreamLog.resetIfReplaced
  split
  · exact ⟨by simp, by simp⟩
  · exact h

def readBytes (view : FileView) (offset : ℕ) : Bytes :=
  (view.contents.drop offset).take kStreamReadSize

theorem poll_ofView_of_le (keyword : Bytes) (writer : ℕ → Bool) {view : FileView}
    {s : StreamState}
    (h : view.contents.length ≤ (resetIfReplaced ⟨view.inode, view.contents.length⟩ s).offset) :
    poll keyword writer (.ofView (some view)) s =
      (resetIfReplaced ⟨view.inode, view.contents.length⟩ s, false) := by
  simp only [poll, Poll.ofView]
  rw [if_neg (not_lt.mpr h)]

theorem poll_ofView_of_lt (keyword : Bytes) (writer : ℕ → Bool) {view : FileView}
    {s s₀ : StreamState} {bytes : Bytes}
    (hs : s₀ = resetIfReplaced ⟨view.inode, view.contents.length⟩ s)
    (hbytes : bytes = readBytes view s₀.offset) (h : s₀.offset < view.contents.length) :
    poll keyword writer (.ofView (some view)) s =
      let partialLine := s₀.partialLine ++ bytes
      let drained := drainLines keyword writer partialLine.length partialLine s₀.written
      (⟨s₀.inode, s₀.offset + bytes.length,
        if drained.broken then drained.partialLine else drained.partialLine.rtake kLineLimit,
        drained.written⟩, drained.broken) := by
  subst hs hbytes
  simp only [poll, Poll.ofView]
  rw [if_pos h]
  simp only [trimPartial_eq]
  rfl

@[simp] theorem resetIfReplaced_written (status : FileStatus) (s : StreamState) :
    (resetIfReplaced status s).written = s.written := by
  unfold resetIfReplaced
  split <;> rfl

/-- What one iteration can do: reset or not, then consume the bytes read. -/
theorem poll_ofView_some (keyword : Bytes) (writer : ℕ → Bool) (view : FileView)
    {s s₀ : StreamState} {bytes : Bytes}
    (hs : s₀ = resetIfReplaced ⟨view.inode, view.contents.length⟩ s)
    (hbytes : bytes = readBytes view s₀.offset) (h : s.Tidy) :
    let result := poll keyword writer (.ofView (some view)) s
    result.1.inode = s₀.inode ∧ result.1.offset = s₀.offset + bytes.length ∧
      (result.2 = false →
        result.1.partialLine = (unterminated newline (s₀.partialLine ++ bytes)).rtake kLineLimit ∧
        result.1.written = s.written ++ outputs keyword (s₀.partialLine ++ bytes)) ∧
      result.1.written <+: s.written ++ outputs keyword (s₀.partialLine ++ bytes) := by
  have htidy : s₀.Tidy := hs ▸ h.resetIfReplaced _
  have hwritten : s₀.written = s.written := hs ▸ resetIfReplaced_written _ s
  rcases lt_or_ge s₀.offset view.contents.length with hsize | hsize
  · have hresult := poll_ofView_of_lt keyword writer hs hbytes hsize
    obtain ⟨hdone, hpre⟩ := drainLines_spec keyword writer s.written
      (le_refl (s₀.partialLine ++ bytes).length)
    rw [hwritten] at hresult
    rw [hresult]
    refine ⟨rfl, rfl, ?_, hpre⟩
    intro hbroken
    obtain ⟨hcarry, hlines⟩ := hdone hbroken
    simp only at hbroken
    refine ⟨?_, hlines⟩
    simp only [hbroken, hcarry, Bool.false_eq_true, if_false]
  · have hnone : bytes = [] := by
      rw [hbytes, readBytes, List.drop_eq_nil_of_le hsize, List.take_nil]
    have hresult : poll keyword writer (.ofView (some view)) s = (s₀, false) := by
      rw [hs] at hsize ⊢
      exact poll_ofView_of_le keyword writer hsize
    have hquiet : outputs keyword s₀.partialLine = [] := by
      simp [outputs, terminated_of_notMem htidy.noNewline]
    rw [hresult, hnone, List.append_nil, hquiet, List.append_nil,
      unterminated_of_notMem htidy.noNewline, rtake_of_length_le htidy.length_le]
    simp [hwritten]

/-- A writer that holds, and a file that has at least the bytes consumed. -/
theorem poll_ofView_unbroken (keyword : Bytes) {writer : ℕ → Bool} (hwriter : ∀ n, writer n = true)
    (view : FileView) {s : StreamState} (h : s.Tidy) (hinode : view.inode = s.inode)
    (hoffset : s.offset ≤ view.contents.length) :
    let bytes := readBytes view s.offset
    poll keyword writer (.ofView (some view)) s =
      (⟨s.inode, s.offset + bytes.length,
        (unterminated newline (s.partialLine ++ bytes)).rtake kLineLimit,
        s.written ++ outputs keyword (s.partialLine ++ bytes)⟩, false) := by
  have hsame : ¬ (view.inode ≠ s.inode ∨ view.contents.length < s.offset) := by
    simp [hinode, hoffset]
  have hkeep : resetIfReplaced ⟨view.inode, view.contents.length⟩ s = s := if_neg hsame
  obtain ⟨hinode', hoffset', hdone, -⟩ :=
    poll_ofView_some keyword writer view hkeep.symm rfl h
  have hunbroken := poll_unbroken keyword hwriter (.ofView (some view)) s
  obtain ⟨hcarry, hwritten⟩ := hdone hunbroken
  generalize poll keyword writer (.ofView (some view)) s = result at *
  obtain ⟨⟨inode, offset, partialLine, written⟩, broken⟩ := result
  simp only at hinode' hoffset' hcarry hwritten hunbroken
  rw [hinode', hoffset', hcarry, hwritten, hunbroken]

def Generation.delivered (keyword : Bytes) (g : Generation) : List Bytes :=
  outputs keyword g.segment

structure Generation.Placed (g : Generation) : Prop where
  start_le : g.start ≤ g.consumed
  consumed_le : g.consumed ≤ g.contents.length

theorem Generation.placed_begin {contents : Bytes} {offset : ℕ} (hle : offset ≤ contents.length) :
    Generation.Placed ⟨contents, offset, offset⟩ :=
  ⟨le_rfl, hle⟩

@[simp] theorem Generation.segment_begin (contents : Bytes) (offset : ℕ) :
    Generation.segment ⟨contents, offset, offset⟩ = [] := by
  simp [Generation.segment]

theorem Generation.Placed.advance {g : Generation} (h : g.Placed) {contents : Bytes}
    (hkept : g.contents.take g.consumed <+: contents) (n : ℕ) :
    let bytes := (contents.drop g.consumed).take n
    let g' : Generation := ⟨contents, g.start, g.consumed + bytes.length⟩
    g'.Placed ∧ g'.segment = g.segment ++ bytes := by
  intro bytes g'
  have hlength : (g.contents.take g.consumed).length = g.consumed := by
    rw [List.length_take, min_eq_left h.consumed_le]
  have hle : g.consumed ≤ contents.length := hlength ▸ hkept.length_le
  have hbytes : bytes.length ≤ contents.length - g.consumed := by
    simp only [bytes, List.length_take, List.length_drop]
    omega
  have hstart := h.start_le
  refine ⟨⟨?_, ?_⟩, ?_⟩
  · simp only [g']
    omega
  · simp only [g']
    omega
  · have hconsumed : contents.take g.consumed = g.contents.take g.consumed := by
      rw [List.prefix_iff_eq_take.mp hkept, hlength]
    have htake : contents.take (g.consumed + bytes.length) =
        g.contents.take g.consumed ++ bytes := by
      rw [List.take_add, hconsumed, ← List.prefix_iff_eq_take.mp (List.take_prefix n _)]
    have hdrop : g.start ≤ (g.contents.take g.consumed).length := hlength.symm ▸ hstart
    simp only [Generation.segment, g', htake, List.drop_append_of_le_length hdrop]

/-- The unfinished line of a generation as far as the loop remembers it. -/
def Generation.remembered (g : Generation) : Bytes :=
  (unterminated newline g.segment).rtake kLineLimit

/-- Reading on, when no forgotten byte belongs to a line that the read finishes: what the
remembered rest and the new bytes yield is what the generation yields more. -/
theorem Generation.Placed.consume {g : Generation} (h : g.Placed) (keyword : Bytes)
    {contents : Bytes} (hkept : g.contents.take g.consumed <+: contents) (n : ℕ)
    (hremembered : newline ∈ (contents.drop g.consumed).take n →
      (unterminated newline g.segment).length ≤ kLineLimit) :
    let bytes := (contents.drop g.consumed).take n
    let g' : Generation := ⟨contents, g.start, g.consumed + bytes.length⟩
    g'.delivered keyword = g.delivered keyword ++ outputs keyword (g.remembered ++ bytes) ∧
      (unterminated newline (g.remembered ++ bytes)).rtake kLineLimit = g'.remembered := by
  intro bytes g'
  obtain ⟨-, hsegment⟩ := h.advance hkept n
  have hclean := notMem_unterminated (d := newline) g.segment
  constructor
  · rw [delivered, delivered, outputs, outputs, outputs, hsegment, terminated_append g.segment,
      List.filterMap_append, remembered, terminated_rtake_append hclean hremembered]
  · rw [remembered, remembered, hsegment, unterminated_append g.segment,
      unterminated_rtake_append hclean hremembered]

end EdgeScope.StreamLog
