import EdgeScope.Agent.StreamReassembly

/-!
# Rotation and truncation

A program appends complete lines to the log, moves a new file to its path, or cuts the file
off in place and goes on, at any moment between two iterations. The stream loses nothing as
long as what is taken away has been read, and as long as the next iteration can see that the
file has been replaced. What a truncation leaves in the file is sent once more.
-/

namespace EdgeScope.StreamLog
open Text

/-- The file since the last iteration: the same one, one that has been put in its place or cut
off, or such a one with lines appended since. -/
inductive Standing
  | followed
  | replaced
  | regrown
  deriving DecidableEq

/-- The loop and the log. The stream has to send the file from byte `start` on; `due` are the
lines it has to send altogether, without those that a truncation has just left in the file. -/
structure LogWorld where
  loop : Observed
  file : FileView
  standing : Standing
  start : ℕ
  due : List Bytes
  deriving DecidableEq

inductive LogEvent
  | append (line : Bytes)
  | rotate (inode : ℕ)
  | truncate (size : ℕ)
  | poll
  deriving DecidableEq

def LogWorld.begin (startAtEnd : Bool) (view : FileView) : LogWorld :=
  let start := initialOffset startAtEnd view.contents.length
  ⟨.begin startAtEnd view, view, .followed, start, terminated newline (view.contents.drop start)⟩

def LogWorld.text (w : LogWorld) : Bytes := w.file.contents.drop w.start

/-- The lines a truncation has left. They are due again, unless the log is replaced once more
before anything is appended to it or read. -/
def LogWorld.left (w : LogWorld) : List Bytes :=
  if w.standing = .replaced then terminated newline w.file.contents else []

def LogWorld.replace (view : FileView) (w : LogWorld) : LogWorld :=
  { w with file := view, standing := .replaced, start := 0 }

def LogWorld.step (keyword : Bytes) (writer : ℕ → Bool) : LogEvent → LogWorld → LogWorld × Bool
  | .append line, w =>
    ({ w with
      file := ⟨w.file.inode, w.file.contents ++ (line ++ [newline])⟩
      standing := if w.standing = .followed then .followed else .regrown
      -- the line completes the one the file ends in
      due := w.due ++ w.left ++ [unterminated newline w.text ++ line] }, false)
  | .rotate inode, w => (w.replace ⟨inode, []⟩, false)
  | .truncate size, w => (w.replace ⟨w.file.inode, w.file.contents.take size⟩, false)
  | .poll, w =>
    let result := w.loop.poll keyword writer (some w.file)
    ({ w with loop := result.1, standing := .followed, due := w.due ++ w.left }, result.2)

/-- An append completes a line that is not over-long, a new file has another inode, and a
truncation makes the file smaller. -/
def LogEvent.Legal (w : LogWorld) : LogEvent → Prop
  | .append line => newline ∉ line ∧
      (unterminated newline w.file.contents ++ line).length ≤ kLineLimit
  | .rotate inode => inode ≠ w.file.inode
  | .truncate size => size < w.file.contents.length
  | .poll => True

def LogWorld.toRead (w : LogWorld) : Bytes :=
  if w.standing = .followed then w.file.contents.drop w.loop.state.offset else w.file.contents

/-- No byte of the log has escaped the iterations so far. -/
def LogWorld.Read (w : LogWorld) : Prop :=
  match w.standing with
  | .followed => w.toRead = []
  | .replaced => True
  | .regrown => False

/-- What is taken away has been read, and an iteration after a replacement can see it, or has
nothing to forget. -/
def LogEvent.Safe (w : LogWorld) : LogEvent → Prop
  | .append _ => True
  | .rotate _ => w.Read
  | .truncate _ => w.Read
  | .poll => w.standing ≠ .followed → w.loop.Replaced w.file ∨ w.loop.state.offset = 0

instance (w : LogWorld) (event : LogEvent) : Decidable (event.Legal w) := by
  cases event <;> simp only [LogEvent.Legal] <;> infer_instance

instance (w : LogWorld) : Decidable w.Read :=
  match h : w.standing with
  | .followed => decidable_of_iff (w.toRead = []) (by simp [LogWorld.Read, h])
  | .replaced => isTrue (by simp [LogWorld.Read, h])
  | .regrown => isFalse (by simp [LogWorld.Read, h])

instance (w : LogWorld) (event : LogEvent) : Decidable (event.Safe w) := by
  cases event <;> simp only [LogEvent.Safe] <;> infer_instance

theorem terminated_append_line (rest : Bytes) {line : Bytes} (hline : newline ∉ line) :
    terminated newline (rest ++ (line ++ [newline])) =
      terminated newline rest ++ [unterminated newline rest ++ line] := by
  have hjoined : newline ∉ unterminated newline rest ++ line := fun hmem =>
    (List.mem_append.mp hmem).elim (notMem_unterminated rest) hline
  rw [terminated_append, ← List.append_assoc, terminated_append_cons hjoined, terminated_nil]

theorem ShortLines.append_line {rest line : Bytes} (h : ShortLines rest) (hline : newline ∉ line)
    (hlength : (unterminated newline rest ++ line).length ≤ kLineLimit) :
    ShortLines (rest ++ (line ++ [newline])) := by
  intro piece hpiece
  rw [terminated_append_line rest hline, List.mem_append, List.mem_singleton] at hpiece
  obtain hpiece | rfl := hpiece
  · exact h piece hpiece
  · exact hlength

theorem ShortLines.take {contents : Bytes} (h : ShortLines contents) (size : ℕ) :
    ShortLines (contents.take size) :=
  fun line hline => h line (mem_terminated_mono (List.take_prefix size contents) hline)

def LogWorld.before (w : LogWorld) : List Generation :=
  if w.standing = .followed then w.loop.past else w.loop.past ++ [w.loop.current]

/-- Every line that is due is in a generation the loop is done with or in the file. -/
structure LogWorld.Sound (keyword : Bytes) (w : LogWorld) : Prop where
  tracked : w.loop.Tracked
  watching : w.standing = .followed → w.file.inode = w.loop.state.inode ∧
    w.start = w.loop.current.start ∧
    w.loop.current.contents.take w.loop.current.consumed <+: w.file.contents
  anew : w.standing ≠ .followed → w.start = 0
  short : ShortLines w.file.contents
  shortDue : ∀ line ∈ w.due, line.length ≤ kLineLimit
  accounted : (w.due ++ w.left).filterMap (streamLine keyword) =
    w.before.flatMap (·.delivered keyword) ++ outputs keyword w.text

theorem LogWorld.Sound.segment {keyword : Bytes} {w : LogWorld} (h : w.Sound keyword)
    (hsame : w.standing = .followed) :
    w.start ≤ w.file.contents.length ∧ w.loop.state.offset ≤ w.file.contents.length ∧
      w.loop.current.segment = w.text.take (w.loop.state.offset - w.start) := by
  obtain ⟨-, hbegun, hkept⟩ := h.watching hsame
  have hstart := h.tracked.placed.start_le
  have hconsumed := h.tracked.placed.consumed_le
  have hoffset := h.tracked.consumed
  have hlength : (w.loop.current.contents.take w.loop.current.consumed).length =
      w.loop.current.consumed := by
    rw [List.length_take, min_eq_left hconsumed]
  have hle := hlength ▸ hkept.length_le
  refine ⟨by omega, by omega, ?_⟩
  have htake : w.loop.current.contents.take w.loop.current.consumed =
      w.file.contents.take w.loop.current.consumed := by
    rw [List.prefix_iff_eq_take.mp hkept, hlength]
  rw [Generation.segment, htake, List.drop_take, text, hbegun, hoffset]

theorem LogWorld.Sound.due_eq {keyword : Bytes} {w : LogWorld} (h : w.Sound keyword)
    (hsame : w.standing = .followed) : w.due.filterMap (streamLine keyword) =
      w.loop.past.flatMap (·.delivered keyword) ++ outputs keyword w.text := by
  have haccounted := h.accounted
  simpa only [left, before, hsame, reduceCtorEq, if_true, if_false, List.append_nil]
    using haccounted

/-- What a truncation has left is the whole file, so the other lines have been delivered. -/
theorem LogWorld.Sound.due_eq_of_replaced {keyword : Bytes} {w : LogWorld} (h : w.Sound keyword)
    (hreplaced : w.standing = .replaced) :
    w.due.filterMap (streamLine keyword) = w.loop.delivered keyword := by
  have haccounted := h.accounted
  have htext : w.text = w.file.contents := by
    rw [text, h.anew (by simp [hreplaced]), List.drop_zero]
  simp only [left, before, hreplaced, reduceCtorEq, if_true, if_false, List.filterMap_append,
    htext, outputs] at haccounted
  exact List.append_cancel_right haccounted

theorem LogWorld.Sound.delivered_eq {keyword : Bytes} {w : LogWorld} (h : w.Sound keyword)
    (hread : w.Read ∨ w.toRead = []) :
    w.loop.delivered keyword = w.due.filterMap (streamLine keyword) := by
  cases hstanding : w.standing with
  | followed =>
    have hlength : w.file.contents.length ≤ w.loop.state.offset := by
      simpa [Read, toRead, hstanding] using hread
    obtain ⟨-, -, hsegment⟩ := h.segment hstanding
    have hall : w.loop.current.segment = w.text := by
      rw [hsegment, List.take_of_length_le]
      rw [text, List.length_drop]
      omega
    rw [h.due_eq hstanding, Observed.delivered, List.flatMap_append, List.flatMap_singleton,
      Generation.delivered, hall]
  | replaced => exact (h.due_eq_of_replaced hstanding).symm
  | regrown =>
    have hempty : w.file.contents = [] := by
      simpa [Read, toRead, hstanding] using hread
    have haccounted := h.accounted
    simp only [left, before, text, hstanding, hempty, reduceCtorEq, if_false, List.drop_nil,
      List.append_nil] at haccounted
    rw [haccounted, Observed.delivered]
    exact (List.append_nil _).symm

theorem LogWorld.Sound.append {keyword : Bytes} {writer : ℕ → Bool} {w : LogWorld}
    (h : w.Sound keyword) {line : Bytes} (hline : newline ∉ line)
    (hlength : (unterminated newline w.file.contents ++ line).length ≤ kLineLimit) :
    (LogWorld.step keyword writer (.append line) w).1.Sound keyword := by
  have hstart : w.start ≤ w.file.contents.length := by
    by_cases hsame : w.standing = .followed
    · exact (h.segment hsame).1
    · rw [h.anew hsame]
      exact Nat.zero_le _
  have htext : (LogWorld.step keyword writer (.append line) w).1.text =
      w.text ++ (line ++ [newline]) := List.drop_append_of_le_length hstart
  have hleft : (LogWorld.step keyword writer (.append line) w).1.left = [] := by
    simp only [step, left]
    split_ifs <;> simp_all
  have hbefore : (LogWorld.step keyword writer (.append line) w).1.before = w.before := by
    simp only [step, before]
    split_ifs <;> simp_all
  have hdue : (unterminated newline w.text ++ line).length ≤ kLineLimit := by
    have hle := length_unterminated_le_append (d := newline) (w.file.contents.take w.start) w.text
    rw [text, List.take_append_drop] at hle
    rw [List.length_append] at hlength ⊢
    rw [text]
    omega
  refine ⟨h.tracked, fun hsame => ?_, fun hother => ?_, h.short.append_line hline hlength, ?_, ?_⟩
  · obtain ⟨hinode, hbegun, hkept⟩ := h.watching (by simpa [step] using hsame)
    exact ⟨hinode, hbegun, hkept.trans (List.prefix_append _ _)⟩
  · exact h.anew (by simpa [step] using hother)
  · intro piece hpiece
    simp only [step, List.mem_append, List.mem_singleton] at hpiece
    obtain (hpiece | hpiece) | rfl := hpiece
    · exact h.shortDue piece hpiece
    · unfold left at hpiece
      split_ifs at hpiece
      · exact h.short piece hpiece
      · cases hpiece
    · exact hdue
  · rw [hleft, hbefore, htext, List.append_nil, outputs, terminated_append_line _ hline,
      List.filterMap_append, ← outputs, ← List.append_assoc, ← h.accounted]
    exact List.filterMap_append

/-- A file that has been read to its end is replaced by one that the loop knows no byte of, or
by its own beginning. -/
theorem LogWorld.Sound.replace {keyword : Bytes} {w : LogWorld} (h : w.Sound keyword)
    (hread : w.Read) {view : FileView} (hshort : ShortLines view.contents) :
    (w.replace view).Sound keyword := by
  refine ⟨h.tracked, by simp [LogWorld.replace], fun _ => rfl, hshort, h.shortDue, ?_⟩
  have hdelivered := h.delivered_eq (.inl hread)
  simp only [LogWorld.replace, left, before, text, reduceCtorEq, if_true, if_false,
    List.filterMap_append, List.drop_zero, ← hdelivered, Observed.delivered, outputs]

/-- An iteration over a file that has not been replaced since the last one. -/
theorem LogWorld.Sound.read {keyword : Bytes} {w : LogWorld} (h : w.Sound keyword)
    (hgood : w.loop.Good keyword) (writer : ℕ → Bool) (hsame : w.standing = .followed) :
    let result := w.loop.poll keyword writer (some w.file)
    LogWorld.Sound keyword { w with loop := result.1 } ∧
      (result.2 = false → result.1.Good keyword) ∧
      result.1.state.written <+: result.1.delivered keyword := by
  intro result
  obtain ⟨hinode, hbegun, hkept⟩ := h.watching hsame
  obtain ⟨-, hoffset, -⟩ := h.segment hsame
  have hunchanged : ¬ w.loop.Replaced w.file := by
    rintro (hother | hsize)
    · exact hother hinode
    · omega
  obtain ⟨hdone, htracked, hpre⟩ :=
    hgood.read writer hunchanged hkept (hgood.remembers hkept (h.short.drop _))
  have hresult : result.1.past = w.loop.past ∧ result.1.current.contents = w.file.contents ∧
      result.1.current.start = w.loop.current.start := by
    simp only [result, Observed.poll, if_neg hunchanged, and_self]
  obtain ⟨hpast, hcontents, hstart⟩ := hresult
  have hinode' : result.1.state.inode = w.file.inode :=
    Observed.poll_inode keyword writer hgood.tidy w.file
  refine ⟨⟨htracked, fun _ => ⟨hinode'.symm, hbegun.trans hstart.symm, ?_⟩, h.anew, h.short,
    h.shortDue, ?_⟩, hdone, hpre⟩
  · rw [hcontents]
    exact List.take_prefix _ _
  · have haccounted := h.accounted
    simpa only [left, before, text, hsame, reduceCtorEq, if_true, if_false, hpast] using haccounted

/-- An iteration that can see the replacement, or has nothing to forget, is one over a file that
the loop has known from the start. -/
theorem LogWorld.Sound.settle {keyword : Bytes} {w : LogWorld} (h : w.Sound keyword)
    (hgood : w.loop.Good keyword) (hother : w.standing ≠ .followed)
    (hseen : w.loop.Replaced w.file ∨ w.loop.state.offset = 0) (writer : ℕ → Bool) :
    ∃ loop : Observed,
      loop.poll keyword writer (some w.file) = w.loop.poll keyword writer (some w.file) ∧
      loop.Good keyword ∧ LogWorld.Sound keyword
        { w with loop := loop, standing := .followed, due := w.due ++ w.left } := by
  have hstart := h.anew hother
  have hdue : ∀ line ∈ w.due ++ w.left, line.length ≤ kLineLimit := by
    rw [List.forall_mem_append, left]
    refine ⟨h.shortDue, ?_⟩
    split_ifs
    · exact h.short
    · simp
  have haccounted := h.accounted
  simp only [before, if_neg hother] at haccounted
  by_cases hreplaced : w.loop.Replaced w.file
  · have hreset := hgood.reset w.file
    refine ⟨w.loop.reset w.file, (Observed.poll_reset keyword writer hreplaced).symm, hreset,
      hreset.toTracked, fun _ => ⟨rfl, hstart, List.take_prefix _ _⟩, fun _ => hstart, h.short,
      hdue, ?_⟩
    simpa [left, before, Observed.reset, text] using haccounted
  · -- nothing has been read, so the old file has no part in what follows
    have hzero := hseen.resolve_left hreplaced
    have hconsumed : w.loop.current.consumed = 0 := hgood.consumed.trans hzero
    have hbegun : w.loop.current.start = 0 :=
      Nat.le_zero.mp (hconsumed ▸ hgood.placed.start_le)
    have hnone : w.loop.current.delivered keyword = [] := by
      simp [Generation.delivered, Generation.segment, hconsumed, outputs]
    have hinode : w.file.inode = w.loop.state.inode := by
      by_contra hne
      exact hreplaced (.inl hne)
    refine ⟨w.loop, rfl, hgood, hgood.toTracked, fun _ => ⟨hinode, hstart.trans hbegun.symm, by
      simp [hconsumed]⟩, fun _ => hstart, h.short, hdue, ?_⟩
    simpa [left, before, text, hnone] using haccounted

/-- Step: whatever happens to the log, nothing is lost track of. -/
theorem LogWorld.Sound.step {keyword : Bytes} {w : LogWorld} (h : w.Sound keyword)
    (hgood : w.loop.Good keyword) (writer : ℕ → Bool) {event : LogEvent}
    (hevent : event.Legal w ∧ event.Safe w) :
    let result := LogWorld.step keyword writer event w
    result.1.Sound keyword ∧ (result.2 = false → result.1.loop.Good keyword) ∧
      result.1.loop.state.written <+: result.1.loop.delivered keyword := by
  have hpre : w.loop.state.written <+: w.loop.delivered keyword :=
    hgood.written ▸ List.prefix_refl _
  obtain ⟨hlegal, hsafe⟩ := hevent
  cases event with
  | append line => exact ⟨h.append hlegal.1 hlegal.2, fun _ => hgood, hpre⟩
  | rotate inode =>
    have hempty : ShortLines [] := by simp [ShortLines]
    exact ⟨h.replace hsafe hempty, fun _ => hgood, hpre⟩
  | truncate size => exact ⟨h.replace hsafe (h.short.take size), fun _ => hgood, hpre⟩
  | poll =>
    by_cases hsame : w.standing = .followed
    · have hread := h.read hgood writer hsame
      have hleft : w.left = [] := by simp [LogWorld.left, hsame]
      simpa only [LogWorld.step, hleft, List.append_nil, ← hsame] using hread
    · obtain ⟨loop, hpoll, hloop, hsound⟩ := h.settle hgood hsame (hsafe hsame) writer
      have hread := hsound.read hloop writer rfl
      simp only [hpoll] at hread
      exact hread

end EdgeScope.StreamLog
