import EdgeScope.Agent.StreamViews
import EdgeScope.Runs.Loops
import EdgeScope.Text.Search

/-!
# What `StreamLog` keeps from one iteration to the next

The file may change in any way between two system calls, and a read may deliver what it likes.
Still an iteration finds a short unfinished line that ends the bytes read since the last reset, and
an offset that counts them.
-/

namespace EdgeScope.StreamLog
open Text StateTransition

/-- What has been read since the last reset, and where that began. -/
structure History where
  start : ℕ
  consumed : Bytes
  deriving DecidableEq

def Resets (status : FileStatus) (s : StreamState) : Prop :=
  status.inode ≠ s.inode ∨ status.size < s.offset

instance (status : FileStatus) (s : StreamState) : Decidable (Resets status s) :=
  inferInstanceAs (Decidable (_ ∨ _))

def bytesRead (p : Poll) (s : StreamState) : Bytes :=
  match p.status with
  | none => []
  | some status =>
    let s := resetIfReplaced status s
    if s.offset < status.size then appended p.file s.offset else []

/-- The history after an iteration. -/
def History.record (p : Poll) (s : StreamState) (h : History) : History :=
  match p.status with
  | none => h
  | some status =>
    let h := if Resets status s then ⟨0, []⟩ else h
    { h with consumed := h.consumed ++ bytesRead p s }

/-- An iteration with its history, which the loop itself does not keep. -/
def recordedPoll (keyword : Bytes) (writer : ℕ → Bool) (p : Poll) (t : StreamState × History) :
    (StreamState × History) × Bool :=
  let result := poll keyword writer p t.1
  ((result.1, t.2.record p t.1), result.2)

def begin (startAtEnd : Bool) (fileStatus : FileStatus) : StreamState × History :=
  (start startAtEnd fileStatus, ⟨initialOffset startAtEnd fileStatus.size, []⟩)

def history (keyword : Bytes) (writer : ℕ → Bool) (startAtEnd : Bool) (fileStatus : FileStatus)
    (polls : List Poll) : History :=
  (Runs.run (recordedPoll keyword writer) polls (begin startAtEnd fileStatus)).1.2

theorem run_recordedPoll (keyword : Bytes) (writer : ℕ → Bool) (polls : List Poll)
    (t : StreamState × History) :
    (Runs.run (recordedPoll keyword writer) polls t).map Prod.fst id =
      run keyword writer polls t.1 := by
  have h : Runs.run (poll keyword writer) (polls.map id) t.1 =
      (Runs.run (recordedPoll keyword writer) polls t).map Prod.fst id :=
    Runs.run_map Prod.fst id (fun _ _ => rfl) polls t
  rw [List.map_id] at h
  exact h.symm

/-- One round of the loop over newlines; none where it has been left. -/
def drainRound (keyword : Bytes) (writer : ℕ → Bool) (d : Drain) : Option Drain :=
  if d.broken then none
  else
    match findChar newline d.partialLine with
    | none => none
    | some position =>
      let line := d.partialLine.take position
      let partialLine := d.partialLine.drop (position + 1)
      match streamLine keyword line with
      | none => some ⟨partialLine, d.written, false⟩
      | some output =>
        if writer d.written.length then some ⟨partialLine, d.written ++ [output], false⟩
        else some ⟨partialLine, d.written, true⟩

theorem drainRound_suffix {keyword : Bytes} {writer : ℕ → Bool} {d d' : Drain}
    (h : d' ∈ drainRound keyword writer d) : d'.partialLine <:+ d.partialLine := by
  unfold drainRound at h
  split at h
  · cases h
  · split at h
    · cases h
    · rename_i position _
      have hdrop := List.drop_suffix (position + 1) d.partialLine
      simp only [Option.mem_def] at h
      split at h
      · cases h
        exact hdrop
      · split at h <;> cases h <;> exact hdrop

theorem drain_suffix {keyword : Bytes} {writer : ℕ → Bool} {d d' : Drain}
    (h : Reaches (drainRound keyword writer) d d') : d'.partialLine <:+ d.partialLine :=
  Runs.reaches_preserves (I := fun x => x.partialLine <:+ d.partialLine)
    (fun _ _ hround hsuffix => (drainRound_suffix hround).trans hsuffix) h List.suffix_rfl

/-- The loop ends on every input, with the result of `drainLines`. -/
theorem drainLines_mem_eval (keyword : Bytes) (writer : ℕ → Bool) {fuel : ℕ} {partialLine : Bytes}
    (hfuel : partialLine.length ≤ fuel) (written : List Bytes) :
    drainLines keyword writer fuel partialLine written ∈
      eval (drainRound keyword writer) ⟨partialLine, written, false⟩ := by
  -- a round takes the text up to a newline, so its length bounds the rounds
  induction fuel generalizing partialLine written with
  | zero =>
    obtain rfl := List.length_eq_zero_iff.mp (Nat.le_zero.mp hfuel)
    exact Runs.eval_of_ends rfl
  | succ fuel ih =>
    rw [drainLines]
    by_cases hmem : newline ∈ partialLine
    · obtain ⟨p, rest, rfl, hp⟩ := List.eq_append_cons_of_mem hmem
      have hrest : rest.length ≤ fuel := by simp at hfuel; omega
      simp only [findChar_append_cons hp, take_separator, drop_separator]
      cases hline : streamLine keyword p with
      | none =>
        refine Runs.eval_of_round ?_ (ih hrest written)
        simp [drainRound, findChar_append_cons hp, hline]
      | some output =>
        cases hw : writer written.length with
        | true =>
          refine Runs.eval_of_round ?_ (ih hrest (written ++ [output]))
          simp [drainRound, findChar_append_cons hp, hline, hw]
        | false =>
          refine Runs.eval_of_round (t := ⟨rest, written, true⟩) ?_ (Runs.eval_of_ends rfl)
          simp [drainRound, findChar_append_cons hp, hline, hw]
    · have hfind := findChar_eq_none_iff.mpr hmem
      rw [hfind]
      exact Runs.eval_of_ends (by simp [drainRound, hfind])

/-- The loop is left for want of a newline, or because the writer broke. -/
theorem notMem_of_drainRound {keyword : Bytes} {writer : ℕ → Bool} {d : Drain}
    (h : drainRound keyword writer d = none) (hbroken : d.broken = false) :
    newline ∉ d.partialLine := by
  intro hmem
  obtain ⟨p, rest, hsplit, hp⟩ := List.eq_append_cons_of_mem hmem
  simp only [drainRound, hbroken, hsplit, findChar_append_cons hp, Bool.false_eq_true,
    if_false] at h
  split at h
  · cases h
  · split at h <;> cases h

/-- What the loop leaves ends what it was given, and holds no newline unless the writer broke. -/
theorem drainLines_carry (keyword : Bytes) (writer : ℕ → Bool) {fuel : ℕ} {partialLine : Bytes}
    (hfuel : partialLine.length ≤ fuel) (written : List Bytes) :
    let drained := drainLines keyword writer fuel partialLine written
    drained.partialLine <:+ partialLine ∧
      (drained.broken = false → newline ∉ drained.partialLine) := by
  intro drained
  obtain ⟨hreaches, hends⟩ := mem_eval.mp (drainLines_mem_eval keyword writer hfuel written)
  exact ⟨drain_suffix hreaches, notMem_of_drainRound hends⟩

/-- What the loop finds at the start of an iteration. -/
structure Carried (s : StreamState) (h : History) : Prop where
  tidy : s.Tidy
  suffix : s.partialLine <:+ h.consumed
  offset_eq : s.offset = h.start + h.consumed.length

theorem carried_start (startAtEnd : Bool) (fileStatus : FileStatus) :
    Carried (start startAtEnd fileStatus) ⟨initialOffset startAtEnd fileStatus.size, []⟩ :=
  ⟨⟨by simp [start], by simp [start]⟩, List.nil_suffix, rfl⟩

/-- A reset forgets the line together with the bytes it came from. -/
theorem Carried.reset {s : StreamState} {h : History} (hcarried : Carried s h)
    (status : FileStatus) :
    Carried (resetIfReplaced status s) (if Resets status s then ⟨0, []⟩ else h) := by
  by_cases hresets : Resets status s
  · have hreset : resetIfReplaced status s =
        { s with inode := status.inode, offset := 0, partialLine := [] } := if_pos hresets
    rw [if_pos hresets, hreset]
    exact ⟨⟨by simp, by simp⟩, List.nil_suffix, rfl⟩
  · have hkeep : resetIfReplaced status s = s := if_neg hresets
    rw [if_neg hresets, hkeep]
    exact hcarried

theorem Carried.read {s : StreamState} {h : History} (hcarried : Carried s h) (keyword : Bytes)
    (writer : ℕ → Bool) (bytes : Bytes) :
    let partialLine := s.partialLine ++ bytes
    let drained := drainLines keyword writer partialLine.length partialLine s.written
    drained.broken = false →
      Carried { s with
        offset := s.offset + bytes.length
        partialLine := trimPartial drained.partialLine
        written := drained.written } { h with consumed := h.consumed ++ bytes } := by
  intro partialLine drained hbroken
  obtain ⟨hleft, hclean⟩ := drainLines_carry keyword writer (le_refl partialLine.length) s.written
  have htrim : trimPartial drained.partialLine <:+ drained.partialLine := by
    rw [trimPartial_eq, List.rtake]
    exact List.drop_suffix _ _
  have hread : partialLine <:+ h.consumed ++ bytes :=
    List.suffix_append_self_iff.mpr hcarried.suffix
  refine ⟨⟨fun hmem => hclean hbroken (htrim.subset hmem), ?_⟩, ?_, ?_⟩
  · simp only [trimPartial_eq, length_rtake]
    exact min_le_left _ _
  · exact htrim.trans (hleft.trans hread)
  · have hoffset := hcarried.offset_eq
    simp only [List.length_append]
    omega

theorem Carried.poll {s : StreamState} {h : History} (hcarried : Carried s h) (keyword : Bytes)
    (writer : ℕ → Bool) (p : Poll) (hgoes : (StreamLog.poll keyword writer p s).2 = false) :
    Carried (StreamLog.poll keyword writer p s).1 (h.record p s) := by
  revert hgoes
  unfold StreamLog.poll History.record bytesRead
  cases p.status with
  | none => exact fun _ => hcarried
  | some status =>
    have hreset := hcarried.reset status
    simp only
    split
    · intro hgoes
      have hread := hreset.read keyword writer (appended p.file (resetIfReplaced status s).offset)
      simp only at hgoes hread
      simpa only [hgoes, Bool.false_eq_true, if_false] using hread hgoes
    · intro _
      simpa only [List.append_nil] using hreset

/-- A run finds the invariant at the start of every iteration. -/
theorem carried_run (keyword : Bytes) (writer : ℕ → Bool) (startAtEnd : Bool)
    (fileStatus : FileStatus) (polls : List Poll)
    (hgoes : (run keyword writer polls (start startAtEnd fileStatus)).2 = false) :
    Carried (run keyword writer polls (start startAtEnd fileStatus)).1
      (history keyword writer startAtEnd fileStatus polls) := by
  have hrun := run_recordedPoll keyword writer polls (begin startAtEnd fileStatus)
  have hstep (p : Poll) (_ : p ∈ polls) (t : StreamState × History) (ht : Carried t.1 t.2)
      (hgoes : (recordedPoll keyword writer p t).2 = false) :
      Carried (recordedPoll keyword writer p t).1.1 (recordedPoll keyword writer p t).1.2 :=
    ht.poll keyword writer p hgoes
  have hkeeps := Runs.run_preserves hstep (s := begin startAtEnd fileStatus)
    (carried_start startAtEnd fileStatus)
  simp only [begin] at hrun
  rw [← hrun] at hgoes ⊢
  exact hkeeps hgoes

/-- The values `partial_line` has in the course of an iteration. -/
inductive Holds (keyword : Bytes) (writer : ℕ → Bool) (p : Poll) (s : StreamState) : Bytes → Prop
  | entered : Holds keyword writer p s s.partialLine
  | reset {status : FileStatus} (hstatus : p.status = some status) :
      Holds keyword writer p s (resetIfReplaced status s).partialLine
  /-- From the read on, round by round. -/
  | drained {status : FileStatus} {s₀ : StreamState} {d : Drain} (hstatus : p.status = some status)
      (hs : s₀ = resetIfReplaced status s) (hsize : s₀.offset < status.size)
      (hd : Reaches (drainRound keyword writer)
        ⟨s₀.partialLine ++ appended p.file s₀.offset, s₀.written, false⟩ d) :
      Holds keyword writer p s d.partialLine
  | left : Holds keyword writer p s (poll keyword writer p s).1.partialLine

theorem length_appended_le (file : Except Errno InputFile) (offset : ℕ) :
    (appended file offset).length ≤ kStreamReadSize := by
  cases file with
  | error _ => exact Nat.zero_le _
  | ok input => exact input.length_read_le _ _

theorem length_trimPartial_le (partialLine : Bytes) :
    (trimPartial partialLine).length ≤ partialLine.length := by
  rw [trimPartial_eq, length_rtake]
  exact min_le_right _ _

/-- Whatever the loop over newlines holds is no longer than what was kept and what was read. -/
theorem StreamState.Tidy.length_drained_le {s : StreamState} (h : s.Tidy)
    (file : Except Errno InputFile) {line : Bytes}
    (hline : line <:+ s.partialLine ++ appended file s.offset) :
    line.length ≤ kLineLimit + kStreamReadSize := by
  calc line.length
      ≤ (s.partialLine ++ appended file s.offset).length := hline.length_le
    _ = s.partialLine.length + (appended file s.offset).length := List.length_append
    _ ≤ kLineLimit + kStreamReadSize :=
      Nat.add_le_add h.length_le (length_appended_le file s.offset)

theorem StreamState.Tidy.length_le_of_holds {keyword : Bytes} {writer : ℕ → Bool} {p : Poll}
    {s : StreamState} (h : s.Tidy) {line : Bytes} (hline : Holds keyword writer p s line) :
    line.length ≤ kLineLimit + kStreamReadSize := by
  have hkept {s₀ : StreamState} (h₀ : s₀.Tidy) :
      s₀.partialLine.length ≤ kLineLimit + kStreamReadSize :=
    h₀.length_le.trans (Nat.le_add_right _ _)
  cases hline with
  | entered => exact hkept h
  | reset _ => exact hkept (h.resetIfReplaced _)
  | drained _ hs _ hd =>
    exact StreamState.Tidy.length_drained_le (hs ▸ h.resetIfReplaced _) p.file (drain_suffix hd)
  | left =>
    unfold poll
    cases p.status with
    | none => exact hkept h
    | some status =>
      have hreset := h.resetIfReplaced status
      simp only
      generalize StreamLog.resetIfReplaced status s = s₀ at hreset ⊢
      split
      · obtain ⟨hleft, -⟩ := drainLines_carry keyword writer
          (le_refl (s₀.partialLine ++ appended p.file s₀.offset).length) s₀.written
        have hlength := hreset.length_drained_le p.file hleft
        simp only at hlength ⊢
        split
        · exact hlength
        · exact (length_trimPartial_le _).trans hlength
      · exact hkept hreset

/-- Whatever becomes of the file, an iteration finds at most 4096 bytes without a newline, which
end the bytes read since the last reset, and the offset behind those bytes; it never holds more
than one read beyond, and its loop over newlines ends with the result of `drainLines`. -/
theorem iteration_bounded (keyword : Bytes) (writer : ℕ → Bool) (startAtEnd : Bool)
    (fileStatus : FileStatus) (polls : List Poll)
    (hgoes : (run keyword writer polls (start startAtEnd fileStatus)).2 = false) :
    let s := (run keyword writer polls (start startAtEnd fileStatus)).1
    let h := history keyword writer startAtEnd fileStatus polls
    s.partialLine.length ≤ 4096 ∧ newline ∉ s.partialLine ∧ s.partialLine <:+ h.consumed ∧
      s.offset = h.start + h.consumed.length ∧
      (∀ p line, Holds keyword writer p s line → line.length ≤ 4096 + 65536) ∧
      ∀ partialLine written, drainLines keyword writer partialLine.length partialLine written ∈
        eval (drainRound keyword writer) ⟨partialLine, written, false⟩ := by
  intro s h
  have hcarried : Carried s h := carried_run keyword writer startAtEnd fileStatus polls hgoes
  exact ⟨hcarried.tidy.length_le, hcarried.tidy.noNewline, hcarried.suffix, hcarried.offset_eq,
    fun p line hline => hcarried.tidy.length_le_of_holds hline,
    fun partialLine written => drainLines_mem_eval keyword writer le_rfl written⟩

theorem iteration_bounded_of_cut :
    let polls := [Poll.ofView (some ⟨1, ascii "one\ntwo"⟩)]
    let s := (run [] (fun _ => true) polls (start false ⟨1, 0⟩)).1
    let h := history [] (fun _ => true) false ⟨1, 0⟩ polls
    s.partialLine = ascii "two" ∧ s.partialLine <:+ h.consumed ∧
      s.offset = h.start + h.consumed.length := by
  intro polls s h
  obtain ⟨-, -, hsuffix, hoffset, -⟩ :=
    iteration_bounded [] (fun _ => true) false ⟨1, 0⟩ polls (by decide)
  exact ⟨by decide, hsuffix, hoffset⟩

/-- A read begins below the size that was found, so the offset stays in 64 bits when sizes are
those of a signed `off_t`. -/
theorem run_offset_lt (keyword : Bytes) (writer : ℕ → Bool) {polls : List Poll}
    (hpolls : ∀ p ∈ polls, ∀ status ∈ p.status, status.size < 2 ^ 63) {s : StreamState}
    (hs : s.offset < 2 ^ 63 + kStreamReadSize) :
    (run keyword writer polls s).2 = false →
      (run keyword writer polls s).1.offset < 2 ^ 63 + kStreamReadSize := by
  refine Runs.run_preserves (I := fun s : StreamState => s.offset < 2 ^ 63 + kStreamReadSize) ?_ hs
  intro p hp s hs _
  unfold poll
  cases hstatus : p.status with
  | none => exact hs
  | some status =>
    have hsize := hpolls p hp status hstatus
    have hreset : (resetIfReplaced status s).offset < 2 ^ 63 + kStreamReadSize := by
      unfold resetIfReplaced
      split
      · exact Nat.add_pos_left (Nat.two_pow_pos 63) _
      · exact hs
    have hread := length_appended_le p.file (resetIfReplaced status s).offset
    simp only
    split
    · simp only
      omega
    · exact hreset

end EdgeScope.StreamLog
