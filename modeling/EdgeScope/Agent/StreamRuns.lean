import EdgeScope.Agent.StreamViews

/-!
# Runs of `StreamLog`

A run is seen together with the file: the generations of the file the loop has read from,
each with the offset it was begun at and the offset it was read up to. The invariant ties
the offset, the unfinished line and the lines written to those bytes.
-/

namespace EdgeScope.StreamLog
open Text

/-- The loop, with the generations it has left behind and the one it is reading. -/
structure Observed where
  state : StreamState
  past : List Generation
  current : Generation
  deriving DecidableEq

def Observed.begin (startAtEnd : Bool) (view : FileView) : Observed where
  state := start startAtEnd ⟨view.inode, view.contents.length⟩
  past := []
  current :=
    ⟨view.contents, initialOffset startAtEnd view.contents.length,
      initialOffset startAtEnd view.contents.length⟩

/-- The iteration sees another inode, or a size below the offset. -/
def Observed.Replaced (o : Observed) (view : FileView) : Prop :=
  view.inode ≠ o.state.inode ∨ view.contents.length < o.state.offset

instance (o : Observed) (view : FileView) : Decidable (o.Replaced view) :=
  inferInstanceAs (Decidable (_ ∨ _))

/-- One iteration. Only `past` and `current` are added to what `StreamLog.poll` does. -/
def Observed.poll (keyword : Bytes) (writer : ℕ → Bool) (view : Option FileView)
    (o : Observed) : Observed × Bool :=
  let result := StreamLog.poll keyword writer (.ofView view) o.state
  match view with
  | none => ({ o with state := result.1 }, result.2)
  | some view =>
    if o.Replaced view then
      (⟨result.1, o.past ++ [o.current], ⟨view.contents, 0, result.1.offset⟩⟩, result.2)
    else (⟨result.1, o.past, ⟨view.contents, o.current.start, result.1.offset⟩⟩, result.2)

def Observed.run (keyword : Bytes) (writer : ℕ → Bool) :
    List (Option FileView) → Observed → Observed × Bool :=
  Runs.run (Observed.poll keyword writer)

def Observed.Throughout (P : Observed → FileView → Prop) (keyword : Bytes) (writer : ℕ → Bool) :
    List (Option FileView) → Observed → Prop :=
  Runs.Throughout (Observed.poll keyword writer) fun view o => ∀ v ∈ view, P o v

instance (P : Observed → FileView → Prop) [∀ o v, Decidable (P o v)] (keyword : Bytes)
    (writer : ℕ → Bool) (views : List (Option FileView)) (o : Observed) :
    Decidable (Observed.Throughout P keyword writer views o) :=
  Runs.decidableThroughout _ _ views o

/-- What is to be sent of the bytes consumed, generation by generation. -/
def Observed.delivered (keyword : Bytes) (o : Observed) : List Bytes :=
  (o.past ++ [o.current]).flatMap (·.delivered keyword)

theorem Observed.poll_state (keyword : Bytes) (writer : ℕ → Bool) (view : Option FileView)
    (o : Observed) : StreamLog.poll keyword writer (.ofView view) o.state =
      (o.poll keyword writer view).map Observed.state id := by
  cases view with
  | none => rfl
  | some view =>
    simp only [Observed.poll]
    split <;> rfl

/-- Watching the files does not change the run. -/
theorem Observed.run_state (keyword : Bytes) (writer : ℕ → Bool)
    (views : List (Option FileView)) (o : Observed) :
    StreamLog.run keyword writer (views.map .ofView) o.state =
      (Observed.run keyword writer views o).map Observed.state id :=
  Runs.run_map Observed.state Poll.ofView (Observed.poll_state keyword writer) views o

/-- The rule for runs, where an iteration without a file changes nothing. -/
theorem Observed.Throughout.run {P : Observed → FileView → Prop} {I Q : Observed → Prop}
    {keyword : Bytes} {writer : ℕ → Bool} (hweaken : ∀ o, I o → Q o)
    (hstep : ∀ o view, I o → P o view →
      ((o.poll keyword writer (some view)).2 = false → I (o.poll keyword writer (some view)).1) ∧
        Q (o.poll keyword writer (some view)).1)
    {views : List (Option FileView)} {o : Observed}
    (h : Observed.Throughout P keyword writer views o) (ho : I o) :
    ((Observed.run keyword writer views o).2 = false →
      I (Observed.run keyword writer views o).1) ∧ Q (Observed.run keyword writer views o).1 := by
  refine Runs.Throughout.run hweaken (fun view o ho hview => ?_) h ho
  cases view with
  | none => exact ⟨fun _ => ho, hweaken o ho⟩
  | some view => exact hstep o view ho (hview view rfl)

/-- The writer has appended, or has replaced the file in a way the iteration can see. -/
def Observed.Allows (o : Observed) (view : FileView) : Prop :=
  view.inode = o.state.inode ∧ o.current.contents <+: view.contents ∨ o.Replaced view

instance (o : Observed) (view : FileView) : Decidable (o.Allows view) :=
  inferInstanceAs (Decidable (_ ∨ _))

/-- The bytes consumed are still where they were, or the iteration can see that the file has
been replaced. -/
def Observed.Keeps (o : Observed) (view : FileView) : Prop :=
  o.current.contents.take o.current.consumed <+: view.contents ∨ o.Replaced view

theorem Observed.Allows.keeps {o : Observed} {view : FileView} (h : o.Allows view) :
    o.Keeps view :=
  h.imp (fun hgrown => (List.take_prefix _ _).trans hgrown.2) id

/-- A read that finishes a line finds the whole of it remembered. -/
def Observed.Remembers (o : Observed) (view : FileView) : Prop :=
  newline ∈ readBytes view o.state.offset →
    (unterminated newline o.current.segment).length ≤ kLineLimit

instance (o : Observed) (view : FileView) : Decidable (o.Remembers view) :=
  inferInstanceAs (Decidable (_ → _))

/-- The current generation is consumed up to the offset, and every generation but the first
was begun at byte 0. -/
structure Observed.Tracked (o : Observed) : Prop where
  placed : o.current.Placed
  consumed : o.current.consumed = o.state.offset
  restarted : ∀ g ∈ (o.past ++ [o.current]).tail, g.start = 0

/-- The unfinished line and the lines written are those of the bytes consumed. -/
structure Observed.Good (keyword : Bytes) (o : Observed) : Prop extends o.Tracked where
  partialLine : o.state.partialLine = o.current.remembered
  written : o.state.written = o.delivered keyword

theorem Observed.Good.tidy {keyword : Bytes} {o : Observed} (h : o.Good keyword) :
    o.state.Tidy := by
  constructor
  · rw [h.partialLine]
    exact fun hm => notMem_unterminated _ (mem_of_mem_rtake hm)
  · rw [h.partialLine, Generation.remembered, length_rtake]
    exact min_le_left _ _

theorem Observed.poll_inode (keyword : Bytes) (writer : ℕ → Bool) {o : Observed}
    (h : o.state.Tidy) (view : FileView) :
    (o.poll keyword writer (some view)).1.state.inode = view.inode := by
  obtain ⟨hinode, -⟩ := poll_ofView_some keyword writer view rfl rfl h
  have hstate := o.poll_state keyword writer (some view)
  rw [hstate] at hinode
  simp only [Prod.map_fst] at hinode
  rw [hinode, resetIfReplaced]
  split
  · rfl
  · rename_i hsame
    exact (not_not.mp (not_or.mp hsame).1).symm

theorem initialOffset_le (startAtEnd : Bool) (size : ℕ) : initialOffset startAtEnd size ≤ size := by
  unfold initialOffset
  split_ifs <;> omega

theorem Observed.good_begin (keyword : Bytes) (startAtEnd : Bool) (view : FileView) :
    (Observed.begin startAtEnd view).Good keyword := by
  refine ⟨⟨Generation.placed_begin (initialOffset_le startAtEnd _), rfl, ?_⟩, ?_, ?_⟩
  · simp [Observed.begin]
  · simp [Observed.begin, start, Generation.remembered]
  · simp [Observed.begin, start, Observed.delivered, Generation.delivered, outputs]

/-- Where the loop stands after a reset, before it reads from the new file. -/
def Observed.reset (view : FileView) (o : Observed) : Observed where
  state := ⟨view.inode, 0, [], o.state.written⟩
  past := o.past ++ [o.current]
  current := ⟨view.contents, 0, 0⟩

theorem Observed.not_replaced_reset (view : FileView) (o : Observed) :
    ¬ (o.reset view).Replaced view := by
  simp [Observed.Replaced, Observed.reset]

theorem Observed.Good.reset {keyword : Bytes} {o : Observed} (h : o.Good keyword)
    (view : FileView) : (o.reset view).Good keyword := by
  refine ⟨⟨Generation.placed_begin (Nat.zero_le _), rfl, ?_⟩, ?_, ?_⟩
  · intro g hg
    have hsplit : (o.past ++ [o.current] ++ [(⟨view.contents, 0, 0⟩ : Generation)]).tail =
        (o.past ++ [o.current]).tail ++ [⟨view.contents, 0, 0⟩] :=
      List.tail_append_of_ne_nil (by simp)
    simp only [Observed.reset, hsplit, List.mem_append, List.mem_singleton] at hg
    rcases hg with hg | rfl
    · exact h.restarted g hg
    · rfl
  · simp [Observed.reset, Generation.remembered]
  · have hnew : Generation.delivered keyword ⟨view.contents, 0, 0⟩ = [] := by
      simp [Generation.delivered, outputs]
    have hwritten := h.written
    simp only [Observed.delivered] at hwritten
    simp [Observed.reset, Observed.delivered, hwritten, hnew]

/-- A replaced file is read as if the loop had been reset before. -/
theorem Observed.poll_reset (keyword : Bytes) (writer : ℕ → Bool) {o : Observed}
    {view : FileView} (h : o.Replaced view) :
    o.poll keyword writer (some view) = (o.reset view).poll keyword writer (some view) := by
  have hreset : resetIfReplaced ⟨view.inode, view.contents.length⟩ o.state =
      (o.reset view).state := if_pos h
  have hkeep : resetIfReplaced ⟨view.inode, view.contents.length⟩ (o.reset view).state =
      (o.reset view).state := if_neg (o.not_replaced_reset view)
  have hpoll : StreamLog.poll keyword writer (.ofView (some view)) o.state =
      StreamLog.poll keyword writer (.ofView (some view)) (o.reset view).state := by
    simp only [StreamLog.poll, Poll.ofView, hreset, hkeep]
  rw [Observed.poll, Observed.poll, hpoll]
  rw [if_pos h, if_neg (o.not_replaced_reset view)]
  rfl

/-- An iteration over a file that still holds the bytes consumed keeps the invariant. Where the
writer breaks, the lines written are a prefix of those delivered. -/
theorem Observed.Good.read {keyword : Bytes} {o : Observed} (h : o.Good keyword)
    (writer : ℕ → Bool) {view : FileView} (hsame : ¬ o.Replaced view)
    (hkeeps : o.current.contents.take o.current.consumed <+: view.contents)
    (hremembers : o.Remembers view) :
    let result := o.poll keyword writer (some view)
    (result.2 = false → result.1.Good keyword) ∧ result.1.Tracked ∧
      result.1.state.written <+: result.1.delivered keyword := by
  -- no replacement was seen, so the iteration begins with the state as it is
  have hstate : o.state = resetIfReplaced ⟨view.inode, view.contents.length⟩ o.state :=
    (if_neg hsame).symm
  obtain ⟨-, hoffset, hdone, hpre⟩ :=
    poll_ofView_some keyword writer view hstate rfl h.tidy
  rw [Observed.Remembers, readBytes, ← h.consumed] at hremembers
  obtain ⟨hplaced, -⟩ := h.placed.advance hkeeps kStreamReadSize
  obtain ⟨hdelivered, hrest⟩ := h.placed.consume keyword hkeeps kStreamReadSize hremembers
  have hresult : o.poll keyword writer (some view) =
      (⟨(StreamLog.poll keyword writer (.ofView (some view)) o.state).1, o.past,
        ⟨view.contents, o.current.start,
          (StreamLog.poll keyword writer (.ofView (some view)) o.state).1.offset⟩⟩,
        (StreamLog.poll keyword writer (.ofView (some view)) o.state).2) := by
    rw [Observed.poll]
    exact if_neg hsame
  generalize StreamLog.poll keyword writer (.ofView (some view)) o.state = result at *
  rw [hresult]
  simp only [readBytes, h.partialLine, ← h.consumed] at hoffset hdone hpre
  have hall : Observed.delivered keyword ⟨result.1, o.past,
      ⟨view.contents, o.current.start, result.1.offset⟩⟩ = o.state.written ++
        outputs keyword (o.current.remembered ++
          (view.contents.drop o.current.consumed).take kStreamReadSize) := by
    rw [h.written, hoffset]
    simp only [Observed.delivered, List.flatMap_append, List.flatMap_singleton, hdelivered,
      List.append_assoc]
  have htracked : Observed.Tracked ⟨result.1, o.past,
      ⟨view.contents, o.current.start, result.1.offset⟩⟩ := by
    refine ⟨?_, rfl, ?_⟩
    · simp only [hoffset]
      exact hplaced
    · intro g hg
      have hrestarted := h.restarted
      cases hpast : o.past with
      | nil => simp [hpast] at hg
      | cons first past =>
        simp only [hpast, List.cons_append, List.tail_cons, List.mem_append,
          List.mem_singleton] at hg hrestarted
        rcases hg with hg | rfl
        · exact hrestarted g (.inl hg)
        · exact hrestarted o.current (.inr rfl)
  -- a client that has gone has got a part of it only
  refine ⟨?_, htracked, ?_⟩
  · intro hunbroken
    obtain ⟨hcarry, hwritten⟩ := hdone hunbroken
    refine ⟨htracked, ?_, hwritten.trans hall.symm⟩
    simp only [hoffset]
    exact hcarry.trans hrest
  · rw [hall]
    exact hpre

/-- Step: an iteration keeps the invariant. -/
theorem Observed.Good.poll {keyword : Bytes} {o : Observed} (h : o.Good keyword)
    (writer : ℕ → Bool) {view : FileView} (hkeeps : o.Keeps view)
    (hremembers : ¬ o.Replaced view → o.Remembers view) :
    let result := o.poll keyword writer (some view)
    (result.2 = false → result.1.Good keyword) ∧ result.1.Tracked ∧
      result.1.state.written <+: result.1.delivered keyword := by
  by_cases hreplaced : o.Replaced view
  · rw [Observed.poll_reset keyword writer hreplaced]
    refine (h.reset view).read writer (o.not_replaced_reset view) (by simp [Observed.reset]) ?_
    exact fun _ => by simp [Observed.reset]
  · exact h.read writer hreplaced (hkeeps.resolve_right hreplaced) (hremembers hreplaced)

/-- Run: from any state that satisfies the invariant, whatever the log's writer does. -/
theorem Observed.Good.run {keyword : Bytes} {o : Observed} (h : o.Good keyword)
    {writer : ℕ → Bool} {views : List (Option FileView)}
    (hsteps : Observed.Throughout
      (fun o view => o.Keeps view ∧ (¬ o.Replaced view → o.Remembers view))
      keyword writer views o) :
    let result := Observed.run keyword writer views o
    (result.2 = false → result.1.Good keyword) ∧ result.1.Tracked ∧
      result.1.state.written <+: result.1.delivered keyword :=
  hsteps.run (I := Observed.Good keyword)
    (Q := fun o => o.Tracked ∧ o.state.written <+: o.delivered keyword)
    (fun _ hgood => ⟨hgood.toTracked, hgood.written ▸ List.prefix_refl _⟩)
    (fun _ _ hgood hview => hgood.poll writer hview.1 hview.2) h

end EdgeScope.StreamLog
