import EdgeScope.Client.SessionLink

/-!
# The order of commands and reports

One stream at a time: a start that is queued, a thread that has something to emit and the last
report of a thread exclude one another. This rests on the order in which the reports arrive,
and on the user not starting a stream while a connect is under way.
-/

namespace EdgeScope

/-- Whether the window shows no connection after the report. -/
@[grind =] def Report.clears (report : Report) : Bool := report = .disconnected || report.lost

namespace Link

@[grind] def Clearing (l : Link) : Prop := ∃ report ∈ l.reports, report.clears = true

/-- A stream is started when no connect is under way, neither at the worker nor with its answer,
except that a failed one may be followed or preceded by a report that ends the connection shown.
No lost connection is reported while the thread is in `StreamLog`, and no end of `StreamLog` before
the thread has emitted all it has to. -/
def Undisturbed (event : Event) (l : Link) : Prop :=
  match event with
  | .start => .connect ∉ l.commands ∧ .connected ∉ l.reports ∧
    (.connectFailed ∈ l.reports → l.Clearing)
  | .deliver report => (report.lost = true → l.stream ≠ some .calling) ∧
    ∀ lost, report = .streamFailed lost → l.stream ≠ some .reporting
  | .streamLost | .other => True

def streams (l : Link) : ℕ :=
  l.commands.count .start + (if l.Alive then 1 else 0) + l.reports.count .stopped

theorem streams_eq_zero_iff {l : Link} :
    l.streams = 0 ↔ .start ∉ l.commands ∧ ¬ l.Alive ∧ .stopped ∉ l.reports := by
  simp only [streams, Nat.add_eq_zero_iff, List.count_eq_zero, ite_eq_right_iff, one_ne_zero,
    imp_false, and_assoc]

/-- A thread that has something to emit is the only stream. -/
theorem notMem_of_alive {l : Link} (hle : l.streams ≤ 1) (halive : l.Alive) :
    .start ∉ l.commands ∧ .stopped ∉ l.reports := by
  rw [streams, if_pos halive] at hle
  constructor
  · rw [← List.count_eq_zero]
    omega
  · rw [← List.count_eq_zero]
    omega

/-- A start that is queued is the only stream. -/
theorem notMem_of_start {l : Link} (hle : l.streams ≤ 1) (hstart : .start ∈ l.commands) :
    ¬ l.Alive ∧ .stopped ∉ l.reports := by
  have hcount := List.count_pos_iff.mpr hstart
  rw [streams] at hle
  constructor
  · intro halive
    rw [if_pos halive] at hle
    omega
  · rw [← List.count_eq_zero]
    omega

structure Ordered (l : Link) : Prop where
  streams_le : l.streams ≤ 1
  startButton : l.startButton = true → l.streams = 0
  /-- A connection is reported before a stream is started. -/
  connected : l.Alive ∨ .start ∈ l.commands → .connected ∉ l.reports
  /-- No stream is started behind a connect. -/
  commands : l.commands.Pairwise fun command later => command = .connect → later ≠ .start
  connecting : l.connecting = true →
    l.stream = none ∧ l.client = true ∧ l.waiting = false ∧
      ∃ commands, l.commands = .connect :: commands
  waiting : l.waiting = true → ∃ command commands, l.commands = command :: commands ∧
    command ≠ .start
  afterConnected : l.reports.Pairwise fun report later => report = .connected → later ≠ .stopped
  afterStopped : l.reports.Pairwise fun report later =>
    report = .stopped → later ≠ .streamFailed true
  streamLost : .streamFailed true ∈ l.reports → l.Alive ∨ .stopped ∈ l.reports
  reporting : l.stream = some .reporting → ∃ lost, .streamFailed lost ∈ l.reports

namespace Ordered

variable {event : Event} {l l' : Link}

theorem start_notMem (h : l.Ordered) {commands : List Command}
    (hcommands : l.commands = .connect :: commands) : .start ∉ l.commands := by
  have horder := h.commands
  rw [hcommands, List.pairwise_cons] at horder
  rw [hcommands, List.mem_cons, not_or]
  exact ⟨by simp, fun hstart => horder.1 _ hstart rfl rfl⟩

theorem connecting_eq_false (h : l.Ordered) (hstart : .start ∈ l.commands) :
    l.connecting = false := by
  by_contra hconnecting
  obtain ⟨-, -, -, commands, hcommands⟩ := h.connecting (by simpa using hconnecting)
  exact h.start_notMem hcommands hstart

theorem streams_le_move (h : l.Ordered) (hmove : Move event l l') : l'.streams ≤ 1 := by
  have hle := h.streams_le
  have hbutton := h.startButton
  cases hmove <;> first | exact hle | grind -linarith [streams, Alive]

theorem startButton_move (h : l.Ordered) (hmove : Move event l l') :
    l'.startButton = true → l'.streams = 0 := by
  have hle := h.streams_le
  have hbutton := h.startButton
  cases hmove with
  | deliver hreports =>
    rename_i report reports
    cases report with
    | connected =>
      -- The button is enabled anew, and no stream has come before this report or comes after it.
      intro
      have hfirst : Report.connected ∈ l.reports := by simp [hreports]
      have hnone : ¬ (l.Alive ∨ .start ∈ l.commands) := fun hstream => h.connected hstream hfirst
      have hafter := h.afterConnected
      rw [hreports, List.pairwise_cons] at hafter
      rw [streams_eq_zero_iff]
      refine ⟨fun hstart => hnone (.inr hstart), fun halive => hnone (.inl halive), ?_⟩
      intro hstopped
      exact hafter.1 _ hstopped rfl rfl
    | _ => grind -linarith [streams, Alive, handle, handleConnectionLost]
  | _ => first | exact hbutton | grind -linarith [streams, Alive]

theorem connected_move (h : l.Ordered) (hmove : Move event l l') (hp : Undisturbed event l) :
    l'.Alive ∨ .start ∈ l'.commands → .connected ∉ l'.reports := by
  have hconnected := h.connected
  cases hmove with
  | connected hcommands hconnecting =>
    -- The connect was at the head of the commands, so that no start is behind it.
    have hstream := (h.connecting hconnecting).1
    have hstart := h.start_notMem hcommands
    rintro (halive | hmem)
    · simp [Alive, hstream] at halive
    · exact absurd (hcommands ▸ .tail _ hmem) hstart
  | _ => first | exact hconnected | grind -linarith [Alive, Undisturbed]

theorem commands_move (h : l.Ordered) (hmove : Move event l l') (hp : Undisturbed event l) :
    l'.commands.Pairwise fun command later => command = .connect → later ≠ .start := by
  have hcommands := h.commands
  cases hmove <;> first | exact hcommands | grind -linarith [Undisturbed]

theorem connecting_move (h : l.Ordered) (hmove : Move event l l') :
    l'.connecting = true →
      l'.stream = none ∧ l'.client = true ∧ l'.waiting = false ∧
        ∃ commands, l'.commands = .connect :: commands := by
  have hconnecting := h.connecting
  cases hmove <;> first | exact hconnecting | grind -linarith [Alive]

theorem waiting_move (h : l.Ordered) (hmove : Move event l l') :
    l'.waiting = true → ∃ command commands, l'.commands = command :: commands ∧
      command ≠ .start := by
  have hwaiting := h.waiting
  have hconnecting := h.connecting
  cases hmove with
  | wait hcommands halive =>
    -- The worker waits for a thread, which is then the only stream.
    intro
    obtain ⟨command, commands, heq⟩ := List.exists_cons_of_ne_nil hcommands
    refine ⟨command, commands, heq, ?_⟩
    rintro rfl
    exact (notMem_of_alive h.streams_le halive).1 (by simp [heq])
  | _ => first | exact hwaiting | grind -linarith

theorem afterConnected_move (h : l.Ordered) (hmove : Move event l l') :
    l'.reports.Pairwise fun report later => report = .connected → later ≠ .stopped := by
  have hafter := h.afterConnected
  have hconnected := h.connected
  cases hmove <;> first | exact hafter | grind -linarith

theorem afterStopped_move (h : l.Ordered) (hmove : Move event l l') :
    l'.reports.Pairwise fun report later => report = .stopped → later ≠ .streamFailed true := by
  have hafter := h.afterStopped
  cases hmove with
  | streamLost hstream =>
    have hstopped := (notMem_of_alive h.streams_le (.inl hstream)).2
    grind -linarith
  | _ => first | exact hafter | grind -linarith

theorem streamLost_move (h : l.Ordered) (hmove : Move event l l') :
    .streamFailed true ∈ l'.reports → l'.Alive ∨ .stopped ∈ l'.reports := by
  have hlost := h.streamLost
  have hafter := h.afterStopped
  cases hmove with
  | deliver hreports =>
    rw [hreports] at hlost hafter
    rw [alive_handle, handle_reports]
    intro hmem
    have hhead := (List.pairwise_cons.mp hafter).1 _ hmem
    rcases hlost (.tail _ hmem) with halive | hstopped
    · exact .inl halive
    · grind -linarith
  | _ => first | exact hlost | grind -linarith [Alive]

theorem reporting_move (h : l.Ordered) (hmove : Move event l l') (hp : Undisturbed event l) :
    l'.stream = some .reporting → ∃ lost, .streamFailed lost ∈ l'.reports := by
  have hreporting := h.reporting
  cases hmove <;> first | exact hreporting | grind -linarith [Undisturbed]

theorem move (h : l.Ordered) (hmove : Move event l l') (hp : Undisturbed event l) : l'.Ordered :=
  { streams_le := h.streams_le_move hmove
    startButton := h.startButton_move hmove
    connected := h.connected_move hmove hp
    commands := h.commands_move hmove hp
    connecting := h.connecting_move hmove
    waiting := h.waiting_move hmove
    afterConnected := h.afterConnected_move hmove
    afterStopped := h.afterStopped_move hmove
    streamLost := h.streamLost_move hmove
    reporting := h.reporting_move hmove hp }

end Ordered
end Link
end EdgeScope
