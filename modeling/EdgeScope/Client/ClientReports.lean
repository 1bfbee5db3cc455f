import EdgeScope.Client.StreamOrder

/-!
# What the reports tell of the client

The worker has dropped its client only where a report says so, and made one only where a
connection will be reported. Whatever leads to a stream has no such report before it.
-/

namespace EdgeScope

@[grind =] def Report.drops : Report → Bool
  | .disconnected | .connectFailed | .connectionLost => true
  | .connected | .stopped | .streamFailed _ => false

namespace Link

/-- Every report that the client is gone is followed by one that there is one again. -/
def Held : List Report → Prop
  | [] => True
  | report :: reports => (report.drops = true → .connected ∈ reports) ∧ Held reports

theorem Held.drops_eq_false {reports : List Report} (h : Held reports)
    (hconnected : .connected ∉ reports) {report : Report} (hreport : report ∈ reports) :
    report.drops = false := by
  induction reports with
  | nil => cases hreport
  | cons first reports ih =>
    simp only [List.mem_cons, not_or] at hconnected
    rcases List.mem_cons.mp hreport with rfl | hmem
    · rw [← Bool.not_eq_true]
      exact fun hdrops => hconnected.2 (h.1 hdrops)
    · exact ih h.2 hconnected.2 hmem

theorem held_append {reports : List Report} {report : Report} :
    Held (reports ++ [report]) ↔ report = .connected ∨ (Held reports ∧ report.drops = false) := by
  induction reports with
  | nil => cases report <;> simp [Held, Report.drops]
  | cons first reports ih =>
    simp only [List.cons_append, Held, ih, List.mem_append, List.mem_singleton]
    cases report <;> simp [Report.drops]

/-- What the reports under way tell of the client. -/
structure Told (l : Link) : Prop where
  held : l.client = true → l.connecting = false → Held l.reports
  dropped : l.client = false → l.willShow = false
  /-- Whatever leads to a stream, no box is left to end the connection shown. -/
  streaming : l.Alive ∨ (.start ∈ l.commands ∧ l.client = true) →
    .connectFailed ∉ l.reports ∧ l.deferred = 0
  alive : l.Alive → .disconnected ∉ l.reports

namespace Told

variable {event : Event} {l l' : Link}

/-- With a client, and no connection still to be reported, nothing reports that it is gone. -/
theorem notMem (h : l.Told) (hclient : l.client = true) (hconnecting : l.connecting = false)
    (hconnected : .connected ∉ l.reports) :
    .connectFailed ∉ l.reports ∧ .disconnected ∉ l.reports ∧ .connectionLost ∉ l.reports := by
  have hdrops : ∀ report ∈ l.reports, report.drops = false := fun _ hreport =>
    (h.held hclient hconnecting).drops_eq_false hconnected hreport
  refine ⟨fun hmem => ?_, fun hmem => ?_, fun hmem => ?_⟩
  · exact Bool.noConfusion (hdrops _ hmem)
  · exact Bool.noConfusion (hdrops _ hmem)
  · exact Bool.noConfusion (hdrops _ hmem)

theorem willShow_eq_false (hreports : l'.reports = l.reports) (hshows : l'.shows = false)
    (h : l.willShow = false) : l'.willShow = false := by
  have hle := shown_mono l.reports (hshows.trans_le (Bool.false_le l.shows))
  rw [willShow, hreports]
  exact Bool.eq_false_of_le_false (hle.trans h.le)

theorem held_move (h : l.Told) (hmove : Move event l l') :
    l'.client = true → l'.connecting = false → Held l'.reports := by
  have hheld := h.held
  cases hmove with
  | deliver hreports =>
    rw [hreports] at hheld
    rw [handle_client, handle_connecting, handle_reports]
    exact fun hclient hconnecting => (hheld hclient hconnecting).2
  | _ => first | exact hheld | grind -linarith [held_append]

theorem dropped_move (ho : l.Ordered) (h : l.Told) (hmove : Move event l l') :
    l'.client = false → l'.willShow = false := by
  have hdropped := h.dropped
  have hconnecting := ho.connecting
  cases hmove with
  | connect =>
    intro hclient
    exact willShow_eq_false (l := l) rfl (by simp [shows]) (hdropped hclient)
  | reconnect =>
    intro hclient
    exact willShow_eq_false (l := l) rfl (by simp [shows]) (hdropped hclient)
  | deliver hreports =>
    rename_i report reports
    -- An open box can make the window show less than the reports say, never more.
    rw [handle_client]
    intro hclient
    have hle := shown_mono reports (shows_handle_le report { l with reports := reports })
    have hold := hdropped hclient
    rw [willShow, hreports, List.foldl_cons] at hold
    rw [willShow, handle_reports]
    exact Bool.eq_false_of_le_false (hle.trans hold.le)
  | _ => first | exact hdropped | grind -linarith [willShow, shows, Report.shown]

theorem streaming_move (ho : l.Ordered) (h : l.Told) (hmove : Move event l l')
    (hp : Undisturbed event l) :
    l'.Alive ∨ (.start ∈ l'.commands ∧ l'.client = true) →
      .connectFailed ∉ l'.reports ∧ l'.deferred = 0 := by
  have hstreaming := h.streaming
  cases hmove with
  | start hbutton hdeferred =>
    -- With a client and no connection to be reported, no `Connect` has failed since.
    obtain ⟨hconnect, hconnected, -⟩ := hp
    rintro (halive | ⟨-, hclient⟩)
    · exact hstreaming (.inl halive)
    · have hconnecting : l.connecting = false := by
        by_contra hconnecting
        obtain ⟨-, -, -, commands, hcommands⟩ := ho.connecting (by simpa using hconnecting)
        exact hconnect (by simp [hcommands])
      exact ⟨(h.notMem hclient hconnecting hconnected).1, hdeferred⟩
  | deliver hreports =>
    rw [hreports] at hstreaming
    rw [alive_handle, mem_handle_commands _ _ (by simp), handle_client, handle_reports]
    intro hstream
    obtain ⟨hfailed, hdeferred⟩ := hstreaming hstream
    rw [List.mem_cons, not_or] at hfailed
    exact ⟨hfailed.2, (handle_deferred (Ne.symm hfailed.1)).trans hdeferred⟩
  | performConnect hcommands halive =>
    have hstart := ho.start_notMem hcommands
    grind -linarith [Alive]
  | connectFailed hcommands hconnecting =>
    have hstream := (ho.connecting hconnecting).1
    simp [Alive, hstream]
  | _ => first | exact hstreaming | grind -linarith [Alive]

theorem alive_move (ho : l.Ordered) (h : l.Told) (hmove : Move event l l') :
    l'.Alive → .disconnected ∉ l'.reports := by
  have halive := h.alive
  cases hmove with
  | performStart hcommands halive hconnecting =>
    intro halive'
    have hclient : l.client = true := by
      by_contra hclient
      simp [Alive, hclient] at halive'
    have hconnected := ho.connected (.inr (by simp [hcommands]))
    exact (h.notMem hclient hconnecting hconnected).2.1
  | _ => first | exact halive | grind -linarith [Alive]

theorem move (ho : l.Ordered) (h : l.Told) (hmove : Move event l l')
    (hp : Undisturbed event l) : l'.Told :=
  { held := h.held_move hmove
    dropped := dropped_move ho h hmove
    streaming := streaming_move ho h hmove hp
    alive := alive_move ho h hmove }

end Told

end Link
end EdgeScope
