import EdgeScope.Agent.LogFragments
import EdgeScope.Agent.SanitizeSeams
import EdgeScope.Agent.StreamChunks
import Mathlib.Algebra.Group.Action.Defs
import Mathlib.Algebra.Order.BigOperators.Group.List
import Mathlib.Algebra.Order.Ring.Nat

/-!
# The limit of 4096 bytes

Both ways to a log cut a line before they repair it. The repair lengthens a line by two bytes
for each one it replaces, and a cut inside a character makes bytes that have to be replaced.
-/

namespace EdgeScope
open Text

namespace LogCollector

theorem length_sanitizeUtf8 (s : Bytes) : (sanitizeUtf8 s).length = s.length + 2 * malformed s := by
  induction s using sanitize_induction with
  | nil => rfl
  | character c s hc ih =>
    rw [sanitizeUtf8_append_of_isCharacter hc, malformed_append_of_isCharacter hc]
    simp only [List.length_append, ih]
    omega
  | malformed first rest h ih =>
    rw [sanitizeUtf8_cons_of_not_isCharacter h, malformed_cons_of_not_isCharacter h]
    simp only [List.length_append, List.length_cons, ih]
    rw [show kReplacement.length = 3 from rfl]
    omega

/-- The first 4096 bytes leave room for what the repair adds to them. -/
def FitsLimit (line : Bytes) : Prop :=
  (line.take kMaximumLineLength).length + 2 * malformed (line.take kMaximumLineLength) ≤
    kMaximumLineLength

instance (line : Bytes) : Decidable (FitsLimit line) := inferInstanceAs (Decidable (_ ≤ _))

theorem length_deliveredText_le_iff (line : Bytes) :
    (deliveredText line).length ≤ kMaximumLineLength ↔ FitsLimit line := by
  rw [deliveredText, length_sanitizeUtf8, FitsLimit]

def replacements (count : ℕ) : Bytes := (List.replicate count kReplacement).flatten

theorem replacements_succ (count : ℕ) :
    replacements (count + 1) = kReplacement ++ replacements count := by
  rw [replacements, List.replicate_succ, List.flatten_cons, replacements]

theorem sanitizeUtf8_of_continuations {s : Bytes} (h : ∀ b ∈ s, IsContinuation b) :
    sanitizeUtf8 s = replacements s.length := by
  induction s with
  | nil => rfl
  | cons b s ih =>
    have hb : ∀ c, c <+: b :: s → ¬ IsCharacter c := by
      rintro c ⟨rest, hrest⟩ hc
      have hanew := hc.beginsAnew rest
      rw [hrest, beginsAnew_cons] at hanew
      exact hanew (h b List.mem_cons_self)
    rw [sanitizeUtf8_cons_of_not_isCharacter hb, ih fun b' hb' => h b' (List.mem_cons_of_mem _ hb'),
      List.length_cons, replacements_succ]

theorem sanitizeUtf8_front {front back : Bytes} (h : IsCharacter (front ++ back))
    (hback : back ≠ []) : sanitizeUtf8 front = replacements front.length := by
  cases front with
  | nil => rfl
  | cons a front =>
    have hprefix : ∀ c, c <+: a :: front → ¬ IsCharacter c := by
      rintro c ⟨rest, hrest⟩ hc
      have hwhole : c ++ (rest ++ back) = a :: front ++ back ++ [] := by
        rw [← List.append_assoc, hrest, List.append_nil]
      have hsame : c = a :: front ++ back := hc.eq_of_append_eq h hwhole
      have hlong := congrArg List.length hrest
      rw [hsame] at hlong
      have hpos := List.length_pos_of_ne_nil hback
      simp only [List.length_append] at hlong
      omega
    have hcontinuations : ∀ b ∈ front, IsContinuation b :=
      fun b hb => h.continuation b (List.mem_append_left _ hb)
    rw [sanitizeUtf8_cons_of_not_isCharacter hprefix, sanitizeUtf8_of_continuations hcontinuations,
      List.length_cons, replacements_succ]

/-- The text delivered for a well-formed line goes on as the line does: byte 4096 is between two
characters, or it is inside a replacement character, and every byte of that one which is in front
of the cut has a replacement character to stand for it. -/
def CutIsClean (line : Bytes) : Prop :=
  BeginsAnew (line.drop kMaximumLineLength) ∨
    kReplacement <+: line.drop (kMaximumLineLength - 1) ∨
    kReplacement ++ kReplacement <+: line.drop (kMaximumLineLength - 2)

instance (line : Bytes) : Decidable (CutIsClean line) :=
  inferInstanceAs (Decidable (_ ∨ _ ∨ _))

/-- A replacement character cannot begin inside a character. -/
theorem not_kReplacement_prefix_of_continuation {b : Byte} (hb : IsContinuation b) (s : Bytes) :
    ¬ kReplacement <+: b :: s := by
  rw [kReplacement, List.cons_prefix_cons]
  rintro ⟨rfl, -⟩
  exact absurd hb (by decide)

theorem kReplacement_prefix_iff {c after : Bytes} (hc : IsCharacter c) :
    kReplacement <+: c ++ after ↔ c = kReplacement := by
  constructor
  · rintro ⟨rest, hrest⟩
    exact (isCharacter_kReplacement.eq_of_append_eq hc hrest).symm
  · rintro rfl
    exact List.prefix_append _ _

/-- Where `limit` is inside a character, up to three bytes of it are in front. -/
theorem replacements_prefix_iff {before front back : Bytes} {limit : ℕ}
    (hlimit : (before ++ front).length = limit) (htwo : 2 ≤ limit)
    (hc : IsCharacter (front ++ back)) (hfront : front ≠ []) (hback : back ≠ [])
    (after : Bytes) : replacements front.length <+: front ++ (back ++ after) ↔
      kReplacement <+: (before ++ front ++ (back ++ after)).drop (limit - 1) ∨
        kReplacement ++ kReplacement <+: (before ++ front ++ (back ++ after)).drop (limit - 2) := by
  have hdrop (k : ℕ) (hk : k ≤ front.length) :
      (before ++ front ++ (back ++ after)).drop (limit - k) =
        front.drop (front.length - k) ++ (back ++ after) := by
    have hlength : limit - k = before.length + (front.length - k) := by
      rw [List.length_append] at hlimit
      omega
    rw [hlength, List.append_assoc, List.drop_length_add_append,
      List.drop_append_of_le_length (Nat.sub_le _ _)]
  rcases front with - | ⟨a, - | ⟨b, - | ⟨e, front⟩⟩⟩
  · exact absurd rfl hfront
  · -- one byte is in front of the cut, so two replacements would begin before the character
    rw [hdrop 1 le_rfl]
    refine ⟨.inl, fun h => h.resolve_right fun htwice => ?_⟩
    obtain ⟨first, b, rfl⟩ : ∃ first b, before = first ++ [b] := by
      refine ⟨before.dropLast, before.getLast ?_, (List.dropLast_append_getLast _).symm⟩
      rintro rfl
      simp at hlimit
      omega
    have hlength : limit - 2 = first.length := by
      simp only [List.length_append, List.length_singleton] at hlimit
      omega
    rw [hlength, List.append_assoc, List.append_assoc, List.drop_left] at htwice
    simp only [kReplacement, List.cons_append, List.nil_append, List.cons_prefix_cons] at htwice
    have hanew := hc.beginsAnew []
    rw [List.singleton_append, List.cons_append, beginsAnew_cons, ← htwice.2.1] at hanew
    exact hanew (by decide)
  · have hb : IsContinuation b := hc.continuation b (by simp)
    rw [hdrop 1 (by simp), hdrop 2 le_rfl]
    refine ⟨.inr, fun h => h.resolve_left ?_⟩
    exact not_kReplacement_prefix_of_continuation hb _
  · -- the character has four bytes, the replacement character three
    obtain ⟨rfl, x, rfl⟩ : front = [] ∧ ∃ x, back = [x] := by
      have hlength := hc.length_mem
      have hpos := List.length_pos_of_ne_nil hback
      simp only [List.length_append, List.length_cons, List.mem_cons, List.not_mem_nil,
        or_false] at hlength
      exact ⟨List.length_eq_zero_iff.mp (by omega), List.length_eq_one_iff.mp (by omega)⟩
    have hb : IsContinuation b := hc.continuation b (by simp)
    have he : IsContinuation e := hc.continuation e (by simp)
    rw [hdrop 1 (by simp), hdrop 2 (by simp)]
    refine iff_of_false (fun h => ?_) ?_
    · have hone : kReplacement <+: [a, b, e] ++ [x] ++ after := by
        rw [List.append_assoc]
        exact (List.prefix_append _ _).trans h
      have := congrArg List.length ((kReplacement_prefix_iff hc).mp hone)
      simp [kReplacement] at this
    · rintro (h | h)
      · exact not_kReplacement_prefix_of_continuation he _ h
      · exact not_kReplacement_prefix_of_continuation hb _ ((List.prefix_append _ _).trans h)

/-- The text delivered for a well-formed line is the beginning of the line exactly where the cut
is clean. -/
theorem deliveredText_prefix_iff {line : Bytes} (h : WellFormed line) :
    deliveredText line <+: line ↔ CutIsClean line := by
  by_cases hcut : BeginsAnew (line.drop kMaximumLineLength)
  · refine iff_of_true ?_ (.inl hcut)
    rw [deliveredText, sanitizeUtf8_of_wellFormed ((h.take_iff _).mpr hcut)]
    exact List.take_prefix _ _
  · have hline : line.take kMaximumLineLength ++ line.drop kMaximumLineLength = line :=
      List.take_append_drop _ _
    rw [← hline] at h
    obtain ⟨before, front, back, after, htake, hdrop, hbefore, hc, hfront, hback⟩ :=
      h.cut_character hcut
    have hlimit : (before ++ front).length = kMaximumLineLength := by
      rw [← htake, List.length_take, min_eq_left]
      by_contra hshort
      rw [List.drop_of_length_le (by omega)] at hcut
      exact hcut beginsAnew_nil
    have hanew : BeginsAnew front := by
      have := hc.beginsAnew []
      cases front with
      | nil => exact absurd rfl hfront
      | cons a front => simpa using this
    have htext : deliveredText line = before ++ replacements front.length := by
      rw [deliveredText, htake, sanitizeUtf8_append hanew, sanitizeUtf8_of_wellFormed hbefore,
        sanitizeUtf8_front hc hback]
    have hwhole : line = before ++ front ++ (back ++ after) := by rw [← hline, htake, hdrop]
    have hclean := replacements_prefix_iff hlimit (by decide) hc hfront hback after
    rw [← hwhole] at hclean
    rw [htext, CutIsClean, or_iff_right hcut, ← hclean, hwhole, List.append_assoc,
      List.prefix_append_right_inj]

def answeredLines (contents keyword : Bytes) (maxLines : ℕ) : List Bytes :=
  (matchingLines keyword (contents.rtake kMaximumScanBytes)).rtake maxLines

section ReadLog

variable {collector : LogCollector} {openFile : OpenFile} {logId : Bytes} {log : AllowedLog}
  {contents keyword : Bytes} {maxLines : ℕ} {result : LogReadResult}
  (hlog : collector.findAllowedLog logId = some log)
  (hopen : openFile log.path = .ok (.ofContents contents))
  (hread : collector.readLog openFile logId maxLines keyword = .ok result)

include hlog hopen hread

theorem readLog_delivered :
    result.lines = (answeredLines contents keyword maxLines).map deliveredText := by
  rw [readLog_window hlog hopen hread, map_rtake, answeredLines]

theorem readLog_withinLimit_iff :
    (∀ text ∈ result.lines, text.length ≤ kMaximumLineLength) ∧
        (result.lines.map List.length).sum ≤ maxLines * kMaximumLineLength ↔
      ∀ line ∈ answeredLines contents keyword maxLines, FitsLimit line := by
  have hlines := readLog_delivered hlog hopen hread
  have hcount : result.lines.length ≤ maxLines := by
    rw [hlines, List.length_map, answeredLines, length_rtake]
    exact min_le_left _ _
  have hsum (h : ∀ text ∈ result.lines, text.length ≤ kMaximumLineLength) :
      (result.lines.map List.length).sum ≤ maxLines * kMaximumLineLength := by
    calc (result.lines.map List.length).sum
        ≤ (result.lines.map List.length).length • kMaximumLineLength := by
          apply List.sum_le_card_nsmul
          simpa using h
      _ ≤ maxLines * kMaximumLineLength := by
          rw [List.length_map, smul_eq_mul]
          exact Nat.mul_le_mul_right _ hcount
  rw [and_iff_left_of_imp hsum, hlines]
  simp only [List.mem_map, forall_exists_index, and_imp, forall_apply_eq_imp_iff₂,
    length_deliveredText_le_iff]

end ReadLog
end LogCollector

namespace StreamLog
open LogCollector (FitsLimit deliveredText stripCarriageReturn)

/-- The bytes an iteration cuts into lines: those it has kept and those it reads. -/
def received (p : Poll) (s : StreamState) : Bytes :=
  match p.status with
  | none => []
  | some status =>
    let s := resetIfReplaced status s
    if s.offset < status.size then s.partialLine ++ appended p.file s.offset else []

theorem poll_written (keyword : Bytes) (writer : ℕ → Bool) (p : Poll) (s : StreamState) :
    let result := poll keyword writer p s
    (result.2 = false → result.1.written = s.written ++ outputs keyword (received p s)) ∧
      result.1.written <+: s.written ++ outputs keyword (received p s) := by
  have hnone : s.written = s.written ++ outputs keyword [] := by simp [outputs]
  unfold poll received
  cases p.status with
  | none => exact ⟨fun _ => hnone, hnone ▸ List.prefix_rfl⟩
  | some status =>
    have hsame := resetIfReplaced_written status s
    simp only
    split
    · obtain ⟨hdone, hprefix⟩ := drainLines_spec keyword writer
        (resetIfReplaced status s).written (le_refl ((resetIfReplaced status s).partialLine ++
          appended p.file (resetIfReplaced status s).offset).length)
      rw [← hsame]
      exact ⟨fun h => (hdone h).2, hprefix⟩
    · rw [hsame]
      exact ⟨fun _ => hnone, hnone ▸ List.prefix_rfl⟩

theorem written_prefix_run (keyword : Bytes) (writer : ℕ → Bool) (polls : List Poll)
    {s : StreamState} (h : (run keyword writer polls s).2 = false) :
    s.written <+: (run keyword writer polls s).1.written := by
  induction polls generalizing s with
  | nil => exact List.prefix_rfl
  | cons p polls ih =>
    cases hpoll : (poll keyword writer p s).2 with
    | true =>
      rw [run, Runs.run_cons, hpoll] at h
      cases h
    | false =>
      rw [run_cons_of_unbroken hpoll] at h ⊢
      refine List.IsPrefix.trans ?_ (ih h)
      rw [(poll_written keyword writer p s).1 hpoll]
      exact List.prefix_append _ _

/-- The rule for what is sent: a property of all lines written is one of what the iterations have
to send. -/
theorem run_written_iff {Q : Bytes → Prop} (keyword : Bytes) (writer : ℕ → Bool)
    (polls : List Poll) {s : StreamState} (hs : ∀ text ∈ s.written, Q text) :
    let steps := Runs.Throughout (poll keyword writer)
      (fun p s => ∀ text ∈ outputs keyword (received p s), Q text) polls s
    (steps → ∀ text ∈ (run keyword writer polls s).1.written, Q text) ∧
      ((run keyword writer polls s).2 = false →
        (∀ text ∈ (run keyword writer polls s).1.written, Q text) → steps) := by
  intro steps
  constructor
  · intro hsteps
    refine (hsteps.run (I := fun s => ∀ text ∈ s.written, Q text)
      (Q := fun s => ∀ text ∈ s.written, Q text) (fun _ h => h) ?_ hs).2
    intro p s hs hp
    have hnext : ∀ text ∈ (poll keyword writer p s).1.written, Q text := by
      intro text htext
      obtain hbefore | hnow := List.mem_append.mp
        ((poll_written keyword writer p s).2.subset htext)
      · exact hs text hbefore
      · exact hp text hnow
    exact ⟨fun _ => hnext, hnext⟩
  · intro hgoes hwritten
    -- a poll that does not stop the run has written all its responses
    induction polls generalizing s with
    | nil => trivial
    | cons p polls ih =>
      cases hpoll : (poll keyword writer p s).2 with
      | true =>
        rw [run, Runs.run_cons, hpoll] at hgoes
        cases hgoes
      | false =>
        rw [run_cons_of_unbroken hpoll] at hgoes hwritten
        have hsent : ∀ text ∈ (poll keyword writer p s).1.written, Q text :=
          fun text htext =>
            hwritten text ((written_prefix_run keyword writer polls hgoes).subset htext)
        refine ⟨fun text htext => hsent text ?_, fun _ => ih hsent hgoes hwritten⟩
        rw [(poll_written keyword writer p s).1 hpoll]
        exact List.mem_append_right _ htext

theorem firstBytes_eq_some_iff {keyword line text : Bytes} :
    firstBytes keyword line = some text ↔
      keyword <:+: (stripCarriageReturn line).take kLineLimit ∧
        deliveredText (stripCarriageReturn line) = text := by
  simp only [firstBytes]
  split <;> simp_all [deliveredText, kLineLimit, LogCollector.kMaximumLineLength]

def LinesFit (keyword : Bytes) (p : Poll) (s : StreamState) : Prop :=
  ∀ line ∈ terminated newline (received p s),
    keyword <:+: (stripCarriageReturn line).take kLineLimit → FitsLimit (stripCarriageReturn line)

instance (keyword : Bytes) (p : Poll) (s : StreamState) : Decidable (LinesFit keyword p s) :=
  inferInstanceAs (Decidable (∀ line ∈ _, _ → _))

theorem linesFit_iff (keyword : Bytes) (p : Poll) (s : StreamState) :
    (∀ text ∈ outputs keyword (received p s), text.length ≤ kLineLimit) ↔
      LinesFit keyword p s := by
  simp only [outputs, List.mem_filterMap, streamLine_eq, firstBytes_eq_some_iff, LinesFit,
    ← LogCollector.length_deliveredText_le_iff]
  constructor
  · intro h line hline hkeyword
    exact h _ ⟨line, hline, hkeyword, rfl⟩
  · rintro h text ⟨line, hline, hkeyword, rfl⟩
    exact h line hline hkeyword

theorem poll_line {keyword : Bytes} (writer : ℕ → Bool) {p : Poll} {s : StreamState}
    {before line after : Bytes} (hreceived : received p s = before ++ line ++ newline :: after)
    (hbefore : unterminated newline before = []) (hline : newline ∉ line)
    (hkeyword : keyword <:+: (stripCarriageReturn line).take kLineLimit) :
    let result := poll keyword writer p s
    let place := s.written.length + (outputs keyword before).length
    (result.2 = false →
      result.1.written[place]? = some (deliveredText (stripCarriageReturn line))) ∧
      ∀ text, result.1.written[place]? = some text →
        text = deliveredText (stripCarriageReturn line) := by
  intro result place
  have hsent : (s.written ++ outputs keyword (received p s))[place]? =
      some (deliveredText (stripCarriageReturn line)) := by
    have hfirst : streamLine keyword line = some (deliveredText (stripCarriageReturn line)) := by
      rw [streamLine_eq, firstBytes_eq_some_iff]
      exact ⟨hkeyword, rfl⟩
    have hsplit : outputs keyword (received p s) = outputs keyword before ++
        deliveredText (stripCarriageReturn line) :: outputs keyword after := by
      rw [hreceived, List.append_assoc]
      conv_lhs => rw [outputs, terminated_append_of_unterminated_eq_nil hbefore,
        List.filterMap_append]
      rw [← outputs, ← outputs, outputs_append_cons keyword hline, hfirst]
      rfl
    rw [hsplit, ← List.append_assoc, List.getElem?_append_right (by simp [place])]
    simp [place]
  obtain ⟨hdone, hprefix⟩ := poll_written keyword writer p s
  refine ⟨fun hgoes => by rw [hdone hgoes, hsent], fun text htext => ?_⟩
  obtain ⟨more, hmore⟩ := hprefix
  have hlt : place < result.1.written.length := (List.getElem?_eq_some_iff.mp htext).1
  have hsame : (result.1.written ++ more)[place]? = result.1.written[place]? :=
    List.getElem?_append_left hlt
  rw [hmore, hsent, htext] at hsame
  exact (Option.some.inj hsame).symm

end StreamLog

open LogCollector StreamLog

/-- What either way delivers keeps to 4096 bytes a line exactly as long as every line it takes has
room for its repair. -/
theorem lines_withinLimit_iff (collector : LogCollector) (openFile : OpenFile) (logId : Bytes)
    (log : AllowedLog) (contents keyword : Bytes) (maxLines : ℕ) (result : LogReadResult)
    (hlog : collector.findAllowedLog logId = some log)
    (hopen : openFile log.path = .ok (.ofContents contents))
    (hread : collector.readLog openFile logId maxLines keyword = .ok result)
    (writer : ℕ → Bool) (startAtEnd : Bool) (status : FileStatus) (polls : List Poll) :
    let served := StreamLog.run keyword writer polls (start startAtEnd status)
    let fits := Runs.Throughout (poll keyword writer) (LinesFit keyword) polls
      (start startAtEnd status)
    ((∀ text ∈ result.lines, text.length ≤ 4096) ∧
        (result.lines.map List.length).sum ≤ maxLines * 4096 ↔
      ∀ line ∈ answeredLines contents keyword maxLines, FitsLimit line) ∧
    (fits → ∀ text ∈ served.1.written, text.length ≤ 4096) ∧
    (served.2 = false → (∀ text ∈ served.1.written, text.length ≤ 4096) → fits) := by
  intro served fits
  have hrule := run_written_iff (Q := fun text => text.length ≤ kLineLimit) keyword writer polls
    (s := start startAtEnd status) (by simp [start])
  simp only [linesFit_iff] at hrule
  exact ⟨readLog_withinLimit_iff hlog hopen hread, hrule⟩

/-- A short line with a malformed byte, read and streamed. -/
theorem lines_withinLimit_short :
    let polls := [Poll.ofView (some ⟨1, ascii "a" ++ [0xFF, newline]⟩)]
    let served := StreamLog.run [] (fun _ => true) polls (start false ⟨1, 0⟩)
    (LogCollector.create []).readLog (fun _ => .ok (.ofContents (ascii "a" ++ [0xFF])))
        (ascii "system") 5 [] = .ok ⟨[ascii "a" ++ kReplacement], false⟩ ∧
      (ascii "a" ++ kReplacement).length ≤ 4096 ∧
      served.1.written = [ascii "a" ++ kReplacement] ∧
      ∀ text ∈ served.1.written, text.length ≤ 4096 := by
  intro polls served
  obtain ⟨hanswer, hstream, -⟩ := lines_withinLimit_iff (.create [])
    (fun _ => .ok (.ofContents (ascii "a" ++ [0xFF]))) (ascii "system")
    ⟨ascii "system", ascii "System log", ascii "/var/log/syslog"⟩ (ascii "a" ++ [0xFF]) [] 5
    ⟨[ascii "a" ++ kReplacement], false⟩ rfl rfl rfl (fun _ => true) false ⟨1, 0⟩ polls
  exact ⟨rfl, (hanswer.mpr (by decide)).1 _ (List.mem_singleton_self _), by decide,
    hstream (by decide)⟩

theorem readLog_one_line {line : Bytes} (hne : line ≠ [])
    (hline : ∀ b ∈ line, b ≠ newline ∧ b ≠ carriageReturn)
    (hsize : line.length ≤ kMaximumScanBytes) : ∃ result,
    (LogCollector.create []).readLog (fun _ => .ok (.ofContents line)) (ascii "system") 1 [] =
      .ok result ∧ result.lines = [deliveredText line] := by
  have hlog : (LogCollector.create []).findAllowedLog (ascii "system") =
    some ⟨ascii "system", ascii "System log", ascii "/var/log/syslog"⟩ := rfl
  obtain ⟨result, hread⟩ : ∃ result, (LogCollector.create []).readLog
      (fun _ => .ok (.ofContents line)) (ascii "system") 1 [] = .ok result :=
    exists_readLog hlog rfl (by decide) (by decide)
  refine ⟨result, hread, ?_⟩
  rw [readLog_delivered hlog rfl hread, answeredLines, rtake_of_length_le hsize, matchingLines_nil,
    fileLines_of_one_line hne hline]
  rfl

/-- A line of 1366 bytes that belong to no character is delivered as 4098 bytes. -/
theorem lines_beyondLimit :
    (∃ result, (LogCollector.create []).readLog
        (fun _ => .ok (.ofContents (List.replicate 1366 0x80))) (ascii "system") 1 [] =
          .ok result ∧ ∃ text ∈ result.lines, text.length = 4098) ∧
      ∃ text ∈ (StreamLog.run [] (fun _ => true)
        [.ofView (some ⟨1, List.replicate 1366 0x80 ++ [newline]⟩)]
        (start false ⟨1, 0⟩)).1.written, text.length = 4098 := by
  generalize hstray : List.replicate 1366 (0x80 : Byte) = stray
  have hbytes : ∀ b ∈ stray, b = 0x80 := by
    rw [← hstray]
    exact fun b hb => List.eq_of_mem_replicate hb
  have hlength : stray.length = 1366 := by rw [← hstray, List.length_replicate]
  have hne : stray ≠ [] := List.ne_nil_of_length_pos (by omega)
  have hplain : ∀ b ∈ stray, b ≠ newline ∧ b ≠ carriageReturn := by
    intro b hb
    rw [hbytes b hb]
    decide
  have htext : (deliveredText stray).length = 4098 := by
    have hrepaired : deliveredText stray = replacements stray.length := by
      rw [deliveredText, List.take_of_length_le (by rw [hlength]; decide)]
      refine sanitizeUtf8_of_continuations fun b hb => ?_
      rw [hbytes b hb]
      decide
    rw [hrepaired, hlength, replacements, List.length_flatten, List.map_replicate,
      List.sum_replicate]
    decide
  constructor
  · obtain ⟨result, hread, hlines⟩ := readLog_one_line hne hplain (by rw [hlength]; decide)
    exact ⟨result, hread, _, by rw [hlines]; exact List.mem_singleton_self _, htext⟩
  · have hnewline : newline ∉ stray := fun hmem => (hplain _ hmem).1 rfl
    have hreturn : stripCarriageReturn stray = stray :=
      if_neg fun hlast => (hplain _ (List.mem_of_getLast? hlast)).2 rfl
    have hwritten := run_one_read [] (fun _ => rfl : ∀ n, (fun _ => true : ℕ → Bool) n = true) 1
      hnewline (by rw [hlength]; decide)
    have hfirst : firstBytes [] stray = some (deliveredText stray) := by
      rw [firstBytes_eq_some_iff, hreturn]
      exact ⟨List.nil_infix, rfl⟩
    rw [hwritten, hfirst]
    exact ⟨_, List.mem_singleton_self _, htext⟩

/-- What either way delivers for a well-formed line of more than 4096 bytes is the beginning of the
line exactly where the cut is clean. A line that arrives in one read is one of those the iteration
cuts, whole. -/
theorem shortened_text_iff (collector : LogCollector) (openFile : OpenFile) (logId : Bytes)
    (log : AllowedLog) (contents keyword : Bytes) (maxLines : ℕ) (result : LogReadResult)
    (hlog : collector.findAllowedLog logId = some log)
    (hopen : openFile log.path = .ok (.ofContents contents))
    (hread : collector.readLog openFile logId maxLines keyword = .ok result)
    (writer : ℕ → Bool) (p : Poll) (s : StreamState) :
    (∀ (i : ℕ) (line : Bytes), (answeredLines contents keyword maxLines)[i]? = some line →
      WellFormed line → 4096 < line.length →
        ∃ text, result.lines[i]? = some text ∧ (text <+: line ↔ CutIsClean line)) ∧
    ∀ before line after, received p s = before ++ line ++ newline :: after →
      unterminated newline before = [] → newline ∉ line →
      WellFormed (stripCarriageReturn line) → 4096 < (stripCarriageReturn line).length →
      keyword <:+: (stripCarriageReturn line).take kLineLimit →
        let served := poll keyword writer p s
        let place := s.written.length + (outputs keyword before).length
        (served.2 = false → ∃ text, served.1.written[place]? = some text) ∧
          ∀ text, served.1.written[place]? = some text →
            (text <+: stripCarriageReturn line ↔ CutIsClean (stripCarriageReturn line)) := by
  constructor
  · intro i line hline hwell _
    refine ⟨deliveredText line, ?_, deliveredText_prefix_iff hwell⟩
    rw [readLog_delivered hlog hopen hread, List.getElem?_map, hline, Option.map_some]
  · intro before line after hreceived hbefore hline hwell _ hkeyword served place
    obtain ⟨hsent, htext⟩ := poll_line writer hreceived hbefore hline hkeyword
    refine ⟨fun hgoes => ⟨_, hsent hgoes⟩, fun text hplace => ?_⟩
    rw [htext text hplace]
    exact deliveredText_prefix_iff hwell

def letters (count : ℕ) : Bytes := List.replicate count (charByte 'a') ++ [0xC3, 0xA9]

theorem wellFormed_letters (count : ℕ) : WellFormed (letters count) := by
  have hletters : ∀ b ∈ List.replicate count (charByte 'a'), b.toNat < 0x80 := by
    intro b hb
    rw [List.eq_of_mem_replicate hb]
    decide
  rw [letters, wellFormed_ascii_append_iff hletters]
  exact IsCharacter.wellFormed (by decide)

theorem plain_letters (count : ℕ) : ∀ b ∈ letters count, b ≠ newline ∧ b ≠ carriageReturn := by
  intro b hb
  obtain hb | hb := List.mem_append.mp hb
  · rw [List.eq_of_mem_replicate hb]
    decide
  · simp only [List.mem_cons, List.not_mem_nil, or_false] at hb
    obtain rfl | rfl := hb <;> decide

theorem letters_ne_nil (count : ℕ) : letters count ≠ [] := by simp [letters]

@[simp] theorem length_letters (count : ℕ) : (letters count).length = count + 2 := by
  simp [letters]

theorem drop_letters {count k : ℕ} (h : k ≤ count) :
    (letters count).drop k = letters (count - k) := by
  rw [letters, List.drop_append_of_le_length (by simpa using h), List.drop_replicate, letters]

theorem cutIsClean_letters : CutIsClean (letters 4096) := by
  refine .inl ?_
  rw [kMaximumLineLength, drop_letters le_rfl]
  decide

theorem not_cutIsClean_letters : ¬ CutIsClean (letters 4095) := by
  have hinside : (letters 4095).drop 4096 = ((letters 4095).drop 4095).drop 1 := by
    rw [List.drop_drop]
  have hzero : (letters 4095).drop 4095 = letters 0 := drop_letters le_rfl
  have hone : (letters 4095).drop 4094 = letters 1 := drop_letters (by decide)
  simp only [CutIsClean, kMaximumLineLength, hinside, hzero, Nat.reduceSub, hone]
  decide

/-- Byte 4096 is the first one of the `é`, which is left out. -/
theorem shortened_text_between : ∃ result text,
    (LogCollector.create []).readLog (fun _ => .ok (.ofContents (letters 4096))) (ascii "system")
      1 [] = .ok result ∧ result.lines[0]? = some text ∧ text <+: letters 4096 := by
  have hsize : (letters 4096).length ≤ kMaximumScanBytes := by
    rw [length_letters]
    decide
  obtain ⟨result, hread, -⟩ := readLog_one_line (letters_ne_nil 4096) (plain_letters 4096) hsize
  have hline : (answeredLines (letters 4096) [] 1)[0]? = some (letters 4096) := by
    rw [answeredLines, rtake_of_length_le hsize, matchingLines_nil,
      fileLines_of_one_line (letters_ne_nil 4096) (plain_letters 4096)]
    rfl
  obtain ⟨text, htext, hprefix⟩ := (shortened_text_iff (.create [])
    (fun _ => .ok (.ofContents (letters 4096))) (ascii "system")
    ⟨ascii "system", ascii "System log", ascii "/var/log/syslog"⟩ (letters 4096) [] 1 result rfl rfl
    hread (fun _ => true) ⟨none, .error .enoent⟩ (start false ⟨1, 0⟩)).1 0 (letters 4096) hline
    (wellFormed_letters 4096) (by rw [length_letters]; decide)
  exact ⟨result, text, hread, htext, hprefix.mpr cutIsClean_letters⟩

/-- Byte 4096 is the second one of the `é`, and a replacement character is delivered that the
line has not. -/
theorem shortened_text_cut :
    (∃ result text, (LogCollector.create []).readLog
        (fun _ => .ok (.ofContents (letters 4095))) (ascii "system") 1 [] = .ok result ∧
          result.lines = [text] ∧ ¬ text <+: letters 4095) ∧
      ∃ text, (StreamLog.run [] (fun _ => true)
        [.ofView (some ⟨1, letters 4095 ++ [newline]⟩)]
        (start false ⟨1, 0⟩)).1.written = [text] ∧ ¬ text <+: letters 4095 := by
  have hcut : ¬ deliveredText (letters 4095) <+: letters 4095 := by
    rw [deliveredText_prefix_iff (wellFormed_letters 4095)]
    exact not_cutIsClean_letters
  constructor
  · obtain ⟨result, hread, hlines⟩ := readLog_one_line (letters_ne_nil 4095) (plain_letters 4095)
      (by rw [length_letters]; decide)
    exact ⟨result, _, hread, hlines, hcut⟩
  · have hnewline : newline ∉ letters 4095 := fun hmem => (plain_letters 4095 _ hmem).1 rfl
    have hreturn : stripCarriageReturn (letters 4095) = letters 4095 :=
      if_neg fun hlast => (plain_letters 4095 _ (List.mem_of_getLast? hlast)).2 rfl
    have hwritten := run_one_read [] (fun _ => rfl : ∀ n, (fun _ => true : ℕ → Bool) n = true) 1
      hnewline (by rw [length_letters]; decide)
    have hfirst : firstBytes [] (letters 4095) = some (deliveredText (letters 4095)) := by
      rw [firstBytes_eq_some_iff, hreturn]
      exact ⟨List.nil_infix, rfl⟩
    exact ⟨_, by rw [hwritten, hfirst]; rfl, hcut⟩

end EdgeScope
