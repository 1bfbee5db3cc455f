import EdgeScope.Agent.SanitizeReads
import EdgeScope.Text.Lines
import EdgeScope.Text.Utf8Cuts

/-!
# The seams of `SanitizeUtf8`

The repair of a concatenation is the concatenation of the repairs wherever the second part
begins anew, so damage does not reach across a character or a newline.
-/

namespace EdgeScope.LogCollector
open Text

/-- The lead bytes near the end of `x` may announce bytes of `y`. What they announce is no
character, in `x ++ y` as in `x`. -/
theorem sanitizeUtf8_append {y : Bytes} (hy : BeginsAnew y) (x : Bytes) :
    sanitizeUtf8 (x ++ y) = sanitizeUtf8 x ++ sanitizeUtf8 y := by
  induction x using sanitize_induction with
  | nil => rfl
  | character c s hc ih =>
    rw [List.append_assoc, sanitizeUtf8_append_of_isCharacter hc,
      sanitizeUtf8_append_of_isCharacter hc, ih, List.append_assoc]
  | malformed first rest h ih =>
    have hseam : ∀ c, c <+: first :: (rest ++ y) → ¬ IsCharacter c := by
      intro c hprefix hc
      exact h c (hc.prefix_of_append hprefix (List.cons_ne_nil first rest) hy) hc
    rw [List.cons_append, sanitizeUtf8_cons_of_not_isCharacter hseam,
      sanitizeUtf8_cons_of_not_isCharacter h, ih, List.append_assoc]

theorem sanitizeUtf8_append_character (x : Bytes) {c : Bytes} (hc : IsCharacter c) (y : Bytes) :
    sanitizeUtf8 (x ++ c ++ y) = sanitizeUtf8 x ++ c ++ sanitizeUtf8 y := by
  rw [List.append_assoc, sanitizeUtf8_append (hc.beginsAnew y),
    sanitizeUtf8_append_of_isCharacter hc, List.append_assoc]

/-- The repair adds no ASCII byte and takes none away. -/
theorem mem_sanitizeUtf8_iff {b : Byte} (hb : b.toNat < 0x80) (s : Bytes) :
    b ∈ sanitizeUtf8 s ↔ b ∈ s := by
  have hreplacement : b ∉ kReplacement := by
    intro hmem
    simp only [kReplacement, List.mem_cons, List.not_mem_nil, or_false] at hmem
    obtain rfl | rfl | rfl := hmem <;> exact absurd hb (by decide)
  induction s using sanitize_induction with
  | nil => simp
  | character c s hc ih => simp [sanitizeUtf8_append_of_isCharacter hc, ih]
  | malformed first rest h ih =>
    have hfirst : b ≠ first := by
      rintro rfl
      exact h [b] (by simp) ((isCharacter_one b).mpr hb)
    simp [sanitizeUtf8_cons_of_not_isCharacter h, hreplacement, hfirst, ih]

theorem newline_mem_sanitizeUtf8_iff (s : Bytes) : newline ∈ sanitizeUtf8 s ↔ newline ∈ s :=
  mem_sanitizeUtf8_iff (by decide) s

theorem cut_sanitizeUtf8 (text : Bytes) : cut newline (sanitizeUtf8 text) =
    ((terminated newline text).map sanitizeUtf8, sanitizeUtf8 (unterminated newline text)) := by
  induction text using pieces_induction newline with
  | rest s h =>
    rw [cut_of_notMem (mt (newline_mem_sanitizeUtf8_iff s).mp h), terminated_of_notMem h,
      unterminated_of_notMem h, List.map_nil]
  | piece p s hp ih =>
    have hnewline : IsCharacter [newline] := by decide
    have hsplit : sanitizeUtf8 (p ++ newline :: s) =
        sanitizeUtf8 p ++ newline :: sanitizeUtf8 s := by
      have := sanitizeUtf8_append_character p hnewline s
      simpa using this
    rw [hsplit, cut_append_cons (mt (newline_mem_sanitizeUtf8_iff p).mp hp), terminated,
      unterminated, ih, terminated_append_cons hp, unterminated_append_cons hp, List.map_cons]

theorem sanitizeUtf8_eq_nil_iff (s : Bytes) : sanitizeUtf8 s = [] ↔ s = [] := by
  induction s using sanitize_induction with
  | nil => simp
  | character c s hc _ => simp [sanitizeUtf8_append_of_isCharacter hc, hc.ne_nil]
  | malformed first rest h _ => simp [sanitizeUtf8_cons_of_not_isCharacter h, kReplacement]

/-- Damage ends where something begins anew: at a character, at a newline. -/
theorem sanitizeUtf8_contains_damage :
    (∀ x y, BeginsAnew y → sanitizeUtf8 (x ++ y) = sanitizeUtf8 x ++ sanitizeUtf8 y) ∧
    (∀ x c y, IsCharacter c →
      sanitizeUtf8 (x ++ c ++ y) = sanitizeUtf8 x ++ c ++ sanitizeUtf8 y) ∧
    (∀ text, cut newline (sanitizeUtf8 text) =
      ((terminated newline text).map sanitizeUtf8, sanitizeUtf8 (unterminated newline text))) ∧
    ∀ text, getlines newline (sanitizeUtf8 text) =
      (getlines newline text).map sanitizeUtf8 := by
  refine ⟨fun x y hy => sanitizeUtf8_append hy x,
    fun x c y hc => sanitizeUtf8_append_character x hc y, cut_sanitizeUtf8, fun text => ?_⟩
  have hcut := cut_sanitizeUtf8 text
  have hterminated : terminated newline (sanitizeUtf8 text) =
      (terminated newline text).map sanitizeUtf8 := congrArg Prod.fst hcut
  have hrest : unterminated newline (sanitizeUtf8 text) =
      sanitizeUtf8 (unterminated newline text) := congrArg Prod.snd hcut
  simp only [getlines, hterminated, hrest, sanitizeUtf8_eq_nil_iff, List.map_append]
  split <;> rfl

end EdgeScope.LogCollector
