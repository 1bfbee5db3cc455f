import EdgeScope.Text.Utf8

/-!
# `LogCollector::SanitizeUtf8`

The repair of one string: every byte that does not begin a valid sequence is
replaced, and the scan resumes one byte later.
-/

namespace EdgeScope.LogCollector
open Text

def kReplacement : Bytes := [0xEF, 0xBF, 0xBD]

structure Lead where
  length : ℕ
  codePoint : ℕ
  minimum : ℕ

def lead (first : ℕ) : Option Lead :=
  if first &&& 0xE0 = 0xC0 then some ⟨2, first &&& 0x1F, 0x80⟩
  else if first &&& 0xF0 = 0xE0 then some ⟨3, first &&& 0x0F, 0x800⟩
  else if first &&& 0xF8 = 0xF0 then some ⟨4, first &&& 0x07, 0x10000⟩
  else none

/-- The loop over the continuation bytes: the code point, or `none` at the first
byte that is not one. -/
def continuations (codePoint : ℕ) : Bytes → Option ℕ
  | [] => some codePoint
  | continuation :: rest =>
    if continuation.toNat &&& 0xC0 ≠ 0x80 then none
    else continuations ((codePoint <<< 6) ||| (continuation.toNat &&& 0x3F)) rest

/-- Whether the sequence at the front of `input`, whose first byte announces `l`, is valid. -/
def validSequence (l : Lead) (input : Bytes) : Bool :=
  l.length ≤ input.length &&
    match continuations l.codePoint (input.take l.length).tail with
    | none => false
    | some codePoint =>
      l.minimum ≤ codePoint && codePoint ≤ 0x10FFFF &&
        !(0xD800 ≤ codePoint && codePoint ≤ 0xDFFF)

/-- The scan over the input still to be read. Every round reads at least one byte,
so the length of the input is fuel enough. -/
def sanitizeLoop : ℕ → Bytes → Bytes
  | 0, _ => []
  | _ + 1, [] => []
  | fuel + 1, first :: rest =>
    if first.toNat < 0x80 then first :: sanitizeLoop fuel rest
    else
      match lead first.toNat with
      | none => kReplacement ++ sanitizeLoop fuel rest
      | some l =>
        if validSequence l (first :: rest) then
          (first :: rest).take l.length ++ sanitizeLoop fuel ((first :: rest).drop l.length)
        else kReplacement ++ sanitizeLoop fuel rest

def sanitizeUtf8 (input : Bytes) : Bytes := sanitizeLoop input.length input

theorem lead_masks (n : Fin 256) :
    (n.val &&& 0xE0 = 0xC0 ↔ 0xC0 ≤ n.val ∧ n.val < 0xE0) ∧
    (n.val &&& 0xF0 = 0xE0 ↔ 0xE0 ≤ n.val ∧ n.val < 0xF0) ∧
    (n.val &&& 0xF8 = 0xF0 ↔ 0xF0 ≤ n.val ∧ n.val < 0xF8) ∧
    (n.val &&& 0xC0 = 0x80 ↔ 0x80 ≤ n.val ∧ n.val ≤ 0xBF) ∧
    n.val &&& 0x1F = n.val % 32 ∧ n.val &&& 0x0F = n.val % 16 ∧
    n.val &&& 0x07 = n.val % 8 ∧ n.val &&& 0x3F = n.val % 64 := by
  revert n
  decide +kernel

theorem masks (b : Byte) :
    (b.toNat &&& 0xE0 = 0xC0 ↔ 0xC0 ≤ b.toNat ∧ b.toNat < 0xE0) ∧
    (b.toNat &&& 0xF0 = 0xE0 ↔ 0xE0 ≤ b.toNat ∧ b.toNat < 0xF0) ∧
    (b.toNat &&& 0xF8 = 0xF0 ↔ 0xF0 ≤ b.toNat ∧ b.toNat < 0xF8) ∧
    (b.toNat &&& 0xC0 = 0x80 ↔ 0x80 ≤ b.toNat ∧ b.toNat ≤ 0xBF) ∧
    b.toNat &&& 0x1F = b.toNat % 32 ∧ b.toNat &&& 0x0F = b.toNat % 16 ∧
    b.toNat &&& 0x07 = b.toNat % 8 ∧ b.toNat &&& 0x3F = b.toNat % 64 :=
  lead_masks ⟨b.toNat, b.toNat_lt⟩

theorem lead_eq (b : Byte) : lead b.toNat =
    if 0xC0 ≤ b.toNat ∧ b.toNat < 0xE0 then some ⟨2, b.toNat % 32, 0x80⟩
    else if 0xE0 ≤ b.toNat ∧ b.toNat < 0xF0 then some ⟨3, b.toNat % 16, 0x800⟩
    else if 0xF0 ≤ b.toNat ∧ b.toNat < 0xF8 then some ⟨4, b.toNat % 8, 0x10000⟩
    else none := by
  obtain ⟨h2, h3, h4, -, m2, m3, m4, -⟩ := masks b
  simp only [lead, h2, h3, h4, m2, m3, m4]

theorem continuations_cons (n : ℕ) (b : Byte) (s : Bytes) : continuations n (b :: s) =
    if 0x80 ≤ b.toNat ∧ b.toNat ≤ 0xBF then continuations (n * 64 + b.toNat % 64) s else none := by
  obtain ⟨-, -, -, hc, -, -, -, m6⟩ := masks b
  have hor : n <<< 6 ||| b.toNat % 64 = n * 64 + b.toNat % 64 := by
    rw [← Nat.shiftLeft_add_eq_or_of_lt (Nat.mod_lt _ (by decide)), Nat.shiftLeft_eq]
  simp only [continuations, ne_eq, hc, m6, ite_not, hor]

@[simp] theorem continuations_nil (n : ℕ) : continuations n [] = some n := rfl

theorem lead_length_pos {b : Byte} {l : Lead} (hl : lead b.toNat = some l) : 1 ≤ l.length := by
  rw [lead_eq] at hl
  split_ifs at hl <;> cases hl <;> simp

/-- The scan does not depend on the fuel beyond the length of the input. -/
theorem sanitizeLoop_fuel {fuel fuel' : ℕ} {s : Bytes} (h : s.length ≤ fuel)
    (h' : s.length ≤ fuel') : sanitizeLoop fuel s = sanitizeLoop fuel' s := by
  induction fuel generalizing fuel' s with
  | zero =>
    obtain rfl := List.length_eq_zero_iff.mp (Nat.le_zero.mp h)
    cases fuel' <;> rfl
  | succ fuel ih =>
    cases s with
    | nil => cases fuel' <;> rfl
    | cons first rest =>
      obtain ⟨fuel', rfl⟩ : ∃ k, fuel' = k + 1 := ⟨fuel' - 1, by simp at h'; omega⟩
      simp only [List.length_cons, Nat.add_le_add_iff_right] at h h'
      simp only [sanitizeLoop]
      rw [ih h h']
      split
      · rfl
      · split
        · rfl
        · rename_i l hl
          have hpos := lead_length_pos hl
          have hdrop : ((first :: rest).drop l.length).length ≤ rest.length := by simp; omega
          rw [ih (hdrop.trans h) (hdrop.trans h')]

theorem sanitizeUtf8_cons (first : Byte) (rest : Bytes) : sanitizeUtf8 (first :: rest) =
    if first.toNat < 0x80 then first :: sanitizeUtf8 rest
    else
      match lead first.toNat with
      | none => kReplacement ++ sanitizeUtf8 rest
      | some l =>
        if validSequence l (first :: rest) then
          (first :: rest).take l.length ++ sanitizeUtf8 ((first :: rest).drop l.length)
        else kReplacement ++ sanitizeUtf8 rest := by
  rw [sanitizeUtf8, List.length_cons, sanitizeLoop]
  split
  · rfl
  · cases hl : lead first.toNat with
    | none => rfl
    | some l =>
      have hpos := lead_length_pos hl
      have hdrop : ((first :: rest).drop l.length).length ≤ rest.length := by simp; omega
      simp only
      rw [sanitizeLoop_fuel hdrop le_rfl]
      rfl

@[simp] theorem sanitizeUtf8_nil : sanitizeUtf8 [] = [] := rfl

theorem isCharacter_of_lead_none {first : Byte} (h : ¬ first.toNat < 0x80)
    (hl : lead first.toNat = none) (rest : Bytes) : ¬ IsCharacter (first :: rest) := by
  intro hc
  rw [lead_eq] at hl
  split_ifs at hl
  rcases rest with - | ⟨b, - | ⟨c, - | ⟨e, - | ⟨f, s⟩⟩⟩⟩
  · rw [isCharacter_one] at hc; omega
  · rw [isCharacter_two] at hc; omega
  · rw [isCharacter_three] at hc; omega
  · rw [isCharacter_four] at hc; omega
  · rcases hc.cases with ⟨_, h⟩ | ⟨_, _, h⟩ | ⟨_, _, _, h⟩ | ⟨_, _, _, _, h⟩ <;> simp at h

/-- The length a lead byte announces is the length of every character it begins. -/
theorem length_of_isCharacter {first : Byte} {rest : Bytes} {l : Lead}
    (hc : IsCharacter (first :: rest)) (hl : lead first.toNat = some l) :
    (first :: rest).length = l.length := by
  rw [lead_eq] at hl
  rcases rest with - | ⟨b, - | ⟨c, - | ⟨e, - | ⟨f, s⟩⟩⟩⟩
  · rw [isCharacter_one] at hc
    split_ifs at hl <;> omega
  · rw [isCharacter_two] at hc
    split_ifs at hl <;> first | omega | (cases hl; rfl)
  · rw [isCharacter_three] at hc
    split_ifs at hl <;> first | omega | (cases hl; rfl)
  · rw [isCharacter_four] at hc
    split_ifs at hl <;> first | omega | (cases hl; rfl)
  · rcases hc.cases with ⟨_, h⟩ | ⟨_, _, h⟩ | ⟨_, _, _, h⟩ | ⟨_, _, _, _, h⟩ <;> simp at h

/-- The arithmetic test accepts exactly the sequences of the table. -/
theorem validSequence_iff {first : Byte} {l : Lead} (hl : lead first.toNat = some l)
    (rest : Bytes) :
    validSequence l (first :: rest) = true ↔ IsCharacter ((first :: rest).take l.length) := by
  rw [lead_eq] at hl
  split_ifs at hl with h2 h3 h4 <;> cases hl
  · rcases rest with - | ⟨b, s⟩
    · simp [validSequence, isCharacter_one]
      omega
    · simp only [validSequence, List.take_succ_cons, List.take_zero, List.tail_cons,
        continuations_cons, continuations_nil, isCharacter_two]
      split_ifs <;> simp <;> omega
  · rcases rest with - | ⟨b, - | ⟨c, s⟩⟩
    · simp [validSequence, isCharacter_one]
      omega
    · simp [validSequence, isCharacter_two]
      omega
    · simp only [validSequence, List.take_succ_cons, List.take_zero, List.tail_cons,
        continuations_cons, continuations_nil, isCharacter_three]
      split_ifs <;> simp <;> omega
  · rcases rest with - | ⟨b, - | ⟨c, - | ⟨e, s⟩⟩⟩
    · simp [validSequence, isCharacter_one]
      omega
    · simp [validSequence, isCharacter_two]
      omega
    · simp [validSequence, isCharacter_three]
      omega
    · simp only [validSequence, List.take_succ_cons, List.take_zero, List.tail_cons,
        continuations_cons, continuations_nil, isCharacter_four]
      split_ifs <;> simp <;> omega

/-- A character at the front is copied. -/
theorem sanitizeUtf8_append_of_isCharacter {c : Bytes} (hc : IsCharacter c) (s : Bytes) :
    sanitizeUtf8 (c ++ s) = c ++ sanitizeUtf8 s := by
  obtain ⟨first, rest, rfl⟩ := List.exists_cons_of_ne_nil hc.ne_nil
  rw [List.cons_append, sanitizeUtf8_cons]
  rcases hc.head with ⟨hlt, rfl⟩ | ⟨hge, -⟩
  · simp [hlt]
  · have hhigh : ¬ first.toNat < 0x80 := by omega
    rw [if_neg hhigh]
    cases hl : lead first.toNat with
    | none => exact absurd hc (isCharacter_of_lead_none hhigh hl rest)
    | some l =>
      have hlen := length_of_isCharacter hc hl
      have htake : (first :: (rest ++ s)).take l.length = first :: rest := by
        rw [← List.cons_append, ← hlen, List.take_left]
      have hdrop : (first :: (rest ++ s)).drop l.length = s := by
        rw [← List.cons_append, ← hlen, List.drop_left]
      have hvalid : validSequence l (first :: (rest ++ s)) = true := by
        rw [validSequence_iff hl, htake]
        exact hc
      simp only [hvalid, if_true, htake, hdrop, List.cons_append]

/-- A byte that begins no character is replaced, and the scan resumes at the next byte. -/
theorem sanitizeUtf8_cons_of_not_isCharacter {first : Byte} {rest : Bytes}
    (h : ∀ c, c <+: first :: rest → ¬ IsCharacter c) :
    sanitizeUtf8 (first :: rest) = kReplacement ++ sanitizeUtf8 rest := by
  have hhigh : ¬ first.toNat < 0x80 := by
    intro hlt
    exact h [first] (by simp) ((isCharacter_one first).mpr hlt)
  rw [sanitizeUtf8_cons, if_neg hhigh]
  cases hl : lead first.toNat with
  | none => rfl
  | some l =>
    have hvalid : validSequence l (first :: rest) = false := by
      rw [← Bool.not_eq_true, validSequence_iff hl]
      exact h _ (List.take_prefix _ _)
    simp [hvalid]

/-- Induction along the scan: a character comes off, or one byte that begins none. -/
@[elab_as_elim] theorem sanitize_induction {motive : Bytes → Prop} (nil : motive [])
    (character : ∀ c s, IsCharacter c → motive s → motive (c ++ s))
    (malformed : ∀ first rest, (∀ c, c <+: first :: rest → ¬ IsCharacter c) → motive rest →
      motive (first :: rest)) (s : Bytes) : motive s := by
  induction hn : s.length using Nat.strong_induction_on generalizing s with
  | _ n ih =>
    cases s with
    | nil => exact nil
    | cons first rest =>
      by_cases h : ∃ c, c <+: first :: rest ∧ IsCharacter c
      · obtain ⟨c, ⟨s, hs⟩, hc⟩ := h
        have hpos := List.length_pos_of_ne_nil hc.ne_nil
        have hlen := congrArg List.length hs
        rw [List.length_append] at hlen
        rw [← hs]
        exact character c s hc (ih s.length (by omega) s rfl)
      · push Not at h
        exact malformed first rest h (ih rest.length (by simp at hn; omega) rest rfl)

theorem isCharacter_kReplacement : IsCharacter kReplacement := by decide

theorem wellFormed_sanitizeUtf8 (s : Bytes) : WellFormed (sanitizeUtf8 s) := by
  induction s using sanitize_induction with
  | nil => exact .nil
  | character c s hc ih =>
    rw [sanitizeUtf8_append_of_isCharacter hc]
    exact .character hc ih
  | malformed first rest h ih =>
    rw [sanitizeUtf8_cons_of_not_isCharacter h]
    exact .character isCharacter_kReplacement ih

theorem sanitizeUtf8_of_wellFormed {s : Bytes} (h : WellFormed s) : sanitizeUtf8 s = s := by
  induction h with
  | nil => rfl
  | character hc _ ih => rw [sanitizeUtf8_append_of_isCharacter hc, ih]

end EdgeScope.LogCollector
