import EdgeScope.Agent.SanitizeUtf8

/-!
# The reads of `SanitizeUtf8`

The same function over an index. A read past the end of the input is a failure, as is a loop
that goes on for more rounds than it has been given.
-/

namespace EdgeScope.LogCollector
open Text

/-- The loop over the continuation bytes, `remaining` of which are left: whether they are ones,
and the code point. -/
def continuationsAt (input : Bytes) (index : ℕ) : ℕ → ℕ → ℕ → Option (Option ℕ)
  | 0, _, codePoint => some (some codePoint)
  | remaining + 1, offset, codePoint =>
    match input[index + offset]? with
    | none => none
    | some continuation =>
      if continuation.toNat &&& 0xC0 ≠ 0x80 then some none
      else
        continuationsAt input index remaining (offset + 1)
          ((codePoint <<< 6) ||| (continuation.toNat &&& 0x3F))

def validAt (input : Bytes) (index : ℕ) (l : Lead) : Option Bool :=
  if index + l.length ≤ input.length then
    match continuationsAt input index (l.length - 1) 1 l.codePoint with
    | none => none
    | some none => some false
    | some (some codePoint) =>
      some (l.minimum ≤ codePoint && codePoint ≤ 0x10FFFF &&
        !(0xD800 ≤ codePoint && codePoint ≤ 0xDFFF))
  else some false

def sanitizeFrom (input : Bytes) : ℕ → ℕ → Bytes → Option Bytes
  | 0, index, output => if index < input.length then none else some output
  | rounds + 1, index, output =>
    if index < input.length then
      match input[index]? with
      | none => none
      | some first =>
        if first.toNat < 0x80 then sanitizeFrom input rounds (index + 1) (output ++ [first])
        else
          match lead first.toNat with
          | none => sanitizeFrom input rounds (index + 1) (output ++ kReplacement)
          | some l =>
            match validAt input index l with
            | none => none
            | some true =>
              sanitizeFrom input rounds (index + l.length)
                (output ++ (input.drop index).take l.length)
            | some false => sanitizeFrom input rounds (index + 1) (output ++ kReplacement)
    else some output

theorem continuationsAt_eq (input : Bytes) (index : ℕ) {remaining offset : ℕ} (codePoint : ℕ)
    (h : index + offset + remaining ≤ input.length) :
    continuationsAt input index remaining offset codePoint =
      some (continuations codePoint ((input.drop (index + offset)).take remaining)) := by
  induction remaining generalizing offset codePoint with
  | zero => rfl
  | succ remaining ih =>
    have hlt : index + offset < input.length := by omega
    rw [continuationsAt, List.getElem?_eq_getElem hlt, List.drop_eq_getElem_cons hlt,
      List.take_succ_cons, continuations]
    simp only
    split
    · rfl
    · rw [ih _ (by omega), Nat.add_assoc]

theorem validAt_eq {input : Bytes} {index : ℕ} {l : Lead} (hl : 1 ≤ l.length)
    (hindex : index ≤ input.length) :
    validAt input index l = some (validSequence l (input.drop index)) := by
  unfold validAt validSequence
  have hlength : (input.drop index).length = input.length - index := List.length_drop
  by_cases hroom : index + l.length ≤ input.length
  · have hread : continuationsAt input index (l.length - 1) 1 l.codePoint =
        some (continuations l.codePoint ((input.drop (index + 1)).take (l.length - 1))) :=
      continuationsAt_eq input index l.codePoint (by omega)
    have htail : (input.drop (index + 1)).take (l.length - 1) =
        ((input.drop index).take l.length).tail := by
      obtain ⟨k, hk⟩ : ∃ k, l.length = k + 1 := ⟨l.length - 1, by omega⟩
      rw [hk, ← List.tail_drop, Nat.add_sub_cancel]
      cases input.drop index <;> simp
    have hfits : l.length ≤ (input.drop index).length := by omega
    rw [if_pos hroom, hread, htail, decide_eq_true hfits, Bool.true_and]
    cases continuations l.codePoint ((input.drop index).take l.length).tail <;> rfl
  · have hshort : ¬ l.length ≤ (input.drop index).length := by omega
    rw [if_neg hroom, decide_eq_false hshort, Bool.false_and]

/-- Every round reads inside the input and moves on, so as many rounds as there are bytes left
end the loop. -/
theorem sanitizeFrom_eq (input : Bytes) {rounds index : ℕ} (output : Bytes)
    (h : input.length ≤ index + rounds) :
    sanitizeFrom input rounds index output = some (output ++ sanitizeUtf8 (input.drop index)) := by
  -- a round reads the bytes of one character, or one byte
  induction rounds generalizing index output with
  | zero =>
    rw [sanitizeFrom, if_neg (by omega), List.drop_eq_nil_of_le (by omega), sanitizeUtf8_nil,
      List.append_nil]
  | succ rounds ih =>
    rw [sanitizeFrom]
    split
    · rename_i hlt
      have hcons := List.drop_eq_getElem_cons hlt
      rw [List.getElem?_eq_getElem hlt, hcons, sanitizeUtf8_cons, ← hcons]
      simp only
      by_cases hascii : input[index].toNat < 0x80
      · rw [if_pos hascii, if_pos hascii, ih _ (by omega), List.append_assoc]
        rfl
      · rw [if_neg hascii, if_neg hascii]
        have hreplace : sanitizeFrom input rounds (index + 1) (output ++ kReplacement) =
            some (output ++ (kReplacement ++ sanitizeUtf8 (input.drop (index + 1)))) := by
          rw [ih _ (by omega), List.append_assoc]
        cases hl : lead input[index].toNat with
        | none => exact hreplace
        | some l =>
          have hpos := lead_length_pos hl
          simp only
          rw [validAt_eq hpos hlt.le]
          cases validSequence l (input.drop index) with
          | false => exact hreplace
          | true =>
            simp only [if_true]
            rw [ih _ (by omega), List.append_assoc, List.drop_drop]
    · rename_i hend
      rw [List.drop_eq_nil_of_le (by omega), sanitizeUtf8_nil, List.append_nil]

/-- The repair changes exactly the strings that are not well-formed, and reads within them. -/
theorem sanitizeUtf8_repairs (input : Bytes) :
    WellFormed (sanitizeUtf8 input) ∧ (sanitizeUtf8 input = input ↔ WellFormed input) ∧
      sanitizeUtf8 (sanitizeUtf8 input) = sanitizeUtf8 input ∧
      sanitizeFrom input input.length 0 [] = some (sanitizeUtf8 input) := by
  have hrepaired := wellFormed_sanitizeUtf8 input
  refine ⟨hrepaired, ⟨fun h => h ▸ hrepaired, sanitizeUtf8_of_wellFormed⟩,
    sanitizeUtf8_of_wellFormed hrepaired, ?_⟩
  rw [sanitizeFrom_eq input [] (by omega)]
  rfl

end EdgeScope.LogCollector
