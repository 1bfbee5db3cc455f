import EdgeScope.Text.Trim

/-!
# What the extraction operators accept

A text begins with a word or with a number, behind white space, and goes on with something that
is no part of it. The operators read exactly that.
-/

namespace EdgeScope.Text

def BeginsWithWord (word rest s : Bytes) : Prop :=
  ∃ blank, s = blank ++ (word ++ rest) ∧ IsBlank blank ∧ IsWord word ∧ EndsWord rest

/-- The number fits the word, or is the negative of one that does. -/
def BeginsWithNumber (value : ℕ) (rest s : Bytes) : Prop :=
  ∃ blank sign digits, s = blank ++ (sign ++ (digits ++ rest)) ∧ IsBlank blank ∧ IsSign sign ∧
    IsDigits digits ∧ Ends isDigit rest ∧ digitsValue digits < wordSize ∧
    value = signedValue sign digits

def BeginsWithNumbers : List ℕ → Bytes → Bytes → Prop
  | [], rest, s => rest = s
  | value :: values, rest, s =>
    ∃ middle, BeginsWithNumber value middle s ∧ BeginsWithNumbers values rest middle

theorem isBlank_takeWhile (s : Bytes) : IsBlank (s.takeWhile isSpace) := fun _ hb =>
  List.mem_takeWhile_imp hb

theorem scanWord_eq_some_iff {s word rest : Bytes} :
    scanWord s = some (word, rest) ↔ BeginsWithWord word rest s := by
  constructor
  · intro h
    let text := s.dropWhile isSpace
    have hread : text.takeWhile (!isSpace ·) = word ∧ word ≠ [] ∧
        text.dropWhile (!isSpace ·) = rest := by
      unfold scanWord at h
      split at h
      · cases h
      · rename_i hne
        cases h
        exact ⟨rfl, hne, rfl⟩
    obtain ⟨hword, hne, hrest⟩ := hread
    refine ⟨s.takeWhile isSpace, ?_, isBlank_takeWhile s, ⟨hne, fun b hb => ?_⟩, fun b hb => ?_⟩
    · rw [← hword, ← hrest, List.takeWhile_append_dropWhile, List.takeWhile_append_dropWhile]
    · rw [← hword] at hb
      simpa using List.mem_takeWhile_imp hb
    · have hends := ends_dropWhile (!isSpace ·) text b (hrest ▸ hb)
      simpa using hends
  · rintro ⟨blank, rfl, hblank, hword, hends⟩
    exact scanWord_append hblank hword hends

theorem scanDigits_eq_some {s rest : Bytes} {negative : Bool} {magnitude : ℕ}
    (h : scanDigits s = some (negative, magnitude, rest)) :
    ∃ blank sign digits, s = blank ++ (sign ++ (digits ++ rest)) ∧ IsBlank blank ∧ IsSign sign ∧
      IsDigits digits ∧ Ends isDigit rest := by
  obtain ⟨hsign, hsplit⟩ := splitSign_spec (s.dropWhile isSpace)
  simp only [scanDigits] at h
  generalize splitSign (s.dropWhile isSpace) = parts at h hsign hsplit
  obtain ⟨sign, unsigned⟩ := parts
  simp only at h hsign hsplit
  split at h
  · cases h
  · rename_i hne
    cases h
    refine ⟨s.takeWhile isSpace, sign, unsigned.takeWhile isDigit, ?_, isBlank_takeWhile s, hsign,
      ⟨hne, fun b hb => List.mem_takeWhile_imp hb⟩, ends_dropWhile isDigit unsigned⟩
    rw [List.takeWhile_append_dropWhile, hsplit, List.takeWhile_append_dropWhile]

theorem scanUInt64_eq_some_iff {s rest : Bytes} {value : ℕ} :
    scanUInt64 s = some (value, rest) ↔ BeginsWithNumber value rest s := by
  constructor
  · intro h
    cases hdigits : scanDigits s with
    | none => simp [scanUInt64, hdigits] at h
    | some read =>
      obtain ⟨negative, magnitude, rest'⟩ := read
      obtain ⟨blank, sign, digits, rfl, hblank, hsign, hisDigits, hends⟩ :=
        scanDigits_eq_some hdigits
      rw [scanUInt64_append hblank hsign hisDigits hends] at h
      split at h
      · rename_i hfits
        cases h
        exact ⟨blank, sign, digits, rfl, hblank, hsign, hisDigits, hends, hfits, rfl⟩
      · cases h
  · rintro ⟨blank, sign, digits, rfl, hblank, hsign, hdigits, hends, hfits, rfl⟩
    rw [scanUInt64_append hblank hsign hdigits hends, if_pos hfits]

end EdgeScope.Text
