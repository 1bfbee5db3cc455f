import EdgeScope.Text.Utf8

/-!
# Cuts through UTF-8

A cut falls between two characters when the byte behind it continues none. The bytes that
belong to no character are counted, too.
-/

namespace EdgeScope.Text

/-- A byte that only occurs inside a character. -/
def IsContinuation (b : Byte) : Prop := 0x80 ≤ b.toNat ∧ b.toNat ≤ 0xBF

instance (b : Byte) : Decidable (IsContinuation b) :=
  inferInstanceAs (Decidable (_ ∧ _))

/-- No character that has begun before goes on in `s`. -/
def BeginsAnew (s : Bytes) : Prop := ∀ b ∈ s.head?, ¬ IsContinuation b

instance (s : Bytes) : Decidable (BeginsAnew s) :=
  Option.decidableForallMem (p := fun b => ¬ IsContinuation b) s.head?

@[simp] theorem beginsAnew_nil : BeginsAnew [] := by simp [BeginsAnew]

@[simp] theorem beginsAnew_cons (b : Byte) (s : Bytes) :
    BeginsAnew (b :: s) ↔ ¬ IsContinuation b := by
  simp [BeginsAnew]

/-- What is behind the first byte of a character does not begin anew. -/
theorem IsCharacter.not_beginsAnew {x y : Bytes} (h : IsCharacter (x ++ y)) (hx : x ≠ [])
    (hy : y ≠ []) : ¬ BeginsAnew y := by
  obtain ⟨a, x, rfl⟩ := List.exists_cons_of_ne_nil hx
  obtain ⟨b, y, rfl⟩ := List.exists_cons_of_ne_nil hy
  rw [beginsAnew_cons, not_not]
  exact h.continuation b (List.mem_append_right _ List.mem_cons_self)

theorem IsCharacter.beginsAnew {c : Bytes} (h : IsCharacter c) (s : Bytes) :
    BeginsAnew (c ++ s) := by
  obtain ⟨a, c, rfl⟩ := List.exists_cons_of_ne_nil h.ne_nil
  rw [List.cons_append, beginsAnew_cons]
  unfold IsContinuation
  obtain ⟨ha, -⟩ | ⟨ha, -⟩ := h.head <;> omega

theorem IsCharacter.prefix_of_append {c x y : Bytes} (hc : IsCharacter c) (h : c <+: x ++ y)
    (hx : x ≠ []) (hy : BeginsAnew y) : c <+: x := by
  obtain ⟨rest, hrest⟩ := h
  obtain ⟨x', rfl, -⟩ | ⟨y', rfl, rfl⟩ := List.append_eq_append_iff.mp hrest
  · exact List.prefix_append c x'
  · cases y' with
    | nil => simp
    | cons b y' =>
      refine absurd ?_ (hc.not_beginsAnew hx (List.cons_ne_nil b y'))
      rwa [List.cons_append, beginsAnew_cons, ← beginsAnew_cons b y'] at hy

theorem WellFormed.beginsAnew {s : Bytes} (h : WellFormed s) : BeginsAnew s := by
  cases h with
  | nil => exact beginsAnew_nil
  | character hc _ => exact hc.beginsAnew _

theorem WellFormed.append_iff {x : Bytes} (hx : WellFormed x) (y : Bytes) :
    WellFormed (x ++ y) ↔ WellFormed y := by
  induction hx with
  | nil => rfl
  | character hc _ ih => rw [List.append_assoc, hc.wellFormed_append_iff, ih]

/-- A part of a well-formed string that ends between two characters is well formed. -/
theorem WellFormed.of_append {x y : Bytes} (h : WellFormed (x ++ y)) (hy : BeginsAnew y) :
    WellFormed x := by
  generalize hz : x ++ y = z at h
  induction h generalizing x with
  | nil => rw [(List.append_eq_nil_iff.mp hz).1]; exact .nil
  | @character c s hc _ ih =>
    by_cases hx : x = []
    · rw [hx]; exact .nil
    · obtain ⟨x', rfl⟩ := hc.prefix_of_append ⟨s, hz.symm⟩ hx hy
      rw [List.append_assoc] at hz
      exact .character hc (ih (List.append_cancel_left hz))

theorem WellFormed.take_iff {s : Bytes} (h : WellFormed s) (n : ℕ) :
    WellFormed (s.take n) ↔ BeginsAnew (s.drop n) := by
  rw [← List.take_append_drop n s] at h
  exact ⟨fun htake => ((htake.append_iff _).mp h).beginsAnew, h.of_append⟩

/-- A cut that does not fall between two characters falls inside one. -/
theorem WellFormed.cut_character {x y : Bytes} (h : WellFormed (x ++ y)) (hy : ¬ BeginsAnew y) :
    ∃ before front back after, x = before ++ front ∧ y = back ++ after ∧ WellFormed before ∧
      IsCharacter (front ++ back) ∧ front ≠ [] ∧ back ≠ [] := by
  generalize hz : x ++ y = z at h
  induction h generalizing x with
  | nil =>
    rw [(List.append_eq_nil_iff.mp hz).2] at hy
    exact absurd beginsAnew_nil hy
  | @character c s hc hs ih =>
    obtain ⟨back, rfl, rfl⟩ | ⟨x', rfl, rfl⟩ := List.append_eq_append_iff.mp hz
    · -- the cut is in this character, or in front of it
      by_cases hx : x = []
      · rw [hx, List.nil_append] at hc
        exact absurd (hc.beginsAnew s) hy
      · refine ⟨[], x, back, s, rfl, rfl, .nil, hc, hx, ?_⟩
        rintro rfl
        exact hy hs.beginsAnew
    · obtain ⟨before, front, back, after, rfl, rfl, hbefore, hcharacter⟩ := ih rfl
      exact ⟨c ++ before, front, back, after, by rw [List.append_assoc], rfl,
        .character hc hbefore, hcharacter⟩

/-- The length of the character at the front. -/
def characterLength (s : Bytes) : Option ℕ :=
  [1, 2, 3, 4].find? fun n => n ≤ s.length ∧ IsCharacter (s.take n)

/-- The count behind the next `skip` bytes. -/
def malformedBehind : ℕ → Bytes → ℕ
  | _, [] => 0
  | skip + 1, _ :: s => malformedBehind skip s
  | 0, b :: s =>
    match characterLength (b :: s) with
    | none => 1 + malformedBehind 0 s
    | some length => malformedBehind (length - 1) s

/-- How many bytes belong to no character. -/
def malformed (s : Bytes) : ℕ := malformedBehind 0 s

example : malformed (ascii "a" ++ [0xE2, 0x82, 0xC3, 0xA9, 0xFF]) = 3 := by decide

theorem malformedBehind_length (x s : Bytes) : malformedBehind x.length (x ++ s) = malformed s := by
  induction x with
  | nil => rfl
  | cons b x ih => exact ih

theorem IsCharacter.length_mem {c : Bytes} (h : IsCharacter c) : c.length ∈ [1, 2, 3, 4] := by
  obtain ⟨a, rfl⟩ | ⟨a, b, rfl⟩ | ⟨a, b, e, rfl⟩ | ⟨a, b, e, f, rfl⟩ := h.cases <;> simp

theorem characterLength_append {c : Bytes} (hc : IsCharacter c) (s : Bytes) :
    characterLength (c ++ s) = some c.length := by
  have hfound : (characterLength (c ++ s)).isSome := by
    rw [characterLength, List.find?_isSome]
    exact ⟨c.length, hc.length_mem, by simpa using hc⟩
  obtain ⟨n, hn⟩ := Option.isSome_iff_exists.mp hfound
  have hat : n ≤ (c ++ s).length ∧ IsCharacter ((c ++ s).take n) := by
    unfold characterLength at hn
    simpa using List.find?_some hn
  have hsame : c = (c ++ s).take n :=
    hc.eq_of_append_eq hat.2 (List.take_append_drop n (c ++ s)).symm
  rw [hn, hsame, List.length_take_of_le hat.1]

theorem characterLength_eq_none {s : Bytes} (h : ∀ c, c <+: s → ¬ IsCharacter c) :
    characterLength s = none := by
  rw [characterLength, List.find?_eq_none]
  intro n _ hn
  exact h _ (List.take_prefix n s) (of_decide_eq_true hn).2

@[simp] theorem malformed_nil : malformed [] = 0 := rfl

theorem malformed_append_of_isCharacter {c : Bytes} (hc : IsCharacter c) (s : Bytes) :
    malformed (c ++ s) = malformed s := by
  obtain ⟨b, x, rfl⟩ := List.exists_cons_of_ne_nil hc.ne_nil
  have hlength := characterLength_append hc s
  rw [List.cons_append] at hlength
  rw [List.cons_append, malformed, malformedBehind, hlength]
  exact malformedBehind_length x s

theorem malformed_cons_of_not_isCharacter {b : Byte} {s : Bytes}
    (h : ∀ c, c <+: b :: s → ¬ IsCharacter c) : malformed (b :: s) = 1 + malformed s := by
  rw [malformed, malformedBehind, characterLength_eq_none h]
  rfl

end EdgeScope.Text
