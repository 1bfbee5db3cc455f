import EdgeScope.Text.Bytes

/-!
# Well-formed UTF-8

The table of well-formed byte sequences of the Unicode standard: one row for each
kind of character, giving the range of every byte. A string is well formed when it
is a concatenation of such sequences.
-/

namespace EdgeScope.Text

/-- The byte ranges of the table, row by row. -/
def wellFormedRows : List (List (ℕ × ℕ)) :=
  [[(0x00, 0x7F)],
   [(0xC2, 0xDF), (0x80, 0xBF)],
   [(0xE0, 0xE0), (0xA0, 0xBF), (0x80, 0xBF)],
   [(0xE1, 0xEC), (0x80, 0xBF), (0x80, 0xBF)],
   [(0xED, 0xED), (0x80, 0x9F), (0x80, 0xBF)],
   [(0xEE, 0xEF), (0x80, 0xBF), (0x80, 0xBF)],
   [(0xF0, 0xF0), (0x90, 0xBF), (0x80, 0xBF), (0x80, 0xBF)],
   [(0xF1, 0xF3), (0x80, 0xBF), (0x80, 0xBF), (0x80, 0xBF)],
   [(0xF4, 0xF4), (0x80, 0x8F), (0x80, 0xBF), (0x80, 0xBF)]]

def InRow : List (ℕ × ℕ) → Bytes → Prop
  | [], [] => True
  | (lo, hi) :: row, b :: s => (lo ≤ b.toNat ∧ b.toNat ≤ hi) ∧ InRow row s
  | [], _ :: _ => False
  | _ :: _, [] => False

instance decidableInRow : ∀ row s, Decidable (InRow row s)
  | [], [] => inferInstanceAs (Decidable True)
  | (lo, hi) :: row, b :: s =>
    have := decidableInRow row s
    inferInstanceAs (Decidable ((lo ≤ b.toNat ∧ b.toNat ≤ hi) ∧ InRow row s))
  | [], _ :: _ => inferInstanceAs (Decidable False)
  | _ :: _, [] => inferInstanceAs (Decidable False)

/-- One encoded character. -/
def IsCharacter (s : Bytes) : Prop := ∃ row ∈ wellFormedRows, InRow row s

instance (s : Bytes) : Decidable (IsCharacter s) :=
  inferInstanceAs (Decidable (∃ row ∈ wellFormedRows, InRow row s))

inductive WellFormed : Bytes → Prop
  | nil : WellFormed []
  | character {c s : Bytes} : IsCharacter c → WellFormed s → WellFormed (c ++ s)

theorem isCharacter_iff (s : Bytes) : IsCharacter s ↔
    InRow [(0x00, 0x7F)] s ∨ InRow [(0xC2, 0xDF), (0x80, 0xBF)] s ∨
    InRow [(0xE0, 0xE0), (0xA0, 0xBF), (0x80, 0xBF)] s ∨
    InRow [(0xE1, 0xEC), (0x80, 0xBF), (0x80, 0xBF)] s ∨
    InRow [(0xED, 0xED), (0x80, 0x9F), (0x80, 0xBF)] s ∨
    InRow [(0xEE, 0xEF), (0x80, 0xBF), (0x80, 0xBF)] s ∨
    InRow [(0xF0, 0xF0), (0x90, 0xBF), (0x80, 0xBF), (0x80, 0xBF)] s ∨
    InRow [(0xF1, 0xF3), (0x80, 0xBF), (0x80, 0xBF), (0x80, 0xBF)] s ∨
    InRow [(0xF4, 0xF4), (0x80, 0x8F), (0x80, 0xBF), (0x80, 0xBF)] s := by
  simp [IsCharacter, wellFormedRows]

theorem isCharacter_one (a : Byte) : IsCharacter [a] ↔ a.toNat < 0x80 := by
  simp only [isCharacter_iff, InRow, and_true, and_false, or_false]
  omega

theorem isCharacter_two (a b : Byte) : IsCharacter [a, b] ↔
    (0xC2 ≤ a.toNat ∧ a.toNat ≤ 0xDF) ∧ 0x80 ≤ b.toNat ∧ b.toNat ≤ 0xBF := by
  simp only [isCharacter_iff, InRow, and_true, and_false, or_false, false_or]

theorem isCharacter_three (a b c : Byte) : IsCharacter [a, b, c] ↔
    (0xE0 ≤ a.toNat ∧ a.toNat ≤ 0xEF) ∧ (0x80 ≤ b.toNat ∧ b.toNat ≤ 0xBF) ∧
    (0x80 ≤ c.toNat ∧ c.toNat ≤ 0xBF) ∧ (a.toNat = 0xE0 → 0xA0 ≤ b.toNat) ∧
    (a.toNat = 0xED → b.toNat ≤ 0x9F) := by
  simp only [isCharacter_iff, InRow, and_true, and_false, or_false, false_or]
  omega

theorem isCharacter_four (a b c e : Byte) : IsCharacter [a, b, c, e] ↔
    (0xF0 ≤ a.toNat ∧ a.toNat ≤ 0xF4) ∧ (0x80 ≤ b.toNat ∧ b.toNat ≤ 0xBF) ∧
    (0x80 ≤ c.toNat ∧ c.toNat ≤ 0xBF) ∧ (0x80 ≤ e.toNat ∧ e.toNat ≤ 0xBF) ∧
    (a.toNat = 0xF0 → 0x90 ≤ b.toNat) ∧ (a.toNat = 0xF4 → b.toNat ≤ 0x8F) := by
  simp only [isCharacter_iff, InRow, and_true, and_false, false_or]
  omega

/-- No character is empty or longer than four bytes. -/
theorem IsCharacter.cases {s : Bytes} (h : IsCharacter s) :
    (∃ a, s = [a]) ∨ (∃ a b, s = [a, b]) ∨ (∃ a b c, s = [a, b, c]) ∨
      ∃ a b c e, s = [a, b, c, e] := by
  rcases s with - | ⟨a, - | ⟨b, - | ⟨c, - | ⟨e, - | ⟨f, s⟩⟩⟩⟩⟩
  · simp [isCharacter_iff, InRow] at h
  · exact .inl ⟨a, rfl⟩
  · exact .inr (.inl ⟨a, b, rfl⟩)
  · exact .inr (.inr (.inl ⟨a, b, c, rfl⟩))
  · exact .inr (.inr (.inr ⟨a, b, c, e, rfl⟩))
  · simp [isCharacter_iff, InRow] at h

theorem IsCharacter.ne_nil {s : Bytes} (h : IsCharacter s) : s ≠ [] := by
  rintro rfl
  simp [isCharacter_iff, InRow] at h

/-- The first byte of a character is below `0x80` or a lead byte, never a continuation byte. -/
theorem IsCharacter.head {a : Byte} {s : Bytes} (h : IsCharacter (a :: s)) :
    a.toNat < 0x80 ∧ s = [] ∨ 0xC2 ≤ a.toNat ∧ s ≠ [] := by
  obtain ⟨b, hb⟩ | ⟨b, c, hb⟩ | ⟨b, c, e, hb⟩ | ⟨b, c, e, f, hb⟩ := h.cases <;>
    obtain ⟨rfl, rfl⟩ := List.cons.inj hb
  · exact .inl ⟨(isCharacter_one _).mp h, rfl⟩
  · exact .inr ⟨((isCharacter_two ..).mp h).1.1, by simp⟩
  · exact .inr ⟨by have := ((isCharacter_three ..).mp h).1.1; omega, by simp⟩
  · exact .inr ⟨by have := ((isCharacter_four ..).mp h).1.1; omega, by simp⟩

/-- Every byte of a character after its first one is a continuation byte. -/
theorem IsCharacter.continuation {a : Byte} {s : Bytes} (h : IsCharacter (a :: s)) :
    ∀ b ∈ s, 0x80 ≤ b.toNat ∧ b.toNat ≤ 0xBF := by
  obtain ⟨b, hb⟩ | ⟨b, c, hb⟩ | ⟨b, c, e, hb⟩ | ⟨b, c, e, f, hb⟩ := h.cases <;>
    obtain ⟨rfl, rfl⟩ := List.cons.inj hb
  · simp
  · have := (isCharacter_two ..).mp h
    simpa using this.2
  · have := (isCharacter_three ..).mp h
    simp only [List.mem_cons, List.not_mem_nil, or_false, forall_eq_or_imp, forall_eq]
    exact ⟨this.2.1, this.2.2.1⟩
  · have := (isCharacter_four ..).mp h
    simp only [List.mem_cons, List.not_mem_nil, or_false, forall_eq_or_imp, forall_eq]
    exact ⟨this.2.1, this.2.2.1, this.2.2.2.1⟩

/-- A character is not a proper prefix of another one. -/
theorem IsCharacter.eq_of_append_eq {c c' s s' : Bytes} (hc : IsCharacter c)
    (hc' : IsCharacter c') (h : c ++ s = c' ++ s') : c = c' := by
  obtain ⟨a, rfl⟩ | ⟨a, b, rfl⟩ | ⟨a, b, e, rfl⟩ | ⟨a, b, e, f, rfl⟩ := hc.cases <;>
    obtain ⟨a', rfl⟩ | ⟨a', b', rfl⟩ | ⟨a', b', e', rfl⟩ | ⟨a', b', e', f', rfl⟩ := hc'.cases <;>
    simp only [List.cons_append, List.nil_append, List.cons.injEq] at h <;>
    simp only [isCharacter_one, isCharacter_two, isCharacter_three, isCharacter_four] at hc hc' <;>
    obtain ⟨rfl, h⟩ := h <;> first | omega | simp_all

theorem WellFormed.append {x y : Bytes} (hx : WellFormed x) (hy : WellFormed y) :
    WellFormed (x ++ y) := by
  induction hx with
  | nil => exact hy
  | character hc _ ih => rw [List.append_assoc]; exact .character hc ih

theorem IsCharacter.wellFormed {c : Bytes} (h : IsCharacter c) : WellFormed c := by
  simpa using WellFormed.character h .nil

/-- A character in front of a string neither repairs nor breaks it. -/
theorem IsCharacter.wellFormed_append_iff {c s : Bytes} (hc : IsCharacter c) :
    WellFormed (c ++ s) ↔ WellFormed s := by
  refine ⟨fun h => ?_, .character hc⟩
  generalize hx : c ++ s = x at h
  cases h with
  | nil => exact absurd (List.append_eq_nil_iff.mp hx).1 hc.ne_nil
  | @character c' s' hc' hs' =>
    obtain rfl := hc.eq_of_append_eq hc' hx
    rwa [List.append_cancel_left hx]

theorem wellFormed_cons_iff_of_lt {a : Byte} (h : a.toNat < 0x80) (s : Bytes) :
    WellFormed (a :: s) ↔ WellFormed s :=
  ((isCharacter_one a).mpr h).wellFormed_append_iff (s := s)

theorem wellFormed_of_forall_lt {s : Bytes} (h : ∀ b ∈ s, b.toNat < 0x80) : WellFormed s := by
  induction s with
  | nil => exact .nil
  | cons a s ih =>
    rw [wellFormed_cons_iff_of_lt (h a List.mem_cons_self)]
    exact ih fun b hb => h b (List.mem_cons_of_mem _ hb)

theorem wellFormed_of_isAscii {s : Bytes} (h : isAscii s = true) : WellFormed s :=
  wellFormed_of_forall_lt (lt_of_isAscii h)

/-- A character is one ASCII byte, or has none. -/
theorem IsCharacter.ascii_or {c : Bytes} (h : IsCharacter c) :
    (∃ a, c = [a] ∧ a.toNat < 0x80) ∨ ∀ b ∈ c, 0x80 ≤ b.toNat := by
  cases c with
  | nil => exact absurd rfl h.ne_nil
  | cons a s =>
    obtain ⟨ha, rfl⟩ | ⟨ha, -⟩ := h.head
    · exact .inl ⟨a, rfl, ha⟩
    · refine .inr fun b hb => ?_
      obtain rfl | hb := List.mem_cons.mp hb
      · omega
      · exact (h.continuation b hb).1

theorem wellFormed_ascii_append_iff {x : Bytes} (hx : ∀ b ∈ x, b.toNat < 0x80) (s : Bytes) :
    WellFormed (x ++ s) ↔ WellFormed s := by
  induction x with
  | nil => rfl
  | cons a x ih =>
    rw [List.cons_append, wellFormed_cons_iff_of_lt (hx a List.mem_cons_self)]
    exact ih fun b hb => hx b (List.mem_cons_of_mem _ hb)

theorem wellFormed_singleton_iff (a : Byte) : WellFormed [a] ↔ a.toNat < 0x80 := by
  constructor
  · intro h
    generalize hs : [a] = s at h
    cases h with
    | nil => simp at hs
    | @character c s hc hrest =>
      obtain ⟨b, c, rfl⟩ := List.exists_cons_of_ne_nil hc.ne_nil
      obtain ⟨rfl, hnil⟩ := List.cons.inj hs
      obtain ⟨rfl, rfl⟩ := List.append_eq_nil_iff.mp hnil.symm
      exact (isCharacter_one _).mp hc
  · intro h
    exact ((isCharacter_one a).mpr h).wellFormed

/-- An ASCII byte at the end does not complete a character. -/
theorem wellFormed_append_singleton_iff {a : Byte} (ha : a.toNat < 0x80) (s : Bytes) :
    WellFormed (s ++ [a]) ↔ WellFormed s := by
  refine ⟨fun h => ?_, fun h => h.append ((wellFormed_singleton_iff a).mpr ha)⟩
  generalize hx : s ++ [a] = x at h
  induction h generalizing s with
  | nil => simp at hx
  | @character c t hc ht ih =>
    obtain ⟨t', rfl, htail⟩ | ⟨c', rfl, hcut⟩ := List.append_eq_append_iff.mp hx
    · -- the character reaches into the last byte, so it is that byte
      cases t' with
      | nil => simpa using hc.wellFormed
      | cons b t' =>
        obtain ⟨rfl, hnil⟩ := List.cons.inj htail
        obtain ⟨rfl, rfl⟩ := List.append_eq_nil_iff.mp hnil.symm
        obtain ⟨b, hb, -⟩ | hhigh := hc.ascii_or
        · cases s with
          | nil => exact .nil
          | cons b' s => simp at hb
        · have := hhigh a (List.mem_append_right _ List.mem_cons_self)
          omega
    · exact .character hc (ih c' hcut.symm)

theorem wellFormed_append_ascii_iff {x : Bytes} (hx : ∀ b ∈ x, b.toNat < 0x80) (s : Bytes) :
    WellFormed (s ++ x) ↔ WellFormed s := by
  induction x generalizing s with
  | nil => rw [List.append_nil]
  | cons a x ih =>
    rw [List.append_cons, ih fun b hb => hx b (List.mem_cons_of_mem _ hb),
      wellFormed_append_singleton_iff (hx a List.mem_cons_self)]

/-- A map that replaces ASCII bytes by ASCII bytes. -/
structure AsciiMap (f : Byte → Byte) : Prop where
  low : ∀ b, b.toNat < 0x80 → (f b).toNat < 0x80
  high : ∀ b, 0x80 ≤ b.toNat → f b = b

theorem AsciiMap.map_eq_self {f : Byte → Byte} (hf : AsciiMap f) {s : Bytes}
    (hs : ∀ b ∈ s, 0x80 ≤ b.toNat) : s.map f = s := by
  simpa using List.map_congr_left (g := id) fun b hb => hf.high b (hs b hb)

theorem AsciiMap.isCharacter_iff {f : Byte → Byte} (hf : AsciiMap f) (s : Bytes) :
    IsCharacter (s.map f) ↔ IsCharacter s := by
  constructor
  · intro h
    obtain ⟨b, hb, hlow⟩ | hhigh := h.ascii_or
    · obtain ⟨a, rfl, rfl⟩ := List.map_eq_singleton_iff.mp hb
      rw [isCharacter_one]
      by_contra ha
      rw [hf.high a (by omega)] at hlow
      exact ha hlow
    · have hs (a : Byte) (ha : a ∈ s) : 0x80 ≤ a.toNat := by
        by_contra hlow
        have := hhigh (f a) (List.mem_map_of_mem ha)
        have := hf.low a (by omega)
        omega
      rwa [hf.map_eq_self hs] at h
  · intro h
    obtain ⟨a, rfl, hlow⟩ | hhigh := h.ascii_or
    · exact (isCharacter_one _).mpr (hf.low a hlow)
    · rwa [hf.map_eq_self hhigh]

theorem AsciiMap.wellFormed_iff {f : Byte → Byte} (hf : AsciiMap f) (s : Bytes) :
    WellFormed (s.map f) ↔ WellFormed s := by
  constructor
  · intro h
    generalize hx : s.map f = x at h
    induction h generalizing s with
    | nil => rw [List.map_eq_nil_iff.mp hx]; exact .nil
    | character hc _ ih =>
      obtain ⟨c, t, rfl, rfl, ht⟩ := List.map_eq_append_iff.mp hx
      exact .character ((hf.isCharacter_iff c).mp hc) (ih t ht)
  · intro h
    induction h with
    | nil => exact .nil
    | @character c t hc _ ih =>
      rw [List.map_append]
      exact .character ((hf.isCharacter_iff c).mpr hc) ih

end EdgeScope.Text
