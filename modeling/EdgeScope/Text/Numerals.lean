import EdgeScope.Text.Scan

/-!
# What the number readers accept

A numeral is white space, a sign or none, and digits. The readers are determined by this form:
each lemma says what one of them makes of a numeral and of what follows it.
-/

namespace EdgeScope.Text

section While

variable {α : Type*} {p : α → Bool} {x y : List α}

theorem takeWhile_append_of_head (hx : ∀ a ∈ x, p a = true) (hy : ∀ a ∈ y.head?, p a = false) :
    (x ++ y).takeWhile p = x := by
  rw [List.takeWhile_append_of_pos hx]
  cases y with
  | nil => simp
  | cons a y => simp [hy a rfl]

theorem dropWhile_append_of_head (hx : ∀ a ∈ x, p a = true) (hy : ∀ a ∈ y.head?, p a = false) :
    (x ++ y).dropWhile p = y := by
  rw [List.dropWhile_append_of_pos hx]
  cases y with
  | nil => simp
  | cons a y => simp [hy a rfl]

end While

def IsBlank (s : Bytes) : Prop := ∀ b ∈ s, isSpace b = true

def IsDigits (s : Bytes) : Prop := s ≠ [] ∧ ∀ b ∈ s, isDigit b = true

def IsSign (s : Bytes) : Prop := s = [] ∨ s = [charByte '-'] ∨ s = [charByte '+']

instance (s : Bytes) : Decidable (IsBlank s) := List.decidableBAll (fun b => isSpace b = true) s

instance (s : Bytes) : Decidable (IsDigits s) :=
  have := List.decidableBAll (fun b => isDigit b = true) s
  inferInstanceAs (Decidable (_ ∧ _))

instance (s : Bytes) : Decidable (IsSign s) := inferInstanceAs (Decidable (_ ∨ _ ∨ _))

theorem isBlank_nil : IsBlank [] := by simp [IsBlank]

/-- What follows a number, a word or a blank does not go on with it. -/
def Ends (p : Byte → Bool) (rest : Bytes) : Prop := ∀ b ∈ rest.head?, p b = false

instance (p : Byte → Bool) (rest : Bytes) : Decidable (Ends p rest) :=
  Option.decidableForallMem (p := fun b => p b = false) rest.head?

@[simp] theorem ends_nil (p : Byte → Bool) : Ends p [] := by simp [Ends]

@[simp] theorem ends_cons (p : Byte → Bool) (b : Byte) (s : Bytes) :
    Ends p (b :: s) ↔ p b = false := by
  simp [Ends]

theorem isSpace_of_isDigit {b : Byte} (h : isDigit b = true) : isSpace b = false := by
  simp only [isDigit, isSpace, Bool.and_eq_true, Bool.or_eq_false_iff, decide_eq_true_eq,
    decide_eq_false_iff_not, Bool.and_eq_false_iff] at h ⊢
  omega

theorem not_sign_of_isDigit {b : Byte} (h : isDigit b = true) :
    b ≠ charByte '-' ∧ b ≠ charByte '+' := by
  constructor <;> rintro rfl <;> exact absurd h (by decide)

theorem ends_isSpace_digits {digits : Bytes} (h : IsDigits digits) (rest : Bytes) :
    Ends isSpace (digits ++ rest) := by
  obtain ⟨b, digits, rfl⟩ := List.exists_cons_of_ne_nil h.1
  exact (ends_cons _ _ _).mpr (isSpace_of_isDigit (h.2 b List.mem_cons_self))

theorem ends_isSpace_sign {sign digits : Bytes} (hsign : IsSign sign) (h : IsDigits digits)
    (rest : Bytes) : Ends isSpace (sign ++ (digits ++ rest)) := by
  obtain rfl | rfl | rfl := hsign
  · exact ends_isSpace_digits h rest
  · exact (ends_cons _ _ _).mpr (by decide)
  · exact (ends_cons _ _ _).mpr (by decide)

theorem splitSign_append {sign digits : Bytes} (hsign : IsSign sign) (h : IsDigits digits)
    (rest : Bytes) : splitSign (sign ++ (digits ++ rest)) = (sign, digits ++ rest) := by
  obtain rfl | rfl | rfl := hsign
  · obtain ⟨b, digits, rfl⟩ := List.exists_cons_of_ne_nil h.1
    obtain ⟨hminus, hplus⟩ := not_sign_of_isDigit (h.2 b List.mem_cons_self)
    simp [splitSign, hminus, hplus]
  · simp [splitSign]
  · simp [splitSign]

theorem splitSign_spec (s : Bytes) :
    IsSign (splitSign s).1 ∧ (splitSign s).1 ++ (splitSign s).2 = s := by
  cases s with
  | nil => exact ⟨.inl rfl, rfl⟩
  | cons b s =>
    simp only [splitSign]
    split
    · rename_i h
      obtain rfl | rfl := h
      · exact ⟨.inr (.inl rfl), rfl⟩
      · exact ⟨.inr (.inr rfl), rfl⟩
    · exact ⟨.inl rfl, rfl⟩

/-- The value of a numeral: a minus sign negates modulo the word. -/
def signedValue (sign digits : Bytes) : ℕ :=
  if sign = [charByte '-'] then (wordSize - digitsValue digits) % wordSize else digitsValue digits

def IsNumeral (blank sign digits s : Bytes) : Prop :=
  s = blank ++ (sign ++ digits) ∧ IsBlank blank ∧ IsSign sign ∧ IsDigits digits ∧
    digitsValue digits < wordSize

/-- `std::stoul` reads the whole of `s` exactly where `s` is a numeral. -/
theorem stoul_eq_some_length_iff {s : Bytes} {value : ℕ} :
    stoul s = some (value, s.length) ↔
      ∃ blank sign digits, IsNumeral blank sign digits s ∧ value = signedValue sign digits := by
  constructor
  · intro h
    obtain ⟨hsign, hsplit⟩ := splitSign_spec (s.dropWhile isSpace)
    unfold stoul at h
    generalize splitSign (s.dropWhile isSpace) = parts at h hsign hsplit
    obtain ⟨sign, unsigned⟩ := parts
    simp only at h hsign hsplit
    split at h
    · cases h
    · rename_i hdigits
      rw [not_or, not_le] at hdigits
      obtain ⟨hvalue, hlength⟩ := Prod.mk.inj (Option.some.inj h)
      have hs : s.takeWhile isSpace ++ (sign ++ (unsigned.takeWhile isDigit ++
          unsigned.dropWhile isDigit)) = s := by
        rw [List.takeWhile_append_dropWhile, hsplit, List.takeWhile_append_dropWhile]
      have hrest : unsigned.dropWhile isDigit = [] := by
        have hlengths := congrArg List.length hs
        simp only [List.length_append] at hlengths
        exact List.length_eq_zero_iff.mp (by omega)
      rw [hrest, List.append_nil] at hs
      refine ⟨s.takeWhile isSpace, sign, unsigned.takeWhile isDigit, ⟨hs.symm, ?_, hsign,
        ⟨hdigits.1, ?_⟩, hdigits.2⟩, hvalue.symm⟩
      · exact fun b hb => List.mem_takeWhile_imp hb
      · exact fun b hb => List.mem_takeWhile_imp hb
  · rintro ⟨blank, sign, digits, ⟨rfl, hblank, hsign, hdigits, hword⟩, rfl⟩
    have hends := ends_isSpace_sign hsign hdigits []
    have hsplit := splitSign_append hsign hdigits []
    rw [List.append_nil] at hends hsplit
    have htake : digits.takeWhile isDigit = digits := List.takeWhile_eq_self_iff.mpr hdigits.2
    have hvalid : ¬ (digits = [] ∨ wordSize ≤ digitsValue digits) := by
      rw [not_or, not_le]
      exact ⟨hdigits.1, hword⟩
    rw [stoul, takeWhile_append_of_head hblank hends, dropWhile_append_of_head hblank hends, hsplit]
    simp only [htake, if_neg hvalid, signedValue, List.length_append, Nat.add_assoc]

/-- `std::stoll` reads the whole of `s` exactly where `s` is a numeral in its range. -/
theorem stoll_eq_some_length_iff {s : Bytes} {value : ℤ} :
    stoll s = some (value, s.length) ↔
      ∃ blank sign digits, s = blank ++ (sign ++ digits) ∧ IsBlank blank ∧ IsSign sign ∧
        IsDigits digits ∧ value = integerValue sign digits ∧ -2 ^ 63 ≤ value ∧ value < 2 ^ 63 := by
  constructor
  · intro h
    obtain ⟨hsign, hsplit⟩ := splitSign_spec (s.dropWhile isSpace)
    unfold stoll at h
    generalize splitSign (s.dropWhile isSpace) = parts at h hsign hsplit
    obtain ⟨sign, unsigned⟩ := parts
    simp only at h hsign hsplit
    split at h
    · cases h
    · rename_i hvalid
      simp only [not_or, not_lt, not_le] at hvalid
      obtain ⟨hvalue, hlength⟩ := Prod.mk.inj (Option.some.inj h)
      have hs : s.takeWhile isSpace ++ (sign ++ (unsigned.takeWhile isDigit ++
          unsigned.dropWhile isDigit)) = s := by
        rw [List.takeWhile_append_dropWhile, hsplit, List.takeWhile_append_dropWhile]
      have hrest : unsigned.dropWhile isDigit = [] := by
        have hlengths := congrArg List.length hs
        simp only [List.length_append] at hlengths
        exact List.length_eq_zero_iff.mp (by omega)
      rw [hrest, List.append_nil] at hs
      rw [hvalue] at hvalid
      refine ⟨s.takeWhile isSpace, sign, unsigned.takeWhile isDigit, hs.symm, ?_, hsign,
        ⟨hvalid.1, ?_⟩, hvalue.symm, hvalid.2⟩
      · exact fun b hb => List.mem_takeWhile_imp hb
      · exact fun b hb => List.mem_takeWhile_imp hb
  · rintro ⟨blank, sign, digits, rfl, hblank, hsign, hdigits, rfl, hlow, hhigh⟩
    have hends := ends_isSpace_sign hsign hdigits []
    have hsplit := splitSign_append hsign hdigits []
    rw [List.append_nil] at hends hsplit
    have htake : digits.takeWhile isDigit = digits := List.takeWhile_eq_self_iff.mpr hdigits.2
    have hvalid : ¬ (digits = [] ∨ integerValue sign digits < -2 ^ 63 ∨
        2 ^ 63 ≤ integerValue sign digits) := by
      rw [not_or, not_or, not_lt, not_le]
      exact ⟨hdigits.1, hlow, hhigh⟩
    rw [stoll, takeWhile_append_of_head hblank hends, dropWhile_append_of_head hblank hends, hsplit]
    simp only [htake, List.length_append, Nat.add_assoc]
    exact if_neg hvalid

section Extraction

variable {blank sign digits rest : Bytes} (hblank : IsBlank blank) (hsign : IsSign sign)
  (hdigits : IsDigits digits) (hrest : Ends isDigit rest)

include hblank hsign hdigits hrest

theorem scanDigits_append : scanDigits (blank ++ (sign ++ (digits ++ rest))) =
    some (decide (sign = [charByte '-']), digitsValue digits, rest) := by
  rw [scanDigits, dropWhile_append_of_head hblank (ends_isSpace_sign hsign hdigits rest),
    splitSign_append hsign hdigits rest]
  simp only [takeWhile_append_of_head hdigits.2 hrest, dropWhile_append_of_head hdigits.2 hrest,
    if_neg hdigits.1]

theorem scanUInt64_append : scanUInt64 (blank ++ (sign ++ (digits ++ rest))) =
    if digitsValue digits < wordSize then some (signedValue sign digits, rest) else none := by
  rw [scanUInt64, scanDigits_append hblank hsign hdigits hrest]
  simp only [decide_eq_true_eq, signedValue]
  split_ifs <;> first | rfl | omega

end Extraction

def integer (n : ℤ) : Bytes := (if n < 0 then ascii "-" else []) ++ decimal n.natAbs

def integerSign (n : ℤ) : Bytes := if n < 0 then [charByte '-'] else []

theorem integer_eq (n : ℤ) : integer n = integerSign n ++ decimal n.natAbs := by
  unfold integer integerSign
  split <;> rfl

theorem isSign_integerSign (n : ℤ) : IsSign (integerSign n) := by
  unfold integerSign
  split
  · exact .inr (.inl rfl)
  · exact .inl rfl

theorem isDigits_decimal (n : ℕ) : IsDigits (decimal n) :=
  ⟨decimal_ne_nil n, fun _ hb => isDigit_of_mem_decimal hb⟩

theorem mem_integer {b : Byte} {n : ℤ} (h : b ∈ integer n) :
    b = charByte '-' ∨ isDigit b = true := by
  rw [integer_eq, integerSign] at h
  obtain h | h := List.mem_append.mp h
  · split at h
    · exact .inl (List.mem_singleton.mp h)
    · cases h
  · exact .inr (isDigit_of_mem_decimal h)

theorem integer_injective : Function.Injective integer := by
  intro n m h
  have hscan (n : ℤ) : scanDigits (integer n) = some (decide (n < 0), n.natAbs, []) := by
    have hread := scanDigits_append isBlank_nil (isSign_integerSign n)
      (isDigits_decimal n.natAbs) (ends_nil _)
    have hsign : decide (integerSign n = [charByte '-']) = decide (n < 0) := by
      unfold integerSign
      split <;> simp [*]
    rwa [List.append_nil, List.nil_append, ← integer_eq, digitsValue_decimal, hsign] at hread
  have hsame := (hscan n).symm.trans (h ▸ hscan m)
  simp only [Option.some.injEq, Prod.mk.injEq, decide_eq_decide, and_true] at hsame
  omega

section Printed

variable {blank rest : Bytes} (hblank : IsBlank blank) (hrest : Ends isDigit rest)

include hblank hrest

theorem scanUInt64_decimal {n : ℕ} (hn : n < wordSize) :
    scanUInt64 (blank ++ (decimal n ++ rest)) = some (n, rest) := by
  have h := scanUInt64_append hblank (.inl rfl) (isDigits_decimal n) hrest
  rw [List.nil_append, digitsValue_decimal, if_pos hn, signedValue, digitsValue_decimal] at h
  simpa using h

/-- A reader of unsigned numbers takes a negative number for a large one. -/
theorem scanUInt64_integer {n : ℤ} (hn : n.natAbs < wordSize) :
    ∃ value, scanUInt64 (blank ++ (integer n ++ rest)) = some (value, rest) := by
  have h := scanUInt64_append hblank (isSign_integerSign n) (isDigits_decimal n.natAbs) hrest
  rw [digitsValue_decimal, if_pos hn] at h
  rw [integer_eq, List.append_assoc, h]
  exact ⟨_, rfl⟩

theorem scanInt64_integer {n : ℤ} (hlow : -2 ^ 63 ≤ n) (hhigh : n < 2 ^ 63) :
    scanInt64 (blank ++ (integer n ++ rest)) = some (n, rest) := by
  have h := scanDigits_append hblank (isSign_integerSign n) (isDigits_decimal n.natAbs) hrest
  rw [integer_eq, List.append_assoc, scanInt64, h, digitsValue_decimal]
  by_cases hn : n < 0
  · have hminus : decide (integerSign n = [charByte '-']) = true := by simp [integerSign, hn]
    have hvalue : -(n.natAbs : ℤ) = n := by omega
    rw [hminus]
    simp only [hvalue]
    rw [if_neg (by omega)]
  · have hplain : decide (integerSign n = [charByte '-']) = false := by simp [integerSign, hn]
    have hvalue : (n.natAbs : ℤ) = n := by omega
    rw [hplain]
    simp only [hvalue]
    rw [if_neg (by omega)]

end Printed

def IsWord (s : Bytes) : Prop := s ≠ [] ∧ ∀ b ∈ s, isSpace b = false

instance (s : Bytes) : Decidable (IsWord s) :=
  have := List.decidableBAll (fun b => isSpace b = false) s
  inferInstanceAs (Decidable (_ ∧ _))

/-- What follows a word begins with white space, or nothing follows. -/
def EndsWord (rest : Bytes) : Prop := ∀ b ∈ rest.head?, isSpace b = true

instance (rest : Bytes) : Decidable (EndsWord rest) :=
  Option.decidableForallMem (p := fun b => isSpace b = true) rest.head?

theorem endsWord_nil : EndsWord [] := by simp [EndsWord]

theorem endsWord_append {blank : Bytes} (hne : blank ≠ []) (h : IsBlank blank) (s : Bytes) :
    EndsWord (blank ++ s) := by
  obtain ⟨b, blank, rfl⟩ := List.exists_cons_of_ne_nil hne
  intro b' hb'
  cases hb'
  exact h b List.mem_cons_self

theorem EndsWord.ends_isDigit {rest : Bytes} (h : EndsWord rest) : Ends isDigit rest := by
  intro b hb
  by_contra hdigit
  have hspace := isSpace_of_isDigit (by simpa using hdigit)
  rw [h b hb] at hspace
  cases hspace

theorem scanWord_append {blank word rest : Bytes} (hblank : IsBlank blank) (hword : IsWord word)
    (hrest : EndsWord rest) : scanWord (blank ++ (word ++ rest)) = some (word, rest) := by
  have hends : ∀ b ∈ (word ++ rest).head?, isSpace b = false := by
    obtain ⟨b, word, rfl⟩ := List.exists_cons_of_ne_nil hword.1
    simpa using hword.2 b List.mem_cons_self
  have hinside : ∀ b ∈ word, (!isSpace b) = true := fun b hb => by simp [hword.2 b hb]
  have hoverside : ∀ b ∈ rest.head?, (!isSpace b) = false := fun b hb => by simp [hrest b hb]
  rw [scanWord, dropWhile_append_of_head hblank hends, takeWhile_append_of_head hinside hoverside,
    dropWhile_append_of_head hinside hoverside]
  obtain ⟨b, word, rfl⟩ := List.exists_cons_of_ne_nil hword.1
  rfl

def fieldsText (fields : List ℤ) : Bytes := fields.flatMap fun field => ascii " " ++ integer field

theorem fieldsText_cons (field : ℤ) (fields : List ℤ) :
    fieldsText (field :: fields) = ascii " " ++ (integer field ++ fieldsText fields) := by
  rw [fieldsText, List.flatMap_cons, List.append_assoc, ← fieldsText]

theorem fieldsText_append (fields more : List ℤ) :
    fieldsText (fields ++ more) = fieldsText fields ++ fieldsText more :=
  List.flatMap_append

theorem endsWord_fieldsText {ending : Bytes} (h : EndsWord ending) (fields : List ℤ) :
    EndsWord (fieldsText fields ++ ending) := by
  cases fields with
  | nil => exact h
  | cons field fields =>
    rw [fieldsText_cons]
    intro b hb
    cases hb
    decide

theorem isBlank_space : IsBlank (ascii " ") := by decide

section Fields

variable {rest : Bytes} (hrest : EndsWord rest)

include hrest

theorem scanInt64_field {field : ℤ} (hlow : -2 ^ 63 ≤ field) (hhigh : field < 2 ^ 63) :
    scanInt64 (fieldsText [field] ++ rest) = some (field, rest) := by
  have h := scanInt64_integer isBlank_space hrest.ends_isDigit hlow hhigh
  rwa [fieldsText_cons, fieldsText, List.flatMap_nil, List.append_nil, List.append_assoc]

theorem scanUInt64_field {field : ℕ} (h : field < wordSize) :
    scanUInt64 (fieldsText [(field : ℤ)] ++ rest) = some (field, rest) := by
  have hscan := scanUInt64_decimal isBlank_space hrest.ends_isDigit h
  have hprint : integer (field : ℤ) = decimal field := by
    rw [integer, if_neg (by omega), List.nil_append, Int.natAbs_natCast]
  rwa [fieldsText_cons, fieldsText, List.flatMap_nil, List.append_nil, hprint, List.append_assoc]

end Fields

/-- Whatever a reader makes of each field, it skips them one by one. -/
theorem skipFields_fieldsText {α : Type} {scan : Bytes → Option (α × Bytes)} (fields : List ℤ)
    (hscan : ∀ field ∈ fields, ∀ rest, EndsWord rest →
      ∃ a, scan (fieldsText [field] ++ rest) = some (a, rest)) {rest : Bytes}
    (hrest : EndsWord rest) :
    skipFields scan fields.length (fieldsText fields ++ rest) = some rest := by
  induction fields with
  | nil => rfl
  | cons field fields ih =>
    obtain ⟨a, ha⟩ := hscan field List.mem_cons_self _ (endsWord_fieldsText hrest fields)
    have hsplit : fieldsText (field :: fields) ++ rest =
        fieldsText [field] ++ (fieldsText fields ++ rest) := by
      rw [← List.append_assoc, ← fieldsText_append]
      rfl
    rw [List.length_cons, skipFields, hsplit, ha]
    exact ih fun f hf => hscan f (List.mem_cons_of_mem _ hf)

theorem mem_fieldsText {b : Byte} {fields : List ℤ} (h : b ∈ fieldsText fields) :
    b = charByte ' ' ∨ b = charByte '-' ∨ isDigit b = true := by
  obtain ⟨field, -, hfield⟩ := List.mem_flatMap.mp h
  obtain hspace | hinteger := List.mem_append.mp hfield
  · exact .inl (List.mem_singleton.mp hspace)
  · exact .inr (mem_integer hinteger)

structure IsColumns (columns : List (Bytes × Bytes)) : Prop where
  isBlank : ∀ column ∈ columns, IsBlank column.1
  isWord : ∀ column ∈ columns, IsWord column.2
  separated : ∀ column ∈ columns.tail, column.1 ≠ []

/-- A line in which the words stand apart, with white space around them. -/
def IsLineOf (words : List Bytes) (line : Bytes) : Prop :=
  ∃ columns ending, IsColumns columns ∧ IsBlank ending ∧ columns.map Prod.snd = words ∧
    line = columns.flatMap (fun column => column.1 ++ column.2) ++ ending

theorem IsBlank.endsWord {blank : Bytes} (h : IsBlank blank) : EndsWord blank :=
  fun b hb => h b (List.mem_of_mem_head? hb)

theorem scanWord_blank {blank : Bytes} (h : IsBlank blank) : scanWord blank = none := by
  rw [scanWord, List.dropWhile_eq_nil_iff.mpr h]
  rfl

theorem scanWords_columns {columns : List (Bytes × Bytes)} (h : IsColumns columns) {ending : Bytes}
    (hending : IsBlank ending) {fuel : ℕ} (hfuel : columns.length ≤ fuel) :
    scanWordsLoop fuel (columns.flatMap (fun column => column.1 ++ column.2) ++ ending) =
      columns.map Prod.snd := by
  induction columns generalizing fuel with
  | nil =>
    cases fuel with
    | zero => rfl
    | succ fuel => simp [scanWordsLoop, scanWord_blank hending]
  | cons column columns ih =>
    obtain ⟨blank, word⟩ := column
    cases fuel with
    | zero => simp at hfuel
    | succ fuel =>
      have hrest : EndsWord (columns.flatMap (fun column => column.1 ++ column.2) ++ ending) := by
        cases columns with
        | nil => simpa using hending.endsWord
        | cons next columns =>
          have hne := h.separated next List.mem_cons_self
          have hblank := h.isBlank next (by simp)
          rw [List.flatMap_cons, List.append_assoc, List.append_assoc]
          exact endsWord_append hne hblank _
      have hcolumns : IsColumns columns := ⟨fun c hc => h.isBlank c (List.mem_cons_of_mem _ hc),
        fun c hc => h.isWord c (List.mem_cons_of_mem _ hc),
        fun c hc => h.separated c (List.mem_of_mem_tail hc)⟩
      have hscan := scanWord_append (h.isBlank (blank, word) List.mem_cons_self)
        (h.isWord (blank, word) List.mem_cons_self) hrest
      rw [List.flatMap_cons, List.append_assoc, List.append_assoc, scanWordsLoop, hscan]
      simp only [List.map_cons, List.length_cons] at hfuel ⊢
      rw [ih hcolumns (by omega)]

theorem IsLineOf.scanWords_eq {words : List Bytes} {line : Bytes} (h : IsLineOf words line) :
    scanWords line = words := by
  obtain ⟨columns, ending, hcolumns, hending, rfl, rfl⟩ := h
  refine scanWords_columns hcolumns hending ?_
  have hlength (columns : List (Bytes × Bytes)) (h : ∀ column ∈ columns, IsWord column.2) :
      columns.length ≤ (columns.flatMap fun column => column.1 ++ column.2).length := by
    induction columns with
    | nil => exact Nat.zero_le _
    | cons column columns ih =>
      have hne := List.length_pos_iff.mpr (h column List.mem_cons_self).1
      have hrest := ih fun c hc => h c (List.mem_cons_of_mem _ hc)
      simp only [List.flatMap_cons, List.length_cons, List.length_append]
      omega
  have := hlength columns hcolumns.isWord
  rw [List.length_append]
  omega

end EdgeScope.Text
