import EdgeScope.Agent.AgentConfig
import EdgeScope.Text.Numerals
import EdgeScope.Text.Search

/-!
# The numbers of a configuration

`std::stoul` reads more than plain numbers: it skips white space and takes a sign, and a minus
sign wraps around. The range is checked after that.
-/

namespace EdgeScope.AgentConfig
open Text

def IsNumberIn (low high : ℕ) (s : Bytes) : Prop :=
  IsDigits s ∧ low ≤ digitsValue s ∧ digitsValue s ≤ high

instance (low high : ℕ) (s : Bytes) : Decidable (IsNumberIn low high s) :=
  inferInstanceAs (Decidable (_ ∧ _ ∧ _))

/-- White space or a sign in front of digits, which `std::stoul` takes for a number in the
range. -/
def IsMisreadIn (low high : ℕ) (s : Bytes) : Prop :=
  ∃ blank sign digits, IsNumeral blank sign digits s ∧ (blank ≠ [] ∨ sign ≠ []) ∧
    low ≤ signedValue sign digits ∧ signedValue sign digits ≤ high

def IsAddressWith (IsPort : Bytes → Prop) (address : Bytes) : Prop :=
  ∃ host port, address = host ++ charByte ':' :: port ∧ host ≠ [] ∧ charByte ':' ∉ port ∧
    IsPort port

/-- What `std::stoul` accepts in a range of the word is a plain number or a misread one, and
never both. -/
theorem stoul_in_range_iff (low : ℕ) {high : ℕ} (hhigh : high < wordSize) (s : Bytes) :
    ((∃ value, stoul s = some (value, s.length) ∧ low ≤ value ∧ value ≤ high) ↔
      IsNumberIn low high s ∨ IsMisreadIn low high s) ∧
    ¬ (IsNumberIn low high s ∧ IsMisreadIn low high s) := by
  simp only [stoul_eq_some_length_iff]
  constructor
  · constructor
    · rintro ⟨_, ⟨blank, sign, digits, hnumeral, rfl⟩, hrange⟩
      by_cases hplain : blank = [] ∧ sign = []
      · obtain ⟨rfl, rfl⟩ := hplain
        obtain ⟨rfl, -, -, hdigits, -⟩ := hnumeral
        exact .inl ⟨hdigits, hrange⟩
      · exact .inr ⟨blank, sign, digits, hnumeral, by tauto, hrange⟩
    · rintro (⟨hdigits, hrange⟩ | ⟨blank, sign, digits, hnumeral, -, hrange⟩)
      · have hword : digitsValue s < wordSize := by omega
        exact ⟨digitsValue s, ⟨[], [], s, ⟨rfl, by simp [IsBlank], .inl rfl, hdigits, hword⟩, rfl⟩,
          hrange⟩
      · exact ⟨_, ⟨blank, sign, digits, hnumeral, rfl⟩, hrange⟩
  · rintro ⟨⟨hdigits, -⟩, blank, sign, digits, ⟨rfl, hblank, hsign, -⟩, hfront, -⟩
    have hno_blank : blank = [] := by
      refine List.eq_nil_iff_forall_not_mem.mpr fun b hb => ?_
      have hdigit := isSpace_of_isDigit (hdigits.2 b (List.mem_append_left _ hb))
      rw [hblank b hb] at hdigit
      cases hdigit
    have hno_sign : sign = [] := by
      obtain rfl | rfl | rfl := hsign
      · rfl
      · exact absurd (hdigits.2 (charByte '-') (by simp)) (by decide)
      · exact absurd (hdigits.2 (charByte '+') (by simp)) (by decide)
    exact hfront.elim (absurd hno_blank) (absurd hno_sign)

theorem isAddressWith_iff (IsPort : Bytes → Prop) (address : Bytes) :
    IsAddressWith IsPort address ↔ ∃ separator, rfindChar (charByte ':') address = some separator ∧
      separator ≠ 0 ∧ IsPort (address.drop (separator + 1)) := by
  constructor
  · rintro ⟨host, port, rfl, hhost, hport, h⟩
    refine ⟨host.length, rfindChar_separator host hport, by simpa using hhost, ?_⟩
    rwa [drop_separator]
  · rintro ⟨separator, hfind, hne, h⟩
    obtain ⟨host, port, rfl, hport, rfl⟩ := rfindChar_eq_some_iff.mp hfind
    rw [drop_separator] at h
    exact ⟨host, port, rfl, by simpa using hne, hport, h⟩

theorem isValidAddress_iff (address : Bytes) :
    isValidAddress address = true ↔ IsAddressWith
      (fun port => ∃ value, stoul port = some (value, port.length) ∧ 1 ≤ value ∧ value ≤ 65535)
      address := by
  rw [isAddressWith_iff, isValidAddress]
  cases hfind : rfindChar (charByte ':') address with
  | none => simp
  | some separator =>
    obtain ⟨host, port, rfl, -, rfl⟩ := rfindChar_eq_some_iff.mp hfind
    have hlength : (host ++ charByte ':' :: port).length - host.length - 1 = port.length := by
      simp only [List.length_append, List.length_cons]
      omega
    simp only [Option.some.injEq, exists_eq_left', drop_separator, hlength]
    split
    · rename_i hends
      -- an empty port is none that `std::stoul` reads
      refine iff_of_false Bool.false_ne_true ?_
      rintro ⟨hhost, value, hport, -⟩
      have hnil : port = [] := by
        refine List.length_eq_zero_iff.mp ?_
        simp only [List.length_append, List.length_cons] at hends
        omega
      rw [hnil] at hport
      cases hport
    · rename_i hends
      rw [not_or] at hends
      cases hport : stoul port with
      | none => simp
      | some result =>
        obtain ⟨value, parsed⟩ := result
        simp only [Bool.and_eq_true, decide_eq_true_eq, Option.some.injEq, Prod.mk.injEq]
        constructor
        · rintro ⟨⟨rfl, hpositive⟩, hsmall⟩
          exact ⟨hends.1, value, ⟨rfl, rfl⟩, hpositive, hsmall⟩
        · rintro ⟨-, _, ⟨rfl, rfl⟩, hpositive, hsmall⟩
          exact ⟨⟨rfl, hpositive⟩, hsmall⟩

theorem isOk_listenAddress (lineNumber : ℕ) (value : Bytes) (parsed : AgentConfig) :
    (loadSetting lineNumber (ascii "listen_address") value parsed).isOk =
      isValidAddress value := by
  rw [loadSetting, if_pos rfl]
  split <;> simp_all [Except.isOk, Except.toBool]

theorem isOk_sampleInterval (lineNumber : ℕ) (value : Bytes) (parsed : AgentConfig) :
    (loadSetting lineNumber (ascii "sample_interval_ms") value parsed).isOk = true ↔
      ∃ interval, stoul value = some (interval, value.length) ∧ 100 ≤ interval ∧
        interval ≤ 60000 := by
  rw [loadSetting, if_neg (by decide), if_pos rfl]
  cases stoul value with
  | none => simp [Except.isOk, Except.toBool]
  | some result =>
    obtain ⟨interval, consumed⟩ := result
    simp only [Option.some.injEq, Prod.mk.injEq]
    split
    · rename_i hbad
      refine iff_of_false (by simp [Except.isOk, Except.toBool]) ?_
      rintro ⟨_, ⟨rfl, rfl⟩, hrange⟩
      omega
    · rename_i hgood
      refine iff_of_true rfl ⟨interval, ⟨rfl, ?_⟩, ?_⟩ <;> omega

theorem or_iff_left_iff_not {P Q : Prop} (h : ¬ (P ∧ Q)) : (P ∨ Q ↔ P) ↔ ¬ Q := by tauto

/-- A setting that holds a number is accepted exactly where the number is plain and in its range,
unless it is misread. -/
theorem settingNumbers_iff (lineNumber : ℕ) (parsed : AgentConfig) (value : Bytes) :
    let accepted (key : String) := (loadSetting lineNumber (ascii key) value parsed).isOk = true
    ((accepted "sample_interval_ms" ↔ IsNumberIn 100 60000 value) ↔
      ¬ IsMisreadIn 100 60000 value) ∧
    ((accepted "listen_address" ↔ IsAddressWith (IsNumberIn 1 65535) value) ↔
      ¬ IsAddressWith (IsMisreadIn 1 65535) value) := by
  intro accepted
  have hports : 65535 < wordSize := by decide
  have hintervals : 60000 < wordSize := by decide
  have hport := stoul_in_range_iff 1 hports
  obtain ⟨hinterval, hdisjoint⟩ := stoul_in_range_iff 100 hintervals value
  have haccepts : accepted "sample_interval_ms" ↔
      IsNumberIn 100 60000 value ∨ IsMisreadIn 100 60000 value := by
    rw [← hinterval]
    exact isOk_sampleInterval lineNumber value parsed
  have haddress : accepted "listen_address" ↔ IsAddressWith
      (fun port => IsNumberIn 1 65535 port ∨ IsMisreadIn 1 65535 port) value := by
    simp only [accepted, isOk_listenAddress, isValidAddress_iff, fun port => (hport port).1]
  rw [haccepts, haddress]
  refine ⟨or_iff_left_iff_not hdisjoint, ?_⟩
  simp only [isAddressWith_iff]
  cases rfindChar (charByte ':') value with
  | none => simp
  | some separator =>
    simp only [Option.some.injEq, exists_eq_left']
    rw [and_or_left]
    refine or_iff_left_iff_not ?_
    rintro ⟨⟨-, hnumber⟩, -, hmisread⟩
    exact (hport _).2 ⟨hnumber, hmisread⟩

/-- A sign, a number that wraps around, and white space behind the colon. -/
theorem settingNumbers_misread :
    ((load [] (some (ascii "sample_interval_ms=+1000\n"))).isOk = true ∧
      ¬ IsNumberIn 100 60000 (ascii "+1000")) ∧
    ((load [] (some (ascii "sample_interval_ms=-18446744073709551516\n"))).isOk = true ∧
      ¬ IsNumberIn 100 60000 (ascii "-18446744073709551516")) ∧
    ((load [] (some (ascii "listen_address=localhost: 80\n"))).isOk = true ∧
      ¬ IsAddressWith (IsNumberIn 1 65535) (ascii "localhost: 80")) := by
  refine ⟨⟨by decide +kernel, by decide⟩, ⟨by decide +kernel, by decide⟩, by decide +kernel, ?_⟩
  have hcolon : rfindChar (charByte ':') (ascii "localhost: 80") = some 9 := by decide
  have hport : ¬ IsNumberIn 1 65535 ((ascii "localhost: 80").drop 10) := by decide
  rw [isAddressWith_iff, hcolon]
  rintro ⟨separator, hfind, -, hnumber⟩
  cases hfind
  exact hport hnumber

end EdgeScope.AgentConfig
