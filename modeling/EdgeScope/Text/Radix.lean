import EdgeScope.Text.Numerals
import Mathlib.Data.Nat.Digits.Lemmas

/-!
# Numbers in any base

`std::from_chars` into a `std::uint64_t`, which reads digits and nothing else: no white space, no
sign and no prefix. Letters of both cases are digits.
-/

namespace EdgeScope.Text

/-- The value of a digit. What is no digit has a value above every base. -/
def digitOf (b : Byte) : ℕ :=
  let n := b.toNat
  if 48 ≤ n ∧ n ≤ 57 then n - 48
  else if 65 ≤ n ∧ n ≤ 90 then n - 55
  else if 97 ≤ n ∧ n ≤ 122 then n - 87
  else 36

def radixValue (base : ℕ) (digits : Bytes) : ℕ := Nat.ofDigits base (digits.map digitOf).reverse

/-- The value read and what follows the digits. A value that does not fit is a failure. -/
def fromChars (base : ℕ) (s : Bytes) : Option (ℕ × Bytes) :=
  let digits := s.takeWhile (digitOf · < base)
  if digits = [] ∨ wordSize ≤ radixValue base digits then none
  else some (radixValue base digits, s.dropWhile (digitOf · < base))

example : fromChars 16 (ascii "fF:") = some (255, ascii ":") := by decide

/-- A digit as it is printed, in capitals. -/
def printDigit (d : ℕ) : Byte := UInt8.ofNat (if d < 10 then 48 + d else 55 + d)

/-- The last `width` digits of a number. -/
def printDigits (base : ℕ) : ℕ → ℕ → Bytes
  | 0, _ => []
  | width + 1, n => printDigits base width (n / base) ++ [printDigit (n % base)]

/-- A number of the base, of any length. -/
def IsRadix (base : ℕ) (s : Bytes) : Prop := s ≠ [] ∧ ∀ b ∈ s, digitOf b < base

instance (base : ℕ) (s : Bytes) : Decidable (IsRadix base s) :=
  have := List.decidableBAll (fun b => digitOf b < base) s
  inferInstanceAs (Decidable (_ ∧ _))

variable {base : ℕ}

theorem radixValue_append_singleton (s : Bytes) (b : Byte) :
    radixValue base (s ++ [b]) = base * radixValue base s + digitOf b := by
  simp [radixValue, Nat.ofDigits_cons, Nat.add_comm]

/-- The whole of a string is read exactly where it is a number that fits. -/
theorem fromChars_eq_some_nil_iff {s : Bytes} {value : ℕ} :
    fromChars base s = some (value, []) ↔
      IsRadix base s ∧ radixValue base s = value ∧ value < wordSize := by
  unfold fromChars IsRadix
  simp only
  constructor
  · intro h
    split_ifs at h with hfails
    rw [not_or, not_le] at hfails
    obtain ⟨hvalue, hrest⟩ := Prod.mk.inj (Option.some.inj h)
    have hall : ∀ b ∈ s, digitOf b < base := by
      simpa using List.dropWhile_eq_nil_iff.mp hrest
    have htake : s.takeWhile (digitOf · < base) = s := List.takeWhile_eq_self_iff.mpr (by simpa)
    rw [htake] at hfails hvalue
    exact ⟨⟨hfails.1, hall⟩, hvalue, hvalue ▸ hfails.2⟩
  · rintro ⟨⟨hne, hall⟩, rfl, hfits⟩
    have htake : s.takeWhile (digitOf · < base) = s := List.takeWhile_eq_self_iff.mpr (by simpa)
    have hdrop : s.dropWhile (digitOf · < base) = [] := List.dropWhile_eq_nil_iff.mpr (by simpa)
    rw [htake, hdrop, if_neg (by simp [hne, hfits])]

@[simp] theorem length_printDigits (width n : ℕ) : (printDigits base width n).length = width := by
  induction width generalizing n with
  | zero => rfl
  | succ width ih => simp [printDigits, ih]

theorem digitOf_printDigit {d : ℕ} (h : d < 36) : digitOf (printDigit d) = d := by
  have hbyte : (printDigit d).toNat = if d < 10 then 48 + d else 55 + d := by
    rw [printDigit, UInt8.toNat_ofNat', Nat.mod_eq_of_lt]
    split <;> omega
  simp only [digitOf, hbyte]
  split_ifs <;> omega

theorem digitOf_of_mem_printDigits (hbase : 0 < base) (hmax : base ≤ 36) {width n : ℕ} {b : Byte}
    (h : b ∈ printDigits base width n) : digitOf b < base := by
  induction width generalizing n with
  | zero => cases h
  | succ width ih =>
    rw [printDigits, List.mem_append, List.mem_singleton] at h
    have hlast := Nat.mod_lt n hbase
    obtain h | rfl := h
    · exact ih h
    · rwa [digitOf_printDigit (by omega)]

theorem radixValue_printDigits (hbase : 0 < base) (hmax : base ≤ 36) {width n : ℕ}
    (h : n < base ^ width) : radixValue base (printDigits base width n) = n := by
  induction width generalizing n with
  | zero =>
    rw [pow_zero, Nat.lt_one_iff] at h
    rw [h]
    rfl
  | succ width ih =>
    have hlast := Nat.mod_lt n hbase
    have hfront : n / base < base ^ width := by
      rw [pow_succ, Nat.mul_comm] at h
      exact Nat.div_lt_of_lt_mul h
    rw [printDigits, radixValue_append_singleton, ih hfront, digitOf_printDigit (by omega)]
    exact Nat.div_add_mod n base

theorem digitOf_of_isDigit {b : Byte} (h : isDigit b = true) : digitOf b = b.toNat - 48 := by
  simp only [isDigit, Bool.and_eq_true, decide_eq_true_eq] at h
  exact if_pos h

theorem radixValue_ten {digits : Bytes} (h : ∀ b ∈ digits, isDigit b = true) :
    radixValue 10 digits = digitsValue digits := by
  induction digits using List.reverseRecOn with
  | nil => rfl
  | append_singleton digits b ih =>
    rw [radixValue_append_singleton, ih fun b' hb' => h b' (List.mem_append_left _ hb'),
      digitOf_of_isDigit (h b (by simp)), digitsValue, digitsValue, List.foldl_append]
    rfl

theorem isRadix_ten_iff {s : Bytes} : IsRadix 10 s ↔ IsDigits s := by
  refine and_congr_right fun _ => forall₂_congr fun b _ => ?_
  constructor
  · intro h
    simp only [digitOf] at h
    split_ifs at h with hdigit hupper hlower
    · simpa [isDigit] using hdigit
    all_goals omega
  · intro h
    rw [digitOf_of_isDigit h]
    simp only [isDigit, Bool.and_eq_true, decide_eq_true_eq] at h
    omega

theorem fromChars_decimal {n : ℕ} (h : n < wordSize) : fromChars 10 (decimal n) = some (n, []) := by
  have hdigits := isDigits_decimal n
  rw [fromChars_eq_some_nil_iff, radixValue_ten hdigits.2, digitsValue_decimal]
  exact ⟨isRadix_ten_iff.mpr hdigits, rfl, h⟩

end EdgeScope.Text
