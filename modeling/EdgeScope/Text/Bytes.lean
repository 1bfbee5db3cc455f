import Mathlib.Data.List.DropRight
import Mathlib.Data.List.Infix
import Mathlib.Data.UInt
import Mathlib.Tactic.Common

/-!
# Byte strings

The operations of `std::string` and of the C character classes, on lists of bytes.
A position is a natural number and `npos` is `none`.
-/

namespace EdgeScope

abbrev Byte := UInt8
abbrev Bytes := List Byte

namespace Text

def charByte (c : Char) : Byte := UInt8.ofNat c.toNat

/-- A literal of the source. -/
def ascii (s : String) : Bytes := s.toList.map charByte

def newline : Byte := 10
def carriageReturn : Byte := 13

/-- `std::isspace` in the C locale. -/
def isSpace (b : Byte) : Bool := b.toNat = 32 || (9 ≤ b.toNat && b.toNat ≤ 13)

def isDigit (b : Byte) : Bool := 48 ≤ b.toNat && b.toNat ≤ 57

/-- `std::isalnum` in the C locale. -/
def isAlnum (b : Byte) : Bool :=
  isDigit b || (65 ≤ b.toNat && b.toNat ≤ 90) || (97 ≤ b.toNat && b.toNat ≤ 122)

def isAscii (s : Bytes) : Bool := s.all (·.toNat < 0x80)

theorem lt_of_isAscii {s : Bytes} (h : isAscii s = true) : ∀ b ∈ s, b.toNat < 0x80 :=
  fun b hb => of_decide_eq_true (List.all_eq_true.mp h b hb)

section Find

variable {α : Type*} [DecidableEq α]

/-- `std::string::find`: the first position `needle` occurs at. -/
def find (needle : List α) : List α → Option ℕ
  | [] => if needle = [] then some 0 else none
  | a :: s => if needle <+: a :: s then some 0 else (find needle s).map (· + 1)

theorem find_eq_none_iff {needle s : List α} : find needle s = none ↔ ¬ needle <:+: s := by
  induction s with
  | nil => simp [find]
  | cons a s ih =>
    rw [find, List.infix_cons_iff]
    split
    · rename_i h
      simp [h]
    · rename_i h
      simp [h, ih]

/-- What precedes the match found, and that it is the first one. -/
theorem find_eq_some {needle s : List α} {i : ℕ} (h : find needle s = some i) :
    needle <+: s.drop i ∧ ∀ j < i, ¬ needle <+: s.drop j := by
  induction s generalizing i with
  | nil =>
    simp only [find] at h
    split at h
    · cases h
      rename_i hn
      simp [hn]
    · cases h
  | cons a s ih =>
    rw [find] at h
    split at h
    · cases h
      rename_i hp
      exact ⟨by simpa using hp, by simp⟩
    · rename_i hp
      obtain ⟨k, hk, rfl⟩ := Option.map_eq_some_iff.mp h
      obtain ⟨hat, hfirst⟩ := ih hk
      refine ⟨by simpa using hat, ?_⟩
      intro j hj
      cases j with
      | zero => simpa using hp
      | succ j => simpa using hfirst j (by omega)

def findChar (a : α) (s : List α) : Option ℕ := s.idxOf? a

/-- `std::string::rfind` of a single character: its last position. -/
def rfindChar (a : α) (s : List α) : Option ℕ := (s.reverse.idxOf? a).map (s.length - 1 - ·)

end Find

def trim (s : Bytes) : Bytes := (s.dropWhile isSpace).rdropWhile isSpace

/-- `std::to_string` of an unsigned number. -/
def decimal (n : ℕ) : Bytes := (Nat.toDigits 10 n).map charByte

def digitsValue (ds : Bytes) : ℕ := ds.foldl (fun v b => 10 * v + (b.toNat - 48)) 0

theorem toNat_charByte_of_isDigit {c : Char} (h : c.isDigit) : (charByte c).toNat = c.toNat := by
  have hc : c.toNat ≤ 57 := by
    simp only [Char.isDigit, Bool.and_eq_true, decide_eq_true_eq] at h
    exact h.2
  simp only [charByte, UInt8.toNat_ofNat']
  omega

theorem isDigit_charByte {c : Char} (h : c.isDigit) : isDigit (charByte c) = true := by
  have hval := toNat_charByte_of_isDigit h
  have hlow : 48 ≤ c.toNat := by
    simp only [Char.isDigit, Bool.and_eq_true, decide_eq_true_eq] at h
    exact h.1
  have hhigh : c.toNat ≤ 57 := by
    simp only [Char.isDigit, Bool.and_eq_true, decide_eq_true_eq] at h
    exact h.2
  simp [isDigit, hval, hlow, hhigh]

theorem isDigit_of_mem_decimal {n : ℕ} {b : Byte} (h : b ∈ decimal n) : isDigit b = true := by
  obtain ⟨c, hc, rfl⟩ := List.mem_map.mp h
  exact isDigit_charByte (Nat.isDigit_of_mem_toDigits (by decide) (by decide) hc)

theorem digitsValue_decimal (n : ℕ) : digitsValue (decimal n) = n := by
  have hdigits (cs : List Char) (hcs : ∀ c ∈ cs, c.isDigit) (v : ℕ) :
      (cs.map charByte).foldl (fun v b => 10 * v + (b.toNat - 48)) v =
        Nat.ofDigitChars 10 cs v := by
    induction cs generalizing v with
    | nil => rfl
    | cons c cs ih =>
      have hc := toNat_charByte_of_isDigit (hcs c List.mem_cons_self)
      rw [List.map_cons, List.foldl_cons, hc, Nat.ofDigitChars_cons]
      exact ih (fun c' hc' => hcs c' (List.mem_cons_of_mem _ hc')) _
  rw [digitsValue, decimal, hdigits _ fun c hc =>
    Nat.isDigit_of_mem_toDigits (by decide) (by decide) hc]
  exact Nat.ofDigitChars_ten_toDigits

theorem decimal_injective : Function.Injective decimal := by
  intro n m h
  rw [← digitsValue_decimal n, h, digitsValue_decimal]

theorem decimal_ne_nil (n : ℕ) : decimal n ≠ [] := by
  simp [decimal, Nat.toDigits_ne_nil]

end Text
end EdgeScope
