import EdgeScope.Text.Lines
import EdgeScope.Text.Bytes

/-!
# Reading numbers from text

`std::stoul`, and the extraction operators of a `std::istringstream`: each skips white space
and answers what it has read and what is left, or `none` where the stream fails. A number
that does not fit its type is a failure.
-/

namespace EdgeScope.Text

/-- The width of `unsigned long` and `std::size_t`. -/
def wordSize : ℕ := 2 ^ 64

/-- An optional sign and what follows it. -/
def splitSign : Bytes → Bytes × Bytes
  | [] => ([], [])
  | b :: s => if b = charByte '-' ∨ b = charByte '+' then ([b], s) else ([], b :: s)

/-- `std::stoul` in base 10: the value and the number of bytes it was read from. White space
and a sign may precede the digits, and a minus sign negates modulo the word. -/
def stoul (s : Bytes) : Option (ℕ × ℕ) :=
  let blank := s.takeWhile isSpace
  let (sign, unsigned) := splitSign (s.dropWhile isSpace)
  let digits := unsigned.takeWhile isDigit
  if digits = [] ∨ wordSize ≤ digitsValue digits then none
  else
    let value := digitsValue digits
    some (if sign = [charByte '-'] then (wordSize - value) % wordSize else value,
      blank.length + sign.length + digits.length)

example : stoul (ascii " 50x") = some (50, 3) := by decide

/-- The number that a sign and digits denote. -/
def integerValue (sign digits : Bytes) : ℤ :=
  if sign = [charByte '-'] then -digitsValue digits else digitsValue digits

/-- `std::stoll` in base 10. -/
def stoll (s : Bytes) : Option (ℤ × ℕ) :=
  let blank := s.takeWhile isSpace
  let (sign, unsigned) := splitSign (s.dropWhile isSpace)
  let digits := unsigned.takeWhile isDigit
  let value := integerValue sign digits
  if digits = [] ∨ value < -2 ^ 63 ∨ 2 ^ 63 ≤ value then none
  else some (value, blank.length + sign.length + digits.length)

/-- A sign, digits, and what follows them: whether there is a minus, and the magnitude. -/
def scanDigits (s : Bytes) : Option (Bool × ℕ × Bytes) :=
  let (sign, unsigned) := splitSign (s.dropWhile isSpace)
  let digits := unsigned.takeWhile isDigit
  if digits = [] then none
  else some (sign = [charByte '-'], digitsValue digits, unsigned.dropWhile isDigit)

/-- `>>` into a `std::uint64_t`. A minus sign negates modulo the word. -/
def scanUInt64 (s : Bytes) : Option (ℕ × Bytes) :=
  match scanDigits s with
  | none => none
  | some (negative, magnitude, rest) =>
    if wordSize ≤ magnitude then none
    else some (if negative then (wordSize - magnitude) % wordSize else magnitude, rest)

/-- `>>` into a `std::int64_t`. -/
def scanInt64 (s : Bytes) : Option (ℤ × Bytes) :=
  match scanDigits s with
  | none => none
  | some (true, magnitude, rest) => if 2 ^ 63 < magnitude then none else some (-magnitude, rest)
  | some (false, magnitude, rest) => if 2 ^ 63 ≤ magnitude then none else some (magnitude, rest)

/-- `>>` into a `char`. -/
def scanChar (s : Bytes) : Option (Byte × Bytes) :=
  match s.dropWhile isSpace with
  | [] => none
  | b :: rest => some (b, rest)

/-- `>>` into a `std::string`. -/
def scanWord (s : Bytes) : Option (Bytes × Bytes) :=
  match (s.dropWhile isSpace).takeWhile (!isSpace ·) with
  | [] => none
  | word => some (word, (s.dropWhile isSpace).dropWhile (!isSpace ·))

/-- All words. Every round reads at least one byte. -/
def scanWordsLoop : ℕ → Bytes → List Bytes
  | 0, _ => []
  | fuel + 1, s =>
    match scanWord s with
    | none => []
    | some (word, rest) => word :: scanWordsLoop fuel rest

def scanWords (s : Bytes) : List Bytes := scanWordsLoop s.length s

/-- Fields that are read and ignored. -/
def skipFields {α : Type} (scan : Bytes → Option (α × Bytes)) : ℕ → Bytes → Option Bytes
  | 0, s => some s
  | n + 1, s =>
    match scan s with
    | none => none
    | some (_, rest) => skipFields scan n rest

example : scanInt64 (ascii " -7 x") = some (-7, ascii " x") := by decide

end EdgeScope.Text
