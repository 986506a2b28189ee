import BoardAtlas.Number.Layout
import BoardAtlas.Text.Cut

/-!
# Amounts for readers

* `scaled`: a number in the first unit that brings it below the base;
* **`sizeText`**: a number with one decimal and a unit letter, such as `1.5 KiB`;
* `thousands`: digits in groups of three;
* `hexText`: `0x` and at least so many upper-case digits.
-/

namespace BoardAtlas

/-- The unit letters, each standing for one more power of the base; beyond them comes `Y`. -/
def unitLetters : List String := ["", "K", "M", "G", "T", "P", "E", "Z"]

/-- A number divided by the base until it is small, with the letter reached. -/
def scaled {α : Type} [Div α] (isSmall : α → Bool) (base : α) : α → List String → α × String
  | x, [] => (x, "Y")
  | x, u :: us => if isSmall x then (x, u) else scaled isSmall base (x / base) us

/-- **A size such as `1.5 KiB`**: one decimal, left out when it is zero. -/
def sizeText (x : Float) (suffix : String) (base : Float) : String :=
  let (amount, letter) := scaled (fun y => y.abs < base) base x unitLetters
  let text := oneDecimal amount ++ " " ++ letter ++ suffix
  String.ofList (Text.replaceAll ".0 ".toList " ".toList text.toList)

/-- A byte count in powers of 1024. -/
def byteSize (n : Nat) : String := sizeText (Binary64.ofNat n) "iB" 1024

/-- Digits in groups of three, counted from the right. -/
def grouped : List Char → List Char
  | [] => []
  | c :: cs => if cs ≠ [] ∧ cs.length % 3 = 0 then c :: ',' :: grouped cs else c :: grouped cs

/-- A natural number with commas between groups of three digits. -/
def thousands (n : Nat) : String := String.ofList (grouped (Nat.toDigits 10 n))

/-- The upper-case hexadecimal digits of a number. -/
def hexDigits (n : Nat) : List Char := (Nat.toDigits 16 n).map Char.toUpper

/-- A hexadecimal number with `0x` and at least `width` digits. -/
def hexText (n : Nat) (width : Nat) : String :=
  let digits := hexDigits n
  "0x" ++ String.ofList (List.replicate (width - digits.length) '0' ++ digits)

end BoardAtlas
