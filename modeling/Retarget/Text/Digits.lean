/-!
# Digits

Reading and writing natural numbers in a base up to sixteen. Reading is strict: every character is
a digit of the base, there is at least one, and there is no sign.
-/

-- Powers are those of the core library, whatever other powers of numbers are in scope.
attribute [instance (2000)] instPowNat

namespace Retarget.Text

/-- ASCII letters, either case. -/
def isLetter (c : Char) : Bool := ('a' ≤ c && c ≤ 'z') || ('A' ≤ c && c ≤ 'Z')

/-- ASCII decimal digits. -/
def isDigit (c : Char) : Bool := '0' ≤ c && c ≤ '9'

/-- The characters of names: ASCII letters and digits and the underscore. -/
def isNameChar (c : Char) : Bool := isLetter c || isDigit c || c == '_'

/-- Binary digits. -/
def isBinaryDigit (c : Char) : Bool := c == '0' || c == '1'

/-- The value of a digit, letters counting from ten in either case. -/
def digitValue (c : Char) : Option Nat :=
  if isDigit c then some (c.toNat - '0'.toNat)
  else if 'a' ≤ c && c ≤ 'z' then some (c.toNat - 'a'.toNat + 10)
  else if 'A' ≤ c && c ≤ 'Z' then some (c.toNat - 'A'.toNat + 10)
  else none

/-- The value of `c` as a digit of `base`. -/
def digitIn (base : Nat) (c : Char) : Option Nat :=
  (digitValue c).filter (· < base)

/-- Hexadecimal digits, either case. -/
def isHexDigit (c : Char) : Bool := (digitIn 16 c).isSome

/-- Continue reading digits of `base` after a number `acc`. -/
def readDigits (base acc : Nat) : List Char → Option Nat
  | [] => some acc
  | c :: cs =>
    match digitIn base c with
    | some d => readDigits base (acc * base + d) cs
    | none => none

/-- A nonempty run of digits of `base`. -/
def readNat (base : Nat) (cs : List Char) : Option Nat :=
  if cs.isEmpty then none else readDigits base 0 cs

/-- A decimal number with an optional minus sign. -/
def readInt (cs : List Char) : Option Int :=
  match cs with
  | '-' :: rest => (readNat 10 rest).map fun n => -(n : Int)
  | _ => (readNat 10 cs).map fun n => (n : Int)

/-- Lower-case hexadecimal without leading zeros. -/
def hexLower (n : Nat) : String := String.ofList (Nat.toDigits 16 n)

/-- Upper-case hexadecimal, filled with zeros to `width`. -/
def hexUpper (width n : Nat) : String :=
  let digits := (Nat.toDigits 16 n).map Char.toUpper
  String.ofList (List.replicate (width - digits.length) '0' ++ digits)

end Retarget.Text
