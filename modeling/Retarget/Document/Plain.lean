import Retarget.Document.Basic
import Retarget.Document.Decimal
import Retarget.Text.Digits

/-!
# Unquoted scalars

An unquoted scalar is a text where a text is wanted. Elsewhere its spelling decides: the null words,
the truth words, integers in four bases, other numbers, and texts for all that is left. Digits after
a leading zero are a text, not a number. A tag before the scalar asks for one of these types.
-/

namespace Retarget.Plain

/-- The null words; the empty scalar is not among them. -/
def isNullWord (s : String) : Bool := ["null", "Null", "NULL", "~"].contains s

/-- Whether a scalar says that there is nothing. -/
def isNull (s : String) : Bool := s.isEmpty || isNullWord s

/-- The truth words. -/
def bool? (s : String) : Option Bool :=
  if ["true", "True", "TRUE"].contains s then some true
  else if ["false", "False", "FALSE"].contains s then some false
  else none

/-- Whether a text is a zero with more digits after it. -/
def isZeroPadded : List Char → Bool
  | '0' :: c :: cs => (c :: cs).all Text.isDigit
  | _ => false

/-- An integer without its sign. -/
def magnitude? (cs : List Char) : Option Nat :=
  match cs with
  | '0' :: 'x' :: digits => Text.readNat 16 digits
  | '0' :: 'o' :: digits => Text.readNat 8 digits
  | '0' :: 'b' :: digits => Text.readNat 2 digits
  | _ => if isZeroPadded cs then none else Text.readNat 10 cs

/-- Whether an integer has a minus sign, and its magnitude. -/
def integer? (s : String) : Option (Bool × Nat) :=
  match s.toList with
  | '-' :: cs => (magnitude? cs).map fun n => (true, n)
  | '+' :: cs => (magnitude? cs).map fun n => (false, n)
  | cs => (magnitude? cs).map fun n => (false, n)

/-- The double `m * 10 ^ e`, where `m` has the given count of digits from its first that is no zero;
none if it is infinite. -/
def ofScientific (m : Nat) (digits : Nat) (e : Int) : Option Float :=
  if m = 0 ∨ e + digits < -330 then some 0.0
  else if 310 < e + digits then none
  else
    let f := Float.ofScientific m (e < 0) e.natAbs
    if f.isInf then none else some f

/-- The exponent after a mantissa. -/
def exponent? (cs : List Char) : Option Int :=
  match cs with
  | [] => some 0
  | c :: rest =>
    if c == 'e' || c == 'E' then
      match rest with
      | '-' :: digits => (Text.readNat 10 digits).map fun n => -(n : Int)
      | '+' :: digits => (Text.readNat 10 digits).map fun n => (n : Int)
      | digits => (Text.readNat 10 digits).map fun n => (n : Int)
    else none

/-- A finite number without its sign: digits with a point anywhere, and an exponent. -/
def fraction? (cs : List Char) : Option Float := do
  let whole := cs.takeWhile Text.isDigit
  let rest := cs.drop whole.length
  let (places, rest) :=
    match rest with
    | '.' :: more =>
      let places := more.takeWhile Text.isDigit
      (places, more.drop places.length)
    | _ => ([], rest)
  let e ← exponent? rest
  let digits := whole ++ places
  let m ← Text.readNat 10 digits
  ofScientific m (digits.dropWhile (· == '0')).length (e - places.length)

/-- The text of a number that is no integer. -/
def decimal? (s : String) : Option String :=
  match s.toList with
  | '-' :: cs =>
    if s == "-.inf" || s == "-.Inf" || s == "-.INF" then some "-inf"
    else if isZeroPadded cs then none
    else (fraction? cs).map fun f => Decimal.text (-f)
  | '+' :: cs =>
    if s == "+.inf" || s == "+.Inf" || s == "+.INF" then some "inf"
    else if isZeroPadded cs then none
    else (fraction? cs).map Decimal.text
  | cs =>
    if s == ".inf" || s == ".Inf" || s == ".INF" then some "inf"
    else if s == ".nan" || s == ".NaN" || s == ".NAN" then some "NaN"
    else if isZeroPadded cs then none
    else (fraction? cs).map Decimal.text

/-- The number, or the text, that a scalar stands for. -/
def number (s : String) : Document :=
  let other :=
    match decimal? s with
    | some t => .decimal t
    | none => .text s
  match integer? s with
  | some (false, n) =>
    if n < 2 ^ (64 : Nat) then .integer n else if n < 2 ^ (128 : Nat) then .unreadable else other
  | some (true, n) =>
    if n ≤ 2 ^ (63 : Nat) then .integer (-n) else if n ≤ 2 ^ (127 : Nat) then .unreadable else other
  | none => other

/-- The tag of a type that every document knows. -/
def coreTag (name : String) : String := "tag:yaml.org,2002:" ++ name

/-- Whether a tag names a type that only its document knows. -/
def isLocalTag (tag : String) : Bool := tag.startsWith "!"

/-- What a scalar with a tag stands for; none if the tag asks for something else. -/
def ofTag? (tag s : String) : Option Document :=
  if isLocalTag tag then none
  else if tag == coreTag "bool" then (bool? s).map .bool
  else if tag == coreTag "int" then
    match number s with
    | .integer v => some (.integer v)
    | _ => none
  else if tag == coreTag "float" then (decimal? s).map .decimal
  else if tag == coreTag "null" then if isNullWord s then some .null else none
  else some (.text s)

/-- What a scalar stands for where nothing particular is wanted. -/
def value (s : String) : Document :=
  if isNull s then .null
  else
    match bool? s with
    | some b => .bool b
    | none => number s

end Retarget.Plain
