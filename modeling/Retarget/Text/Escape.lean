import Retarget.Text.Digits

/-!
# Backslash escapes

The body of a quoted text may hold `\n`, `\r`, `\t`, `\0`, and `\x` with one or two hexadecimal
digits. A backslash before any other character stands for that character, and one at the end for
itself. `\x` without a digit is kept as it is written.
-/

namespace Retarget.Text

/-- Decode the escapes of a quoted body. -/
def unescapeChars : List Char → List Char
  | [] => []
  | ['\\'] => ['\\']
  | '\\' :: 'n' :: cs => '\n' :: unescapeChars cs
  | '\\' :: 'r' :: cs => '\r' :: unescapeChars cs
  | '\\' :: 't' :: cs => '\t' :: unescapeChars cs
  | '\\' :: '0' :: cs => Char.ofNat 0 :: unescapeChars cs
  | '\\' :: 'x' :: cs =>
    match cs with
    | [] => ['\\', 'x']
    | [h] =>
      match digitIn 16 h with
      | some d => [Char.ofNat d]
      | none => '\\' :: 'x' :: unescapeChars [h]
    | h :: l :: rest =>
      match digitIn 16 h, digitIn 16 l with
      | some d, some e => Char.ofNat (16 * d + e) :: unescapeChars rest
      | some d, none => Char.ofNat d :: unescapeChars (l :: rest)
      | none, _ => '\\' :: 'x' :: unescapeChars (h :: l :: rest)
  | '\\' :: c :: cs => c :: unescapeChars cs
  | c :: cs => c :: unescapeChars cs

/-- `unescapeChars` on strings. -/
def unescape (s : String) : String := String.ofList (unescapeChars s.toList)

end Retarget.Text
