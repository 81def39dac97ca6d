import Retarget.Text.Blank
import Retarget.Text.Digits

/-!
# Versions

A version is written `x.y.z`. Missing parts are zero, a leading `v` and anything from the first `-`
or `+` on do not count, and each part is below `2 ^ 64`.
-/

namespace Retarget

/-- A version in three parts. -/
structure Version where
  major : Nat
  minor : Nat
  patch : Nat
  deriving DecidableEq, Repr, Inhabited

namespace Version

/-- Order of versions: by major, then minor, then patch number. -/
def compare (a b : Version) : Ordering :=
  (Ord.compare a.major b.major).then
    ((Ord.compare a.minor b.minor).then (Ord.compare a.patch b.patch))

private def readPart (cs : List Char) : Option Nat :=
  (Text.readNat 10 cs).filter (· < 2 ^ (64 : Nat))

/-- Read a version. -/
def parse (s : String) : Option Version :=
  let core := (Text.trim s.toList).dropWhile fun c => c == 'v' || c == 'V'
  let core := core.takeWhile fun c => c != '-' && c != '+'
  match core.splitOn '.' with
  | [x] => do return ⟨← readPart x, 0, 0⟩
  | [x, y] => do return ⟨← readPart x, ← readPart y, 0⟩
  | [x, y, z] => do return ⟨← readPart x, ← readPart y, ← readPart z⟩
  | _ => none

end Version

end Retarget
