import Retarget.Assembly.Passes

/-!
# Images

The image runs from the start address to the end address. Every item that is not muted puts its
words at its address, and the fill word stands everywhere else.
-/

namespace Retarget

namespace Image

/-- The words from `cursor` to `last`, of items in the order of their addresses. -/
def wordsFrom (fill : Word) (last cursor : Int) : List CodedItem → List Word
  | [] => List.replicate (last + 1 - cursor).toNat fill
  | i :: rest =>
    if i.address < cursor then wordsFrom fill last cursor rest
    else if last < i.address then List.replicate (last + 1 - cursor).toNat fill
    else
      List.replicate (i.address - cursor).toNat fill ++ i.words ++ wordsFrom fill last i.stop rest

/-- The last address with a word. -/
def lastAddress (items : List CodedItem) : Option Int :=
  ((items.filter CodedItem.hasWords).map fun i => i.stop - 1).max?

/-- The word between items. -/
def fillWord (isa : Isa) (fill : Nat) : Except BitsError Word :=
  Word.make (fill % 2 ^ min isa.wordSize 128) isa.geometry

/-- The words of an image; there are none if nothing says where it ends. -/
def words (isa : Isa) (options : Options) (items : List CodedItem) :
    Except BitsError (List Word) :=
  let start : Int := options.start.getD 0
  match (options.stop.map Int.ofNat).or (lastAddress items) with
  | none => .ok []
  | some last => do
    let fill ← fillWord isa options.fill
    return wordsFrom fill last start (items.filter fun i => i.hasWords && !i.item.muted)

end Image

end Retarget
