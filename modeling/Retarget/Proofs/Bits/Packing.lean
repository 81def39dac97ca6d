import Mathlib.Algebra.Order.Floor.Div
import Retarget.Bits.Run
import Retarget.Bits.Wide
import Retarget.Proofs.Bits.Pattern

/-!
# Packing bits into words

What the words of a run of slices and of a wide value hold, bit by bit.

* `PartialWord.pour_bits`: bits that are poured into a word are cut where it is full, and none are
  lost;
* `packRun_words`: the words of a run are its bits, completed on the right with zero bits
  (`RunWords`); `packRun_of_valid`: they always exist;
* `packRun_congr`, `packRun_append`: in any geometry, words and errors depend on the bits of the run
  only, and slices that fill whole words can be packed apart from those behind them;
* `Wide.ofCount_bits`: the words of a wide value are the bits of its two's complement;
  `Wide.exists_ofCount_iff`: when they exist;
* `RunWords.length_eq`: how many words a run makes; `Wide.ordered_sized`: how many a wide value
  does.
-/

namespace Retarget

/-- How many bits there are in the words that hold `n` bits. -/
def wholeBits (size n : Nat) : Nat := n ⌈/⌉ size * size

/-- Words of geometry `g` that hold the bits of a run, completed on the right with zero bits. -/
structure RunWords (g : Geometry) (bits : List Bool) (words : List Word) : Prop where
  geometry_eq : ∀ w ∈ words, w.geometry = g
  bits_eq : words.flatMap Word.bits = bits.rightpad (wholeBits g.size bits.length) false

/-- Words of geometry `g` that hold the bits of a value, completed on the left with zero bits. The
most significant word comes first, or last if the order is little. -/
def WideWords (g : Geometry) (order : Endian) (bits : List Bool) (words : List Word) : Prop :=
  ∃ ordered, words = order.arrange ordered ∧ (∀ w ∈ ordered, w.geometry = g) ∧
    ordered.flatMap Word.bits = bits.leftpad (wholeBits g.size bits.length) false

/-! ## Counting words -/

/-- Bits that a few more complete to `k` words take up `k` words. -/
theorem ceilDiv_eq_of_pad {size n pad k : Nat} (hpad : pad < size) (h : n + pad = k * size) :
    n ⌈/⌉ size = k := by
  rw [Nat.ceilDiv_eq_add_pred_div]
  apply Nat.div_eq_of_lt_le
  · omega
  · rw [Nat.succ_mul]
    omega

theorem le_wholeBits {size : Nat} (hsize : 0 < size) (n : Nat) : n ≤ wholeBits size n := by
  have h := Nat.div_add_mod (n + size - 1) size
  have hlt := Nat.mod_lt (n + size - 1) hsize
  rw [wholeBits, Nat.ceilDiv_eq_add_pred_div, Nat.mul_comm]
  omega

/-- Patterns behind whole words are completed like patterns of their own. -/
theorem wholeBits_add {size m : Nat} (hsize : 0 < size) (h : size ∣ m) (n : Nat) :
    wholeBits size (m + n) = m + wholeBits size n := by
  obtain ⟨k, rfl⟩ := h
  rw [wholeBits, wholeBits, Nat.ceilDiv_eq_add_pred_div, Nat.ceilDiv_eq_add_pred_div,
    show size * k + n + size - 1 = n + size - 1 + size * k by omega, Nat.add_mul_div_left _ _ hsize]
  ring

theorem length_flatMap_bits {words : List Word} {size : Nat}
    (h : ∀ w ∈ words, w.geometry.size = size) :
    (words.flatMap Word.bits).length = words.length * size := by
  induction words with
  | nil => simp
  | cons w words ih =>
    rw [List.flatMap_cons, List.length_append, Word.length_bits, h w List.mem_cons_self,
      ih fun v hv => h v (List.mem_cons_of_mem w hv), List.length_cons, Nat.succ_mul, Nat.add_comm]

/-- A list of bits that fills words up to a padding is `wholeBits` long. -/
private theorem eq_length_of_whole {g : Geometry} {n : Nat} {words : List Word} (hsize : 0 < g.size)
    (hg : ∀ w ∈ words, w.geometry = g)
    (hlen : (words.flatMap Word.bits).length = wholeBits g.size n) :
    words.length = n ⌈/⌉ g.size := by
  rw [length_flatMap_bits fun w hw => by rw [hg w hw], wholeBits] at hlen
  exact Nat.eq_of_mul_eq_mul_right hsize hlen

theorem RunWords.length_eq {g : Geometry} {bits : List Bool} {words : List Word}
    (hsize : 0 < g.size) (h : RunWords g bits words) : words.length = bits.length ⌈/⌉ g.size := by
  have hle := le_wholeBits hsize bits.length
  apply eq_length_of_whole hsize h.geometry_eq
  rw [h.bits_eq, List.rightpad, List.length_append, List.length_replicate]
  omega

@[simp] theorem Endian.length_arrange {α : Type} (order : Endian) (items : List α) :
    (order.arrange items).length = items.length := by
  cases order <;> simp [arrange]

@[simp] theorem Endian.mem_arrange {α : Type} (order : Endian) {items : List α} {a : α} :
    a ∈ order.arrange items ↔ a ∈ items := by
  cases order <;> simp [arrange]

/-- `count` words of `size` bits each. -/
structure Sized (size count : Nat) (words : List Word) : Prop where
  length_eq : words.length = count
  size_eq : ∀ w ∈ words, w.geometry.size = size

namespace Sized

variable {size m n : Nat} {words words' : List Word}

theorem nil : Sized size 0 [] := ⟨rfl, nofun⟩

theorem cons {w : Word} (hw : w.geometry.size = size) (h : Sized size n words) :
    Sized size (n + 1) (w :: words) :=
  ⟨congrArg (· + 1) h.length_eq, List.forall_mem_cons.mpr ⟨hw, h.size_eq⟩⟩

theorem append (h : Sized size m words) (h' : Sized size n words') :
    Sized size (m + n) (words ++ words') where
  length_eq := by rw [List.length_append, h.length_eq, h'.length_eq]
  size_eq := List.forall_mem_append.mpr ⟨h.size_eq, h'.size_eq⟩

end Sized

theorem RunWords.sized {g : Geometry} {bits : List Bool} {words : List Word} (hsize : 0 < g.size)
    (h : RunWords g bits words) : Sized g.size (bits.length ⌈/⌉ g.size) words :=
  ⟨h.length_eq hsize, fun w hw => by rw [h.geometry_eq w hw]⟩

/-! ## Words from their bits -/

/-- Words of one geometry are told apart by all their bits. -/
theorem eq_of_flatMap_bits_eq {g : Geometry} {words words' : List Word}
    (hg : ∀ w ∈ words, w.geometry = g) (hg' : ∀ w ∈ words', w.geometry = g)
    (h : words.flatMap Word.bits = words'.flatMap Word.bits) : words = words' := by
  have hlen := congrArg List.length h
  rw [length_flatMap_bits fun w hw => by rw [hg w hw],
    length_flatMap_bits fun w hw => by rw [hg' w hw]] at hlen
  induction words generalizing words' with
  | nil =>
    cases words' with
    | nil => rfl
    | cons w' words' =>
      have := w'.size_pos
      rw [hg' w' List.mem_cons_self] at this
      rw [List.length_nil, List.length_cons, Nat.succ_mul] at hlen
      omega
  | cons w words ih =>
    cases words' with
    | nil =>
      have := w.size_pos
      rw [hg w List.mem_cons_self] at this
      rw [List.length_nil, List.length_cons, Nat.succ_mul] at hlen
      omega
    | cons w' words' =>
      rw [List.forall_mem_cons] at hg hg'
      have hgeometry : w.geometry = w'.geometry := hg.1.trans hg'.1.symm
      rw [List.flatMap_cons, List.flatMap_cons] at h
      obtain ⟨hfirst, hrest⟩ :=
        List.append_inj h (by rw [Word.length_bits, Word.length_bits, hgeometry])
      rw [List.length_cons, List.length_cons, Nat.succ_mul, Nat.succ_mul] at hlen
      rw [Word.eq_of_bits_eq hgeometry hfirst, ih hg.2 hg'.2 hrest (by omega)]

theorem RunWords.unique {g : Geometry} {bits : List Bool} {words words' : List Word}
    (h : RunWords g bits words) (h' : RunWords g bits words') : words = words' :=
  eq_of_flatMap_bits_eq h.geometry_eq h'.geometry_eq (h.bits_eq.trans h'.bits_eq.symm)

theorem WideWords.unique {g : Geometry} {order : Endian} {bits : List Bool}
    {words words' : List Word} (h : WideWords g order bits words)
    (h' : WideWords g order bits words') : words = words' := by
  obtain ⟨ordered, rfl, hg, hbits⟩ := h
  obtain ⟨ordered', rfl, hg', hbits'⟩ := h'
  rw [eq_of_flatMap_bits_eq hg hg' (hbits.trans hbits'.symm)]

/-! ## Runs of slices -/

namespace PartialWord

variable {g : Geometry}

/-- The bits of a word that is being filled. -/
def bits (p : PartialWord g) : List Bool := bitsOf p.value p.width

@[simp] theorem bits_empty (h : 0 < g.size) : (empty h).bits = [] := rfl

theorem width_add_room (p : PartialWord g) : p.width + p.room = g.size := by
  have := p.width_lt
  rw [room]
  omega

theorem bits_push (p : PartialWord g) (raw count : Nat) (h : p.width + count < g.size) :
    (p.push raw count h).bits = p.bits ++ bitsOf raw count := by
  rw [bits, push, bitsOf_append (Nat.mod_lt _ (Nat.two_pow_pos _)), bitsOf_mod, bits]

theorem bits_fill {p : PartialWord g} {raw count : Nat} {w : Word} (h : p.fill raw count = .ok w) :
    w.bits = p.bits ++ bitsOf (raw / 2 ^ (count - p.room)) p.room := by
  rw [Word.bits_of_make h, ← p.width_add_room, bitsOf_append (Nat.mod_lt _ (Nat.two_pow_pos _)),
    bitsOf_mod, bits]

/-- Pouring bits into a word loses none of them and changes none of those before. -/
theorem pour_bits {p q : PartialWord g} {raw count : Nat} {words : List Word}
    (h : p.pour raw count = .ok (words, q)) :
    (∀ w ∈ words, w.geometry = g) ∧
      words.flatMap Word.bits ++ q.bits = p.bits ++ bitsOf raw count := by
  induction count using Nat.strongRecOn generalizing p words with
  | ind count ih =>
    rw [pour] at h
    split at h
    · -- The bits stay inside the word.
      cases h
      exact ⟨by simp, by rw [List.flatMap_nil, List.nil_append, bits_push]⟩
    · -- The highest bits fill the word, and the others go on in the next one.
      have hroom := p.room_pos
      have hadd := p.width_add_room
      obtain ⟨word, hword, h⟩ := bind_eq_ok.mp h
      obtain ⟨⟨more, rest⟩, hmore, h⟩ := bind_eq_ok.mp h
      cases pure_eq_ok.mp h
      obtain ⟨hgeometry, hbits⟩ := ih (count - p.room) (by omega) hmore
      rw [bits_empty, List.nil_append] at hbits
      constructor
      · intro w hw
        rcases List.mem_cons.mp hw with rfl | hw
        · exact (Word.make_eq_ok hword).2
        · exact hgeometry w hw
      · rw [List.flatMap_cons, List.append_assoc, hbits, bits_fill hword, List.append_assoc,
          ← bitsOf_add, Nat.add_sub_cancel' (by omega)]

theorem fill_of_valid (hg : g.Valid) (p : PartialWord g) (raw count : Nat) :
    ∃ w, p.fill raw count = .ok w := by
  apply Word.make_of_valid hg
  rw [← p.width_add_room]
  exact append_lt p.value_lt (Nat.mod_lt _ (Nat.two_pow_pos _))

theorem pour_of_valid (hg : g.Valid) (p : PartialWord g) (raw count : Nat) :
    ∃ words q, p.pour raw count = .ok (words, q) := by
  induction count using Nat.strongRecOn generalizing p with
  | ind count ih =>
    rw [pour]
    split
    · exact ⟨_, _, rfl⟩
    · have hroom := p.room_pos
      have hadd := p.width_add_room
      obtain ⟨word, hword⟩ := fill_of_valid hg p raw count
      obtain ⟨more, rest, hmore⟩ :=
        ih (count - p.room) (by omega) (empty (Nat.zero_lt_of_lt p.width_lt))
      exact ⟨word :: more, rest, by rw [hword, hmore]; rfl⟩

/-- The last word is completed with fewer zero bits than a word has. -/
theorem finish_bits {p : PartialWord g} {words : List Word} (h : p.finish = .ok words) :
    (∀ w ∈ words, w.geometry = g) ∧
      ∃ pad < g.size, words.flatMap Word.bits = p.bits ++ List.replicate pad false := by
  have hadd := p.width_add_room
  have hlt := p.width_lt
  unfold finish at h
  split at h
  · rename_i hwidth
    cases h
    refine ⟨by simp, 0, by omega, ?_⟩
    rw [bits, hwidth]
    rfl
  · obtain ⟨word, hword, h⟩ := bind_eq_ok.mp h
    cases pure_eq_ok.mp h
    refine ⟨by simpa using (Word.make_eq_ok hword).2, p.room, by omega, ?_⟩
    have hzero : p.value * 2 ^ p.room = p.value * 2 ^ p.room + 0 := rfl
    rw [List.flatMap_singleton, Word.bits_of_make hword, ← hadd, hzero,
      bitsOf_append (Nat.two_pow_pos _), bitsOf_zero, bits]

theorem finish_of_valid (hg : g.Valid) (p : PartialWord g) : ∃ words, p.finish = .ok words := by
  unfold finish
  split
  · exact ⟨_, rfl⟩
  · have hlt : p.value * 2 ^ p.room < 2 ^ g.size := by
      rw [← p.width_add_room, Nat.pow_add]
      exact Nat.mul_lt_mul_of_pos_right p.value_lt (Nat.two_pow_pos _)
    obtain ⟨word, hword⟩ := Word.make_of_valid hg hlt
    exact ⟨[word], by rw [hword]; rfl⟩

theorem pack_bits {p : PartialWord g} {slices : List Slice} {words : List Word}
    (h : p.pack slices = .ok words) :
    (∀ w ∈ words, w.geometry = g) ∧ ∃ pad < g.size,
      words.flatMap Word.bits =
        p.bits ++ slices.flatMap Slice.bits ++ List.replicate pad false := by
  induction slices generalizing p words with
  | nil => simpa using finish_bits h
  | cons s slices ih =>
    rw [pack] at h
    obtain ⟨⟨before, q⟩, hpour, h⟩ := bind_eq_ok.mp h
    obtain ⟨after, hafter, h⟩ := bind_eq_ok.mp h
    cases pure_eq_ok.mp h
    obtain ⟨hgeometry, hbits⟩ := pour_bits hpour
    obtain ⟨hgeometry', pad, hpad, hbits'⟩ := ih hafter
    refine ⟨fun w hw => ?_, pad, hpad, ?_⟩
    · rcases List.mem_append.mp hw with hw | hw
      · exact hgeometry w hw
      · exact hgeometry' w hw
    · rw [List.flatMap_append, hbits', ← List.append_assoc, ← List.append_assoc, hbits,
        List.flatMap_cons, ← List.append_assoc, Slice.bits]

theorem pour_of_not_valid {e : BitsError} (he : ∀ value, Word.make value g = .error e)
    (p : PartialWord g) (raw count : Nat) :
    p.pour raw count =
      if h : p.width + count < g.size then .ok ([], p.push raw count h) else .error e := by
  rw [pour]
  split
  · rfl
  · rw [fill, he]
    rfl

/-- In a geometry without words, a run can be packed only if it has no bits. -/
theorem pack_of_not_valid {e : BitsError} (he : ∀ value, Word.make value g = .error e)
    (p : PartialWord g) (slices : List Slice) :
    p.pack slices = if p.width + (slices.flatMap Slice.bits).length =
      0 then .ok [] else .error e := by
  induction slices generalizing p with
  | nil =>
    rw [pack, finish, he, List.flatMap_nil, List.length_nil, Nat.add_zero]
    rfl
  | cons s slices ih =>
    have hlt := p.width_lt
    rw [pack, pour_of_not_valid he, List.flatMap_cons, List.length_append, Slice.length_bits,
      ← Nat.add_assoc]
    split
    · dsimp only [ok_bind]
      rw [ih, push]
      split <;> rfl
    · rw [error_bind, if_neg (by omega)]

theorem pack_of_valid (hg : g.Valid) (p : PartialWord g) (slices : List Slice) :
    ∃ words, p.pack slices = .ok words := by
  induction slices generalizing p with
  | nil => exact finish_of_valid hg p
  | cons s slices ih =>
    obtain ⟨before, q, hpour⟩ := pour_of_valid hg p s.raw s.size
    obtain ⟨after, hafter⟩ := ih q
    refine ⟨before ++ after, ?_⟩
    rw [pack]
    exact bind_eq_ok.mpr ⟨(before, q), hpour, bind_eq_ok.mpr ⟨after, hafter, rfl⟩⟩

end PartialWord

/-- **The words of a run** hold the patterns of its slices side by side, completed on the right with
zero bits. -/
theorem packRun_words {g : Geometry} {slices : List Slice} {words : List Word} (hsize : 0 < g.size)
    (h : packRun slices g = .ok words) : RunWords g (slices.flatMap Slice.bits) words := by
  rw [packRun, dif_pos hsize] at h
  obtain ⟨hgeometry, pad, hpad, hbits⟩ := PartialWord.pack_bits h
  rw [PartialWord.bits_empty, List.nil_append] at hbits
  refine ⟨hgeometry, ?_⟩
  have hlen := congrArg List.length hbits
  rw [length_flatMap_bits fun w hw => by rw [hgeometry w hw], List.length_append,
    List.length_replicate] at hlen
  rw [hbits, List.rightpad, wholeBits, ceilDiv_eq_of_pad hpad hlen.symm, hlen,
    Nat.add_sub_cancel_left]

/-- Words of a valid geometry hold every run. -/
theorem packRun_of_valid {g : Geometry} (hg : g.Valid) (slices : List Slice) :
    ∃ words, packRun slices g = .ok words := by
  rw [packRun, dif_pos hg.size_pos]
  exact PartialWord.pack_of_valid hg _ slices

theorem packRun_of_not_valid {g : Geometry} (hsize : 0 < g.size) {e : BitsError}
    (he : ∀ value, Word.make value g = .error e) (slices : List Slice) :
    packRun slices g = if (slices.flatMap Slice.bits).length = 0 then .ok [] else .error e := by
  rw [packRun, dif_pos hsize, PartialWord.pack_of_not_valid he, PartialWord.empty, Nat.zero_add]

/-- **The words of a run depend on its bits only**, and so does the reason why there are none. -/
theorem packRun_congr {slices slices' : List Slice} (g : Geometry)
    (h : slices.flatMap Slice.bits = slices'.flatMap Slice.bits) :
    packRun slices g = packRun slices' g := by
  by_cases hsize : 0 < g.size
  · by_cases hg : g.Valid
    · obtain ⟨words, hwords⟩ := packRun_of_valid hg slices
      obtain ⟨words', hwords'⟩ := packRun_of_valid hg slices'
      have hrun := packRun_words hsize hwords
      rw [h] at hrun
      rw [hwords, hwords', hrun.unique (packRun_words hsize hwords')]
    · obtain ⟨e, he⟩ := Word.make_of_not_valid hg
      rw [packRun_of_not_valid hsize he, packRun_of_not_valid hsize he, h]
  · rw [packRun, packRun, dif_neg hsize, dif_neg hsize]

/-- Words that hold a run, and those that hold another one behind it. -/
theorem RunWords.append {g : Geometry} {bits bits' : List Bool} {words words' : List Word}
    (hsize : 0 < g.size) (hwhole : g.size ∣ bits.length) (h : RunWords g bits words)
    (h' : RunWords g bits' words') : RunWords g (bits ++ bits') (words ++ words') where
  geometry_eq := List.forall_mem_append.mpr ⟨h.geometry_eq, h'.geometry_eq⟩
  bits_eq := by
    have hfull : wholeBits g.size bits.length = bits.length := by
      simpa [wholeBits] using wholeBits_add hsize hwhole 0
    rw [List.flatMap_append, h.bits_eq, h'.bits_eq, hfull, List.length_append,
      wholeBits_add hsize hwhole, List.rightpad, List.rightpad, List.rightpad, List.length_append,
      Nat.add_sub_add_left, Nat.sub_self, List.replicate_zero, List.append_nil, List.append_assoc]

/-- **A run that fills whole words** can be packed on its own. -/
theorem packRun_append {g : Geometry} {slices rest : List Slice} {words : List Word}
    (hwhole : g.size ∣ (slices.flatMap Slice.bits).length) :
    packRun (slices ++ rest) g = .ok words ↔
      ∃ before after, packRun slices g = .ok before ∧ packRun rest g = .ok after ∧
        before ++ after = words := by
  by_cases hsize : 0 < g.size
  · by_cases hg : g.Valid
    · obtain ⟨before, hbefore⟩ := packRun_of_valid hg slices
      obtain ⟨after, hafter⟩ := packRun_of_valid hg rest
      obtain ⟨all, hall⟩ := packRun_of_valid hg (slices ++ rest)
      have hjoined := (packRun_words hsize hbefore).append hsize hwhole (packRun_words hsize hafter)
      rw [← List.flatMap_append] at hjoined
      rw [hall, hbefore, hafter, (packRun_words hsize hall).unique hjoined]
      simp
    · -- Both sides say that there are no bits and no words.
      obtain ⟨e, he⟩ := Word.make_of_not_valid hg
      simp only [packRun_of_not_valid hsize he, List.flatMap_append, List.length_append]
      grind
  · simp [packRun, hsize]

/-! ## Wide values -/

/-- A pattern cut into `count` words. -/
theorem flatMap_range_bitsOf (raw size count : Nat) :
    ((List.range count).flatMap fun i =>
      bitsOf (raw / 2 ^ ((count - 1 - i) * size) % 2 ^ size) size) = bitsOf raw (count * size) := by
  induction count with
  | zero => simp [bitsOf]
  | succ count ih =>
    rw [List.range_succ_eq_map, List.flatMap_cons, List.flatMap_map, Nat.succ_mul,
      Nat.add_comm (count * size), bitsOf_add, ← ih, bitsOf_mod]
    congr 1
    apply List.flatMap_congr
    intro i _
    congr 3
    rw [Nat.succ_eq_add_one, Nat.add_sub_cancel, Nat.add_comm i, Nat.sub_add_eq]

theorem flatMap_bits_of_make {α : Type} {value : α → Nat} {g : Geometry} {xs : List α}
    {words : List Word} (h : List.Forall₂ (fun x w => Word.make (value x) g = .ok w) xs words) :
    (∀ w ∈ words, w.geometry = g) ∧
      words.flatMap Word.bits = xs.flatMap fun x => bitsOf (value x) g.size := by
  induction h with
  | nil => simp
  | cons hw _ ih =>
    constructor
    · intro v hv
      rcases List.mem_cons.mp hv with rfl | hv
      · exact (Word.make_eq_ok hw).2
      · exact ih.1 v hv
    · rw [List.flatMap_cons, List.flatMap_cons, ih.2, Word.bits_of_make hw]

/-- The geometry with segments that divide the word. -/
def Geometry.fitted (g : Geometry) : Geometry :=
  { g with segment := if g.segment ∣ g.size then g.segment else g.size }

@[simp] theorem Geometry.size_fitted (g : Geometry) : g.fitted.size = g.size := rfl

theorem Geometry.fitted_eq {g : Geometry} (h : g.segment ∣ g.size) : g.fitted = g := by
  rw [fitted, if_pos h]

theorem Geometry.valid_fitted {g : Geometry} (hpos : 0 < g.size) (hle : g.size ≤ 128) :
    g.fitted.Valid := by
  refine ⟨hpos, hle, ?_⟩
  by_cases h : g.segment ∣ g.size <;> simp [fitted, h]

namespace Wide

/-- When a value is spread over words. -/
theorem ofCount_eq_ok {value : Int} {count : Nat} {g : Geometry} {order : Endian} {v : Wide} :
    ofCount value count g order = .ok v ↔ 0 < g.size ∧ count * g.size ≤ 128 ∧ ∃ words,
      ((List.range count).mapM fun i => Word.make
        ((value % 2 ^ (count * g.size)).toNat / 2 ^ ((count - 1 - i) * g.size) % 2 ^ g.size)
          g.fitted) = .ok words ∧ { value, wordSize := g.size, order, words } = v := by
  unfold ofCount
  by_cases hsize : g.size = 0
  · simp [hsize, throw, throwThe, MonadExceptOf.throw]
  · by_cases htotal : 128 < count * g.size
    · simp [hsize, htotal, throw, throwThe, MonadExceptOf.throw]
    · simp only [hsize, htotal, if_false, bind_eq_ok, pure_eq_ok, Geometry.fitted]
      rw [and_iff_right (Nat.pos_of_ne_zero hsize), and_iff_right (Nat.le_of_not_lt htotal)]

/-- The words of a wide value hold the two's complement of the value. -/
theorem ofCount_bits {value : Int} {count : Nat} {g : Geometry} {order : Endian} {v : Wide}
    (h : ofCount value count g order = .ok v) :
    v.order = order ∧ (∀ w ∈ v.words, w.geometry = g.fitted) ∧
      v.words.flatMap Word.bits = twosComplement value (count * g.size) := by
  obtain ⟨-, -, words, hwords, rfl⟩ := ofCount_eq_ok.mp h
  obtain ⟨hgeometry, hbits⟩ := flatMap_bits_of_make (mapM_eq_ok.mp hwords)
  refine ⟨rfl, hgeometry, ?_⟩
  rw [hbits, Geometry.size_fitted, flatMap_range_bitsOf, twosComplement_eq_bitsOf]

theorem sized_of_ofCount {value : Int} {count : Nat} {g : Geometry} {order : Endian} {v : Wide}
    (h : ofCount value count g order = .ok v) : Sized g.size count v.words := by
  obtain ⟨-, hgeometry, -⟩ := ofCount_bits h
  obtain ⟨-, -, words, hwords, rfl⟩ := ofCount_eq_ok.mp h
  refine ⟨?_, fun w hw => by rw [hgeometry w hw, Geometry.size_fitted]⟩
  rw [← (mapM_eq_ok.mp hwords).length_eq, List.length_range]

theorem ordered_sized {value : Int} {count : Nat} {g : Geometry} {order : Endian} {v : Wide}
    (h : ofCount value count g order = .ok v) : Sized g.size count v.ordered := by
  have hsized := sized_of_ofCount h
  refine ⟨(Endian.length_arrange _ _).trans hsized.length_eq, fun w hw => ?_⟩
  exact hsized.size_eq w ((Endian.mem_arrange _).mp hw)

/-- Values can be spread over words of at most 128 bits together, whatever the segments are. -/
theorem exists_ofCount_iff {g : Geometry} (hpos : 0 < g.size) (hle : g.size ≤ 128) (value : Int)
    (count : Nat) (order : Endian) :
    (∃ v, ofCount value count g order = .ok v) ↔ count * g.size ≤ 128 := by
  refine ⟨fun ⟨v, hv⟩ => (ofCount_eq_ok.mp hv).2.1, fun hcount => ?_⟩
  obtain ⟨words, hwords⟩ : ∃ words, ((List.range count).mapM fun i => Word.make
      ((value % 2 ^ (count * g.size)).toNat / 2 ^ ((count - 1 - i) * g.size) % 2 ^ g.size)
        g.fitted) = .ok words := by
    apply exists_mapM_eq_ok
    intro i _
    exact Word.make_of_valid (Geometry.valid_fitted hpos hle) (Nat.mod_lt _ (Nat.two_pow_pos _))
  exact ⟨_, ofCount_eq_ok.mpr ⟨hpos, hcount, words, hwords, rfl⟩⟩

end Wide

end Retarget
