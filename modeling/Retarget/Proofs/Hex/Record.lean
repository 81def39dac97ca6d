import Retarget.Hex.Record

/-!
# Lines of records

A record is written as the digits of its bytes, two for each byte, and read back from them.

* `Text.hexUpper_succ`: numbers are written digit by digit;
* `HexRecord.toList_render`: the line of a record is that of its bytes (`HexRecord.bytes`);
* `HexRecord.readBytes_flatMap_pair`: the bytes are read back from their digits;
* `HexRecord.parse_render`: and so is the record.
-/

namespace Retarget

/-! ## Digits -/

namespace Text

/-- The upper-case digit of a number below sixteen. -/
def upperDigit (n : Nat) : Char := n.digitChar.toUpper

theorem digitIn_upperDigit {n : Nat} (h : n < 16) : digitIn 16 (upperDigit n) = some n := by
  have hall : ∀ n < 16, digitIn 16 (upperDigit n) = some n := by decide
  exact hall n h

theorem isBlank_upperDigit {n : Nat} (h : n < 16) : isBlank (upperDigit n) = false := by
  have hall : ∀ n < 16, isBlank (upperDigit n) = false := by decide
  exact hall n h

theorem hexUpper_one {n : Nat} (h : n < 16) : (hexUpper 1 n).toList = [upperDigit n] := by
  simp [hexUpper, Nat.toDigits_of_lt_base h, upperDigit]

/-- The last digit stands behind the others. -/
theorem hexUpper_succ (width n : Nat) :
    (hexUpper (width + 2) n).toList =
      (hexUpper (width + 1) (n / 16)).toList ++ [upperDigit (n % 16)] := by
  simp only [hexUpper, String.toList_ofList]
  by_cases h : n < 16
  · -- A single digit: the others are zeros.
    have hzero : n / 16 = 0 := Nat.div_eq_of_lt h
    rw [Nat.toDigits_of_lt_base h, hzero, Nat.toDigits_of_lt_base (by decide), Nat.mod_eq_of_lt h]
    simp only [List.map_cons, List.map_nil, List.length_singleton, Nat.add_sub_cancel]
    rw [show width + 2 - 1 = width + 1 from rfl, List.replicate_succ']
    rfl
  · rw [Nat.toDigits_of_base_le (by decide) (Nat.le_of_not_lt h), List.map_append,
      List.length_append, ← List.append_assoc]
    simp [upperDigit]

/-- Nothing is trimmed if nothing is blank. -/
theorem trim_eq_self {cs : List Char} (h : ∀ c ∈ cs, isBlank c = false) : trim cs = cs := by
  have hdrop {cs : List Char} (h : ∀ c ∈ cs, isBlank c = false) : cs.dropWhile isBlank = cs := by
    cases cs with
    | nil => rfl
    | cons c cs => exact List.dropWhile_cons_of_neg (by simp [h c List.mem_cons_self])
  rw [trim, trimStart, hdrop h, trimEnd, hdrop (by simpa using h), List.reverse_reverse]

end Text

/-! ## Kinds and addresses -/

@[simp] theorem RecordKind.ofCode?_code (kind : RecordKind) : ofCode? kind.code = some kind := by
  cases kind <;> rfl

theorem toNat_highByte (a : UInt16) : (a >>> 8).toUInt8.toNat = a.toNat / 256 := by
  have := a.toNat_lt
  simp only [UInt16.toNat_toUInt8, UInt16.toNat_shiftRight]
  simp [Nat.shiftRight_eq_div_pow]
  omega

theorem toNat_lowByte (a : UInt16) : a.toUInt8.toNat = a.toNat % 256 := by
  simp

/-- An address is put together from its two bytes. -/
theorem joinBytes_eq (a : UInt16) :
    (a >>> 8).toUInt8.toUInt16 <<< 8 ||| a.toUInt8.toUInt16 = a := by
  have hlt := a.toNat_lt
  have hlow : a.toNat % 256 < 2 ^ 8 := Nat.mod_lt _ (by decide)
  apply UInt16.toNat_inj.mp
  rw [UInt16.toNat_or, UInt16.toNat_shiftLeft, UInt8.toNat_toUInt16, UInt8.toNat_toUInt16,
    toNat_highByte, toNat_lowByte]
  have hshift : (a.toNat / 256) <<< 8 % 2 ^ 16 = (a.toNat / 256) <<< 8 := by
    rw [Nat.shiftLeft_eq]
    omega
  show (a.toNat / 256) <<< 8 % 2 ^ 16 ||| a.toNat % 256 = a.toNat
  rw [hshift, ← Nat.shiftLeft_add_eq_or_of_lt hlow, Nat.shiftLeft_eq]
  omega

namespace HexRecord

/-! ## Bytes as digits -/

/-- The two digits of a byte. -/
def pair (b : UInt8) : List Char := [Text.upperDigit (b.toNat / 16), Text.upperDigit (b.toNat % 16)]

theorem toList_hexUpper_two {n : Nat} (h : n < 256) :
    (Text.hexUpper 2 n).toList = pair (UInt8.ofNat n) := by
  rw [Text.hexUpper_succ, Text.hexUpper_one (by omega), pair, UInt8.toNat_ofNat',
    Nat.mod_eq_of_lt h]
  rfl

theorem toList_byteText (b : UInt8) : (byteText b).toList = pair b := by
  rw [byteText, toList_hexUpper_two b.toNat_lt, UInt8.ofNat_toNat]

theorem toList_hexUpper_four (a : UInt16) :
    (Text.hexUpper 4 a.toNat).toList = pair (a >>> 8).toUInt8 ++ pair a.toUInt8 := by
  have hlt := a.toNat_lt
  have hdiv : a.toNat / 16 / 16 = a.toNat / 256 := Nat.div_div_eq_div_mul _ _ _
  rw [Text.hexUpper_succ, Text.hexUpper_succ, hdiv, toList_hexUpper_two (by omega),
    ← toNat_highByte, UInt8.ofNat_toNat, List.append_assoc]
  have hhigh : a.toNat / 16 % 16 = a.toNat % 256 / 16 := by omega
  have hlow : a.toNat % 16 = a.toNat % 256 % 16 := by omega
  rw [pair, toNat_lowByte, hhigh, hlow]
  rfl

/-- The bytes that a record is written as. -/
def bytes (r : HexRecord) : List UInt8 :=
  UInt8.ofNat r.data.length :: (r.address >>> 8).toUInt8 :: r.address.toUInt8 :: r.kind.code ::
    (r.data ++ [r.checksum])

/-- The line of a record has the digits of its bytes. -/
theorem toList_render {r : HexRecord} (h : r.data.length < 256) :
    r.render.toList = ':' :: r.bytes.flatMap pair := by
  simp only [render, String.toList_append, String.toList_join, List.flatMap_map, toList_byteText,
    toList_hexUpper_two h, toList_hexUpper_four, bytes, List.flatMap_cons, List.flatMap_append,
    List.flatMap_nil, List.append_nil, List.append_assoc]
  rfl

/-! ## Reading digits -/

/-- The bytes are read back. -/
theorem readBytes_flatMap_pair (bs : List UInt8) : readBytes (bs.flatMap pair) = some bs := by
  induction bs with
  | nil => rfl
  | cons b bs ih =>
    have hlt := b.toNat_lt
    have hbyte : b.toNat / 16 * 16 + b.toNat % 16 = b.toNat := Nat.div_add_mod' _ _
    show readBytes (Text.upperDigit (b.toNat / 16) :: Text.upperDigit (b.toNat % 16) ::
        bs.flatMap pair) = _
    rw [readBytes, Text.digitIn_upperDigit (by omega), Text.digitIn_upperDigit (by omega), ih]
    simp only [Option.bind_eq_bind, Option.bind_some, hbyte, UInt8.ofNat_toNat]
    rfl

theorem isBlank_of_mem_pairs {bs : List UInt8} {c : Char} (h : c ∈ bs.flatMap pair) :
    Text.isBlank c = false := by
  obtain ⟨b, -, hc⟩ := List.mem_flatMap.mp h
  have hlt := b.toNat_lt
  rcases List.mem_cons.mp hc with rfl | hc
  · exact Text.isBlank_upperDigit (by omega)
  · rw [List.mem_singleton.mp hc]
    exact Text.isBlank_upperDigit (Nat.mod_lt _ (by decide))

theorem length_flatMap_pair (bs : List UInt8) : (bs.flatMap pair).length = 2 * bs.length := by
  induction bs with
  | nil => rfl
  | cons b bs ih =>
    rw [List.flatMap_cons, List.length_append, ih, List.length_cons, pair]
    simp only [List.length_cons, List.length_nil]
    omega

theorem readLine_render {r : HexRecord} (h : r.data.length < 256) :
    readLine r.render = some r.bytes := by
  have hblank : ∀ c ∈ ':' :: r.bytes.flatMap pair, Text.isBlank c = false := by
    refine List.forall_mem_cons.mpr ⟨by decide, fun c hc => isBlank_of_mem_pairs hc⟩
  have hlen : 10 ≤ (r.bytes.flatMap pair).length := by
    rw [length_flatMap_pair]
    simp only [bytes, List.length_cons, List.length_append, List.length_nil]
    omega
  rw [readLine, toList_render h, Text.trim_eq_self hblank]
  simp only [if_pos hlen, readBytes_flatMap_pair]

/-! ## Reading records -/

/-- **A record is read back from its line.** -/
theorem parse_render {r : HexRecord} (h : r.data.length < 256) : parse r.render = .ok (some r) := by
  have hlen : (UInt8.ofNat r.data.length).toNat = r.data.length := by
    rw [UInt8.toNat_ofNat', Nat.mod_eq_of_lt h]
  simp only [parse, readLine_render h, bytes, RecordKind.ofCode?_code, List.dropLast_concat,
    List.getLast?_concat, joinBytes_eq, hlen]
  simp

end HexRecord

end Retarget
