import Retarget.Proofs.Expr.Numeral
import Retarget.Proofs.Text.Blank

/-!
# Corrupted records

A line of a record in which one digit was replaced by another one is no line of any record.

* `HexRecord.readBytes_set`: another digit is another byte at its place, and all other bytes are
  read as before;
* `HexRecord.total_bytes`: the bytes of a record sum to zero, and `HexRecord.total_set_ne`: with
  another byte in place of one of them they do not;
* `HexRecord.bytes_of_accepted`: a line that is accepted has the bytes of the record that is read;
* `HexRecord.parse_of_changed`: so a line with another byte in place of one of them is refused, and
  by which check.
-/

namespace Retarget

namespace HexRecord

variable {r : HexRecord} {bs data : List UInt8} {b size high low code last : UInt8} {c : Char}
  {d j k : Nat}
  {s : String}

/-! ## Sums of bytes -/

/-- The sum of bytes, modulo 256. -/
def total (bs : List UInt8) : UInt8 := bs.foldr (· + ·) 0

@[simp] theorem total_nil : total [] = 0 := rfl

@[simp] theorem total_cons (b : UInt8) (bs : List UInt8) : total (b :: bs) = b + total bs := rfl

theorem total_append (bs cs : List UInt8) : total (bs ++ cs) = total bs + total cs := by
  induction bs with
  | nil => rw [List.nil_append, total_nil, UInt8.zero_add]
  | cons b bs ih => rw [List.cons_append, total_cons, ih, total_cons, UInt8.add_assoc]

theorem foldl_add_eq (b : UInt8) (bs : List UInt8) : bs.foldl (· + ·) b = b + total bs := by
  induction bs generalizing b with
  | nil => rw [List.foldl_nil, total_nil, UInt8.add_zero]
  | cons a bs ih => rw [List.foldl_cons, ih, total_cons, UInt8.add_assoc]

/-- The bytes of a record sum to zero. -/
theorem total_bytes (r : HexRecord) : total r.bytes = 0 := by
  simp only [bytes, checksum, foldl_add_eq, total_cons, total_append, total_nil]
  grind

/-- One byte cannot be changed without changing the sum. -/
theorem total_set_ne (h : k < bs.length) (hne : bs[k]? ≠ some b) :
    total (bs.set k b) ≠ total bs := by
  induction bs generalizing k with
  | nil => cases h
  | cons a bs ih =>
    cases k with
    | zero =>
      rw [List.set_cons_zero, total_cons, total_cons, ne_eq, UInt8.add_left_inj]
      rintro rfl
      exact hne rfl
    | succ k =>
      rw [List.set_cons_succ, total_cons, total_cons, ne_eq, UInt8.add_right_inj]
      exact ih (Nat.lt_of_succ_lt_succ h) hne

/-! ## Changed digits -/

theorem readBytes_cons {a b : Char} {high low : Nat} {rest : List Char}
    (ha : Text.digitIn 16 a = some high) (hb : Text.digitIn 16 b = some low)
    (hrest : readBytes rest = some bs) :
    readBytes (a :: b :: rest) = some (UInt8.ofNat (high * 16 + low) :: bs) := by
  rw [readBytes, ha, hb, hrest]
  rfl

theorem ofNat_digits_ne {high low : Nat} (hhigh : high < 16) (hlow : low < 16)
    (h : b.toNat / 16 ≠ high ∨ b.toNat % 16 ≠ low) : b ≠ UInt8.ofNat (high * 16 + low) := by
  intro heq
  have hbyte := congrArg UInt8.toNat heq
  rw [UInt8.toNat_ofNat', Nat.mod_eq_of_lt (by omega)] at hbyte
  omega

/-- Another digit is another byte at its place. -/
theorem readBytes_set {old : Char} {d' : Nat} (hold : (bs.flatMap pair)[j]? = some old)
    (hd : Text.digitIn 16 old = some d) (hc : Text.DigitFor 16 d' c) (hne : d ≠ d') :
    ∃ b, readBytes ((bs.flatMap pair).set j c) = some (bs.set (j / 2) b) ∧ bs[j / 2]? ≠ some b := by
  have hdigit := hc.digitIn_eq (Nat.le_refl 16)
  induction bs generalizing j with
  | nil => cases hold
  | cons b bs ih =>
    have hlt := b.toNat_lt
    have hhigh := Text.digitIn_upperDigit (show b.toNat / 16 < 16 by omega)
    have hlow := Text.digitIn_upperDigit (show b.toNat % 16 < 16 by omega)
    rw [List.flatMap_cons, pair, List.cons_append, List.singleton_append] at hold ⊢
    cases j with
    | zero =>
      -- The high digit of the first byte.
      cases hold
      rw [hhigh, Option.some_inj] at hd
      refine ⟨UInt8.ofNat (d' * 16 + b.toNat % 16),
        readBytes_cons hdigit hlow (readBytes_flatMap_pair bs), ?_⟩
      exact mt Option.some_inj.mp (ofNat_digits_ne hc.1 (by omega) (.inl (by omega)))
    | succ j =>
      cases j with
      | zero =>
        cases hold
        rw [hlow, Option.some_inj] at hd
        refine ⟨UInt8.ofNat (b.toNat / 16 * 16 + d'),
          readBytes_cons hhigh hdigit (readBytes_flatMap_pair bs), ?_⟩
        exact mt Option.some_inj.mp (ofNat_digits_ne (by omega) hc.1 (.inr (by omega)))
      | succ j =>
        obtain ⟨b', hread, hdiff⟩ := ih hold
        have hbyte : b.toNat / 16 * 16 + b.toNat % 16 = b.toNat := Nat.div_add_mod' _ _
        have hhalf : (j + 1 + 1) / 2 = j / 2 + 1 := by omega
        refine ⟨b', ?_, ?_⟩
        · rw [List.set_cons_succ, List.set_cons_succ, readBytes_cons hhigh hlow hread, hbyte,
            UInt8.ofNat_toNat, hhalf, List.set_cons_succ]
        · rwa [hhalf, List.getElem?_cons_succ]

/-! ## Accepted lines -/

theorem code_of_ofCode? {kind : RecordKind} (h : RecordKind.ofCode? code = some kind) :
    code = kind.code := by
  unfold RecordKind.ofCode? at h
  split at h <;> cases h <;> rfl

/-- An address gives back the bytes that it is put together from. -/
theorem bytes_of_joinBytes (high low : UInt8) :
    ((high.toUInt16 <<< 8 ||| low.toUInt16) >>> 8).toUInt8 = high ∧
      (high.toUInt16 <<< 8 ||| low.toUInt16).toUInt8 = low := by
  have hhigh := high.toNat_lt
  have hlow := low.toNat_lt
  let a := UInt16.ofNat (high.toNat * 256 + low.toNat)
  have ha : a.toNat = high.toNat * 256 + low.toNat := by
    rw [UInt16.toNat_ofNat', Nat.mod_eq_of_lt (by omega)]
  have hfirst : (a >>> 8).toUInt8 = high := by
    rw [← UInt8.toNat_inj, toNat_highByte, ha]
    omega
  have hsecond : a.toUInt8 = low := by
    rw [← UInt8.toNat_inj, toNat_lowByte, ha]
    omega
  have hjoin := joinBytes_eq a
  rw [hfirst, hsecond] at hjoin
  rw [hjoin]
  exact ⟨hfirst, hsecond⟩

/-- What is read from the bytes of a line. -/
theorem parse_of_bytes (h : readLine s = some (size :: high :: low :: code :: (data ++ [last]))) :
    parse s =
      (RecordKind.ofCode? code).elim (.error (.unsupportedType (kindDigits s))) fun kind =>
        let record : HexRecord := { address := high.toUInt16 <<< 8 ||| low.toUInt16, kind, data }
        if data.length ≠ size.toNat then .error .lengthMismatch
        else if last ≠ record.checksum then .error .checksumMismatch
        else .ok (some record) := by
  rw [parse, h]
  simp only [List.dropLast_concat, List.getLast?_concat]
  cases RecordKind.ofCode? code with
  | none => rfl
  | some kind => simp

/-- A line is accepted only with the bytes of the record that is read. -/
theorem bytes_of_accepted {kind : RecordKind} (hcode : RecordKind.ofCode? code = some kind)
    (hsize : data.length = size.toNat)
    (hlast : last = checksum { address := high.toUInt16 <<< 8 ||| low.toUInt16, kind, data }) :
    bytes { address := high.toUInt16 <<< 8 ||| low.toUInt16, kind, data } =
      size :: high :: low :: code :: (data ++ [last]) := by
  obtain ⟨hfirst, hsecond⟩ := bytes_of_joinBytes high low
  rw [bytes, ← hlast, hfirst, hsecond, ← code_of_ofCode? hcode, hsize, UInt8.ofNat_toNat]

/-! ## Changed bytes -/

theorem length_bytes (r : HexRecord) : r.bytes.length = r.data.length + 5 := by
  simp [bytes]

/-- The parts of a list that is as long as the bytes of a record. -/
theorem exists_parts {n : Nat} (h : bs.length = n + 5) : ∃ size high low code data last,
    bs = size :: high :: low :: code :: (data ++ [last]) ∧ data.length = n := by
  match bs, h with
  | size :: high :: low :: code :: rest, h =>
    have hrest : rest.length = n + 1 := by simpa using h
    obtain ⟨data, last, rfl⟩ :=
      List.eq_nil_or_concat' rest |>.resolve_left (by rintro rfl; cases hrest)
    exact ⟨size, high, low, code, data, last, rfl, by simpa using hrest⟩

/-- The bytes of a record of which one was changed are refused: by the count of data bytes if that
was changed, by the kind or the checksum if the kind was changed, and by the checksum everywhere
else. -/
theorem parse_of_changed (hr : r.data.length < 256) (hs : readLine s = some (r.bytes.set k b))
    (hk : k < r.bytes.length) (hne : r.bytes[k]? ≠ some b) :
    ∃ e, parse s = .error e ∧ (k = 0 → e = .lengthMismatch) ∧
      (k = 3 → e = .checksumMismatch ∨ e = .unsupportedType (kindDigits s)) ∧
      (k ≠ 0 → k ≠ 3 → e = .checksumMismatch) := by
  have hlen : (r.bytes.set k b).length = r.data.length + 5 := by rw [List.length_set, length_bytes]
  obtain ⟨size, high, low, code, data, last, hparts, hdata⟩ := exists_parts hlen
  have hsize : k ≠ 0 → data.length = size.toNat := by
    intro hk
    have hfirst := congrArg (·[0]?) hparts
    rw [List.getElem?_set_ne hk] at hfirst
    rw [← Option.some_inj.mp hfirst, UInt8.toNat_ofNat', Nat.mod_eq_of_lt hr, hdata]
  have hsize' : k = 0 → data.length ≠ size.toNat := by
    rintro rfl hsame
    have hfirst := congrArg (·[0]?) hparts
    rw [List.getElem?_set_self hk] at hfirst
    have hb : b = UInt8.ofNat r.data.length := by
      rw [Option.some_inj.mp hfirst, ← hdata, hsame, UInt8.ofNat_toNat]
    exact hne (by rw [hb]; rfl)
  have hcode : k ≠ 3 → RecordKind.ofCode? code = some r.kind := by
    intro hk
    have hfourth := congrArg (·[3]?) hparts
    rw [List.getElem?_set_ne hk] at hfourth
    rw [← Option.some_inj.mp hfourth, RecordKind.ofCode?_code]
  rw [hparts] at hs
  rw [parse_of_bytes hs]
  cases hkind : RecordKind.ofCode? code with
  | none =>
    have hk3 : k = 3 := by
      by_contra hk3
      rw [hcode hk3] at hkind
      cases hkind
    exact ⟨_, rfl, by omega, fun _ => .inr rfl, fun _ h => absurd hk3 h⟩
  | some kind =>
    dsimp only [Option.elim]
    by_cases hmatch : data.length = size.toNat
    · have hk0 : k ≠ 0 := fun h => hsize' h hmatch
      rw [if_neg (not_not.mpr hmatch)]
      refine ⟨.checksumMismatch, if_pos fun hlast => ?_, fun h => absurd h hk0, fun _ => .inl rfl,
        fun _ _ => rfl⟩
      -- The line would have the bytes of a record, and these sum to zero.
      have htotal := total_set_ne hk hne
      rw [hparts, ← bytes_of_accepted hkind hmatch hlast, total_bytes, total_bytes] at htotal
      exact htotal rfl
    · have hk0 : k = 0 := by
        by_contra hk0
        exact hmatch (hsize hk0)
      rw [if_pos hmatch]
      exact ⟨_, rfl, fun _ => rfl, by omega, fun h => absurd hk0 h⟩

/-- The bytes of a line in which a digit was replaced by another one: one of them has changed. -/
theorem readLine_set {tail : List Char} {i d' : Nat} {old new : Char} (hr : r.data.length < 256)
    (htail : ∀ c ∈ tail, Text.isBlank c = true) (hold : (r.render.toList ++ tail)[i]? = some old)
    (hd : Text.DigitFor 16 d old) (hnew : Text.DigitFor 16 d' new) (hne : d ≠ d') :
    ∃ j b, i = j + 1 ∧ j / 2 < r.bytes.length ∧ r.bytes[j / 2]? ≠ some b ∧
      readLine (String.ofList ((r.render.toList ++ tail).set i new)) =
        some (r.bytes.set (j / 2) b) := by
  have hdigit := hd.digitIn_eq (Nat.le_refl 16)
  have hblank {d : Nat} {c : Char} (h : Text.digitIn 16 c = some d) : Text.isBlank c = false :=
    Text.isBlank_of_isNameChar (Text.isNameChar_of_isHexDigit (by rw [Text.isHexDigit, h]; rfl))
  have hcount : (r.bytes.flatMap pair).length = 2 * (r.data.length + 5) := by
    rw [length_flatMap_pair, length_bytes]
  rw [toList_render hr, List.cons_append] at hold ⊢
  cases i with
  | zero =>
    -- The colon is no digit.
    cases hold
    cases hdigit
  | succ j =>
    rw [List.getElem?_cons_succ] at hold
    have hj : j < (r.bytes.flatMap pair).length := by
      by_contra hj
      rw [List.getElem?_append_right (Nat.le_of_not_lt hj)] at hold
      have hblank' := htail old (List.mem_of_getElem? hold)
      rw [hblank hdigit] at hblank'
      cases hblank'
    rw [List.getElem?_append_left hj] at hold
    obtain ⟨b, hread, hb⟩ := readBytes_set hold hdigit hnew hne
    refine ⟨j, b, rfl, by rw [length_bytes]; omega, hb, ?_⟩
    have hall : ∀ c ∈ ':' :: (r.bytes.flatMap pair).set j new, Text.isBlank c = false := by
      refine List.forall_mem_cons.mpr ⟨by decide, fun c hc => ?_⟩
      rcases List.mem_or_eq_of_mem_set hc with hc | rfl
      · exact isBlank_of_mem_pairs hc
      · exact hblank (hnew.digitIn_eq (Nat.le_refl 16))
    have hlen : 10 ≤ ((r.bytes.flatMap pair).set j new).length := by
      rw [List.length_set]
      omega
    rw [readLine, String.toList_ofList, List.set_cons_succ, List.set_append_left _ _ hj,
      ← List.cons_append, Text.trim_append_blanks htail, Text.trim_eq_self hall]
    simp only [if_pos hlen, hread]

end HexRecord

/-- **A corrupted record is refused.** Take the line of a record with at most 255 data bytes, with
the line feed or any other blanks behind it, and replace one of its digits by a digit of another
value, in upper or lower case. Reading gives an error: that the count of data bytes is wrong if one
of the first two digits was replaced, that the kind is unknown or the checksum wrong if it was one
of the two digits of the kind, and that the checksum is wrong for all other digits. -/
theorem corrupted_record_refused (r : HexRecord) (hr : r.data.length ≤ 255) (tail : String)
    (htail : ∀ c ∈ tail.toList, Text.isBlank c = true) (i d d' : Nat) (old new : Char)
    (hold : (r.render ++ tail).toList[i]? = some old) (hd : Text.DigitFor 16 d old)
    (hnew : Text.DigitFor 16 d' new) (hne : d ≠ d') :
    let line := String.ofList ((r.render ++ tail).toList.set i new)
    ∃ e, HexRecord.parse line = .error e ∧ (i = 1 ∨ i = 2 → e = .lengthMismatch) ∧
      (i = 7 ∨ i = 8 → e = .checksumMismatch ∨ e = .unsupportedType (HexRecord.kindDigits line)) ∧
      (¬ (i = 1 ∨ i = 2) → ¬ (i = 7 ∨ i = 8) → e = .checksumMismatch) := by
  intro line
  rw [String.toList_append] at hold
  obtain ⟨j, b, rfl, hj, hb, hread⟩ := HexRecord.readLine_set (by omega) htail hold hd hnew hne
  rw [← String.toList_append] at hread
  obtain ⟨e, he, hsize, hkind, hother⟩ := HexRecord.parse_of_changed (by omega) hread hj hb
  refine ⟨e, he, fun h => hsize (by omega), fun h => hkind (by omega),
    fun h h' => hother (by omega) (by omega)⟩

/-- The first digit of the checksum of a record of three bytes, replaced by a letter in lower
case. -/
theorem corrupted_record_refused_checksum :
    let r : HexRecord := { address := 0x100, kind := .data, data := [0x21, 0x46, 0x01] }
    r.data.length ≤ 255 ∧ r.render ++ "\n" = ":0301000021460194\n" ∧ Text.DigitFor 16 9 '9' ∧
      Text.DigitFor 16 15 'f' ∧ HexRecord.parse ":03010000214601f4\n" =
        .error .checksumMismatch := by
  intro r
  have hrender : r.render ++ "\n" = ":0301000021460194\n" := by decide +kernel
  have hfeed : ∀ c ∈ "\n".toList, Text.isBlank c = true := by simp [Text.isBlank]
  have hnine : Text.DigitFor 16 9 '9' := ⟨by decide, .inl rfl⟩
  have hf : Text.DigitFor 16 15 'f' := ⟨by decide, .inl rfl⟩
  obtain ⟨e, he, -, -, hother⟩ := corrupted_record_refused r (by decide) "\n" hfeed 15 9 15 '9' 'f'
    (by rw [hrender]; rfl) hnine hf (by decide)
  have hline : String.ofList ((r.render ++ "\n").toList.set 15 'f') = ":03010000214601f4\n" := by
    rw [hrender]
    rfl
  rw [hline] at he
  exact ⟨by decide, hrender, hnine, hf, by rw [he, hother (by decide) (by decide)]⟩

end Retarget
