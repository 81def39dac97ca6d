import Retarget.Hex.File
import Retarget.Proofs.Hex.Record
import Retarget.Proofs.Result
import Retarget.Text.Lines

/-!
# Images as files

An image is cut into records and put together from them again, also after they were written as
lines.

* `Text.linesFrom_line`, `Text.lines_join`: a text of lines is cut into these lines;
* `HexFile.dataRecords_fit`: how the bytes of an image are cut (`HexRecord.Fits`);
* `HexFile.bytesFrom_dataRecords`: every byte is at its address;
* `HexFile.parse_map_render`: a finished file is read back from its lines.
-/

namespace Retarget

/-! ## Lines of a text -/

namespace Text

/-- Characters without a line feed are a line when the line feed comes. -/
theorem linesFrom_line {cs : List Char} (h : ∀ c ∈ cs, isBlank c = false)
    (current rest : List Char) :
    linesFrom current (cs ++ '\n' :: rest) =
      dropReturn (current.reverse ++ cs) :: linesFrom [] rest := by
  induction cs generalizing current with
  | nil => rw [List.nil_append, linesFrom, List.append_nil]
  | cons c cs ih =>
    obtain ⟨hc, hcs⟩ := List.forall_mem_cons.mp h
    have hfeed : c ≠ '\n' := by
      rintro rfl
      exact absurd hc (by decide)
    rw [List.cons_append, linesFrom, ih hcs, List.reverse_cons, List.append_assoc,
      List.singleton_append]
    exact hfeed

theorem dropReturn_eq_self {cs : List Char} (h : ∀ c ∈ cs, isBlank c = false) :
    dropReturn cs = cs := by
  have hlast : cs.getLast? ≠ some '\r' := fun hlast =>
    absurd (h '\r' (List.mem_of_getLast? hlast)) (by decide)
  rw [dropReturn, if_neg (by simpa using hlast)]

/-- Lines without blanks, each with its end, are the lines of their text. -/
theorem lines_join {ls : List String} (h : ∀ l ∈ ls, ∀ c ∈ l.toList, isBlank c = false) :
    (lines (String.join (ls.map fun l => l ++ "\n"))).map String.ofList = ls := by
  unfold lines
  induction ls with
  | nil => rfl
  | cons l ls ih =>
    obtain ⟨hl, hls⟩ := List.forall_mem_cons.mp h
    have htext : (String.join ((l :: ls).map fun l => l ++ "\n")).toList =
        l.toList ++ '\n' :: (String.join (ls.map fun l => l ++ "\n")).toList := by
      simp [String.toList_append]
    rw [htext, linesFrom_line hl, List.reverse_nil, List.nil_append, dropReturn_eq_self hl,
      List.map_cons, ih hls, String.ofList_toList]

end Text

namespace HexRecord

/-- The records of an image: data that do not cross a boundary of 64 KiB, and upper halves of
addresses. -/
inductive Fits : HexRecord → Prop
  | data (address : UInt16) (bytes : List UInt8) (hpos : 1 ≤ bytes.length) (hle : bytes.length ≤ 32)
      (hbound : address.toNat + bytes.length ≤ 0x10000) :
      Fits { address, kind := .data, data := bytes }
  | upper (half : UInt16) : Fits (HexRecord.upper half)

namespace Fits

variable {r : HexRecord}

theorem length_lt (h : r.Fits) : r.data.length < 256 := by
  cases h with
  | data address bytes hpos hle hbound =>
    show bytes.length < 256
    omega
  | upper half => exact (by decide : 2 < 256)

theorem kind_ne (h : r.Fits) : r.kind ≠ .endOfFile := by
  cases h <;> simp [HexRecord.upper]

theorem of_kind_eq (h : r.Fits) (hkind : r.kind = .data) :
    1 ≤ r.data.length ∧ r.data.length ≤ 32 ∧ r.address.toNat + r.data.length ≤ 0x10000 := by
  cases h with
  | data address bytes hpos hle hbound => exact ⟨hpos, hle, hbound⟩
  | upper half => cases hkind

end Fits

theorem isBlank_of_mem_render {r : HexRecord} (h : r.data.length < 256) :
    ∀ c ∈ r.render.toList, Text.isBlank c = false := by
  rw [toList_render h]
  exact List.forall_mem_cons.mpr ⟨by decide, fun c hc => isBlank_of_mem_pairs hc⟩

end HexRecord

namespace HexFile

/-! ## Cutting an image -/

/-- The upper half of an address. -/
def upperHalf (address : Nat) : UInt16 := UInt16.ofNat (address / 0x10000)

theorem toNat_upperHalf {address : Nat} (h : address < 2 ^ (32 : Nat)) :
    (upperHalf address).toNat = address / 0x10000 := by
  rw [upperHalf, UInt16.toNat_ofNat', Nat.mod_eq_of_lt (by omega)]

/-- The first record of some bytes. -/
def firstRecord (address : Nat) (bytes : List UInt8) : HexRecord :=
  { address := UInt16.ofNat address, kind := .data,
    data := bytes.take (chunkSize address bytes.length) }

theorem firstRecord_fits {address : Nat} {bytes : List UInt8} (h : bytes ≠ []) :
    (firstRecord address bytes).Fits := by
  have hpos := List.length_pos_iff.mpr h
  have haddress : (UInt16.ofNat address).toNat = address % 0x10000 := UInt16.toNat_ofNat'
  refine .data _ _ ?_ ?_ ?_ <;> rw [List.length_take]
  · unfold chunkSize maxData
    omega
  · unfold chunkSize maxData
    omega
  · rw [haddress]
    unfold chunkSize maxData
    omega

/-- What is cut off an image at once: a record, with the upper half of its address before it if that
changes. -/
theorem dataRecords_of_ne_nil (current : UInt16) (address : Nat) {bytes : List UInt8}
    (h : bytes ≠ []) :
    dataRecords current address bytes =
      (if upperHalf address = current then [] else [HexRecord.upper (upperHalf address)]) ++
      firstRecord address bytes ::
        dataRecords (upperHalf address) (address + chunkSize address bytes.length)
          (bytes.drop (chunkSize address bytes.length)) := by
  cases bytes with
  | nil => exact absurd rfl h
  | cons b rest =>
    rw [dataRecords]
    split <;> simp_all [upperHalf, firstRecord]

/-- Induction on what is left of an image. -/
theorem cut_induction {P : UInt16 → Nat → List UInt8 → Prop}
    (hnil : ∀ current address, P current address []) (hcut : ∀ current address bytes, bytes ≠ [] →
      P (upperHalf address) (address + chunkSize address bytes.length)
        (bytes.drop (chunkSize address bytes.length)) → P current address bytes)
    (current : UInt16) (address : Nat) (bytes : List UInt8) : P current address bytes := by
  induction current, address, bytes using dataRecords.induct with
  | case1 current address => exact hnil current address
  | case2 address b rest half size ih =>
    exact hcut half address (b :: rest) (List.cons_ne_nil b rest) ih
  | case3 current address b rest half size _ ih =>
    exact hcut current address (b :: rest) (List.cons_ne_nil b rest) ih

/-- The records of an image fit. -/
theorem dataRecords_fit (current : UInt16) (address : Nat) (bytes : List UInt8) :
    ∀ r ∈ dataRecords current address bytes, r.Fits := by
  induction current, address, bytes using cut_induction with
  | hnil current address => simp [dataRecords]
  | hcut current address bytes hne ih =>
    rw [dataRecords_of_ne_nil current address hne]
    refine List.forall_mem_append.mpr ⟨?_, List.forall_mem_cons.mpr ⟨firstRecord_fits hne, ih⟩⟩
    split
    · simp
    · simpa using HexRecord.Fits.upper _

/-! ## Addresses -/

/-- Bytes with their addresses, from an address on. -/
def addressed (address : Nat) (bytes : List UInt8) : List (Nat × UInt8) :=
  bytes.zipIdx.map fun (b, i) => (address + i, b)

theorem addressed_append (address : Nat) (xs ys : List UInt8) :
    addressed address (xs ++ ys) = addressed address xs ++ addressed (address + xs.length) ys := by
  rw [addressed, List.zipIdx_append, List.map_append, addressed, addressed]
  congr 1
  rw [Nat.zero_add, List.zipIdx_eq_map_add, List.map_map]
  apply List.map_congr_left
  rintro ⟨b, i⟩ _
  simp
  omega

theorem bytesFrom_upper (before : Nat) (half : UInt16) (records : List HexRecord) :
    bytesFrom before (HexRecord.upper half :: records) =
      bytesFrom (half.toNat * 0x10000) records := by
  have hlt := half.toNat_lt
  have hhalf : [(half >>> 8).toUInt8, half.toUInt8].foldl (fun acc b => acc * 256 + b.toNat) 0 =
      half.toNat := by
    rw [List.foldl_cons, List.foldl_cons, List.foldl_nil, toNat_highByte, toNat_lowByte]
    omega
  simp only [HexRecord.upper, bytesFrom]
  rw [hhalf, Nat.mod_eq_of_lt (by omega)]

/-- **Every byte of an image is at its address.** -/
theorem bytesFrom_dataRecords (current : UInt16) {address : Nat} {bytes : List UInt8}
    (h : address + bytes.length ≤ 2 ^ (32 : Nat)) :
    bytesFrom (current.toNat * 0x10000) (dataRecords current address bytes ++ [HexRecord.eof]) =
      addressed address bytes := by
  induction current, address, bytes using cut_induction with
  | hnil current address => simp [dataRecords, bytesFrom, HexRecord.eof, addressed]
  | hcut current address bytes hne ih =>
    have hpos := List.length_pos_iff.mpr hne
    have hsize : (bytes.take (chunkSize address bytes.length)).length =
        chunkSize address bytes.length := by
      rw [List.length_take, chunkSize]
      omega
    have hbase : (upperHalf address).toNat * 0x10000 + (UInt16.ofNat address).toNat = address := by
      rw [toNat_upperHalf (by omega), UInt16.toNat_ofNat']
      omega
    have hfirst : bytesFrom ((upperHalf address).toNat * 0x10000)
        (firstRecord address bytes :: (dataRecords (upperHalf address)
          (address + chunkSize address bytes.length)
            (bytes.drop (chunkSize address bytes.length)) ++
            [HexRecord.eof])) = addressed address bytes := by
      rw [bytesFrom]
      simp only [firstRecord]
      rw [hbase, ih (by rw [List.length_drop]; unfold chunkSize; omega)]
      show addressed address _ ++ _ = _
      conv_rhs => rw [← List.take_append_drop (chunkSize address bytes.length) bytes,
        addressed_append, hsize]
    rw [dataRecords_of_ne_nil current address hne, List.append_assoc, List.cons_append]
    split
    · rename_i hsame
      rw [← hsame, List.nil_append, hfirst]
    · rw [List.singleton_append, bytesFrom_upper, hfirst]

/-! ## Reading a file back -/

theorem isFinished_eq_false {records : List HexRecord} (h : ∀ r ∈ records, r.kind ≠ .endOfFile) :
    isFinished { records } = false := by
  simpa [isFinished] using h

/-- Records that do not end a file are added one after the other. -/
theorem readLines_map_render (before : List HexRecord) {records : List HexRecord}
    {more : List String} (hbefore : ∀ r ∈ before, r.kind ≠ .endOfFile)
    (hkind : ∀ r ∈ records, r.kind ≠ .endOfFile) (hlen : ∀ r ∈ records, r.data.length < 256) :
    readLines { records := before } (records.map HexRecord.render ++ more) =
      readLines { records := before ++ records } more := by
  induction records generalizing before with
  | nil => rw [List.map_nil, List.nil_append, List.append_nil]
  | cons r records ih =>
    obtain ⟨hr, hkind⟩ := List.forall_mem_cons.mp hkind
    obtain ⟨hr_len, hlen⟩ := List.forall_mem_cons.mp hlen
    rw [List.map_cons, List.cons_append, readLines, HexRecord.parse_render hr_len, ok_bind]
    simp only [add, isFinished_eq_false hbefore]
    rw [if_neg (by decide), ok_bind, ih _ _ hkind hlen, List.append_assoc, List.singleton_append]
    exact List.forall_mem_append.mpr ⟨hbefore, by simpa using hr⟩

/-- **A finished file is read back from its lines.** -/
theorem parse_map_render {front : List HexRecord} {last : HexRecord}
    (hfront : ∀ r ∈ front, r.kind ≠ .endOfFile) (hlen : ∀ r ∈ front, r.data.length < 256)
    (hlast : last.kind = .endOfFile) (hlast_len : last.data.length < 256) :
    parse ((front ++ [last]).map HexRecord.render) = .ok { records := front ++ [last] } := by
  have hfinished : isFinished { records := front ++ [last] } = true := by
    simp [isFinished, hlast]
  have hread : readLines {} ((front ++ [last]).map HexRecord.render) =
      .ok { records := front ++ [last] } := by
    rw [List.map_append, readLines_map_render [] (by simp) hfront hlen, List.map_singleton,
      readLines, HexRecord.parse_render hlast_len, ok_bind]
    simp only [add, List.nil_append, isFinished_eq_false hfront]
    rfl
  rw [parse, hread, ok_bind, if_pos hfinished]
  rfl

/-- The file of an image. -/
def imageFile (base : Nat) (bytes : List UInt8) : HexFile :=
  { records := dataRecords 0 base bytes ++ [HexRecord.eof] }

variable {base : Nat} {bytes : List UInt8}

theorem ofImage_eq_imageFile (h : base + bytes.length ≤ 2 ^ (32 : Nat)) :
    ofImage base bytes = .ok (imageFile base bytes) := by
  rw [ofImage, if_neg (by omega), imageFile]

theorem toBytes_imageFile (h : base + bytes.length ≤ 2 ^ (32 : Nat)) :
    (imageFile base bytes).toBytes = addressed base bytes :=
  bytesFrom_dataRecords 0 h

theorem render_imageFile (base : Nat) (bytes : List UInt8) :
    (imageFile base bytes).render = .ok ((imageFile base bytes).records.map HexRecord.render) := by
  rw [render, if_pos (by simp [imageFile, isFinished, HexRecord.eof])]

theorem length_lt_of_mem_imageFile {r : HexRecord} (hr : r ∈ (imageFile base bytes).records) :
    r.data.length < 256 := by
  rcases List.mem_append.mp hr with hr | hr
  · exact (dataRecords_fit 0 base bytes r hr).length_lt
  · rw [List.mem_singleton.mp hr]
    decide

theorem parse_imageFile (base : Nat) (bytes : List UInt8) :
    parse ((imageFile base bytes).records.map HexRecord.render) = .ok (imageFile base bytes) :=
  parse_map_render (fun r hr => (dataRecords_fit 0 base bytes r hr).kind_ne)
    (fun r hr => (dataRecords_fit 0 base bytes r hr).length_lt) rfl (by decide)

end HexFile

/-- **Images survive being written and read.** An image within 32 bits of addresses has a file. Its
data records have 1 to 32 bytes and do not cross a boundary of 64 KiB, its bytes are those of the
image at their addresses and in their order, and its last record is the only one that ends a file.
The file is read back from its lines, and so from their text. -/
theorem ofImage_round_trip (base : Nat) (bytes : List UInt8)
    (h : base + bytes.length ≤ 2 ^ (32 : Nat)) :
    ∃ (f : HexFile) (lines : List String), HexFile.ofImage base bytes = .ok f ∧
      (∀ r ∈ f.records, r.kind = .data → 1 ≤ r.data.length ∧ r.data.length ≤ 32 ∧
        r.address.toNat + r.data.length ≤ 0x10000) ∧
      f.toBytes = (bytes.zipIdx.map fun (b, i) => (base + i, b)) ∧
      (∃ front, f.records = front ++ [HexRecord.eof] ∧ ∀ r ∈ front, r.kind ≠ .endOfFile) ∧
      f.render = .ok lines ∧ HexFile.parse lines = .ok f ∧
      HexFile.parse ((Text.lines (String.join (lines.map fun l => l ++ "\n"))).map String.ofList) =
        .ok f := by
  have hfit := HexFile.dataRecords_fit 0 base bytes
  have hblank : ∀ l ∈ (HexFile.imageFile base bytes).records.map HexRecord.render,
      ∀ c ∈ l.toList, Text.isBlank c = false := by
    intro l hl
    obtain ⟨r, hr, rfl⟩ := List.mem_map.mp hl
    exact HexRecord.isBlank_of_mem_render (HexFile.length_lt_of_mem_imageFile hr)
  refine ⟨_, _, HexFile.ofImage_eq_imageFile h, ?_, HexFile.toBytes_imageFile h,
    ⟨_, rfl, fun r hr => (hfit r hr).kind_ne⟩, HexFile.render_imageFile base bytes,
    HexFile.parse_imageFile base bytes, ?_⟩
  · intro r hr hkind
    rcases List.mem_append.mp hr with hr | hr
    · exact (hfit r hr).of_kind_eq hkind
    · rw [List.mem_singleton.mp hr] at hkind
      cases hkind
  · rw [Text.lines_join hblank, HexFile.parse_imageFile]

/-- Eighty bytes across a boundary of 64 KiB: 32 of them up to the boundary, the upper half of the
addresses behind it, and two more records of 32 and 16 bytes. -/
theorem ofImage_round_trip_across_boundary :
    let bytes := (List.range 80).map UInt8.ofNat
    ∃ (f : HexFile) (lines : List String), HexFile.ofImage 0xffe0 bytes = .ok f ∧
      (f.records.map fun r => (r.address.toNat, r.kind, r.data.length)) =
        [(0xffe0, .data, 32), (0, .upperAddress, 2), (0, .data, 32), (32, .data, 16),
          (0, .endOfFile, 0)] ∧
      f.toBytes = (bytes.zipIdx.map fun (b, i) => (0xffe0 + i, b)) ∧
      f.render = .ok lines ∧ lines[1]? = some ":020000040001F9" ∧ HexFile.parse lines = .ok f := by
  intro bytes
  have hview : ((HexFile.ofImage 0xffe0 bytes).map fun f =>
      (f.records.map fun r => (r.address.toNat, r.kind, r.data.length), f.records[1]?)) =
      .ok ([(0xffe0, .data, 32), (0, .upperAddress, 2), (0, .data, 32), (32, .data, 16),
        (0, .endOfFile, 0)], some (HexRecord.upper 1)) := by decide +kernel
  obtain ⟨f, lines, hf, -, hbytes, -, hrender, hparse, -⟩ :=
    ofImage_round_trip 0xffe0 bytes (by decide)
  rw [hf] at hview
  obtain ⟨hrecords, hupper⟩ := Prod.mk.inj (Except.ok.inj hview)
  refine ⟨f, lines, hf, hrecords, hbytes, hrender, ?_, hparse⟩
  unfold HexFile.render at hrender
  split at hrender
  · cases hrender
    rw [List.getElem?_map, hupper]
    decide +kernel
  · cases hrender

end Retarget
