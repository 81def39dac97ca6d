import Retarget.Bits.Endian
import Retarget.Document.Nesting
import Retarget.Document.Plain

/-!
# Decoding documents

A decoder reads a value of one type from a document, or fails. Unquoted scalars take the type that
is wanted. Records are written as maps from field names, or as lists of the fields in their order.
Where nothing particular is wanted a document is settled: tags and spelling give every scalar its
type, and every list may be a record.
-/

namespace Retarget.Document

/-- A document without its tag. -/
def untagged : Document → Document
  | tagged _ d => d
  | d => d

/-- Whether a document says that there is nothing. -/
def isNull : Document → Bool
  | null => true
  | plain s => Plain.isNull s
  | tagged tag (plain s) => tag == Plain.coreTag "null" && Plain.isNullWord s
  | _ => false

/-- What a document stands for where nothing particular is wanted. Unquoted scalars take the type
that their tag or their spelling suggests, and what is inside a list or a map is left as it is. -/
def resolve? : Document → Option Document
  | plain s =>
    match Plain.value s with
    | unreadable => none
    | d => some d
  | tagged tag (plain s) | tagged tag (text s) => Plain.ofTag? tag s
  | tagged tag d => if Plain.isLocalTag tag then none else some d
  | unreadable => none
  | d => some d

/-! ## Scalars -/

/-- A text. -/
def asText (d : Document) : Option String :=
  match d.untagged with
  | text s | plain s => some s
  | _ => none

/-- A truth value. -/
def asBool (d : Document) : Option Bool :=
  match d.untagged with
  | bool b => some b
  | plain s => Plain.bool? s
  | _ => none

/-- An integer of 64 bits with a sign. -/
def asInt (d : Document) : Option Int :=
  let bound : Int := 2 ^ (63 : Nat)
  let fits (v : Int) : Option Int := if -bound ≤ v ∧ v < bound then some v else none
  match d.untagged with
  | integer v => fits v
  | plain s => (Plain.integer? s).bind fun (minus, n) => fits (if minus then -n else n)
  | _ => none

/-- An integer of `bits` bits without a sign. -/
def asNat (bits : Nat) (d : Document) : Option Nat :=
  match d.untagged with
  | integer v => if 0 ≤ v ∧ v < 2 ^ bits then some v.toNat else none
  | plain s =>
    (Plain.integer? s).bind fun (minus, n) => if minus || 2 ^ bits ≤ n then none else some n
  | _ => none

/-- A text or a number or a truth value, as a text. -/
def asKey (d : Document) : Option String :=
  match d.resolve? with
  | some (text s) | some (decimal s) => some s
  | some (integer v) => some (toString v)
  | some (bool b) => some (if b then "true" else "false")
  | _ => none

/-- An order: its name, also as a tag of nothing, or a map from its name or its place to nothing. -/
def asEndian : Document → Option Endian
  | text s | plain s => Endian.ofText? s
  | map [(text s, null)] => Endian.ofText? s
  | map [(integer v, null)] => if 0 ≤ v then Endian.all[v.toNat]? else none
  | tagged tag d =>
    if Plain.isLocalTag tag then
      if d.isNull then Endian.ofText? (String.ofList (tag.toList.drop 1)) else none
    else d.asText.bind Endian.ofText?
  | _ => none

/-! ## Lists and maps -/

/-- A list. -/
def asList {α : Type} (item : Document → Option α) (d : Document) : Option (List α) :=
  match d.untagged with
  | list items | series items => items.mapM item
  | plain s => if s.isEmpty then some [] else none
  | _ => none

/-- A map with any keys, in the order of its entries. -/
def asEntries {α : Type} (value : Document → Option α) (d : Document) :
    Option (List (String × α)) :=
  match d.resolve? with
  | some (map entries) => entries.mapM fun (k, v) => do return (← k.asKey, ← value v)
  | some null => some []
  | _ => none

/-! ## Records -/

/-- A field of a record. -/
structure Key where
  /-- The name of the field and its other names. -/
  names : List String
  /-- Whether the field may be left out at the end of a list. -/
  skippable : Bool := false
  deriving Repr

/-- The place of a field among the fields of a record; none if there is no such field. A map of
settled scalars may also name a field by its place. -/
def Key.find? (keys : List Key) (name : Document) : Option (Option Nat) :=
  match name.untagged with
  | text s | plain s => some (keys.findIdx? fun k => k.names.contains s)
  | integer v => if 0 ≤ v then some (if v.toNat < keys.length then some v.toNat else none) else none
  | _ => none

/-- The fields of a record in a map; a field given twice is refused and unknown ones are ignored. -/
def fieldsOfMap (keys : List Key) (given : List (Option Document)) :
    List (Document × Document) → Option (List (Option Document))
  | [] => some given
  | (name, value) :: rest => do
    match ← Key.find? keys name with
    | none => fieldsOfMap keys given rest
    | some i =>
      match given[i]? with
      | some none => fieldsOfMap keys (given.set i (some value)) rest
      | _ => none

/-- The fields of a record in a list. -/
def fieldsOfList : List Key → List Document → Option (List (Option Document))
  | [], [] => some []
  | [], _ :: _ => none
  | _ :: keys, d :: rest => (fieldsOfList keys rest).map (some d :: ·)
  | k :: keys, [] => if k.skippable then (fieldsOfList keys []).map (none :: ·) else none

/-- The fields of a record, in the order of `keys`. -/
def fields (keys : List Key) (d : Document) : Option (List (Option Document)) :=
  match d.untagged with
  | map entries => fieldsOfMap keys (keys.map fun _ => none) entries
  | list items => fieldsOfList keys items
  | plain s => if s.isEmpty then some (keys.map fun _ => none) else none
  | _ => none

/-- A field that has to be given. -/
def required {α : Type} (value : Document → Option α) (field : Option Document) : Option α :=
  field.bind value

/-- A field that may be missing or null. -/
def optional {α : Type} (value : Document → Option α) (field : Option Document) :
    Option (Option α) :=
  match field with
  | none => some none
  | some d => if d.isNull then some none else (value d).map some

/-- A field that may be missing, but not null. -/
def orDefault {α : Type} (value : Document → Option α) (default : α) (field : Option Document) :
    Option α :=
  match field with
  | none => some default
  | some d => value d

/-! ## Settling -/

mutual

/-- Give every unquoted scalar the type that its tag or its spelling suggests; none if something has
no value. -/
def settle : Document → Option Document
  | list items | series items => (settleItems items).map list
  | map entries => (settleEntries entries).map map
  | tagged tag (plain s) | tagged tag (text s) => Plain.ofTag? tag s
  | tagged tag d => if Plain.isLocalTag tag then none else d.settle
  | d => d.resolve?

/-- `settle` for all items of a list. -/
def settleItems : List Document → Option (List Document)
  | [] => some []
  | d :: rest => do return (← d.settle) :: (← settleItems rest)

/-- `settle` for all keys and values of a map. -/
def settleEntries : List (Document × Document) → Option (List (Document × Document))
  | [] => some []
  | (k, v) :: rest => do return (← k.settle, ← v.settle) :: (← settleEntries rest)

end

end Retarget.Document
