import BoardAtlas.Board.Error
import BoardAtlas.Number.Size

/-!
# Flash layouts

A layout gives every region as `offset+length` in hexadecimal digits.

* `FlashRegion.readAddress?`, `FlashRegion.readExtent?`: the grammar of an entry;
* `FlashRegion.titleOf`: the title of a region and whether it is read-only;
* `FlashRegion`, **`FlashRegion.ofLayout`**: the regions of a board, all printed with the same number of digits.
-/

namespace BoardAtlas

/-- The title of a region that the table of titles does not have. -/
def unknownRegion : String := "(unknown)"

/-- A region of the flash memory. -/
structure FlashRegion where
  name : String
  offset : Nat
  length : Nat
  title : String
  readOnly : Bool
  /-- The least number of digits of offsets. -/
  offsetDigits : Nat
  /-- The least number of digits of lengths. -/
  lengthDigits : Nat
  deriving DecidableEq, Repr

namespace FlashRegion

/-- The first address after the region, as far as 64 bits go. -/
def stop (r : FlashRegion) : Nat := min (r.offset + r.length) (pow2 64 - 1)

/-- The first address as text. -/
def startText (r : FlashRegion) : String := hexText r.offset r.offsetDigits

/-- The first address after the region as text. -/
def stopText (r : FlashRegion) : String := hexText r.stop r.offsetDigits

/-- The length as text. -/
def lengthText (r : FlashRegion) : String := hexText r.length r.lengthDigits

/-- The length as an amount of bytes. -/
def sizeText (r : FlashRegion) : String := byteSize r.length

/-- The document of a region. -/
def toJson (r : FlashRegion) : Json :=
  .obj [("name", .str r.name), ("offset", .nat r.offset), ("length", .nat r.length),
    ("title", .str r.title), ("read_only", .bool r.readOnly), ("hex_offs_len", .nat r.offsetDigits),
    ("hex_size_len", .nat r.lengthDigits)]

/-! ## Entries of a layout -/

/-- The digits of a number that may begin with `0x`. -/
def hexBody : List Char → List Char
  | '0' :: 'x' :: cs | '0' :: 'X' :: cs => cs
  | cs => cs

/-- A number of 64 bits in hexadecimal digits. -/
def readAddress? (cs : List Char) : Option Nat :=
  readNatural? isHexDigit 16 (pow2 64) (hexBody (Text.trim cs))

/-- The offset and the length of an entry; the region has to end within 64 bits. -/
def readExtent? (s : String) : Option (Nat × Nat) := do
  let (offset, length) ← Text.cut? '+' s.toList
  let offset ← readAddress? offset
  let length ← readAddress? length
  if offset + length < pow2 64 then some (offset, length) else none

/-- The member is there and true. -/
def isTrue : Option Value → Bool
  | some (.bool b) => b
  | _ => false

/-- The title of a region and whether it is read-only. -/
def titleOf (titles : Dict Value) (name : String) : String × Bool :=
  match titles.get? name with
  | some (.str title) => (title, false)
  | some (.obj entry) =>
    (((Dict.get? entry "title").bind Value.text?).getD unknownRegion,
      isTrue (Dict.get? entry "read_only"))
  | _ => (unknownRegion, false)

/-- A region, its numbers of digits not yet set. -/
def ofEntry (board : String) (titles : Dict Value) (name : String) (entry : Value) :
    Except BoardError FlashRegion :=
  match entry.text?.bind readExtent? with
  | some (offset, length) =>
    let (title, readOnly) := titleOf titles name
    .ok ⟨name, offset, length, title, readOnly, 0, 0⟩
  | none => .error (.invalidRegion board name entry.varText)

/-! ## Layouts -/

/-- The largest number of hexadecimal digits among numbers. -/
def mostDigits (ns : List Nat) : Nat := ns.foldl (fun most n => max most (hexDigits n).length) 0

/-- Gives all regions the same numbers of digits. -/
def alignDigits (regions : List FlashRegion) : List FlashRegion :=
  let offsetDigits := mostDigits (regions.map FlashRegion.offset)
  let lengthDigits := mostDigits (regions.map FlashRegion.length)
  regions.map fun r => { r with offsetDigits, lengthDigits }

/-- **The regions of a layout**, in its order. -/
def ofLayout (board : String) (layout titles : Dict Value) :
    Except BoardError (List FlashRegion) :=
  (layout.mapM fun (name, entry) => ofEntry board titles name entry).map alignDigits

end FlashRegion

end BoardAtlas
