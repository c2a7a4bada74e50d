/-
  Series catalog — page kinds in byte buffers.

  A page kind takes one byte.  Offsets come from a caller's arithmetic and may
  be any number: one outside the buffer is refused, while a fraction or what
  is no number passes the range check and then meets no byte.

  * `PageKind.read` reads a kind and `PageKind.write` writes one; both answer
    with the offset behind it;
  * a write that fails leaves the buffer as it was.
-/
import SeriesCatalog.Error

namespace SeriesCatalog

/-- A run of bytes that is read and written in place. -/
abbrev Buffer := List UInt8

/-- Whether a page kind may lie at `offset` in a buffer of `length` bytes. -/
def Buffer.hasRoom (length : Nat) (offset : Number) : Bool :=
  !offset.isNegative && !offset.next.exceeds length

/-- The byte at an offset, if there is one. -/
def Buffer.byteAt? (buffer : Buffer) (offset : Number) : Option UInt8 :=
  offset.toNat?.bind (buffer[·]?)

namespace PageKind

/-- The number of bytes of a page kind. -/
def encodedSize : Nat := 1

/-- The bytes of a page kind. -/
def encode (kind : PageKind) : Buffer := [kind.toByte]

/-- The kind with a given code, or an error that names the code. -/
def ofByte (byte : Number) : Except CatalogError PageKind :=
  match ofByte? byte with
  | some kind => .ok kind
  | none => .error (.invalidEncoding byte)

/-- Reads the page kind at `offset`, and gives the offset behind it. -/
def read (buffer : Buffer) (offset : Number) : Except CatalogError (PageKind × Number) :=
  if Buffer.hasRoom buffer.length offset then
    match buffer.byteAt? offset with
    | some byte => (ofByte (.ofNat byte.toNat)).map (·, offset.next)
    | none => .error (.invalidEncoding none)
  else .error (.incompleteData (.truncated offset buffer.length))

/-- Writes a page kind at `offset`, and gives the offset behind it.  Where the offset is not that
    of a byte, nothing is written. -/
def write (kind : PageKind) (offset : Number) : EStateM CatalogError Buffer Number := do
  let buffer ← get
  if Buffer.hasRoom buffer.length offset then
    if let some i := offset.toNat? then
      set (buffer.set i kind.toByte)
    return offset.next
  else throw (.incompleteData (.noRoom offset buffer.length))

end PageKind

end SeriesCatalog
