/-
  Series catalog — texts.

  Every length, position, order and hash of the catalog is taken over the
  16-bit units of a text: a character below `U+10000` is one unit, any other
  character is a pair of surrogates.

  * `Text` is a list of units, ordered lexicographically by `compare`;
  * `Text.ofString` and `Text.toString` pass between texts and strings; a
    string stands wherever a text is expected.
-/

namespace SeriesCatalog

/-- A text: its 16-bit units, first unit first. -/
abbrev Text := List UInt16

namespace Text

/-! ## Strings as texts -/

/-- The units of a character. -/
def ofChar (c : Char) : Text :=
  if c.toNat < 0x10000 then [.ofNat c.toNat]
  else
    let offset := c.toNat - 0x10000
    [.ofNat (0xD800 + offset / 0x400), .ofNat (0xDC00 + offset % 0x400)]

/-- The units of a string. -/
def ofString (s : String) : Text :=
  s.toList.flatMap ofChar

instance : Coe String Text := ⟨ofString⟩

/-- The decimal digits of a count, a position or a limit. -/
def ofNat (n : Nat) : Text :=
  ofString (toString n)

/-! ## Texts as strings -/

/-- A unit that opens a surrogate pair. -/
def isHighSurrogate (u : UInt16) : Bool :=
  0xD800 ≤ u && u < 0xDC00

/-- A unit that closes a surrogate pair. -/
def isLowSurrogate (u : UInt16) : Bool :=
  0xDC00 ≤ u && u < 0xE000

/-- The character of a surrogate pair. -/
def ofPair (high low : UInt16) : Char :=
  Char.ofNat (0x10000 + (high.toNat - 0xD800) * 0x400 + (low.toNat - 0xDC00))

/-- The character of a unit outside a pair; a surrogate that stands alone is shown as the
    replacement character. -/
def ofUnit (u : UInt16) : Char :=
  if isHighSurrogate u || isLowSurrogate u then '\uFFFD' else Char.ofNat u.toNat

/-- The characters of a text. -/
def chars : Text → List Char
  | [] => []
  | [u] => [ofUnit u]
  | high :: low :: rest =>
    if isHighSurrogate high && isLowSurrogate low then ofPair high low :: chars rest
    else ofUnit high :: chars (low :: rest)

/-- The string of a text. -/
def toString (t : Text) : String :=
  String.ofList t.chars

/-! ## Order and hash -/

/-- The polynomial hash of a text: each unit is added to 31 times the hash of the units before
    it, in 32-bit arithmetic, and the sum is read as a signed number. -/
def hash (t : Text) : Int32 :=
  (t.foldl (fun (h : UInt32) u => 31 * h + u.toUInt32) 0).toInt32

/-- A list of things in ascending order of the text that `key` gives them; things with the same
    text keep the order they came in. -/
def sortOn {β : Type} (key : β → Text) (things : List β) : List β :=
  things.mergeSort fun a b => (compare (key a) (key b)).isLE

end Text

end SeriesCatalog
