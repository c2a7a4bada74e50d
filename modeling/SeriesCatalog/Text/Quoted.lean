/-
  Series catalog — quoted texts.

  A raw path is shown in log messages between double quotes.  The quote, the
  backslash, the units below `U+0020` and surrogates outside a pair are
  escaped, everything else stands for itself.
-/
import SeriesCatalog.Text.Basic

namespace SeriesCatalog.Text

/-- A hexadecimal digit, in lower case. -/
def hexDigit (n : Nat) : Text :=
  ofChar n.digitChar

/-- A unit by its four hexadecimal digits. -/
def unicodeEscape (u : UInt16) : Text :=
  let n := u.toNat
  "\\u" ++ hexDigit (n / 0x1000) ++ hexDigit (n / 0x100 % 16) ++ hexDigit (n / 16 % 16)
    ++ hexDigit (n % 16)

/-- How a unit is written between quotes, if it is not half of a surrogate pair: five control
    units have a letter of their own. -/
def escaped (u : UInt16) : Text :=
  if u = 0x22 then "\\\""
  else if u = 0x5C then "\\\\"
  else if u = 0x08 then "\\b"
  else if u = 0x09 then "\\t"
  else if u = 0x0A then "\\n"
  else if u = 0x0C then "\\f"
  else if u = 0x0D then "\\r"
  else if u < 0x20 || isHighSurrogate u || isLowSurrogate u then unicodeEscape u
  else [u]

/-- What stands between the quotes. -/
def escapedUnits : Text → Text
  | [] => []
  | [u] => escaped u
  | high :: low :: rest =>
    if isHighSurrogate high && isLowSurrogate low then high :: low :: escapedUnits rest
    else escaped high ++ escapedUnits (low :: rest)

/-- A text between double quotes. -/
def quoted (t : Text) : Text :=
  "\"" ++ escapedUnits t ++ "\""

end SeriesCatalog.Text
