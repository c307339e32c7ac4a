import RuleTree.Text.Printable

/-!
# Quoted text

How a text is quoted inside a message: between single quotes, or between double quotes when it holds
a single quote and no double one, with escapes for the quote, the backslash and what cannot be
printed.
-/

namespace RuleTree

/-- The number `n` in lower-case hexadecimal, filled up to `width` digits with zeros. -/
def hexDigits (width n : Nat) : List Char :=
  let digits := Nat.toDigits 16 n
  List.replicate (width - digits.length) '0' ++ digits

/-- The escape of a character by its code point, in the shortest of the widths two, four and
eight. -/
def codeEscape (c : Char) : List Char :=
  if c.toNat < 0x100 then '\\' :: 'x' :: hexDigits 2 c.toNat
  else if c.toNat < 0x10000 then '\\' :: 'u' :: hexDigits 4 c.toNat
  else '\\' :: 'U' :: hexDigits 8 c.toNat

/-- A character as it stands between two `quote` characters. -/
def quoteChar (quote c : Char) : List Char :=
  if c = quote ∨ c = '\\' then ['\\', c]
  else if c = '\n' then ['\\', 'n']
  else if c = '\r' then ['\\', 'r']
  else if c = '\t' then ['\\', 't']
  else if isPrintable c then [c]
  else codeEscape c

/-- The character that encloses a text: the double quote only where it saves escapes. -/
def quoteMark (cs : List Char) : Char :=
  if '\'' ∈ cs ∧ '"' ∉ cs then '"' else '\''

/-- The characters of a text in quoted form. -/
def quoteChars (cs : List Char) : List Char :=
  quoteMark cs :: (cs.flatMap (quoteChar (quoteMark cs)) ++ [quoteMark cs])

/-- The text in quoted form. -/
def quoted (text : String) : String :=
  String.ofList (quoteChars text.toList)

/-- A list of texts in quoted form, between square brackets. -/
def quotedList (texts : List String) : String :=
  "[" ++ ", ".intercalate (texts.map quoted) ++ "]"

end RuleTree
