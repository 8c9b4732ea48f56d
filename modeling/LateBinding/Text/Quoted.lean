import LateBinding.Number.Hexadecimal
import LateBinding.Text.Glyphless

/-!
# Quoted text

A text between double quotes, in which every character can be told from its neighbours: the quote
and the backslash are escaped, four common controls have short names, and a character without a
glyph of its own is spelled out by its number.
-/

namespace LateBinding

def quotedChar (c : Char) : String :=
  if c = '\x00' then "\\0"
  else if c = '\t' then "\\t"
  else if c = '\n' then "\\n"
  else if c = '\r' then "\\r"
  else if c = '"' then "\\\""
  else if c = '\\' then "\\\\"
  else if isGlyphless c then "\\u\x7b" ++ hexDigits c.toNat ++ "\x7d"
  else c.toString

def quoted (s : String) : String := "\"" ++ s.foldl (fun text c => text ++ quotedChar c) "" ++ "\""

end LateBinding
