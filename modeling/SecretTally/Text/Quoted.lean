import SecretTally.Text.Glyphless

/-! A character as messages show it: between single quotes, with the usual short escapes, and by its
number if it has no glyph. -/

namespace SecretTally.Text

def shortEscape? (c : Char) : Option Char :=
  if c.toNat = 0 then some '0'
  else if c = '\t' then some 't'
  else if c = '\r' then some 'r'
  else if c = '\n' then some 'n'
  else if c.toNat = 39 ∨ c = '\\' then some c
  else none

def hex (n : Nat) : String := String.ofList (Nat.toDigits 16 n)

def quoted (c : Char) : String :=
  let body :=
    match shortEscape? c with
    | some letter => "\\" ++ letter.toString
    | none => if isGlyphless c then "\\u\x7b" ++ hex c.toNat ++ "\x7d" else c.toString
  "'" ++ body ++ "'"

end SecretTally.Text
