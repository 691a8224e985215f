import Stencil.Text.Unprintable

/-! Texts in quotes, as messages show paths. -/

set_option autoImplicit false

namespace Stencil.Text

def quoteChar (c : Char) : List Char :=
  if c = '"' || c = '\\' then ['\\', c]
  else if c = '\x00' then ['\\', '0']
  else if c = '\n' then ['\\', 'n']
  else if c = '\r' then ['\\', 'r']
  else if c = '\t' then ['\\', 't']
  else if isUnprintable c then ['\\', 'u', '{'] ++ Nat.toDigits 16 c.toNat ++ ['}']
  else [c]

/-- A text between double quotes, with escapes for what cannot stand there and
for what does not show. -/
def quoted (text : List Char) : List Char :=
  '"' :: (text.flatMap quoteChar ++ ['"'])

end Stencil.Text
