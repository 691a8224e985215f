/-! Blank characters, and the text between them.

A blank is a character of the White_Space property. Trimming, splitting into
words and every rule that skips blanks use this one class.
-/

set_option autoImplicit false

namespace Stencil.Text

def isBlank (c : Char) : Bool :=
  let code := c.toNat
  (0x09 ≤ code && code ≤ 0x0D) || code == 0x20 || code == 0x85 || code == 0xA0 || code == 0x1680 ||
    (0x2000 ≤ code && code ≤ 0x200A) || code == 0x2028 || code == 0x2029 || code == 0x202F ||
    code == 0x205F || code == 0x3000

def trimStart (text : List Char) : List Char :=
  text.dropWhile isBlank

def trimEnd (text : List Char) : List Char :=
  (text.reverse.dropWhile isBlank).reverse

def trim (text : List Char) : List Char :=
  trimEnd (trimStart text)

theorem length_dropWhile_le {α : Type} (p : α → Bool) (items : List α) :
    (items.dropWhile p).length ≤ items.length :=
  (List.dropWhile_sublist p).length_le

theorem trimStart_suffix (text : List Char) : trimStart text <:+ text :=
  List.dropWhile_suffix isBlank

theorem length_trimStart_le (text : List Char) : (trimStart text).length ≤ text.length :=
  length_dropWhile_le isBlank text

/-- The longest run of characters that are not blank, and what follows it. -/
def run (text : List Char) : List Char × List Char :=
  (text.takeWhile (!isBlank ·), text.dropWhile (!isBlank ·))

/-- The runs of characters that are not blank, in order. -/
def words (text : List Char) : List (List Char) :=
  (text.splitOnP isBlank).filter (!·.isEmpty)

end Stencil.Text

namespace Stencil

/-- A text without the blanks at its two ends. -/
def trimmed (text : String) : String :=
  String.ofList (Text.trim text.toList)

end Stencil
