/-!
# White space and trimming

A blank is a character with the Unicode property White_Space. Trimming removes the blanks at
both ends of a text and keeps those inside it.
-/

namespace PosterOverlay.Text

/-- The characters with the Unicode property White_Space. -/
def isBlank (c : Char) : Bool :=
  let code := c.toNat
  (9 ≤ code && code ≤ 13) || code == 0x20 || code == 0x85 || code == 0xA0 || code == 0x1680 ||
    (0x2000 ≤ code && code ≤ 0x200A) || code == 0x2028 || code == 0x2029 || code == 0x202F ||
    code == 0x205F || code == 0x3000

/-- The characters without the blanks at their front. -/
def trimFront (text : List Char) : List Char :=
  text.dropWhile isBlank

/-- The characters without the blanks at either end. -/
def trimChars (text : List Char) : List Char :=
  (trimFront (trimFront text).reverse).reverse

/-- The text without the blanks at either end. -/
def trim (text : String) : String :=
  String.ofList (trimChars text.toList)

/-- A text that holds nothing but blanks. -/
def isAllBlank (text : String) : Bool :=
  text.toList.all isBlank

end PosterOverlay.Text
