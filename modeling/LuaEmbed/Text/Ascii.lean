import LuaEmbed.Text.Utf8

/-!
Classes of bytes and their case, for ASCII alone: a byte from 128 on is in no class.
-/
namespace LuaEmbed.Ascii

def isDigit (b : UInt8) : Bool := 48 ≤ b && b ≤ 57

def isUpper (b : UInt8) : Bool := 65 ≤ b && b ≤ 90

def isLower (b : UInt8) : Bool := 97 ≤ b && b ≤ 122

def isAlpha (b : UInt8) : Bool := isUpper b || isLower b

def isAlphaNum (b : UInt8) : Bool := isAlpha b || isDigit b

/-- Letters, digits and the underscore. -/
def isWord (b : UInt8) : Bool := isAlphaNum b || b = 95

/-- A letter or the underscore, which may begin a name. -/
def isNameStart (b : UInt8) : Bool := isAlpha b || b = 95

def isHexDigit (b : UInt8) : Bool :=
  isDigit b || (65 ≤ b && b ≤ 70) || (97 ≤ b && b ≤ 102)

/-- The space, the tab and the four line and page controls. -/
def isSpace (b : UInt8) : Bool := b = 32 || (9 ≤ b && b ≤ 13)

def isControl (b : UInt8) : Bool := b < 32 || b = 127

/-- Visible and not the space. -/
def isGraphic (b : UInt8) : Bool := 33 ≤ b && b ≤ 126

def isPrintable (b : UInt8) : Bool := 32 ≤ b && b ≤ 126

def isPunctuation (b : UInt8) : Bool := isGraphic b && !isAlphaNum b

def toLower (b : UInt8) : UInt8 := if isUpper b then b + 32 else b

def toUpper (b : UInt8) : UInt8 := if isLower b then b - 32 else b

/-- The value of a digit in any base up to 36. -/
def digitValue (b : UInt8) : Nat :=
  if isDigit b then b.toNat - 48
  else if isAlpha b then (toLower b).toNat - 87
  else 36

def ofChars (cs : List Char) : List UInt8 := cs.map fun c => UInt8.ofNat c.toNat

end LuaEmbed.Ascii
