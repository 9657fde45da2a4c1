import LuaEmbed.Number.Decimal

/-!
Numbers under a format directive: flags, width and precision, and the conversions to decimal,
octal and hexadecimal integers and to fixed, scientific, general and hexadecimal floats.
-/
namespace LuaEmbed.Format

/-- What stands between the percent sign and the conversion letter. -/
structure Directive where
  left : Bool := false
  plus : Bool := false
  space : Bool := false
  alternate : Bool := false
  zero : Bool := false
  width : Nat := 0
  precision : Option Nat := none

/-- The sign written before a number. -/
def Directive.sign (d : Directive) (neg : Bool) : List Char :=
  if neg then ['-'] else if d.plus then ['+'] else if d.space then [' '] else []

/-- Fills a number up to the width: on the right, with zeros after the sign and radix mark, or on
the left. -/
def Directive.pad (d : Directive) (zeros : Bool) (lead body : List Char) : List Char :=
  let missing := d.width - (lead.length + body.length)
  if d.left then lead ++ body ++ List.replicate missing ' '
  else if zeros && d.zero then lead ++ List.replicate missing '0' ++ body
  else List.replicate missing ' ' ++ lead ++ body

def upper (cs : List Char) : List Char := cs.map Char.toUpper

/-- Digits with the leading zeros that a precision asks for. -/
def Directive.integerDigits (d : Directive) (digits : List Char) (isZero : Bool) : List Char :=
  match d.precision with
  | none => digits
  | some p =>
    let digits := if isZero && p = 0 then [] else digits
    List.replicate (p - digits.length) '0' ++ digits

def Directive.decimal (d : Directive) (i : Int) : List Char :=
  let body := d.integerDigits (Nat.toDigits 10 i.natAbs) (i = 0)
  d.pad d.precision.isNone (d.sign (i < 0)) body

def Directive.unsigned (d : Directive) (base n : Nat) (capital : Bool) : List Char :=
  let body := d.integerDigits (Nat.toDigits base n) (n = 0)
  let body := if d.alternate && base = 8 && body.head? ≠ some '0' then '0' :: body else body
  let lead := if d.alternate && base = 16 && n ≠ 0 then ['0', 'x'] else []
  let body := d.pad d.precision.isNone lead body
  if capital then upper body else body

/-- A fraction's digits after the point, which a bare integer has only on demand. -/
def Directive.fraction (d : Directive) (digits : List Char) : List Char :=
  if digits.isEmpty then (if d.alternate then ['.'] else []) else '.' :: digits

/-- A value with `p` places. -/
def Directive.fixedBody (d : Directive) (p num den : Nat) : List Char :=
  let r := Nat.toDigits 10 (Binary64.roundDiv (num * 10 ^ p) den)
  let r := List.replicate (p + 1 - r.length) '0' ++ r
  r.take (r.length - p) ++ d.fraction (r.drop (r.length - p))

/-- A decimal exponent: a sign and at least two digits. -/
def exponentText (e : Int) : List Char :=
  let ds := Nat.toDigits 10 e.natAbs
  (if e < 0 then '-' else '+') :: (if ds.length < 2 then '0' :: ds else ds)

/-- The digits and exponent of a value with `p + 1` significant digits. -/
def significant (p num den : Nat) : List Nat × Int :=
  if num = 0 then (List.replicate (p + 1) 0, 0)
  else
    let s := Decimal.round (p + 1) num den
    (s.digits, s.point - 1)

def Directive.scientificBody (d : Directive) (digits : List Nat) (e : Int) : List Char :=
  Decimal.digitChars (digits.take 1) ++ d.fraction (Decimal.digitChars (digits.drop 1)) ++
    'e' :: exponentText e

def dropTrailingZeros (digits : List Nat) : List Nat :=
  (digits.reverse.dropWhile (· == 0)).reverse

/-- `p` significant digits, in whichever notation suits the size; zeros at the end are dropped
unless the alternate form is asked for. -/
def Directive.generalBody (d : Directive) (p num den : Nat) : List Char :=
  let p := max p 1
  let (digits, e) := significant (p - 1) num den
  let kept := if d.alternate then digits else dropTrailingZeros digits
  if e < -4 || (p : Int) ≤ e then
    d.scientificBody (if kept.isEmpty then [0] else kept) e
  else if e < 0 then
    '0' :: d.fraction (Decimal.digitChars (List.replicate (-e - 1).toNat 0 ++ kept))
  else
    let n := e.toNat + 1
    let whole := kept.take n ++ List.replicate (n - kept.length) 0
    Decimal.digitChars whole ++ d.fraction (Decimal.digitChars (kept.drop n))

/-- Hexadecimal digits of a double's significand, rounded to a precision if one is given. -/
def Directive.hexBody (d : Directive) (m : Nat) (q : Int) : List Char :=
  if m = 0 then '0' :: d.fraction (List.replicate (d.precision.getD 0) '0') ++ ['p', '+', '0']
  else
    let lead := m / 2 ^ 52
    let frac := m % 2 ^ 52
    let e : Int := q + 52
    let (lead, digits) :=
      match d.precision with
      | none =>
        let ds := Nat.toDigits 16 frac
        let ds := List.replicate (13 - ds.length) '0' ++ ds
        (lead, (ds.reverse.dropWhile (· == '0')).reverse)
      | some p =>
        if 13 ≤ p then
          let ds := Nat.toDigits 16 frac
          (lead, List.replicate (13 - ds.length) '0' ++ ds ++ List.replicate (p - 13) '0')
        else
          let r := Binary64.roundDiv (lead * 2 ^ 52 + frac) (2 ^ (52 - 4 * p))
          let ds := Nat.toDigits 16 (r % 16 ^ p)
          (r / 16 ^ p, if p = 0 then [] else List.replicate (p - ds.length) '0' ++ ds)
    let sign := if e < 0 then '-' else '+'
    Nat.toDigits 10 lead ++ d.fraction digits ++ 'p' :: sign :: Nat.toDigits 10 e.natAbs

/-- The float conversions. -/
inductive FloatStyle where
  | fixed | scientific | general | hex
  deriving DecidableEq

def Directive.float (d : Directive) (style : FloatStyle) (capital : Bool) (x : Binary64) :
    List Char :=
  let text :=
    match x.parts with
    | .nan => d.pad false (d.sign x.isNegative) ['n', 'a', 'n']
    | .infinite neg => d.pad false (d.sign neg) ['i', 'n', 'f']
    | .finite neg m q =>
      let (num, den) := Decimal.quotient m q
      let p := d.precision.getD 6
      match style with
      | .fixed => d.pad true (d.sign neg) (d.fixedBody p num den)
      | .scientific =>
        let (digits, e) := significant p num den
        d.pad true (d.sign neg) (d.scientificBody digits e)
      | .general => d.pad true (d.sign neg) (d.generalBody p num den)
      | .hex => d.pad true (d.sign neg ++ ['0', 'x']) (d.hexBody m q)
  if capital then upper text else text

/-- Fourteen significant digits, the usual text of a float. -/
def float14 (x : Binary64) : List Char :=
  let d : Directive := { precision := some 14 }
  d.float .general false x

/-- The text of a float as a value: it never looks like an integer. -/
def floatText (x : Binary64) : String :=
  let s := float14 x
  String.ofList (if s.all fun c => c = '-' || c.isDigit then s ++ ['.', '0'] else s)

end LuaEmbed.Format
