import LuaEmbed.Number.Binary64

/-!
Decimal digits of doubles: the fewest digits that read back, a fixed number of places and a fixed
number of digits. All are computed exactly, on naturals.
-/
namespace LuaEmbed.Decimal

open LuaEmbed.Binary64 (roundDiv)

/-- Digits `d₁d₂…` standing for `0.d₁d₂… * 10 ^ point`. -/
structure Scaled where
  digits : List Nat
  point : Int

/-- The digits of a number, most significant first. -/
def digitsOf (n : Nat) : List Nat := (Nat.toDigits 10 n).map fun c => c.toNat - 48

/-- A positive quotient times a power of ten, as a quotient. -/
def shift (num den : Nat) (k : Int) : Nat × Nat := (num * 10 ^ k.toNat, den * 10 ^ (-k).toNat)

/-- The `e` with `10 ^ (e - 1) ≤ num / den < 10 ^ e`, for a positive quotient. -/
def magnitude (num den : Nat) : Int :=
  let guess : Int := ((num.log2 : Int) - den.log2) * 30103 / 100000 - 1
  let climb (e : Int) : Int :=
    let (a, b) := shift num den (-e)
    if b ≤ a then e + 1 else e
  climb (climb (climb (climb guess)))

/-- `n` digits of a positive quotient, rounded half to even. -/
def round (n : Nat) (num den : Nat) : Scaled :=
  let e := magnitude num den
  let (a, b) := shift num den (n - e)
  let r := roundDiv a b
  if r = 10 ^ n then ⟨digitsOf (10 ^ (n - 1)), e + 1⟩ else ⟨digitsOf r, e⟩

/-- A double's magnitude as a quotient. -/
def quotient (m : Nat) (q : Int) : Nat × Nat := (m * 2 ^ q.toNat, 2 ^ (-q).toNat)

/-- The reals that round to `m * 2 ^ q`, in quarters of the last place; the ends belong to it
when `m` is even. -/
structure Interval where
  low : Nat
  high : Nat
  closed : Bool

def interval (m : Nat) (q : Int) : Interval :=
  ⟨if m = 2 ^ 52 && q ≠ -1074 then 4 * m - 1 else 4 * m - 2, 4 * m + 2, m % 2 = 0⟩

/-- Whether `t * 10 ^ k` lies in the interval around a double of scale `q`. -/
def Interval.has (i : Interval) (q : Int) (t : Nat) (k : Int) : Bool :=
  let scale := q - 2
  let value := t * 10 ^ k.toNat * 2 ^ (-scale).toNat
  let unit := 10 ^ (-k).toNat * 2 ^ scale.toNat
  if i.closed then i.low * unit ≤ value && value ≤ i.high * unit
  else i.low * unit < value && value < i.high * unit

/-- The first grid of at most `n + k` digits that holds a point reading back, from `n` digits on;
of two such points the nearer, and the upper of two equally near. -/
def shortestFrom (m : Nat) (q : Int) (e : Int) : Nat → Nat → Scaled
  | 0, n => round n (quotient m q).1 (quotient m q).2
  | fuel + 1, n =>
    let (num, den) := quotient m q
    let (a, b) := shift num den (n - e)
    let t := a / b
    let i := interval m q
    let lower := i.has q t (e - n)
    let upper := i.has q (t + 1) (e - n)
    let pick (t : Nat) : Scaled :=
      if t = 10 ^ n then ⟨[1], e + 1⟩ else ⟨digitsOf t, e⟩
    if lower && upper then pick (if 2 * (a % b) < b then t else t + 1)
    else if lower then pick t
    else if upper then pick (t + 1)
    else shortestFrom m q e fuel (n + 1)

/-- The fewest digits that read back as `m * 2 ^ q`, for positive `m`. -/
def shortest (m : Nat) (q : Int) : Scaled :=
  shortestFrom m q (magnitude (quotient m q).1 (quotient m q).2) 17 1

def digitChars (ds : List Nat) : List Char := ds.map fun d => Char.ofNat (48 + d)

/-- The decisions of a format that writes the fewest digits. -/
structure Style where
  /-- Values below `10 ^ low` are written with an exponent. -/
  low : Int
  /-- Values from `10 ^ high` on are written with an exponent. -/
  high : Int
  nan : String
  infinity : String

/-- The text of a positive finite value in positional notation, with at least one decimal. -/
def Scaled.positional (s : Scaled) : List Char :=
  if s.point ≤ 0 then
    '0' :: '.' :: (List.replicate (-s.point).toNat '0' ++ digitChars s.digits)
  else
    let n := s.point.toNat
    let whole := s.digits.take n ++ List.replicate (n - s.digits.length) 0
    let rest := s.digits.drop n
    digitChars whole ++ '.' :: (if rest.isEmpty then ['0'] else digitChars rest)

/-- The text of a positive finite value in scientific notation, the exponent bare. -/
def Scaled.scientific (s : Scaled) : List Char :=
  match s.digits with
  | [] => []
  | d :: ds =>
    let frac := if ds.isEmpty then [] else '.' :: digitChars ds
    digitChars [d] ++ frac ++ 'e' :: (toString (s.point - 1)).toList

/-- Digits without trailing zeros. -/
def Scaled.trim (s : Scaled) : Scaled :=
  { s with digits := (s.digits.reverse.dropWhile (· == 0)).reverse }

def Style.render (st : Style) (x : Binary64) : String :=
  match x.parts with
  | .nan => st.nan
  | .infinite neg => (if neg then "-" else "") ++ st.infinity
  | .finite neg m q =>
    let body :=
      if m = 0 then ['0', '.', '0']
      else
        let s := (shortest m q).trim
        if s.point ≤ st.low || st.high < s.point then s.scientific else s.positional
    (if neg then "-" else "") ++ String.ofList body

/-- Diagnostics write doubles positionally from `0.0001` up to `10 ^ 16`. -/
def diagnostic : Style := ⟨-4, 16, "NaN", "inf"⟩

end LuaEmbed.Decimal
