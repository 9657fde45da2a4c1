import LuaEmbed.Engine.Value

/-!
Tables. What a table holds is a finite map; which keys lie in its array part matters only to the
length operator, which may answer with any border, and is kept beside the map.
-/
namespace LuaEmbed.Engine

/-- A table. An entry whose value is nil is a removed one that traversal may still start from. -/
structure Table where
  entries : Std.TreeMap Val Val Val.order := {}
  /-- Keys `1` to `arraySize` lie in the array part. -/
  arraySize : Nat := 0
  /-- Room outside the array part, and how much of it is taken. -/
  hashRoom : Nat := 0
  hashUsed : Nat := 0
  metatable : Option Nat := none
  deriving Inhabited

namespace Table

/-- The value under a key that is already in normal form. -/
def find (t : Table) (k : Val) : Val := t.entries.getD k .nil

def get (t : Table) (k : Val) : Val := t.find k.normalKey

def getInt (t : Table) (i : Nat) : Val := t.find (.int (Int64.ofNat i))

def getText (t : Table) (s : String) : Val := t.find (.text s)

/-- Whether a key lies in an array part of a given size. -/
def inArray (size : Nat) : Val → Bool
  | .int i => 0 < i.toInt && i.toInt ≤ size
  | _ => false

/-- The least power of two not below a positive number; none for zero. -/
def roomFor (n : Nat) : Nat := if n = 0 then 0 else if n = 1 then 1 else 2 ^ ((n - 1).log2 + 1)

/-- The index of the slice `2 ^ (i - 1) < k ≤ 2 ^ i` that a key is counted in. -/
def slice (k : Nat) : Nat := if k ≤ 1 then 0 else (k - 1).log2 + 1

/-- The largest power of two that more than half of the counted keys up to it would fill. -/
def arraySizeFor (counts : Array Nat) (total : Nat) : Nat → Nat → Nat → Nat → Nat
  | 0, _, _, best => best
  | fuel + 1, i, below, best =>
    if 2 ^ i / 2 < total then
      let below := below + counts.getD i 0
      arraySizeFor counts total fuel (i + 1) below (if 2 ^ i / 2 < below then 2 ^ i else best)
    else best

def countKey (counts : Array Nat × Nat) : Val → Array Nat × Nat
  | .int i =>
    if 0 < i.toInt && i.toInt ≤ 134217728 then
      (counts.1.modify (slice i.toInt.toNat) (· + 1), counts.2 + 1)
    else counts
  | _ => counts

/-- Gives the array part and the rest the sizes stated, dropping removed entries. -/
def resize (t : Table) (array hash : Nat) : Table :=
  let live := t.entries.filter fun _ v => !v.isNil
  { t with
    entries := live
    arraySize := array
    hashRoom := roomFor hash
    hashUsed := live.foldl (fun n k _ => if inArray array k then n else n + 1) 0 }

/-- Chooses both sizes anew so that one more key fits. -/
def rehash (t : Table) (key : Val) : Table :=
  let start : (Array Nat × Nat) × Nat := ((Array.replicate 32 0, 0), 0)
  let (counts, live) := t.entries.foldl
    (fun acc k v => if v.isNil then acc else (countKey acc.1 k, acc.2 + 1)) start
  let counts := countKey counts key
  let size := arraySizeFor counts.1 counts.2 32 0 0 0
  let inside := counts.1.toList.take (slice size + 1) |>.foldl (· + ·) 0
  t.resize size (live + 1 - if size = 0 then 0 else inside)

/-- Stores a value under a key in normal form that is neither nil nor NaN. -/
def put (t : Table) (k v : Val) : Table :=
  if t.entries.contains k || inArray t.arraySize k then
    { t with entries := t.entries.insert k v }
  else if v.isNil then t
  else
    let t := if t.hashRoom ≤ t.hashUsed then t.rehash k else t
    { t with
      entries := t.entries.insert k v
      hashUsed := if inArray t.arraySize k then t.hashUsed else t.hashUsed + 1 }

def set (t : Table) (k v : Val) : Table := t.put k.normalKey v

def setInt (t : Table) (i : Nat) (v : Val) : Table := t.put (.int (Int64.ofNat i)) v

def setText (t : Table) (s : String) (v : Val) : Table := t.put (.text s) v

/-- Halves the distance between a present key and an absent one. -/
def bisect (t : Table) : Nat → Nat → Nat → Nat
  | 0, i, _ => i
  | fuel + 1, i, j =>
    if 1 < j - i then
      let m := (i + j) / 2
      if (t.getInt m).isNil then bisect t fuel i m else bisect t fuel m j
    else i

/-- Doubles the distance until a key is absent. -/
def probe (t : Table) : Nat → Nat → Nat
  | 0, j => j
  | fuel + 1, j =>
    let next := 2 * j
    if 2 ^ 63 ≤ next then
      if (t.getInt (2 ^ 63 - 1)).isNil then bisect t 64 j (2 ^ 63 - 1) else 2 ^ 63 - 1
    else if (t.getInt next).isNil then bisect t 64 j next
    else probe t fuel next

/-- A border: zero or a present key whose successor is absent. -/
def length (t : Table) : Nat :=
  let n := t.arraySize
  if 0 < n && (t.getInt n).isNil then
    if 2 ≤ n && !(t.getInt (n - 1)).isNil then n - 1 else bisect t 64 0 n
  else if t.hashRoom = 0 || (t.getInt (n + 1)).isNil then n
  else probe t 64 (max n 1)

/-- The first live entry from a place in the order of keys on. -/
def firstLive (t : Table) : Nat → Option (Val × Val) → Option (Val × Val)
  | 0, _ => none
  | fuel + 1, some (k, v) =>
    if v.isNil then firstLive t fuel (t.entries.getEntryGT? k) else some (k, v)
  | _, none => none

/-- The entry after a key, the first one after nil; `none` if there is no such key. -/
def next? (t : Table) (k : Val) : Option (Option (Val × Val)) :=
  let fuel := t.entries.size + 1
  match k.normalKey with
  | .nil => some (t.firstLive fuel t.entries.minEntry?)
  | k =>
    if t.entries.contains k || inArray t.arraySize k then
      some (t.firstLive fuel (t.entries.getEntryGT? k))
    else none

end Table
end LuaEmbed.Engine
