import LuaEmbed.Engine.Action

/-!
Functions on tables as sequences. Elements are read and written as scripts do it, so that
metamethods take part.
-/
namespace LuaEmbed.Library.Tables

open Engine

variable (args : Args)

/-- Accepts a table, or a value whose metatable has the fields named. -/
def checkTable (i : Nat) (events : List String) : Native Unit := do
  match args.at_ i with
  | .table _ => return
  | v =>
    let h ← Native.heap
    if (h.metatable? v).isSome && events.all fun e => !(h.metafield v e).isNil then return
    discard (args.table i)

/-- The length of a sequence. -/
def length (v : Val) : Native Int := do
  let n ← Native.settle args (Operation.length (← Native.heap) v)
  match n.toInteger? with
  | some n => return n.toInt
  | none => Native.fail "object length is not an integer"

def readAll : List String := ["__index", "__len"]

def writeAll : List String := ["__index", "__newindex", "__len"]

def get (t : Val) (i : Int) : Native Val := Native.index t (.ofInt i) args

def set (t : Val) (i : Int) (v : Val) : Native Unit := Native.setIndex t (.ofInt i) v args

def concatFrom (t : Val) (sep : Bytes) (last : Int) : Nat → Int → Native (List Bytes)
  | 0, _ => return []
  | fuel + 1, i => do
    if last < i then return []
    let v ← get args t i
    match v.toText? with
    | none =>
      Native.fail ("invalid value (" ++ v.typeName ++ ") at index " ++ toString i
        ++ " in table for 'concat'")
    | some s =>
      let rest ← concatFrom t sep last fuel (i + 1)
      return s :: (if i < last then sep :: rest else rest)

/-- How many steps lead from one index to another. -/
def span (first last : Int) : Nat := (last - first + 1).toNat

def concat : Native (List Val) := do
  checkTable args 1 readAll
  let t := args.at_ 1
  let n ← length args t
  let sep ← args.textOr 2 .empty
  let i ← args.integerOr 3 1
  let last ← args.integerOr 4 n
  return [.str (Bytes.concat (← concatFrom args t sep last (span i last) i))]

/-- Moves elements one place up, the last one first. -/
def shiftUp (t : Val) (pos : Int) : Nat → Int → Native Unit
  | 0, _ => return
  | fuel + 1, i => do
    if i ≤ pos then return
    set args t i (← get args t (i - 1))
    shiftUp t pos fuel (i - 1)

def insert : Native (List Val) := do
  checkTable args 1 writeAll
  let t := args.at_ 1
  let e := (← length args t) + 1
  match (args : List Val).length with
  | 2 => set args t e (args.at_ 2)
  | 3 =>
    let pos ← args.integer 2
    let pos := pos.toInt
    if pos < 1 || e < pos then Native.badArgument 2 "position out of bounds"
    shiftUp args t pos (span pos e) e
    set args t pos (args.at_ 3)
  | _ => Native.fail "wrong number of arguments to 'insert'"
  return []

def shiftDown (t : Val) (last : Int) : Nat → Int → Native Unit
  | 0, i => set args t i .nil
  | fuel + 1, i => do
    if last ≤ i then set args t i .nil
    else
      set args t i (← get args t (i + 1))
      shiftDown t last fuel (i + 1)

def remove : Native (List Val) := do
  checkTable args 1 writeAll
  let t := args.at_ 1
  let size ← length args t
  let pos ← args.integerOr 2 size
  if pos ≠ size && (pos < 1 || size + 1 < pos) then
    Native.badArgument 2 "position out of bounds"
  let v ← get args t pos
  shiftDown args t size (span pos size) pos
  return [v]

def moveFrom (a b : Val) (offset step : Int) : Nat → Int → Native Unit
  | 0, _ => return
  | fuel + 1, i => do
    set args b (i + offset) (← get args a i)
    moveFrom a b offset step fuel (i + step)

def move : Native (List Val) := do
  let f := (← args.integer 2).toInt
  let e := (← args.integer 3).toInt
  let t := (← args.integer 4).toInt
  let target := if args.isNoneOrNil 5 then 1 else 5
  checkTable args 1 ["__index"]
  checkTable args target ["__newindex"]
  let a := args.at_ 1
  let b := args.at_ target
  if f ≤ e then
    if !(0 < f || e < Int64.maxValue.toInt + f) then
      Native.badArgument 3 "too many elements to move"
    let n := e - f + 1
    if Int64.maxValue.toInt - n + 1 < t then Native.badArgument 4 "destination wrap around"
    if e < t || t ≤ f || (target ≠ 1 && !a.rawEqual b) then moveFrom args a b (t - f) 1 n.toNat f
    else moveFrom args a b (t - f) (-1) n.toNat e
  return [b]

def pack : Native (List Val) := do
  let start : Table × Nat := ({ arraySize := (args : List Val).length, hashRoom := 1 }, 1)
  let (t, n) := (args : List Val).foldl
    (fun (acc : Table × Nat) v => (acc.1.setInt acc.2 v, acc.2 + 1)) start
  return [← Native.newTable (t.setText "n" (.ofNat (n - 1)))]

def unpackFrom (t : Val) : Nat → Int → Native (List Val)
  | 0, _ => return []
  | fuel + 1, i => do
    let v ← get args t i
    return v :: (← unpackFrom t fuel (i + 1))

def unpack : Native (List Val) := do
  let t := args.at_ 1
  let i ← args.integerOr 2 1
  let e ← if args.isNoneOrNil 3 then length args t else do pure (← args.integer 3).toInt
  if e < i then return []
  let room := (← Native.situation).room
  if room ≤ span i e then Native.fail "too many results to unpack"
  unpackFrom args t (span i e) i

/-- Whether one element belongs before another. -/
def before (a b : Val) : Native Bool := do
  match args.at_ 2 with
  | .nil => Native.lessThan a b args
  | f => return ((← Native.call f [a, b] args).headD .nil).truthy

def badOrder {α : Type} : Native α := Native.fail "invalid order function for sorting"

/-- The first index above `i` whose element is not below the pivot, and that element. -/
def climb (t p : Val) (up : Int) : Nat → Int → Native (Int × Val)
  | 0, _ => badOrder
  | fuel + 1, i => do
    let i := i + 1
    let v ← get args t i
    if ← before args v p then
      if i = up - 1 then badOrder
      climb t p up fuel i
    else return (i, v)

/-- The first index below `j` whose element is not above the pivot, and that element. -/
def descend (t p : Val) (i : Int) : Nat → Int → Native (Int × Val)
  | 0, _ => badOrder
  | fuel + 1, j => do
    let j := j - 1
    let v ← get args t j
    if ← before args p v then
      if j < i then badOrder
      descend t p i fuel j
    else return (j, v)

/-- Splits a range around a pivot that stands at its last place but one; gives the pivot's final
place. -/
def partition (t p : Val) (up : Int) : Nat → Int → Int → Native Int
  | 0, _, _ => badOrder
  | fuel + 1, i, j => do
    let (i, vi) ← climb args t p up (fuel + 1) i
    let (j, vj) ← descend args t p i (fuel + 1) j
    if j < i then
      set args t (up - 1) vi
      set args t i p
      return i
    set args t i vj
    set args t j vi
    partition t p up fuel i j

/-- Sorts the elements of a range, which is cut in two around a middle element. -/
def sortRange (t : Val) : Nat → Int → Int → Native Unit
  | 0, _, _ => return
  | fuel + 1, lo, up => do
    if up ≤ lo then return
    let a ← get args t lo
    let b ← get args t up
    if ← before args b a then
      set args t lo b
      set args t up a
    if up - lo = 1 then return
    let p := (lo + up) / 2
    let m ← get args t p
    let a ← get args t lo
    if ← before args m a then
      set args t p a
      set args t lo m
    else
      let b ← get args t up
      if ← before args b m then
        set args t p b
        set args t up m
    if up - lo = 2 then return
    let pivot ← get args t p
    let v ← get args t (up - 1)
    set args t p v
    set args t (up - 1) pivot
    let p ← partition args t pivot up (span lo up + 1) lo (up - 1)
    if p - lo < up - p then
      sortRange t fuel lo (p - 1)
      sortRange t fuel (p + 1) up
    else
      sortRange t fuel (p + 1) up
      sortRange t fuel lo (p - 1)

def sort : Native (List Val) := do
  checkTable args 1 writeAll
  let t := args.at_ 1
  let n ← length args t
  if 1 < n then
    if 2147483647 ≤ n then Native.badArgument 1 "array too big"
    if !args.isNoneOrNil 2 then discard (args.function 2)
    sortRange args t n.toNat 1 n
  return []

end LuaEmbed.Library.Tables
