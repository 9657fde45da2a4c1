import LuaEmbed.Engine.Chunk
import LuaEmbed.Library.Strings

/-!
The basic functions.
-/
namespace LuaEmbed.Library.Base

open Engine

variable (args : Args)

/-- Lets a script stop the collector, start it again, and have it run at once. How much memory is in use
and how the collector paces itself are not modelled: what is said of them never changes. -/
def collectgarbage : Native (List Val) := do
  let what ← args.textOr 1 "collect"
  let h ← Native.heap
  let idle := !h.collecting
  let answer (v : Val) : List Val := [if idle then v else .nil]
  match what.toString? with
  | some "collect" =>
    if idle then Native.collect
    return answer (.int 0)
  | some "count" => return answer (.float (.ofInt 64))
  | some "step" =>
    if idle then Native.collect
    return answer (.bool true)
  | some "stop" =>
    if idle then Native.modifyHeap ({ · with halted := true })
    return answer (.int 0)
  | some "restart" =>
    if idle then Native.modifyHeap ({ · with halted := false })
    return answer (.int 0)
  | some "setpause" | some "setstepmul" => return answer (.int 0)
  | some "isrunning" => return answer (.bool !h.halted)
  | some "generational" | some "incremental" => return answer (.text "incremental")
  | _ => Native.badArgument 1 ("invalid option '" ++ what ++ "'")

/-- Raises a value; a text gets the position of the caller so many levels up. -/
def raiseAt (level : Int) : Val → Native (List Val)
  | .str s => do
    if 0 < level then Native.raise (.str ((← Native.position level.toNat) ++ s))
    else Native.raise (.str s)
  | v => Native.raise v

def assert : Native (List Val) := do
  if (args.at_ 1).truthy then return args
  discard (args.any 1)
  raiseAt 1 ((Args.get? args 2).getD (.text "assertion failed!"))

def error : Native (List Val) := do
  raiseAt (← args.integerOr 2 1) (args.at_ 1)

def getmetatable : Native (List Val) := do
  let v ← args.any 1
  let h ← Native.heap
  match h.metatable? v with
  | none => return [.nil]
  | some m =>
    match h.metafield v "__metatable" with
    | .nil => return [.table m]
    | f => return [f]

def setmetatable : Native (List Val) := do
  let t ← args.table 1
  let m ←
    match Args.get? args 2 with
    | some .nil => pure none
    | some (.table m) => pure (some m)
    | _ => args.wrongType 2 "nil or table"
  if !((← Native.heap).metafield t "__metatable").isNil then
    Native.fail "cannot change a protected metatable"
  Native.modifyHeap (·.setMetatable t m)
  return [t]

def ipairs : Native (List Val) := do
  return [.builtin .ipairsStep, ← args.any 1, .int 0]

def ipairsStep : Native (List Val) := do
  let i := (← args.integer 2) + 1
  let v ← Native.index (args.at_ 1) (.int i) args
  return if v.isNil then [.nil] else [.int i, v]

def next : Native (List Val) := do
  match ← args.table 1 with
  | .table t =>
    match ((← Native.heap).table t).next? (args.at_ 2) with
    | none => Native.failHere "invalid key to 'next'"
    | some none => return [.nil]
    | some (some (k, v)) => return [k, v]
  | _ => return [.nil]

def pairs : Native (List Val) := do
  let v ← args.any 1
  match (← Native.heap).metafield v "__pairs" with
  | .nil => return [.builtin .baseNext, v, .nil]
  | m =>
    let rs ← Native.callYieldable m [v] args
    return (List.range 3).map fun i => rs.getD i .nil

def pcall : Native (List Val) := do
  let f ← args.any 1
  match ← Native.protect f (args.drop 1) none with
  | .ok vs => return .bool true :: vs
  | .error e => return [.bool false, e]

def xpcall : Native (List Val) := do
  let handler ← args.function 2
  match ← Native.protect (args.at_ 1) (args.drop 2) (some handler) with
  | .ok vs => return .bool true :: vs
  | .error e => return [.bool false, e]

def rawequal : Native (List Val) := do
  let a ← args.any 1
  let b ← args.any 2
  return [.bool (a.rawEqual b)]

def rawlen : Native (List Val) := do
  match args.at_ 1 with
  | .table t => return [.ofNat ((← Native.heap).table t).length]
  | .str s => return [.ofNat s.size]
  | _ => Native.badArgument 1 "table or string expected"

def rawget : Native (List Val) := do
  let t ← args.table 1
  let k ← args.any 2
  return [(← Native.heap).rawGet t k]

def rawset : Native (List Val) := do
  let t ← args.table 1
  let k ← args.any 2
  let v ← args.any 3
  match Operation.keyFault? k with
  | some e => Native.failHere e
  | none =>
    Native.modifyHeap (·.rawSet t k v)
    return [t]

def select : Native (List Val) := do
  let n : Int := (args : List Val).length
  match args.at_ 1 with
  | .str s =>
    if s.data[0]? = some 35 then return [.ofInt (n - 1)]
  | _ => pure ()
  let i := (← args.integer 1).toInt
  let i := if i < 0 then n + i else if n < i then n else i
  if i < 1 then Native.badArgument 1 "index out of range"
  return args.drop i.toNat

def tonumber : Native (List Val) := do
  if args.isNoneOrNil 2 then
    match args.at_ 1 with
    | .int i => return [.int i]
    | .float x => return [.float x]
    | .str s =>
      match Numeral.parse? s.data.toList with
      | some n => return [.ofNumber n]
      | none => return [.nil]
    | _ =>
      discard (args.any 1)
      return [.nil]
  let base ← args.integer 2
  match args.at_ 1 with
  | .str s =>
    let base := base.toInt
    if base < 2 || 36 < base then Native.badArgument 2 "base out of range"
    let (neg, rest) := Numeral.sign (Numeral.skipSpace s.data.toList)
    let (ds, rest) := Numeral.span Ascii.isAlphaNum rest
    if ds.isEmpty || !(ds.all fun d => Ascii.digitValue d < base.toNat) || !Numeral.atEnd rest then
      return [.nil]
    let v := Int64.ofNat (Numeral.value base.toNat ds)
    return [.int (if neg then -v else v)]
  | _ => args.wrongType 1 "string"

def tostring : Native (List Val) := do
  let v ← args.any 1
  return [.str (← display v args)]

def type : Native (List Val) := do
  return [.text (← args.any 1).typeName]

/-- A name up to its first null byte. -/
def cut (s : Bytes) : Bytes := Bytes.ofList (s.data.toList.takeWhile (· != 0))

/-- The pieces that a reader function gives, up to an empty one. -/
def readPieces (f : Val) : Nat → Native (List Bytes)
  | 0 => return []
  | fuel + 1 => do
    match (← Native.call f [] args).headD .nil with
    | .nil => return []
    | v =>
      match v.toText? with
      | none => Native.fail "reader function must return a string"
      | some s => if s.size = 0 then return [] else return s :: (← readPieces f fuel)

def load : Native (List Val) := do
  let mode ← args.textOr 3 "bt"
  let (text, name) ←
    match (args.at_ 1).toText? with
    | some s => pure (s, ← args.textOr 2 s)
    | none => do
      let name ← args.textOr 2 "=(load)"
      let f ← args.function 1
      pure (Bytes.concat (← readPieces args f 1000000), name)
  let depth := (← Native.situation).depth
  match Chunk.load text (cut name) (cut mode) depth (← Native.heap) with
  | .error e => return [.nil, .str e.message]
  | .ok (f, h) =>
    Native.modifyHeap fun _ => h
    match Args.get? args 4, f with
    | some env, .closure i =>
      match h.closures.get? i with
      | some (.script _ cells) =>
        match cells[0]? with
        | some c => Native.modifyHeap (·.setCell c env)
        | none => pure ()
      | _ => pure ()
    | _, _ => pure ()
    return [f]

/-- Turns every argument into text; where it would be written to is not modelled. -/
def print : Native (List Val) := do
  for v in (args : List Val) do
    discard (display v args)
  return []

end LuaEmbed.Library.Base
