import LuaEmbed.Engine.Action

/-!
Functions on coroutines.
-/
namespace LuaEmbed.Library.Coroutines

open Engine

variable (args : Args)

def create : Native (List Val) := do
  let f ← args.function 1
  Native.allocate
  return [← Native.newThread f]

def wrap : Native (List Val) := do
  let f ← args.function 1
  Native.allocate
  let t ← Native.newThread f
  return [← Native.newClosure (.native .wrapped #[t])]

def resume : Native (List Val) := do
  let t ← args.thread 1
  match ← Native.resume t (args.drop 1) with
  | .ok vs => return .bool true :: vs
  | .error e => return [.bool false, e]

/-- A wrapped coroutine passes its errors on; it is closed first if it failed. -/
def wrapped (up : Array Val) : Native (List Val) := do
  match (up[0]? : Option Val) with
  | some (.thread t) =>
    match ← Native.resume t args with
    | .ok vs => return vs
    | .error e =>
      let e ← match ← Native.closeFailed t with
        | some e' => pure e'
        | none => pure e
      match e with
      | .str s => Native.raise (.str ((← Native.position 1) ++ s))
      | v => Native.raise v
  | _ => return []

/-- The thread meant: an argument, or the running one. -/
def threadOr : Native Nat := do
  match args.at_ 1 with
  | .thread t => return t
  | _ => return (← Native.situation).thread

def running : Native (List Val) := do
  let s ← Native.situation
  return [.thread s.thread, .bool s.isMain]

def statusName : CoroutineStatus → String
  | .suspended => "suspended"
  | .running => "running"
  | .normal => "normal"
  | .dead => "dead"

def status : Native (List Val) := do
  let t ← args.thread 1
  return [.text (statusName (← Native.status t))]

def isyieldable : Native (List Val) := do
  let s ← Native.situation
  match args.at_ 1 with
  | .thread t => if t = s.thread then return [.bool s.canYield] else return [.bool (t ≠ 0)]
  | _ => return [.bool s.canYield]

def close : Native (List Val) := do
  let t ← args.thread 1
  match ← Native.status t with
  | .suspended | .dead =>
    match ← Native.close t with
    | none => return [.bool true]
    | some e => return [.bool false, e]
  | s => Native.fail ("cannot close a " ++ statusName s ++ " coroutine")

end LuaEmbed.Library.Coroutines
