import LuaEmbed.Engine.Action
import LuaEmbed.Engine.Thread

/-!
Functions that look behind the scenes: metatables without protection, captured variables, the
registry.
-/
namespace LuaEmbed.Library.Introspection

open Engine

variable (args : Args)

def getmetatable : Native (List Val) := do
  let v ← args.any 1
  match (← Native.heap).metatable? v with
  | some m => return [.table m]
  | none => return [.nil]

def setmetatable : Native (List Val) := do
  let m ←
    match Args.get? args 2 with
    | some .nil => pure none
    | some (.table m) => pure (some m)
    | _ => args.wrongType 2 "nil or table"
  let v := args.at_ 1
  Native.modifyHeap (·.setMetatable v m)
  return [v]

def getregistry : Native (List Val) := do
  return [(← Native.heap).registryTable]

/-- A captured variable: its name, its value and how it is changed. -/
def upvalue? (h : Heap) (f : Val) (i : Nat) : Option (Bytes × Val × (Val → Heap → Heap)) :=
  match f with
  | .closure id =>
    match h.closures.get? id with
    | some (.script p cells) =>
      match cells[i - 1]?, p.upvalues[i - 1]? with
      | some c, some u =>
        if i = 0 then none else some (u.name, h.cell c, fun v h => h.setCell c v)
      | _, _ => none
    | some (.native b up) =>
      match up[i - 1]? with
      | some v =>
        if i = 0 then none
        else some (.empty, v, fun v h =>
          { h with closures := h.closures.set id (.native b (up.setIfInBounds (i - 1) v)) })
      | none => none
    | none => none
  | _ => none

def getupvalue : Native (List Val) := do
  let n := (← args.integer 2).toInt.toNat
  let f ← args.function 1
  match upvalue? (← Native.heap) f n with
  | some (name, v, _) => return [.str name, v]
  | none => return []

def setupvalue : Native (List Val) := do
  let v ← args.any 3
  let n := (← args.integer 2).toInt.toNat
  let f ← args.function 1
  match upvalue? (← Native.heap) f n with
  | some (name, _, set) =>
    Native.modifyHeap (set v)
    return [.str name]
  | none => return []

/-- The cell behind a script function's captured variable. -/
def cell? (h : Heap) (f : Val) (i : Nat) : Option Nat :=
  match h.closure? f with
  | some (.script _ cells) => if i = 0 then none else cells[i - 1]?
  | _ => none

def upvalueid : Native (List Val) := do
  let n := (← args.integer 2).toInt.toNat
  let f ← args.function 1
  match cell? (← Native.heap) f n with
  | some c => return [.light (2 ^ 40 + 16 * c)]
  | none => return [.nil]

def upvaluejoin : Native (List Val) := do
  let n := (← args.integer 2).toInt.toNat
  let f ← args.function 1
  let m := (← args.integer 4).toInt.toNat
  let g ← args.function 3
  let h ← Native.heap
  match h.closure? f, f, cell? h f n, cell? h g m with
  | some (.script p cells), .closure id, some _, some c =>
    Native.modifyHeap fun h =>
      { h with closures := h.closures.set id (.script p (cells.setIfInBounds (n - 1) c)) }
    return []
  | _, _, none, _ => Native.badArgument 2 "invalid upvalue index"
  | _, _, _, none => Native.badArgument 4 "invalid upvalue index"
  | _, _, _, _ => return []

/-- The text handed to it, without the calls that led there. -/
def traceback : Native (List Val) := do
  match args.at_ 1 with
  | .thread _ => return [args.at_ 2]
  | v => return [v]

end LuaEmbed.Library.Introspection
