import LuaEmbed.Engine.Action
import LuaEmbed.Library.Modules

/-!
Functions that build the standard libraries, each as a table of functions and constants.
-/
namespace LuaEmbed.Library.Openers

open Engine

def setFields (t : Val) (fields : List (String × Builtin)) (h : Heap) : Heap :=
  fields.foldl (fun h (name, f) => h.rawSetText t name (.builtin f)) h

/-- A new table of functions. -/
def library (fields : List (String × Builtin)) : Native Val := do
  let t ← Native.newTable {}
  Native.modifyHeap (setFields t fields)
  return t

def setText (t : Val) (k : String) (v : Val) : Native Unit :=
  Native.modifyHeap (·.rawSetText t k v)

def base : Native (List Val) := do
  let g := (← Native.heap).globals
  Native.modifyHeap (setFields g Builtin.baseFields)
  setText g "_G" g
  setText g "_VERSION" (.text "Lua 5.4")
  return [g]

/-- A subtable of the registry. -/
def subtable (name : String) : Native Val := do
  Native.onHeap fun h => h.subtable h.registryTable name

def package : Native (List Val) := do
  let t ← library Builtin.packageFields
  let closure (f : Builtin) : Native Val := Native.newClosure (.native f #[t])
  let searchers ← Native.newTable {}
  let fs ← [Builtin.searcherPreload, .searcherLua, .searcherC, .searcherCRoot].mapM closure
  Native.modifyHeap fun h =>
    ((List.range fs.length).zip fs).foldl (fun h (i, f) => h.rawSet searchers (.ofNat (i + 1)) f) h
  setText t "searchers" searchers
  setText t "path" (.str Modules.path)
  setText t "cpath" (.str Modules.cpath)
  setText t "config" (.text "/\n;\n?\n!\n-\n")
  setText t "loaded" (← subtable "_LOADED")
  setText t "preload" (← subtable "_PRELOAD")
  let req ← closure .require
  setText (← Native.heap).globals "require" req
  return [t]

/-- The metatable registered under a name. -/
def namedMetatable (name : String) : Native Val :=
  Native.onHeap fun h =>
    let (m, _, h) := h.namedMetatable name
    (m, h)

def io : Native (List Val) := do
  let t ← library Builtin.ioFields
  let m ← namedMetatable "FILE*"
  let methods ← library Builtin.fileFields
  setText m "__index" methods
  setText m "__gc" (.builtin .fileGc)
  setText m "__close" (.builtin .fileGc)
  setText m "__tostring" (.builtin .fileText)
  for name in ["stdin", "stdout", "stderr"] do
    let f ← Native.onHeap fun h => h.newUserdata ⟨.file, 16, none⟩
    Native.modifyHeap fun h =>
      match m with
      | .table i => h.setMetatable f (some i)
      | _ => h
    setText t name f
  return [t]

def string : Native (List Val) := do
  let t ← library Builtin.stringFields
  let m ← library [("__add", .addText), ("__sub", .subText), ("__mul", .mulText),
    ("__mod", .modText), ("__pow", .powText), ("__div", .divText), ("__idiv", .idivText),
    ("__unm", .negText)]
  setText m "__index" t
  Native.modifyHeap fun h =>
    match m with
    | .table i => h.setMetatable (.text "") (some i)
    | _ => h
  return [t]

def utf8 : Native (List Val) := do
  let t ← library Builtin.utf8Fields
  setText t "charpattern" (.str (Bytes.ofList
    [91, 0, 45, 0x7F, 0xC2, 45, 0xFD, 93, 91, 0x80, 45, 0xBF, 93, 42]))
  return [t]

def math : Native (List Val) := do
  let t ← library Builtin.mathFields
  setText t "pi" (.float ⟨0x400921FB54442D18⟩)
  setText t "huge" (.float (.infinity false))
  setText t "maxinteger" (.int Int64.maxValue)
  setText t "mininteger" (.int Int64.minValue)
  return [t]

end LuaEmbed.Library.Openers
