import LuaEmbed.Host.Coroutine

/-!
The standard libraries and modules in general. A module is opened once; what its opener gives is
recorded among the loaded modules and, if that is asked for, published as a global.
-/
namespace LuaEmbed

open Engine

/-- The standard libraries, in the order in which they are opened. -/
inductive StdLib where
  | base | package | coroutine | table | io | os | string | utf8 | math | debug
  deriving DecidableEq, Inhabited

namespace StdLib

def all : List StdLib :=
  [base, package, coroutine, table, io, os, string, utf8, math, debug]

/-- The module name, under which it is also published. -/
def moduleName : StdLib → String
  | base => "_G"
  | package => "package"
  | coroutine => "coroutine"
  | table => "table"
  | io => "io"
  | os => "os"
  | string => "string"
  | utf8 => "utf8"
  | math => "math"
  | debug => "debug"

def describe : StdLib → String
  | base => "Base"
  | package => "Package"
  | coroutine => "Coroutine"
  | table => "Table"
  | io => "Io"
  | os => "Os"
  | string => "String"
  | utf8 => "Utf8"
  | math => "Math"
  | debug => "Debug"

def opener : StdLib → Builtin
  | base => .openBase
  | package => .openPackage
  | coroutine => .openCoroutine
  | table => .openTable
  | io => .openIo
  | os => .openOs
  | string => .openString
  | utf8 => .openUtf8
  | math => .openMath
  | debug => .openDebug

end StdLib

/-- What builds a module's value, given its name. -/
inductive ModuleOpener where
  | native (f : Builtin)
  | host (shape : FunctionShape) (id : Nat)
  deriving Inhabited

def ModuleOpener.describe : ModuleOpener → String
  | native f => s!"native opener: {Value.address 4 f.address}"
  | host shape id => Value.describe (.function shape id)

namespace Context

variable {σ μ : Type} (c : Context)

/-- Pushes the table of loaded modules, which is made if it is missing. -/
def pushLoaded : Api σ μ Unit :=
  Api.modify fun w =>
    let (t, w) := w.onVm c.vm fun vm =>
      let (t, h) := vm.heap.subtable vm.heap.registryTable "_LOADED"
      ({ vm with heap := h }, t)
    w.push c t

def pushOpener (o : ModuleOpener) : Api σ μ Unit :=
  Api.modify fun w =>
    match o with
    | .native f => w.push c (.builtin f)
    | .host shape id => w.pushFunction c shape id

/-- Removes the slot at a position. -/
def removeAt (pos : Nat) : Api σ μ Unit :=
  Api.modify (·.modifySlots c fun s => s.eraseIdxIfInBounds (pos - 1))

/-- Registers a module, running its opener unless the module is loaded already. Its value is left
on the stack and read. -/
def registerModule (name : Bytes) (opener : ModuleOpener) (publish : Bool) : Act σ μ Value := do
  let base ← Act.api c.top
  Act.api (c.checkStack 5)
  let loaded := (base + 1).toNat
  Act.api c.pushLoaded
  Act.update fun w => w.push c ((w.heap c.vm).rawGet (w.at_ c loaded) (.str name))
  let isLoaded := ((← get).at_ c (base + 2)).truthy
  if !isLoaded then
    Act.api (c.cut loaded)
    Act.api (c.pushOpener opener)
    Act.update (·.push c (.str name))
    match ← ExceptT.lift (c.protectedCall 1 (.fixed 1) loaded) with
    | .error e =>
      Act.api (c.cut base.toNat)
      throw e
    | .ok _ => pure ()
    Act.update fun w =>
      let v := (w.slots c).back?.getD .nil
      w.modifyHeap c.vm fun h => h.rawSet (w.at_ c loaded) (.str name) v
  Act.api (c.removeAt loaded)
  if publish then
    Act.api (c.duplicate (-1))
    Act.api (c.setGlobal name)
  Act.update (·.log .debug "module registered"
    [("fresh", if isLoaded then "false" else "true"), ("module", name.toStringLossy),
     ("publish_global", if publish then "true" else "false")])
  Act.api (c.read (-1))

/-- Opens a standard library and publishes it. -/
def openLib (lib : StdLib) : Act σ μ Unit := do
  let v ← c.registerModule (Bytes.ofString lib.moduleName) (.native lib.opener) true
  Act.update (·.release v)
  Act.api (c.pop 1)

def openLibs : List StdLib → Act σ μ Unit
  | [] => return
  | lib :: libs => do
    c.openLib lib
    openLibs libs

def openStdLibs : Act σ μ Unit := c.openLibs StdLib.all

end Context
end LuaEmbed
