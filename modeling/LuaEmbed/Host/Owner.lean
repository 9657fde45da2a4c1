import LuaEmbed.Host.Module

/-!
Owning interpreters: how one is made by a configuration, how its owner lets go of it, and how a
fault on one of its stacks reaches the hook.
-/
namespace LuaEmbed

open Engine

/-- Options for a new interpreter. -/
structure Config where
  /-- Whether all standard libraries are opened; if not, those listed are. -/
  openStdLibs : Bool := true
  libs : List StdLib := []
  /-- The name that loaded chunks get. -/
  chunkName : String := "=chunk"
  /-- A fatal hook to install. -/
  hook : Option FatalHook := none

namespace Config

/-- Opens some libraries only. -/
def withLibs (c : Config) (libs : List StdLib) : Config := { c with openStdLibs := false, libs }

def bracketed (items : List String) : String := "[" ++ ", ".intercalate items ++ "]"

def describe (c : Config) : String :=
  let flag (b : Bool) : String := if b then "true" else "false"
  "Config \x7b open_std_libs: " ++ flag c.openStdLibs
    ++ ", libs: " ++ bracketed (c.libs.map StdLib.describe)
    ++ ", chunk_name: " ++ Quoted.quote c.chunkName
    ++ ", fatal_hook: " ++ flag c.hook.isSome ++ " \x7d"

end Config

/-- A new interpreter: a registry with the main thread and the globals, and the record of the
interpreter. -/
def freshVm (number : Nat) : Vm :=
  let (registry, h) := Heap.newTable {} {}
  let (globals, h) := h.newTable {}
  let h := match registry with
    | .table i => { h with registry := i }
    | _ => h
  let h := h.rawSet registry (.int 1) (.thread 0)
  let h := h.rawSet registry (.int 2) globals
  { heap := h.rawSet registry recordKey (record number), threads := #[{}] }

namespace World

variable {σ μ : Type}

/-- The owner lets go of an interpreter, which is freed unless views of it are open. -/
def dropOwner (vm : Nat) : Run σ μ Unit := do
  match (← get).instance? vm with
  | none => return
  | some x =>
    if x.closed then return
    Run.update fun w => (w.modifyInstance vm ({ · with closed := true })).happened (.disowned vm)
    if x.views = 0 then shutDown vm
    else Run.update (·.log .debug "state dropped, close deferred" [("views", toString x.views)])

/-- Makes an interpreter; it is dropped again if a library cannot be opened. -/
def newInstance (config : Config) : Act σ μ Nat := do
  let chunkName ← Act.api (Api.check (chunkName? config.chunkName))
  let vm := (← get).instances.size
  Act.update fun w =>
    { w with
      instances := w.instances.push { vm := freshVm vm, chunkName }
      hook := match config.hook with
        | some h => some h
        | none => w.hook }
  let c : Context := ⟨vm, 0⟩
  match ← ExceptT.lift (c.openLibs (if config.openStdLibs then StdLib.all else config.libs)) with
  | .error e =>
    ExceptT.lift (dropOwner vm)
    throw e
  | .ok () =>
    Act.update (·.log .debug "state created" [("config", config.describe)])
    return vm

/-- Changes what the register of the hook holds; what it held. -/
def exchangeHook (r : HookRegister) (w : World σ μ) : HookRegister × World σ μ :=
  match HookSlot.replace r (.free w.hook) with
  | some (old, s) => (old, { w with hook := s.hook })
  | none => (w.hook, w)

/-- What a fault on a stack says: the text on top of it, if there is one. -/
def faultText (w : World σ μ) (c : Context) : String :=
  match (w.slots c).back? with
  | some (.str s) => s.toStringLossy
  | _ => "error object is not a string"

/-- Reports a fault on a stack. -/
def fault (c : Context) : Api σ μ FaultEnd := fun w =>
  match HookRegister.report (w.faultText c) (.free w.hook) with
  | some ((notices, e), s) => (.ok e, notices.foldl notify { w with hook := s.hook })
  | none => (.ok .blocked, w)

end World
end LuaEmbed
