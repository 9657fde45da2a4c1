import LuaEmbed.Bridge.Panic

/-!
Faults that no protected call catches. They go to the fatal hook, of which there is one for all
interpreters; without one they are logged. The hook in force is kept in a register behind a lock, which a
hook may itself take while it runs.
-/
namespace LuaEmbed

mutual

/-- A receiver of fault messages: its name, and what it does with a message. -/
inductive FatalHook where
  | mk (name : String) (receive : String → HookProgram)

/-- What a hook does of its own, its messages aside. -/
inductive HookProgram where
  /-- It returns or panics. -/
  | done (panic : Option Panic)
  /-- It puts another hook in force, or none, and goes on with the name of the one before. -/
  | exchange (hook : Option FatalHook) (next : Option String → HookProgram)

end

namespace FatalHook

def name : FatalHook → String
  | mk n _ => n

def receive : FatalHook → String → HookProgram
  | mk _ r => r

end FatalHook

/-- The importance of a log record. -/
inductive LogLevel where
  | error | debug | trace
  deriving DecidableEq, Inhabited

def LogLevel.name : LogLevel → String
  | error => "ERROR"
  | debug => "DEBUG"
  | trace => "TRACE"

/-- A log record: its text and named fields. -/
structure LogRecord where
  level : LogLevel
  target : String
  text : String
  fields : List (String × String) := []
  deriving Inhabited

/-- What becomes known outside while the bridge works. -/
inductive Notice where
  | log (r : LogRecord)
  /-- A hook has received a message. -/
  | fault (hook message : String)
  deriving Inhabited

/-- What the register holds: the hook in force. -/
abbrev HookRegister := Option FatalHook

/-- The register with its lock: how many are reading it, and whether someone is changing it. -/
structure HookSlot where
  hook : HookRegister
  readers : Nat := 0
  changing : Bool := false

/-- Work on the register. It has no result if it waits for a lock that nobody else could give back. -/
abbrev Locked := StateT HookSlot Option

namespace HookSlot

/-- Nobody has the lock. -/
def free (r : HookRegister) : HookSlot := { hook := r }

def lockToRead : Locked Unit := fun s =>
  if s.changing then none else some ((), { s with readers := s.readers + 1 })

def endReading : Locked Unit := modify fun s => { s with readers := s.readers - 1 }

def lockToChange : Locked Unit := fun s =>
  if s.changing || s.readers != 0 then none else some ((), { s with changing := true })

def endChanging : Locked Unit := modify fun s => { s with changing := false }

/-- The hook in force. The lock is given back before anything is done with it. -/
def current : Locked HookRegister := do
  lockToRead
  let r := (← get).hook
  endReading
  return r

/-- Puts another content into the register; the one before. -/
def replace (r : HookRegister) : Locked HookRegister := do
  lockToChange
  let old := (← get).hook
  modify ({ · with hook := r })
  endChanging
  return old

end HookSlot

/-- Runs what a hook does, up to its return or its panic. -/
def HookProgram.run : HookProgram → Locked (Option Panic)
  | done p => return p
  | exchange hook next => do
    let old ← HookSlot.replace hook
    (next (old.map FatalHook.name)).run

/-- How the report of a fault ends. -/
inductive FaultEnd where
  | returned
  /-- A panic leaves it. -/
  | unwound (p : Panic)
  /-- It waits for ever. -/
  | blocked

namespace HookRegister

def unheard (message : String) : Notice :=
  .log ⟨.error, "selune::fatal", "unprotected error in interpreter", [("message", message)]⟩

def failed (message : String) : Notice :=
  .log ⟨.error, "selune::fatal", "fatal hook panicked", [("message", message)]⟩

/-- Delivers a message to the hook in force, or logs it: the notices, and how that ends. The hook's panic
is caught and what it carries is dropped, and then the failure is logged. -/
def report (message : String) : Locked (List Notice × FaultEnd) := do
  match ← HookSlot.current with
  | none => return ([unheard message], .returned)
  | some h =>
    let heard := Notice.fault h.name message
    match ← (h.receive message).run with
    | none => return ([heard], .returned)
    | some p =>
      match p.dropping with
      | none => return ([heard, failed message], .returned)
      | some q => return ([heard], .unwound q)

end HookRegister
end LuaEmbed
