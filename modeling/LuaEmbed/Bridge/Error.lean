import LuaEmbed.Text.Quoted
import LuaEmbed.Bridge.TypeTag

/-!
The failures an embedding reports to its host, by cause. Faults outside every protected call are
not among them: they go to the fatal hook.
-/
namespace LuaEmbed

/-- A recoverable failure. -/
inductive Error where
  /-- An index was zero or fell outside the stack. -/
  | index (index depth : Int)
  /-- A chunk did not load. -/
  | compile (text : String)
  /-- A protected call or a resume failed; the text is that of the error value. -/
  | call (text : String)
  /-- A handle no longer describes the value at its position. -/
  | staleHandle (position : Int) (expected found : String)
  /-- A host value cannot be pushed as it is. -/
  | unsupportedValue (text : String)
  /-- The stack could not grow by so many slots. -/
  | stackOverflow (requested : Int)
  /-- A host function's own failure. -/
  | runtime (text : String)
  /-- No interpreter could be created. -/
  | allocation
  deriving DecidableEq, Inhabited

namespace Error

/-- A compile failure; without a description its text says so. -/
def ofDescription (text : Option String) : Error := .compile (text.getD "unknown error")

/-- A slot's description inside a stale-handle failure. -/
def slotText (slot : TypeTag × String) : String := s!"{slot.1.name} `{slot.2}`"

def stale (position : Int) (expected found : TypeTag × String) : Error :=
  .staleHandle position (slotText expected) (slotText found)

def message : Error → String
  | index i d => s!"stack index {i} out of range (depth {d})"
  | compile t => s!"compile error: {t}"
  | call t => t
  | staleHandle p e f => s!"stale handle at position {p}: expected {e}, found {f}"
  | unsupportedValue t => s!"unsupported value: {t}"
  | stackOverflow n => s!"stack overflow (cannot reserve {n} slots)"
  | runtime t => t
  | allocation => "cannot allocate interpreter state"

/-- Whether the caller is at fault rather than the input. -/
def isMisuse : Error → Bool
  | index .. | staleHandle .. => true
  | _ => false

/-- The name of the cause. -/
def kind : Error → String
  | index .. => "Index"
  | compile _ => "Compile"
  | call _ => "Call"
  | staleHandle .. => "StaleHandle"
  | unsupportedValue _ => "UnsupportedValue"
  | stackOverflow _ => "StackOverflow"
  | runtime _ => "Runtime"
  | allocation => "Allocation"

/-- The cause with its data, for diagnostics. -/
def describe (e : Error) : String :=
  match e with
  | index i d => s!"{e.kind} \x7b index: {i}, depth: {d} \x7d"
  | staleHandle p x f =>
    s!"{e.kind} \x7b position: {p}, expected: {Quoted.quote x}, found: {Quoted.quote f} \x7d"
  | stackOverflow n => s!"{e.kind} \x7b requested: {n} \x7d"
  | compile t | call t | unsupportedValue t | runtime t => s!"{e.kind}({Quoted.quote t})"
  | allocation => e.kind

end Error
end LuaEmbed
