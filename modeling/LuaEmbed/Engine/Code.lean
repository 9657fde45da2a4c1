import LuaEmbed.Engine.Value

/-!
Compiled functions. Code works on the slots of its own frame: the active locals come first, and
operands are pushed above them, so that the place of every operand is known when code is compiled.
-/
namespace LuaEmbed.Engine

/-- How a diagnostic names the source of a value: as a global, a local, a field and so on. -/
structure Origin where
  kind : String
  name : Bytes
  deriving Inhabited

inductive ArithOp where
  | add | sub | mul | mod | pow | div | idiv | band | bor | bxor | shl | shr | neg | bnot
  deriving DecidableEq, Inhabited

namespace ArithOp

/-- The field of a metatable that overrides the operation. -/
def event : ArithOp → String
  | add => "__add" | sub => "__sub" | mul => "__mul" | mod => "__mod" | pow => "__pow"
  | div => "__div" | idiv => "__idiv" | band => "__band" | bor => "__bor" | bxor => "__bxor"
  | shl => "__shl" | shr => "__shr" | neg => "__unm" | bnot => "__bnot"

def isBitwise : ArithOp → Bool
  | band | bor | bxor | shl | shr | bnot => true
  | _ => false

end ArithOp

inductive CompareOp where
  | eq | lt | le
  deriving DecidableEq, Inhabited

def CompareOp.event : CompareOp → String
  | .eq => "__eq" | .lt => "__lt" | .le => "__le"

/-- One step of code. A position is a slot of the frame; `want` is a number of results, or all. -/
inductive Instr where
  | push (v : Val)
  | pushNils (n : Nat)
  | varargs (want : Option Nat)
  | getLocal (slot : Nat)
  | setLocal (slot : Nat)
  | getUpvalue (i : Nat)
  | setUpvalue (i : Nat)
  /-- Replaces an object and a key by the field. -/
  | index (object : Option Origin)
  /-- Pops a value into the field whose object and key stand at a position. -/
  | setIndex (pos : Nat) (object : Option Origin)
  /-- Replaces an object by its method and itself. -/
  | method (name : Bytes) (object : Option Origin)
  | newTable (array hash : Nat)
  /-- Moves the values above a table into it, from an index on. -/
  | setList (pos first : Nat)
  | arith (op : ArithOp) (left right : Option Origin)
  | unary (op : ArithOp) (operand : Option Origin)
  | not
  | length (operand : Option Origin)
  | concat (left right : Option Origin)
  /-- Compares two operands, in the order pushed or the other way round. -/
  | compare (op : CompareOp) (swapped : Bool)
  | jump (target : Nat)
  /-- Pops a value and jumps if it fails a test. -/
  | jumpUnless (target : Nat)
  /-- Jumps and keeps the value if its truth is as stated, and pops it otherwise. -/
  | jumpKeep (truth : Bool) (target : Nat)
  /-- Calls the function at a position with the values above it. -/
  | call (pos : Nat) (want : Option Nat) (callee : Option Origin)
  | tailCall (pos : Nat) (callee : Option Origin)
  /-- Returns the values from a position on. -/
  | ret (pos : Nat)
  | closure (i : Nat)
  /-- Leaves a scope: closes what is to be closed and drops the slots from a position on. -/
  | scope (height : Nat)
  /-- Marks a slot as to be closed. -/
  | toClose (slot : Nat) (name : Bytes)
  /-- Starts a numeric loop whose three control values stand at a position. -/
  | forPrep (pos target : Nat)
  | forLoop (pos target : Nat)
  /-- Calls the iterator at a position. -/
  | forCall (pos vars : Nat)
  | forTest (pos target : Nat)
  /-- Pops a key and a value into the new table at a position. -/
  | store (pos : Nat)
  /-- Reads a local again into an operand that was pushed before other operands were computed. -/
  | reload (slot pos : Nat)
  deriving Inhabited

/-- A variable that a function takes from outside. -/
structure UpvalueDesc where
  name : Bytes
  /-- Whether it is a local of the enclosing function, rather than one of its own upvalues. -/
  fromLocal : Bool
  index : Nat
  deriving Inhabited

/-- The text a function was compiled from, and which function of it it is, counted in the order
in which function bodies open. -/
structure Provenance where
  text : Bytes
  chunk : Bytes
  serial : Nat
  deriving Inhabited

/-- A compiled function. -/
inductive Proto where
  | mk (code : Array Instr) (lines : Array Nat) (protos : Array Proto)
      (upvalues : Array UpvalueDesc) (params : Nat) (isVararg : Bool) (room : Nat)
      (source : Option Bytes) (provenance : Provenance)
  deriving Inhabited

namespace Proto

def code : Proto → Array Instr
  | mk c _ _ _ _ _ _ _ _ => c

/-- The line of each instruction; empty if the function was stripped. -/
def lines : Proto → Array Nat
  | mk _ l _ _ _ _ _ _ _ => l

def protos : Proto → Array Proto
  | mk _ _ p _ _ _ _ _ _ => p

def upvalues : Proto → Array UpvalueDesc
  | mk _ _ _ u _ _ _ _ _ => u

def params : Proto → Nat
  | mk _ _ _ _ n _ _ _ _ => n

def isVararg : Proto → Bool
  | mk _ _ _ _ _ v _ _ _ => v

/-- The most slots the function ever uses. -/
def room : Proto → Nat
  | mk _ _ _ _ _ _ r _ _ => r

def source : Proto → Option Bytes
  | mk _ _ _ _ _ _ _ s _ => s

def provenance : Proto → Provenance
  | mk _ _ _ _ _ _ _ _ p => p

end Proto

/-- How a chunk's name is shown in messages, in at most 59 bytes: a literal name, the end of a
file name, or the first line of the text itself. -/
def chunkId (source : Bytes) : Bytes :=
  match source.data.toList with
  | (61 : UInt8) :: name => Bytes.ofList (name.take 59)
  | (64 : UInt8) :: name =>
    if name.length < 60 then Bytes.ofList name
    else Bytes.ofString "..." ++ Bytes.ofList (name.drop (name.length - 56))
  | text =>
    let line := text.takeWhile (· != 10)
    let body : Bytes :=
      if line.length = text.length && text.length < 45 then Bytes.ofList text
      else Bytes.ofList (line.take 45) ++ Bytes.ofString "..."
    Bytes.ofString "[string \"" ++ body ++ Bytes.ofString "\"]"

end LuaEmbed.Engine
