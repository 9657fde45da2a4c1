import LuaEmbed.Engine.Compiler
import LuaEmbed.Engine.Heap

/-!
Loading of chunks, as text or in binary form. The binary form of a function carries the text it
came from and says which function of that text it is, behind a header of fixed bytes.
-/
namespace LuaEmbed.Engine

/-- Which kind of failure a load reports. -/
inductive LoadStatus where
  | malformed | memory | runtime
  deriving DecidableEq, Inhabited

structure LoadFailure where
  status : LoadStatus
  message : Bytes
  deriving Inhabited

/-- The text of a syntax fault. -/
def SyntaxFault.render (f : SyntaxFault) (chunk : Bytes) : Bytes :=
  let near : Bytes := match f.near with
    | some n => " near " ++ n
    | none => .empty
  chunkId chunk ++ ":" ++ toString f.line ++ ": " ++ f.message ++ near

namespace Proto

/-- The origin of a value as far as it shows without names of variables. -/
def anonymous (o : Option Origin) : Option Origin :=
  match o with
  | some ⟨"local", _⟩ => none
  | some ⟨"upvalue", _⟩ => some ⟨"upvalue", "?"⟩
  | some ⟨"global", n⟩ => some ⟨"field", n⟩
  | o => o

def stripInstr : Instr → Instr
  | .index o => .index (anonymous o)
  | .setIndex p o => .setIndex p (anonymous o)
  | .method n o => .method n (anonymous o)
  | .arith op l r => .arith op (anonymous l) (anonymous r)
  | .unary op o => .unary op (anonymous o)
  | .length o => .length (anonymous o)
  | .concat l r => .concat (anonymous l) (anonymous r)
  | .call p w o => .call p w (anonymous o)
  | .tailCall p o => .tailCall p (anonymous o)
  | i => i

/-- A function without lines, source and names, down to a depth of nesting. -/
def strip : Nat → Proto → Proto
  | 0, p => p
  | fuel + 1, .mk code _ protos ups params v room _ prov =>
    .mk (code.map stripInstr) #[] (protos.map (strip fuel))
      (ups.map fun u => { u with name := "(no name)" }) params v room none prov

/-- The function of a given number inside another one. -/
def find? (serial : Nat) : Nat → Proto → Option Proto
  | 0, _ => none
  | fuel + 1, p =>
    if p.provenance.serial = serial then some p
    else p.protos.toList.findSome? (find? serial fuel)

end Proto

namespace Chunk

/-- Functions nest less deeply than this. -/
def nesting : Nat := 256

def signature : List UInt8 := [27, 76, 117, 97]

/-- A part of the header and the complaint if it differs. -/
def header : List (List UInt8 × String) :=
  [([76, 117, 97], "not a binary chunk"),
   ([0x54], "version mismatch"),
   ([0], "format mismatch"),
   ([0x19, 0x93, 13, 10, 0x1A, 10], "corrupted chunk"),
   ([4], "Instruction size mismatch"),
   ([8], "lua_Integer size mismatch"),
   ([8], "lua_Number size mismatch"),
   ([0x78, 0x56, 0, 0, 0, 0, 0, 0], "integer format mismatch"),
   ([0, 0, 0, 0, 0, 0x28, 0x77, 0x40], "float format mismatch")]

/-- A number in eight bytes, the lowest first. -/
def word (n : Nat) : List UInt8 := (List.range 8).map fun i => UInt8.ofNat (n / 256 ^ i)

def unword (bs : List UInt8) : Nat := bs.foldr (fun b n => n * 256 + b.toNat) 0

/-- The binary form of a function. -/
def dump (p : Proto) (strip : Bool) : Bytes :=
  let name := p.provenance.chunk.data.toList
  Bytes.ofList (27 :: (header.flatMap (·.1) ++ [UInt8.ofNat p.upvalues.size]
    ++ [if strip || p.source.isNone then 1 else 0] ++ word p.provenance.serial
    ++ word name.length ++ name ++ word p.provenance.text.size ++ p.provenance.text.data.toList))

/-- Reads so many bytes. -/
def take (n : Nat) : StateT (List UInt8) (Except String) (List UInt8) := do
  let bs ← get
  if bs.length < n then throw "truncated chunk"
  set (bs.drop n)
  return bs.take n

/-- Reads the binary form of a function, the first byte aside. -/
def undump : StateT (List UInt8) (Except String) Proto := do
  for (part, complaint) in header do
    if (← take part.length) ≠ part then throw complaint
  discard (take 1)
  let strip := (← take 1) = [1]
  let serial := unword (← take 8)
  let name ← take (unword (← take 8))
  let text ← take (unword (← take 8))
  match compile (Bytes.ofList text) (Bytes.ofList name) 0 with
  | .error _ => throw "truncated chunk"
  | .ok p =>
    match p.find? serial nesting with
    | none => throw "truncated chunk"
    | some p => return if strip then p.strip nesting else p

/-- How complaints about a binary chunk name it. -/
def binaryName (name : Bytes) : Bytes :=
  match name.data.toList with
  | 61 :: rest | 64 :: rest => Bytes.ofList rest
  | 27 :: _ => "binary string"
  | _ => name

/-- Compiles or reads a chunk, if the mode allows its kind. -/
def read (bytes name mode : Bytes) (depth : Nat) : Except LoadFailure Proto :=
  let binary := bytes.data[0]? = some 27
  if !mode.data.contains (if binary then 98 else 116) then
    .error ⟨.malformed, "attempt to load a " ++ (if binary then "binary" else "text")
      ++ " chunk (mode is '" ++ mode ++ "')"⟩
  else if binary then
    match undump.run' (bytes.data.toList.drop 1) with
    | .ok p => .ok p
    | .error why =>
      .error ⟨.malformed, binaryName name ++ ": bad binary format (" ++ why ++ ")"⟩
  else
    match compile bytes name depth with
    | .ok p => .ok p
    | .error (.malformed f) => .error ⟨.malformed, f.render name⟩
    | .error .tooDeep => .error ⟨.runtime, "C stack overflow"⟩

/-- Cells for a function's variables, the first of which holds the globals. -/
def freshCells (h : Heap) : Nat → Val → Array Nat × Heap
  | 0, _ => (#[], h)
  | n + 1, first =>
    let (c, h) := h.newCell first
    let (cs, h) := freshCells h n .nil
    (#[c] ++ cs, h)

def memoryMessage : Bytes := "not enough memory"

/-- Loads a chunk as a function. -/
def load (bytes name mode : Bytes) (depth : Nat) (h : Heap) : Except LoadFailure (Val × Heap) := do
  if h.starved then throw ⟨.memory, memoryMessage⟩
  let p ← read bytes name mode depth
  let (cells, h) := freshCells h p.upvalues.size h.globals
  return h.newClosure (.script p cells)

end Chunk
end LuaEmbed.Engine
