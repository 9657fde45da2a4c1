import LuaEmbed.Engine.Code
import LuaEmbed.Engine.Table

/-!
The objects of one interpreter: tables, closures, shared variables and userdata, each in a pool
of its own. A place in a pool is never given out twice, so an object's number is its identity.
-/
namespace LuaEmbed.Engine

/-- Objects by number; a freed place stays empty. -/
structure Pool (α : Type) where
  items : Array (Option α) := #[]
  deriving Inhabited

namespace Pool

variable {α : Type}

def get? (p : Pool α) (i : Nat) : Option α := (p.items[i]?).join

def set (p : Pool α) (i : Nat) (a : α) : Pool α := ⟨p.items.setIfInBounds i (some a)⟩

/-- Changes an object in place. -/
def modify (p : Pool α) (i : Nat) (f : α → α) : Pool α := ⟨p.items.modify i (Option.map f)⟩

def next (p : Pool α) : Nat := p.items.size

def push (p : Pool α) (a : α) : Pool α := ⟨p.items.push (some a)⟩

/-- Frees one object. -/
def erase (p : Pool α) (i : Nat) : Pool α := ⟨p.items.setIfInBounds i none⟩

/-- Frees the objects that are not kept. -/
def sweep (p : Pool α) (keep : Nat → Bool) : Pool α :=
  ⟨p.items.mapIdx fun i a => if keep i then a else none⟩

end Pool

/-- A function with captured variables or values. -/
inductive Closure where
  | script (proto : Proto) (cells : Array Nat)
  | native (f : Builtin) (upvalues : Array Val)
  deriving Inhabited

/-- What a userdata carries. A host object is gone once it has been finalized. -/
inductive Payload where
  | blob
  | file
  | function (isList : Bool) (id : Option Nat)
  | foreign (id : Option Nat)
  deriving DecidableEq, Inhabited

structure Userdata where
  payload : Payload
  size : Nat
  metatable : Option Nat := none
  deriving Inhabited

/-- Metatables shared by all values of a type. -/
structure TypeMetatables where
  nil : Option Nat := none
  boolean : Option Nat := none
  number : Option Nat := none
  string : Option Nat := none
  function : Option Nat := none
  thread : Option Nat := none
  light : Option Nat := none

structure Heap where
  tables : Pool Table := {}
  closures : Pool Closure := {}
  cells : Pool Val := {}
  userdata : Pool Userdata := {}
  types : TypeMetatables := {}
  registry : Nat := 0
  /-- Objects with a finalizer, latest first. -/
  finalizable : List Val := []
  /-- Whether allocation fails. -/
  starved : Bool := false
  /-- Whether the collector has been stopped; scripts can still have it run. -/
  halted : Bool := false
  /-- Whether a finalizer is running or the interpreter is closing. -/
  collecting : Bool := false
  closing : Bool := false
  deriving Inhabited

namespace Heap

variable (h : Heap)

def table (i : Nat) : Table := (h.tables.get? i).getD {}

def setTable (i : Nat) (t : Table) : Heap := { h with tables := h.tables.set i t }

def modifyTable (i : Nat) (f : Table → Table) : Heap :=
  { h with tables := h.tables.modify i f }

/-- A new table. -/
def newTable (t : Table) : Val × Heap :=
  (.table h.tables.next, { h with tables := h.tables.push t })

def newClosure (c : Closure) : Val × Heap :=
  (.closure h.closures.next, { h with closures := h.closures.push c })

def newUserdata (u : Userdata) : Val × Heap :=
  (.userdata h.userdata.next, { h with userdata := h.userdata.push u })

def newCell (v : Val) : Nat × Heap := (h.cells.next, { h with cells := h.cells.push v })

def cell (i : Nat) : Val := (h.cells.get? i).getD .nil

def setCell (i : Nat) (v : Val) : Heap := { h with cells := h.cells.set i v }

/-- The metatable of a value. -/
def metatable? (v : Val) : Option Nat :=
  match v with
  | .table i => (h.tables.get? i).bind (·.metatable)
  | .userdata i => (h.userdata.get? i).bind (·.metatable)
  | .nil => h.types.nil
  | .bool _ => h.types.boolean
  | .int _ | .float _ => h.types.number
  | .str _ => h.types.string
  | .builtin _ | .closure _ => h.types.function
  | .thread _ => h.types.thread
  | .light _ => h.types.light

/-- A field of a value's metatable; nil if there is none. -/
def metafield (v : Val) (event : String) : Val :=
  match h.metatable? v with
  | some m => (h.table m).getText event
  | none => .nil

/-- Gives a value, or all values of its type, a metatable. An object whose metatable has a
finalizer at this moment will be finalized. -/
def setMetatable (v : Val) (m : Option Nat) : Heap :=
  let types := h.types
  let h' : Heap :=
    match v with
    | .table i => { h with tables := h.tables.modify i ({ · with metatable := m }) }
    | .userdata i => { h with userdata := h.userdata.modify i ({ · with metatable := m }) }
    | .nil => { h with types := { types with nil := m } }
    | .bool _ => { h with types := { types with boolean := m } }
    | .int _ | .float _ => { h with types := { types with number := m } }
    | .str _ => { h with types := { types with string := m } }
    | .builtin _ | .closure _ => { h with types := { types with function := m } }
    | .thread _ => { h with types := { types with thread := m } }
    | .light _ => { h with types := { types with light := m } }
  match v with
  | .table _ | .userdata _ =>
    if (h'.metafield v "__gc").isNil || h'.closing || h'.finalizable.contains v then h'
    else { h' with finalizable := v :: h'.finalizable }
  | _ => h'

/-- The value of a table's field, metamethods aside. -/
def rawGet (t k : Val) : Val :=
  match t with
  | .table i => (h.table i).get k
  | _ => .nil

def rawSet (t k v : Val) : Heap :=
  match t with
  | .table i => h.modifyTable i (·.set k v)
  | _ => h

def rawSetText (t : Val) (k : String) (v : Val) : Heap := h.rawSet t (.text k) v

def closure? (v : Val) : Option Closure :=
  match v with
  | .closure i => h.closures.get? i
  | _ => none

def registryTable : Val := .table h.registry

/-- The table of global variables. -/
def globals : Val := h.rawGet h.registryTable (.int 2)

/-- A subtable of a table, made if it is missing. -/
def subtable (t : Val) (k : String) : Val × Heap :=
  match h.rawGet t (.text k) with
  | .table i => (.table i, h)
  | _ =>
    let (s, h) := h.newTable {}
    (s, h.rawSetText t k s)

/-- The metatable registered under a name, and whether it is new. -/
def namedMetatable (name : String) : Val × Bool × Heap :=
  match h.rawGet h.registryTable (.text name) with
  | .nil =>
    let (m, h) := h.newTable {}
    let h := h.rawSetText m "__name" (.text name)
    (m, true, h.rawSetText h.registryTable name m)
  | m => (m, false, h)

/-- Primitive length: bytes of a text, a border of a table, size of a userdata. -/
def rawLength (v : Val) : Nat :=
  match v with
  | .str s => s.size
  | .table i => (h.table i).length
  | .userdata i => ((h.userdata.get? i).map (·.size)).getD 0
  | _ => 0

end Heap

/-- The type name in messages about arguments: the declared one, if it is a text. -/
def declaredTypeName (h : Heap) (v : Val) : Bytes :=
  match h.metafield v "__name" with
  | .str s => s
  | _ =>
    match v with
    | .light _ => "light userdata"
    | _ => Bytes.ofString v.typeName

/-- The type name in messages about operations: the declared one of a table or full userdata. -/
def operandTypeName (h : Heap) (v : Val) : Bytes :=
  match v with
  | .table _ | .userdata _ =>
    match h.metafield v "__name" with
    | .str s => s
    | _ => Bytes.ofString v.typeName
  | _ => Bytes.ofString v.typeName

/-- How an object's address is shown. -/
def addressText (v : Val) : String := "0x" ++ String.ofList (Nat.toDigits 16 v.address)

end LuaEmbed.Engine
