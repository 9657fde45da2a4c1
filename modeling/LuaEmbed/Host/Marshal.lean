import LuaEmbed.Host.Stack

/-!
Moving values between the host and a stack: pushing, reading, handles and their validation,
globals, and moving values from one stack to another.
-/
namespace LuaEmbed

open Engine

/-- The registry key of an interpreter's record, and the record's address. -/
def recordKey : Val := .light 0x7F00000000

def record (vm : Nat) : Val := .light (0x7F10000000 + 0x100 * vm)

namespace World

variable {σ μ : Type} (w : World σ μ) (c : Context)

/-- The printed form of a value that stays inside: its type and address, or the name that a
userdata declares. No metamethod runs. -/
def displayName (v : Val) : String :=
  let kind :=
    match v with
    | .userdata _ =>
      match (w.heap c.vm).metafield v "__name" with
      | .str s => s.toStringLossy
      | _ => v.tag.name
    | _ => v.tag.name
  kind ++ ": " ++ addressText v

/-- A slot as handles describe it. -/
def describe (v : Val) : TypeTag × String :=
  match v.tag with
  | .table | .function | .userdata | .lightUserdata | .thread => (v.tag, w.displayName c v)
  | t => (t, t.name)

/-- The text of an error value. -/
def errorText (v : Val) : String :=
  match v with
  | .str s => s.toStringLossy
  | .int _ | .float _ => (v.toText?.getD .empty).toStringLossy
  | .nil => "nil"
  | .bool b => if b then "true" else "false"
  | _ => s!"(error object is a {v.tag.name} value: {w.displayName c v})"

/-- Pops an error value; its text. Describing an object takes room, granted or not. -/
def popErrorText : String × World σ μ :=
  match (w.slots c).back? with
  | none => ("no error value", w)
  | some v =>
    let w :=
      match v with
      | .str _ | .int _ | .float _ | .nil | .bool _ => w
      | _ => (w.reserve c 2).2
    (w.errorText c v, w.modifySlots c (·.pop))

/-- A new userdata that carries a host object, under the metatable of a name. -/
def carrier (h : Heap) (p : Payload) (meta_ : String) (collector : Builtin) : Val × Heap :=
  let (m, isNew, h) := h.namedMetatable meta_
  let h :=
    if isNew then
      (h.rawSetText m "__gc" (.builtin collector)).rawSetText m "__metatable" (.bool false)
    else h
  let (u, h) := h.newUserdata ⟨p, 16, none⟩
  match m with
  | .table i => (u, h.setMetatable u (some i))
  | _ => (u, h)

/-- Makes a userdata that carries a host object, under the metatable of a name. -/
def pushUserdata (p : Payload) (meta_ : String) (collector : Builtin) : Val × World σ μ :=
  w.onVm c.vm fun vm =>
    let (u, h) := carrier vm.heap p meta_ collector
    ({ vm with heap := h }, u)

def rawMeta : String := "selune.raw_function"

def listMeta : String := "selune.list_function"

def foreignMeta : String := "selune.foreign"

/-- The native function through which scripts call a host function. -/
def entry : FunctionShape → Builtin
  | .raw => .callRaw
  | .list => .callList

/-- A host function as a native closure that carries it. -/
def closureOf (shape : FunctionShape) (id : Nat) : Val × World σ μ :=
  let w := w.retain (.function shape id)
  let (u, w) :=
    match shape with
    | .raw => w.pushUserdata c (.function false (some id)) rawMeta .collectRaw
    | .list => w.pushUserdata c (.function true (some id)) listMeta .collectList
  w.onVm c.vm fun vm =>
    let (f, h) := vm.heap.newClosure (.native (entry shape) #[u])
    ({ vm with heap := h }, f)

def pushFunction (shape : FunctionShape) (id : Nat) : World σ μ :=
  let (f, w) := w.closureOf c shape id
  w.push c f

/-- Pushes a userdata that refers to a foreign object. -/
def pushForeign (id : Nat) : World σ μ :=
  let w := w.retain (.foreign id)
  let (u, w) := w.pushUserdata c (.foreign (some id)) foreignMeta .collectForeign
  w.push c u

/-- The foreign object that a value carries, if it has not been finalized. -/
def foreignOf? (v : Val) : Option Nat :=
  let h := w.heap c.vm
  match v with
  | .userdata u =>
    match h.userdata.get? u, h.rawGet h.registryTable (.text foreignMeta) with
    | some ⟨.foreign id, _, m⟩, .table i => if m = some i then id else none
    | _, _ => none
  | _ => none

end World

namespace Context

variable {σ μ : Type} (c : Context)

/-- The complaint about an interpreter that has no record of itself. -/
def unrecorded : Error := .unsupportedValue "interpreter was not created by this bridge"

/-- The interpreter that a stack belongs to, as its registry has it. -/
def shared : Api σ μ Nat := do
  c.checkStack 1
  match (← get).heap c.vm |>.rawGet ((← get).heap c.vm).registryTable recordKey with
  | .light p => if p = 0 then throw unrecorded else return (p - 0x7F10000000) / 0x100
  | _ => throw unrecorded

/-- Whether two stacks belong to the same interpreter. A stack whose interpreter cannot be told is
not the same as any. -/
def sameVm (other : Context) : Api σ μ Bool := fun w =>
  match c.shared w with
  | (.ok a, w) =>
    match other.shared w with
    | (.ok b, w) => (.ok (a = b), w)
    | (.error _, w) => (.ok false, w)
  | (.error _, w) => (.ok false, (other.shared w).2)

/-- Keeps the thread at a position alive and gives a handle to it. -/
def capture (pos : Int) : Api σ μ ThreadHandle := do
  let vm ← c.shared
  c.checkStack 1
  match (← get).at_ c pos with
  | .thread t => fun w =>
    let (h, w) := w.anchor ⟨vm, t⟩
    (.ok h, w)
  | _ => throw (.unsupportedValue "slot does not hold a thread")

/-- Reads a slot. -/
def read (index : Int) : Api σ μ Value := do
  let pos ← c.resolve index
  c.checkStack 2
  let w ← get
  match w.at_ c pos with
  | .nil => return .nil
  | .bool b => return .bool b
  | .int i => return .int i
  | .float x => return .float x
  | .str s => return .text s
  | .thread _ => return .thread (← c.capture pos)
  | v => return .handle ⟨v.tag, w.displayName c v, pos, c⟩

/-- Reads slots one after the other, the lowest first; what was read is let go of if one of them
cannot be read. -/
def readFrom (pos : Int) : Nat → List Value → Api σ μ (List Value)
  | 0, acc => return acc.reverse
  | n + 1, acc => fun w =>
    match c.read pos w with
    | (.ok v, w) => readFrom (pos + 1) n (v :: acc) w
    | (.error e, w) => (.error e, w.releaseAll acc)

/-- Reads a number of slots from an index on, or those on top. -/
def readBatch (count : Int) (start : Option Int) : Api σ μ (List Value) := do
  if count = 0 then return []
  let first ← Api.check (Index.resolveWindow count start (← c.top))
  c.readFrom first count.toNat []

/-- Reads and pops the topmost slots, in the order they were pushed. -/
def popValues (count : Int) : Api σ μ (List Value) := do
  let vs ← c.readBatch count none
  c.pop count
  return vs

/-- Checks that a handle still describes its slot. -/
def validate (h : Handle) : Api σ μ Unit := do
  if 1 ≤ h.position ∧ h.position ≤ (← c.top) then
    c.checkStack 2
    let w ← get
    Api.check (h.check c (some (w.describe c (w.at_ c h.position))))
  else Api.check (h.check c none)

/-- Whether a thread belongs to the interpreter of a stack. -/
def owns (h : ThreadHandle) : Api σ μ Bool := do
  match (← get).instance? h.thread.vm with
  | some x => if x.closed then return false else return (← c.shared) = h.thread.vm
  | none => return false

/-- Pushes a thread, by way of its own stack if it is another one. -/
def pushThread (h : ThreadHandle) : Api σ μ Unit := do
  if !(← c.owns h) then
    throw (.unsupportedValue "thread handle belongs to a different VM instance")
  if h.thread ≠ c then Context.checkStack h.thread 1
  Api.modify (·.push c (.thread h.thread.thread))

/-- Pushes a value. -/
def push (v : Value) : Api σ μ Unit := do
  c.checkStack 3
  match v with
  | .nil => Api.modify (·.push c .nil)
  | .bool b => Api.modify (·.push c (.bool b))
  | .int i => Api.modify (·.push c (.int i))
  | .float x => Api.modify (·.push c (.float x))
  | .text s => Api.modify (·.push c (.str s))
  | .function shape id => Api.modify (·.pushFunction c shape id)
  | .thread h => c.pushThread h
  | .handle h => do
    c.validate h
    Api.modify fun w => w.push c (w.at_ c h.position)
  | .foreign id => Api.modify (·.pushForeign c id)

/-- Pushes values in order, up to the first that cannot be pushed. -/
def pushEach : List Value → Api σ μ Unit
  | [] => return
  | v :: vs => do
    c.push v
    pushEach vs

def pushAll (vs : List Value) : Api σ μ Unit := do
  c.checkStackFor vs.length
  c.pushEach vs

/-- The foreign object in a slot, if there is one that has not been finalized. -/
def readForeign (index : Int) : Api σ μ (Option Value) := do
  let pos ← c.resolve index
  c.checkStack 2
  fun w =>
    match w.foreignOf? c (w.at_ c pos) with
    | some id => (.ok (some (.foreign id)), w.retain (.foreign id))
    | none => (.ok none, w)

/-- Pushes a global variable, metamethods aside, and reads it. -/
def getGlobal (name : Bytes) : Api σ μ Value := do
  c.checkStack 3
  Api.modify fun w =>
    let h := w.heap c.vm
    w.push c (h.rawGet h.globals (.str name))
  c.read (-1)

/-- Pops the top value into a global variable, metamethods aside. -/
def setGlobal (name : Bytes) : Api σ μ Unit := do
  let pos ← c.resolve (-1)
  c.checkStack 3
  Api.modify fun w =>
    let v := w.at_ c pos
    (w.modifyHeap c.vm fun h => h.rawSet h.globals (.str name) v).modifySlots c (·.pop)

/-- Moves the topmost values onto another stack of the same interpreter. -/
def transfer (target : Context) (count : Int) : Api σ μ Unit := do
  if count = 0 then return
  let depth ← c.top
  discard (Api.check (Index.resolveWindow count none depth))
  if !(← c.sameVm target) then
    throw (.unsupportedValue "cannot move values between independent VM instances")
  if c = target then return
  target.checkStack count
  Api.modify fun w =>
    let moved := (w.slots c).toList.drop (depth - count).toNat
    (w.truncate c (depth - count).toNat).modifySlots target (· ++ moved.toArray)

end Context
end LuaEmbed
