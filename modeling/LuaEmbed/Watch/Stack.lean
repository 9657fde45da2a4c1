import LuaEmbed.Host.Program

/-!
Operations call by call. What an operation asks of the interpreter is a sequence of calls: some reserve
room on a stack, some put something on it and some take something off again, and between the two a slot
is taken that the operation as a whole does not show. Here the calls are watched: each one that puts
something on a stack needs room that has been reserved there, and no refusal may stand in between.
-/
namespace LuaEmbed

open Engine

variable {σ μ α : Type}

/-- A world, and how what was asked of its interpreters on the way there went. -/
structure Watch (σ μ : Type) where
  world : World σ μ
  /-- The stacks on which the latest reservation was refused. -/
  refused : List Context := []
  /-- Whether something was put on a stack without room for it. -/
  overrun : Bool := false
  /-- Whether a refusal was passed over. -/
  unheeded : Bool := false

/-- An operation as a sequence of calls that are watched. -/
abbrev Watched (σ μ α : Type) := ExceptT Error (StateM (Watch σ μ)) α

namespace Watch

/-- There is room reserved on a stack for so many more slots, and no refusal since. Where the
interpreter has been closed there is no stack any more. -/
def Covers (x : Watch σ μ) (c : Context) (n : Nat) : Prop :=
  c ∉ x.refused ∧
    (.closed c.vm ∉ x.world.history → ∀ t ∈ x.world.thread? c, t.used + n ≤ t.top.limit)

instance (x : Watch σ μ) (c : Context) (n : Nat) : Decidable (x.Covers c n) :=
  inferInstanceAs (Decidable (_ ∧ (_ → _)))

end Watch

/-- The name that a userdata declares, of whatever type. -/
def World.declaredName? (w : World σ μ) (c : Context) : Val → Option Val
  | .userdata u =>
    match (w.heap c.vm).metafield (.userdata u) "__name" with
    | .nil => none
    | name => some name
  | _ => none

namespace Watched

/-! ### Calls -/

/-- A call that puts nothing on a stack. -/
def plain (a : Api σ μ α) : Watched σ μ α := fun x =>
  let (r, w) := a x.world
  (r, { x with world := w })

def world : Watched σ μ (World σ μ) := plain MonadState.get

def change (f : World σ μ → World σ μ) : Watched σ μ Unit := plain (Api.modify f)

/-- Asks for room; whether it is granted. -/
def ask (c : Context) (n : Nat) : Watched σ μ Bool := fun x =>
  let (granted, w) := x.world.reserve c n
  (.ok granted,
    { x with world := w, refused := if granted then x.refused.filter (· ≠ c) else c :: x.refused })

/-- Asks for room and fails if it is refused. -/
def require (c : Context) (n : Int) : Watched σ μ Unit := do
  if n ≤ 0 then return
  if !(← ask c n.toNat) then throw (.stackOverflow n)

/-- Asks for room and passes over a refusal. -/
def presume (c : Context) (n : Nat) : Watched σ μ Unit := do
  if !(← ask c n) then modify ({ · with unheeded := true })

/-- A call that leaves so many slots more on a stack. -/
def grow (c : Context) (n : Nat) (a : Api σ μ α) : Watched σ μ α := fun x =>
  plain a { x with overrun := x.overrun || !decide (x.Covers c n) }

/-- A call that puts a value on a stack. -/
def put (c : Context) (v : Val) : Watched σ μ Unit := grow c 1 (Api.modify (·.push c v))

/-- A call that takes so many values off. -/
def drop (c : Context) (n : Nat) : Watched σ μ Unit :=
  change (·.modifySlots c fun s => s.shrink (s.size - n))

/-- Calls made while a value stands on top of a stack, which is then taken off again. -/
def beneath (c : Context) (v : Val) (a : Watched σ μ Unit) : Watched σ μ Unit := do
  put c v
  a
  drop c 1

/-- A value is put on a stack, looked at there and taken off again. -/
def glance (c : Context) (v : Val) : Watched σ μ Unit := beneath c v (return)

/-! ### Looking at a stack -/

section

variable (c : Context)

/-- The interpreter of a stack: its record is fetched from the registry and looked at. -/
def shared : Watched σ μ Nat := do
  require c 1
  let w ← world
  let found := (w.heap c.vm).rawGet (w.heap c.vm).registryTable recordKey
  glance c found
  match found with
  | .light p => if p = 0 then throw Context.unrecorded else return (p - 0x7F10000000) / 0x100
  | _ => throw Context.unrecorded

/-- How something went. -/
def outcome (a : Watched σ μ α) : Watched σ μ (Except Error α) := fun x =>
  let (r, y) := a x
  (.ok r, y)

def sameVm (other : Context) : Watched σ μ Bool := do
  match ← outcome (shared c), ← outcome (shared other) with
  | .ok a, .ok b => return a = b
  | _, _ => return false

/-- A copy of the thread is taken into the registry. -/
def capture (pos : Int) : Watched σ μ ThreadHandle := do
  let vm ← shared c
  require c 1
  match (← world).at_ c pos with
  | .thread t => do
    glance c (.thread t)
    plain fun w =>
      let (h, w) := w.anchor ⟨vm, t⟩
      (.ok h, w)
  | _ => throw (.unsupportedValue "slot does not hold a thread")

/-- For the printed form of a value, the name that it declares is fetched. -/
def fetchName (v : Val) : Watched σ μ Unit := do
  match (← world).declaredName? c v with
  | some name => glance c name
  | none => return

def read (index : Int) : Watched σ μ Value := do
  let pos ← plain (c.resolve index)
  require c 2
  let w ← world
  match w.at_ c pos with
  | .nil => return .nil
  | .bool b => return .bool b
  | .int i => return .int i
  | .float x => return .float x
  | .str s => return .text s
  | .thread _ => return .thread (← capture c pos)
  | v => do
    fetchName c v
    return .handle ⟨v.tag, w.displayName c v, pos, c⟩

def readFrom (pos : Int) : Nat → List Value → Watched σ μ (List Value)
  | 0, acc => return acc.reverse
  | n + 1, acc => fun x =>
    match read c pos x with
    | (.ok v, x) => readFrom (pos + 1) n (v :: acc) x
    | (.error e, x) => (.error e, { x with world := x.world.releaseAll acc })

def readBatch (count : Int) (start : Option Int) : Watched σ μ (List Value) := do
  if count = 0 then return []
  let first ← plain (Api.check (Index.resolveWindow count start (← plain c.top)))
  readFrom c first count.toNat []

def validate (h : Handle) : Watched σ μ Unit := do
  if 1 ≤ h.position ∧ h.position ≤ (← plain c.top) then
    require c 2
    let w ← world
    fetchName c (w.at_ c h.position)
    plain (Api.check (h.check c (some (w.describe c (w.at_ c h.position)))))
  else plain (Api.check (h.check c none))

def owns (h : ThreadHandle) : Watched σ μ Bool := do
  match (← world).instance? h.thread.vm with
  | some x => if x.closed then return false else return (← shared c) = h.thread.vm
  | none => return false

end

/-! ### Putting values on a stack -/

section

variable (c : Context)

/-- A userdata is put on the stack and then its metatable, which is given its fields if it is new. -/
def pushUserdata (p : Payload) (meta_ : String) (collector : Builtin) : Watched σ μ Val := do
  let (m, isNew, _) := ((← world).heap c.vm).namedMetatable meta_
  let u ← grow c 1 fun w =>
    let (u, w) := w.pushUserdata c p meta_ collector
    (.ok u, w.push c u)
  beneath c m do
    if isNew then
      glance c (.builtin collector)
      glance c (.bool false)
  return u

/-- A native closure takes the place of the userdata that it carries. -/
def enclose (shape : FunctionShape) (u : Val) : Watched σ μ Unit :=
  change fun w =>
    let (f, w) := (w.modifySlots c fun s => s.shrink (s.size - 1)).onVm c.vm fun vm =>
      let (f, h) := vm.heap.newClosure (.native (World.entry shape) #[u])
      ({ vm with heap := h }, f)
    w.push c f

def pushFunction (shape : FunctionShape) (id : Nat) : Watched σ μ Unit := do
  change (·.retain (.function shape id))
  let u ←
    match shape with
    | .raw => pushUserdata c (.function false (some id)) World.rawMeta .collectRaw
    | .list => pushUserdata c (.function true (some id)) World.listMeta .collectList
  enclose c shape u

def pushForeign (id : Nat) : Watched σ μ Unit := do
  change (·.retain (.foreign id))
  let _ ← pushUserdata c (.foreign (some id)) World.foreignMeta .collectForeign

/-- A thread that is not the stack's own comes by way of its own stack. -/
def pushThread (h : ThreadHandle) : Watched σ μ Unit := do
  if !(← owns c h) then
    throw (.unsupportedValue "thread handle belongs to a different VM instance")
  if h.thread ≠ c then
    require h.thread 1
    glance h.thread (.thread h.thread.thread)
  put c (.thread h.thread.thread)

def push (v : Value) : Watched σ μ Unit := do
  require c 3
  match v with
  | .nil => put c .nil
  | .bool b => put c (.bool b)
  | .int i => put c (.int i)
  | .float x => put c (.float x)
  | .text s => put c (.str s)
  | .function shape id => pushFunction c shape id
  | .thread h => pushThread c h
  | .handle h => do
    validate c h
    let w ← world
    put c (w.at_ c h.position)
  | .foreign id => pushForeign c id

def pushEach : List Value → Watched σ μ Unit
  | [] => return
  | v :: vs => do
    push c v
    pushEach vs

def requireFor (count : Nat) : Watched σ μ Unit := do
  if Word32.greatest < count then throw (.stackOverflow Word32.greatest)
  require c count

def pushAll (vs : List Value) : Watched σ μ Unit := do
  requireFor c vs.length
  pushEach c vs

/-! ### Other operations -/

def setTop (n : Int) : Watched σ μ Unit := do
  let target ← if n < 0 then plain (c.resolve n) else pure n
  let depth ← plain c.top
  if depth < target then
    require c (target - depth)
    grow c (target - depth).toNat (c.cut target.toNat)
  else plain (c.cut target.toNat)

def duplicate (index : Int) : Watched σ μ Unit := do
  let pos ← plain (c.resolve index)
  require c 1
  let w ← world
  put c (w.at_ c pos)

def popValues (count : Int) : Watched σ μ (List Value) := do
  let vs ← readBatch c count none
  plain (c.pop count)
  return vs

/-- The metatable is compared within a call. -/
def readForeign (index : Int) : Watched σ μ (Option Value) := do
  let pos ← plain (c.resolve index)
  require c 2
  plain fun w =>
    match w.foreignOf? c (w.at_ c pos) with
    | some id => (.ok (some (.foreign id)), w.retain (.foreign id))
    | none => (.ok none, w)

/-- A value takes the place of so many on top. -/
def supplant (n : Nat) (v : Val) : Watched σ μ Unit :=
  change (·.modifySlots c fun s => (s.shrink (s.size - n)).push v)

/-- The globals are put on the stack and then the name, whose place the value takes, and then that of
both. -/
def getGlobal (name : Bytes) : Watched σ μ Value := do
  require c 3
  let w ← world
  let v := (w.heap c.vm).rawGet (w.heap c.vm).globals (.str name)
  put c (w.heap c.vm).globals
  put c (.str name)
  supplant c 1 v
  supplant c 2 v
  read c (-1)

/-- The globals are put on the stack, then the name and the value, which are stored and taken off. -/
def setGlobal (name : Bytes) : Watched σ μ Unit := do
  let pos ← plain (c.resolve (-1))
  require c 3
  let w ← world
  let v := w.at_ c pos
  put c (w.heap c.vm).globals
  put c (.str name)
  put c v
  change (·.modifyHeap c.vm fun h => h.rawSet h.globals (.str name) v)
  drop c 2
  drop c 2

def transfer (target : Context) (count : Int) : Watched σ μ Unit := do
  if count = 0 then return
  let depth ← plain c.top
  let _ ← plain (Api.check (Index.resolveWindow count none depth))
  if !(← sameVm c target) then
    throw (.unsupportedValue "cannot move values between independent VM instances")
  if c = target then return
  require target count
  grow target count.toNat (Api.modify fun w =>
    let moved := (w.slots c).toList.drop (depth - count).toNat
    (w.truncate c (depth - count).toNat).modifySlots target (· ++ moved.toArray))

def tryLoadWith (chunk name : Bytes) (mode : LoadMode) : Watched σ μ LoadOutcome := do
  require c 1
  grow c 1 fun w =>
    let depth := (w.thread c).top.depth
    let (r, w) := w.onVm c.vm fun vm =>
      match Chunk.load chunk name mode.letters depth vm.heap with
      | .ok (f, h) => ({ vm with heap := h }, (LoadOutcome.ok, f))
      | .error e => (vm, (.ofStatus e.status, .str e.message))
    (.ok r.1, w.push c r.2)

def configuredName : Watched σ μ Bytes := do
  let vm ← shared c
  return (((← world).instance? vm).map (·.chunkName)).getD .empty

def tryLoad (chunk : Bytes) : Watched σ μ LoadOutcome := do
  let name ← configuredName c
  tryLoadWith c chunk name .any

/-- Describing an object takes room; whether it was granted is not looked at. -/
def popErrorText : Watched σ μ String := do
  let w ← world
  match (w.slots c).back? with
  | none => return "no error value"
  | some v => do
    match v with
    | .str _ | .int _ | .float _ | .nil | .bool _ => pure ()
    | v => do
      presume c 2
      fetchName c v
    let w ← world
    let text := w.errorText c v
    drop c 1
    return text

def loadWith (chunk name : Bytes) (mode : LoadMode) : Watched σ μ Unit := do
  let base ← plain c.top
  if (← tryLoadWith c chunk name mode) = .ok then return
  let described := (← plain c.top) = base + 1 ∧ (← plain (c.typeOf (-1))) = .string
  let text ←
    if described then do
      let t ← popErrorText c
      pure (some t)
    else pure none
  plain (c.cut base.toNat)
  let e := Error.ofDescription text
  change (·.log .debug "chunk failed to load" [("error", e.message)])
  throw e

def load (chunk : Bytes) : Watched σ μ Unit := do
  let name ← configuredName c
  loadWith c chunk name .any

def loadNamed (chunk : Bytes) (name : String) (mode : LoadMode) : Watched σ μ Unit := do
  let name ← plain (Api.check (chunkName? name))
  loadWith c chunk name mode

/-- A thread is put on the stack and taken off again when it has been captured. -/
def captureTop (v : World σ μ → Val × World σ μ) : Watched σ μ ThreadHandle := do
  require c 2
  grow c 1 (Api.modify fun w =>
    let (t, w) := v w
    w.push c t)
  let top ← plain c.top
  let h ← outcome (capture c top)
  change (·.truncate c (top - 1).toNat)
  ExceptT.mk (return h)

def newThread : Watched σ μ ThreadHandle :=
  captureTop c fun w =>
    w.onVm c.vm fun vm =>
      ({ vm with threads := vm.threads.push (.new #[]) }, .thread vm.threads.size)

def currentThread : Watched σ μ ThreadHandle := captureTop c fun w => (.thread c.thread, w)

end

/-- What an operation does, call by call. -/
def onStack (c : Context) : StackOp α → Watched σ μ α
  | .setTop n => setTop c n
  | .checkStack n => require c n
  | .duplicate i => duplicate c i
  | .push v => push c v
  | .pushAll vs => pushAll c vs
  | .read i => read c i
  | .readBatch n s => readBatch c n s
  | .popValues n => popValues c n
  | .validate h => validate c h
  | .readForeign i => readForeign c i
  | .getGlobal n => getGlobal c n
  | .setGlobal n => setGlobal c n
  | .transfer t n => transfer c t n
  | .sameVm o => sameVm c o
  | .load s => load c s
  | .loadNamed s n m => loadNamed c s n m
  | .tryLoad s => tryLoad c s
  | .newThread => newThread c
  | .currentThread => currentThread c
  | .belongs h => owns c h
  -- The others put nothing on a stack.
  | .top => plain c.top
  | .resolve i => plain (c.resolve i)
  | .pop n => plain (c.pop n)
  | .remove i => plain (c.remove i)
  | .replace i => plain (c.replace i)
  | .rotate i n => plain (c.rotate i n)
  | .copy i j => plain (c.copy i j)
  | .typeOf i => plain (c.typeOf i)
  | .rawLen i => plain (c.rawLen i)
  | .status h => plain (h.status c)
  | .fault => plain (World.fault c)

end Watched
end LuaEmbed
