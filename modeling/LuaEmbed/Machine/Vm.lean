import LuaEmbed.Engine.Script
import LuaEmbed.Library.Functions

/-!
The machine: what happens on one thread of an interpreter from one moment to the next. A step is
settled within the interpreter, ends the run of the thread, or needs something from outside.
-/
namespace LuaEmbed.Engine

/-- An interpreter: its objects and its threads, the first of which is the main one. -/
structure Vm where
  heap : Heap := {}
  threads : Array Thread := #[]
  deriving Inhabited

/-- What is about to happen on a thread. -/
inductive Signal where
  /-- The script on top goes on. -/
  | run
  /-- The native function on top makes a request. -/
  | act (a : Action)
  /-- Values arrive at the frame on top. -/
  | results (vs : List Val)
  /-- An error has occurred; whether a message handler has seen it. -/
  | raise (status : ErrorStatus) (v : Val) (handled : Bool)

/-- How the run of a thread ends. -/
inductive Exit where
  | returned (vs : List Val)
  | yielded (vs : List Val)
  | raised (status : ErrorStatus) (v : Val)
  deriving Inhabited

/-- What the machine needs from outside to go on. -/
inductive Demand where
  /-- Runs a host function in the frame on top; without a function it has been collected. -/
  | host (isList : Bool) (id : Option Nat)
  | resume (thread : Nat) (args : List Val)
      (k : Except Val (List Val) → Heap → Heap × Action)
  | close (thread : Nat) (onlyFailed : Bool) (k : Option Val → Heap → Heap × Action)
  | collect (k : Heap → Heap × Action)
  /-- Lets the collector take its turn before the script on top goes on. -/
  | turn
  /-- Lets the collector take its turn between what the host does, and nothing else. -/
  | pause
  | release (payload : Payload) (k : Heap → Heap × Action)

/-- What a step leads to. -/
inductive Next where
  | go (s : Signal)
  | exit (e : Exit)
  | need (d : Demand)

/-- How a function is called. -/
structure Manner where
  /-- Whether the call nests native code. -/
  nests : Bool
  /-- Whether a yield may cross the call. -/
  canYield : Bool
  name : Option Origin := none

namespace Vm

variable (vm : Vm) (t : Nat)

def thread : Thread := vm.threads.getD t default

/-- The thread at a number, if there is one. -/
def thread? : Option Thread := vm.threads[t]?

def modifyThread (f : Thread → Thread) : Vm := { vm with threads := vm.threads.modify t f }

def setThread (th : Thread) : Vm := { vm with threads := vm.threads.setIfInBounds t th }

/-- Takes a thread out, to be put back later. -/
def take : Thread × Vm :=
  let th := vm.thread t
  (th, vm.setThread t default)

/-- Changes the objects, with a result. -/
def onHeap (f : Heap → Heap × Action) : Vm × Next :=
  let ⟨h, ts⟩ := vm
  let (h, a) := f h
  (⟨h, ts⟩, .go (.act a))

/-- An error of the interpreter's own, with the position of the script on top. -/
def fail (message : Bytes) : Signal :=
  let prior := ((vm.thread t).above.head?.bind Frame.position?).getD .empty
  .raise .runtime (.str (prior ++ message)) false

/-- Nesting at which calls fail, and at which even handling the failure does. -/
def maxNesting : Nat := 200

def maxHandling : Nat := 220

def handlingMessage : Bytes := "error in error handling"

/-- The function that a value stands for when called, with its arguments: itself, or what its
metatable gives, which takes the value as first argument. -/
def callee? (h : Heap) : Nat → Val → List Val → Except Val (Val × List Val)
  | _, .builtin f, args => .ok (.builtin f, args)
  | _, .closure f, args => .ok (.closure f, args)
  | 0, f, _ => .error f
  | fuel + 1, f, args =>
    match h.metafield f "__call" with
    | .nil => .error f
    | m => callee? h fuel m (f :: args)

/-- A chain of call metamethods no stack could hold. -/
def maxChain : Nat := 1000000

/-- Makes room for a frame; the error if there is none. -/
def makeRoom (used need : Nat) : Vm × Option Signal :=
  let th := vm.thread t
  match Thread.grownSize th.size used need with
  | .ok size =>
    if vm.heap.starved && size ≠ th.size then
      (vm, some (.raise .memory (.str Chunk.memoryMessage) true))
    else (vm.modifyThread t ({ · with size }), none)
  | .error size =>
    if Thread.maxSize < th.size then
      (vm, some (.raise .handling (.str handlingMessage) true))
    else (vm.modifyThread t ({ · with size }), some (vm.fail t "stack overflow"))

/-- The function behind a host closure, if its holder has not been finalized. -/
def hostFunction? (h : Heap) (up : Array Val) : Option Nat :=
  match (up[0]? : Option Val) with
  | some (.userdata i) =>
    match (h.userdata.get? i).map Userdata.payload with
    | some (.function _ id) => id
    | _ => none
  | _ => none

/-- Starts a script function in a new frame. -/
def enterScript (f : Val) (p : Proto) (cells : Array Nat) (args : List Val) (frame : Frame) :
    Vm × Next :=
  let count := args.length
  let params := Activation.adjust (some p.params) args
  let extra := if p.isVararg then args.drop p.params else []
  let base := if p.isVararg then frame.base + count + 1 else frame.base
  match vm.makeRoom t (frame.base + count) (base - frame.base + p.room) with
  | (vm, some e) => (vm, .go e)
  | (vm, none) =>
    let a : Activation :=
      { proto := p, cells, extra, slots := (params.map Slot.plain).toArray }
    (vm.modifyThread t (·.pushFrame
      { frame with level := .script a, fn := f, base, limit := base + p.room }), .go .run)

/-- Starts a native function in a new frame. -/
def enterNative (f : Val) (b : Builtin) (up : Array Val) (args : List Val) (frame : Frame) :
    Vm × Next :=
  match vm.makeRoom t (frame.base + args.length) Thread.minRoom with
  | (vm, some e) => (vm, .go e)
  | (vm, none) =>
    let vm := vm.modifyThread t (·.pushFrame
      { frame with
        level := .native args.toArray, fn := f
        limit := frame.base + args.length + Thread.minRoom })
    match b with
    | .callRaw => (vm, .need (.host false (hostFunction? vm.heap up)))
    | .callList => (vm, .need (.host true (hostFunction? vm.heap up)))
    | _ => vm.onHeap (Library.apply b up args).start

/-- Calls a value from the frame on top. -/
def enter (f : Val) (args : List Val) (m : Manner) : Vm × Next :=
  let top := (vm.thread t).top
  let depth := if m.nests then top.depth + 1 else top.depth
  if m.nests && depth = maxNesting then (vm, .go (vm.fail t "C stack overflow"))
  else if m.nests && maxHandling ≤ depth then
    (vm, .go (.raise .handling (.str handlingMessage) true))
  else
    match callee? vm.heap maxChain f args with
    | .error g =>
      let named : Bytes := match m.name with
        | some o => " (" ++ o.kind ++ " '" ++ o.name ++ "')"
        | none => .empty
      (vm, .go (vm.fail t ("attempt to call a " ++ operandTypeName vm.heap g ++ " value" ++ named)))
    | .ok (f, args) =>
      let frame : Frame :=
        { level := .native #[], name := m.name, base := top.used + 1, depth
          canYield := top.canYield && m.canYield }
      match f with
      | .builtin b => vm.enterNative t f b #[] args frame
      | .closure i =>
        match vm.heap.closures.get? i with
        | some (.script p cells) => vm.enterScript t f p cells args frame
        | some (.native b up) => vm.enterNative t f b up args frame
        | none => (vm, .go (.results []))
      | _ => (vm, .go (.results []))

/-- The name under which a loaded module holds a function, as messages show it. -/
def globalName? (h : Heap) (f : Val) : Option Bytes :=
  match h.rawGet h.registryTable (.text "_LOADED") with
  | .table l =>
    (h.table l).entries.toList.findSome? fun (k, m) =>
      match k, m with
      | .str modName, .table i =>
        (h.table i).entries.toList.findSome? fun (k, v) =>
          match k with
          | .str name =>
            if v.rawEqual f then
              some (if modName = Bytes.ofString "_G" then name else modName ++ "." ++ name)
            else none
          | _ => none
      | _, _ => none
  | _ => none

/-- The complaint about an argument of the function on top. -/
def argumentMessage (arg : Nat) (message : Bytes) : Bytes :=
  let top := (vm.thread t).top
  let name : Bytes :=
    match top.name with
    | some o => o.name
    | none => (globalName? vm.heap top.fn).getD "?"
  let isMethod := match top.name with
    | some o => decide (o.kind = "method")
    | none => false
  if isMethod && arg = 1 then "calling '" ++ name ++ "' on bad self (" ++ message ++ ")"
  else
    let arg := if isMethod then arg - 1 else arg
    "bad argument #" ++ toString arg ++ " to '" ++ name ++ "' (" ++ message ++ ")"

/-- How a thread stands to the one asking. -/
def statusSeen (asking : Nat) : CoroutineStatus :=
  let th := vm.thread t
  if t = asking then .running
  else
    match th.status with
    | .yielded => .suspended
    | .failed _ => .dead
    | .ready =>
      if !th.above.isEmpty then .normal
      else if th.ground.count = 0 then .dead
      else .suspended

/-- The native frame of a function that waits for another thread shows that thread alone, if it
was an argument. -/
def showing (other : Nat) (f : Frame) : Frame :=
  f.setSlots (if f.slots[0]? = some (.thread other) then #[.thread other] else #[])

/-- Carries out a request of the native function on top. -/
def act (a : Action) : Vm × Next :=
  let fail (level : Nat) (message : Bytes) : Next :=
    .go (.raise .runtime (.str ((vm.thread t).positionOf level ++ message)) false)
  match a with
  | .ret vs => (vm.modifyThread t (·.popFrame), .go (.results vs))
  | .raise v => (vm, .go (.raise .runtime v false))
  | .raiseMemory => (vm, .go (.raise .memory (.str Chunk.memoryMessage) true))
  | .fail level message => (vm, fail level message)
  | .badArgument arg message => (vm, fail 1 (vm.argumentMessage t arg message))
  | .call f args keep canYield k =>
    let vm := vm.modifyThread t (·.modifyTop fun fr =>
      { fr with level := .native keep.toArray, await := .body k })
    vm.enter t f args { nests := true, canYield }
  | .protect f args handler k =>
    let vm := vm.modifyThread t (·.setAwait (.caught handler k))
    vm.enter t f args { nests := true, canYield := true }
  | .yield vs =>
    if (vm.thread t).top.canYield then
      (vm.modifyThread t fun th =>
        { th.modifyTop fun f => { f with level := .native vs.toArray, await := .yielded } with
          status := .yielded }, .exit (.yielded vs))
    else
      (vm, .go (.raise .runtime (.text (if t = 0 then "attempt to yield from outside a coroutine"
        else "attempt to yield across a C-call boundary")) false))
  | .resume other args k =>
    (vm.modifyThread t (·.modifyTop (showing other)), .need (.resume other args k))
  | .close other onlyFailed k =>
    (vm.modifyThread t (·.modifyTop (showing other)), .need (.close other onlyFailed k))
  | .status other k =>
    let s := vm.statusSeen other t
    vm.onHeap (k s)
  | .situation k =>
    let th := vm.thread t
    let s : Situation :=
      { thread := t, isMain := t = 0, canYield := th.top.canYield, depth := th.top.depth
        room := th.room }
    vm.onHeap (k s)
  | .position level k =>
    let p := (vm.thread t).positionOf level
    vm.onHeap (k p)
  | .newThread f k =>
    let id := vm.threads.size
    { vm with threads := vm.threads.push (.new #[f]) }.onHeap (k (.thread id))
  | .collect k => (vm, .need (.collect k))
  | .release p k => (vm, .need (.release p k))

/-- Goes on with the script on top after its stack has been changed. -/
def continue_ (f : Activation → Activation) : Vm × Next :=
  (vm.modifyThread t (·.modifyTop fun fr =>
    match fr.level with
    | .script a => { fr with level := .script (f a), await := .idle }
    | .native _ => { fr with await := .idle }), .go .run)

/-- Calls the next closing method, or hands the outcome on to the frame that waits for it. -/
def closeOrDeliver (rest : List Val) (error : Option (ErrorStatus × Val)) (back : Await) :
    Vm × Next :=
  match rest with
  | v :: rest =>
    let vm := vm.modifyThread t (·.setAwait (.closing rest error back))
    let err := (error.map Prod.snd).getD .nil
    vm.enter t (vm.heap.metafield v "__close") [v, err]
      { nests := true, canYield := false, name := some ⟨"metamethod", "close"⟩ }
  | [] =>
    let vm := vm.modifyThread t fun th => (th.setAwait .idle).shrink
    match error, back with
    | some (_, err), .caught _ k => vm.onHeap (k (.error err))
    | some (status, err), _ => (vm, .exit (.raised status err))
    | none, _ => (vm, .exit (.returned []))

/-- Hands values to the frame on top. -/
def deliver (vs : List Val) : Vm × Next :=
  let first := vs.headD .nil
  match (vm.thread t).top.await with
  | .idle => (vm, .exit (.returned vs))
  | .guarded | .started => (vm.modifyThread t (·.setAwait .idle), .exit (.returned vs))
  | .body k => (vm.modifyThread t (·.setAwait .idle)).onHeap (k vs)
  | .caught _ k => (vm.modifyThread t (·.setAwait .idle)).onHeap (k (.ok vs))
  | .push want => vm.continue_ t (·.pushAll (Activation.adjust want vs))
  | .method object => vm.continue_ t (·.pushAll [first, object])
  | .test negate => vm.continue_ t (·.push (.bool (first.truthy != negate)))
  | .drop => vm.continue_ t id
  | .returning => (vm.modifyThread t (·.popFrame), .go (.results vs))
  | .handler status => (vm, .go (.raise status first true))
  | .closing rest error back => vm.closeOrDeliver t rest error back
  | .yielded => (vm.modifyThread t (·.popFrame), .go (.results vs))

/-- The message handler in force, if errors are caught at all. -/
def handlerOf : Await → Option (Option Val)
  | .guarded | .started => some none
  | .caught h _ => some h
  | .closing _ _ back => handlerOf back
  | _ => none

/-- Variables that a frame has yet to close, latest first. -/
def closersOf (h : Heap) (f : Frame) : List Val :=
  match f.level with
  | .script a => a.closers.map (a.get h)
  | .native _ => []

/-- Drops the frames down to one that catches errors; gives the variables to be closed. -/
def unwind (h : Heap) : List Frame → List Val → List Frame × List Val
  | [], acc => ([], acc)
  | f :: rest, acc =>
    if (handlerOf f.await).isSome then (f :: rest, acc)
    else unwind h rest (acc ++ closersOf h f)

/-- A failed thread keeps its frames, with the error on top. -/
def failed (h : Heap) (status : ErrorStatus) (err : Val) (th : Thread) : Thread :=
  let ground := { th.ground with await := .idle }
  { th with ground, status := .failed status }.modifyTop fun f =>
    match f.level with
    | .native s => f.setSlots (if f.fn = Val.builtin .baseError then #[err] else s.push err)
    | .script a => f.setSlots ((a.values h).push err)

/-- Hands an error to the frame that catches errors, or out of the coroutine. -/
def settle (status : ErrorStatus) (v : Val) : Vm × Next :=
  let th := vm.thread t
  let (above, closers) := unwind vm.heap th.above []
  match above, th.ground.await with
  | [], .started => (vm.modifyThread t (failed vm.heap status v), .exit (.raised status v))
  | _, _ =>
    let vm := vm.modifyThread t ({ · with above })
    match (vm.thread t).top.await with
    | .closing rest _ back => vm.closeOrDeliver t (closers ++ rest) (some (status, v)) back
    | back => vm.closeOrDeliver t closers (some (status, v)) back

/-- Whether a frame waits for a message handler. -/
def awaitsHandler : Await → Bool
  | .handler _ => true
  | _ => false

/-- Lets an error take its course: the message handler in force sees it first. An error on the way into
the handler is for the handler to see as well, which is entered one level deeper then. -/
def raise (status : ErrorStatus) (v : Val) (handled : Bool) : Vm × Next :=
  let th := vm.thread t
  match (th.frames.findSome? fun f => handlerOf f.await).join with
  | none => vm.settle t status v
  | some f =>
    if handled || status ≠ .runtime then vm.settle t status v
    else
      let waiting (th : Thread) : Thread :=
        let again := awaitsHandler th.top.await
        if (handlerOf th.top.await).isNone && !again then th.setAwait (.handler status)
        else
          th.pushFrame
            { level := .native #[], await := .handler status, base := th.used + 1
              limit := th.used + 1, depth := if again then th.top.depth + 1 else th.top.depth }
      (vm.modifyThread t waiting).enter t f [v] { nests := true, canYield := false }

/-- How long a script runs before the machine looks at it again. -/
def slice : Nat := 4096

/-- Runs the script on top until it stops. -/
def runScript : Vm × Next :=
  let (th, vm) := vm.take t
  match th with
  | ⟨⟨.script a, aw, fn, name, base, limit, depth, cy⟩ :: rest, ground, status, size⟩ =>
    let ⟨heap, threads⟩ := vm
    let (a, heap, stop) := a.run slice heap
    let put (a : Activation) (aw : Await) : Vm :=
      Vm.setThread ⟨heap, threads⟩ t
        ⟨⟨.script a, aw, fn, name, base, limit, depth, cy⟩ :: rest, ground, status, size⟩
    match stop with
    | .pause => (put a aw, .need .turn)
    | .ret vs => (Vm.setThread ⟨heap, threads⟩ t ⟨rest, ground, status, size⟩, .go (.results vs))
    | .fault m =>
      let vm := put a .idle
      (vm, .go (vm.fail t m))
    | .memory => (put a .idle, .go (.raise .memory (.str Chunk.memoryMessage) true))
    | .invoke f args name isMeta await =>
      (put a await).enter t f args { nests := isMeta, canYield := true, name }
    | .tail f args name =>
      match callee? heap maxChain f args with
      | .ok (.closure i, all) =>
        match heap.closures.get? i with
        | some (.script p cells) =>
          Vm.enterScript (Vm.setThread ⟨heap, threads⟩ t ⟨rest, ground, status, size⟩) t
            (.closure i) p cells all
            { level := .native #[], base, depth, canYield := cy }
        | _ => (put a .returning).enter t f args { nests := false, canYield := true, name }
      | _ => (put a .returning).enter t f args { nests := false, canYield := true, name }
  | th => (vm.setThread t th, .go (.results []))

/-- Why a thread that has `count` arguments on top of its stack cannot be resumed from a place
nested so deeply. -/
def refusal? (count depth : Nat) : Option Bytes :=
  let th := vm.thread t
  match th.status with
  | .ready =>
    if !th.above.isEmpty then some "cannot resume non-suspended coroutine"
    else if th.ground.count ≤ count then some "cannot resume dead coroutine"
    else if maxNesting ≤ depth then some "C stack overflow"
    else none
  | .failed _ => some "cannot resume dead coroutine"
  | .yielded => if maxNesting ≤ depth then some "C stack overflow" else none

/-- Lets a thread go on with the `count` arguments on top of its stack: it starts the function
below them, or they are what its yield returns. -/
def beginResume (count depth : Nat) : Vm × Next :=
  let th := vm.thread t
  let args := (th.slots.toList.drop (th.slots.size - count))
  match th.status with
  | .yielded =>
    let vm := vm.modifyThread t fun th =>
      { th.popFrame with
        above := th.popFrame.above.map ({ · with depth := depth + 1 })
        ground := { th.ground with depth := depth + 1 }
        status := .ready }
    (vm, .go (.results args))
  | _ =>
    let f := th.slots.getD (th.slots.size - count - 1) .nil
    let vm := vm.modifyThread t (·.modifyTop fun g =>
      { g with
        level := .native (g.slots.shrink (g.slots.size - count - 1)), await := .started
        depth := depth + 1, canYield := true })
    vm.enter t f args { nests := false, canYield := true }

/-- Leaves what a resumed thread returned on its stack. -/
def endResume (e : Exit) : Vm :=
  match e with
  | .returned vs => vm.modifyThread t (·.modifyTop fun f => f.setSlots (f.slots ++ vs.toArray))
  | _ => vm

/-- Ends a thread: drops its frames, and closes what is to be closed. -/
def beginClose (depth : Nat) : Vm × Next :=
  let th := vm.thread t
  let closers := th.frames.flatMap (closersOf vm.heap)
  let error :=
    match th.status with
    | .failed status => some (status, th.slots.back?.getD .nil)
    | _ => none
  let vm := vm.setThread t
    { ground := { level := .native #[], await := .guarded, depth }, size := Thread.minRoom + 1 }
  vm.closeOrDeliver t closers error .guarded

/-- One step of a thread. -/
def step (s : Signal) : Vm × Next :=
  match s with
  | .run => vm.runScript t
  | .act a => vm.act t a
  | .results vs => vm.deliver t vs
  | .raise status v handled => vm.raise t status v handled

end Vm
end LuaEmbed.Engine
