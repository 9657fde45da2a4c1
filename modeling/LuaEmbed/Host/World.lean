import LuaEmbed.Host.Fatal
import LuaEmbed.Host.Value
import LuaEmbed.Machine.Collector

/-!
Everything that outlives a single operation: the interpreters with their bookkeeping, the counted
host objects, the fatal hook, and the host program's own memory, to which notices are added.
-/
namespace LuaEmbed

open Engine

/-- Which stack an operation works on: a thread of an interpreter. -/
abbrev Context := StackId

/-- An interpreter and what the bridge keeps beside it. -/
structure Instance where
  vm : Vm
  /-- Threads kept alive by anchors. The engine has these references in its registry, in a part that scripts
  reach with `debug.getregistry` only; here they are kept beside it, and no script gets at them. -/
  references : Pool Nat := {}
  chunkName : Bytes
  /-- Whether the owner has let go of it. -/
  closed : Bool := false
  /-- How many views of its stacks are open. -/
  views : Nat := 0
  deriving Inhabited

/-- A host object with the number of references to it. -/
structure Counted (α : Type) where
  object : α
  strong : Nat

/-- What keeps a thread alive for its handles: a place among the references of its interpreter. -/
structure Anchor where
  thread : StackId
  reference : Nat
  strong : Nat

/-- A view of a stack, as whoever opened it has it. -/
structure View where
  stack : StackId
  number : Nat
  deriving DecidableEq, Inhabited

/-- An open view: its stack, and whether the host holds it or a resume in progress. -/
structure Opening where
  stack : StackId
  held : Bool
  deriving DecidableEq, Inhabited

/-- What happens to an interpreter and its views in the course of time. -/
inductive Happening where
  | opened (v : View)
  | dropped (v : View)
  /-- The owner of an interpreter has let go of it. -/
  | disowned (vm : Nat)
  | closed (vm : Nat)
  deriving DecidableEq

/-- `σ` is how the host writes its functions down, and `μ` is the host program's own memory. -/
structure World (σ μ : Type) where
  instances : Array Instance := #[]
  functions : Pool (Counted (FunctionShape × σ)) := {}
  foreigns : Pool (Counted String) := {}
  anchors : Pool Anchor := {}
  /-- The views that are open. -/
  views : Pool Opening := {}
  /-- What has happened to interpreters and views, the latest first. -/
  history : List Happening := []
  hook : HookRegister := none
  memory : μ
  /-- How the memory takes a notice in. -/
  subscriber : Notice → μ → μ
  /-- When the collector takes its turn, which is its own choice: whether it does so on such a thread of an
  interpreter that has come to such a state. -/
  due : Nat → Vm → Bool := fun _ _ => false

/-- An operation that may fail, and that nothing outside the bridge takes part in. -/
abbrev Api (σ μ : Type) := ExceptT Error (StateM (World σ μ))

namespace World

variable {σ μ α : Type} (w : World σ μ)

def instance? (i : Nat) : Option Instance := w.instances[i]?

def vm (i : Nat) : Vm := ((w.instances[i]?).map (·.vm)).getD default

def modifyInstance (i : Nat) (f : Instance → Instance) : World σ μ :=
  { w with instances := w.instances.modify i f }

def modifyVm (i : Nat) (f : Vm → Vm) : World σ μ :=
  w.modifyInstance i fun x => { x with vm := f x.vm }

def modifyHeap (i : Nat) (f : Heap → Heap) : World σ μ :=
  w.modifyVm i fun m => { m with heap := f m.heap }

/-- Works on an interpreter, with a result. -/
def onVm [Inhabited α] (i : Nat) (f : Vm → Vm × α) : α × World σ μ :=
  if h : i < w.instances.size then
    let ⟨instances, functions, foreigns, anchors, open_, history, hook, memory, subscriber, due⟩ := w
    let x := instances[i]
    let instances := instances.set i default h
    let ⟨vm, references, chunkName, closed, views⟩ := x
    let (vm, a) := f vm
    (a, { instances := instances.setIfInBounds i ⟨vm, references, chunkName, closed, views⟩
          functions, foreigns, anchors, views := open_, history, hook, memory, subscriber, due })
  else (default, w)

def heap (i : Nat) : Heap := (w.vm i).heap

def thread (c : Context) : Thread := (w.vm c.vm).thread c.thread

/-- The thread that a stack belongs to, if there is one. -/
def thread? (c : Context) : Option Thread := (w.instances[c.vm]?).bind fun x => x.vm.thread? c.thread

def modifyThread (c : Context) (f : Thread → Thread) : World σ μ :=
  w.modifyVm c.vm (·.modifyThread c.thread f)

/-- The slots of a stack, from the bottom up. -/
def slots (c : Context) : Array Val := (w.thread c).slots

def depth (c : Context) : Nat := (w.thread c).depth

/-- Changes the slots of a stack. -/
def modifySlots (c : Context) (f : Array Val → Array Val) : World σ μ :=
  w.modifyThread c fun th => th.modifyTop fun fr =>
    match fr with
    | ⟨.native s, aw, fn, nm, b, l, d, cy⟩ => ⟨.native (f s), aw, fn, nm, b, l, d, cy⟩
    | fr => fr

def push (c : Context) (v : Val) : World σ μ := w.modifySlots c (·.push v)

/-- The value at a position, counted from 1. -/
def at_ (c : Context) (pos : Int) : Val := (w.slots c).getD (pos - 1).toNat .nil

/-- Cuts a stack back to a depth. -/
def truncate (c : Context) (depth : Nat) : World σ μ := w.modifySlots c (·.shrink depth)

/-- Reserves slots; whether that was granted. -/
def reserve (c : Context) (n : Nat) : Bool × World σ μ :=
  let starved := (w.heap c.vm).starved
  w.onVm c.vm fun vm =>
    let (th, vm) := vm.take c.thread
    let (ok, th) := th.reserve starved n
    (vm.setThread c.thread th, ok)

/-- Something has happened. -/
def happened (e : Happening) : World σ μ := { w with history := e :: w.history }

def notify (n : Notice) : World σ μ := { w with memory := w.subscriber n w.memory }

/-- Logs what the bridge does. -/
def log (level : LogLevel) (text : String) (fields : List (String × String)) : World σ μ :=
  w.notify (.log ⟨level, "selune::bridge", text, fields⟩)

/-- Changes a number of references; at zero the object is gone. -/
def recount {β : Type} (p : Pool (Counted β)) (id : Nat) (f : Nat → Nat) : Pool (Counted β) :=
  ⟨p.items.modify id fun x => x.bind fun c =>
    if f c.strong = 0 then none else some { c with strong := f c.strong }⟩

/-- Adds a reference to what a value refers to. -/
def retain (v : Value) : World σ μ :=
  match v with
  | .function _ id => { w with functions := recount w.functions id (· + 1) }
  | .foreign id => { w with foreigns := recount w.foreigns id (· + 1) }
  | .thread h =>
    { w with anchors := w.anchors.modify h.anchor fun a => { a with strong := a.strong + 1 } }
  | _ => w

/-- A handle that keeps a thread alive, by a place among the references of its interpreter, which here are no
part of the registry that scripts see. -/
def anchor (t : StackId) : ThreadHandle × World σ μ :=
  (⟨t, w.anchors.next⟩,
    match (w.instance? t.vm).map (·.references.next) with
    | some reference =>
      let w := w.modifyInstance t.vm fun x => { x with references := x.references.push t.thread }
      { w with anchors := w.anchors.push ⟨t, reference, 1⟩ }
    -- There is no such interpreter, and nothing that could be kept alive.
    | none => { w with anchors := (w.anchors.push ⟨t, 0, 1⟩).erase w.anchors.next })

/-- Drops a reference to an anchor. The last one gives its place among the references back, while
the interpreter has its owner. -/
def releaseAnchor (id : Nat) : World σ μ :=
  match w.anchors.get? id with
  | none => w
  | some a =>
    if a.strong ≤ 1 then
      let w := { w with anchors := w.anchors.erase id }
      w.modifyInstance a.thread.vm fun x =>
        if x.closed then x else { x with references := x.references.erase a.reference }
    else { w with anchors := w.anchors.set id { a with strong := a.strong - 1 } }

/-- Drops a reference to what a value refers to. A handle refers to the anchor of its own thread. -/
def release (v : Value) : World σ μ :=
  match v with
  | .function _ id => { w with functions := recount w.functions id (· - 1) }
  | .foreign id => { w with foreigns := recount w.foreigns id (· - 1) }
  | .thread h =>
    if (w.anchors.get? h.anchor).any (·.thread = h.thread) then w.releaseAnchor h.anchor else w
  | _ => w

def releaseAll (vs : List Value) : World σ μ := vs.foldl release w

/-- Drops the reference that a userdata carried. -/
def releasePayload (p : Payload) : World σ μ :=
  match p with
  | .function _ (some id) => { w with functions := recount w.functions id (· - 1) }
  | .foreign (some id) => { w with foreigns := recount w.foreigns id (· - 1) }
  | _ => w

/-- A new foreign object, with one reference. -/
def newForeign (payload : String) : Value × World σ μ :=
  (.foreign w.foreigns.next, { w with foreigns := w.foreigns.push ⟨payload, 1⟩ })

/-- A new host function, with one reference. -/
def newFunction (shape : FunctionShape) (code : σ) : Value × World σ μ :=
  (.function shape w.functions.next, { w with functions := w.functions.push ⟨(shape, code), 1⟩ })

end World
end LuaEmbed
