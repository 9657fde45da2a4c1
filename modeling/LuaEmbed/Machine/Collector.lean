import LuaEmbed.Machine.Vm

/-!
Collection of what can no longer be reached. Entries of weak tables whose weak part is lost are
removed; objects with a finalizer are kept once more and handed out, the latest first.
-/
namespace LuaEmbed.Engine

/-- Something to be traced: a value or a shared variable. -/
inductive Node where
  | val (v : Val)
  | cell (i : Nat)

/-- What has been reached. -/
structure Marks where
  tables : Array Bool
  closures : Array Bool
  cells : Array Bool
  userdata : Array Bool
  threads : Array Bool

namespace Marks

def empty (vm : Vm) : Marks :=
  let h := vm.heap
  { tables := Array.replicate h.tables.next false
    closures := Array.replicate h.closures.next false
    cells := Array.replicate h.cells.next false
    userdata := Array.replicate h.userdata.next false
    threads := Array.replicate vm.threads.size false }

/-- Whether a value is reached; plain values always are. -/
def has (m : Marks) : Val → Bool
  | .table i => m.tables.getD i false
  | .closure i => m.closures.getD i false
  | .userdata i => m.userdata.getD i false
  | .thread i => m.threads.getD i false
  | _ => true

def hasNode (m : Marks) : Node → Bool
  | .val v => m.has v
  | .cell i => m.cells.getD i false

def add (m : Marks) : Node → Marks
  | .val (.table i) => { m with tables := m.tables.setIfInBounds i true }
  | .val (.closure i) => { m with closures := m.closures.setIfInBounds i true }
  | .val (.userdata i) => { m with userdata := m.userdata.setIfInBounds i true }
  | .val (.thread i) => { m with threads := m.threads.setIfInBounds i true }
  | .cell i => { m with cells := m.cells.setIfInBounds i true }
  | .val _ => m

end Marks

namespace Collector

/-- Which parts of a table's entries are weak: keys, values. -/
def weakness (h : Heap) (t : Table) : Bool × Bool :=
  match t.metatable with
  | none => (false, false)
  | some m =>
    match (h.table m).getText "__mode" with
    | .str s => (s.data.contains 107, s.data.contains 118)
    | _ => (false, false)

def vals (vs : List Val) : List Node := vs.map .val

def ofAwait : Await → List Val
  | .method o => [o]
  | .caught h _ => h.toList
  | .closing rest error back => rest ++ (error.map Prod.snd).toList ++ ofAwait back
  | _ => []

def ofFrame (f : Frame) : List Node :=
  let own :=
    match f.level with
    | .native s => vals s.toList
    | .script a =>
      a.slots.toList.map (fun
        | .plain v => .val v
        | .boxed c => .cell c)
      ++ a.cells.toList.map .cell ++ vals a.extra
  .val f.fn :: own ++ vals (ofAwait f.await)

/-- What a node leads to directly. -/
def children (vm : Vm) : Node → List Node
  | .cell i => [.val (vm.heap.cell i)]
  | .val (.table i) =>
    let t := vm.heap.table i
    let (weakKeys, weakValues) := weakness vm.heap t
    let entries := t.entries.toList.filter fun e => !e.2.isNil
    (t.metatable.map fun m => Node.val (.table m)).toList ++
      (if weakKeys then [] else vals (entries.map Prod.fst)) ++
      (if weakKeys || weakValues then [] else vals (entries.map Prod.snd))
  | .val (.closure i) =>
    match vm.heap.closures.get? i with
    | some (.script _ cells) => cells.toList.map .cell
    | some (.native _ up) => vals up.toList
    | none => []
  | .val (.userdata i) =>
    ((vm.heap.userdata.get? i).bind (·.metatable)).toList.map fun m => .val (.table m)
  | .val (.thread i) => (vm.thread i).frames.flatMap ofFrame
  | .val _ => []

/-- Marks a list of nodes; gives those that were not marked before. -/
def markAll (m : Marks) (ns : List Node) : Marks × List Node :=
  ns.foldl (fun (m, fresh) n => if m.hasNode n then (m, fresh) else (m.add n, n :: fresh)) (m, [])

/-- Marks everything that can be reached. Every round but the last one marks something. -/
def propagate (vm : Vm) : Nat → Marks → List Node → Marks
  | 0, m, _ => m
  | fuel + 1, m, ns =>
    let (m, fresh) := markAll m ns
    if fresh.isEmpty then m else propagate vm fuel m (fresh.flatMap (children vm))

/-- How many objects there are, and some more. -/
def size (vm : Vm) : Nat :=
  let h := vm.heap
  h.tables.next + h.closures.next + h.cells.next + h.userdata.next + vm.threads.size + 2

/-- The numbers of the marked tables. -/
def markedTables (m : Marks) : List Nat :=
  (List.range m.tables.size).filter fun i => m.tables.getD i false

/-- Values that only a reached key of a table with weak keys keeps. -/
def ephemeral (vm : Vm) (m : Marks) : List Node :=
  (markedTables m).flatMap fun i =>
    let t := vm.heap.table i
    if weakness vm.heap t = (true, false) then
      vals ((t.entries.toList.filter fun e => !e.2.isNil && m.has e.1).map Prod.snd)
    else []

/-- Marks until tables with weak keys keep nothing more. -/
def converge (vm : Vm) : Nat → Marks → Marks
  | 0, m => m
  | fuel + 1, m =>
    let more := (ephemeral vm m).filter fun n => !m.hasNode n
    if more.isEmpty then m else converge vm fuel (propagate vm (size vm) m more)

def mark (vm : Vm) (m : Marks) (roots : List Node) : Marks :=
  converge vm (size vm) (propagate vm (size vm) m roots)

/-- Removes entries of weak tables that have lost their weak value or their weak key. -/
def clear (h : Heap) (m : Marks) (keys : Bool) : Heap :=
  (markedTables m).foldl (fun h i =>
    let t := h.table i
    let (weakKeys, weakValues) := weakness h t
    if (keys && weakKeys) || weakValues then
      let entries := t.entries.map fun k v =>
        if (weakValues && !m.has v) || (keys && weakKeys && !m.has k) then .nil else v
      h.setTable i { t with entries }
    else h) h

/-- Metatables shared by types. -/
def typeRoots (h : Heap) : List Node :=
  let t := h.types
  [t.nil, t.boolean, t.number, t.string, t.function, t.thread, t.light].filterMap fun m =>
    m.map fun i => .val (.table i)

/-- The threads in the middle of a run, which nothing frees. -/
def running (vm : Vm) : List Nat :=
  (List.range vm.threads.size).filter fun t => (vm.thread t).isRunning

/-- Frees what cannot be reached from the registry, the main thread, the threads in the middle of a
run and the given ones; gives the objects to be finalized. -/
def collect (vm : Vm) (threads : List Nat) : Vm × List Val :=
  let roots := .val vm.heap.registryTable :: .val (.thread 0) :: typeRoots vm.heap ++
    (running vm ++ threads).map fun t => .val (.thread t)
  let m := mark vm (.empty vm) roots
  let vm := { vm with heap := clear vm.heap m false }
  let (kept, lost) := vm.heap.finalizable.partition m.has
  let m := mark vm m (vals lost)
  let h := clear vm.heap m true
  let h := { h with
    finalizable := kept
    tables := h.tables.sweep fun i => m.tables.getD i false
    closures := h.closures.sweep fun i => m.closures.getD i false
    cells := h.cells.sweep fun i => m.cells.getD i false
    userdata := h.userdata.sweep fun i => m.userdata.getD i false }
  let threads := vm.threads.mapIdx fun i t => if m.threads.getD i false then t.shrink else default
  ({ heap := h, threads }, lost)

end Collector
end LuaEmbed.Engine
