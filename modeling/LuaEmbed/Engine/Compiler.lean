import LuaEmbed.Engine.Parser

/-!
From trees to code. Every expression leaves its value above the operands before it, so the place
of each operand is its height at the time it is pushed.
-/
namespace LuaEmbed.Engine

namespace Compiler

structure State where
  code : Array Instr := #[]
  lines : Array Nat := #[]
  protos : Array Proto := #[]
  /-- Slots in use, and the most that ever were. -/
  height : Nat := 0
  room : Nat := 2
  /-- Labels passed: where, and with how many slots in use. -/
  labels : List (Nat × Nat × Nat) := []
  /-- Jumps to be completed: the jump, where its code is, and its target. -/
  pending : List (Nat × Nat) := []
  /-- Whether something is to be closed when the function returns. -/
  closing : Bool := false

end Compiler

/-- Code emission for a text under a chunk name. -/
abbrev Emit := ReaderT (Bytes × Bytes) (StateM Compiler.State)

namespace Compiler

def emit (i : Instr) (line : Nat) : Emit Unit :=
  modify fun s => { s with code := s.code.push i, lines := s.lines.push line }

def here : Emit Nat := do return (← get).code.size

def height : Emit Nat := do return (← get).height

def setHeight (h : Nat) : Emit Unit :=
  modify fun s => { s with height := h, room := max s.room (h + 1) }

def grow (n : Nat) : Emit Unit := do setHeight ((← height) + n)

def patch (pc : Nat) (i : Instr) : Emit Unit :=
  modify fun s => { s with code := s.code.setIfInBounds pc i }

/-- Emits an instruction to be completed later. -/
def hole (line : Nat) : Emit Nat := do
  let pc ← here
  emit (.jump 0) line
  return pc

def push (v : Val) (line : Nat) : Emit Unit := do
  emit (.push v) line
  grow 1

def leaveScope (h : Nat) (line : Nat) : Emit Unit := do
  emit (.scope h) line
  setHeight h

def mark (label : Nat) (h : Nat) : Emit Unit := do
  let pc ← here
  modify fun s => { s with labels := (label, pc, h) :: s.labels }

/-- Whether computing an expression cannot change a local. -/
def isQuiet : Expr → Bool
  | .const _ | .var .. | .varargs _ => true
  | _ => false

/-- The local that an expression is. -/
def localSlot? : Expr → Option Nat
  | .var (.slot i) _ _ => some i
  | _ => none

/-- Reads an operand again that is a local, if what was computed since may have changed it. -/
def refresh (e : Expr) (pos : Nat) (later : List Expr) (line : Nat) : Emit Unit :=
  match localSlot? e with
  | some slot => if later.all isQuiet then return else emit (.reload slot pos) line
  | none => return

def finish (s : State) (jumps : List (Nat × Nat)) : Array Instr :=
  s.pending.foldl (fun code (jump, pc) =>
    let label := (jumps.lookup jump).getD 0
    match s.labels.find? (·.1 = label) with
    | some (_, target, h) =>
      (code.setIfInBounds pc (.scope h)).setIfInBounds (pc + 1) (.jump target)
    | none => code) s.code

/-- Calls a function for a number of results, or for all. -/
def callWith (f args : Emit Unit) (origin : Option Origin) (line : Nat) (want : Option Nat) :
    Emit Unit := do
  let pos ← height
  f
  args
  emit (.call pos want origin) line
  setHeight (pos + want.getD 0)

/-- Pushes a method and its object. -/
def lookUp (object : Emit Unit) (origin : Option Origin) (name : Bytes) (line : Nat) :
    Emit Unit := do
  object
  emit (.method name origin) line
  grow 1

def methodOrigin (name : Bytes) : Option Origin := some ⟨"method", name⟩

/-- A block whose locals go at its end. -/
def inBlock (b : Emit Unit) (line : Nat) : Emit Unit := do
  let h ← height
  let closing := (← get).closing
  b
  modify fun s => { s with closing }
  if h ≠ (← height) then leaveScope h line

def pushVarargs (line : Nat) (want : Option Nat) : Emit Unit := do
  emit (.varargs want) line
  grow (want.getD 0)

def pushNils (n : Nat) : Emit Unit := do
  if 0 < n then
    emit (.pushNils n) 0
    grow n

def pushClosure (p : Proto) (line : Nat) : Emit Unit := do
  let i := (← get).protos.size
  modify fun s => { s with protos := s.protos.push p }
  emit (.closure i) line
  grow 1

/-- Two operands and an instruction that takes them. -/
def binary (a b : Emit Unit) (left right : Expr) (i : Instr) (line : Nat) : Emit Unit := do
  let pos ← height
  a
  b
  refresh left pos [right] line
  emit i line
  setHeight (pos + 1)

/-- Two operands the second of which is computed only if the first has not that truth. -/
def shortCut (a b : Emit Unit) (truth : Bool) (line : Nat) : Emit Unit := do
  let pos ← height
  a
  let out ← hole line
  setHeight pos
  b
  patch out (.jumpKeep truth (← here))

/-- Stores the topmost values into targets, last target first. -/
def storeAll (values : List Expr) : List (Expr × Nat) → Nat → Emit Unit
  | [], _ => return
  | (e, pos) :: rest, line => do
    match e with
    | .var (.slot i) _ l => emit (.setLocal i) l
    | .var (.upvalue i) _ l => emit (.setUpvalue i) l
    | .index o k _ =>
      if rest.isEmpty then
        refresh o pos (k :: values) line
        refresh k (pos + 1) values line
      emit (.setIndex pos o.origin) line
    | _ => return
    let h ← height
    setHeight (h - 1)
    storeAll values rest line

/-- A function's code from its statements. -/
def assemble (params : Nat) (isVararg : Bool) (upvalues : List UpvalueDesc) (b : Emit Unit)
    (jumps : List (Nat × Nat)) (serial endLine : Nat) : Emit Proto := do
  let saved ← get
  set ({ height := params, room := params + 2 } : State)
  b
  emit (.ret (← height)) endLine
  let s ← get
  set saved
  let (text, chunk) ← read
  return .mk (finish s jumps) s.lines s.protos upvalues.toArray params isVararg s.room
    (some chunk) ⟨text, chunk, serial⟩

/-- Returns what a call returns, handing the frame over to it if nothing is to be closed. -/
def returnCall (f args : Emit Unit) (origin : Option Origin) (callLine line : Nat) :
    Emit Unit := do
  let h ← height
  if (← get).closing then
    callWith f args origin callLine none
    emit (.ret h) line
  else
    f
    args
    emit (.tailCall h origin) callLine
  setHeight h

mutual

/-- Pushes one value. -/
def expr : Expr → Emit Unit
  | .const v => push v 0
  | .varargs line => pushVarargs line (some 1)
  | .var (.slot i) _ line => do
    emit (.getLocal i) line
    grow 1
  | .var (.upvalue i) _ line => do
    emit (.getUpvalue i) line
    grow 1
  | .index o k line => binary (expr o) (expr k) o k (.index o.origin) line
  | .call f args line => callWith (expr f) (arguments args) f.origin line (some 1)
  | .method o n args line =>
    callWith (lookUp (expr o) o.origin n line) (arguments args) (methodOrigin n) line (some 1)
  | .function b line => do pushClosure (← function b) line
  | .table is line => do
    let pos ← height
    let start ← hole line
    grow 1
    let (array, hash) ← items pos line 0 0 0 is
    patch start (.newTable array hash)
    setHeight (pos + 1)
  | .unary op e line => do
    expr e
    match op with
    | .arith o => emit (.unary o e.origin) line
    | .not => emit .not line
    | .length => emit (.length e.origin) line
  | .binary op a b line =>
    match op with
    | .and => shortCut (expr a) (expr b) false line
    | .or => shortCut (expr a) (expr b) true line
    | .concat => do
      let pos ← height
      expr a
      expr b
      emit (.concat a.origin b.origin) line
      setHeight (pos + 1)
    | .arith o => binary (expr a) (expr b) a b (.arith o a.origin b.origin) line
    | .compare o swapped => binary (expr a) (expr b) a b (.compare o swapped) line
    | .notEqual => do
      binary (expr a) (expr b) a b (.compare .eq false) line
      emit .not line
  | .paren e => expr e

/-- Pushes a list of values whose last one may be open. -/
def arguments : List Expr → Emit Unit
  | [] => return
  | [.varargs line] => pushVarargs line none
  | [.call f args line] => callWith (expr f) (arguments args) f.origin line none
  | [.method o n args line] =>
    callWith (lookUp (expr o) o.origin n line) (arguments args) (methodOrigin n) line none
  | [e] => expr e
  | e :: es => do
    expr e
    arguments es

/-- Pushes exactly `n` values. -/
def exactly : Nat → List Expr → Emit Unit
  | n, [] => pushNils n
  | n, [.varargs line] => pushVarargs line (some n)
  | n, [.call f args line] => callWith (expr f) (arguments args) f.origin line (some n)
  | n, [.method o m args line] =>
    callWith (lookUp (expr o) o.origin m line) (arguments args) (methodOrigin m) line (some n)
  | n, [e] => do
    let pos ← height
    expr e
    if n = 0 then leaveScope pos 0 else pushNils (n - 1)
  | n, e :: es => do
    let pos ← height
    expr e
    exactly (n - 1) es
    if n = 0 then leaveScope pos 0

/-- The items of the table at a position: `waiting` positional ones are pushed but not stored,
after `stored` others. Gives the sizes to reserve. -/
def items (pos line : Nat) : Nat → Nat → Nat → List Item → Emit (Nat × Nat)
  | stored, waiting, hash, [] => do
    if 0 < waiting then emit (.setList pos (stored + 1)) line
    return (stored + waiting, hash)
  | stored, waiting, hash, [.positional (.varargs l)] => do
    pushVarargs l none
    emit (.setList pos (stored + 1)) line
    return (stored + waiting, hash)
  | stored, waiting, hash, [.positional (.call f args l)] => do
    callWith (expr f) (arguments args) f.origin l none
    emit (.setList pos (stored + 1)) line
    return (stored + waiting, hash)
  | stored, waiting, hash, [.positional (.method o n args l)] => do
    callWith (lookUp (expr o) o.origin n l) (arguments args) (methodOrigin n) l none
    emit (.setList pos (stored + 1)) line
    return (stored + waiting, hash)
  | stored, waiting, hash, .positional e :: is => do
    expr e
    if waiting + 1 = 50 then
      emit (.setList pos (stored + 1)) line
      setHeight (pos + 1)
      items pos line (stored + 50) 0 hash is
    else items pos line stored (waiting + 1) hash is
  | stored, waiting, hash, .keyed k v l :: is => do
    let h ← height
    expr k
    expr v
    emit (.store pos) l
    setHeight h
    items pos line stored waiting (hash + 1) is

def function : FunctionBody → Emit Proto
  | .mk params isVararg upvalues b jumps serial endLine =>
    assemble params isVararg upvalues (statements b) jumps serial endLine

def statements : List Stmt → Emit Unit
  | [] => return
  | s :: ss => do
    statement s
    statements ss

/-- Evaluates the parts of assignment targets; gives where they stand. -/
def prepare : List Expr → Emit (List (Expr × Nat))
  | [] => return []
  | .index o k line :: es => do
    let pos ← height
    expr o
    expr k
    return (.index o k line, pos) :: (← prepare es)
  | e :: es => do
    let pos ← height
    return (e, pos) :: (← prepare es)

def statement : Stmt → Emit Unit
  | .local n values close line => do
    exactly n values
    if let some (slot, name) := close then
      emit (.toClose slot name) line
      modify fun s => { s with closing := true }
  | .localFunction b line => do
    let h ← height
    pushNils 1
    pushClosure (← function b) line
    emit (.setLocal h) line
    setHeight (h + 1)
  | .assign targets values line => do
    let h ← height
    let places ← prepare targets
    exactly targets.length values
    storeAll values places.reverse line
    if h ≠ (← height) then leaveScope h line
  | .call (.call f args line) => callWith (expr f) (arguments args) f.origin line (some 0)
  | .call (.method o n args line) =>
    callWith (lookUp (expr o) o.origin n line) (arguments args) (methodOrigin n) line (some 0)
  | .call _ => return
  | .block b line => inBlock (statements b) line
  | .while cond b leave line => do
    let h ← height
    let start ← here
    expr cond
    let out ← hole line
    setHeight h
    inBlock (statements b) line
    emit (.jump start) line
    patch out (.jumpUnless (← here))
    mark leave h
  | .repeat b cond leave line => do
    let h ← height
    let start ← here
    let closing := (← get).closing
    statements b
    let inner ← height
    expr cond
    let again ← hole line
    setHeight inner
    modify fun s => { s with closing }
    emit (.scope h) line
    let out ← hole line
    patch again (.jumpUnless (← here))
    emit (.scope h) line
    emit (.jump start) line
    patch out (.jump (← here))
    setHeight h
    mark leave h
  | .branch cs otherwise line => do
    let outs ← clauses cs
    inBlock (statements otherwise) line
    let after ← here
    for pc in outs do patch pc (.jump after)
  | .forRange first last step b leave line => do
    let h ← height
    expr first
    expr last
    expr step
    let prep ← hole line
    let start ← here
    setHeight (h + 4)
    inBlock (statements b) line
    leaveScope (h + 3) line
    emit (.forLoop h start) line
    patch prep (.forPrep h (← here))
    leaveScope h line
    mark leave h
  | .forEach vars values b leave line => do
    let h ← height
    exactly 4 values
    emit (.toClose (h + 3) "(for state)") line
    let closing := (← get).closing
    modify fun s => { s with closing := true }
    let start ← here
    emit (.forCall h vars) line
    let test ← hole line
    setHeight (h + 4 + vars)
    inBlock (statements b) line
    leaveScope (h + 4) line
    emit (.jump start) line
    patch test (.forTest h (← here))
    modify fun s => { s with closing }
    leaveScope h line
    mark leave h
  | .ret [.call f args l] line => returnCall (expr f) (arguments args) f.origin l line
  | .ret [.method o n args l] line =>
    returnCall (lookUp (expr o) o.origin n l) (arguments args) (methodOrigin n) l line
  | .ret values line => do
    let h ← height
    arguments values
    emit (.ret h) line
    setHeight h
  | .goto jump line => do
    let pc ← here
    emit (.scope 0) line
    emit (.jump 0) line
    modify fun s => { s with pending := (jump, pc) :: s.pending }
  | .label id h => mark id h

def clauses : List Clause → Emit (List Nat)
  | [] => return []
  | .mk cond b line :: cs => do
    let h ← height
    expr cond
    let next ← hole line
    setHeight h
    inBlock (statements b) line
    let out ← hole line
    patch next (.jumpUnless (← here))
    return out :: (← clauses cs)

end

end Compiler

/-- Compiles a whole text; `depth` is how deeply the caller is nested already. -/
def compile (text chunk : Bytes) (depth : Nat) : Except LoadFault Proto := do
  let b ← Parser.chunk text depth
  return (((Compiler.function b).run (text, chunk)).run {}).1

end LuaEmbed.Engine
