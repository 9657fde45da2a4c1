import LuaEmbed.Engine.Thread

/-!
Execution of compiled code. An activation runs on by itself until it calls something, returns or
fails; what comes then is up to the machine.
-/
namespace LuaEmbed.Engine

/-- Why an activation stops. -/
inductive Stop where
  /-- Calls a value, and takes its results as stated. -/
  | invoke (f : Val) (args : List Val) (name : Option Origin) (isMeta : Bool) (await : Await)
  /-- Hands its frame over to a function. -/
  | tail (f : Val) (args : List Val) (name : Option Origin)
  | ret (vs : List Val)
  | fault (message : Bytes)
  | memory
  /-- Has run for a while. -/
  | pause

/-- What one instruction leads to. -/
inductive Stepped where
  | on (a : Activation) (h : Heap)
  | off (a : Activation) (h : Heap) (s : Stop)

/-- An instruction that makes an object stops the script for a moment, and the collector may take its turn. -/
def Stepped.made : Stepped → Stepped
  | on a h => off a h .pause
  | s => s

namespace Activation

variable (h : Heap) (a : Activation)

def size : Nat := a.slots.size

/-- The value at a position. -/
def get (i : Nat) : Val := read h (a.slots.getD i (.plain .nil))

def push (v : Val) : Activation := { a with slots := a.slots.push (.plain v) }

def pushAll (vs : List Val) : Activation :=
  { a with slots := vs.foldl (fun s v => s.push (.plain v)) a.slots }

/-- Drops all from a position on. -/
def cut (n : Nat) : Activation := { a with slots := a.slots.shrink n }

/-- The values from a position on. -/
def valuesFrom (n : Nat) : List Val := (a.slots.toList.drop n).map (read h)

/-- Exactly `n` values. -/
def adjust (want : Option Nat) (vs : List Val) : List Val :=
  match want with
  | none => vs
  | some n => vs.take n ++ List.replicate (n - vs.length) .nil

def jump (target : Nat) : Activation := { a with pc := target }

/-- Stores into a local, wherever it is kept. -/
def setSlot (i : Nat) (v : Val) : Activation × Heap :=
  match a.slots.getD i (.plain .nil) with
  | .plain _ => ({ a with slots := a.slots.setIfInBounds i (.plain v) }, h)
  | .boxed c => (a, h.setCell c v)

/-- The shared variable of a local, made when it is first captured. -/
def capture (i : Nat) : Nat × Activation × Heap :=
  match a.slots.getD i (.plain .nil) with
  | .boxed c => (c, a, h)
  | .plain v =>
    let (c, h) := h.newCell v
    (c, { a with slots := a.slots.setIfInBounds i (.boxed c) }, h)

def captureAll : List UpvalueDesc → Activation → Heap → Array Nat → Array Nat × Activation × Heap
  | [], a, h, cells => (cells, a, h)
  | u :: us, a, h, cells =>
    if u.fromLocal then
      let (c, a, h) := a.capture h u.index
      captureAll us a h (cells.push c)
    else captureAll us a h (cells.push (a.cells.getD u.index 0))

/-- Settles an operation whose operands stand at the top, `operands` of them. -/
def settle (o : Outcome Val) (operands : Nat) (origins : List (Option Origin)) (event : String) :
    Stepped :=
  match o with
  | .done v => .on ((a.cut (a.size - operands)).push v) h
  | .invoke f args =>
    .off (a.cut (a.size - operands)) h
      (.invoke f args (some ⟨"metamethod", event⟩) true (.push (some 1)))
  | .fault f => .off a h (.fault (f.render h origins))

/-- Settles a store, dropping the topmost value. -/
def settleStore (o : Outcome Heap) (origins : List (Option Origin)) : Stepped :=
  let below := a.cut (a.size - 1)
  match o with
  | .done h => .on below h
  | .invoke f args =>
    .off below h (.invoke f args (some ⟨"metamethod", "newindex"⟩) true .drop)
  | .fault f => .off a h (.fault (f.render h origins))

/-- Calls the closing method of the latest variable to be closed, if there is one at or above a
position; the instruction is then executed again. -/
def closeNext? (height : Nat) : Option Stepped :=
  match a.closers with
  | slot :: rest =>
    if height ≤ slot then
      let v := a.get h slot
      some (.off { a with closers := rest, pc := a.pc - 1 } h
        (.invoke (h.metafield v "__close") [v, .nil] (some ⟨"metamethod", "close"⟩) true .drop))
    else none
  | [] => none

end Activation

-- The numeric loop: three control values and a copy of the counter that the body sees.
namespace NumericLoop

inductive Start where
  | skip
  /-- The control values to begin with; the second one counts further rounds down if integers
  are used. -/
  | enter (first limit step : Val)
  | fault (message : Bytes)

def wrongControl (h : Heap) (what : String) (v : Val) : Start :=
  .fault ("bad 'for' " ++ what ++ " (number expected, got " ++ operandTypeName h v ++ ")")

/-- The limit of an integer loop, cut to integers that fit; `none` if no round can run. -/
def integerLimit (first step : Int) (limit : Number) : Option Int :=
  let cut (i : Int) : Int :=
    max Int64.minValue.toInt (min Int64.maxValue.toInt i)
  let l : Option Int :=
    match limit with
    | .int i => some i.toInt
    | .float x =>
      match x.parts with
      | .nan => none
      | .infinite neg =>
        if neg then (if 0 < step then none else some Int64.minValue.toInt)
        else if step < 0 then none else some Int64.maxValue.toInt
      | .finite .. => (if step < 0 then x.ceil? else x.floor?).map cut
  l.filter fun l => if 0 < step then first ≤ l else l ≤ first

def start (h : Heap) (first limit step : Val) : Start :=
  match first, step with
  | .int i, .int s =>
    if s = 0 then .fault "'for' step is zero"
    else
      match limit.toNumber? with
      | none => wrongControl h "limit" limit
      | some l =>
        match integerLimit i.toInt s.toInt l with
        | none => .skip
        | some l =>
          let rounds := (l - i.toInt).natAbs / s.toInt.natAbs
          .enter first (.int (Int64.ofNat rounds)) step
  | _, _ =>
    match limit.toNumber?, step.toNumber?, first.toNumber? with
    | none, _, _ => wrongControl h "limit" limit
    | _, none, _ => wrongControl h "step" step
    | _, _, none => wrongControl h "initial value" first
    | some l, some s, some i =>
      let zero := Binary64.zero false
      if s.toFloat.eq zero then .fault "'for' step is zero"
      else if if zero.lt s.toFloat then l.toFloat.lt i.toFloat else i.toFloat.lt l.toFloat then .skip
      else .enter (.float i.toFloat) (.float l.toFloat) (.float s.toFloat)

/-- The next counter and what is left of the second control value; `none` at the end. -/
def next (counter limit step : Val) : Option (Val × Val) :=
  match counter, limit, step with
  | .int i, .int n, .int s => if n = 0 then none else some (.int (i + s), .int (n - 1))
  | .float i, .float l, .float s =>
    let i := i.add s
    if if (Binary64.zero false).lt s then i.le l else l.le i then some (.float i, limit) else none
  | _, _, _ => none

end NumericLoop

open Activation in
/-- One instruction. -/
def Instr.step (i : Instr) (a : Activation) (h : Heap) : Stepped :=
  let n := a.size
  match i with
  | .push v => .on (a.push v) h
  | .pushNils k => .on (a.pushAll (List.replicate k .nil)) h
  | .varargs want => .on (a.pushAll (adjust want a.extra)) h
  | .getLocal s => .on (a.push (a.get h s)) h
  | .setLocal s =>
    let v := a.get h (n - 1)
    let (a, h) := (a.cut (n - 1)).setSlot h s v
    .on a h
  | .getUpvalue u => .on (a.push (h.cell (a.cells.getD u 0))) h
  | .setUpvalue u =>
    let v := a.get h (n - 1)
    .on (a.cut (n - 1)) (h.setCell (a.cells.getD u 0) v)
  | .index o =>
    a.settle h (Operation.index h (a.get h (n - 2)) (a.get h (n - 1))) 2 [o] "index"
  | .setIndex pos o =>
    a.settleStore h (Operation.setIndex h (a.get h pos) (a.get h (pos + 1)) (a.get h (n - 1))) [o]
  | .method name o =>
    let v := a.get h (n - 1)
    match Operation.index h v (.str name) with
    | .done f => .on (((a.cut (n - 1)).push f).push v) h
    | .invoke f args =>
      .off (a.cut (n - 1)) h (.invoke f args (some ⟨"metamethod", "index"⟩) true (.method v))
    | .fault f => .off a h (.fault (f.render h [o]))
  | .newTable array hash =>
    if h.starved then .off a h .memory
    else
      let (t, h) := h.newTable { arraySize := array, hashRoom := Table.roomFor hash }
      .made (.on (a.push t) h)
  | .setList pos first =>
    match a.get h pos with
    | .table t =>
      let vs := a.valuesFrom h (pos + 1)
      let last := first - 1 + vs.length
      let h := h.modifyTable t fun t =>
        let t := if t.arraySize < last then t.resize last t.hashRoom else t
        (vs.foldl (fun (acc : Table × Nat) v => (acc.1.setInt acc.2 v, acc.2 + 1)) (t, first)).1
      .on (a.cut (pos + 1)) h
    | _ => .on (a.cut (pos + 1)) h
  | .arith op l r =>
    a.settle h (Operation.arith h op (a.get h (n - 2)) (a.get h (n - 1))) 2 [l, r]
      (op.event.drop 2).copy
  | .unary op o =>
    let v := a.get h (n - 1)
    a.settle h (Operation.arith h op v v) 1 [o, o] (op.event.drop 2).copy
  | .not => .on ((a.cut (n - 1)).push (.bool !(a.get h (n - 1)).truthy)) h
  | .length o => a.settle h (Operation.length h (a.get h (n - 1))) 1 [o] "len"
  | .concat l r =>
    if h.starved then .off a h .memory
    else
      .made (a.settle h (Operation.concat h (a.get h (n - 2)) (a.get h (n - 1))) 2 [l, r] "concat")
  | .compare op swapped =>
    let x := a.get h (n - 2)
    let y := a.get h (n - 1)
    let (o, negate) := if swapped then Operation.compare h op y x else Operation.compare h op x y
    match o with
    | .done b => .on ((a.cut (n - 2)).push (.bool b)) h
    | .invoke f args =>
      .off (a.cut (n - 2)) h
        (.invoke f args (some ⟨"metamethod", (op.event.drop 2).copy⟩) true (.test negate))
    | .fault f => .off a h (.fault (f.render h []))
  | .jump target => .on (a.jump target) h
  | .jumpUnless target =>
    let v := a.get h (n - 1)
    let a := a.cut (n - 1)
    .on (if v.truthy then a else a.jump target) h
  | .jumpKeep truth target =>
    if (a.get h (n - 1)).truthy = truth then .on (a.jump target) h else .on (a.cut (n - 1)) h
  | .call pos want callee =>
    let f := a.get h pos
    let args := a.valuesFrom h (pos + 1)
    .off (a.cut pos) h (.invoke f args callee false (.push want))
  | .tailCall pos callee => .off a h (.tail (a.get h pos) (a.valuesFrom h (pos + 1)) callee)
  | .ret pos => (a.closeNext? h 0).getD (.off a h (.ret (a.valuesFrom h pos)))
  | .closure i =>
    if h.starved then .off a h .memory
    else
      match a.proto.protos[i]? with
      | some p =>
        let (cells, a, h) := captureAll p.upvalues.toList a h #[]
        let (f, h) := h.newClosure (.script p cells)
        .made (.on (a.push f) h)
      | none => .on (a.push .nil) h
  | .scope height => (a.closeNext? h height).getD (.on (a.cut height) h)
  | .toClose slot name =>
    let v := a.get h slot
    if !v.truthy then .on a h
    else if (h.metafield v "__close").isNil then
      .off a h (.fault ("variable '" ++ name ++ "' got a non-closable value"))
    else .on { a with closers := slot :: a.closers } h
  | .forPrep pos target =>
    match NumericLoop.start h (a.get h pos) (a.get h (pos + 1)) (a.get h (pos + 2)) with
    | .skip => .on (a.jump target) h
    | .enter i l s => .on ((a.cut pos).pushAll [i, l, s, i]) h
    | .fault e => .off a h (.fault e)
  | .forLoop pos target =>
    let step := a.get h (pos + 2)
    match NumericLoop.next (a.get h pos) (a.get h (pos + 1)) step with
    | some (i, l) => .on (((a.cut pos).pushAll [i, l, step, i]).jump target) h
    | none => .on a h
  | .forCall pos vars =>
    .off a h (.invoke (a.get h pos) [a.get h (pos + 1), a.get h (pos + 2)]
      (some ⟨"for iterator", "for iterator"⟩) false (.push (some vars)))
  | .forTest pos target =>
    let v := a.get h (pos + 4)
    if v.isNil then .on (a.jump target) h
    else .on { a with slots := a.slots.setIfInBounds (pos + 2) (.plain v) } h
  | .store pos =>
    let k := a.get h (n - 2)
    match Operation.keyFault? k with
    | some e => .off a h (.fault e)
    | none => .on (a.cut (n - 2)) (h.rawSet (a.get h pos) k (a.get h (n - 1)))
  | .reload slot pos =>
    .on { a with slots := a.slots.setIfInBounds pos (.plain (a.get h slot)) } h

/-- Runs an activation for at most so many instructions. -/
def Activation.run : Nat → Activation → Heap → Activation × Heap × Stop
  | 0, a, h => (a, h, .pause)
  | fuel + 1, a, h =>
    match a.proto.code[a.pc]? with
    | none => (a, h, .ret [])
    | some i =>
      match i.step { a with pc := a.pc + 1 } h with
      | .on a h => run fuel a h
      | .off a h s => (a, h, s)

end LuaEmbed.Engine
