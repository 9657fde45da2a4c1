import LuaEmbed.Engine.Arith
import LuaEmbed.Engine.Heap

/-!
Operations on values. Each is settled at once, asks for a metamethod to be called, or fails; who
runs the call is left to the machine.
-/
namespace LuaEmbed.Engine

/-- Why an operation fails, before any position is added to its message. -/
inductive Fault where
  /-- An operand of the wrong type; `operand` tells which of the operands it is, if one. -/
  | operand (what : String) (v : Val) (operand : Option Nat)
  /-- A number that equals no integer. -/
  | noInteger (operand : Nat)
  | plain (text : Bytes)

/-- An operation's outcome. -/
inductive Outcome (α : Type) where
  | done (a : α)
  | invoke (f : Val) (args : List Val)
  | fault (f : Fault)

namespace Operation

variable (h : Heap)

/-- Follows a chain of tables that stand in for missing fields. -/
def indexFrom : Nat → Bool → Val → Val → Outcome Val
  | 0, _, _, _ => .fault (.plain "'__index' chain too long; possibly a loop")
  | fuel + 1, isFirst, o, k =>
    let missing (m : Val) : Outcome Val :=
      match m with
      | .builtin _ | .closure _ => .invoke m [o, k]
      | _ => indexFrom fuel false m k
    match o with
    | .table i =>
      let v := (h.table i).get k
      if !v.isNil then .done v
      else
        match h.metafield o "__index" with
        | .nil => .done .nil
        | m => missing m
    | _ =>
      match h.metafield o "__index" with
      | .nil => .fault (.operand "index" o (if isFirst then some 0 else none))
      | m => missing m

/-- The value of a field. -/
def index (o k : Val) : Outcome Val := indexFrom h 2000 true o k

/-- Whether a value can be a key, or why not. -/
def keyFault? : Val → Option Bytes
  | .nil => some "table index is nil"
  | .float x => if x.isNaN then some "table index is NaN" else none
  | _ => none

def setIndexFrom : Nat → Bool → Val → Val → Val → Outcome Heap
  | 0, _, _, _, _ => .fault (.plain "'__newindex' chain too long; possibly a loop")
  | fuel + 1, isFirst, o, k, v =>
    let redirected (m : Val) : Outcome Heap :=
      match m with
      | .builtin _ | .closure _ => .invoke m [o, k, v]
      | _ => setIndexFrom fuel false m k v
    match o with
    | .table i =>
      let here : Unit → Outcome Heap := fun _ =>
        match keyFault? k with
        | some e => .fault (.plain e)
        | none => .done (h.modifyTable i (·.set k v))
      if ((h.table i).metatable).isNone || !((h.table i).get k).isNil then here ()
      else
        match h.metafield o "__newindex" with
        | .nil => here ()
        | m => redirected m
    | _ =>
      match h.metafield o "__newindex" with
      | .nil => .fault (.operand "index" o (if isFirst then some 0 else none))
      | m => redirected m

/-- The heap after a field has been set. -/
def setIndex (o k v : Val) : Outcome Heap := setIndexFrom h 2000 true o k v

/-- The metamethod for two operands: the first one's, or else the second one's. -/
def binaryMetamethod (event : String) (a b : Val) : Val :=
  match h.metafield a event with
  | .nil => h.metafield b event
  | m => m

/-- The operand at fault when both should be numbers. -/
def wrongOperand (a b : Val) : Val × Nat := if a.number?.isNone then (a, 0) else (b, 1)

def arith (op : ArithOp) (a b : Val) : Outcome Val :=
  let viaMeta : Unit → Outcome Val := fun _ =>
    match binaryMetamethod h op.event a b with
    | .nil =>
      if op.isBitwise && a.number?.isSome && b.number?.isSome then
        .fault (.noInteger (if (a.number?.bind Number.toInt64?).isNone then 0 else 1))
      else
        let (v, i) := wrongOperand a b
        let what := if op.isBitwise then "perform bitwise operation on" else "perform arithmetic on"
        .fault (.operand what v (some i))
    | m => .invoke m [a, b]
  match a.number?, b.number? with
  | some x, some y =>
    match Arith.apply op x y with
    | .ok n => .done (Val.ofNumber n)
    | .error .divideByZero => .fault (.plain "attempt to divide by zero")
    | .error .moduloByZero => .fault (.plain "attempt to perform 'n%0'")
    | .error .noInteger => viaMeta ()
  | _, _ => viaMeta ()

/-- The fault of two values that have no order. -/
def orderFault (a b : Val) : Fault :=
  let s := operandTypeName h a
  let t := operandTypeName h b
  .plain (if s = t then "attempt to compare two " ++ s ++ " values"
    else "attempt to compare " ++ s ++ " with " ++ t)

/-- A comparison: its result, or a metamethod whose result is to be tested, and negated if so
stated. -/
def compare (op : CompareOp) (a b : Val) : Outcome Bool × Bool :=
  match op with
  | .eq =>
    let viaMeta (same : Bool) : Outcome Bool :=
      if same then .done true
      else
        match binaryMetamethod h "__eq" a b with
        | .nil => .done false
        | m => .invoke m [a, b]
    match a, b with
    | .table i, .table j => (viaMeta (i = j), false)
    | .userdata i, .userdata j => (viaMeta (i = j), false)
    | _, _ => (.done (a.rawEqual b), false)
  | .lt | .le =>
    match a, b with
    | .str s, .str t =>
      let o := Bytes.order s t
      (.done (if op = .lt then o = .lt else o ≠ .gt), false)
    | _, _ =>
      match a.number?, b.number? with
      | some x, some y => (.done (if op = .lt then Arith.lt x y else Arith.le x y), false)
      | _, _ =>
        match binaryMetamethod h op.event a b with
        | .nil =>
          if op = .le then
            match binaryMetamethod h "__lt" b a with
            | .nil => (.fault (orderFault h a b), false)
            | m => (.invoke m [b, a], true)
          else (.fault (orderFault h a b), false)
        | m => (.invoke m [a, b], false)

def concat (a b : Val) : Outcome Val :=
  match a.toText?, b.toText? with
  | some s, some t => .done (.str (s ++ t))
  | s, _ =>
    match binaryMetamethod h "__concat" a b with
    | .nil =>
      if s.isSome then .fault (.operand "concatenate" b (some 1))
      else .fault (.operand "concatenate" a (some 0))
    | m => .invoke m [a, b]

def length (v : Val) : Outcome Val :=
  match v with
  | .str s => .done (.int (Int64.ofNat s.size))
  | _ =>
    match h.metafield v "__len" with
    | .nil =>
      match v with
      | .table i => .done (.int (Int64.ofNat (h.table i).length))
      | _ => .fault (.operand "get length of" v (some 0))
    | m => .invoke m [v, v]

end Operation

/-- A fault's message; `origins` names the operands. -/
def Fault.render (h : Heap) (origins : List (Option Origin)) : Fault → Bytes
  | .operand what v i =>
    "attempt to " ++ what ++ " a " ++ operandTypeName h v ++ " value" ++ named i
  | .noInteger i => "number" ++ named (some i) ++ " has no integer representation"
  | .plain t => t
where
  named (i : Option Nat) : Bytes :=
    match i.bind fun i => (origins[i]?).join with
    | some o => " (" ++ o.kind ++ " '" ++ o.name ++ "')"
    | none => .empty

end LuaEmbed.Engine
