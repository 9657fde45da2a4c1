import LuaEmbed.Engine.Code

/-!
Programs as trees. Names are already resolved: a local is known by its slot, an upvalue by its
number, and a global is a field of the variable `_ENV`.
-/
namespace LuaEmbed.Engine

inductive BinaryOp where
  | arith (op : ArithOp)
  | compare (op : CompareOp) (swapped : Bool)
  | notEqual
  | concat
  | and
  | or
  deriving Inhabited

inductive UnaryOp where
  | arith (op : ArithOp)
  | not
  | length
  deriving Inhabited

/-- Where a variable lives. -/
inductive Place where
  | slot (i : Nat)
  | upvalue (i : Nat)
  deriving Inhabited

mutual

inductive Expr where
  | const (v : Val)
  | varargs (line : Nat)
  | var (place : Place) (name : Bytes) (line : Nat)
  | index (object key : Expr) (line : Nat)
  | call (f : Expr) (args : List Expr) (line : Nat)
  | method (object : Expr) (name : Bytes) (args : List Expr) (line : Nat)
  | function (body : FunctionBody) (line : Nat)
  | table (items : List Item) (line : Nat)
  | unary (op : UnaryOp) (e : Expr) (line : Nat)
  | binary (op : BinaryOp) (a b : Expr) (line : Nat)
  /-- Cut to one value by parentheses. -/
  | paren (e : Expr)

inductive Item where
  | positional (e : Expr)
  | keyed (key value : Expr) (line : Nat)

inductive Stmt where
  /-- New locals, one of which may have to be closed when it goes. -/
  | local (count : Nat) (values : List Expr) (close : Option (Nat × Bytes)) (line : Nat)
  | localFunction (body : FunctionBody) (line : Nat)
  | assign (targets values : List Expr) (line : Nat)
  | call (e : Expr)
  | block (b : List Stmt) (line : Nat)
  | while (cond : Expr) (b : List Stmt) (leave : Nat) (line : Nat)
  | repeat (b : List Stmt) (cond : Expr) (leave : Nat) (line : Nat)
  | branch (clauses : List Clause) (otherwise : List Stmt) (line : Nat)
  | forRange (first last step : Expr) (b : List Stmt) (leave : Nat) (line : Nat)
  | forEach (vars : Nat) (values : List Expr) (b : List Stmt) (leave : Nat) (line : Nat)
  | ret (values : List Expr) (line : Nat)
  | goto (jump : Nat) (line : Nat)
  /-- A label, with the number of slots in use at it. -/
  | label (id height : Nat)

inductive Clause where
  | mk (cond : Expr) (b : List Stmt) (line : Nat)

/-- A function; `jumps` gives the label that each jump goes to. -/
inductive FunctionBody where
  | mk (params : Nat) (isVararg : Bool) (upvalues : List UpvalueDesc) (b : List Stmt)
      (jumps : List (Nat × Nat)) (serial endLine : Nat)

end

instance : Inhabited Expr := ⟨.const .nil⟩
instance : Inhabited Stmt := ⟨.block [] 0⟩
instance : Inhabited FunctionBody := ⟨.mk 0 false [] [] [] 0 0⟩

namespace Expr

/-- Whether an expression may yield any number of values. -/
def isOpen : Expr → Bool
  | varargs _ | call .. | method .. => true
  | _ => false

/-- The name a diagnostic gives to the value of an expression. -/
def origin : Expr → Option Origin
  | const (.str s) => some ⟨"constant", s⟩
  | var (.slot _) name _ => some ⟨"local", name⟩
  | var (.upvalue _) name _ => some ⟨"upvalue", name⟩
  | index (var _ env _) (const (.str k)) _ =>
    some ⟨if env = Bytes.ofString "_ENV" then "global" else "field", k⟩
  | index _ (const (.str k)) _ => some ⟨"field", k⟩
  | index _ (const (.int _)) _ => some ⟨"field", Bytes.ofString "integer index"⟩
  | index _ _ _ => some ⟨"field", Bytes.ofString "?"⟩
  | paren e => e.origin
  | _ => none

end Expr
end LuaEmbed.Engine
