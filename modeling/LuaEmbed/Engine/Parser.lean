import LuaEmbed.Engine.Ast
import LuaEmbed.Engine.Token

/-!
From text to trees, in one pass that also resolves names, scopes and jumps, so that faults are
reported in the order in which the text shows them.
-/
namespace LuaEmbed.Engine

/-- Why a text did not load: it is not a program, or it is nested too deeply. -/
inductive LoadFault where
  | malformed (fault : SyntaxFault)
  | tooDeep
  deriving Inhabited

namespace Parser

/-- What a declared local may be used for. -/
inductive VarKind where
  | regular
  | fixed
  | toClose
  /-- A constant known when the text is read, which takes no slot. -/
  | known (v : Val)

structure LocalVar where
  name : Bytes
  kind : VarKind
  slot : Nat

structure Label where
  name : Bytes
  line : Nat
  id : Nat
  active : Nat

structure Jump where
  name : Bytes
  line : Nat
  id : Nat
  active : Nat

/-- A block being read, by what had been declared when it was opened. -/
structure Scope where
  active : Nat
  labels : Nat
  jumps : Nat
  loop : Option Nat

structure Upvalue where
  desc : UpvalueDesc
  fixed : Bool
  known : Option Val

/-- A function being read. -/
structure Function where
  vars : Array LocalVar := #[]
  scopes : List Scope := []
  labels : Array Label := #[]
  jumps : Array Jump := #[]
  resolved : List (Nat × Nat) := []
  upvalues : Array Upvalue := #[]
  isVararg : Bool := false
  line : Nat := 0

structure State where
  source : Source
  token : Token
  raw : Bytes
  lastLine : Nat
  ahead : Option Lexeme := none
  /-- The function being read, and those around it, innermost first. -/
  current : Function := {}
  outer : List Function := []
  nextId : Nat := 0
  serial : Nat := 0
  depth : Nat

end Parser

abbrev Parse := StateT Parser.State (Except LoadFault)

namespace Parser

def lexLine : Parse Nat := do return (← get).source.line

def throwNear (message : Bytes) (near : Option Bytes) : Parse α := do
  throw (.malformed ⟨message, ← lexLine, near⟩)

/-- A fault at the current token. -/
def fault (message : Bytes) : Parse α := do
  let s ← get
  throwNear message (s.token.display s.raw)

/-- A fault of meaning, which quotes no token. -/
def complain (message : Bytes) : Parse α := throwNear message none

def lexeme (s : Source) : Parse Lexeme :=
  match Token.next (s.rest.length + 1) s with
  | .ok l => return l
  | .error f => throw (.malformed f)

def advance : Parse Unit := do
  let s ← get
  let l ← match s.ahead with
    | some l => pure l
    | none => lexeme s.source
  set { s with
    lastLine := s.source.line, token := l.token, raw := l.raw, source := l.source, ahead := none }

/-- The token after the current one. -/
def peek : Parse Token := do
  let s ← get
  let l ← lexeme s.source
  set { s with ahead := some l }
  return l.token

def token : Parse Token := do return (← get).token

def isPunct (p : String) : Parse Bool := do return (← token) = .punct p

def isKeyword (k : String) : Parse Bool := do return (← token) = .keyword k

def expected (what : Bytes) : Parse α := fault (what ++ " expected")

def acceptPunct (p : String) : Parse Bool := do
  if ← isPunct p then advance; return true else return false

def acceptKeyword (k : String) : Parse Bool := do
  if ← isKeyword k then advance; return true else return false

def expectPunct (p : String) : Parse Unit := do
  if !(← acceptPunct p) then expected (Token.quoted p)

def expectKeyword (k : String) : Parse Unit := do
  if !(← acceptKeyword k) then expected (Token.quoted k)

/-- Closes a bracket or block opened by a token on some line. -/
def expectMatch (closing opening : Token) (line : Nat) : Parse Unit := do
  if (← token) = closing then advance
  else
    let show_ (t : Token) : Bytes := (t.display .empty).getD .empty
    if line = (← lexLine) then expected (show_ closing)
    else fault (show_ closing ++ " expected (to close " ++ show_ opening ++ s!" at line {line})")

def name : Parse Bytes := do
  match ← token with
  | .name s => advance; return s
  | _ => expected "<name>"

/-- Counts one more level of nesting while a part is read. -/
def nested (p : Parse α) : Parse α := do
  modify fun s => { s with depth := s.depth + 1 }
  if 200 ≤ (← get).depth then throw .tooDeep
  let a ← p
  modify fun s => { s with depth := s.depth - 1 }
  return a

def modifyFunction (f : Function → Function) : Parse Unit :=
  modify fun s => { s with current := f s.current }

def currentFunction : Parse Function := do return (← get).current

def freshId : Parse Nat :=
  modifyGet fun s => (s.nextId, { s with nextId := s.nextId + 1 })

def limitFault (what : String) (limit : Nat) (line : Nat) : Parse α :=
  let place := if line = 0 then "main function" else s!"function at line {line}"
  fault s!"too many {what} (limit is {limit}) in {place}"

/-- The slots that the first so many locals take. -/
def height (f : Function) (active : Nat) : Nat :=
  (f.vars.toList.take active).foldl
    (fun n v => match v.kind with | .known _ => n | _ => n + 1) 0

/-- The slots in use. -/
def slots : Parse Nat := do
  let f ← currentFunction
  return height f f.vars.size

/-- Refuses a local beyond the limit, `pending` others being read. -/
def checkLocals (pending : Nat) : Parse Unit := do
  let f ← currentFunction
  if 200 < f.vars.size + pending + 1 then limitFault "local variables" 200 f.line

def declare (name : Bytes) (kind : VarKind) : Parse Unit := do
  let n ← slots
  modifyFunction fun f => { f with vars := f.vars.push ⟨name, kind, n⟩ }

def openScope (loop : Option Nat) : Parse Unit :=
  modifyFunction fun f =>
    { f with scopes := ⟨f.vars.size, f.labels.size, f.jumps.size, loop⟩ :: f.scopes }

/-- Settles the jumps of the innermost scope that wait for a label. -/
def settle (label : Label) : Parse Unit := do
  let f ← currentFunction
  let first := (f.scopes.head?.map (·.jumps)).getD 0
  let waiting := f.jumps.toList.drop first
  for j in waiting do
    if j.name = label.name then
      if j.active < label.active then
        let var := (f.vars[j.active]?.map (·.name)).getD .empty
        complain ("<goto " ++ j.name ++ s!"> at line {j.line} jumps into the scope of local '"
          ++ var ++ "'")
  let (here, rest) := waiting.partition (·.name = label.name)
  modifyFunction fun f =>
    { f with
      jumps := (f.jumps.toList.take first ++ rest).toArray
      resolved := here.map (fun j => (j.id, label.id)) ++ f.resolved }

def closeScope : Parse Unit := do
  let f ← currentFunction
  match f.scopes with
  | [] => return
  | scope :: outer =>
    modifyFunction fun f => { f with vars := f.vars.extract 0 scope.active }
    if let some id := scope.loop then settle ⟨"break", 0, id, scope.active⟩
    modifyFunction fun f =>
      { f with
        labels := f.labels.extract 0 scope.labels
        scopes := outer
        jumps := (f.jumps.toList.zipIdx.map fun (j, i) =>
          if scope.jumps ≤ i then { j with active := min j.active scope.active } else j).toArray }
    if outer.isEmpty then
      let f ← currentFunction
      if let some j := f.jumps[scope.jumps]? then
        if j.name = Bytes.ofString "break" then
          complain s!"break outside loop at line {j.line}"
        else
          complain ("no visible label '" ++ j.name ++ s!"' for <goto> at line {j.line}")

def findLabel (name : Bytes) : Parse (Option Label) := do
  return (← currentFunction).labels.find? (·.name = name)

/-- Records a jump to a label, which may come later. -/
def jump (name : Bytes) (line : Nat) (label : Option Label) : Parse Nat := do
  let id ← freshId
  modifyFunction fun f =>
    match label with
    | some l => { f with resolved := (id, l.id) :: f.resolved }
    | none => { f with jumps := f.jumps.push ⟨name, line, id, f.vars.size⟩ }
  return id

/-- What a name means in a function. -/
inductive Meaning where
  | place (p : Place) (fixed : Bool)
  | known (v : Val)
  | unbound

/-- Looks a name up from a function outwards, adding the upvalues it needs on the way. -/
def lookup (name : Bytes) : Function → List Function → Meaning × Function × List Function
  | f, outer =>
    match (f.vars.toList.reverse.find? (·.name = name)) with
    | some v =>
      match v.kind with
      | .known c => (.known c, f, outer)
      | .regular => (.place (.slot v.slot) false, f, outer)
      | _ => (.place (.slot v.slot) true, f, outer)
    | none =>
      match f.upvalues.toList.zipIdx.find? (fun u => u.1.desc.name = name) with
      | some (u, i) => (.place (.upvalue i) u.fixed, f, outer)
      | none =>
        match outer with
        | [] => (.unbound, f, [])
        | g :: rest =>
          match lookup name g rest with
          | (.place p fixed, g, rest) =>
            let desc : UpvalueDesc :=
              match p with
              | .slot i => ⟨name, true, i⟩
              | .upvalue i => ⟨name, false, i⟩
            let f := { f with upvalues := f.upvalues.push ⟨desc, fixed, none⟩ }
            (.place (.upvalue (f.upvalues.size - 1)) fixed, f, g :: rest)
          | (m, g, rest) => (m, f, g :: rest)

def resolve (name : Bytes) : Parse Meaning := do
  let s ← get
  let (m, f, outer) := lookup name s.current s.outer
  if 255 < f.upvalues.size then limitFault "upvalues" 255 f.line
  set { s with current := f, outer }
  return m

/-- A variable, or a field of the globals. -/
def nameExpr (name : Bytes) (line : Nat) : Parse Expr := do
  match ← resolve name with
  | .place p _ => return .var p name line
  | .known v => return .const v
  | .unbound =>
    let env := Bytes.ofString "_ENV"
    match ← resolve env with
    | .place p _ => return .index (.var p env line) (.const (.str name)) line
    | _ => return .index (.const .nil) (.const (.str name)) line

/-- Refuses an assignment to a variable that may not change. -/
def checkAssignable (name : Bytes) : Parse Unit := do
  let refuse : Parse Unit :=
    complain ("attempt to assign to const variable '" ++ name ++ "'")
  match ← resolve name with
  | .place _ true | .known _ => refuse
  | _ => return

/-- Priorities of a binary operator on its left and right. -/
def binary? : Token → Option (BinaryOp × Nat × Nat)
  | .punct "+" => some (.arith .add, 10, 10)
  | .punct "-" => some (.arith .sub, 10, 10)
  | .punct "*" => some (.arith .mul, 11, 11)
  | .punct "%" => some (.arith .mod, 11, 11)
  | .punct "^" => some (.arith .pow, 14, 13)
  | .punct "/" => some (.arith .div, 11, 11)
  | .punct "//" => some (.arith .idiv, 11, 11)
  | .punct "&" => some (.arith .band, 6, 6)
  | .punct "|" => some (.arith .bor, 4, 4)
  | .punct "~" => some (.arith .bxor, 5, 5)
  | .punct "<<" => some (.arith .shl, 7, 7)
  | .punct ">>" => some (.arith .shr, 7, 7)
  | .punct ".." => some (.concat, 9, 8)
  | .punct "==" => some (.compare .eq false, 3, 3)
  | .punct "<" => some (.compare .lt false, 3, 3)
  | .punct "<=" => some (.compare .le false, 3, 3)
  | .punct "~=" => some (.notEqual, 3, 3)
  | .punct ">" => some (.compare .lt true, 3, 3)
  | .punct ">=" => some (.compare .le true, 3, 3)
  | .keyword "and" => some (.and, 2, 2)
  | .keyword "or" => some (.or, 1, 1)
  | _ => none

def unary? : Token → Option UnaryOp
  | .keyword "not" => some .not
  | .punct "-" => some (.arith .neg)
  | .punct "~" => some (.arith .bnot)
  | .punct "#" => some .length
  | _ => none

def unaryPriority : Nat := 12

/-- Whether a token ends a block. -/
def endsBlock (withUntil : Bool) : Token → Bool
  | .eof | .keyword "else" | .keyword "elseif" | .keyword "end" => true
  | .keyword "until" => withUntil
  | _ => false

/-- The value of a constant expression, for a local declared constant. -/
def constant? : Expr → Option Val
  | .const v => some v
  | .unary (.arith .neg) (.const (.int i)) _ => some (.int (-i))
  | .unary (.arith .neg) (.const (.float x)) _ => some (.float x.neg)
  | _ => none

/-- Refuses an expression that is no variable, or one that may not change. -/
def checkTarget (start : Token) (e : Expr) : Parse Unit :=
  match e, start with
  | .var _ n _, _ => checkAssignable n
  | .index .., _ => return
  | .const _, .name n => checkAssignable n
  | _, _ => fault "syntax error"

def outOfFuel : Parse α := fault "chunk too long"

mutual

def exprList : Nat → Parse (List Expr)
  | 0 => outOfFuel
  | fuel + 1 => do
    let e ← expr fuel
    if ← acceptPunct "," then return e :: (← exprList fuel) else return [e]

def expr : Nat → Parse Expr
  | 0 => outOfFuel
  | fuel + 1 => subExpr fuel 0

/-- An operand and the operators after it that bind tighter than a limit. -/
def subExpr : Nat → Nat → Parse Expr
  | 0, _ => outOfFuel
  | fuel + 1, limit => nested do
    let line ← lexLine
    let first ← match unary? (← token) with
      | some op => do
        advance
        let e ← subExpr fuel unaryPriority
        pure (.unary op e line)
      | none => simpleExpr fuel
    binaryTail fuel limit first

def binaryTail : Nat → Nat → Expr → Parse Expr
  | 0, _, _ => outOfFuel
  | fuel + 1, limit, left => do
    match binary? (← token) with
    | some (op, leftPriority, rightPriority) =>
      if limit < leftPriority then
        let line ← lexLine
        advance
        let right ← subExpr fuel rightPriority
        binaryTail fuel limit (.binary op left right line)
      else return left
    | none => return left

def simpleExpr : Nat → Parse Expr
  | 0 => outOfFuel
  | fuel + 1 => do
    let line ← lexLine
    match ← token with
    | .number n => advance; return .const (Val.ofNumber n)
    | .string s => advance; return .const (.str s)
    | .keyword "nil" => advance; return .const .nil
    | .keyword "true" => advance; return .const (.bool true)
    | .keyword "false" => advance; return .const (.bool false)
    | .punct "..." =>
      if !(← currentFunction).isVararg then
        fault "cannot use '...' outside a vararg function"
      advance
      return .varargs line
    | .punct "\x7b" => tableExpr fuel
    | .keyword "function" => do
      advance
      let b ← body fuel false line
      return .function b line
    | _ => suffixed fuel

def primary : Nat → Parse Expr
  | 0 => outOfFuel
  | fuel + 1 => do
    let line ← lexLine
    match ← token with
    | .name s => advance; nameExpr s line
    | .punct "(" => do
      advance
      let e ← expr fuel
      expectMatch (.punct ")") (.punct "(") line
      return .paren e
    | _ => fault "unexpected symbol"

def suffixed : Nat → Parse Expr
  | 0 => outOfFuel
  | fuel + 1 => do suffixes fuel (← primary fuel)

def suffixes : Nat → Expr → Parse Expr
  | 0, _ => outOfFuel
  | fuel + 1, e => do
    match ← token with
    | .punct "." => do
      advance
      let line ← lexLine
      let k ← name
      suffixes fuel (.index e (.const (.str k)) line)
    | .punct "[" => do
      let k ← bracketed fuel
      suffixes fuel (.index e k (← get).lastLine)
    | .punct ":" => do
      advance
      let k ← name
      let line ← lexLine
      let args ← arguments fuel
      suffixes fuel (.method e k args line)
    | .punct "(" | .punct "\x7b" | .string _ => do
      let line ← lexLine
      let args ← arguments fuel
      suffixes fuel (.call e args line)
    | _ => return e

def bracketed : Nat → Parse Expr
  | 0 => outOfFuel
  | fuel + 1 => do
    advance
    let k ← expr fuel
    expectPunct "]"
    return k

def arguments : Nat → Parse (List Expr)
  | 0 => outOfFuel
  | fuel + 1 => do
    let line ← lexLine
    match ← token with
    | .punct "(" => do
      advance
      if ← acceptPunct ")" then return []
      let args ← exprList fuel
      expectMatch (.punct ")") (.punct "(") line
      return args
    | .punct "\x7b" => return [← tableExpr fuel]
    | .string s => advance; return [.const (.str s)]
    | _ => fault "function arguments expected"

def tableExpr : Nat → Parse Expr
  | 0 => outOfFuel
  | fuel + 1 => do
    let line ← lexLine
    expectPunct "\x7b"
    let items ← tableItems fuel
    expectMatch (.punct "\x7d") (.punct "\x7b") line
    return .table items line

def tableItems : Nat → Parse (List Item)
  | 0 => outOfFuel
  | fuel + 1 => do
    if ← isPunct "\x7d" then return []
    let line ← lexLine
    let item ← match ← token with
      | .name s => do
        if (← peek) = .punct "=" then
          advance
          advance
          pure (Item.keyed (.const (.str s)) (← expr fuel) line)
        else pure (.positional (← expr fuel))
      | .punct "[" => do
        let k ← bracketed fuel
        expectPunct "="
        pure (.keyed k (← expr fuel) line)
      | _ => pure (.positional (← expr fuel))
    if (← acceptPunct ",") || (← acceptPunct ";") then return item :: (← tableItems fuel)
    else return [item]

/-- Parameters after the opening parenthesis: their names, and whether more are taken. -/
def parameters : Nat → Nat → Parse (List Bytes × Bool)
  | 0, _ => outOfFuel
  | fuel + 1, count => do
    match ← token with
    | .name s => do
      advance
      checkLocals count
      if ← acceptPunct "," then
        let (rest, v) ← parameters fuel (count + 1)
        return (s :: rest, v)
      else return ([s], false)
    | .punct "..." => advance; return ([], true)
    | _ => expected "<name> or '...'"

/-- A function from its parameter list to its end. -/
def body : Nat → Bool → Nat → Parse FunctionBody
  | 0, _, _ => outOfFuel
  | fuel + 1, isMethod, line => do
    modify fun s => { s with
      outer := s.current :: s.outer, current := { line }, serial := s.serial + 1 }
    let serial := (← get).serial
    openScope none
    expectPunct "("
    if isMethod then declare "self" .regular
    let (names, isVararg) ←
      if ← isPunct ")" then pure ([], false) else parameters fuel 0
    for n in names do declare n .regular
    modifyFunction fun f => { f with isVararg }
    expectPunct ")"
    let stmts ← statements fuel
    let endLine ← lexLine
    expectMatch (.keyword "end") (.keyword "function") line
    closeScope
    let f ← currentFunction
    modify fun s => { s with current := s.outer.headD {}, outer := s.outer.tail }
    return .mk (names.length + if isMethod then 1 else 0) isVararg
      (f.upvalues.toList.map (·.desc)) stmts f.resolved serial endLine

def statements : Nat → Parse (List Stmt)
  | 0 => outOfFuel
  | fuel + 1 => do
    let t ← token
    if endsBlock true t then return []
    else if t = .keyword "return" then return ← nested (returnStmt fuel)
    else
      let first ← nested (statement fuel)
      return first ++ (← statements fuel)

def returnStmt : Nat → Parse (List Stmt)
  | 0 => outOfFuel
  | fuel + 1 => do
    let line ← lexLine
    advance
    let values ←
      if endsBlock true (← token) || (← isPunct ";") then pure [] else exprList fuel
    discard (acceptPunct ";")
    return [.ret values line]

def block : Nat → Option Nat → Parse (List Stmt)
  | 0, _ => outOfFuel
  | fuel + 1, loop => do
    openScope loop
    let b ← statements fuel
    closeScope
    return b

def statement : Nat → Parse (List Stmt)
  | 0 => outOfFuel
  | fuel + 1 => do
    let line ← lexLine
    match ← token with
    | .punct ";" => advance; return []
    | .keyword "if" => return [← ifStmt fuel line]
    | .keyword "while" => do
      advance
      let cond ← expr fuel
      let leave ← freshId
      openScope (some leave)
      expectKeyword "do"
      let b ← block fuel none
      expectMatch (.keyword "end") (.keyword "while") line
      closeScope
      return [.while cond b leave line]
    | .keyword "do" => do
      advance
      let b ← block fuel none
      expectMatch (.keyword "end") (.keyword "do") line
      return [.block b line]
    | .keyword "for" => return [← forStmt fuel line]
    | .keyword "repeat" => do
      advance
      let leave ← freshId
      openScope (some leave)
      openScope none
      let b ← statements fuel
      expectMatch (.keyword "until") (.keyword "repeat") line
      let cond ← expr fuel
      closeScope
      closeScope
      return [.repeat b cond leave line]
    | .keyword "function" => functionStmt fuel line
    | .keyword "local" => do
      advance
      if ← acceptKeyword "function" then
        checkLocals 0
        let n ← name
        declare n .regular
        let b ← body fuel false (← lexLine)
        return [.localFunction b line]
      else localStmt fuel line
    | .punct "::" => do
      advance
      labelStmt fuel (← name) line
    | .keyword "break" => do
      advance
      return [.goto (← jump "break" line none) line]
    | .keyword "goto" => do
      advance
      let n ← name
      return [.goto (← jump n line (← findLabel n)) line]
    | _ => exprStmt fuel line

/-- Empty statements and labels after a label. -/
def emptyStatements : Nat → Parse (List Stmt)
  | 0 => outOfFuel
  | fuel + 1 => do
    if (← isPunct ";") || (← isPunct "::") then
      let first ← nested (statement fuel)
      return first ++ (← emptyStatements fuel)
    else return []

def labelStmt : Nat → Bytes → Nat → Parse (List Stmt)
  | 0, _, _ => outOfFuel
  | fuel + 1, n, line => do
    expectPunct "::"
    let rest ← emptyStatements fuel
    if let some l ← findLabel n then
      complain ("label '" ++ n ++ s!"' already defined on line {l.line}")
    let id ← freshId
    let f ← currentFunction
    let isLast := endsBlock false (← token)
    let active := if isLast then (f.scopes.head?.map (·.active)).getD 0 else f.vars.size
    let label : Label := ⟨n, line, id, active⟩
    modifyFunction fun f => { f with labels := f.labels.push label }
    settle label
    return rest ++ [.label id (height f active)]

def clauses : Nat → Nat → Parse (List Clause × List Stmt)
  | 0, _ => outOfFuel
  | fuel + 1, line => do
    advance
    let cond ← expr fuel
    expectKeyword "then"
    let b ← block fuel none
    let here ← lexLine
    if ← isKeyword "elseif" then
      let (rest, otherwise) ← clauses fuel line
      return (.mk cond b here :: rest, otherwise)
    else
      let otherwise ← if ← acceptKeyword "else" then block fuel none else pure []
      expectMatch (.keyword "end") (.keyword "if") line
      return ([.mk cond b here], otherwise)

def ifStmt : Nat → Nat → Parse Stmt
  | 0, _ => outOfFuel
  | fuel + 1, line => do
    let (cs, otherwise) ← clauses fuel line
    return .branch cs otherwise line

def forStmt : Nat → Nat → Parse Stmt
  | 0, _ => outOfFuel
  | fuel + 1, line => do
    let leave ← freshId
    openScope (some leave)
    advance
    let first ← name
    let control (n : Nat) : Parse Unit := do
      for _ in List.range n do declare "(for state)" .regular
    match ← token with
    | .punct "=" => do
      advance
      let a ← expr fuel
      expectPunct ","
      let b ← expr fuel
      let step ← if ← acceptPunct "," then expr fuel else pure (.const (.int 1))
      control 3
      expectKeyword "do"
      openScope none
      declare first .regular
      let stmts ← block fuel none
      closeScope
      expectMatch (.keyword "end") (.keyword "for") line
      closeScope
      return .forRange a b step stmts leave line
    | .punct "," | .keyword "in" => do
      let rest ← nameTail fuel 4
      expectKeyword "in"
      let line' ← lexLine
      let values ← exprList fuel
      control 4
      expectKeyword "do"
      openScope none
      for n in first :: rest do declare n .regular
      let stmts ← block fuel none
      closeScope
      expectMatch (.keyword "end") (.keyword "for") line
      closeScope
      return .forEach (rest.length + 1) values stmts leave line'
    | _ => expected "'=' or 'in'"

/-- More names after commas, so many locals already pending. -/
def nameTail : Nat → Nat → Parse (List Bytes)
  | 0, _ => outOfFuel
  | fuel + 1, pending => do
    if ← acceptPunct "," then
      let n ← name
      checkLocals pending
      return n :: (← nameTail fuel (pending + 1))
    else return []

def functionStmt : Nat → Nat → Parse (List Stmt)
  | 0, _ => outOfFuel
  | fuel + 1, line => do
    advance
    let n ← name
    let base ← nameExpr n line
    let (target, isMethod) ← functionName fuel base
    let b ← body fuel isMethod line
    if let .var _ v _ := target then checkAssignable v
    return [.assign [target] [.function b line] line]

def functionName : Nat → Expr → Parse (Expr × Bool)
  | 0, _ => outOfFuel
  | fuel + 1, e => do
    let line ← lexLine
    if ← acceptPunct "." then
      functionName fuel (.index e (.const (.str (← name))) line)
    else if ← acceptPunct ":" then
      return (.index e (.const (.str (← name))) line, true)
    else return (e, false)

/-- The names of a local declaration with their attributes. -/
def attributed : Nat → Nat → Parse (List (Bytes × VarKind))
  | 0, _ => outOfFuel
  | fuel + 1, pending => do
    let n ← name
    checkLocals pending
    let kind ←
      if ← acceptPunct "<" then do
        let a ← name
        expectPunct ">"
        if a = Bytes.ofString "const" then pure VarKind.fixed
        else if a = Bytes.ofString "close" then pure .toClose
        else complain ("unknown attribute '" ++ a ++ "'")
      else pure .regular
    if ← acceptPunct "," then return (n, kind) :: (← attributed fuel (pending + 1))
    else return [(n, kind)]

def localStmt : Nat → Nat → Parse (List Stmt)
  | 0, _ => outOfFuel
  | fuel + 1, line => do
    let vars ← attributed fuel 0
    let closing := vars.zipIdx.filter fun v => match v.1.2 with | .toClose => true | _ => false
    if 1 < closing.length then
      complain "multiple to-be-closed variables in local list"
    let values ← if ← acceptPunct "=" then exprList fuel else pure []
    let lastConst : Option Val :=
      match vars.getLast?, values.getLast? with
      | some (_, .fixed), some e => if vars.length = values.length then constant? e else none
      | _, _ => none
    match lastConst with
    | some v =>
      for (n, k) in vars.dropLast do declare n k
      declare ((vars.getLast?.map (·.1)).getD .empty) (.known v)
      if values.length ≤ 1 then return []
      else return [.local (vars.length - 1) values.dropLast none line]
    | none =>
      let base ← slots
      for (n, k) in vars do declare n k
      let close := closing.head?.map fun v => (base + v.2, v.1.1)
      return [.local vars.length values close line]

/-- The targets of an assignment after the one given, which began with a token. -/
def targetTail : Nat → Token → Expr → Parse (List Expr)
  | 0, _, _ => outOfFuel
  | fuel + 1, start, e => do
    checkTarget start e
    if ← acceptPunct "," then
      let start ← token
      let e ← nested (suffixed fuel)
      return e :: (← targetTail fuel start e)
    else return []

def exprStmt : Nat → Nat → Parse (List Stmt)
  | 0, _ => outOfFuel
  | fuel + 1, line => do
    let start ← token
    let e ← suffixed fuel
    if (← isPunct "=") || (← isPunct ",") then
      let rest ← targetTail fuel start e
      expectPunct "="
      let values ← exprList fuel
      return [.assign (e :: rest) values line]
    else
      match e with
      | .call .. | .method .. => return [.call e]
      | _ => fault "syntax error"

end

/-- A whole chunk: a function of any arguments whose only upvalue is the globals. -/
def chunk (text : Bytes) (depth : Nat) : Except LoadFault FunctionBody := do
  let bytes := text.data.toList
  let fuel := 16 * (bytes.length + 16)
  let env : Upvalue := ⟨⟨Bytes.ofString "_ENV", true, 0⟩, false, none⟩
  let start : State :=
    { source := ⟨bytes, 1⟩, token := .eof, raw := .empty, lastLine := 1, depth
      current := { isVararg := true, upvalues := #[env] } }
  let read : Parse FunctionBody := do
    advance
    openScope none
    let stmts ← statements fuel
    if (← token) ≠ .eof then expected "<eof>"
    closeScope
    let f ← currentFunction
    return .mk 0 true (f.upvalues.toList.map (·.desc)) stmts f.resolved 0 (← lexLine)
  return (← read.run start).1

end Parser
end LuaEmbed.Engine
