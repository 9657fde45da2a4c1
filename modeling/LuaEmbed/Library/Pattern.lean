import LuaEmbed.Text.Ascii

/-!
Patterns: character classes, sets, repetitions, captures, balanced pairs and frontiers. A match is
searched by backtracking; every nested attempt starts further on in the pattern.
-/
namespace LuaEmbed.Pattern

/-- How far a capture reaches. -/
inductive Extent where
  | closed (length : Nat)
  | position
  | unfinished
  deriving DecidableEq, Inhabited

structure Capture where
  start : Nat
  extent : Extent
  deriving Inhabited

/-- Why a pattern cannot be used. -/
inductive Fault where
  | endsWithEscape
  | missingBracket
  | missingBalance
  | missingFrontierSet
  | tooManyCaptures
  | badCapture
  | unfinishedCapture
  | captureIndex (i : Nat)
  | tooComplex

def Fault.message : Fault → String
  | endsWithEscape => "malformed pattern (ends with '%')"
  | missingBracket => "malformed pattern (missing ']')"
  | missingBalance => "malformed pattern (missing arguments to '%b')"
  | missingFrontierSet => "missing '[' after '%f' in pattern"
  | tooManyCaptures => "too many captures"
  | badCapture => "invalid pattern capture"
  | unfinishedCapture => "unfinished capture"
  | captureIndex i => s!"invalid capture index %{i}"
  | tooComplex => "pattern too complex"

structure Problem where
  subject : Bytes
  pattern : Bytes

/-- The end of a match and its captures. -/
abbrev Result := Except Fault (Option (Nat × Array Capture))

namespace Problem

variable (q : Problem)

def at? (s : Nat) : Option UInt8 := q.subject.data[s]?

def pat? (p : Nat) : Option UInt8 := q.pattern.data[p]?

/-- The byte of the pattern at a position; zero past the end. -/
def pat (p : Nat) : UInt8 := (q.pat? p).getD 0

def escape : UInt8 := 37

/-- The end of a set whose items start at a position. -/
def setEnd : Nat → Nat → Except Fault Nat
  | 0, _ => .error .missingBracket
  | fuel + 1, p =>
    match q.pat? p with
    | none => .error .missingBracket
    | some c =>
      let p := if c = escape && p + 1 < q.pattern.size then p + 2 else p + 1
      if q.pat? p = some 93 then .ok (p + 1) else setEnd fuel p

/-- The end of the single-character item at a position. -/
def itemEnd (p : Nat) : Except Fault Nat :=
  let c := q.pat p
  if c = escape then
    if p + 1 = q.pattern.size then .error .endsWithEscape else .ok (p + 2)
  else if c = 91 then
    q.setEnd (q.pattern.size + 1) (if q.pat? (p + 1) = some 94 then p + 2 else p + 1)
  else .ok (p + 1)

/-- Whether a byte is in the class that a letter names; a capital names the complement. -/
def inClass (c letter : UInt8) : Bool :=
  let holds : Option Bool :=
    match Char.ofNat (Ascii.toLower letter).toNat with
    | 'a' => some (Ascii.isAlpha c)
    | 'c' => some (Ascii.isControl c)
    | 'd' => some (Ascii.isDigit c)
    | 'g' => some (Ascii.isGraphic c)
    | 'l' => some (Ascii.isLower c)
    | 'p' => some (Ascii.isPunctuation c)
    | 's' => some (Ascii.isSpace c)
    | 'u' => some (Ascii.isUpper c)
    | 'w' => some (Ascii.isAlphaNum c)
    | 'x' => some (Ascii.isHexDigit c)
    | _ => none
  match holds with
  | some b => if Ascii.isUpper letter then !b else b
  | none => letter = c

/-- Whether a byte is among the items of a set up to its last byte. -/
def inItems (c : UInt8) (last : Nat) : Nat → Nat → Bool
  | 0, _ => false
  | fuel + 1, p =>
    if last ≤ p then false
    else if q.pat p = escape then
      inClass c (q.pat (p + 1)) || inItems c last fuel (p + 2)
    else if q.pat (p + 1) = 45 && p + 2 < last then
      (q.pat p ≤ c && c ≤ q.pat (p + 2)) || inItems c last fuel (p + 3)
    else q.pat p = c || inItems c last fuel (p + 1)

/-- Whether a byte is in the set that opens at `p` and whose closing bracket is at `last`. -/
def inSet (c : UInt8) (p last : Nat) : Bool :=
  if q.pat (p + 1) = 94 then !q.inItems c last (q.pattern.size + 1) (p + 2)
  else q.inItems c last (q.pattern.size + 1) (p + 1)

/-- Whether the item from `p` to `ep` matches the byte at a position. -/
def single (s p ep : Nat) : Bool :=
  match q.at? s with
  | none => false
  | some c =>
    let k := q.pat p
    if k = 46 then true
    else if k = escape then inClass c (q.pat (p + 1))
    else if k = 91 then q.inSet c p (ep - 1)
    else k = c

/-- How many bytes from a position on match an item. -/
def run (s p ep : Nat) : Nat → Nat
  | 0 => 0
  | fuel + 1 => if q.single s p ep then run (s + 1) p ep fuel + 1 else 0

/-- The end of a balanced stretch. -/
def balanced (opening closing : UInt8) : Nat → Nat → Nat → Option Nat
  | 0, _, _ => none
  | fuel + 1, s, depth =>
    match q.at? s with
    | none => none
    | some c =>
      if c = closing then
        if depth = 1 then some (s + 1) else balanced opening closing fuel (s + 1) (depth - 1)
      else if c = opening then balanced opening closing fuel (s + 1) (depth + 1)
      else balanced opening closing fuel (s + 1) depth

/-- The latest capture still open. -/
def openCapture? (caps : Array Capture) : Option Nat :=
  (List.range caps.size).reverse.find? fun i =>
    decide ((caps.getD i default).extent = .unfinished)

/-- The text that a reference to an earlier capture stands for; a captured position has none. -/
def referred (caps : Array Capture) (digit : UInt8) : Except Fault (Option (List UInt8)) :=
  let i := digit.toNat - 49
  match (if digit < 49 then none else caps[i]?) with
  | some ⟨start, .closed n⟩ => .ok (some (q.subject.extract start (start + n)).data.toList)
  | some ⟨_, .position⟩ => .ok none
  | _ => .error (.captureIndex (digit.toNat - 48))

def isPrefixAt (bs : List UInt8) (s : Nat) : Bool :=
  (q.subject.extract s (s + bs.length)).data.toList = bs

/-- Tries the longest repetition first. -/
def longest (attempt : Nat → Result) (s : Nat) : Nat → Result
  | 0 => attempt s
  | n + 1 => do
    match ← attempt (s + n + 1) with
    | some r => return some r
    | none => longest attempt s n

/-- Tries the shortest repetition first. -/
def shortest (attempt : Nat → Result) (p ep : Nat) : Nat → Nat → Result
  | 0, s => attempt s
  | fuel + 1, s => do
    match ← attempt s with
    | some r => return some r
    | none => if q.single s p ep then shortest attempt p ep fuel (s + 1) else return none

/-- Matches the pattern from `p` on against the subject from `s` on. `depth` bounds the nesting of
attempts, and the first argument the items of the pattern. -/
def matchFrom : Nat → Nat → Nat → Nat → Array Capture → Result
  | 0, _, _, _, _ => .error .tooComplex
  | fuel + 1, depth, s, p, caps => do
    if depth = 0 then throw .tooComplex
    let atEnd := p = q.pattern.size
    let plain : Unit → Result := fun _ => do
      let ep ← q.itemEnd p
      let rest (depth : Nat) (s p : Nat) : Result := matchFrom fuel depth s p caps
      let left := q.subject.size - s
      match Char.ofNat (q.pat ep).toNat with
      | '?' =>
        if q.single s p ep then
          match ← rest (depth - 1) (s + 1) (ep + 1) with
          | some r => return some r
          | none => rest depth s (ep + 1)
        else rest depth s (ep + 1)
      | '+' =>
        if q.single s p ep then
          longest (fun s => rest (depth - 1) s (ep + 1)) (s + 1) (q.run (s + 1) p ep left)
        else return none
      | '*' => longest (fun s => rest (depth - 1) s (ep + 1)) s (q.run s p ep left)
      | '-' => q.shortest (fun s => rest (depth - 1) s (ep + 1)) p ep left s
      | _ => if q.single s p ep then rest depth (s + 1) ep else return none
    if atEnd then return some (s, caps)
    match Char.ofNat (q.pat p).toNat with
    | '(' =>
      if 32 ≤ caps.size then throw .tooManyCaptures
      if q.pat? (p + 1) = some 41 then
        matchFrom fuel (depth - 1) s (p + 2) (caps.push ⟨s, .position⟩)
      else matchFrom fuel (depth - 1) s (p + 1) (caps.push ⟨s, .unfinished⟩)
    | ')' =>
      match openCapture? caps with
      | none => throw .badCapture
      | some i =>
        let c := caps.getD i default
        matchFrom fuel (depth - 1) s (p + 1) (caps.setIfInBounds i ⟨c.start, .closed (s - c.start)⟩)
    | '$' =>
      if p + 1 = q.pattern.size then
        return if s = q.subject.size then some (s, caps) else none
      else plain ()
    | '%' =>
      match Char.ofNat (q.pat (p + 1)).toNat with
      | 'b' =>
        if q.pattern.size ≤ p + 3 then throw .missingBalance
        if q.at? s = some (q.pat (p + 2)) then
          match q.balanced (q.pat (p + 2)) (q.pat (p + 3)) (q.subject.size - s) (s + 1) 1 with
          | some e => matchFrom fuel depth e (p + 4) caps
          | none => return none
        else return none
      | 'f' =>
        let p := p + 2
        if q.pat? p ≠ some 91 then throw .missingFrontierSet
        let ep ← q.itemEnd p
        let before := if s = 0 then 0 else (q.at? (s - 1)).getD 0
        if !q.inSet before p (ep - 1) && q.inSet ((q.at? s).getD 0) p (ep - 1) then
          matchFrom fuel depth s ep caps
        else return none
      | d =>
        if d.isDigit then
          match ← q.referred caps (q.pat (p + 1)) with
          | some text =>
            if q.isPrefixAt text s then matchFrom fuel depth (s + text.length) (p + 2) caps
            else return none
          | none => return none
        else plain ()
    | _ => plain ()

/-- Matches at one position; `p` is where the pattern proper starts. -/
def matchAt (s p : Nat) : Result := q.matchFrom (q.pattern.size + 1) 200 s p #[]

/-- The first match from a position on: where it starts, where it ends, its captures. -/
def search (anchored : Bool) (p : Nat) : Nat → Nat →
    Except Fault (Option (Nat × Nat × Array Capture))
  | 0, _ => .ok none
  | fuel + 1, s => do
    match ← q.matchAt s p with
    | some (e, caps) => return some (s, e, caps)
    | none => if anchored then return none else search anchored p fuel (s + 1)

/-- Where the pattern proper starts, and whether it is tied to the start of the subject. -/
def anchor : Bool × Nat := if q.pat? 0 = some 94 then (true, 1) else (false, 0)

end Problem

/-- The bytes with a meaning of their own in patterns. -/
def specials : List UInt8 := "^$*+?.([%-".toUTF8.data.toList

def isPlain (pattern : Bytes) : Bool := pattern.data.toList.all fun b => !specials.contains b

/-- Where a text first occurs in another from a position on. -/
def indexOf (subject text : Bytes) : Nat → Nat → Option Nat
  | 0, _ => none
  | fuel + 1, s =>
    if subject.size < s + text.size then none
    else if (subject.extract s (s + text.size)) = text then some s
    else indexOf subject text fuel (s + 1)

end LuaEmbed.Pattern
