import LuaEmbed.Engine.Action
import LuaEmbed.Library.Pattern

/-!
Functions on texts: pieces, repetition, searching by pattern and formatting.
-/
namespace LuaEmbed.Library

open Engine

/-- The text of any value, as a declared conversion or the type decides. -/
def display (v : Val) (keep : List Val) : Native Bytes := do
  let h ← Native.heap
  match h.metafield v "__tostring" with
  | .nil =>
    match v with
    | .nil => return "nil"
    | .bool b => return if b then "true" else "false"
    | .int _ | .float _ | .str _ => return v.toText?.getD .empty
    | _ =>
      let kind : Bytes :=
        match h.metafield v "__name" with
        | .str s => s
        | _ => v.typeName
      return kind ++ ": " ++ addressText v
  | m =>
    match ← Native.call m [v] keep with
    | .str s :: _ => return s
    | r :: _ =>
      match r.toText? with
      | some s => return s
      | none => Native.fail "'__tostring' must return a string"
    | [] => Native.fail "'__tostring' must return a string"

namespace Strings

/-- The slice of `size` bytes that starts and ends at the given places, counted from either
end. -/
def window (first last : Int) (size : Nat) : Nat × Nat :=
  let n : Int := size
  let start := if 0 < first then first else if first = 0 then 1 else max 1 (n + first + 1)
  let stop := if last > n then n else if 0 ≤ last then last else max 0 (n + last + 1)
  ((start - 1).toNat, stop.toNat)

def slice (s : Bytes) (first last : Int) : Bytes :=
  let (a, b) := window first last s.size
  if a < b then s.extract a b else .empty

/-- Where a search starts: `none` if beyond the end. -/
def startAt (init : Int) (size : Nat) : Option Nat :=
  let (a, _) := window init (-1) size
  if size < a then none else some a

variable (args : Args)

def len : Native (List Val) := do
  return [.ofNat (← args.text 1).size]

def sub : Native (List Val) := do
  let s ← args.text 1
  let i ← args.integer 2
  let j ← args.integerOr 3 (-1)
  return [.str (slice s i.toInt j)]

def mapBytes (f : UInt8 → UInt8) : Native (List Val) := do
  let s ← args.text 1
  return [.str ⟨s.data.map f⟩]

def reverse : Native (List Val) := do
  let s ← args.text 1
  return [.str ⟨s.data.reverse⟩]

/-- The longest text that can be made. -/
def maxSize : Nat := 2 ^ 63 - 1

def rep : Native (List Val) := do
  let s ← args.text 1
  let n ← args.integer 2
  let sep ← args.textOr 3 .empty
  let n := n.toInt.toNat
  if n = 0 then return [.str .empty]
  if maxSize / n < s.size + sep.size then Native.fail "resulting string too large"
  -- A text beyond this size cannot be held.
  if 2 ^ 31 < (s.size + sep.size) * n then Native.raiseMemory
  let unit := s ++ sep
  let all := (List.range (n - 1)).foldl (fun (b : Bytes) _ => b ++ unit) .empty
  return [.str (all ++ s)]

def byte : Native (List Val) := do
  let s ← args.text 1
  let i ← args.integerOr 2 1
  let j ← args.integerOr 3 i
  return (slice s i j).data.toList.map fun b => .ofNat b.toNat

def charFrom : Nat → Args → Native (List UInt8)
  | _, [] => return []
  | i, v :: rest => do
    let c ← Args.integer (List.replicate (i - 1) .nil ++ [v]) i
    if c.toInt < 0 || 255 < c.toInt then Native.badArgument i "value out of range"
    return UInt8.ofNat c.toInt.toNat :: (← charFrom (i + 1) rest)

def char : Native (List Val) := do
  return [.str (Bytes.ofList (← charFrom 1 args))]

variable {α : Type}

/-- A search's outcome, or the complaint about its pattern. -/
def orFail (r : Except Pattern.Fault α) : Native α := do
  match r with
  | .ok a => return a
  | .error f => Native.fail f.message

/-- The value of a capture; the whole match stands for the first one if there are none. -/
def capture (q : Pattern.Problem) (start stop : Nat) (caps : Array Pattern.Capture) (i : Nat) :
    Native Val := do
  match caps[i]? with
  | none =>
    if i = 0 then return .str (q.subject.extract start stop)
    else Native.fail (Pattern.Fault.message (.captureIndex (i + 1)))
  | some c =>
    match c.extent with
    | .closed n => return .str (q.subject.extract c.start (c.start + n))
    | .position => return .ofNat (c.start + 1)
    | .unfinished => Native.fail (Pattern.Fault.message .unfinishedCapture)

def captures (q : Pattern.Problem) (start stop : Nat) (caps : Array Pattern.Capture)
    (orWhole : Bool) : Native (List Val) :=
  let count := if caps.isEmpty && orWhole then 1 else caps.size
  (List.range count).mapM (capture q start stop caps)

def search (isFind : Bool) : Native (List Val) := do
  let s ← args.text 1
  let p ← args.text 2
  let init ← args.integerOr 3 1
  match startAt init s.size with
  | none => return [.nil]
  | some a =>
    if isFind && ((args.at_ 4).truthy || Pattern.isPlain p) then
      match Pattern.indexOf s p (s.size + 1) a with
      | some i => return [.ofNat (i + 1), .ofNat (i + p.size)]
      | none => return [.nil]
    else
      let q : Pattern.Problem := ⟨s, p⟩
      let (anchored, start) := q.anchor
      match ← orFail (q.search anchored start (s.size - a + 1) a) with
      | none => return [.nil]
      | some (b, e, caps) =>
        if isFind then return [.ofNat (b + 1), .ofNat e] ++ (← captures q b e caps false)
        else captures q b e caps true

/-- An iterator over the matches: the subject, the pattern and a table with the place to go on
from and the end of the latest match. -/
def gmatch : Native (List Val) := do
  let s ← args.text 1
  let p ← args.text 2
  let init ← args.integerOr 3 1
  let from_ := (startAt init s.size).getD (s.size + 1)
  let state ← Native.newTable {}
  Native.modifyHeap fun h => h.rawSet state (.int 1) (.ofNat from_)
  return [← Native.newClosure (.native .gmatchStep #[.str s, .str p, state])]

def gmatchFrom (q : Pattern.Problem) (last : Option Nat) : Nat → Nat →
    Except Pattern.Fault (Option (Nat × Nat × Array Pattern.Capture))
  | 0, _ => .ok none
  | fuel + 1, s => do
    if q.subject.size < s then return none
    match ← q.matchAt s 0 with
    | some (e, caps) =>
      if some e = last then gmatchFrom q last fuel (s + 1) else return some (s, e, caps)
    | none => gmatchFrom q last fuel (s + 1)

def gmatchStep (up : Array Val) : Native (List Val) := do
  match up.toList with
  | [.str s, .str p, state] =>
    let h ← Native.heap
    let place (i : Int64) : Option Nat :=
      match h.rawGet state (.int i) with
      | .int n => some n.toInt.toNat
      | _ => none
    let q : Pattern.Problem := ⟨s, p⟩
    let a := (place 1).getD 0
    match ← orFail (gmatchFrom q (place 2) (s.size + 2 - a) a) with
    | none => return [.nil]
    | some (b, e, caps) =>
      Native.modifyHeap fun h =>
        (h.rawSet state (.int 1) (.ofNat e)).rawSet state (.int 2) (.ofNat e)
      captures q b e caps true
  | _ => return [.nil]

/-- A replacement text with its references to captures filled in. -/
def fill (q : Pattern.Problem) (start stop : Nat) (caps : Array Pattern.Capture) :
    List UInt8 → Native (List Bytes)
  | [] => return []
  | [37] => Native.fail "invalid use of '%' in replacement string"
  | 37 :: d :: rest => do
    let piece ←
      if d = 37 then pure (Bytes.ofList [37])
      else if d = 48 then pure (q.subject.extract start stop)
      else if Ascii.isDigit d then do
        let v ← capture q start stop caps (d.toNat - 49)
        pure (v.toText?.getD .empty)
      else Native.fail "invalid use of '%' in replacement string"
    return piece :: (← fill q start stop caps rest)
  | c :: rest => do
    return Bytes.ofList [c] :: (← fill q start stop caps rest)

/-- What a match is replaced by; `none` if it stays. -/
def replacement (q : Pattern.Problem) (repl : Val) (keep : List Val) (start stop : Nat)
    (caps : Array Pattern.Capture) : Native (Option Bytes) := do
  let v ←
    match repl with
    | .table _ => Native.index repl (← capture q start stop caps 0) keep
    | .builtin _ | .closure _ =>
      let rs ← Native.call repl (← captures q start stop caps true) keep
      pure (rs.headD .nil)
    | _ =>
      let parts ← fill q start stop caps (repl.toText?.getD .empty).data.toList
      pure (.str (Bytes.concat parts))
  if !v.truthy then return none
  match v.toText? with
  | some s => return some s
  | none => Native.fail ("invalid replacement value (a " ++ v.typeName ++ ")")

/-- Replaces from a position on: the pieces, and the number of replacements. -/
def gsubFrom (q : Pattern.Problem) (repl : Val) (keep : List Val) (anchored : Bool) (start : Nat) :
    Nat → Nat → Nat → Option Nat → Array Bytes → Native (Array Bytes × Nat)
  | 0, _, _, _, acc => return (acc, 0)
  | fuel + 1, room, s, last, acc => do
    if room = 0 then return (acc.push (q.subject.extract s q.subject.size), 0)
    let whole := q.subject.size
    match ← orFail (q.matchAt s start) with
    | some (e, caps) =>
      if some e ≠ last then
        let text := (← replacement q repl keep s e caps).getD (q.subject.extract s e)
        let acc := acc.push text
        if anchored then return (acc.push (q.subject.extract e whole), 1)
        let (acc, n) ← gsubFrom q repl keep anchored start fuel (room - 1) e (some e) acc
        return (acc, n + 1)
      else if s < whole then
        let acc := acc.push (q.subject.extract s (s + 1))
        if anchored then return (acc.push (q.subject.extract (s + 1) whole), 0)
        gsubFrom q repl keep anchored start fuel room (s + 1) last acc
      else return (acc, 0)
    | none =>
      if s < whole then
        let acc := acc.push (q.subject.extract s (s + 1))
        if anchored then return (acc.push (q.subject.extract (s + 1) whole), 0)
        gsubFrom q repl keep anchored start fuel room (s + 1) last acc
      else return (acc, 0)

def gsub : Native (List Val) := do
  let s ← args.text 1
  let p ← args.text 2
  let repl := args.at_ 3
  match repl with
  | .int _ | .float _ | .str _ | .table _ | .builtin _ | .closure _ => pure ()
  | _ => args.wrongType 3 "string/function/table"
  let room ← args.integerOr 4 (s.size + 1)
  let q : Pattern.Problem := ⟨s, p⟩
  let (anchored, start) := q.anchor
  let (parts, n) ← gsubFrom q repl args anchored start (2 * s.size + 4) room.toNat 0 none #[]
  return [.str (Bytes.concat parts.toList), .ofNat n]

/-- A text in quotes that reads back as itself. -/
def quoteFrom : List UInt8 → List UInt8
  | [] => [34]
  | c :: rest =>
    let nextIsDigit := match rest with
      | d :: _ => Ascii.isDigit d
      | [] => false
    let digits := Ascii.ofChars (Nat.toDigits 10 c.toNat)
    if c = 34 || c = 92 || c = 10 then 92 :: c :: quoteFrom rest
    else if Ascii.isControl c then
      if nextIsDigit then
        92 :: (List.replicate (3 - digits.length) 48 ++ digits) ++ quoteFrom rest
      else 92 :: digits ++ quoteFrom rest
    else c :: quoteFrom rest

/-- A value in a form that a program text may contain. -/
def literal (v : Val) (i : Nat) : Native Bytes := do
  match v with
  | .str s => return Bytes.ofList (34 :: quoteFrom s.data.toList)
  | .int n =>
    if n = Int64.minValue then return "0x8000000000000000" else return toString n
  | .float x =>
    match x.parts with
    | .nan => return "(0/0)"
    | .infinite neg => return if neg then "-1e9999" else "1e9999"
    | .finite .. => return String.ofList (({} : Format.Directive).float .hex false x)
  | .nil | .bool _ => display v []
  | _ => Native.badArgument i "value has no literal form"

/-- The modifiers of a conversion, as far as they are legal: flags out of some, a width and, where
it is allowed, a precision of at most two digits each. -/
def directive? (spec flags : List UInt8) (precision : Bool) : Option Format.Directive :=
  let has (c : Char) : Bool := (spec.takeWhile flags.contains).contains (UInt8.ofNat c.toNat)
  let rest := spec.dropWhile flags.contains
  let digits (bs : List UInt8) : List UInt8 := (bs.takeWhile Ascii.isDigit).take 2
  let w := digits rest
  let rest := rest.drop w.length
  let d : Format.Directive :=
    { left := has '-', plus := has '+', space := has ' ', alternate := has '#', zero := has '0'
      width := Numeral.value 10 w }
  match rest with
  | [] => some d
  | 46 :: rest =>
    let p := digits rest
    if precision && p.length = rest.length then
      some { d with precision := some (Numeral.value 10 p) }
    else none
  | _ => none

def pad (d : Format.Directive) (s : Bytes) : Bytes :=
  let s := match d.precision with
    | some p => s.extract 0 p
    | none => s
  let fill := Bytes.replicate (d.width - s.size) 32
  if d.left then s ++ fill else fill ++ s

def ofChars (cs : List Char) : Bytes := Bytes.ofString (String.ofList cs)

/-- The flags a conversion may have. -/
def flagsOf (s : String) : List UInt8 := Ascii.ofChars s.toList

/-- One conversion applied to an argument. -/
def convert (i : Nat) (spec : List UInt8) (conv : UInt8) : Native Bytes := do
  let legal (flags : String) (precision : Bool) : Native Format.Directive := do
    match directive? spec (flagsOf flags) precision with
    | some d => return d
    | none =>
      Native.fail ("invalid conversion '%" ++ Bytes.ofList (spec ++ [conv]) ++ "' to 'format'")
  let v := args.at_ i
  match Char.ofNat conv.toNat with
  | 'c' =>
    let d ← legal "-" false
    let c ← args.integer i
    return pad d (Bytes.ofList [UInt8.ofNat (c.toInt % 256).toNat])
  | 'd' | 'i' =>
    let n ← args.integer i
    let d ← legal "-+0 " true
    return ofChars (d.decimal n.toInt)
  | 'u' =>
    let n ← args.integer i
    return ofChars ((← legal "-0" true).decimal n.toUInt64.toNat)
  | 'o' =>
    let n ← args.integer i
    return ofChars ((← legal "-#0" true).unsigned 8 n.toUInt64.toNat false)
  | 'x' =>
    let n ← args.integer i
    return ofChars ((← legal "-#0" true).unsigned 16 n.toUInt64.toNat false)
  | 'X' =>
    let n ← args.integer i
    return ofChars ((← legal "-#0" true).unsigned 16 n.toUInt64.toNat true)
  | 'a' =>
    let d ← legal "-+ #0" true
    return ofChars (d.float .hex false (← args.float i))
  | 'A' =>
    let d ← legal "-+ #0" true
    return ofChars (d.float .hex true (← args.float i))
  | 'f' =>
    let x ← args.float i
    return ofChars ((← legal "-+ #0" true).float .fixed false x)
  | 'e' =>
    let x ← args.float i
    return ofChars ((← legal "-+ #0" true).float .scientific false x)
  | 'E' =>
    let x ← args.float i
    return ofChars ((← legal "-+ #0" true).float .scientific true x)
  | 'g' =>
    let x ← args.float i
    return ofChars ((← legal "-+ #0" true).float .general false x)
  | 'G' =>
    let x ← args.float i
    return ofChars ((← legal "-+ #0" true).float .general true x)
  | 'p' =>
    let d ← legal "-" false
    match v with
    | .nil | .bool _ | .int _ | .float _ => return pad d "(null)"
    | _ => return pad d (addressText v)
  | 'q' =>
    if !spec.isEmpty then Native.fail "specifier '%q' cannot have modifiers"
    literal v i
  | 's' =>
    let s ← display v args
    if spec.isEmpty then return s
    if s.data.contains 0 then Native.badArgument i "string contains zeros"
    let d ← legal "-" true
    if d.precision.isNone && 100 ≤ s.size then return s
    return pad d s
  | _ => Native.fail ("invalid conversion '%" ++ Bytes.ofList (spec ++ [conv]) ++ "' to 'format'")

/-- What may stand between the percent sign and the letter of a conversion. -/
def isModifier (b : UInt8) : Bool := Ascii.isDigit b || (flagsOf "-+ #0.").contains b

def formatFrom : Nat → Nat → List UInt8 → Array Bytes → Native (Array Bytes)
  | 0, _, _, acc => return acc
  | fuel + 1, i, bs, acc => do
    match bs with
    | [] => return acc
    | 37 :: 37 :: rest => formatFrom fuel i rest (acc.push "%")
    | 37 :: rest =>
      if (Args.get? args (i + 1)).isNone then Native.badArgument (i + 1) "no value"
      let spec := rest.takeWhile isModifier
      let rest := rest.dropWhile isModifier
      if 21 ≤ spec.length then Native.fail "invalid format string to 'format'"
      match rest with
      | [] => Native.fail ("invalid conversion '%" ++ Bytes.ofList spec ++ "' to 'format'")
      | conv :: rest => formatFrom fuel (i + 1) rest (acc.push (← convert args (i + 1) spec conv))
    | _ =>
      let plain := bs.takeWhile (· != 37)
      formatFrom fuel i (bs.drop plain.length) (acc.push (Bytes.ofList plain))

def format : Native (List Val) := do
  let f ← args.text 1
  let parts ← formatFrom args (f.size + 1) 1 f.data.toList #[]
  return [.str (Bytes.concat parts.toList)]

/-- Arithmetic on texts that denote numbers, as the metatable of texts provides it. -/
def arith (op : ArithOp) : Native (List Val) := do
  let a := args.at_ 1
  let b := args.at_ 2
  match a.toNumber?, b.toNumber? with
  | some x, some y =>
    return [← Native.settle args (Operation.arith (← Native.heap) op (.ofNumber x) (.ofNumber y))]
  | _, _ =>
    let h ← Native.heap
    let other : Val := match b with
      | .str _ => .nil
      | _ => h.metafield b op.event
    if other.isNil then
      Native.fail ("attempt to perform arithmetic on a " ++
        (if a.toNumber?.isNone then a else b).typeName ++ " value")
    return [(← Native.call other [a, b] args).headD .nil]

end Strings
end LuaEmbed.Library
