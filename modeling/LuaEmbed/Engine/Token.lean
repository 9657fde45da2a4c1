import LuaEmbed.Engine.Code
import LuaEmbed.Text.Ascii

/-!
Tokens of source text. One token is read at a time, so that of two faults in a text the earlier
one is reported.
-/
namespace LuaEmbed.Engine

inductive Token where
  | eof
  | name (s : Bytes)
  | string (s : Bytes)
  | number (n : Number)
  | keyword (s : String)
  | punct (s : String)
  /-- A byte that begins no token. -/
  | stray (b : UInt8)
  deriving DecidableEq, Inhabited

/-- Why a text is not a program: a message, the line it concerns, and the text it stands near. -/
structure SyntaxFault where
  message : Bytes
  line : Nat
  near : Option Bytes
  deriving Inhabited

/-- Unread text and the number of the line it begins on. -/
structure Source where
  rest : List UInt8
  line : Nat

/-- A token with the text a message quotes it by, and what follows it. -/
structure Lexeme where
  token : Token
  raw : Bytes
  source : Source

namespace Token

open Ascii

def keywords : List String :=
  ["and", "break", "do", "else", "elseif", "end", "false", "for", "function", "goto", "if", "in",
   "local", "nil", "not", "or", "repeat", "return", "then", "true", "until", "while"]

def quoted (s : Bytes) : Bytes := "'" ++ s ++ "'"

/-- How a message names a token; a null byte has no name. -/
def display (t : Token) (raw : Bytes) : Option Bytes :=
  match t with
  | eof => some "<eof>"
  | name _ | string _ | number _ => some (quoted raw)
  | keyword s | punct s => some (quoted s)
  | stray b =>
    if b = 0 then none
    else if isPrintable b then some (quoted (Bytes.ofList [b]))
    else some s!"'<\\{b.toNat}>'"

/-- A fault quoting the text of an unfinished token, with the byte at fault if there is one. -/
def faultAt (message : String) (line : Nat) (raw : List UInt8) (rest : List UInt8) : SyntaxFault :=
  ⟨message, line, some (quoted (Bytes.ofList (raw.reverse ++ rest.take 1)))⟩

/-- Drops a line break, which may be a pair of different break bytes. -/
def skipBreak : List UInt8 → List UInt8
  | 10 :: 13 :: r => r
  | 13 :: 10 :: r => r
  | _ :: r => r
  | [] => []

def isBreak (b : UInt8) : Bool := b = 10 || b = 13

/-- After an opening or closing bracket: the level of a long bracket, if it is one. -/
def longLevel (bracket : UInt8) (r : List UInt8) : Option (Nat × List UInt8) :=
  let level := (r.takeWhile (· == 61)).length
  match r.drop level with
  | b :: r => if b = bracket then some (level, r) else none
  | [] => none

/-- The contents of a long bracket, collected in reverse. -/
def longBody (what : String) (start level : Nat) :
    Nat → Source → List UInt8 → Except SyntaxFault (List UInt8 × Source)
  | 0, s, acc => .ok (acc, s)
  | fuel + 1, s, acc =>
    match s.rest with
    | [] =>
      .error ⟨s!"unfinished long {what} (starting at line {start})", s.line, some "<eof>"⟩
    | 93 :: r =>
      match longLevel 93 r with
      | some (l, r') =>
        if l = level then .ok (acc, ⟨r', s.line⟩)
        else
          longBody what start level fuel ⟨r.drop l, s.line⟩ (List.replicate l 61 ++ 93 :: acc)
      | none => longBody what start level fuel ⟨r, s.line⟩ (93 :: acc)
    | b :: r =>
      if isBreak b then
        longBody what start level fuel ⟨skipBreak s.rest, s.line + 1⟩ (10 :: acc)
      else longBody what start level fuel ⟨r, s.line⟩ (b :: acc)

/-- A long bracket whose opening has been read; a line break right after it does not count. -/
def long (what : String) (level : Nat) (s : Source) : Except SyntaxFault (List UInt8 × Source) :=
  let first : Source :=
    match s.rest with
    | b :: _ => if isBreak b then ⟨skipBreak s.rest, s.line + 1⟩ else s
    | [] => s
  longBody what s.line level (s.rest.length + 1) first []

/-- The bytes of a code point, in up to six bytes, most significant first. -/
def utf8Bytes (c : Nat) : List UInt8 :=
  if c < 0x80 then [UInt8.ofNat c]
  else
    let rec go : Nat → Nat → Nat → List UInt8 → List UInt8
      | 0, _, _, acc => acc
      | fuel + 1, c, room, acc =>
        if room < c then go fuel (c / 64) (room / 2) (UInt8.ofNat (128 + c % 64) :: acc)
        else UInt8.ofNat ((255 - (2 * room + 1)) + c) :: acc
    go 7 c 63 []

/-- The hexadecimal digits of a `\u` escape after the first: the value and what follows. The
text read so far is kept for messages. -/
def hexRun (line : Nat) : Nat → List UInt8 → List UInt8 → Except SyntaxFault
    (Nat × List UInt8 × List UInt8)
  | v, [], raw => .ok (v, [], raw)
  | v, b :: r, raw =>
    if isHexDigit b then
      if v ≤ 0x7FFFFFF then hexRun line (v * 16 + digitValue b) r (b :: raw)
      else .error (faultAt "UTF-8 value too large" line raw (b :: r))
    else .ok (v, b :: r, raw)

/-- One escape sequence, its backslash read: the bytes it stands for and what follows. -/
def escape (line : Nat) (raw : List UInt8) (r : List UInt8) :
    Except SyntaxFault (List UInt8 × Source) :=
  let raw := 92 :: raw
  match r with
  | [] => .ok ([], ⟨[], line⟩)
  | c :: r =>
    let simple (b : UInt8) : Except SyntaxFault (List UInt8 × Source) := .ok ([b], ⟨r, line⟩)
    if c = 97 then simple 7
    else if c = 98 then simple 8
    else if c = 102 then simple 12
    else if c = 110 then simple 10
    else if c = 114 then simple 13
    else if c = 116 then simple 9
    else if c = 118 then simple 11
    else if c = 92 || c = 34 || c = 39 then simple c
    else if isBreak c then .ok ([10], ⟨skipBreak (c :: r), line + 1⟩)
    else if c = 122 then
      let blank := r.takeWhile isSpace
      let rec lines : Nat → List UInt8 → Nat → Nat
        | 0, _, n => n
        | _ + 1, [], n => n
        | fuel + 1, b :: bs, n =>
          if isBreak b then lines fuel (skipBreak (b :: bs)) (n + 1) else lines fuel bs n
      .ok ([], ⟨r.drop blank.length, lines blank.length blank line⟩)
    else if c = 120 then
      let bad := fun raw rest => .error (faultAt "hexadecimal digit expected" line raw rest)
      match r with
      | a :: r₁ =>
        if isHexDigit a then
          match r₁ with
          | b :: r₂ =>
            if isHexDigit b then .ok ([UInt8.ofNat (digitValue a * 16 + digitValue b)], ⟨r₂, line⟩)
            else bad (a :: c :: raw) r₁
          | [] => bad (a :: c :: raw) []
        else bad (c :: raw) r
      | [] => bad (c :: raw) []
    else if c = 117 then
      match r with
      | 123 :: r =>
        let raw := 123 :: c :: raw
        match r with
        | a :: r =>
          if isHexDigit a then do
            let (v, rest, raw) ← hexRun line (digitValue a) r (a :: raw)
            match rest with
            | 125 :: rest => .ok (utf8Bytes v, ⟨rest, line⟩)
            | _ => .error (faultAt "missing '\x7d'" line raw rest)
          else .error (faultAt "hexadecimal digit expected" line raw (a :: r))
        | [] => .error (faultAt "hexadecimal digit expected" line raw [])
      | _ => .error (faultAt "missing '\x7b'" line (c :: raw) r)
    else if isDigit c then
      let ds := (c :: r).take 3 |>.takeWhile isDigit
      let v := Numeral.value 10 ds
      let rest := (c :: r).drop ds.length
      if v < 256 then .ok ([UInt8.ofNat v], ⟨rest, line⟩)
      else .error (faultAt "decimal escape too large" line (ds.reverse ++ raw) rest)
    else .error (faultAt "invalid escape sequence" line raw (c :: r))

/-- A quoted string, its opening quote read and kept at the end of what is collected. -/
def quotedBody (quote : UInt8) :
    Nat → Source → List UInt8 → Except SyntaxFault (List UInt8 × Source)
  | 0, s, raw => .ok (raw, s)
  | fuel + 1, s, raw =>
    match s.rest with
    | [] => .error ⟨"unfinished string", s.line, some "<eof>"⟩
    | b :: r =>
      if b = quote then .ok (b :: raw, ⟨r, s.line⟩)
      else if isBreak b then .error (faultAt "unfinished string" s.line raw [])
      else if b = 92 then do
        let (bytes, s) ← escape s.line raw r
        quotedBody quote fuel s (bytes.reverse ++ raw)
      else quotedBody quote fuel ⟨r, s.line⟩ (b :: raw)

/-- The longest text a numeral could be, by its letters. -/
def numeralText (mark : UInt8) : Nat → List UInt8 → List UInt8 → List UInt8 × List UInt8
  | 0, r, acc => (acc, r)
  | _, [], acc => (acc, [])
  | fuel + 1, b :: r, acc =>
    if toLower b = mark then
      match r with
      | c :: r' =>
        if c = 43 || c = 45 then numeralText mark fuel r' (c :: b :: acc)
        else numeralText mark fuel r (b :: acc)
      | [] => (b :: acc, [])
    else if isHexDigit b || b = 46 then numeralText mark fuel r (b :: acc)
    else (acc, b :: r)

def numeral (s : Source) : Except SyntaxFault Lexeme :=
  let (start, mark, r) : List UInt8 × UInt8 × List UInt8 :=
    match s.rest with
    | 48 :: x :: r => if toLower x = 120 then ([x, 48], 112, r) else ([48], 101, x :: r)
    | b :: r => ([b], 101, r)
    | [] => ([], 101, [])
  let (acc, r) := numeralText mark (r.length + 1) r start
  let (acc, r) : List UInt8 × List UInt8 :=
    match r with
    | b :: r' => if isNameStart b then (b :: acc, r') else (acc, r)
    | [] => (acc, r)
  let raw := acc.reverse
  match Numeral.parse? raw with
  | some n => .ok ⟨.number n, Bytes.ofList raw, ⟨r, s.line⟩⟩
  | none => .error ⟨"malformed number", s.line, some (quoted (Bytes.ofList raw))⟩

/-- Punctuation, longest first. -/
def puncts : List String :=
  ["...", "..", "==", "~=", "<=", ">=", "<<", ">>", "//", "::", "+", "-", "*", "/", "%", "^", "#",
   "&", "~", "|", "<", ">", "=", "(", ")", "\x7b", "\x7d", "[", "]", ";", ":", ",", "."]

def punctBytes : List (String × List UInt8) :=
  puncts.map fun s => (s, s.toUTF8.data.toList)

/-- The next token. -/
def next : Nat → Source → Except SyntaxFault Lexeme
  | 0, s => .ok ⟨.eof, .empty, s⟩
  | fuel + 1, s =>
    match s.rest with
    | [] => .ok ⟨.eof, .empty, s⟩
    | b :: r =>
      if isBreak b then next fuel ⟨skipBreak s.rest, s.line + 1⟩
      else if isSpace b then next fuel ⟨r, s.line⟩
      else if isDigit b then numeral s
      else if isNameStart b then
        let word := s.rest.takeWhile isWord
        let raw := Bytes.ofList word
        let after : Source := ⟨s.rest.drop word.length, s.line⟩
        match keywords.find? (fun k => Bytes.ofString k = raw) with
        | some k => .ok ⟨.keyword k, raw, after⟩
        | none => .ok ⟨.name raw, raw, after⟩
      else if b = 34 || b = 39 then do
        let (raw, s) ← quotedBody b (r.length + 1) ⟨r, s.line⟩ [b]
        let raw := raw.reverse
        .ok ⟨.string (Bytes.ofList (raw.drop 1).dropLast), Bytes.ofList raw, s⟩
      else
        match b, r with
        | 45, 45 :: r =>
          let comment? :=
            match r with
            | 91 :: r => longLevel 91 r
            | _ => none
          match comment? with
          | some (level, r) => do
            let (_, s) ← long "comment" level ⟨r, s.line⟩
            next fuel s
          | none => next fuel ⟨r.dropWhile (!isBreak ·), s.line⟩
        | 91, r =>
          match longLevel 91 r with
          | some (level, r) => do
            let (acc, s) ← long "string" level ⟨r, s.line⟩
            let fence := List.replicate level 61
            let body := acc.reverse
            let raw := 91 :: (fence ++ 91 :: (body ++ 93 :: (fence ++ [93])))
            .ok ⟨.string (Bytes.ofList body), Bytes.ofList raw, s⟩
          | none =>
            let level := (r.takeWhile (· == 61)).length
            if level = 0 then .ok ⟨.punct "[", "[", ⟨r, s.line⟩⟩
            else
              .error ⟨"invalid long string delimiter", s.line,
                some (quoted (Bytes.ofList (91 :: List.replicate level 61)))⟩
        | 46, c :: _ =>
          if isDigit c then numeral s else punct s
        | _, _ => punct s
where
  punct (s : Source) : Except SyntaxFault Lexeme :=
    match punctBytes.find? (fun p => p.2.isPrefixOf s.rest) with
    | some (p, bytes) => .ok ⟨.punct p, p, ⟨s.rest.drop bytes.length, s.line⟩⟩
    | none => .ok ⟨.stray (s.rest.headD 0), .empty, ⟨s.rest.drop 1, s.line⟩⟩

end Token
end LuaEmbed.Engine
