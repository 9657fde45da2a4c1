import LuaEmbed.Engine.Action
import LuaEmbed.Library.Strings

/-!
Finding modules by name: the ones loaded already, functions prepared for later, and files, of
which there are none.
-/
namespace LuaEmbed.Library.Modules

open Engine

/-- Where files with modules would be. -/
def path : Bytes :=
  "/usr/local/share/lua/5.4/?.lua;/usr/local/share/lua/5.4/?/init.lua;" ++
  "/usr/local/lib/lua/5.4/?.lua;/usr/local/lib/lua/5.4/?/init.lua;./?.lua;./?/init.lua"

def cpath : Bytes :=
  "/usr/local/lib/lua/5.4/?.so;/usr/local/lib/lua/5.4/loadall.so;./?.so"

/-- Cuts at every occurrence of a byte. -/
def split (sep : UInt8) (bs : List UInt8) : List (List UInt8) :=
  bs.foldr (fun b acc =>
    match acc with
    | [] => [[b]]
    | p :: ps => if b = sep then [] :: p :: ps else (b :: p) :: ps) [[]]

/-- Puts a text in place of every occurrence of a byte. -/
def substitute (b : UInt8) (text : List UInt8) (bs : List UInt8) : List UInt8 :=
  bs.flatMap fun c => if c = b then text else [c]

/-- The complaint that none of the files of a path exists. -/
def noFiles (name path : Bytes) : Bytes :=
  let file := substitute 46 [47] name.data.toList
  let names := (split 59 path.data.toList).map (substitute 63 file)
  Bytes.concat ((names.map fun n => ("no file '" : Bytes) ++ Bytes.ofList n ++ "'").intersperse
    "\n\t")

variable (args : Args)

/-- A text field of the package table, which a searcher has captured. -/
def pathField (up : Array Val) (field : String) : Native Bytes := do
  match (← Native.heap).rawGet (up.getD 0 .nil) (.text field) with
  | .str s => return s
  | _ => Native.fail ("'package." ++ field ++ "' must be a string")

def searcherPreload : Native (List Val) := do
  let name ← args.text 1
  let h ← Native.heap
  match h.rawGet (h.rawGet h.registryTable (.text "_PRELOAD")) (.str name) with
  | .nil => return [.str ("no field package.preload['" ++ name ++ "']")]
  | f => return [f, .text ":preload:"]

def searcherPath (up : Array Val) (field : String) : Native (List Val) := do
  let name ← args.text 1
  return [.str (noFiles name (← pathField up field))]

def searcherRoot (up : Array Val) : Native (List Val) := do
  let name ← args.text 1
  let root := name.data.toList.takeWhile (· != 46)
  if root.length = name.size then return []
  return [.str (noFiles (Bytes.ofList root) (← pathField up "cpath"))]

/-- Asks the searchers in turn: a loader and what it is given, or all their complaints. -/
def findLoader (searchers : Val) (name : Bytes) :
    Nat → Nat → List Bytes → Native (Val × Val)
  | 0, _, _ => Native.fail "too many searchers"
  | fuel + 1, i, complaints => do
    match (← Native.heap).rawGet searchers (.ofNat i) with
    | .nil =>
      Native.fail ("module '" ++ name ++ "' not found:" ++
        Bytes.concat (complaints.reverse.map fun c => "\n\t" ++ c))
    | s =>
      let rs ← Native.call s [.str name] args
      match rs.getD 0 .nil, rs.getD 1 .nil with
      | .builtin f, extra => return (.builtin f, extra)
      | .closure f, extra => return (.closure f, extra)
      | .str c, _ => findLoader searchers name fuel (i + 1) (c :: complaints)
      | _, _ => findLoader searchers name fuel (i + 1) complaints

def require (up : Array Val) : Native (List Val) := do
  let name ← args.text 1
  let h ← Native.heap
  let loaded := h.rawGet h.registryTable (.text "_LOADED")
  let v ← Native.index loaded (.str name) args
  if v.truthy then return [v]
  match h.rawGet (up.getD 0 .nil) (.text "searchers") with
  | .table s =>
    let (loader, extra) ← findLoader args (.table s) name 1000 1 []
    let r := (← Native.call loader [.str name, extra] args).headD .nil
    if !r.isNil then Native.setIndex loaded (.str name) r args
    let v ← Native.index loaded (.str name) args
    if !v.isNil then return [v, extra]
    Native.setIndex loaded (.str name) (.bool true) args
    return [.bool true, extra]
  | _ => Native.fail "'package.searchers' must be a table"

def searchpath : Native (List Val) := do
  let name ← args.text 1
  let path ← args.text 2
  return [.nil, .str (noFiles name path)]

end LuaEmbed.Library.Modules
