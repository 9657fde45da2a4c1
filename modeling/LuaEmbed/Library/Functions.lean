import LuaEmbed.Library.Base
import LuaEmbed.Library.CodePoints
import LuaEmbed.Library.Coroutines
import LuaEmbed.Library.Introspection
import LuaEmbed.Library.Mathematics
import LuaEmbed.Library.Openers
import LuaEmbed.Library.Tables

/-!
What each native function does when it is called.
-/
namespace LuaEmbed.Library

open Engine

def Constant.toVal : Constant → Val
  | .int i => .int i
  | .bool b => .bool b
  | .light p => .light p

/-- Empties a userdata of the host object it carries, which it does at most once. -/
def collect (args : Args) : Native (List Val) := do
  match args.at_ 1 with
  | .userdata i =>
    match (← Native.heap).userdata.get? i with
    | some u =>
      let emptied : Payload :=
        match u.payload with
        | .function isList _ => .function isList none
        | .foreign _ => .foreign none
        | p => p
      Native.modifyHeap fun h =>
        { h with userdata := h.userdata.modify i ({ · with payload := emptied }) }
      Native.release u.payload
      return []
    | none => return []
  | _ => return []

/-- The length of a value as scripts compute it. -/
def lengthOfFirst (args : Args) : Native (List Val) := do
  return [← Native.settle args (Operation.length (← Native.heap) (args.at_ 1))]

/-- A function of a script in binary form. -/
def dump (args : Args) : Native (List Val) := do
  let f ← args.function 1
  match (← Native.heap).closure? f with
  | some (.script p _) => return [.str (Chunk.dump p (args.at_ 2).truthy)]
  | _ => Native.fail "unable to dump given function"

/-- What is not modelled: files, processes and the clock, C libraries, the packing of binary data, random numbers,
user values of userdata, debug hooks, and the inspection of running functions (their frames and local variables).
Scripts can call these functions and get this error. -/
def unavailable : Native (List Val) := Native.fail "operation not supported"

open Library in
/-- A native function applied to captured values and arguments. -/
def apply (f : Builtin) (up : Array Val) (args : Args) : Native (List Val) :=
  match f with
  | .baseAssert => Base.assert args
  | .baseCollectgarbage => Base.collectgarbage args
  | .baseError => Base.error args
  | .baseGetmetatable => Base.getmetatable args
  | .baseIpairs => Base.ipairs args
  | .ipairsStep => Base.ipairsStep args
  | .baseLoad => Base.load args
  | .baseNext => Base.next args
  | .basePairs => Base.pairs args
  | .basePcall => Base.pcall args
  | .basePrint | .baseWarn => Base.print args
  | .baseRawequal => Base.rawequal args
  | .baseRawlen => Base.rawlen args
  | .baseRawget => Base.rawget args
  | .baseRawset => Base.rawset args
  | .baseSelect => Base.select args
  | .baseSetmetatable => Base.setmetatable args
  | .baseTonumber => Base.tonumber args
  | .baseTostring => Base.tostring args
  | .baseType => Base.type args
  | .baseXpcall => Base.xpcall args
  | .packageSearchpath => Modules.searchpath args
  | .require => Modules.require args up
  | .searcherPreload => Modules.searcherPreload args
  | .searcherLua => Modules.searcherPath args up "path"
  | .searcherC => Modules.searcherPath args up "cpath"
  | .searcherCRoot => Modules.searcherRoot args up
  | .coroutineCreate => Coroutines.create args
  | .coroutineResume => Coroutines.resume args
  | .coroutineRunning => Coroutines.running
  | .coroutineStatus => Coroutines.status args
  | .coroutineWrap => Coroutines.wrap args
  | .coroutineYield => Native.yield args
  | .coroutineIsyieldable => Coroutines.isyieldable args
  | .coroutineClose => Coroutines.close args
  | .wrapped => Coroutines.wrapped args up
  | .tableConcat => Tables.concat args
  | .tableInsert => Tables.insert args
  | .tablePack => Tables.pack args
  | .tableUnpack => Tables.unpack args
  | .tableRemove => Tables.remove args
  | .tableMove => Tables.move args
  | .tableSort => Tables.sort args
  | .stringByte => Strings.byte args
  | .stringChar => Strings.char args
  | .stringDump => dump args
  | .stringFind => Strings.search args true
  | .stringFormat => Strings.format args
  | .stringGmatch => Strings.gmatch args
  | .gmatchStep => Strings.gmatchStep up
  | .stringGsub => Strings.gsub args
  | .stringLen => Strings.len args
  | .stringLower => Strings.mapBytes args Ascii.toLower
  | .stringMatch => Strings.search args false
  | .stringRep => Strings.rep args
  | .stringReverse => Strings.reverse args
  | .stringSub => Strings.sub args
  | .stringUpper => Strings.mapBytes args Ascii.toUpper
  | .addText => Strings.arith args .add
  | .subText => Strings.arith args .sub
  | .mulText => Strings.arith args .mul
  | .modText => Strings.arith args .mod
  | .powText => Strings.arith args .pow
  | .divText => Strings.arith args .div
  | .idivText => Strings.arith args .idiv
  | .negText => Strings.arith args .neg
  | .utf8Offset => CodePoints.offset args
  | .utf8Codepoint => CodePoints.codepoint args
  | .utf8Char => CodePoints.char args
  | .utf8Len => CodePoints.len args
  | .utf8Codes => CodePoints.codes args
  | .codesStep => CodePoints.codesStep args true
  | .codesStepLax => CodePoints.codesStep args false
  | .mathAbs => Mathematics.abs args
  | .mathCeil => Mathematics.rounded args Float.ceil
  | .mathFloor => Mathematics.rounded args Float.floor
  | .mathMax => Mathematics.max args
  | .mathMin => Mathematics.min args
  | .mathFmod => Mathematics.fmod args
  | .mathModf => Mathematics.modf args
  | .mathLog => Mathematics.log args
  | .mathExp => Mathematics.onFloat args Float.exp
  | .mathSqrt => Mathematics.onFloat args Float.sqrt
  | .mathUlt => Mathematics.ult args
  | .mathTointeger => Mathematics.tointeger args
  | .mathType => Mathematics.type args
  | .mathSin => Mathematics.onFloat args Float.sin
  | .mathCos => Mathematics.onFloat args Float.cos
  | .mathTan => Mathematics.onFloat args Float.tan
  | .mathAsin => Mathematics.onFloat args Float.asin
  | .mathAcos => Mathematics.onFloat args Float.acos
  | .mathAtan => Mathematics.atan args
  | .mathDeg => Mathematics.onFloat args fun x => x * (180.0 / Mathematics.pi)
  | .mathRad => Mathematics.onFloat args fun x => x * (Mathematics.pi / 180.0)
  | .mathCosh => Mathematics.onFloat args Float.cosh
  | .mathSinh => Mathematics.onFloat args Float.sinh
  | .mathTanh => Mathematics.onFloat args Float.tanh
  | .mathPow => Mathematics.pow args
  | .mathFrexp => Mathematics.frexp args
  | .mathLdexp => Mathematics.ldexp args
  | .mathLog10 => Mathematics.onFloat args Float.log10
  | .debugGetmetatable => Introspection.getmetatable args
  | .debugSetmetatable => Introspection.setmetatable args
  | .debugGetregistry => Introspection.getregistry
  | .debugGetupvalue => Introspection.getupvalue args
  | .debugSetupvalue => Introspection.setupvalue args
  | .debugUpvalueid => Introspection.upvalueid args
  | .debugUpvaluejoin => Introspection.upvaluejoin args
  | .debugTraceback => Introspection.traceback args
  | .openBase => Openers.base
  | .openPackage => Openers.package
  | .openCoroutine => return [← Openers.library Builtin.coroutineFields]
  | .openTable => return [← Openers.library Builtin.tableFields]
  | .openIo => Openers.io
  | .openOs => return [← Openers.library Builtin.osFields]
  | .openString => Openers.string
  | .openUtf8 => Openers.utf8
  | .openMath => Openers.math
  | .openDebug => return [← Openers.library Builtin.debugFields]
  | .collectRaw | .collectList | .collectForeign => collect args
  | .lengthOfFirst => lengthOfFirst args
  | .fileGc => return []
  | .fileText => return [.str ("file (" ++ addressText (args.at_ 1) ++ ")")]
  | .ioType =>
    match args.at_ 1 with
    | .userdata _ => return [.text "file"]
    | _ => return [.nil]
  | .giving results => return results.map Constant.toVal
  | .refusing message => Native.raise (.text message)
  | .echoing => return args
  | .allocating size => do
    Native.allocate
    return [← Native.onHeap fun h => h.newUserdata ⟨.blob, size, none⟩]
  | _ => unavailable

end LuaEmbed.Library
