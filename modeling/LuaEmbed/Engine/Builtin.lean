/-!
The functions the interpreter provides natively, by name alone: the standard library, the pieces
it is built from, and the entry points through which scripts reach the host.
-/
namespace LuaEmbed.Engine

/-- A value that a native function may return whenever it is called. -/
inductive Constant where
  | int (i : Int64)
  | bool (b : Bool)
  | light (address : Nat)
  deriving DecidableEq, Inhabited

/-- A number that tells constants apart. -/
def Constant.code : Constant → Nat
  | int i => 3 * i.toUInt64.toNat
  | bool b => 3 * b.toNat + 1
  | light address => 3 * address + 2

/-- A native function without captured values. -/
inductive Builtin where
  | baseAssert | baseCollectgarbage | baseDofile | baseError | baseGetmetatable | baseIpairs
  | baseLoadfile | baseLoad | baseNext | basePairs | basePcall | basePrint | baseWarn
  | baseRawequal | baseRawlen | baseRawget | baseRawset | baseSelect | baseSetmetatable
  | baseTonumber | baseTostring | baseType | baseXpcall
  | packageLoadlib | packageSearchpath
  | coroutineCreate | coroutineResume | coroutineRunning | coroutineStatus | coroutineWrap
  | coroutineYield | coroutineIsyieldable | coroutineClose
  | tableConcat | tableInsert | tablePack | tableUnpack | tableRemove | tableMove | tableSort
  | ioClose | ioFlush | ioInput | ioLines | ioOpen | ioOutput | ioPopen | ioRead | ioTmpfile
  | ioType | ioWrite
  | fileRead | fileWrite | fileLines | fileFlush | fileSeek | fileClose | fileSetvbuf
  | osClock | osDate | osDifftime | osExecute | osExit | osGetenv | osRemove | osRename
  | osSetlocale | osTime | osTmpname
  | stringByte | stringChar | stringDump | stringFind | stringFormat | stringGmatch | stringGsub
  | stringLen | stringLower | stringMatch | stringRep | stringReverse | stringSub | stringUpper
  | stringPack | stringPacksize | stringUnpack
  | utf8Offset | utf8Codepoint | utf8Char | utf8Len | utf8Codes
  | mathAbs | mathCeil | mathFloor | mathMax | mathMin | mathFmod | mathModf | mathLog | mathExp
  | mathSqrt | mathUlt | mathTointeger | mathType | mathSin | mathCos | mathTan | mathAsin
  | mathAcos | mathAtan | mathDeg | mathRad | mathRandom | mathRandomseed | mathCosh | mathSinh
  | mathTanh | mathPow | mathFrexp | mathLdexp | mathLog10
  | debugDebug | debugGetuservalue | debugGethook | debugGetinfo | debugGetlocal
  | debugGetregistry | debugGetmetatable | debugGetupvalue | debugUpvaluejoin | debugUpvalueid
  | debugSetuservalue | debugSethook | debugSetlocal | debugSetmetatable | debugSetupvalue
  | debugTraceback | debugSetcstacklimit
  | ipairsStep | codesStep | codesStepLax | gmatchStep | wrapped | require | searcherPreload
  | searcherLua | searcherC | searcherCRoot | fileGc | fileText
  | addText | subText | mulText | modText | powText | divText | idivText | negText
  | openBase | openPackage | openCoroutine | openTable | openIo | openOs | openString | openUtf8
  | openMath | openDebug
  | callRaw | callList | collectRaw | collectList | collectForeign | lengthOfFirst
  /-- Returns the same values whenever it is called. -/
  | giving (results : List Constant)
  /-- Raises a text. -/
  | refusing (message : String)
  /-- Returns its arguments. -/
  | echoing
  /-- Makes a userdata of so many bytes. -/
  | allocating (size : Nat)
  deriving DecidableEq, Inhabited

namespace Builtin

/-- The basic functions. -/
def baseFields : List (String × Builtin) :=
  [("assert", .baseAssert), ("collectgarbage", .baseCollectgarbage), ("dofile", .baseDofile),
   ("error", .baseError), ("getmetatable", .baseGetmetatable), ("ipairs", .baseIpairs),
   ("loadfile", .baseLoadfile), ("load", .baseLoad), ("next", .baseNext), ("pairs", .basePairs),
   ("pcall", .basePcall), ("print", .basePrint), ("warn", .baseWarn),
   ("rawequal", .baseRawequal), ("rawlen", .baseRawlen), ("rawget", .baseRawget),
   ("rawset", .baseRawset), ("select", .baseSelect), ("setmetatable", .baseSetmetatable),
   ("tonumber", .baseTonumber), ("tostring", .baseTostring), ("type", .baseType),
   ("xpcall", .baseXpcall)]

/-- Fields of the package library. -/
def packageFields : List (String × Builtin) :=
  [("loadlib", .packageLoadlib), ("searchpath", .packageSearchpath)]

/-- Fields of the coroutine library. -/
def coroutineFields : List (String × Builtin) :=
  [("create", .coroutineCreate), ("resume", .coroutineResume), ("running", .coroutineRunning),
   ("status", .coroutineStatus), ("wrap", .coroutineWrap), ("yield", .coroutineYield),
   ("isyieldable", .coroutineIsyieldable), ("close", .coroutineClose)]

/-- Fields of the table library. -/
def tableFields : List (String × Builtin) :=
  [("concat", .tableConcat), ("insert", .tableInsert), ("pack", .tablePack),
   ("unpack", .tableUnpack), ("remove", .tableRemove), ("move", .tableMove), ("sort", .tableSort)]

/-- Fields of the io library. -/
def ioFields : List (String × Builtin) :=
  [("close", .ioClose), ("flush", .ioFlush), ("input", .ioInput), ("lines", .ioLines),
   ("open", .ioOpen), ("output", .ioOutput), ("popen", .ioPopen), ("read", .ioRead),
   ("tmpfile", .ioTmpfile), ("type", .ioType), ("write", .ioWrite)]

/-- Methods of files. -/
def fileFields : List (String × Builtin) :=
  [("read", .fileRead), ("write", .fileWrite), ("lines", .fileLines), ("flush", .fileFlush),
   ("seek", .fileSeek), ("close", .fileClose), ("setvbuf", .fileSetvbuf)]

/-- Fields of the os library. -/
def osFields : List (String × Builtin) :=
  [("clock", .osClock), ("date", .osDate), ("difftime", .osDifftime), ("execute", .osExecute),
   ("exit", .osExit), ("getenv", .osGetenv), ("remove", .osRemove), ("rename", .osRename),
   ("setlocale", .osSetlocale), ("time", .osTime), ("tmpname", .osTmpname)]

/-- Fields of the string library. -/
def stringFields : List (String × Builtin) :=
  [("byte", .stringByte), ("char", .stringChar), ("dump", .stringDump), ("find", .stringFind),
   ("format", .stringFormat), ("gmatch", .stringGmatch), ("gsub", .stringGsub),
   ("len", .stringLen), ("lower", .stringLower), ("match", .stringMatch), ("rep", .stringRep),
   ("reverse", .stringReverse), ("sub", .stringSub), ("upper", .stringUpper),
   ("pack", .stringPack), ("packsize", .stringPacksize), ("unpack", .stringUnpack)]

/-- Functions of the utf8 library. -/
def utf8Fields : List (String × Builtin) :=
  [("offset", .utf8Offset), ("codepoint", .utf8Codepoint), ("char", .utf8Char),
   ("len", .utf8Len), ("codes", .utf8Codes)]

/-- Functions of the math library. -/
def mathFields : List (String × Builtin) :=
  [("abs", .mathAbs), ("ceil", .mathCeil), ("floor", .mathFloor), ("max", .mathMax),
   ("min", .mathMin), ("fmod", .mathFmod), ("modf", .mathModf), ("log", .mathLog),
   ("exp", .mathExp), ("sqrt", .mathSqrt), ("ult", .mathUlt), ("tointeger", .mathTointeger),
   ("type", .mathType), ("sin", .mathSin), ("cos", .mathCos), ("tan", .mathTan),
   ("asin", .mathAsin), ("acos", .mathAcos), ("atan", .mathAtan), ("deg", .mathDeg),
   ("rad", .mathRad), ("random", .mathRandom), ("randomseed", .mathRandomseed),
   ("cosh", .mathCosh), ("sinh", .mathSinh), ("tanh", .mathTanh), ("pow", .mathPow),
   ("frexp", .mathFrexp), ("ldexp", .mathLdexp), ("log10", .mathLog10)]

/-- Fields of the debug library. -/
def debugFields : List (String × Builtin) :=
  [("debug", .debugDebug), ("getuservalue", .debugGetuservalue), ("gethook", .debugGethook),
   ("getinfo", .debugGetinfo), ("getlocal", .debugGetlocal), ("getregistry", .debugGetregistry),
   ("getmetatable", .debugGetmetatable), ("getupvalue", .debugGetupvalue),
   ("upvaluejoin", .debugUpvaluejoin), ("upvalueid", .debugUpvalueid),
   ("setuservalue", .debugSetuservalue), ("sethook", .debugSethook),
   ("setlocal", .debugSetlocal), ("setmetatable", .debugSetmetatable),
   ("setupvalue", .debugSetupvalue), ("traceback", .debugTraceback),
   ("setcstacklimit", .debugSetcstacklimit)]

/-- Two numbers as one, of which the second begins and ends where it can be seen. -/
def joined (a b : Nat) : Nat :=
  let width := b.log2 + 1
  (2 * (a <<< width + b) + 1) <<< width

/-- Some numbers as one. -/
def encode : List Nat → Nat
  | [] => 0
  | n :: ns => joined (encode ns) n

/-- What sets a function apart from others of its kind. -/
def content : Builtin → List Nat
  | giving results => results.map Constant.code
  | refusing message => message.toList.map Char.toNat
  | allocating size => [size]
  | _ => []

/-- A number that tells native functions apart. -/
def address (f : Builtin) : Nat := f.ctorIdx + 1024 * encode f.content

end Builtin
end LuaEmbed.Engine
