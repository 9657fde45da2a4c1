import LuaEmbed.Library.Functions
import LuaEmbed.Proofs.Taming

/-!
All native functions leave alone what userdata carry, but for the collectors of the bridge's userdata.
-/
namespace LuaEmbed.Library

open Engine Engine.Native

variable (args : Args) (up : Array Val)

instance tame_display (v : Val) (keep : List Val) : (display v keep).Tame := by
  unfold display
  refine .bind fun h => ?_
  dsimp only
  split
  · split <;> infer_instance
  · refine .bind fun rs => ?_
    split
    · infer_instance
    · split <;> infer_instance
    · infer_instance

/-! ### Basic functions -/

namespace Base

instance tame_raiseAt (level : Int) (v : Val) : (raiseAt level v).Tame := by
  unfold raiseAt
  split <;> infer_instance

instance tame_assert : (assert args).Tame := by
  unfold assert
  infer_instance

instance tame_error : (error args).Tame := by
  unfold error
  infer_instance

instance tame_getmetatable : (getmetatable args).Tame := by
  unfold getmetatable
  refine .bind fun v => .bind fun h => ?_
  split
  · infer_instance
  · split <;> infer_instance

instance tame_setmetatable : (setmetatable args).Tame := by
  unfold setmetatable
  refine .bind fun t => ?_
  dsimp only
  split <;> infer_instance

instance tame_ipairs : (ipairs args).Tame := by
  unfold ipairs
  infer_instance

instance tame_ipairsStep : (ipairsStep args).Tame := by
  unfold ipairsStep
  infer_instance

instance tame_next : (next args).Tame := by
  unfold next
  refine .bind fun t => ?_
  split
  · refine .bind fun h => ?_
    split <;> infer_instance
  · infer_instance

instance tame_pairs : (pairs args).Tame := by
  unfold pairs
  refine .bind fun v => .bind fun h => ?_
  split <;> infer_instance

instance tame_pcall : (pcall args).Tame := by
  unfold pcall
  refine .bind fun f => .bind fun r => ?_
  split <;> infer_instance

instance tame_xpcall : (xpcall args).Tame := by
  unfold xpcall
  refine .bind fun f => .bind fun r => ?_
  split <;> infer_instance

instance tame_rawequal : (rawequal args).Tame := by
  unfold rawequal
  infer_instance

instance tame_rawlen : (rawlen args).Tame := by
  unfold rawlen
  split <;> infer_instance

instance tame_rawget : (rawget args).Tame := by
  unfold rawget
  infer_instance

instance tame_rawset : (rawset args).Tame := by
  unfold rawset
  refine .bind fun t => .bind fun k => .bind fun v => ?_
  split <;> infer_instance

instance tame_select : (select args).Tame := by
  unfold select
  dsimp only
  split <;> infer_instance

instance tame_tonumber : (tonumber args).Tame := by
  unfold tonumber
  dsimp only
  split
  · split
    · infer_instance
    · infer_instance
    · split <;> infer_instance
    · infer_instance
  · refine .bind fun base => ?_
    split <;> infer_instance

instance tame_tostring : (tostring args).Tame := by
  unfold tostring
  infer_instance

instance tame_type : (type args).Tame := by
  unfold type
  infer_instance

instance tame_readPieces (f : Val) (n : Nat) : (readPieces args f n).Tame := by
  induction n with
  | zero =>
    unfold readPieces
    infer_instance
  | succ n ih =>
    unfold readPieces
    refine .bind fun rs => ?_
    split
    · infer_instance
    · split <;> infer_instance

instance tame_load : (load args).Tame := by
  unfold load
  refine .bind fun mode => ?_
  have hload : ∀ text name : Bytes, (do
      let depth := (← Native.situation).depth
      match Chunk.load text (cut name) (cut mode) depth (← Native.heap) with
      | .error e => return [.nil, .str e.message]
      | .ok (f, h) =>
        Native.modifyHeap fun _ => h
        match Args.get? args 4, f with
        | some env, .closure i =>
          match h.closures.get? i with
          | some (.script _ cells) =>
            match cells[0]? with
            | some c => Native.modifyHeap (·.setCell c env)
            | none => pure ()
          | _ => pure ()
        | _, _ => pure ()
        return [f] : Native (List Val)).Tame := by
    intro text name
    refine .bind fun s => tame_heap_bind fun g => ?_
    split
    next => exact Tame.at_ g
    next f h hl =>
      refine tameAt_modifyHeap_bind (Heap.carries_load hl) ?_
      dsimp only
      split
      · split
        · split <;> exact Tame.at_ h
        · exact Tame.at_ h
      · exact Tame.at_ h
  dsimp only
  split
  · exact .bind fun name => hload _ name
  · refine .bind fun name => .bind fun f => .bind fun pieces => hload _ name

/-- A collection is requested only where none is in progress. -/
instance tame_collectgarbage : (collectgarbage args).Tame := by
  unfold collectgarbage
  refine .bind fun what => tame_heap_bind fun g => ?_
  dsimp only
  have hcollect : ∀ vs : List Val, TameAt g (if (!g.collecting) = true then do
      Native.collect
      return vs
      else return vs) := by
    intro vs
    split
    next hidle => exact tameAt_collect_bind (by simpa using hidle)
    next => exact Tame.at_ g
  have hhalted : ∀ on : Bool, (Native.modifyHeap ({ · with halted := on })).Tame := fun on =>
    tame_modifyHeap fun h => Heap.carries_of_userdata rfl rfl rfl rfl
  split <;> first
    | exact hcollect _
    | exact Tame.at_ g

instance tame_print : (print args).Tame := by
  unfold print
  infer_instance

end Base
/-! ### Texts -/

namespace Strings

instance tame_len : (len args).Tame := by
  unfold len
  infer_instance

instance tame_sub : (sub args).Tame := by
  unfold sub
  infer_instance

instance tame_mapBytes (f : UInt8 → UInt8) : (mapBytes args f).Tame := by
  unfold mapBytes
  infer_instance

instance tame_reverse : (reverse args).Tame := by
  unfold reverse
  infer_instance

instance tame_rep : (rep args).Tame := by
  unfold rep
  infer_instance

instance tame_byte : (byte args).Tame := by
  unfold byte
  infer_instance

instance tame_charFrom (i : Nat) : (charFrom i args).Tame := by
  induction args generalizing i with
  | nil =>
    unfold charFrom
    infer_instance
  | cons v rest ih =>
    unfold charFrom
    infer_instance

instance tame_char : (char args).Tame := by
  unfold char
  infer_instance

instance tame_orFail {α : Type} (r : Except Pattern.Fault α) : (orFail r).Tame := by
  unfold orFail
  split <;> infer_instance

variable (q : Pattern.Problem) (start stop : Nat) (caps : Array Pattern.Capture)

instance tame_capture (i : Nat) : (capture q start stop caps i).Tame := by
  unfold capture
  split
  · infer_instance
  · split <;> infer_instance

instance tame_captures (orWhole : Bool) : (captures q start stop caps orWhole).Tame := by
  unfold captures
  infer_instance

instance tame_search (isFind : Bool) : (search args isFind).Tame := by
  unfold search
  refine .bind fun s => .bind fun p => .bind fun init => ?_
  split
  · infer_instance
  · split
    · split <;> infer_instance
    · refine .bind fun r => ?_
      split <;> infer_instance

instance tame_gmatch : (gmatch args).Tame := by
  unfold gmatch
  infer_instance

instance tame_gmatchStep : (gmatchStep up).Tame := by
  unfold gmatchStep
  split
  · refine .bind fun h => ?_
    dsimp only
    refine .bind fun r => ?_
    split
    · infer_instance
    · have hplaces : ∀ state : Val, ∀ e : Nat, (Native.modifyHeap fun h =>
          (h.rawSet state (.int 1) (.ofNat e)).rawSet state (.int 2) (.ofNat e)).Tame := fun state e =>
        tame_modifyHeap fun h => (h.carries_rawSet _ _ _).trans (Heap.carries_rawSet _ _ _ _)
      infer_instance
  · infer_instance

instance tame_fill (bs : List UInt8) : (fill q start stop caps bs).Tame := by
  fun_induction fill q start stop caps bs <;> infer_instance

instance tame_replacement (repl : Val) (keep : List Val) :
    (replacement q repl keep start stop caps).Tame := by
  unfold replacement
  dsimp only
  have htext : ∀ v : Val, (do
      if !v.truthy then return none
      match v.toText? with
      | some s => return some s
      | none => Native.fail ("invalid replacement value (a " ++ v.typeName ++ ")") :
      Native (Option Bytes)).Tame := by
    intro v
    split
    · infer_instance
    · split <;> infer_instance
  split
  · exact .bind fun c => .bind fun v => htext v
  · exact .bind fun cs => .bind fun rs => htext _
  · exact .bind fun cs => .bind fun rs => htext _
  · exact .bind fun parts => .bind fun v => htext v

instance tame_gsubFrom (repl : Val) (keep : List Val) (anchored : Bool) (fuel room s : Nat)
    (last : Option Nat) (acc : Array Bytes) :
    (gsubFrom q repl keep anchored start fuel room s last acc).Tame := by
  induction fuel generalizing room s last acc with
  | zero =>
    unfold gsubFrom
    infer_instance
  | succ fuel ih =>
    unfold gsubFrom
    dsimp only
    split
    · infer_instance
    · refine .bind fun r => ?_
      split <;> infer_instance

instance tame_gsub : (gsub args).Tame := by
  unfold gsub
  refine .bind fun s => .bind fun p => ?_
  dsimp only
  split <;> infer_instance

instance tame_literal (v : Val) (i : Nat) : (literal v i).Tame := by
  unfold literal
  cases v with
  | float x =>
    dsimp only
    split <;> infer_instance
  | _ => infer_instance

instance tame_convert (i : Nat) (spec : List UInt8) (conv : UInt8) : (convert args i spec conv).Tame := by
  unfold convert
  dsimp only
  have hlegal : ∀ (flags : String) (precision : Bool),
      (match directive? spec (flagsOf flags) precision with
      | some d => pure d
      | none => Native.fail ("invalid conversion '%" ++ Bytes.ofList (spec ++ [conv]) ++ "' to 'format'") :
      Native Format.Directive).Tame := by
    intro flags precision
    split <;> infer_instance
  split <;> try infer_instance
  refine .bind fun d => ?_
  split <;> infer_instance

instance tame_formatFrom (fuel i : Nat) (bs : List UInt8) (acc : Array Bytes) :
    (formatFrom args fuel i bs acc).Tame := by
  induction fuel generalizing i bs acc with
  | zero =>
    unfold formatFrom
    infer_instance
  | succ fuel ih =>
    unfold formatFrom
    split
    · infer_instance
    · infer_instance
    next rest _ =>
      have hconvert : (match rest.dropWhile isModifier with
          | [] =>
            Native.fail ("invalid conversion '%" ++ Bytes.ofList (rest.takeWhile isModifier) ++ "' to 'format'")
          | conv :: rest' => do
            formatFrom args fuel (i + 1) rest'
              (acc.push (← convert args (i + 1) (rest.takeWhile isModifier) conv)) :
          Native (Array Bytes)).Tame := by
        split <;> infer_instance
      infer_instance
    · infer_instance

instance tame_format : (format args).Tame := by
  unfold format
  infer_instance

instance tame_arith (op : ArithOp) : (arith args op).Tame := by
  unfold arith
  dsimp only
  split <;> infer_instance

end Strings
/-! ### Code points -/

namespace CodePoints

instance tame_charGo (i n : Nat) : (char.go args i n).Tame := by
  induction n generalizing i with
  | zero =>
    unfold char.go
    infer_instance
  | succ n ih =>
    unfold char.go
    infer_instance

instance tame_char : (char args).Tame := by
  unfold char
  infer_instance

instance tame_len : (len args).Tame := by
  unfold len
  refine .bind fun s => .bind fun i => .bind fun j => ?_
  have hcount : ∀ r : Nat ⊕ Nat, (match r with
      | .inl n => return [.ofNat n]
      | .inr at_ => return [.nil, .ofNat at_] : Native (List Val)).Tame := by
    rintro (n | n) <;> infer_instance
  infer_instance

instance tame_pointsFrom (s : Bytes) (strict : Bool) (last fuel i : Nat) :
    (pointsFrom s strict last fuel i).Tame := by
  induction fuel generalizing i with
  | zero =>
    unfold pointsFrom
    infer_instance
  | succ fuel ih =>
    unfold pointsFrom
    split
    · infer_instance
    · split <;> infer_instance

instance tame_codepoint : (codepoint args).Tame := by
  unfold codepoint
  infer_instance

instance tame_offset : (offset args).Tame := by
  unfold offset
  infer_instance

instance tame_codesStep (strict : Bool) : (codesStep args strict).Tame := by
  unfold codesStep
  have hcode : ∀ (s : Bytes) (i : Int), (do
      if (s.size : Int) ≤ i then return []
      match decode s strict i.toNat with
      | none => Native.fail "invalid UTF-8 code"
      | some (c, k) =>
        if tailAt s (i + k) then Native.fail "invalid UTF-8 code"
        return [.ofInt (i + 1), .ofNat c] : Native (List Val)).Tame := by
    intro s i
    split
    · infer_instance
    · split <;> infer_instance
  exact .bind fun s => hcode s _

instance tame_codes : (codes args).Tame := by
  unfold codes
  infer_instance

end CodePoints

/-! ### Numbers -/

namespace Mathematics

instance tame_abs : (abs args).Tame := by
  unfold abs
  split <;> infer_instance

instance tame_rounded (f : Float → Float) : (rounded args f).Tame := by
  unfold rounded
  refine .bind fun n => ?_
  split <;> infer_instance

instance tame_best (passes : Val → Val → Native Bool) [hp : ∀ a b, (passes a b).Tame] (acc : Val)
    (vs : List Val) : (best passes acc vs).Tame := by
  induction vs generalizing acc with
  | nil =>
    unfold best
    infer_instance
  | cons v vs ih =>
    unfold best
    infer_instance

instance tame_max : (max args).Tame := by
  unfold max
  infer_instance

instance tame_min : (min args).Tame := by
  unfold min
  infer_instance

instance tame_fmod : (fmod args).Tame := by
  unfold fmod
  split <;> infer_instance

instance tame_modf : (modf args).Tame := by
  unfold modf
  split <;> infer_instance

instance tame_onFloat (f : Float → Float) : (onFloat args f).Tame := by
  unfold onFloat
  infer_instance

instance tame_log : (log args).Tame := by
  unfold log
  infer_instance

instance tame_atan : (atan args).Tame := by
  unfold atan
  infer_instance

instance tame_pow : (pow args).Tame := by
  unfold pow
  infer_instance

instance tame_ult : (ult args).Tame := by
  unfold ult
  infer_instance

instance tame_tointeger : (tointeger args).Tame := by
  unfold tointeger
  refine .bind fun v => ?_
  split <;> infer_instance

instance tame_type : (type args).Tame := by
  unfold type
  refine .bind fun v => ?_
  split <;> infer_instance

instance tame_frexp : (frexp args).Tame := by
  unfold frexp
  refine .bind fun x => ?_
  split <;> infer_instance

instance tame_ldexp : (ldexp args).Tame := by
  unfold ldexp
  refine .bind fun x => .bind fun e => ?_
  dsimp only
  split <;> infer_instance

end Mathematics

/-! ### Tables -/

namespace Tables

instance tame_checkTable (i : Nat) (events : List String) : (checkTable args i events).Tame := by
  unfold checkTable
  split <;> infer_instance

instance tame_length (v : Val) : (length args v).Tame := by
  unfold length
  refine .bind fun h => .bind fun n => ?_
  split <;> infer_instance

instance tame_get (t : Val) (i : Int) : (get args t i).Tame := tame_index _ _ _

instance tame_set (t : Val) (i : Int) (v : Val) : (set args t i v).Tame := tame_setIndex _ _ _ _

instance tame_concatFrom (t : Val) (sep : Bytes) (last : Int) (fuel : Nat) (i : Int) :
    (concatFrom args t sep last fuel i).Tame := by
  induction fuel generalizing i with
  | zero =>
    unfold concatFrom
    infer_instance
  | succ fuel ih =>
    unfold concatFrom
    split
    · infer_instance
    · refine .bind fun v => ?_
      split <;> infer_instance

instance tame_concat : (concat args).Tame := by
  unfold concat
  infer_instance

instance tame_shiftUp (t : Val) (pos : Int) (fuel : Nat) (i : Int) : (shiftUp args t pos fuel i).Tame := by
  induction fuel generalizing i with
  | zero =>
    unfold shiftUp
    infer_instance
  | succ fuel ih =>
    unfold shiftUp
    infer_instance

instance tame_insert : (insert args).Tame := by
  unfold insert
  refine .bind fun _ => .bind fun n => ?_
  dsimp only
  split <;> infer_instance

instance tame_shiftDown (t : Val) (last : Int) (fuel : Nat) (i : Int) :
    (shiftDown args t last fuel i).Tame := by
  induction fuel generalizing i with
  | zero =>
    unfold shiftDown
    infer_instance
  | succ fuel ih =>
    unfold shiftDown
    infer_instance

instance tame_remove : (remove args).Tame := by
  unfold remove
  infer_instance

instance tame_moveFrom (a b : Val) (offset step : Int) (fuel : Nat) (i : Int) :
    (moveFrom args a b offset step fuel i).Tame := by
  induction fuel generalizing i with
  | zero =>
    unfold moveFrom
    infer_instance
  | succ fuel ih =>
    unfold moveFrom
    infer_instance

instance tame_move : (move args).Tame := by
  unfold move
  infer_instance

instance tame_pack : (pack args).Tame := by
  unfold pack
  infer_instance

instance tame_unpackFrom (t : Val) (fuel : Nat) (i : Int) : (unpackFrom args t fuel i).Tame := by
  induction fuel generalizing i with
  | zero =>
    unfold unpackFrom
    infer_instance
  | succ fuel ih =>
    unfold unpackFrom
    infer_instance

instance tame_unpack : (unpack args).Tame := by
  unfold unpack
  infer_instance

instance tame_before (a b : Val) : (before args a b).Tame := by
  unfold before
  split <;> infer_instance

instance tame_badOrder {α : Type} : (badOrder : Native α).Tame := tame_fail _

instance tame_climb (t p : Val) (up : Int) (fuel : Nat) (i : Int) : (climb args t p up fuel i).Tame := by
  induction fuel generalizing i with
  | zero =>
    unfold climb
    infer_instance
  | succ fuel ih =>
    unfold climb
    infer_instance

instance tame_descend (t p : Val) (i : Int) (fuel : Nat) (j : Int) : (descend args t p i fuel j).Tame := by
  induction fuel generalizing j with
  | zero =>
    unfold descend
    infer_instance
  | succ fuel ih =>
    unfold descend
    infer_instance

instance tame_partition (t p : Val) (up : Int) (fuel : Nat) (i j : Int) :
    (partition args t p up fuel i j).Tame := by
  induction fuel generalizing i j with
  | zero =>
    unfold partition
    infer_instance
  | succ fuel ih =>
    unfold partition
    refine .bind fun r => .bind fun s => ?_
    dsimp only
    infer_instance

instance tame_sortRange (t : Val) (fuel : Nat) (lo up : Int) : (sortRange args t fuel lo up).Tame := by
  induction fuel generalizing lo up with
  | zero =>
    unfold sortRange
    infer_instance
  | succ fuel ih =>
    have hhalves : ∀ p : Int, (do
        if up - lo = 2 then return
        let pivot ← get args t p
        let v ← get args t (up - 1)
        set args t p v
        set args t (up - 1) pivot
        let p ← partition args t pivot up (span lo up + 1) lo (up - 1)
        if p - lo < up - p then
          sortRange args t fuel lo (p - 1)
          sortRange args t fuel (p + 1) up
        else
          sortRange args t fuel (p + 1) up
          sortRange args t fuel lo (p - 1) : Native Unit).Tame := by
      intro p
      infer_instance
    unfold sortRange
    dsimp only
    split
    · infer_instance
    refine .bind fun a => .bind fun b => .bind fun swap => ?_
    split
    · refine .bind fun _ => .bind fun _ => ?_
      infer_instance
    · infer_instance

instance tame_sort : (sort args).Tame := by
  unfold sort
  infer_instance

end Tables
/-! ### Coroutines -/

namespace Coroutines

instance tame_create : (create args).Tame := by
  unfold create
  infer_instance

instance tame_wrap : (wrap args).Tame := by
  unfold wrap
  infer_instance

instance tame_resume : (resume args).Tame := by
  unfold resume
  refine .bind fun t => .bind fun r => ?_
  split <;> infer_instance

instance tame_wrapped : (wrapped args up).Tame := by
  unfold wrapped
  split
  · refine .bind fun r => ?_
    split
    · infer_instance
    · have hpass : ∀ e : Val, (match e with
          | .str s => do Native.raise (.str ((← Native.position 1) ++ s))
          | v => Native.raise v : Native (List Val)).Tame := by
        intro e
        split <;> infer_instance
      refine .bind fun left => ?_
      split
      · exact .bind fun e => hpass e
      · exact .bind fun e => hpass e
  · infer_instance

instance tame_running : running.Tame := by
  unfold running
  infer_instance

instance tame_status : (status args).Tame := by
  unfold status
  infer_instance

instance tame_isyieldable : (isyieldable args).Tame := by
  unfold isyieldable
  refine .bind fun s => ?_
  split <;> infer_instance

instance tame_close : (close args).Tame := by
  unfold close
  refine .bind fun t => .bind fun s => ?_
  split
  · refine .bind fun e => ?_
    split <;> infer_instance
  · refine .bind fun e => ?_
    split <;> infer_instance
  · infer_instance

end Coroutines

/-! ### Introspection -/

namespace Introspection

instance tame_getmetatable : (getmetatable args).Tame := by
  unfold getmetatable
  refine .bind fun v => .bind fun h => ?_
  split <;> infer_instance

instance tame_setmetatable : (setmetatable args).Tame := by
  unfold setmetatable
  dsimp only
  split <;> infer_instance

instance tame_getregistry : getregistry.Tame := by
  unfold getregistry
  infer_instance

instance tame_getupvalue : (getupvalue args).Tame := by
  unfold getupvalue
  refine .bind fun n => .bind fun f => .bind fun h => ?_
  split <;> infer_instance

theorem carries_upvalue {h : Heap} {f v : Val} {i : Nat} {name : Bytes} {set : Val → Heap → Heap}
    (hu : upvalue? h f i = some (name, v, set)) (x : Val) (g : Heap) : g.Carries (set x g) := by
  unfold upvalue? at hu
  split at hu
  · split at hu
    · split at hu
      · split at hu
        · cases hu
        · cases hu
          exact g.carries_setCell _ _
      · cases hu
    · split at hu
      · split at hu
        · cases hu
        · cases hu
          exact g.carries_setClosure _ _
      · cases hu
    · cases hu
  · cases hu

instance tame_setupvalue : (setupvalue args).Tame := by
  unfold setupvalue
  refine .bind fun v => .bind fun n => .bind fun f => .bind fun h => ?_
  split
  next hu =>
    have hset := tame_modifyHeap fun g => carries_upvalue hu v g
    infer_instance
  next => infer_instance

instance tame_upvalueid : (upvalueid args).Tame := by
  unfold upvalueid
  refine .bind fun n => .bind fun f => .bind fun h => ?_
  split <;> infer_instance

instance tame_upvaluejoin : (upvaluejoin args).Tame := by
  unfold upvaluejoin
  refine .bind fun n => .bind fun f => .bind fun m => .bind fun g => .bind fun h => ?_
  split
  · exact @tame_bind _ _ _ _ (tame_modifyHeap fun h => h.carries_setClosure _ _) _
  all_goals infer_instance

instance tame_traceback : (traceback args).Tame := by
  unfold traceback
  split <;> infer_instance

end Introspection

/-! ### Modules -/

namespace Modules

instance tame_pathField (field : String) : (pathField up field).Tame := by
  unfold pathField
  refine .bind fun h => ?_
  split <;> infer_instance

instance tame_searcherPreload : (searcherPreload args).Tame := by
  unfold searcherPreload
  refine .bind fun name => .bind fun h => ?_
  split <;> infer_instance

instance tame_searcherPath (field : String) : (searcherPath args up field).Tame := by
  unfold searcherPath
  infer_instance

instance tame_searcherRoot : (searcherRoot args up).Tame := by
  unfold searcherRoot
  infer_instance

instance tame_findLoader (searchers : Val) (name : Bytes) (fuel i : Nat) (complaints : List Bytes) :
    (findLoader args searchers name fuel i complaints).Tame := by
  induction fuel generalizing i complaints with
  | zero =>
    unfold findLoader
    infer_instance
  | succ fuel ih =>
    unfold findLoader
    refine .bind fun h => ?_
    split
    · infer_instance
    · refine .bind fun rs => ?_
      split <;> infer_instance

instance tame_require : (require args up).Tame := by
  unfold require
  refine .bind fun name => .bind fun h => .bind fun v => ?_
  dsimp only
  split
  · infer_instance
  · split <;> infer_instance

instance tame_searchpath : (searchpath args).Tame := by
  unfold searchpath
  infer_instance

end Modules

/-! ### Openers -/

namespace Openers

theorem carries_setFields (t : Val) (fields : List (String × Builtin)) (h : Heap) :
    h.Carries (setFields t fields h) := by
  induction fields generalizing h with
  | nil => exact .refl h
  | cons f fields ih => exact (h.carries_rawSetText t f.1 (.builtin f.2)).trans (ih _)

instance tame_setFields (t : Val) (fields : List (String × Builtin)) :
    (Native.modifyHeap (setFields t fields)).Tame := tame_modifyHeap (carries_setFields t fields)

instance tame_library (fields : List (String × Builtin)) : (library fields).Tame := by
  unfold library
  infer_instance

instance tame_setText (t : Val) (k : String) (v : Val) : (setText t k v).Tame := tame_rawSetText t k v

instance tame_base : base.Tame := by
  unfold base
  infer_instance

instance tame_subtable (name : String) : (subtable name).Tame :=
  tame_onHeap fun h => h.carries_subtable _ name

instance tame_package : package.Tame := by
  unfold package
  refine .bind fun t => ?_
  dsimp only
  refine .bind fun searchers => .bind fun fs => ?_
  have hsearchers : ∀ ps : List (Nat × Val), (Native.modifyHeap fun h =>
      ps.foldl (fun h p => h.rawSet searchers (.ofNat (p.1 + 1)) p.2) h).Tame := by
    refine fun ps => tame_modifyHeap fun h => ?_
    induction ps generalizing h with
    | nil => exact .refl h
    | cons p ps ih => exact (h.carries_rawSet _ _ _).trans (ih _)
  refine @tame_bind _ _ _ _ (hsearchers _) fun _ => ?_
  refine .bind fun _ => .bind fun _ => .bind fun _ => .bind fun _ => ?_
  infer_instance

instance tame_namedMetatable (name : String) : (namedMetatable name).Tame :=
  tame_onHeap fun h => h.carries_namedMetatable name

instance tame_io : io.Tame := by
  have hfile : (Native.onHeap fun h => h.newUserdata ⟨.file, 16, none⟩).Tame :=
    tame_onHeap fun h => h.carries_newUserdata rfl
  unfold io
  refine .bind fun t => .bind fun m => .bind fun methods => .bind fun _ => .bind fun _ =>
    .bind fun _ => .bind fun _ => ?_
  have hgive : ∀ v : Val, (Native.modifyHeap fun h =>
      match m with
      | .table i => h.setMetatable v (some i)
      | _ => h).Tame := by
    refine fun v => tame_modifyHeap fun h => ?_
    split
    · exact h.carries_setMetatable _ _
    · exact .refl h
  infer_instance

instance tame_string : string.Tame := by
  unfold string
  refine .bind fun t => .bind fun m => .bind fun _ => ?_
  refine @tame_bind _ _ _ _ (tame_modifyHeap fun h => ?_) _
  split
  · exact h.carries_setMetatable _ _
  · exact .refl h

instance tame_utf8 : utf8.Tame := by
  unfold utf8
  infer_instance

instance tame_math : math.Tame := by
  unfold math
  infer_instance

end Openers
instance tame_lengthOfFirst : (lengthOfFirst args).Tame := by
  unfold lengthOfFirst
  infer_instance

instance tame_dump : (dump args).Tame := by
  unfold dump
  refine .bind fun f => .bind fun h => ?_
  split <;> infer_instance

instance tame_unavailable : unavailable.Tame := tame_fail _

/-- Every native function leaves userdata alone, but for their collectors. -/
theorem tame_apply {f : Builtin} (hf : f ∉ [Builtin.collectRaw, .collectList, .collectForeign]) :
    (apply f up args).Tame := by
  cases f <;> try (dsimp only [apply]; infer_instance)
  case collectRaw | collectList | collectForeign => exact absurd (by decide) hf
  case ioType =>
    dsimp only [apply]
    split <;> infer_instance
  case allocating size =>
    have hnew : (Native.onHeap fun h => h.newUserdata ⟨.blob, size, none⟩).Tame :=
      tame_onHeap fun h => h.carries_newUserdata rfl
    dsimp only [apply]
    infer_instance

end LuaEmbed.Library
