import LuaEmbed.Proofs.Calls
import LuaEmbed.Proofs.Sustaining
import LuaEmbed.Proofs.Turns

/-!
A call that the host makes, taken apart: what comes before the callable runs, the moment at which it
begins, and what is made of its exit.
-/
namespace LuaEmbed

open Engine World

variable {σ μ : Type}

namespace Context

section

variable (c : Context) (nargs : Nat) (w : World σ μ)

/-- The moment at which what stands below the topmost values is applied to them. -/
def applied : Moment σ μ :=
  let s := w.slots c
  let r := (w.modifySlots c (·.shrink (s.size - nargs - 1))).onVm c.vm fun vm =>
    (vm.modifyThread c.thread (·.setAwait .guarded)).enter c.thread
      (s.getD (s.size - nargs - 1) .nil) (s.toList.drop (s.size - nargs))
      { nests := true, canYield := false }
  ⟨c, r.1, r.2⟩

/-- What is made of the exit of a protected call on a stack that was so deep below the callable. -/
def concluded (want : Option Nat) (base : Nat) (e : Exit) : Api σ μ Int := fun w =>
  match e with
  | .returned vs | .yielded vs =>
    let w := w.modifySlots c (· ++ (Activation.adjust want vs).toArray)
    (.ok (w.depth c - base), w)
  | .raised status v =>
    let p := (w.push c v).popErrorText c
    (.error (.call p.1), (c.cut base p.2).2.log .debug "protected call failed"
      [("message", p.1), ("status", toString status.code)])

/-- The world in which a protected call is made, once there is room for its results. -/
def announced (rc : ResultCount) : World σ μ :=
  (c.checkStack (rc.room nargs) w).2.log .trace "protected call"
    [("nargs", toString nargs), ("results", rc.describe)]

end

variable {c : Context} {w : World σ μ} {d : Drive σ μ}

theorem protect_eq (nargs : Nat) (want : Option Nat) :
    c.protect nargs want d w = (d.from (c.applied nargs w)).map fun r =>
      match r.1 with
      | .returned vs | .yielded vs =>
        (none, r.2.modifySlots c (· ++ (Activation.adjust want vs).toArray))
      | .raised status v => (some status, r.2.push c v) := by
  change (d.from (c.applied nargs w)).bind _ = _
  cases d.from (c.applied nargs w) with
  | none => rfl
  | some r =>
    obtain ⟨e, w₁⟩ := r
    cases e <;> rfl

/-- The moment at which the host calls a value. -/
def calling (c : Context) (f : Val) (args : List Val) (w : World σ μ) : Moment σ μ :=
  let r := w.onVm c.vm fun vm =>
    (vm.modifyThread c.thread (·.setAwait .guarded)).enter c.thread f args
      { nests := true, canYield := false }
  ⟨c, r.1, r.2⟩

theorem shrink_call (s : Array Val) (f : Val) (vals : List Val) :
    (s.push f ++ vals.toArray).shrink s.size = s := by
  apply Array.ext'
  simp

/-- The callable and its arguments are taken off the stack. -/
theorem applied_calling {s : Array Val} {f : Val} {vals : List Val}
    (h : w.Stands c (s.push f ++ vals.toArray)) :
    c.applied vals.length w = c.calling f vals (w.modifySlots c (·.shrink s.size)) := by
  have hsize : (s.push f ++ vals.toArray).size = s.size + 1 + vals.length := by
    simp
    omega
  have hf : (s.push f ++ vals.toArray).getD s.size .nil = f := by
    simp
  have hvals : (s.push f ++ vals.toArray).toList.drop (s.size + 1) = vals := by
    rw [Array.toList_append, List.drop_left' (by simp)]
  unfold applied
  dsimp only
  rw [h.slots, hsize, show s.size + 1 + vals.length - vals.length - 1 = s.size by omega,
    show s.size + 1 + vals.length - vals.length = s.size + 1 by omega, hf, hvals]
  rfl

theorem sustains_announced (nargs : Nat) (rc : ResultCount) (w : World σ μ) :
    Sustains c w (c.announced nargs w rc) :=
  ((works_sustains (fun _ => True) c).keeps_checkStack c _ w).trans (sustains_log _ _ _ _)

theorem sustains_concluded (want : Option Nat) (base : Nat) (e : Exit) :
    Api.Keeps (Sustains c) (c.concluded want base e : Api σ μ Int) := by
  intro w
  let W : Works (fun _ => True) (Sustains (σ := σ) (μ := μ) c) := works_sustains _ c
  cases e with
  | returned | yielded => exact W.slots w c _ trivial
  | raised status v =>
    have hpop : Sustains c w ((w.push c v).popErrorText c).2 :=
      (W.push c w v trivial).trans (W.popErrorText c _ trivial)
    exact hpop.trans ((W.keeps_cut c base trivial _).trans (sustains_log _ _ _ _))

/-- If there is room for the results, a protected call is the run of the callable. -/
theorem protectedCall_run {nargs : Nat} {rc : ResultCount} {base : Nat}
    (hroom : (c.checkStack (rc.room nargs) w).1 = .ok ()) :
    c.protectedCall nargs rc base d w =
      (d.from (c.applied nargs (c.announced nargs w rc))).map fun r =>
        c.concluded rc.want base r.1 r.2 := by
  rw [protectedCall_eq, Act.api_ok_bind (ThreadHandle.pair_eq hroom), Act.update_bind,
    Act.lift_bind, protect_eq]
  unfold announced
  generalize (c.checkStack (rc.room nargs) w).2.log _ _ _ = w₁
  cases d.from (c.applied nargs w₁) with
  | none => rfl
  | some r =>
    obtain ⟨e, w₂⟩ := r
    rw [Option.map_some, Option.map_some, Option.bind_some]
    cases e with
    | returned vs | yielded vs => rfl
    | raised status v =>
      unfold concluded
      dsimp only
      rw [Act.lift_bind, Run.onWorld]
      generalize (w₂.push c v).popErrorText c = p
      rfl

/-- Nothing stands in the way of calling what is on top of a stack. -/
structure Applies (c : Context) (args : List Value) (rc : ResultCount) (w : World σ μ) : Prop where
  stands : ∃ (s : Array Val) (f : Val), w.Stands c (s.push f)
  short : args.length ≤ Word32.greatest
  pushed : (c.pushAll args w).1 = .ok ()
  room : (c.checkStack (rc.room args.length) (c.pushAll args w).2).1 = .ok ()

/-- The moment at which a call begins. -/
def begun (c : Context) (args : List Value) (rc : ResultCount) (w : World σ μ) : Moment σ μ :=
  c.applied args.length (c.announced args.length (c.pushAll args w).2 rc)

variable {args : List Value} {rc : ResultCount}

/-- If nothing stands in its way, a call is the run of the callable. -/
theorem Applies.callInPlace (A : c.Applies args rc w) :
    c.callInPlace args rc d w = (d.from (c.begun args rc w)).map fun r =>
      c.concluded rc.want (w.depth c - 1) r.1 r.2 := by
  obtain ⟨s, f, hs⟩ := A.stands
  have hdepth : w.depth c = s.size + 1 := by rw [hs.depth, Array.size_push]
  have hbase : ((w.depth c : Int) - 1).toNat = w.depth c - 1 := by omega
  unfold Context.callInPlace
  rw [Act.top_bind, if_neg (by omega), hbase, if_neg (Int.not_lt.mpr A.short)]
  dsimp only
  rw [Act.lift_bind,
    show Run.api (c.pushAll args) d w = _ from congrArg some (ThreadHandle.pair_eq A.pushed),
    Option.bind_some]
  exact protectedCall_run A.room

end Context
end LuaEmbed
