import LuaEmbed.Proofs.Applying
import LuaEmbed.Proofs.Raising
import LuaEmbed.Proofs.Serving

/-!
What becomes of an error on its way out of the interpreter. A host function's failure, its panic or
an error of a script passes over script frames, out of a call or a resume, and on through host
functions that give the error of their own call back as it is: the text that the outermost call
fails with is the one of the first.
-/
namespace LuaEmbed

open Engine World

variable {σ μ α β : Type} {code : HostCode σ μ} {c : Context} {w w' w₁ : World σ μ}

namespace Bytes

/-- What has been a text reads as that text. -/
theorem toStringLossy_ofString (s : String) : (ofString s).toStringLossy = s := by
  have h : toString? (ofString s) = some s := dif_pos s.isValidUTF8
  unfold toStringLossy
  rw [h]
  rfl

end Bytes

namespace World

theorem errorText_congr (h : w'.heap c.vm = w.heap c.vm) (v : Val) :
    w'.errorText c v = w.errorText c v := by
  unfold errorText
  cases v with
  | nil | bool | int | float | str => rfl
  | _ => rw [displayName_congr h]

theorem errorText_text (w : World σ μ) (c : Context) (t : String) :
    w.errorText c (.text t) = t := Bytes.toStringLossy_ofString t

/-- The text of an error value that has been pushed. -/
theorem popErrorText_push {s : Array Val} (hs : w.shown c = some s) (v : Val) :
    ((w.push c v).popErrorText c).1 = w.errorText c v := by
  have hslots : (w.push c v).slots c = s.push v := by
    refine slots_of_shown ?_
    rw [shown_push, if_pos rfl, hs]
    rfl
  have hheap : ∀ w₁ : World σ μ, w₁.heap c.vm = (w.push c v).heap c.vm →
      w₁.errorText c v = w.errorText c v := fun w₁ h =>
    errorText_congr (h.trans (heap_push w c c.vm v)) v
  unfold popErrorText
  rw [hslots, Array.back?_push]
  dsimp only
  refine hheap _ ?_
  cases v
  case str | int | float | nil | bool => rfl
  all_goals exact heap_reserve _ c c.vm 2

end World

/-! ### Host functions that fail, and those that give an error back -/

/-- How a host function fails. -/
inductive Failure where
  | error (e : Error)
  | panic (p : Panic)

namespace Failure

/-- The text that it raises. -/
def text : Failure → String
  | error e => e.message
  | panic p => panicText p

def outcome : Failure → Outcome α
  | error e => .failed e
  | panic p => .panicked p

/-- What a panic carries can be dropped. -/
def Droppable : Failure → Prop
  | error _ => True
  | panic p => p.dropping = none

/-- The end of a host function that fails in this way. -/
def ending (c : Context) : Failure → Run σ μ Next
  | error e => raiseHost c e.message
  | panic p => raisePanic c p

theorem ending_eq {f : Failure} (hf : f.Droppable) (c : Context) (d : Drive σ μ) (w : World σ μ) :
    f.ending c d w = some (.go (failing (w.heap c.vm) f.text), (w.reserve c 1).2) := by
  cases f with
  | error e => exact raiseHost_eq _ _ _ _
  | panic p =>
    have hp : p.dropping = none := hf
    simp only [ending, raisePanic, hp]
    exact raiseHost_eq _ _ _ _

/-- A panic that comes out of dropping what a panic carries leaves every run. -/
theorem ending_panic {p q : Panic} (hp : p.dropping = some q) (c : Context) (d : Drive σ μ)
    (w : World σ μ) : (Failure.panic p).ending c d w = none := by
  simp only [ending, raisePanic, hp]
  rfl

end Failure

/-- What is known of the program of a host function that is about to run on a thread, and of the
world in which it begins. -/
inductive HostCode.Does (code : HostCode σ μ) (c : Context) (id : Nat) (w : World σ μ)
    (P : ∀ {α : Type}, Program σ μ (Outcome α) → World σ μ → Prop) : FunctionShape → Prop where
  | raw {s n} (hf : w.functions.get? id = some ⟨(.raw, s), n⟩)
    (h : P (code.raw s c) (w.retain (.function .raw id))) : Does code c id w P .raw
  | list {s n args w₁} (hf : w.functions.get? id = some ⟨(.list, s), n⟩)
    (hargs : c.readBatch ((w.retain (.function .list id)).depth c) (some 1)
      (w.retain (.function .list id)) = (.ok args, w₁))
    (h : P (code.list s c args) w₁) : Does code c id w P .list

/-- A host function that is about to run fails; the world in which its program has failed. -/
def HostCode.Fails (code : HostCode σ μ) (c : Context) (id : Nat) (shape : FunctionShape)
    (f : Failure) (w w' : World σ μ) : Prop :=
  code.Does c id w (fun p u => p.perform.Ends code u (f.outcome, w')) shape

/-- The world in which the text of a host function's failure is raised. -/
def World.afterHost (w : World σ μ) (c : Context) (shape : FunctionShape) (id : Nat) :
    World σ μ := (w.reserve c 1).2.release (.function shape id)

/-- The text of the failure is raised where the function was called. -/
theorem HostCode.Fails.meets {id : Nat} {shape : FunctionShape} {f : Failure}
    (h : code.Fails c id shape f w w') (hf : f.Droppable) (isList : Bool) :
    ∃ fuel, meet code c (.host isList (some id)) (World.drive code fuel) w =
      some (.go (failing (w'.heap c.vm) f.text), w'.afterHost c shape id) := by
  cases h with
  | @raw s n hget h =>
    obtain ⟨fuel, h⟩ := h
    refine ⟨fuel, meet_raw hget ?_ isList⟩
    unfold runRaw
    refine Run.bind_some.mpr ⟨_, _, h, ?_⟩
    have hend := Failure.ending_eq hf c (World.drive code fuel) w'
    cases f <;> exact hend
  | @list s n args w₁ hget hargs h =>
    obtain ⟨fuel, h⟩ := h
    refine ⟨fuel, meet_list hget ?_ isList⟩
    unfold runList
    refine Run.bind_some.mpr ⟨_, _, rfl, Run.bind_some.mpr ⟨_, _, congrArg some hargs, ?_⟩⟩
    dsimp only
    refine Run.bind_some.mpr ⟨_, _, h, ?_⟩
    have hend := Failure.ending_eq hf c (World.drive code fuel) w'
    cases f <;> exact hend

/-- A host function that panics with what cannot be dropped does not come back. -/
theorem HostCode.Fails.unwinds {id : Nat} {shape : FunctionShape} {p q : Panic}
    (h : code.Fails c id shape (.panic p) w w') (hp : p.dropping = some q) (isList : Bool)
    (fuel : Nat) : meet code c (.host isList (some id)) (World.drive code fuel) w = none := by
  have hlaid := Run.laid (σ := σ) (μ := μ).traversal
  have hend := Failure.ending_panic hp c (World.drive code fuel) w'
  cases h with
  | raw hget h =>
    rw [meet_host hget, Option.map_eq_none_iff]
    exact h.bind_none (hlaid.program _) hend
  | list hget hargs h =>
    rw [meet_host hget, Option.map_eq_none_iff]
    refine Option.eq_none_iff_forall_ne_some.mpr fun r hrun => ?_
    obtain ⟨_, w₁, hdepth, hrun⟩ := Run.bind_some.mp hrun
    obtain ⟨rfl, rfl⟩ := Prod.mk.inj (Option.some.inj hdepth)
    obtain ⟨_, w₂, hread, hrun⟩ := Run.bind_some.mp hrun
    obtain ⟨rfl, rfl⟩ := Prod.mk.inj ((Option.some.inj hread).symm.trans hargs)
    cases (h.bind_none (hlaid.program _) hend).symm.trans hrun

/-- A program comes to make a call or a resume, in some world, and gives the error of it back as it
is. -/
inductive Program.Relays (code : HostCode σ μ) (c : Context) (o : CallOp β) (v : World σ μ) :
    Program σ μ (Outcome α) → World σ μ → Prop where
  | now {k : Except Error β → Program σ μ (Outcome α)} {u : World σ μ}
    (ht : (Op.run c o).turn.Ends code u ((), v)) (hk : ∀ e, k (.error e) = .pure (.failed e)) :
    Relays code c o v (.step (.run c o) k) u
  | later {γ : Type} {p : Op σ μ γ} {k : γ → Program σ μ (Outcome α)} {u u₁ u₂ : World σ μ} {a : γ}
    (ht : p.turn.Ends code u ((), u₁)) (hr : p.perform.Ends code u₁ (a, u₂))
    (h : Relays code c o v (k a) u₂) : Relays code c o v (.step p k) u

/-- A step of a program takes its turn, then its operation, and then goes on. -/
theorem Program.step_ends {γ : Type} {p : Op σ μ γ} {k : γ → Program σ μ α} {u u₁ u₂ : World σ μ}
    {a : γ} {r : α × World σ μ} (ht : p.turn.Ends code u ((), u₁))
    (hr : p.perform.Ends code u₁ (a, u₂)) (hk : (k a).perform.Ends code u₂ r) :
    (Program.step p k).perform.Ends code u r := by
  have hlaid := Run.laid (σ := σ) (μ := μ).traversal
  have hop : p.perform.Laid := hlaid.op _ (Op.within_all _)
  have hrest : ∀ b, (k b).perform.Laid := fun b => hlaid.program _
  exact Run.Ends.bind (hlaid.turnOf p fun _ _ _ => trivial) (fun _ => Run.laid_bind hop hrest) ht
    (Run.Ends.bind hop hrest hr hk)

/-- Where the collector is not due, an operation gives it no turn. -/
theorem Op.turn_ends (o : Op σ μ α) (h : ∀ thread vm, w.due thread vm = false) :
    o.turn.Ends code w ((), w) := by
  cases hm : o.maker? w with
  | none => exact ⟨0, Op.turn_idle hm _⟩
  | some c =>
    have hturn : World.turn c (World.drive code 1) w = some ((), w) := by
      unfold World.turn
      refine Run.bind_some.mpr ⟨w, w, rfl, ?_⟩
      rw [if_neg (by simp [takesTurn, h])]
      rfl
    have hmet : meet code c .pause (World.drive code 1) w = some (.exit (.returned []), w) :=
      Run.bind_some.mpr ⟨(), w, hturn, rfl⟩
    obtain ⟨fuel, hpause⟩ := exits_met hmet exits_exit
    refine ⟨fuel, ?_⟩
    unfold Op.turn
    refine Run.bind_some.mpr ⟨w, w, rfl, ?_⟩
    rw [hm]
    change ((World.drive code fuel).from ⟨c, .need .pause, w⟩).bind (fun r => some ((), r.2)) = _
    rw [hpause]
    rfl

theorem Program.Relays.ends {o : CallOp β} {v v' u : World σ μ} {p : Program σ μ (Outcome α)}
    {e : Error} (h : p.Relays code c o v u)
    (ho : Run.Ends (α := Except Error β) code (o.perform c) v (.error e, v')) :
    p.perform.Ends code u (.failed e, v') := by
  induction h with
  | now ht hk =>
    refine Program.step_ends ht ho ?_
    rw [hk]
    exact ⟨0, rfl⟩
  | later ht hr _ ih => exact Program.step_ends ht hr ih

/-! ### Calls and resumes -/

/-- When the run of a call or of a resume ends: no closing has begun during a call, and after a resume
the interpreter has its owner. -/
structure World.Lasts (co : Bool) (i : Nat) (w w' : World σ μ) : Prop where
  unclosed : co = false → Unclosed i w w'
  owned : co = true → (w'.instances[i]?).map (·.closed) = some false

/-- Performing a call or a resume comes to having a thread run from a moment on: above a frame that
waits for a call, or above the base of a coroutine. -/
inductive CallOp.Begins : {α : Type} → CallOp α → Context → World σ μ → Bool → Moment σ μ → Prop
  where
  | call {c : Context} {args : List Value} {rc : ResultCount} {w : World σ μ}
    (h : c.Applies args rc w) : Begins (.call args rc) c w false (c.begun args rc w)
  | callInPlace {c : Context} {args : List Value} {rc : ResultCount} {w : World σ μ}
    (h : c.Applies args rc w) : Begins (.callInPlace args rc) c w false (c.begun args rc w)
  | resume {c : Context} {h : ThreadHandle} {args : List Value} {w : World σ μ}
    (G : h.Goes c args w) : Begins (.resume h args) c w true (h.turn c args w)

namespace Context

/-- After the exit of a call's run, the stack shows what was below the callable. -/
theorem Applies.shown_exit {args : List Value} {rc : ResultCount} {fuel : Nat}
    {status : ErrorStatus} {v : Val} (A : c.Applies args rc w)
    (h : (World.drive code fuel).from (c.begun args rc w) = some (.raised status v, w₁))
    (hc : Unclosed c.vm w w₁) : ∃ s, w₁.shown c = some s := by
  obtain ⟨s, f, hs⟩ := A.stands
  cases pushAll_cases hs (ThreadHandle.pair_eq A.pushed) with
  | done vals hs₁ _ hd =>
    have hprotect : c.protect args.length rc.want (World.drive code fuel)
        (c.announced args.length (c.pushAll args w).2 rc) = some (some status, w₁.push c v) := by
      rw [protect_eq]
      change Option.map _ ((World.drive code fuel).from (c.begun args rc w)) = _
      rw [h]
      rfl
    have hstands : (c.announced args.length (c.pushAll args w).2 rc).Stands c
        (s.push f ++ vals.toArray) :=
      ((c.steady_checkStack _ _).trans (alike_log _ _ _ _)).stands hs₁
    have hpushed : (c.pushAll args w).2.history = w.history :=
      TouchesIn.history (c.quiet_pushAll args trivial w)
    have hannounced : (c.announced args.length (c.pushAll args w).2 rc).history = w.history :=
      (TouchesIn.history (c.quiet_checkStack _ _)).trans hpushed
    rw [hd.length_eq] at hprotect hstands hannounced
    cases protect_cases (sound_drive code fuel) hstands hprotect (hc.of_history hannounced rfl) with
    | raised _ v' hs' =>
      have hshown := hs'.shown
      rw [shown_push, if_pos rfl] at hshown
      obtain ⟨t, ht, -⟩ := Option.map_eq_some_iff.mp hshown
      exact ⟨t, ht⟩

theorem Applies.raised {args : List Value} {rc : ResultCount} {status : ErrorStatus} {v : Val}
    (A : c.Applies args rc w) (h : Exits code (c.begun args rc w) (.raised status v) w₁)
    (hc : Unclosed c.vm w w₁) : ∃ w',
      Run.Ends (α := Except Error Int) code (c.callInPlace args rc) w
        (.error (.call (w₁.errorText c v)), w') := by
  obtain ⟨fuel, h⟩ := h
  obtain ⟨s, hs⟩ := A.shown_exit h hc
  refine ⟨(c.concluded rc.want (w.depth c - 1) (.raised status v) w₁).2, fuel, ?_⟩
  rw [A.callInPlace, h, Option.map_some]
  unfold concluded
  dsimp only
  rw [popErrorText_push hs v]

theorem Applies.raised_callWith {args : List Value} {rc : ResultCount} {status : ErrorStatus}
    {v : Val} (A : c.Applies args rc w) (h : Exits code (c.begun args rc w) (.raised status v) w₁)
    (hc : Unclosed c.vm w w₁) : ∃ w',
      Run.Ends (α := Except Error (List Value)) code (c.callWith args rc) w
        (.error (.call (w₁.errorText c v)), w') := by
  obtain ⟨w', fuel, hcall⟩ := A.raised h hc
  exact ⟨w', fuel, Act.bind_some.mpr (.inr ⟨_, hcall, rfl⟩)⟩

end Context

/-- A failed thread shows slots. -/
theorem Engine.Vm.shown_failed (h : Heap) (status : ErrorStatus) (v : Val) (th : Thread) :
    ∃ s, (failed h status v th).top.shown = some s := by
  unfold failed
  rw [Thread.top_modifyTop]
  split <;> exact ⟨_, rfl⟩

namespace ThreadHandle

variable {h : ThreadHandle} {args : List Value} {status : ErrorStatus} {v : Val} {u : World σ μ}

theorem Goes.raised (G : h.Goes c args w)
    (hx : Exits code (h.turn c args w) (.raised status v) w₁)
    (hp : Passes code h.thread status v u true w₁)
    (ho : (w₁.instances[h.thread.vm]?).map (·.closed) = some false) : ∃ w',
      Run.Ends (α := Except Error Resumed) code (h.resume c args) w
        (.error (.call (w₁.errorText h.thread v)), w') := by
  obtain ⟨s, hs⟩ : ∃ s, w₁.shown h.thread = some s := by
    cases hp with
    | @body th _ _ ht =>
      obtain ⟨s, hs⟩ := Vm.shown_failed (u.heap h.thread.vm) status v th
      refine ⟨s, ?_⟩
      unfold World.shown
      rw [thread?_modifyThread_self, ht]
      exact hs
  obtain ⟨fuel, hx⟩ := hx
  refine ⟨_, fuel, (G.ends hx ho).trans (congrArg some (Prod.ext ?_ rfl))⟩
  -- What ends the resume leaves a thread that has failed as it is.
  have hsame : (w₁.modifyVm h.thread.vm fun vm => vm).shown h.thread = some s := by
    rw [shown_modifyVm _ _ _ _ fun _ => rfl, hs]
  have hheap : (w₁.modifyVm h.thread.vm fun vm => vm).heap h.thread.vm = w₁.heap h.thread.vm := by
    unfold heap vm
    rw [modifyVm, instances_modifyInstance_self]
    cases w₁.instances[h.thread.vm]? <;> rfl
  have htext := (popErrorText_push hsame v).trans (errorText_congr hheap v)
  unfold handBack
  exact congrArg (fun t => Except.error (Error.call t)) htext

end ThreadHandle

theorem CallOp.Begins.raised {o : CallOp α} {co : Bool} {m : Moment σ μ} {status : ErrorStatus}
    {v : Val} {u : World σ μ} (hb : o.Begins c w co m) (hx : Exits code m (.raised status v) w₁)
    (hp : Passes code m.context status v u co w₁) (hl : Lasts co m.context.vm w w₁) : ∃ w',
      Run.Ends (α := Except Error α) code (o.perform c) w
        (.error (.call (w₁.errorText m.context v)), w') := by
  cases hb with
  | call A => exact A.raised_callWith hx (hl.unclosed rfl)
  | callInPlace A => exact A.raised hx (hl.unclosed rfl)
  | resume G => exact G.raised hx hp (hl.owned rfl)

/-! ### Errors on their way -/

/-- What goes wrong: a host function fails, or a value is raised. -/
inductive Cause where
  | host (f : Failure)
  | script (v : Val)

namespace Cause

/-- The run from a moment on comes to what goes wrong: an error with such a status and value is raised
in a world. The engine has memory for the text of a host function's failure. -/
inductive Arises (code : HostCode σ μ) (m : Moment σ μ) :
    Cause → ErrorStatus → Val → World σ μ → Prop where
  | host {isList : Bool} {id : Nat} {shape : FunctionShape} {f : Failure} {u u' : World σ μ}
    (ha : Attained code ⟨m.context, .need (.host isList (some id)), u⟩ m)
    (hf : code.Fails m.context id shape f u u') (hd : f.Droppable)
    (hm : (u'.heap m.context.vm).starved = false) :
    Arises code m (.host f) .runtime (.text f.text) (u'.afterHost m.context shape id)
  | script {status : ErrorStatus} {v : Val} {handled : Bool} {u : World σ μ}
    (ha : Attained code ⟨m.context, .go (.raise status v handled), u⟩ m) :
    Arises code m (.script v) status v u

/-- What a text says of it: the words of the failure, the characters of a text that was raised, or
the description of another value at the place where it was found. -/
def Reads (t : String) : Cause → Prop
  | host f => t = f.text
  | script (.str b) => t = b.toStringLossy
  | script v => ∃ (σ μ : Type) (w : World σ μ) (c : Context), t = w.errorText c v

theorem Arises.exits {cause : Cause} {m : Moment σ μ} {status : ErrorStatus} {v : Val} {co : Bool}
    {u : World σ μ} (h : cause.Arises code m status v u)
    (hp : Passes code m.context status v u co w₁) : Exits code m (.raised status v) w₁ := by
  cases h with
  | @host isList id shape f u u' ha hf hd hm =>
    obtain ⟨fuel, hmet⟩ := hf.meets hd isList
    rw [failing_of_fed hm] at hmet
    exact ha.exits (exits_met hmet (hp.exits false))
  | script ha => exact ha.exits (hp.exits _)

theorem Arises.reads {cause : Cause} {m : Moment σ μ} {status : ErrorStatus} {v : Val}
    {u : World σ μ} (h : cause.Arises code m status v u) (w₁ : World σ μ) (c : Context) :
    cause.Reads (w₁.errorText c v) := by
  cases h with
  | host ha hf hd hm => exact errorText_text w₁ c _
  | script ha => cases v <;> first | exact rfl | exact ⟨σ, μ, w₁, c, rfl⟩

end Cause

/-- Calls and resumes one within the other, so many of them inside host functions that give their
error back as it is, about what goes wrong in the innermost. Nothing holds the error up on the
threads that it passes. -/
inductive Tower (code : HostCode σ μ) (cause : Cause) :
    Nat → {α : Type} → CallOp α → Context → World σ μ → String → Prop where
  | first {α : Type} {o : CallOp α} {c : Context} {w u w₁ : World σ μ} {co : Bool} {m : Moment σ μ}
    {status : ErrorStatus} {v : Val} (hb : o.Begins c w co m)
    (hc : cause.Arises code m status v u) (hp : Passes code m.context status v u co w₁)
    (hl : Lasts co m.context.vm w w₁) : Tower code cause 0 o c w (w₁.errorText m.context v)
  | more {k : Nat} {α β : Type} {o : CallOp α} {o' : CallOp β} {c c' : Context} {w u v : World σ μ}
    {co isList : Bool} {m : Moment σ μ} {id : Nat} {shape : FunctionShape} {t : String}
    (hb : o.Begins c w co m)
    (ha : Attained code ⟨m.context, .need (.host isList (some id)), u⟩ m)
    (hr : code.Does m.context id u (fun p x => p.Relays code c' o' v x) shape)
    (inner : Tower code cause k o' c' v t)
    (hp : ∀ v', Run.Ends (α := Except Error β) code (o'.perform c') v (.error (.call t), v') →
      (v'.heap m.context.vm).starved = false ∧
      ∃ w₁, Passes code m.context .runtime (.text t) (v'.afterHost m.context shape id) co w₁ ∧
        Lasts co m.context.vm w w₁) :
    Tower code cause (k + 1) o c w t

theorem CallOp.laid (o : CallOp α) (c : Context) :
    Run.Laid (α := Except Error α) (o.perform c : Act σ μ α) :=
  Run.laid.traversal.op (.run c o) (Op.within_all _)

namespace Tower

variable {cause : Cause} {k : Nat} {o : CallOp α} {t : String}

theorem reads (T : Tower code cause k o c w t) : cause.Reads t := by
  induction T with
  | first hb hc hp hl => exact hc.reads _ _
  | more hb ha hr inner hp ih => exact ih

theorem fails (T : Tower code cause k o c w t) : ∃ w',
    Run.Ends (α := Except Error α) code (o.perform c) w (.error (.call t), w') := by
  induction T with
  | first hb hc hp hl => exact hb.raised (hc.exits hp) hp hl
  | @more k α β o o' c c' w u v co isList m id shape t hb ha hr inner hp ih =>
    obtain ⟨v', hv'⟩ := ih
    obtain ⟨hfed, w₁, hpass, hlasts⟩ := hp v' hv'
    have hfails : code.Fails m.context id shape (.error (.call t)) u v' := by
      cases hr with
      | raw hf h => exact .raw hf (h.ends hv')
      | list hf hargs h => exact .list hf hargs (h.ends hv')
    have hc : Cause.Arises code m (.host (.error (.call t))) .runtime (.text t)
        (v'.afterHost m.context shape id) := .host ha hfails trivial hfed
    obtain ⟨w', hw'⟩ := hb.raised (hc.exits hpass) hpass hlasts
    rw [errorText_text] at hw'
    exact ⟨w', hw'⟩

/-- However many host functions hand the error on, the outermost call or resume ends, and it fails
with the text of what went wrong. -/
theorem error_text (T : Tower code cause k o c w t) :
    cause.Reads t ∧
    (∃ w', Run.Ends (α := Except Error α) code (o.perform c) w (.error (.call t), w')) ∧
    ∀ fuel r w', (o.perform c : Act σ μ α) (World.drive code fuel) w = some (r, w') →
      r = .error (.call t) := by
  refine ⟨T.reads, T.fails, fun fuel r w' h => ?_⟩
  obtain ⟨w₁, hend⟩ := T.fails
  exact congrArg Prod.fst (hend.agree (o.laid c) h)

end Tower

/-! ### One host function inside another -/

/-- Whether a native function that the host called directly is on top. -/
def Engine.Thread.isDirect (th : Thread) : Bool :=
  match th.frames with
  | f :: g :: _ => !f.isScript && (Vm.handlerOf f.await).isNone &&
    match g.await with
    | .guarded => true
    | _ => false
  | _ => false

/-- Nothing holds up the error of a function that the host called directly. -/
theorem World.passes_direct (code : HostCode σ μ) (status : ErrorStatus) (v : Val)
    (h : (w.thread? c).any Thread.isDirect = true) :
    ∃ w₁, Passes code c status v w false w₁ ∧ w₁.history = w.history := by
  obtain ⟨th, ht, hd⟩ := (Option.any_eq_true _ _).mp h
  unfold Thread.isDirect at hd
  split at hd
  next f g rest hf =>
    simp only [Bool.and_eq_true, Bool.not_eq_true'] at hd
    obtain ⟨⟨hn, hh⟩, hg⟩ := hd
    have hguard : g.await = .guarded := by
      split at hg
      next heq => exact heq
      next => cases hg
    have hclosers : [f].flatMap (Vm.closersOf (w.heap c.vm)) ++ [] = [] := by
      unfold Frame.isScript at hn
      unfold Vm.closersOf
      cases hl : f.level with
      | native s => simp [hl]
      | script a => simp [hl] at hn
    refine ⟨(closing c (status, v) [] (w.modifyThread c
      ({ · with above := (g :: rest).dropLast }))).world, ?_, ?_⟩
    · have hframes : th.frames = [f] ++ g :: rest := hf
      have hguards : g.await.Guards [] := by
        rw [hguard]
        exact .call
      refine .call ht hframes (by simpa using hh) hguards ?_
      rw [hclosers]
      refine .none ?_
      rw [thread?_modifyThread_self, ht]
      rfl
    · unfold closing
      dsimp only
      rw [onVm_world]
      rfl
  next => cases hd

/-- Either fails, or calls a function that does and gives its error back. -/
def HostCode.relaying : HostCode Bool Unit where
  raw outer c :=
    if outer then
      .step (.stack c (.push (.function .raw 1))) fun _ =>
        .step (.run c (.call [] .all)) fun r =>
          match r with
          | .ok _ => .pure (.done 0)
          | .error e => .pure (.failed e)
    else .pure (.failed (.runtime "no luck"))
  list _ _ _ := .pure (.done [])

/-- An interpreter whose main stack shows a host function, which calls another one. -/
def relay : World Bool Unit where
  instances := #[{
    vm :=
      { freshVm 0 with
        heap :=
          { (freshVm 0).heap with
            closures := { items := #[some (.native .callRaw #[.userdata 0])] }
            userdata := { items := #[some ⟨.function false (some 0), 16, none⟩] } }
        threads := #[{ ground := { level := .native #[.closure 0] } }] }
    chunkName := .empty }]
  functions := { items := #[some ⟨(.raw, true), 1⟩, some ⟨(.raw, false), 1⟩] }
  memory := ()
  subscriber _ m := m

namespace relay

def outer : Moment Bool Unit := Context.begun ⟨0, 0⟩ [] .all relay

/-- The world in which the outer function pushes the inner one. -/
def entered : World Bool Unit := outer.world.retain (.function .raw 0)

/-- The world in which it calls it. -/
def pushed : World Bool Unit := (Context.push ⟨0, 0⟩ (.function .raw 1) entered).2

def inner : Moment Bool Unit := Context.begun ⟨0, 0⟩ [] .all pushed

end relay

/-- The outer function hands on what the inner one fails with. -/
theorem Tower.error_text_relay : ∃ t,
    Tower HostCode.relaying (.host (.error (.runtime "no luck"))) 1
      (.call [] .all) ⟨0, 0⟩ relay t ∧ t = "no luck" ∧
    ∃ w', Run.Ends (α := Except Error (List Value)) HostCode.relaying
      (Context.callWith ⟨0, 0⟩ [] .all) relay (.error (.call "no luck"), w') := by
  have houter := Moment.eq_of_host (show relay.outer.next.host? = some (false, 0) by
    decide +kernel)
  have hinner := Moment.eq_of_host (show relay.inner.next.host? = some (false, 1) by
    decide +kernel)
  obtain ⟨f, hf, hfo⟩ := Option.map_eq_some_iff.mp
    (show (relay.outer.world.functions.get? 0).map Counted.object = some (.raw, true) by
      decide +kernel)
  obtain ⟨g, hg, hgo⟩ := Option.map_eq_some_iff.mp
    (show (relay.inner.world.functions.get? 1).map Counted.object = some (.raw, false) by
      decide +kernel)
  obtain ⟨_, n⟩ := f
  obtain ⟨_, k⟩ := g
  obtain rfl : _ = (FunctionShape.raw, true) := hfo
  obtain rfl : _ = (FunctionShape.raw, false) := hgo
  -- The inner call fails on its own.
  have hfirst : Tower HostCode.relaying (.host (.error (.runtime "no luck"))) 0
      (.call [] .all) ⟨0, 0⟩ relay.pushed "no luck" := by
    have hb : CallOp.Begins (.call [] .all) ⟨0, 0⟩ relay.pushed false relay.inner :=
      .call ⟨⟨#[], .closure 1, by decide +kernel, by decide +kernel⟩, by decide, by decide +kernel,
        by decide +kernel⟩
    have hfails : HostCode.relaying.Fails ⟨0, 0⟩ 1 .raw (.error (.runtime "no luck"))
        relay.inner.world (relay.inner.world.retain (.function .raw 1)) := .raw hg ⟨0, rfl⟩
    obtain ⟨w₁, hp, hh⟩ := passes_direct HostCode.relaying .runtime (.text "no luck")
      (show (((relay.inner.world.retain (.function .raw 1)).afterHost ⟨0, 0⟩ .raw 1).thread? ⟨0, 0⟩).any
        Thread.isDirect = true by decide +kernel)
    have hlasts : Lasts false 0 relay.pushed w₁ :=
      ⟨fun _ => unclosed_of_history (hh.trans rfl), nofun⟩
    have hc : Cause.Arises HostCode.relaying relay.inner (.host (.error (.runtime "no luck")))
        .runtime (.text "no luck")
          ((relay.inner.world.retain (.function .raw 1)).afterHost ⟨0, 0⟩ .raw 1) :=
      .host (by rw [← hinner]; exact .here) hfails trivial (by decide +kernel)
    have h := Tower.first hb hc hp hlasts
    rwa [errorText_text] at h
  have T : Tower HostCode.relaying (.host (.error (.runtime "no luck"))) 1
      (.call [] .all) ⟨0, 0⟩ relay "no luck" := by
    have hb : CallOp.Begins (.call [] .all) ⟨0, 0⟩ relay false relay.outer :=
      .call ⟨⟨#[], .closure 0, rfl, rfl⟩, by decide, by decide +kernel, by decide +kernel⟩
    have hrelays : HostCode.relaying.Does ⟨0, 0⟩ 0 relay.outer.world
        (fun p x => p.Relays HostCode.relaying ⟨0, 0⟩ (.call [] .all) relay.pushed x) .raw :=
      .raw hf (.later (Op.turn_ends _ fun _ _ => rfl) ⟨0, rfl⟩
        (.now (Op.turn_ends _ fun _ _ => rfl) fun e => rfl))
    refine .more hb (by rw [← houter]; exact .here) hrelays hfirst fun v' hv' => ?_
    -- However long the inner call takes, it ends as it does here.
    have hend : (Context.callWith ⟨0, 0⟩ [] .all (World.drive HostCode.relaying 12)
        relay.pushed).map (fun r => ((r.2.afterHost ⟨0, 0⟩ .raw 0).thread? ⟨0, 0⟩).any
          Thread.isDirect && !(r.2.heap 0).starved &&
            (r.2.afterHost ⟨0, 0⟩ .raw 0).history.isEmpty) = some true := by
      decide +kernel
    obtain ⟨r, hr, hcheck⟩ := Option.map_eq_some_iff.mp hend
    obtain rfl := hv'.agree (CallOp.laid (.call [] .all) ⟨0, 0⟩) hr
    simp only [Bool.and_eq_true, Bool.not_eq_true'] at hcheck
    obtain ⟨⟨hdirect, hfed⟩, hhistory⟩ := hcheck
    obtain ⟨w₁, hp, hh⟩ := passes_direct HostCode.relaying .runtime (.text "no luck") hdirect
    exact ⟨hfed, w₁, hp,
      fun _ => unclosed_of_history (hh.trans (List.isEmpty_iff.mp hhistory)), nofun⟩
  exact ⟨_, T, T.error_text.1, T.error_text.2.1⟩

/-- An interpreter without memory whose main stack shows a host function that fails. -/
def relay.starving : World Bool Unit :=
  { relay.modifyHeap 0 ({ · with starved := true }) with
    functions := { items := #[some ⟨(.raw, false), 1⟩] } }

/-- The interpreter has no memory for the text of a failure and raises its own error. -/
theorem relay.text_lost :
    let m := Context.begun ⟨0, 0⟩ [] .all relay.starving
    CallOp.Begins (.call [] .all) ⟨0, 0⟩ relay.starving false m ∧
    (∃ u, Attained HostCode.relaying ⟨m.context, .need (.host false (some 0)), m.world⟩ m ∧
      HostCode.relaying.Fails ⟨0, 0⟩ 0 .raw (.error (.runtime "no luck")) m.world u) ∧
    ∃ w', Run.Ends (α := Except Error (List Value)) HostCode.relaying
      (Context.callWith ⟨0, 0⟩ [] .all) relay.starving (.error (.call "not enough memory"), w') := by
  intro m
  have hm := Moment.eq_of_host (show m.next.host? = some (false, 0) by decide +kernel)
  obtain ⟨⟨_, n⟩, hf, hfo⟩ := Option.map_eq_some_iff.mp
    (show (m.world.functions.get? 0).map Counted.object = some (.raw, false) by decide +kernel)
  obtain rfl : _ = (FunctionShape.raw, false) := hfo
  have hend : (Context.callWith ⟨0, 0⟩ [] .all (World.drive HostCode.relaying 12) relay.starving).map
      (fun r => decide (r.1 = .error (.call "not enough memory"))) = some true := by
    decide +kernel
  refine ⟨.call ⟨⟨#[], .closure 0, rfl, rfl⟩, by decide, by decide +kernel, by decide +kernel⟩,
    ⟨_, by rw [← hm]; exact .here, .raw hf ⟨0, rfl⟩⟩, ?_⟩
  obtain ⟨⟨r, w'⟩, hr, he⟩ := Option.map_eq_some_iff.mp hend
  obtain rfl := of_decide_eq_true he
  exact ⟨w', 12, hr⟩

end LuaEmbed
