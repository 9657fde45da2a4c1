import LuaEmbed.Proofs.GuardedRun
import LuaEmbed.Proofs.Isolation
import LuaEmbed.Proofs.Progress

/-!
How an error leaves a run when nothing holds it up: it passes over frames that do not catch it, the
variables that these frames have to close are closed, and the run exits with the error as it was.
-/
namespace LuaEmbed

open Engine World

namespace Engine

variable {fs above rest : List Frame} {g ground : Frame} {pending : List Val}

/-- A frame waits for a call that the host made, or, after an error in it, for so many variables to
be closed. -/
inductive Await.Guards : Await → List Val → Prop where
  | call : Guards .guarded []
  | closing (rest : List Val) (error : Option (ErrorStatus × Val)) :
    Guards (.closing rest error .guarded) rest

theorem Await.Guards.handler {a : Await} (h : a.Guards pending) :
    Vm.handlerOf a = some none := by
  cases h <;> rfl

namespace Vm

/-- Unwinding drops the frames that do not catch errors. -/
theorem unwind_eq (h : Heap) (hfs : ∀ f ∈ fs, handlerOf f.await = none)
    (hg : (handlerOf g.await).isSome = true) (acc : List Val)
    (he : above ++ [ground] = fs ++ g :: rest) :
    unwind h above acc = ((g :: rest).dropLast, acc ++ fs.flatMap (closersOf h)) := by
  induction fs generalizing above acc with
  | nil =>
    cases above with
    | nil =>
      obtain ⟨-, rfl⟩ := List.cons.inj he
      simp [unwind]
    | cons f tail =>
      obtain ⟨rfl, rfl⟩ := List.cons.inj he
      unfold unwind
      rw [if_pos hg]
      change (f :: tail, acc) = ((f :: tail ++ [ground]).dropLast, acc ++ [])
      rw [List.dropLast_concat, List.append_nil]
  | cons f fs ih =>
    cases above with
    | nil => exact absurd (congrArg List.length he) (by simp)
    | cons f' tail =>
      obtain ⟨rfl, htail⟩ := List.cons.inj he
      unfold unwind
      rw [hfs f' (List.mem_cons_self ..), if_neg (by simp),
        ih (fun f hf => hfs f (List.mem_cons_of_mem _ hf)) _ htail, List.flatMap_cons,
        List.append_assoc]

variable {vm : Vm} {t : Nat} {th : Thread} {status : ErrorStatus} {v : Val}

/-- No message handler is in force over such frames. -/
theorem raise_eq_settle (ht : vm.thread? t = some th) (hf : th.frames = fs ++ g :: rest)
    (hfs : ∀ f ∈ fs, handlerOf f.await = none) (hg : handlerOf g.await = some none)
    (handled : Bool) : vm.raise t status v handled = vm.settle t status v := by
  have hnone : fs.findSome? (fun f => handlerOf f.await) = none := List.findSome?_eq_none_iff.mpr hfs
  unfold raise
  dsimp only
  rw [thread_of_some ht, hf, List.findSome?_append, hnone, Option.none_or,
    List.findSome?_cons_of_isSome (by rw [hg]; rfl), hg]
  rfl

/-- The error reaches the frame that a call was made from. -/
theorem settle_guarded (ht : vm.thread? t = some th) (hf : th.frames = fs ++ g :: rest)
    (hfs : ∀ f ∈ fs, handlerOf f.await = none) (hg : g.await.Guards pending) :
    vm.settle t status v =
      (vm.modifyThread t ({ · with above := (g :: rest).dropLast })).closeOrDeliver t
        (fs.flatMap (closersOf vm.heap) ++ pending) (some (status, v)) .guarded := by
  have hu := unwind_eq vm.heap hfs (by rw [hg.handler]; rfl) [] hf
  have htop : ({ th with above := (g :: rest).dropLast } : Thread).top = g := by
    have hground : th.ground = (g :: rest).getLast (List.cons_ne_nil _ _) := by
      have hlast : th.frames.getLast? = (fs ++ g :: rest).getLast? := by rw [hf]
      unfold Thread.frames at hlast
      rw [List.getLast?_concat, List.getLast?_append_of_ne_nil _ (List.cons_ne_nil _ _),
        List.getLast?_eq_some_getLast (List.cons_ne_nil _ _)] at hlast
      exact Option.some.inj hlast
    unfold Thread.top
    cases rest with
    | nil => exact hground
    | cons f rest => rfl
  have hstarted : (g :: rest).dropLast = [] → th.ground.await ≠ .started := by
    intro hnil hs
    have hg' : g.await = .started := by
      rw [← hs, ← htop, hnil]
      rfl
    rw [hg'] at hg
    cases hg
  unfold settle
  dsimp only
  rw [thread_of_some ht, hu, List.nil_append]
  dsimp only
  split
  next habove hs => exact absurd hs (hstarted habove)
  next =>
    rw [thread_of_some (thread?_modify ht _), htop]
    generalize g.await = a at hg
    cases hg with
    | call => rw [List.append_nil]
    | closing rest error => rfl

/-- The error reaches the base of a coroutine. -/
theorem settle_started (ht : vm.thread? t = some th) (hf : th.frames = fs ++ [g])
    (hfs : ∀ f ∈ fs, handlerOf f.await = none) (hg : g.await = .started) :
    vm.settle t status v =
      (vm.modifyThread t (failed vm.heap status v), .exit (.raised status v)) := by
  have hu := unwind_eq vm.heap hfs (by rw [hg]; rfl) [] hf
  have hground : th.ground = g := by
    have hlast : th.frames.getLast? = (fs ++ [g]).getLast? := by rw [hf]
    unfold Thread.frames at hlast
    rw [List.getLast?_concat, List.getLast?_concat] at hlast
    exact Option.some.inj hlast
  unfold settle
  dsimp only
  rw [thread_of_some ht, hu]
  dsimp only [List.dropLast]
  rw [hground, hg]

end Vm
end Engine

variable {σ μ : Type} {code : HostCode σ μ} {c : Context} {w w' : World σ μ}

namespace World

/-- The moment at which variables begin to be closed, on behalf of an error. -/
def closing (c : Context) (e : ErrorStatus × Val) (closers : List Val) (w : World σ μ) :
    Moment σ μ :=
  let r := w.onVm c.vm fun vm => vm.closeOrDeliver c.thread closers (some e) .guarded
  ⟨c, r.1, r.2⟩

/-- Variables are closed on behalf of an error, one after the other, and every closing method
returns. -/
inductive Closes (code : HostCode σ μ) (c : Context) (e : ErrorStatus × Val) :
    List Val → World σ μ → World σ μ → Prop where
  | none {w : World σ μ} (h : (w.thread? c).isSome) : Closes code c e [] w (closing c e [] w).world
  | one {x : Val} {rest vs : List Val} {w u w' : World σ μ}
    (h : Attained code ⟨c, .go (.results vs), u⟩ (closing c e (x :: rest) w))
    (ha : (u.thread? c).map (·.top.await) = some (.closing rest (some e) .guarded))
    (hs : Closes code c e rest u w') : Closes code c e (x :: rest) w w'

theorem Closes.exits {e : ErrorStatus × Val} {closers : List Val}
    (h : Closes code c e closers w w') :
    Exits code (closing c e closers w) (.raised e.1 e.2) w' := by
  induction h with
  | @none w h =>
    obtain ⟨th, ht⟩ := Option.isSome_iff_exists.mp h
    obtain ⟨vm, -, hnext, -⟩ := onVm_thread ht fun vm =>
      vm.closeOrDeliver c.thread [] (some e) .guarded
    have hexit : closing c e [] w = ⟨c, .exit (.raised e.1 e.2), (closing c e [] w).world⟩ := by
      unfold closing
      dsimp only
      rw [hnext]
      rfl
    rw [hexit]
    exact exits_exit
  | @one x rest vs w u w' h ha hs ih =>
    refine h.exits (exits_step ?_)
    obtain ⟨th, ht, hawait⟩ := Option.map_eq_some_iff.mp ha
    have hstep : (u.onVm c.vm fun vm => vm.step c.thread (.results vs)) =
        u.onVm c.vm fun vm => vm.closeOrDeliver c.thread rest (some e) .guarded := by
      obtain ⟨i, hi, hth⟩ := Option.bind_eq_some_iff.mp ht
      refine onVm_congr u c.vm hi ?_
      change i.vm.deliver c.thread vs = _
      unfold Vm.deliver
      rw [Vm.thread_of_some hth, hawait]
    rw [hstep]
    exact ih

/-- An error that is raised on a thread is held up by nothing: it leaves the run as it is, that of a
call or that of a coroutine's body. -/
inductive Passes (code : HostCode σ μ) (c : Context) (status : ErrorStatus) (v : Val)
    (w : World σ μ) : Bool → World σ μ → Prop where
  /-- Over frames that do not catch it, to the one that a call was made from. -/
  | call {th : Thread} {fs rest : List Frame} {g : Frame} {pending : List Val} {w' : World σ μ}
    (ht : w.thread? c = some th) (hf : th.frames = fs ++ g :: rest)
    (hfs : ∀ f ∈ fs, Vm.handlerOf f.await = none) (hg : g.await.Guards pending)
    (hc : Closes code c (status, v) (fs.flatMap (Vm.closersOf (w.heap c.vm)) ++ pending)
      (w.modifyThread c ({ · with above := (g :: rest).dropLast })) w') :
    Passes code c status v w false w'
  /-- Over frames that do not catch it, out of a coroutine. -/
  | body {th : Thread} {fs : List Frame} {g : Frame} (ht : w.thread? c = some th)
    (hf : th.frames = fs ++ [g]) (hfs : ∀ f ∈ fs, Vm.handlerOf f.await = none)
    (hg : g.await = .started) :
    Passes code c status v w true (w.modifyThread c (Vm.failed (w.heap c.vm) status v))

theorem Passes.exits {status : ErrorStatus} {v : Val} {co : Bool}
    (h : Passes code c status v w co w')
    (handled : Bool) :
    Exits code ⟨c, .go (.raise status v handled), w⟩ (.raised status v) w' := by
  refine exits_step ?_
  cases h with
  | @call th fs rest g pending _ ht hf hfs hg hc =>
    obtain ⟨x, hx, hth⟩ := Option.bind_eq_some_iff.mp ht
    have hheap : w.heap c.vm = x.vm.heap := by
      unfold heap
      rw [vm_eq w c.vm hx]
    have hstep : (w.onVm c.vm fun vm => vm.step c.thread (.raise status v handled)) =
        (w.modifyThread c ({ · with above := (g :: rest).dropLast })).onVm c.vm fun vm =>
          vm.closeOrDeliver c.thread (fs.flatMap (Vm.closersOf (w.heap c.vm)) ++ pending)
            (some (status, v)) .guarded := by
      rw [modifyThread, onVm_modifyVm, hheap]
      exact onVm_congr w c.vm hx ((Vm.raise_eq_settle hth hf hfs hg.handler handled).trans
        (Vm.settle_guarded hth hf hfs hg))
    rw [hstep]
    exact hc.exits
  | @body th fs g ht hf hfs hg =>
    obtain ⟨x, hx, hth⟩ := Option.bind_eq_some_iff.mp ht
    have hheap : w.heap c.vm = x.vm.heap := by
      unfold heap
      rw [vm_eq w c.vm hx]
    have hstep : (w.onVm c.vm fun vm => vm.step c.thread (.raise status v handled)) =
        (.exit (.raised status v),
          w.modifyThread c (Vm.failed (w.heap c.vm) status v)) := by
      refine (onVm_congr w c.vm (g := fun vm => (vm.modifyThread c.thread
        (Vm.failed (w.heap c.vm) status v), .exit (.raised status v))) hx ?_).trans ?_
      · rw [hheap]
        exact (Vm.raise_eq_settle hth hf hfs (by rw [hg]; rfl) handled).trans
          (Vm.settle_started hth hf hfs hg)
      rw [onVm_eq, hx]
      rfl
    rw [hstep]
    exact exits_exit

end World
end LuaEmbed
