import LuaEmbed.Host.World

/-!
Where interpreters and threads are found after a change of the world. A thread is looked up as an
option, so that the equations hold of stacks that do not exist as well.
-/
namespace LuaEmbed

open Engine

namespace Engine.Pool

variable {α : Type} (p : Pool α)

theorem get?_push (a : α) (n : Nat) :
    (p.push a).get? n = if n = p.next then some a else p.get? n := by
  unfold get? push next
  rw [Array.getElem?_push]
  split <;> rfl

theorem get?_erase (m n : Nat) : (p.erase m).get? n = if m = n then none else p.get? n := by
  unfold get? erase
  rw [Array.getElem?_setIfInBounds]
  split
  · split <;> rfl
  · rfl

theorem get?_next : p.get? p.next = none := by
  simp [get?, next]

theorem get?_modify (i n : Nat) (f : α → α) :
    (p.modify i f).get? n = if i = n then (p.get? n).map f else p.get? n := by
  unfold get? modify
  rw [Array.getElem?_modify]
  split
  · cases p.items[n]? <;> rfl
  · rfl

variable {p} in
theorem get?_set {i : Nat} (h : i < p.next) (n : Nat) (a : α) :
    (p.set i a).get? n = if i = n then some a else p.get? n := by
  unfold get? set
  rw [Array.getElem?_setIfInBounds]
  split
  · rw [if_pos (by simpa [next] using h)]
    rfl
  · rfl

variable {p} in
theorem lt_next {n : Nat} {a : α} (h : p.get? n = some a) : n < p.next := by
  unfold get? at h
  unfold next
  cases hn : p.items[n]? with
  | none => simp [hn] at h
  | some x => exact (Array.getElem?_eq_some_iff.mp hn).1

end Engine.Pool

namespace Engine.Vm

variable (vm : Vm) (t u : Nat)

theorem thread_eq : vm.thread t = (vm.thread? t).getD default := by
  simp [thread, thread?]

theorem thread?_modifyThread (f : Thread → Thread) :
    (vm.modifyThread t f).thread? u = if t = u then (vm.thread? u).map f else vm.thread? u := by
  simp [modifyThread, thread?, Array.getElem?_modify]

@[simp] theorem thread?_modifyThread_self (f : Thread → Thread) :
    (vm.modifyThread t f).thread? t = (vm.thread? t).map f := by
  simp [thread?_modifyThread]

theorem thread?_modifyThread_of_ne (f : Thread → Thread) (h : t ≠ u) :
    (vm.modifyThread t f).thread? u = vm.thread? u := by
  simp [thread?_modifyThread, h]

theorem thread?_setThread (th : Thread) :
    (vm.setThread t th).thread? u
      = if t = u then (vm.thread? u).map (fun _ => th) else vm.thread? u := by
  simp only [setThread, thread?, Array.getElem?_setIfInBounds]
  by_cases h : t = u
  · subst h
    by_cases hl : t < vm.threads.size <;> simp [hl]
  · simp [h]

/-- A new thread leaves the others where they were. -/
theorem thread?_spawn {vm : Vm} {t : Nat} {th : Thread} (h : vm.thread? t = some th)
    (new : Thread) :
    ({ vm with threads := vm.threads.push new } : Vm).thread? t = some th := by
  obtain ⟨hl, rfl⟩ := Array.getElem?_eq_some_iff.mp h
  simp [thread?, Array.getElem?_push, Nat.ne_of_lt hl]

/-- Putting a changed thread back is changing it in place. -/
theorem setThread_thread (f : Thread → Thread) :
    vm.setThread t (f (vm.thread t)) = vm.modifyThread t f := by
  simp only [setThread, modifyThread, thread]
  congr 1
  apply Array.ext_getElem?
  intro i
  rw [Array.getElem?_setIfInBounds, Array.getElem?_modify]
  by_cases h : t = i
  · subst h
    by_cases hl : t < vm.threads.size <;> simp [hl]
  · simp [h]

theorem setThread_setThread (a b : Thread) :
    (vm.setThread t a).setThread t b = vm.setThread t b := by
  simp [setThread]

end Engine.Vm

namespace World

variable {σ μ α : Type} (w : World σ μ) (i j : Nat) (c d : Context)

theorem instances_modifyInstance (f : Instance → Instance) :
    (w.modifyInstance i f).instances[j]?
      = if i = j then (w.instances[j]?).map f else w.instances[j]? := by
  simp [modifyInstance, Array.getElem?_modify]

@[simp] theorem instances_modifyInstance_self (f : Instance → Instance) :
    (w.modifyInstance i f).instances[i]? = (w.instances[i]?).map f := by
  simp [instances_modifyInstance]

/-- Work on an interpreter changes that interpreter alone. -/
theorem onVm_eq [Inhabited α] (f : Vm → Vm × α) :
    w.onVm i f =
      match w.instances[i]? with
      | some x => ((f x.vm).2, w.modifyVm i fun vm => (f vm).1)
      | none => (default, w) := by
  unfold onVm
  split
  next h =>
    have hx : w.instances[i]? = some w.instances[i] := by simp [h]
    rw [hx]
    simp only [modifyVm, modifyInstance, Prod.mk.injEq, World.mk.injEq, true_and, and_true]
    apply Array.ext_getElem?
    intro j
    rw [Array.getElem?_setIfInBounds, Array.getElem?_modify]
    by_cases hj : i = j
    · subst hj; simp [h]
    · simp [hj]
  next h =>
    have hx : w.instances[i]? = none := by simp [h]
    simp [hx]

theorem onVm_world [Inhabited α] (f : Vm → Vm × α) :
    (w.onVm i f).2 = w.modifyVm i fun vm => (f vm).1 := by
  rw [onVm_eq]
  cases h : w.instances[i]? with
  | some x => rfl
  | none =>
    have hi : w.instances.modify i (fun x => { x with vm := (f x.vm).1 }) = w.instances := by
      apply Array.ext_getElem?
      intro j
      rw [Array.getElem?_modify]
      by_cases hj : i = j
      · subst hj; simp [h]
      · simp [hj]
    simp [modifyVm, modifyInstance, hi]

theorem onVm_answer [Inhabited α] (f : Vm → Vm × α) {x : Instance} (h : w.instances[i]? = some x) :
    (w.onVm i f).1 = (f x.vm).2 := by
  rw [onVm_eq, h]

/-- Work on an interpreter depends on what it does to that interpreter alone. -/
theorem onVm_congr [Inhabited α] {f g : Vm → Vm × α} {x : Instance} (h : w.instances[i]? = some x)
    (hf : f x.vm = g x.vm) : w.onVm i f = w.onVm i g := by
  rw [onVm_eq, onVm_eq, h]
  dsimp only
  rw [hf]
  congr 1
  unfold modifyVm modifyInstance
  congr 1
  apply Array.ext_getElem?
  intro j
  rw [Array.getElem?_modify, Array.getElem?_modify]
  by_cases hj : i = j
  · subst hj
    simp [h, hf]
  · simp [hj]

/-- Work on an interpreter that has been worked on. -/
theorem onVm_modifyVm [Inhabited α] (f : Vm → Vm × α) (g : Vm → Vm) :
    (w.modifyVm i g).onVm i f = w.onVm i fun vm => f (g vm) := by
  rw [onVm_eq, onVm_eq, modifyVm, instances_modifyInstance_self]
  cases h : w.instances[i]? with
  | none =>
    have hi : w.instances.modify i (fun x => { x with vm := g x.vm }) = w.instances := by
      apply Array.ext_getElem?
      intro j
      rw [Array.getElem?_modify]
      by_cases hj : i = j
      · subst hj; simp [h]
      · simp [hj]
    simp [modifyInstance, hi]
  | some x =>
    simp only [Option.map_some, modifyVm, modifyInstance, Prod.mk.injEq, World.mk.injEq, true_and,
      and_true]
    apply Array.ext_getElem?
    intro j
    simp only [Array.getElem?_modify]
    by_cases hj : i = j
    · subst hj; simp [h]
    · simp [hj]

theorem vm_eq {x : Instance} (h : w.instances[i]? = some x) : w.vm i = x.vm := by
  simp [vm, h]

theorem thread_eq : w.thread c = (w.thread? c).getD default := by
  unfold thread thread? vm
  rw [Vm.thread_eq]
  cases w.instances[c.vm]? with
  | some x => rfl
  | none => simp [Vm.thread?]; rfl

theorem thread?_modifyVm (f : Vm → Vm) :
    (w.modifyVm i f).thread? c
      = if i = c.vm then (w.instances[i]?).bind fun x => (f x.vm).thread? c.thread
        else w.thread? c := by
  simp only [thread?, modifyVm, instances_modifyInstance]
  by_cases h : i = c.vm
  · subst h
    rw [if_pos rfl, if_pos rfl, Option.bind_map]
    rfl
  · simp [h]

theorem thread?_modifyVm_of_ne (f : Vm → Vm) (h : i ≠ c.vm) :
    (w.modifyVm i f).thread? c = w.thread? c := by
  simp [thread?_modifyVm, h]

/-- Work on objects leaves every thread as it is. -/
theorem thread?_objects (f : Vm → Vm) (hf : ∀ vm, (f vm).threads = vm.threads) :
    (w.modifyVm i f).thread? c = w.thread? c := by
  rw [thread?_modifyVm]
  split
  next h =>
    subst h
    unfold thread? Vm.thread?
    simp only [hf]
  next => rfl

theorem thread?_modifyInstance (f : Instance → Instance) (hf : ∀ x, (f x).vm = x.vm) :
    (w.modifyInstance i f).thread? c = w.thread? c := by
  simp only [thread?, instances_modifyInstance]
  by_cases h : i = c.vm
  · subst h
    rw [if_pos rfl, Option.bind_map]
    exact congrArg _ (funext fun x => congrArg (·.thread? c.thread) (hf x))
  · simp [h]

theorem thread?_modifyThread (f : Thread → Thread) :
    (w.modifyThread c f).thread? d = if c = d then (w.thread? d).map f else w.thread? d := by
  simp only [modifyThread, thread?_modifyVm]
  by_cases h : c.vm = d.vm
  · simp only [h, if_true, Vm.thread?_modifyThread, thread?]
    by_cases ht : c.thread = d.thread
    · have hc : c = d := by cases c; cases d; simp_all
      subst hc
      simp only [if_true]
      rw [Option.map_bind]
      rfl
    · have hc : c ≠ d := fun hc => ht (by rw [hc])
      simp [hc, ht]
  · have hc : c ≠ d := fun hc => h (by rw [hc])
    simp [h, hc]

@[simp] theorem thread?_modifyThread_self (f : Thread → Thread) :
    (w.modifyThread c f).thread? c = (w.thread? c).map f := by
  simp [thread?_modifyThread]

/-- Letting go of a value leaves every thread as it is. -/
theorem thread?_release (v : Value) : (w.release v).thread? c = w.thread? c := by
  cases v with
  | thread h =>
    unfold release releaseAnchor
    dsimp only
    split
    · split
      · rfl
      · split
        · exact thread?_modifyInstance _ _ c _ fun x => by split <;> rfl
        · rfl
    · rfl
  | _ => rfl

theorem thread?_releaseAll (vs : List Value) : (w.releaseAll vs).thread? c = w.thread? c := by
  induction vs generalizing w with
  | nil => rfl
  | cons v vs ih => exact (ih (w.release v)).trans (thread?_release w c v)

/-- A reservation changes its own thread alone. -/
theorem reserve_world (n : Nat) :
    (w.reserve c n).2
      = w.modifyThread c fun th => (th.reserve (w.heap c.vm).starved n).2 := by
  simp only [reserve, onVm_world, modifyThread, Vm.take, Vm.setThread_setThread]
  congr 1
  funext vm
  exact Vm.setThread_thread vm c.thread fun th => (th.reserve (w.heap c.vm).starved n).2

theorem reserve_answer (n : Nat) {x : Instance} (h : w.instances[c.vm]? = some x) :
    (w.reserve c n).1 = ((w.thread c).reserve (w.heap c.vm).starved n).1 := by
  simp only [reserve, Vm.take]
  rw [onVm_answer _ _ _ h]
  simp [thread, vm_eq _ _ h]

end World
end LuaEmbed
