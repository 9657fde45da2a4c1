import LuaEmbed.Proofs.Closing
import LuaEmbed.Proofs.Locality
import LuaEmbed.Proofs.Marking

/-!
A thread, while others run. Steps of other threads, work on objects and the records do not touch it.
So what is true of the runs of all other threads is true of every call, resume, closing and collection
in which the thread does not run itself.
-/
namespace LuaEmbed

open Engine

variable {σ μ α β : Type} {T c : Context} {w w' w₁ : World σ μ} {d : Drive σ μ} {th : Thread}

namespace World

/-- A thread, if there is one, is as it was. -/
structure Still (T : Context) (w w' : World σ μ) : Prop where
  grows : w.history <:+ w'.history
  same : ∀ th, w.thread? T = some th → w'.thread? T = some th

theorem Still.refl (w : World σ μ) : Still T w w := ⟨List.suffix_refl _, fun _ h => h⟩

theorem Still.trans (h : Still T w w₁) (k : Still T w₁ w') : Still T w w' :=
  ⟨h.grows.trans k.grows, fun th ht => k.same th (h.same th ht)⟩

theorem still_modifyVm (w : World σ μ) (i : Nat) {f : Vm → Vm}
    (hf : i = T.vm → ∀ vm th, vm.thread? T.thread = some th → (f vm).thread? T.thread = some th) :
    Still T w (w.modifyVm i f) := by
  refine ⟨List.suffix_refl _, fun th h => ?_⟩
  rw [thread?_modifyVm]
  split
  next hi =>
    obtain ⟨x, hx, ht⟩ := Option.bind_eq_some_iff.mp h
    rw [hi, hx]
    exact hf hi x.vm th ht
  next => exact h

/-- Work on another thread. -/
theorem still_apart (hne : T ≠ c) (w : World σ μ) {f : Vm → Vm}
    (hf : ∀ vm, Vm.Apart c.thread vm (f vm)) : Still T w (w.modifyVm c.vm f) := by
  refine still_modifyVm w c.vm fun hi vm th ht => hf vm T.thread (fun hu => hne ?_) th ht
  cases T
  cases c
  simp_all

theorem still_onVm [Inhabited α] (hne : T ≠ c) (w : World σ μ) {f : Vm → Vm × α}
    (hf : ∀ vm, Vm.Apart c.thread vm (f vm).1) : Still T w (w.onVm c.vm f).2 := by
  rw [onVm_world]
  exact still_apart hne w hf

theorem still_noted (h : w.Noted w') : Still T w w' :=
  ⟨h.history, fun _ ht => (h.thread? T).trans ht⟩

theorem still_birth (w : World σ μ) (x : Instance) :
    Still T w { w with instances := w.instances.push x } := by
  refine ⟨List.suffix_refl _, fun th h => ?_⟩
  obtain ⟨y, hy, ht⟩ := Option.bind_eq_some_iff.mp h
  have hl : T.vm < w.instances.size := (Array.getElem?_eq_some_iff.mp hy).1
  unfold thread?
  rw [Array.getElem?_push, if_neg (Nat.ne_of_lt hl), hy]
  exact ht

/-- A relation that says something of a thread as long as nobody closes its interpreter, and that the runs
of all other threads keep. -/
structure Elsewhere (T : Context) (R : World σ μ → World σ μ → Prop) (d : Drive σ μ) : Prop where
  trans : ∀ {a b c}, R a b → R b c → R a c
  still : ∀ {w w'}, Still T w w' → R w w'
  ended : ∀ {w w' : World σ μ}, w.history <:+ w'.history → ¬ Unclosed T.vm w w' → R w w'
  path : d.Keeps Path
  others : ∀ {c : Context}, T ≠ c → ∀ next, (Run.drive c next : Run σ μ Exit).Keeps R d

theorem finalize_cases {c : Context} {v : Val} {a : Unit} (h : finalize c v d w = some (a, w')) :
    w' = w ∨ ∃ f, callFinalizer c f v d w = some (a, w') := by
  unfold World.finalize at h
  obtain ⟨_, w₁, h₁, h₂⟩ := Run.bind_some.mp h
  obtain ⟨rfl, rfl⟩ := Prod.mk.inj (Option.some.inj h₁)
  cases hm : (w.heap c.vm).metafield v "__gc" <;> simp only [hm] at h₂
  case nil =>
    obtain ⟨-, rfl⟩ := Prod.mk.inj (Option.some.inj h₂)
    exact .inl rfl
  all_goals exact .inr ⟨_, h₂⟩

/-- When the interpreter refuses, the arguments are taken away again. -/
theorem resumeWith_refused {source co : Context} {n : Nat} {why : Bytes}
    (h : (w.vm co.vm).refusal? co.thread n (w.thread source).top.depth = some why) :
    resumeWith source co n d w =
      some (.failed (.str why), w.modifySlots co fun s => s.shrink (s.size - n)) := by
  unfold World.resumeWith
  refine Run.bind_some.mpr ⟨w, w, rfl, Run.bind_some.mpr ⟨w, w, rfl, ?_⟩⟩
  rw [h]
  rfl

namespace Elsewhere

variable {R : World σ μ → World σ μ → Prop} (E : Elsewhere T R d)

include E

theorem bind {m : Run σ μ α} {k : α → Run σ μ β} (hm : m.Keeps R d) (hk : ∀ a, (k a).Keeps R d) :
    (m >>= k).Keeps R d := by
  intro w b w' h
  obtain ⟨a, w₁, ha, hb⟩ := Run.bind_some.mp h
  exact E.trans (hm _ _ _ ha) (hk _ _ _ _ hb)

theorem onWorld {f : World σ μ → α × World σ μ} (h : ∀ w, Still T w (f w).2) :
    (Run.onWorld f).Keeps R d := Run.keeps_onWorld fun w => E.still (h w)

theorem update {f : World σ μ → World σ μ} (h : ∀ w, Still T w (f w)) : (Run.update f).Keeps R d :=
  Run.keeps_update fun w => E.still (h w)

theorem pure (x : α) : Run.Keeps R d (Pure.pure x : Run σ μ α) :=
  E.onWorld (f := fun w => (x, w)) .refl

theorem get : Run.Keeps R d (MonadState.get : Run σ μ (World σ μ)) :=
  E.onWorld (f := fun w => (w, w)) .refl

theorem onVm [Inhabited α] (hne : T ≠ c) {f : Vm → Vm × α}
    (hf : ∀ vm, Vm.Apart c.thread vm (f vm).1) : (Run.onVm c.vm f).Keeps R d :=
  E.onWorld fun w => still_onVm hne w hf

theorem invoke (hne : T ≠ c) (f : Val) (args : List Val) : (c.invoke f args).Keeps R d :=
  E.bind (E.onVm hne fun vm => (Vm.apart_modifyThread vm _ _).trans (Vm.apart_enter _ _ _ _ _))
    fun next => E.others hne next

theorem finalize (hne : T ≠ c) (v : Val) : (finalize c v).Keeps R d := by
  intro w a w' h
  rcases finalize_cases h with rfl | ⟨f, hf⟩
  · exact E.still (.refl _)
  · refine Run.related hf (E.bind (E.onVm hne fun vm => Vm.apart_modifyThread vm _ _) fun _ =>
      E.bind (E.onVm hne fun vm => Vm.apart_enter vm _ _ _ _) fun next =>
        E.bind (E.bind (E.others hne next) fun _ => E.pure ()) fun _ =>
          E.update fun w => still_apart hne w fun vm => Vm.apart_modifyThread vm _ _)

theorem resumeWith {co : Context} (hne : T ≠ co) (source : Context) (n : Nat) :
    (resumeWith source co n).Keeps R d := by
  unfold World.resumeWith
  refine E.bind E.get fun _ => E.bind E.get fun w => ?_
  split
  · refine E.bind (E.update fun w => ?_) fun _ => E.pure _
    rw [modifySlots_eq]
    exact still_apart hne w fun vm => Vm.apart_modifyThread vm _ _
  · refine E.bind (E.onVm hne fun vm => Vm.apart_beginResume vm _ _ _) fun next =>
      E.bind (E.others hne next) fun e => E.bind
        (E.update fun w => still_apart hne w fun vm => Vm.apart_endResume vm _ e) fun _ => ?_
    cases e with
    | returned vs => exact E.bind E.get fun _ => E.pure _
    | _ => exact E.pure _

theorem closeFor {thread : Nat} (hne : T ≠ ⟨c.vm, thread⟩) (onlyFailed : Bool) :
    (closeFor c thread onlyFailed).Keeps R d := by
  unfold World.closeFor
  refine E.bind E.get fun w => .ite (E.pure _) ?_
  refine E.bind E.get fun _ => E.bind
    (E.onWorld fun w => still_onVm hne w fun vm => Vm.apart_beginClose vm _ _) fun next =>
      E.bind (E.others hne next) fun e => ?_
  cases e <;> exact E.pure _

theorem finalizeAll (hne : T ≠ c) (vs : List Val) : (finalizeAll c vs).Keeps R d := by
  induction vs with
  | nil => exact E.pure ()
  | cons v vs ih => exact E.bind (E.finalize hne v) fun _ => ih

theorem shutDown (i : Nat) : (shutDown i).Keeps R d := by
  intro w a w' h
  have hpath := path_outside.shutDown E.path h
  by_cases hi : i = T.vm
  · subst hi
    exact E.ended ((List.suffix_cons _ _).trans hpath.grows) (not_unclosed hpath.grows)
  · have hother : ∀ (w : World σ μ) (f : Vm → Vm), Still T w (w.modifyVm i f) := fun w f =>
      still_modifyVm w i fun h => absurd h hi
    have hne : T ≠ ⟨i, 0⟩ := fun he => hi (by rw [he])
    refine Run.related h (E.bind (E.update fun w => ⟨List.suffix_cons _ _, fun _ h => h⟩) fun _ =>
      E.bind (E.onWorld fun w => ?_) fun lost => E.bind (E.finalizeAll hne lost) fun _ =>
        E.bind (E.update fun w => hother w fun _ => {}) fun _ =>
          E.update fun w => ⟨List.suffix_refl _, fun _ h => h⟩)
    rw [onVm_world]
    exact hother w _

theorem housekeeping : Housekeeping fun (α : Type) (m : Run σ μ α) => m.Keeps R d where
  bind := E.bind
  noted h := E.onWorld fun w => still_noted (h w)
  shutDown := E.shutDown

end Elsewhere

end World
end LuaEmbed
