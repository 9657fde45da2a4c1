import LuaEmbed.Proofs.Quiet
import LuaEmbed.Proofs.Slots

/-!
Operations that look at a stack: they may reserve room and count references, but whatever the stacks
show, the objects, and the threads' states stay as they are.
-/
namespace LuaEmbed

open Engine

variable {σ μ α β : Type} {c d : Context} {w w' w₁ : World σ μ}

/-- How a thread stands, if there is one. -/
def World.status? (w : World σ μ) (c : Context) : Option ThreadStatus :=
  (w.thread? c).map (·.status)

/-- Two worlds that whoever looks at their stacks and objects cannot tell apart. -/
structure World.Alike (w w' : World σ μ) : Prop where
  shown : ∀ c, w'.shown c = w.shown c
  heap : ∀ i, w'.heap i = w.heap i
  status : ∀ c, w'.status? c = w.status? c

namespace World

theorem Alike.refl (w : World σ μ) : w.Alike w := ⟨fun _ => rfl, fun _ => rfl, fun _ => rfl⟩

theorem Alike.trans (h : w.Alike w₁) (k : w₁.Alike w') : w.Alike w' :=
  ⟨fun c => (k.shown c).trans (h.shown c), fun i => (k.heap i).trans (h.heap i),
    fun c => (k.status c).trans (h.status c)⟩

instance : IsPreorder (World σ μ) Alike where
  refl := .refl
  trans _ _ _ h k := h.trans k

theorem Alike.slots (h : w.Alike w') (c : Context) : w'.slots c = w.slots c :=
  slots_congr (h.shown c)

theorem Alike.at_ (h : w.Alike w') (c : Context) (pos : Int) : w'.at_ c pos = w.at_ c pos := by
  unfold World.at_
  rw [h.slots c]

theorem status?_modifyThread (w : World σ μ) (c d : Context) {f : Thread → Thread}
    (hf : ∀ t : Thread, (f t).status = t.status) :
    (w.modifyThread c f).status? d = w.status? d := by
  unfold status?
  rw [thread?_modifyThread]
  split
  · cases w.thread? d with
    | none => rfl
    | some t => exact congrArg some (hf t)
  · rfl

theorem status?_modifySlots (w : World σ μ) (c d : Context) (f : Array Val → Array Val) :
    (w.modifySlots c f).status? d = w.status? d := by
  rw [modifySlots_eq]
  exact status?_modifyThread w c d fun t => t.status_modifyTop _

theorem alike_of_instances (h : w'.instances = w.instances) : w.Alike w' := by
  refine ⟨shown_of_instances h, fun i => ?_, fun c => ?_⟩
  · unfold heap vm
    rw [h]
  · unfold status? thread?
    rw [h]

theorem alike_modifyInstance (w : World σ μ) (i : Nat) {f : Instance → Instance}
    (hf : ∀ x, (f x).vm = x.vm) : w.Alike (w.modifyInstance i f) := by
  refine ⟨fun c => shown_modifyInstance w c i f hf, fun j => ?_, fun c => ?_⟩
  · unfold heap vm
    rw [instances_modifyInstance]
    split
    · cases w.instances[j]? with
      | none => rfl
      | some x => exact congrArg Vm.heap (hf x)
    · rfl
  · unfold status?
    rw [thread?_modifyInstance w i c f hf]

theorem alike_reserve (w : World σ μ) (c : Context) (n : Nat) : w.Alike (w.reserve c n).2 := by
  refine ⟨fun d => shown_reserve w c d n, fun i => heap_reserve w c i n, fun d => ?_⟩
  rw [reserve_world]
  exact status?_modifyThread w c d fun t => (t.rested_reserve _ n True).status

theorem alike_notify (w : World σ μ) (n : Notice) : w.Alike (w.notify n) := alike_of_instances rfl

theorem alike_log (w : World σ μ) (level : LogLevel) (text : String)
    (fields : List (String × String)) :
    w.Alike (w.log level text fields) := alike_notify w _

theorem alike_retain (w : World σ μ) (v : Value) : w.Alike (w.retain v) := by
  cases v <;> exact alike_of_instances rfl

theorem alike_releaseAnchor (w : World σ μ) (id : Nat) : w.Alike (w.releaseAnchor id) := by
  unfold releaseAnchor
  split
  · exact .refl w
  next a _ =>
    split
    · have he : w.Alike { w with anchors := w.anchors.erase id } := alike_of_instances rfl
      refine he.trans (alike_modifyInstance _ _ fun x => ?_)
      split <;> rfl
    · exact alike_of_instances rfl

theorem alike_release (w : World σ μ) (v : Value) : w.Alike (w.release v) := by
  cases v with
  | thread h =>
    unfold release
    dsimp only
    split
    · exact alike_releaseAnchor w h.anchor
    · exact .refl w
  | _ => exact alike_of_instances rfl

theorem alike_releaseAll (w : World σ μ) (vs : List Value) : w.Alike (w.releaseAll vs) := by
  induction vs generalizing w with
  | nil => exact .refl w
  | cons v vs ih => exact (alike_release w v).trans (ih _)

end World

theorem World.looks_alike : Looks (Alike (σ := σ) (μ := μ)) where
  refl := .refl
  trans _ _ _ h k := h.trans k
  reserve := alike_reserve
  anchor w t := by
    obtain ⟨⟨i, f, hi⟩, -⟩ := (HandleTouch.made w t).records
    have h := alike_modifyInstance w i (f := fun x => { x with references := f x }) fun _ => rfl
    exact h.trans (alike_of_instances hi)
  releaseAll := alike_releaseAll

/-- An operation that only looks. -/
abbrev Api.Steady (a : Api σ μ α) : Prop := Api.Keeps World.Alike a

open Api

namespace Context

variable (c : Context)

theorem steady_top : Steady (c.top : Api σ μ Int) := World.looks_alike.keeps_top c

theorem steady_resolve (i : Int) : Steady (c.resolve i : Api σ μ Int) := World.looks_alike.keeps_resolve c i

theorem steady_checkStack (n : Int) : Steady (c.checkStack n : Api σ μ Unit) :=
  World.looks_alike.keeps_checkStack c n

theorem steady_checkStackFor (n : Nat) : Steady (c.checkStackFor n : Api σ μ Unit) := by
  unfold checkStackFor
  exact .ite ((Keeps.throw _).bind fun _ => c.steady_checkStack _) (c.steady_checkStack _)

theorem steady_shared : Steady (c.shared : Api σ μ Nat) := World.looks_alike.keeps_shared c

theorem steady_capture (pos : Int) : Steady (c.capture pos : Api σ μ ThreadHandle) :=
  World.looks_alike.keeps_capture c pos

theorem steady_read (i : Int) : Steady (c.read i : Api σ μ Value) := World.looks_alike.keeps_read c i

theorem steady_readBatch (n : Int) (start : Option Int) :
    Steady (c.readBatch n start : Api σ μ (List Value)) := World.looks_alike.keeps_readBatch c n start

theorem steady_validate (h : Handle) : Steady (c.validate h : Api σ μ Unit) := by
  unfold validate
  exact c.steady_top.bind fun _ => .ite ((c.steady_checkStack 2).bind fun _ =>
    Keeps.get.bind fun _ => .check _) (.check _)

theorem steady_owns (h : ThreadHandle) : Steady (c.owns h : Api σ μ Bool) :=
  World.looks_alike.keeps_owns c h

theorem steady_typeOf (i : Int) : Steady (c.typeOf i : Api σ μ TypeTag) :=
  (c.steady_resolve i).bind fun _ => Keeps.get.bind fun _ => .pure _

theorem steady_sameVm (d : Context) : Steady (c.sameVm d : Api σ μ Bool) :=
  World.looks_alike.keeps_sameVm c d

theorem steady_configuredName : Steady (c.configuredName : Api σ μ Bytes) :=
  c.steady_shared.bind fun _ => Keeps.get.bind fun _ => .pure _

end Context
end LuaEmbed
