import LuaEmbed.Host.Program
import LuaEmbed.Proofs.Growth
import Mathlib.Logic.Relation

/-!
What an operation during which no code runs can do to the world: it works on the topmost frame of a
thread, on the objects of an interpreter, makes a new thread, or changes what the host counts.
-/
namespace LuaEmbed

open Engine

/-- A frame after a change of its slots, if it shows any. -/
def Engine.Frame.mapSlots (f : Array Val → Array Val) (fr : Frame) : Frame :=
  match fr.level with
  | .native s => { fr with level := .native (f s) }
  | .script _ => fr

namespace Engine.Frame

variable (f : Array Val → Array Val) (fr : Frame)

@[simp] theorem canYield_mapSlots : (fr.mapSlots f).canYield = fr.canYield := by
  unfold mapSlots
  split <;> rfl

@[simp] theorem isScript_mapSlots : (fr.mapSlots f).isScript = fr.isScript := by
  unfold mapSlots
  split
  next h => simp only [isScript, h]
  · rfl

@[simp] theorem base_mapSlots : (fr.mapSlots f).base = fr.base := by
  unfold mapSlots
  split <;> rfl

@[simp] theorem depth_mapSlots : (fr.mapSlots f).depth = fr.depth := by
  unfold mapSlots
  split <;> rfl

@[simp] theorem await_mapSlots : (fr.mapSlots f).await = fr.await := by
  unfold mapSlots
  split <;> rfl

end Engine.Frame

/-- The second thread differs from the first in its size and in the topmost frame at most. That frame
is of the same kind, begins where it began, is nested as deeply and waits for what it waited for or for
nothing, and what the others have reserved is still there. -/
structure Engine.Thread.SameBelow (s t : Thread) : Prop where
  status : t.status = s.status
  below : t.frames.tail = s.frames.tail
  script : t.top.isScript = s.top.isScript
  base : t.top.base = s.top.base
  depth : t.top.depth = s.top.depth
  canYield : t.top.canYield = s.top.canYield
  await : t.top.await = s.top.await ∨ t.top.await = .idle
  room : Thread.RoomFor s.frames.tail s t

/-- The second thread is also what the first was at its top: the frame there waits for the same and,
unless its stack may be worked on, has the same slots. -/
structure Engine.Thread.Rested (worked : Prop) (s t : Thread) : Prop extends SameBelow s t where
  waits : t.top.await = s.top.await
  slots : worked ∨ t.top.slots = s.top.slots

namespace Engine.Thread

variable {s t u : Thread}

theorem SameBelow.refl (t : Thread) : t.SameBelow t :=
  ⟨rfl, rfl, rfl, rfl, rfl, rfl, .inl rfl, .refl⟩

theorem SameBelow.trans (h : s.SameBelow t) (k : t.SameBelow u) : s.SameBelow u := by
  refine ⟨k.status.trans h.status, k.below.trans h.below, k.script.trans h.script,
    k.base.trans h.base, k.depth.trans h.depth, k.canYield.trans h.canYield, ?_, h.room.trans (h.below ▸ k.room)⟩
  rcases k.await with hk | hk
  · rw [hk]
    exact h.await
  · exact .inr hk

theorem sameBelow_modifyTop (t : Thread) {g : Frame → Frame}
    (hs : (g t.top).isScript = t.top.isScript) (hb : (g t.top).base = t.top.base)
    (hd : (g t.top).depth = t.top.depth) (hc : (g t.top).canYield = t.top.canYield)
    (ha : (g t.top).await = t.top.await ∨ (g t.top).await = .idle) :
    t.SameBelow (t.modifyTop g) := by
  refine ⟨by simp, ?_, by simpa using hs, by simpa using hb, by simpa using hd, by simpa using hc, by simpa using ha,
    (Grown.of_size (by simp)).roomFor⟩
  rw [frames_modifyTop, List.tail_cons]

theorem isRunning_iff : t.isRunning ↔ t.status = .ready ∧ t.frames.tail ≠ [] := by
  obtain ⟨above, ground, status, size⟩ := t
  cases above <;> simp [isRunning, frames]

theorem SameBelow.isRunning (h : s.SameBelow t) (hs : s.isRunning) : t.isRunning := by
  rw [isRunning_iff] at hs ⊢
  rw [h.status, h.below]
  exact hs

/-- A thread in such a state, which nobody can resume unless it has yielded: if it is ready, it is in
the middle of a run. -/
structure Busy (st : ThreadStatus) (t : Thread) : Prop where
  status : t.status = st
  inside : st = .ready → t.frames.tail ≠ []

theorem busy_ready : t.Busy .ready ↔ t.isRunning := by
  rw [isRunning_iff]
  exact ⟨fun h => ⟨h.status, h.inside rfl⟩, fun h => ⟨h.1, fun _ => h.2⟩⟩

theorem SameBelow.busy {st : ThreadStatus} (h : s.SameBelow t) (hs : s.Busy st) : t.Busy st := by
  refine ⟨h.status.trans hs.status, ?_⟩
  rw [h.below]
  exact hs.inside

theorem Rested.refl (worked : Prop) (t : Thread) : t.Rested worked t := ⟨.refl t, rfl, .inr rfl⟩

theorem Rested.trans {worked : Prop} (h : s.Rested worked t) (k : t.Rested worked u) :
    s.Rested worked u := by
  refine ⟨h.toSameBelow.trans k.toSameBelow, k.waits.trans h.waits, ?_⟩
  rcases h.slots with hw | hs
  · exact .inl hw
  · exact k.slots.imp_right fun hk => hk.trans hs

theorem rested_size (t : Thread) {n : Nat} (h : Grown t { t with size := n }) (worked : Prop) :
    t.Rested worked { t with size := n } :=
  ⟨⟨rfl, rfl, rfl, rfl, rfl, rfl, .inl rfl, h.roomFor⟩, rfl, .inr rfl⟩

theorem rested_reserve (t : Thread) (starved : Bool) (n : Nat) (worked : Prop) :
    t.Rested worked (t.reserve starved n).2 := by
  have hsize : ∀ size, grownSize t.size t.used n = .ok size ∨ grownSize t.size t.used n = .error size →
      t.Rested worked { t with size } := fun size h => t.rested_size (grownSize_grown h) worked
  unfold reserve
  split
  next size hg =>
    split
    · exact .refl _ t
    · refine (hsize size (.inl hg)).trans ⟨sameBelow_modifyTop _ rfl rfl rfl rfl (.inl rfl), ?_, .inr ?_⟩
      · rw [top_modifyTop]
      · rw [top_modifyTop]
        rfl
  next size hg =>
    split
    · exact .refl _ t
    · exact hsize size (.inr hg)

theorem rested_shrink (t : Thread) (worked : Prop) : t.Rested worked t.shrink := by
  have hroom : RoomFor t.frames.tail t t.shrink := fun n ⟨f, hf, hn⟩ =>
    t.roomFor_shrink n ⟨f, List.mem_of_mem_tail hf, hn⟩
  obtain ⟨n, hn⟩ := t.shrink_eq
  rw [hn] at hroom ⊢
  exact ⟨⟨rfl, rfl, rfl, rfl, rfl, rfl, .inl rfl, hroom⟩, rfl, .inr rfl⟩

end Engine.Thread

namespace World

variable {σ μ α β : Type} {w w' : World σ μ}

/-- A handle to a thread is made, copied or dropped. -/
inductive HandleTouch : World σ μ → World σ μ → Prop where
  | made (w : World σ μ) (t : StackId) : HandleTouch w (w.anchor t).2
  | copied (w : World σ μ) (h : ThreadHandle) : HandleTouch w (w.retain (.thread h))
  | dropped (w : World σ μ) (id : Nat) : HandleTouch w (w.releaseAnchor id)

/-- Of the interpreters, handles change nothing but the references of one. -/
theorem HandleTouch.records (h : HandleTouch w w') :
    (∃ (i : Nat) (f : Instance → Pool Nat),
      w'.instances = (w.modifyInstance i fun x => { x with references := f x }).instances) ∧
      w'.views = w.views ∧ w'.history = w.history := by
  have hsame : w.instances =
      (w.modifyInstance 0 fun x => { x with references := x.references }).instances :=
    Array.ext_getElem? fun i => by
      rw [instances_modifyInstance]
      split <;> simp
  cases h with
  | made t =>
    unfold anchor
    split
    · exact ⟨⟨t.vm, fun x => x.references.push t.thread, rfl⟩, rfl, rfl⟩
    · exact ⟨⟨0, _, hsame⟩, rfl, rfl⟩
  | copied h => exact ⟨⟨0, _, hsame⟩, rfl, rfl⟩
  | dropped id =>
    unfold releaseAnchor
    split
    · exact ⟨⟨0, _, hsame⟩, rfl, rfl⟩
    next a _ =>
    split
    · refine ⟨⟨a.thread.vm, fun x => if x.closed then x.references else x.references.erase a.reference, ?_⟩,
        rfl, rfl⟩
      have hr : ∀ x : Instance,
          (if x.closed then x else { x with references := x.references.erase a.reference })
            = { x with references :=
                if x.closed then x.references else x.references.erase a.reference } := by
        intro x
        split <;> rfl
      simp only [hr]
      rfl
    · exact ⟨⟨0, _, hsame⟩, rfl, rfl⟩

theorem thread?_anchor (w : World σ μ) (c : Context) (t : StackId) :
    (w.anchor t).2.thread? c = w.thread? c := by
  obtain ⟨⟨i, f, hi⟩, -⟩ := (HandleTouch.made w t).records
  rw [← thread?_modifyInstance w i c (fun x => { x with references := f x }) fun _ => rfl]
  unfold thread?
  rw [hi]

/-- One change of the kinds that need no run. What a stack shows changes only where it may be worked
on. -/
inductive TouchIn (A : Context → Prop) : World σ μ → World σ μ → Prop where
  | objects (w : World σ μ) (i : Nat) (f : Vm → Vm) (hf : ∀ vm, (f vm).threads = vm.threads) :
    TouchIn A w (w.modifyVm i f)
  | top (w : World σ μ) (c : Context) (f : Thread → Thread) (hf : ∀ t : Thread, t.Rested (A c) (f t)) :
    TouchIn A w (w.modifyThread c f)
  | spawn (w : World σ μ) (i : Nat) (t : Thread) :
    TouchIn A w (w.modifyVm i fun vm => { vm with threads := vm.threads.push t })
  | handle {w w' : World σ μ} (h : HandleTouch w w') : TouchIn A w w'
  | host (w w' : World σ μ) (hi : w'.instances = w.instances) (hv : w'.views = w.views)
    (hh : w'.history = w.history) (ha : w'.anchors = w.anchors) : TouchIn A w w'

/-- Any number of such changes. -/
abbrev TouchesIn (A : Context → Prop) : World σ μ → World σ μ → Prop :=
  Relation.ReflTransGen (TouchIn A)

/-- Such a change, wherever it is. -/
abbrev Touch : World σ μ → World σ μ → Prop := TouchIn fun _ => True

/-- Any number of changes, wherever they are. -/
abbrev Touches : World σ μ → World σ μ → Prop := TouchesIn fun _ => True

variable {A : Context → Prop}

theorem TouchIn.touch (h : TouchIn A w w') : Touch w w' := by
  cases h with
  | objects i f hf => exact .objects w i f hf
  | top c f hf => exact .top w c f fun t => ⟨(hf t).toSameBelow, (hf t).waits, .inl trivial⟩
  | spawn i t => exact .spawn w i t
  | handle h => exact .handle h
  | host _ hi hv hh ha => exact .host w w' hi hv hh ha

theorem TouchesIn.touches (h : TouchesIn A w w') : Touches w w' :=
  Relation.ReflTransGen.mono (fun _ _ (h : TouchIn A _ _) => h.touch) _ _ h

theorem TouchesIn.instances_none (h : Touches w w') {i : Nat} (hn : w.instances[i]? = none) :
    w'.instances[i]? = none := by
  induction h with
  | refl => exact hn
  | tail _ h ih =>
    cases h with
    | host _ hi => rwa [hi]
    | handle h =>
      obtain ⟨⟨j, f, hi⟩, -⟩ := h.records
      rw [hi, instances_modifyInstance, ih]
      simp
    | _ => simp [modifyThread, modifyVm, instances_modifyInstance, ih]

theorem TouchesIn.history (h : Touches w w') : w'.history = w.history := by
  induction h with
  | refl => rfl
  | tail _ h ih =>
    rw [← ih]
    cases h with
    | host _ hi hv hh => exact hh
    | handle h => exact h.records.2.2
    | _ => rfl

/-- Every thread is still there, with the frames below the topmost as they were; and the topmost has
the same slots, unless its stack may be worked on. -/
theorem TouchIn.rested (h : TouchIn A w w') {c : Context} {t : Thread} (ht : w.thread? c = some t) :
    ∃ t', w'.thread? c = some t' ∧ t.Rested (A c) t' := by
  cases h with
  | objects i f hf => exact ⟨t, (thread?_objects w i c f hf).trans ht, .refl _ t⟩
  | top d f hf =>
    rw [thread?_modifyThread]
    split
    next he => exact ⟨f t, by rw [ht]; rfl, he ▸ hf t⟩
    next => exact ⟨t, ht, .refl _ t⟩
  | spawn i new =>
    refine ⟨t, ?_, .refl _ t⟩
    rw [thread?_modifyVm]
    split
    next hi =>
      subst hi
      obtain ⟨x, hx, hth⟩ := Option.bind_eq_some_iff.mp ht
      rw [hx]
      exact Vm.thread?_spawn hth new
    next => exact ht
  | handle h =>
    obtain ⟨⟨i, f, hi⟩, -⟩ := h.records
    refine ⟨t, ?_, .refl _ t⟩
    rw [← ht, ← thread?_modifyInstance w i c (fun x => { x with references := f x }) fun _ => rfl]
    unfold thread?
    rw [hi]
  | host _ hi =>
    refine ⟨t, ?_, .refl _ t⟩
    unfold thread? at ht ⊢
    rwa [hi]

theorem TouchesIn.rested (h : TouchesIn A w w') {c : Context} {t : Thread}
    (ht : w.thread? c = some t) : ∃ t', w'.thread? c = some t' ∧ t.Rested (A c) t' := by
  induction h with
  | refl => exact ⟨t, ht, .refl _ t⟩
  | tail _ h ih =>
    obtain ⟨t₁, ht₁, hs₁⟩ := ih
    obtain ⟨t', ht', hs'⟩ := h.rested ht₁
    exact ⟨t', ht', hs₁.trans hs'⟩

theorem TouchIn.sameBelow (h : Touch w w') {c : Context} {t : Thread}
    (ht : w.thread? c = some t) : ∃ t', w'.thread? c = some t' ∧ t.SameBelow t' := by
  obtain ⟨t', ht', hs⟩ := h.rested ht
  exact ⟨t', ht', hs.toSameBelow⟩

theorem TouchesIn.sameBelow (h : Touches w w') {c : Context} {t : Thread}
    (ht : w.thread? c = some t) : ∃ t', w'.thread? c = some t' ∧ t.SameBelow t' := by
  obtain ⟨t', ht', hs⟩ := h.rested ht
  exact ⟨t', ht', hs.toSameBelow⟩

/-- No interpreter gains or loses its owner. -/
theorem TouchesIn.closed (h : Touches w w') (i : Nat) :
    (w'.instances[i]?).map (·.closed) = (w.instances[i]?).map (·.closed) := by
  have hmodify : ∀ (w : World σ μ) (j : Nat) {f : Instance → Instance},
      (∀ x, (f x).closed = x.closed) →
      ((w.modifyInstance j f).instances[i]?).map (·.closed)
        = (w.instances[i]?).map (·.closed) := by
    intro w j f hf
    rw [instances_modifyInstance]
    split
    · simp [Option.map_map, Function.comp_def, hf]
    · rfl
  induction h with
  | refl => rfl
  | tail _ h ih =>
    rw [← ih]
    cases h with
    | host _ hi hv hh => rw [hi]
    | handle h =>
      obtain ⟨⟨j, f, hi⟩, -⟩ := h.records
      rw [hi]
      exact hmodify _ j fun _ => rfl
    | _ => exact hmodify _ _ fun _ => rfl

theorem modifySlots_eq (w : World σ μ) (c : Context) (f : Array Val → Array Val) :
    w.modifySlots c f = w.modifyThread c fun th => th.modifyTop (·.mapSlots f) := by
  unfold modifySlots
  congr 1
  funext th
  congr 1
  funext fr
  obtain ⟨level, aw, fn, nm, b, l, d, cy⟩ := fr
  cases level <;> rfl

theorem touches_modifySlots (w : World σ μ) (c : Context) (f : Array Val → Array Val)
    (hc : A c) : TouchesIn A w (w.modifySlots c f) := by
  rw [modifySlots_eq]
  refine .single (.top w c _ fun t =>
    ⟨Thread.sameBelow_modifyTop t (by simp) (by simp) (by simp) (by simp) (by simp), ?_, .inl hc⟩)
  rw [Thread.top_modifyTop, Frame.await_mapSlots]

theorem touches_push (w : World σ μ) (c : Context) (v : Val) (hc : A c) :
    TouchesIn A w (w.push c v) :=
  touches_modifySlots w c _ hc

theorem touches_reserve (w : World σ μ) (c : Context) (n : Nat) :
    TouchesIn A w (w.reserve c n).2 := by
  rw [reserve_world]
  exact .single (.top w c _ fun t => Thread.rested_reserve t _ n _)

theorem touches_host (hi : w'.instances = w.instances) (hv : w'.views = w.views)
    (hh : w'.history = w.history) (ha : w'.anchors = w.anchors) : TouchesIn A w w' :=
  .single (.host w w' hi hv hh ha)

theorem touches_onVm [Inhabited α] (w : World σ μ) (i : Nat) (f : Vm → Vm × α)
    (hf : ∀ vm, (f vm).1.threads = vm.threads) : TouchesIn A w (w.onVm i f).2 := by
  rw [onVm_world]
  exact .single (.objects w i _ hf)

theorem touches_modifyHeap (w : World σ μ) (i : Nat) (f : Heap → Heap) :
    TouchesIn A w (w.modifyHeap i f) := .single (.objects w i _ fun _ => rfl)

theorem touches_notify (w : World σ μ) (n : Notice) : TouchesIn A w (w.notify n) :=
  touches_host rfl rfl rfl rfl

theorem touches_retain (w : World σ μ) (v : Value) : TouchesIn A w (w.retain v) := by
  cases v with
  | thread h => exact .single (.handle (.copied w h))
  | _ => exact touches_host rfl rfl rfl rfl

theorem touches_release (w : World σ μ) (v : Value) : TouchesIn A w (w.release v) := by
  cases v with
  | thread h =>
    unfold release
    dsimp only
    split
    · exact .single (.handle (.dropped w h.anchor))
    · exact .refl
  | _ => exact touches_host rfl rfl rfl rfl

theorem touches_releaseAll (w : World σ μ) (vs : List Value) : TouchesIn A w (w.releaseAll vs) := by
  induction vs generalizing w with
  | nil => exact .refl
  | cons v vs ih => exact (touches_release w v).trans (ih _)

theorem touches_releasePayload (w : World σ μ) (p : Payload) :
    TouchesIn A w (w.releasePayload p) := by
  unfold releasePayload
  split <;> exact touches_host rfl rfl rfl rfl

theorem touches_pushUserdata (w : World σ μ) (c : Context) (p : Payload) (m : String)
    (b : Builtin) : TouchesIn A w (w.pushUserdata c p m b).2 :=
  touches_onVm w _ _ fun _ => rfl

theorem touches_closureOf (w : World σ μ) (c : Context) (shape : FunctionShape) (id : Nat) :
    TouchesIn A w (w.closureOf c shape id).2 := by
  unfold closureOf
  cases shape <;>
    exact ((touches_retain w _).trans (touches_pushUserdata _ c _ _ _)).trans
      (touches_onVm _ _ _ fun _ => rfl)

theorem touches_pushFunction (w : World σ μ) (c : Context) (shape : FunctionShape) (id : Nat)
    (hc : A c) : TouchesIn A w (w.pushFunction c shape id) :=
  (touches_closureOf w c shape id).trans (touches_push _ c _ hc)

theorem touches_popErrorText (w : World σ μ) (c : Context) (hc : A c) :
    TouchesIn A w (w.popErrorText c).2 := by
  unfold popErrorText
  split
  · exact .refl
  next v _ =>
    cases v with
    | nil | bool _ | int _ | float _ | str _ => exact touches_modifySlots w c _ hc
    | _ => exact (touches_reserve w c 2).trans (touches_modifySlots _ c _ hc)

end World
end LuaEmbed
