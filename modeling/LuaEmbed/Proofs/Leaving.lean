import LuaEmbed.Proofs.Atomicity

/-!
What an operation on one stack leaves behind: what the stack shows then, and the objects of its
interpreter. Everything else is as it was.
-/
namespace LuaEmbed

open Engine

namespace World

variable {σ μ : Type} {c : Context} {w w' w₁ : World σ μ} {s : Array Val} {h : Heap}

/-- In the second world one stack shows these slots, and its interpreter has these objects. Beyond this
no stack, no object and no state of a thread differs from the first world. -/
structure Leaves (w : World σ μ) (c : Context) (s : Array Val) (h : Heap) (w' : World σ μ) : Prop where
  shown : ∀ d, w'.shown d = if d = c then some s else w.shown d
  heap : ∀ i, w'.heap i = if i = c.vm then h else w.heap i
  status : ∀ d, w'.status? d = w.status? d

theorem Leaves.stack (k : w.Leaves c s h w') : w'.shown c = some s := by
  rw [k.shown, if_pos rfl]

theorem Leaves.objects (k : w.Leaves c s h w') : w'.heap c.vm = h := by
  rw [k.heap, if_pos rfl]

theorem Leaves.alike (k : w.Leaves c s h w₁) (k' : w.Leaves c s h w') : w₁.Alike w' where
  shown d := (k'.shown d).trans (k.shown d).symm
  heap i := (k'.heap i).trans (k.heap i).symm
  status d := (k'.status d).trans (k.status d).symm

theorem Alike.leaves (ha : w.Alike w₁) (hs : w.shown c = some s) : w.Leaves c s (w.heap c.vm) w₁ where
  shown d := by
    rw [ha.shown]
    by_cases hd : d = c
    · rw [if_pos hd, hd, hs]
    · rw [if_neg hd]
  heap i := by
    rw [ha.heap]
    by_cases hi : i = c.vm
    · rw [if_pos hi, hi]
    · rw [if_neg hi]
  status := ha.status

/-- What an operation leaves in a world it also leaves in one that does not differ. -/
theorem Leaves.of_alike (k : w₁.Leaves c s h w') (ha : w.Alike w₁) : w.Leaves c s h w' where
  shown d := by rw [k.shown, ha.shown]
  heap i := by rw [k.heap, ha.heap]
  status d := (k.status d).trans (ha.status d)

theorem Leaves.trans_alike (k : w.Leaves c s h w₁) (ha : w₁.Alike w') : w.Leaves c s h w' where
  shown d := (ha.shown d).trans (k.shown d)
  heap i := (ha.heap i).trans (k.heap i)
  status d := (ha.status d).trans (k.status d)

theorem Leaves.modifySlots (k : w.Leaves c s h w₁) (f : Array Val → Array Val) :
    w.Leaves c (f s) h (w₁.modifySlots c f) where
  shown d := by
    rw [shown_modifySlots, k.shown]
    by_cases hd : d = c
    · rw [if_pos hd.symm, if_pos hd, if_pos hd]
      rfl
    · rw [if_neg (Ne.symm hd), if_neg hd, if_neg hd]
  heap i := (heap_modifySlots w₁ c i f).trans (k.heap i)
  status d := (status?_modifySlots w₁ c d f).trans (k.status d)

theorem Leaves.push (k : w.Leaves c s h w₁) (v : Val) : w.Leaves c (s.push v) h (w₁.push c v) :=
  k.modifySlots (·.push v)

theorem heap_modifyHeap_cases (w : World σ μ) (i j : Nat) (f : Heap → Heap) {x : Instance}
    (hx : w.instances[i]? = some x) :
    (w.modifyHeap i f).heap j = if j = i then f (w.heap i) else w.heap j := by
  unfold modifyHeap modifyVm heap vm
  rw [instances_modifyInstance]
  by_cases hij : i = j
  · subst hij
    rw [if_pos rfl, if_pos rfl, hx]
    rfl
  · rw [if_neg hij, if_neg (Ne.symm hij)]

/-- Work on objects changes them and nothing else. -/
theorem Leaves.modifyHeap (k : w.Leaves c s h w₁) (f : Heap → Heap) :
    w.Leaves c s (f h) (w₁.modifyHeap c.vm f) := by
  obtain ⟨th, ht, -⟩ := Option.bind_eq_some_iff.mp k.stack
  obtain ⟨x, hx, -⟩ := Option.bind_eq_some_iff.mp ht
  refine ⟨fun d => ?_, fun i => ?_, fun d => ?_⟩
  · rw [show (w₁.modifyHeap c.vm f).shown d = w₁.shown d from shown_modifyVm w₁ d c.vm _ fun _ => rfl]
    exact k.shown d
  · rw [heap_modifyHeap_cases w₁ c.vm i f hx, k.objects, k.heap]
    by_cases hi : i = c.vm
    · rw [if_pos hi, if_pos hi]
    · rw [if_neg hi, if_neg hi, if_neg hi]
  · refine Eq.trans ?_ (k.status d)
    unfold status?
    rw [show (w₁.modifyHeap c.vm f).thread? d = w₁.thread? d from thread?_objects w₁ c.vm d _ fun _ => rfl]

theorem at_shown {v : Val} (hs : w.shown c = some (s.push v)) : w.at_ c (s.size + 1) = v := by
  unfold at_
  rw [slots_of_shown hs, show ((s.size : Int) + 1 - 1).toNat = s.size by omega]
  simp

end World

/-- The topmost slot, as the index that counts from the top names it. -/
theorem Context.resolve_shown {σ μ : Type} {c : Context} {w : World σ μ} {s : Array Val} {v : Val}
    (hs : w.shown c = some (s.push v)) (hd : (s.size : Int) < Word32.greatest) :
    c.resolve (-1) w = (.ok (s.size + 1), w) := by
  have hdepth : (w.depth c : Int) = s.size + 1 := by
    rw [World.depth_of_shown hs, Array.size_push]
    rfl
  unfold resolve
  rw [Api.bind_ok (show c.top w = (.ok (w.depth c : Int), w) from rfl), hdepth,
    Index.resolve_last (by omega) (by omega)]
  rfl

end LuaEmbed
