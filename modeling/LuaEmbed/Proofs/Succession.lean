import LuaEmbed.Proofs.Atomicity

/-!
Changes of one stack in a row. Two of them are one, a change that leaves the slots as they are is none,
and what a change would make of slots that are not there does not matter.
-/
namespace LuaEmbed

open Engine

section Places

variable {α : Type} {a : Array α} {i : Nat} {f g : α → α}

theorem modify_congr (h : ∀ x, a[i]? = some x → f x = g x) : a.modify i f = a.modify i g := by
  apply Array.ext_getElem?
  intro j
  rw [Array.getElem?_modify, Array.getElem?_modify]
  split
  next hj =>
    subst hj
    cases hx : a[i]? with
    | none => rfl
    | some x => exact congrArg some (h x hx)
  · rfl

theorem modify_modify (a : Array α) (i : Nat) (f g : α → α) :
    (a.modify i f).modify i g = a.modify i fun x => g (f x) := by
  apply Array.ext_getElem?
  intro j
  simp only [Array.getElem?_modify]
  split <;> simp [Option.map_map, Function.comp_def]

theorem modify_id (a : Array α) (i : Nat) : (a.modify i fun x => x) = a := by
  apply Array.ext_getElem?
  intro j
  rw [Array.getElem?_modify]
  split <;> simp

end Places

namespace Engine

/-- Two changes of the frame on top, of its slots alone, are one. -/
theorem Thread.mapSlots_mapSlots (t : Thread) (f g : Array Val → Array Val) :
    (t.modifyTop (·.mapSlots f)).modifyTop (·.mapSlots g) =
      t.modifyTop (·.mapSlots fun s => g (f s)) := by
  unfold modifyTop
  rcases t with ⟨_ | ⟨⟨_ | _, _, _, _, _, _, _, _⟩, _⟩, ⟨_ | _, _, _, _, _, _, _, _⟩, _, _⟩ <;> rfl

theorem Thread.mapSlots_id (t : Thread) : t.modifyTop (·.mapSlots fun s => s) = t := by
  unfold modifyTop Frame.mapSlots
  rcases t with ⟨_ | ⟨⟨_ | _, _, _, _, _, _, _, _⟩, _⟩, ⟨_ | _, _, _, _, _, _, _, _⟩, _, _⟩ <;> rfl

theorem Thread.mapSlots_congr {t : Thread} {f g : Array Val → Array Val}
    (h : ∀ s, t.top.shown = some s → f s = g s) :
    t.modifyTop (·.mapSlots f) = t.modifyTop (·.mapSlots g) := by
  have htop : t.top.mapSlots f = t.top.mapSlots g := by
    unfold Frame.mapSlots
    split
    next s hs => rw [h s (by unfold Frame.shown; rw [hs])]
    · rfl
  rcases t with ⟨_ | ⟨_, rest⟩, ground, status, size⟩
  · exact congrArg (Thread.mk [] · status size) htop
  · exact congrArg (fun fr => Thread.mk (fr :: rest) ground status size) htop

end Engine

namespace World

variable {σ μ : Type} (w : World σ μ) (c : Context)

variable {w c} in
theorem modifyThread_congr {f g : Thread → Thread} (h : ∀ t, w.thread? c = some t → f t = g t) :
    w.modifyThread c f = w.modifyThread c g := by
  unfold modifyThread modifyVm modifyInstance
  rw [modify_congr]
  intro x hx
  unfold Vm.modifyThread
  dsimp only
  rw [modify_congr]
  intro t ht
  refine h t ?_
  unfold thread?
  rw [hx]
  exact ht

theorem modifyThread_modifyThread (f g : Thread → Thread) :
    (w.modifyThread c f).modifyThread c g = w.modifyThread c fun t => g (f t) := by
  unfold modifyThread modifyVm modifyInstance Vm.modifyThread
  dsimp only
  rw [modify_modify]
  simp only [modify_modify]

theorem modifyThread_id : (w.modifyThread c fun t => t) = w := by
  unfold modifyThread Vm.modifyThread
  simp only [modify_id]
  exact modifyVm_id w c.vm

variable {w c} in
theorem modifySlots_congr {f g : Array Val → Array Val} (h : ∀ s, w.shown c = some s → f s = g s) :
    w.modifySlots c f = w.modifySlots c g := by
  rw [modifySlots_eq, modifySlots_eq]
  refine modifyThread_congr fun t ht => Thread.mapSlots_congr fun s hs => h s ?_
  unfold shown
  rw [ht, Option.bind_some, hs]

theorem modifySlots_modifySlots (f g : Array Val → Array Val) :
    (w.modifySlots c f).modifySlots c g = w.modifySlots c fun s => g (f s) := by
  simp only [modifySlots_eq, modifyThread_modifyThread, Thread.mapSlots_mapSlots]

variable {w c} in
theorem modifySlots_of_fixed {f : Array Val → Array Val} (h : ∀ s, w.shown c = some s → f s = s) :
    w.modifySlots c f = w := by
  rw [modifySlots_congr h, modifySlots_eq]
  simp only [Thread.mapSlots_id]
  exact modifyThread_id w c

/-- Objects and slots are changed independently of each other. -/
theorem modifyHeap_modifySlots (f : Heap → Heap) (g : Array Val → Array Val) :
    (w.modifySlots c g).modifyHeap c.vm f = (w.modifyHeap c.vm f).modifySlots c g := by
  unfold modifySlots modifyThread modifyHeap modifyVm modifyInstance
  dsimp only
  rw [modify_modify, modify_modify]
  rfl

end World
end LuaEmbed
