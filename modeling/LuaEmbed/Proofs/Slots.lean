import LuaEmbed.Proofs.Footprint

/-!
What the stacks show: the slots of the native frame on top of a thread. Reserving, describing and
bookkeeping leave every stack as it is, and an operation on one stack leaves the others as they are.
-/
namespace LuaEmbed

open Engine

/-- The slots that a frame shows; a script's are not shown. -/
def Engine.Frame.shown (f : Frame) : Option (Array Val) :=
  match f.level with
  | .native s => some s
  | .script _ => none

namespace Engine.Frame

variable {f : Frame}

theorem slots_eq_shown (f : Frame) : f.slots = f.shown.getD #[] := by
  unfold slots shown
  cases f.level <;> rfl

theorem count_of_shown {s : Array Val} (h : f.shown = some s) : f.count = s.size := by
  unfold shown at h
  unfold count
  cases hl : f.level with
  | native t =>
    rw [hl] at h
    obtain rfl := Option.some.inj h
    rfl
  | script a => simp [hl] at h

@[simp] theorem shown_mapSlots (g : Array Val → Array Val) (f : Frame) :
    (f.mapSlots g).shown = f.shown.map g := by
  obtain ⟨level, aw, fn, nm, b, l, d, cy⟩ := f
  cases level <;> rfl

end Engine.Frame

namespace Engine.Thread

theorem used_modifyTop (t : Thread) {g : Frame → Frame} (h : (g t.top).used = t.top.used) :
    (t.modifyTop g).used = t.used := by
  unfold used
  rw [top_modifyTop, h]

/-- Who was granted some slots is granted fewer of them again. -/
theorem reserve_again {t : Thread} {starved : Bool} {m n : Nat} (hmn : m < n)
    (h : (t.reserve starved n).1 = true) :
    ((t.reserve starved n).2.reserve starved m).1 = true := by
  have hfits : ∀ u : Thread, m < u.size - u.used → (u.reserve starved m).1 = true := by
    intro u hu
    simp [reserve, grownSize, hu]
  apply hfits
  unfold reserve at h ⊢
  cases hg : grownSize t.size t.used n with
  | error size =>
    simp only [hg] at h
    split at h <;> cases h
  | ok size =>
    simp only [hg] at h ⊢
    split at h
    · cases h
    next hs =>
    rw [if_neg hs]
    have hsize : n ≤ size - t.used := by
      unfold grownSize at hg
      split at hg
      next hn =>
        obtain rfl := Except.ok.inj hg
        omega
      next =>
        split at hg
        · cases hg
        next =>
          dsimp only at hg
          split at hg
          · obtain rfl := Except.ok.inj hg
            omega
          · cases hg
    have hu : ∀ g : Frame → Frame, (∀ f : Frame, (g f).used = f.used) →
        ({ t with size }.modifyTop g).used = t.used := fun g hg =>
      used_modifyTop { t with size } (hg _)
    have hz : ∀ g : Frame → Frame, ({ t with size }.modifyTop g).size = size := by
      intro g
      obtain ⟨above, ground, status, size'⟩ := t
      cases above <;> rfl
    dsimp only
    rw [hz, hu]
    · omega
    · exact fun _ => rfl

theorem grownSize_less {size used m n s : Nat} (hmn : m < n) (h : grownSize size used n = .ok s) :
    ∃ s', grownSize size used m = .ok s' ∧ (s = size → s' = size) := by
  unfold grownSize at h ⊢
  by_cases hm : m < size - used
  · rw [if_pos hm]
    exact ⟨size, rfl, fun _ => rfl⟩
  · rw [if_neg hm]
    rw [if_neg (by omega)] at h
    split at h
    · cases h
    next hs =>
    rw [if_neg hs]
    dsimp only at h ⊢
    split at h
    next hn =>
      obtain rfl := Except.ok.inj h
      rw [if_pos (by omega)]
      exact ⟨_, rfl, by omega⟩
    next => cases h

theorem reserve_less {t : Thread} {starved : Bool} {m n : Nat} (hmn : m < n)
    (h : (t.reserve starved n).1 = true) : (t.reserve starved m).1 = true := by
  unfold reserve at h ⊢
  cases hg : grownSize t.size t.used n with
  | error size =>
    simp only [hg] at h
    split at h <;> cases h
  | ok size =>
    obtain ⟨size', hg', hsize⟩ := grownSize_less hmn hg
    simp only [hg, hg'] at h ⊢
    split at h
    · cases h
    next hs =>
      rw [if_neg]
      simp only [Bool.and_eq_true, decide_eq_true_eq, not_and, ne_eq, Decidable.not_not] at hs ⊢
      exact fun hst => hsize (hs hst)

end Engine.Thread

namespace World

variable {σ μ α : Type} (w : World σ μ) (c d : Context) (i : Nat)

/-- What a stack shows, if there is such a thread and a native function is on top of it. -/
def shown : Option (Array Val) := (w.thread? c).bind (·.top.shown)

theorem slots_eq_shown : w.slots c = (w.shown c).getD #[] := by
  unfold slots shown Thread.slots
  rw [thread_eq, Frame.slots_eq_shown]
  cases w.thread? c <;> rfl

variable {w c} in
theorem depth_of_shown {s : Array Val} (h : w.shown c = some s) : w.depth c = s.size := by
  obtain ⟨th, ht, hs⟩ := Option.bind_eq_some_iff.mp h
  unfold depth Thread.depth
  rw [thread_eq, ht]
  exact Frame.count_of_shown hs

variable {w c} in
theorem slots_of_shown {s : Array Val} (h : w.shown c = some s) : w.slots c = s := by
  rw [slots_eq_shown, h]
  rfl

/-- A stack that has a slot shows its slots. -/
theorem shown_of_slots {c : Context} {s : Array Val} {v : Val} (h : w.slots c = s.push v) :
    w.shown c = some (s.push v) := by
  rw [slots_eq_shown] at h
  cases hs : w.shown c with
  | some t =>
    rw [hs] at h
    rw [show t = _ from h]
  | none =>
    rw [hs] at h
    exact absurd (congrArg Array.size h) (by simp)

theorem shown_of_slot {c : Context} {k : Nat} {v : Val} (h : (w.slots c)[k]? = some v) :
    w.shown c = some (w.slots c) := by
  rw [slots_eq_shown] at h ⊢
  cases hs : w.shown c with
  | some s => rfl
  | none => simp [hs] at h

/-! ### Changes of one thread -/

theorem shown_modifyThread {f : Thread → Thread} {g : Array Val → Array Val}
    (hf : ∀ t : Thread, (f t).top.shown = t.top.shown.map g) :
    (w.modifyThread c f).shown d = if c = d then (w.shown d).map g else w.shown d := by
  unfold shown
  rw [thread?_modifyThread]
  split
  · cases w.thread? d with
    | none => rfl
    | some t => exact hf t
  · rfl

theorem shown_modifySlots (f : Array Val → Array Val) :
    (w.modifySlots c f).shown d = if c = d then (w.shown d).map f else w.shown d := by
  rw [modifySlots_eq]
  exact shown_modifyThread w c d fun t => by simp

@[simp] theorem shown_modifySlots_self (f : Array Val → Array Val) :
    (w.modifySlots c f).shown c = (w.shown c).map f := by
  rw [shown_modifySlots, if_pos rfl]

theorem shown_reserve_top (t : Thread) (starved : Bool) (n : Nat) :
    (t.reserve starved n).2.top.shown = t.top.shown := by
  unfold Thread.reserve
  split
  · split
    · rfl
    next size _ _ =>
      rw [Thread.top_modifyTop]
      rfl
  · split <;> rfl

@[simp] theorem shown_reserve (n : Nat) : (w.reserve c n).2.shown d = w.shown d := by
  rw [reserve_world, shown_modifyThread w c d fun t => by
    rw [shown_reserve_top, Option.map_id']]
  split <;> simp

theorem slots_congr {w w' : World σ μ} {c : Context} (h : w'.shown c = w.shown c) :
    w'.slots c = w.slots c := by
  rw [slots_eq_shown, h, slots_eq_shown]

@[simp] theorem slots_reserve (n : Nat) : (w.reserve c n).2.slots d = w.slots d :=
  slots_congr (shown_reserve w c d n)

@[simp] theorem at_reserve (n : Nat) (pos : Int) : (w.reserve c n).2.at_ d pos = w.at_ d pos := by
  simp only [at_, slots_reserve]

theorem shown_push (v : Val) :
    (w.push c v).shown d = if c = d then (w.shown d).map (·.push v) else w.shown d :=
  shown_modifySlots w c d _

theorem count_reserve_top (t : Thread) (starved : Bool) (n : Nat) :
    (t.reserve starved n).2.top.count = t.top.count := by
  unfold Thread.reserve
  split
  · split
    · rfl
    next size _ _ =>
      rw [Thread.top_modifyTop]
      rfl
  · split <;> rfl

@[simp] theorem depth_reserve (n : Nat) : (w.reserve c n).2.depth d = w.depth d := by
  unfold depth Thread.depth
  rw [thread_eq, thread_eq, reserve_world, thread?_modifyThread]
  split
  · cases w.thread? d with
    | none => rfl
    | some t => exact count_reserve_top t _ n
  · rfl

/-! ### Changes that no stack shows -/

theorem shown_of_thread? {w w' : World σ μ} (h : ∀ c, w'.thread? c = w.thread? c) (c : Context) :
    w'.shown c = w.shown c := by
  unfold shown
  rw [h]

theorem shown_of_instances {w w' : World σ μ} (h : w'.instances = w.instances) (c : Context) :
    w'.shown c = w.shown c := shown_of_thread? (fun d => by unfold thread?; rw [h]) c

theorem shown_modifyVm (f : Vm → Vm) (hf : ∀ vm, (f vm).threads = vm.threads) :
    (w.modifyVm i f).shown c = w.shown c := shown_of_thread? (fun d => thread?_objects w i d f hf) c

theorem shown_onVm [Inhabited α] (f : Vm → Vm × α) (hf : ∀ vm, (f vm).1.threads = vm.threads) :
    (w.onVm i f).2.shown c = w.shown c := by
  rw [onVm_world]
  exact shown_modifyVm w c i _ hf

theorem shown_modifyInstance (f : Instance → Instance) (hf : ∀ x, (f x).vm = x.vm) :
    (w.modifyInstance i f).shown c = w.shown c :=
  shown_of_thread? (fun d => thread?_modifyInstance w i d f hf) c

/-! ### Objects -/

theorem heap_modifyThread (f : Thread → Thread) : (w.modifyThread c f).heap i = w.heap i := by
  unfold heap vm modifyThread modifyVm
  rw [instances_modifyInstance]
  split
  next h =>
    subst h
    cases w.instances[c.vm]? <;> rfl
  next => rfl

@[simp] theorem heap_modifySlots (f : Array Val → Array Val) :
    (w.modifySlots c f).heap i = w.heap i := heap_modifyThread w c i _

@[simp] theorem heap_push (v : Val) : (w.push c v).heap i = w.heap i := heap_modifySlots w c i _

@[simp] theorem heap_reserve (n : Nat) : (w.reserve c n).2.heap i = w.heap i := by
  rw [reserve_world, heap_modifyThread]

/-! ### Room -/

theorem reserve_less {w : World σ μ} {c : Context} {m n : Nat} (hmn : m < n)
    (h : (w.reserve c n).1 = true) :
    (w.reserve c m).1 = true := by
  cases hx : w.instances[c.vm]? with
  | none =>
    unfold reserve at h
    rw [onVm_eq, hx] at h
    cases h
  | some x =>
    rw [reserve_answer w c _ hx] at h ⊢
    exact Thread.reserve_less hmn h

/-- Whoever may reserve room for a push may then reserve room for a look. -/
theorem reserve_again {w : World σ μ} {c : Context} (h : (w.reserve c 3).1 = true) :
    ((w.reserve c 3).2.reserve c 2).1 = true := by
  cases hx : w.instances[c.vm]? with
  | none =>
    unfold reserve at h
    rw [onVm_eq, hx] at h
    cases h
  | some x =>
    rw [reserve_answer w c 3 hx] at h
    have hy : ∃ y, (w.reserve c 3).2.instances[c.vm]? = some y := by
      rw [reserve_world]
      simp [modifyThread, modifyVm, hx]
    obtain ⟨y, hy⟩ := hy
    rw [reserve_answer _ c 2 hy, heap_reserve, thread_eq, reserve_world, thread?_modifyThread_self]
    rw [thread_eq] at h
    cases ht : w.thread? c with
    | some t =>
      rw [ht] at h
      exact Thread.reserve_again (by decide) h
    | none => cases (w.heap c.vm).starved <;> rfl

end World
end LuaEmbed
