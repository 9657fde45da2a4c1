import LuaEmbed.Proofs.Quiet

/-!
Work on stacks does not touch the register of the fatal hook, and nothing is heard of a fault while it is
done. Meanwhile a thread keeps its place: it begins where it began, at the same depth of native calls,
and has become no smaller.
-/
namespace LuaEmbed

open Engine

/-- What becomes known concerns a fault: a hook hears of it, or the log of faults does. -/
def Notice.ofFault : Notice → Bool
  | .fault _ _ => true
  | .log r => r.target = "selune::fatal"

/-- The frame on top of the second thread begins where that of the first does, at the same depth, and
the thread has no fewer slots. -/
structure Engine.Thread.Sustains (s t : Thread) : Prop where
  base : t.top.base = s.top.base
  depth : t.top.depth = s.top.depth
  size : s.size ≤ t.size

namespace Engine.Thread

variable {s t u : Thread}

theorem Sustains.refl (t : Thread) : t.Sustains t := ⟨rfl, rfl, Nat.le_refl _⟩

theorem Sustains.trans (h : s.Sustains t) (k : t.Sustains u) : s.Sustains u :=
  ⟨k.base.trans h.base, k.depth.trans h.depth, Nat.le_trans h.size k.size⟩

theorem sustains_reserve (t : Thread) (starved : Bool) (n : Nat) :
    t.Sustains (t.reserve starved n).2 := by
  have hrested := t.rested_reserve starved n True
  refine ⟨hrested.base, hrested.depth, ?_⟩
  unfold reserve
  split
  next size hg =>
    split
    · exact Nat.le_refl _
    · rw [size_modifyTop]
      exact (grownSize_grown (.inl hg)).1
  next size hg =>
    split
    · exact Nat.le_refl _
    · exact (grownSize_grown (.inr hg)).1

theorem sustains_mapSlots (t : Thread) (f : Array Val → Array Val) :
    t.Sustains (t.modifyTop (·.mapSlots f)) :=
  ⟨by simp, by simp, by simp⟩

end Engine.Thread

namespace World

variable {σ μ : Type} {c : Context} {w w₁ w' : World σ μ} {ns : List Notice}

/-- These notices, in this order, are all that the memory has taken in. -/
structure Issues (w : World σ μ) (ns : List Notice) (w' : World σ μ) : Prop where
  subscriber : w'.subscriber = w.subscriber
  memory : w'.memory = ns.foldl (fun m n => w.subscriber n m) w.memory

theorem Issues.append {ns' : List Notice} (h : w.Issues ns w₁) (k : w₁.Issues ns' w') :
    w.Issues (ns ++ ns') w' where
  subscriber := k.subscriber.trans h.subscriber
  memory := by rw [k.memory, h.memory, h.subscriber, List.foldl_append]

theorem issues_nil (hs : w'.subscriber = w.subscriber) (hm : w'.memory = w.memory) : w.Issues [] w' :=
  ⟨hs, hm⟩

theorem issues_notices (ns : List Notice) (w : World σ μ) : w.Issues ns (ns.foldl notify w) := by
  induction ns generalizing w with
  | nil => exact issues_nil rfl rfl
  | cons n ns ih => exact (show w.Issues [n] (w.notify n) from ⟨rfl, rfl⟩).append (ih (w.notify n))

/-- The hook in force is the same, nothing has been heard of a fault, nothing has happened to
interpreters and views, and this thread is no worse off. -/
structure Sustains (c : Context) (w w' : World σ μ) : Prop where
  hook : w'.hook = w.hook
  unheard : ∃ ns, w.Issues ns w' ∧ ∀ n ∈ ns, n.ofFault = false
  history : w'.history = w.history
  thread : ∀ th, w.thread? c = some th → ∃ th', w'.thread? c = some th' ∧ th.Sustains th'

theorem Sustains.trans (h : Sustains c w w₁) (k : Sustains c w₁ w') : Sustains c w w' := by
  obtain ⟨ns, hns, hn⟩ := h.unheard
  obtain ⟨ns', hns', hn'⟩ := k.unheard
  refine ⟨k.hook.trans h.hook, ⟨ns ++ ns', hns.append hns', fun n hm => ?_⟩,
    k.history.trans h.history, fun th ht => ?_⟩
  · exact (List.mem_append.mp hm).elim (hn n) (hn' n)
  · obtain ⟨th₁, ht₁, hs₁⟩ := h.thread th ht
    obtain ⟨th', ht', hs'⟩ := k.thread th₁ ht₁
    exact ⟨th', ht', hs₁.trans hs'⟩

/-- A change during which nothing is heard, of this thread at most. -/
theorem sustains_silent (hh : w'.hook = w.hook) (hs : w'.subscriber = w.subscriber)
    (hm : w'.memory = w.memory) (hp : w'.history = w.history)
    (ht : ∀ th, w.thread? c = some th → ∃ th', w'.thread? c = some th' ∧ th.Sustains th') :
    Sustains c w w' :=
  ⟨hh, ⟨[], issues_nil hs hm, nofun⟩, hp, ht⟩

theorem thread_same (h : w'.thread? c = w.thread? c) (th : Thread) (ht : w.thread? c = some th) :
    ∃ th', w'.thread? c = some th' ∧ th.Sustains th' :=
  ⟨th, h.trans ht, .refl th⟩

theorem Sustains.refl (w : World σ μ) : Sustains c w w := sustains_silent rfl rfl rfl rfl (thread_same rfl)

theorem sustains_modifyThread (w : World σ μ) (d : Context) {f : Thread → Thread}
    (hf : ∀ t : Thread, t.Sustains (f t)) : Sustains c w (w.modifyThread d f) := by
  refine sustains_silent rfl rfl rfl rfl fun th ht => ?_
  rw [thread?_modifyThread]
  split
  · exact ⟨f th, by rw [ht]; rfl, hf th⟩
  · exact ⟨th, ht, .refl th⟩

theorem sustains_release (w : World σ μ) (v : Value) : Sustains c w (w.release v) := by
  have ht := thread_same (thread?_release w c v)
  cases v with
  | thread h =>
    refine sustains_silent ?_ ?_ ?_ ?_ ht <;>
    · unfold release releaseAnchor
      dsimp only
      split
      · split
        · rfl
        · split <;> rfl
      · rfl
  | _ => exact sustains_silent rfl rfl rfl rfl ht

theorem sustains_retain (w : World σ μ) (v : Value) : Sustains c w (w.retain v) := by
  cases v <;> exact sustains_silent rfl rfl rfl rfl (thread_same rfl)

theorem sustains_log (w : World σ μ) (level : LogLevel) (text : String)
    (fields : List (String × String)) : Sustains c w (w.log level text fields) := by
  refine ⟨rfl, ⟨[_], ⟨rfl, rfl⟩, fun n hn => ?_⟩, rfl, thread_same rfl⟩
  rw [List.mem_singleton.mp hn]
  exact decide_eq_false (show "selune::bridge" ≠ "selune::fatal" by decide)

theorem works_sustains (A : Context → Prop) (c : Context) :
    Works A (Sustains (σ := σ) (μ := μ) c) where
  refl := .refl
  trans _ _ _ := .trans
  reserve w d n := by
    rw [reserve_world]
    exact sustains_modifyThread w d fun t => t.sustains_reserve _ n
  anchor w t := by
    refine sustains_silent ?_ ?_ ?_ ?_ (thread_same (thread?_anchor w c t)) <;>
    · unfold anchor
      dsimp only
      split <;> rfl
  releaseAll w vs := by
    induction vs generalizing w with
    | nil => exact .refl w
    | cons v vs ih => exact (sustains_release w v).trans (ih _)
  slots w d f _ := by
    rw [modifySlots_eq]
    exact sustains_modifyThread w d fun t => t.sustains_mapSlots f
  objects w i f hf _ := sustains_silent rfl rfl rfl rfl (thread_same (thread?_objects w i c f hf))
  spawn w i slots := by
    refine sustains_silent rfl rfl rfl rfl fun th ht => ⟨th, ?_, .refl th⟩
    rw [thread?_modifyVm]
    split
    next hi =>
      subst hi
      obtain ⟨x, hx, hth⟩ := Option.bind_eq_some_iff.mp ht
      rw [hx]
      exact Vm.thread?_spawn hth (.new slots)
    next => exact ht
  retain := sustains_retain
  carry w d v p m b _ _ _ := by
    refine (sustains_retain w v).trans ?_
    rw [pushUserdata, onVm_world]
    exact sustains_silent rfl rfl rfl rfl
      (thread_same (thread?_objects (w.retain v) d.vm c _ fun _ => rfl))
  log := sustains_log

end World
end LuaEmbed
