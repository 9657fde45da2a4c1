import LuaEmbed.Proofs.Marking
import LuaEmbed.Proofs.TameMachine

/-!
What a collection does to userdata. It frees some that were not to be finalized, and hands out some that
were; what is still there carries what it did.
-/
namespace LuaEmbed.Engine

theorem Pool.get?_sweep {α : Type} (p : Pool α) (keep : Nat → Bool) (n : Nat) :
    (p.sweep keep).get? n = if keep n then p.get? n else none := by
  unfold get? sweep
  dsimp only
  rw [Array.getElem?_mapIdx]
  cases p.items[n]? with
  | none => simp
  | some x => by_cases h : keep n <;> simp [h]

namespace Heap

/-- The second heap is the first after a collection that has handed these values out. -/
structure Sweeps (lost : List Val) (h h' : Heap) : Prop where
  carried : ∀ n, h'.carried? n = h.carried? n ∨ h'.carried? n = none
  spared : ∀ n, .userdata n ∈ h.finalizable → h'.carried? n = h.carried? n
  listed : ∀ v ∈ h.finalizable, v ∈ h'.finalizable ∨ v ∈ lost
  handed : lost ⊆ h.finalizable
  closing : h'.closing = h.closing

theorem finalizable_clear (h : Heap) (m : Marks) (keys : Bool) :
    (Collector.clear h m keys).finalizable = h.finalizable ∧ h.Carries (Collector.clear h m keys) := by
  unfold Collector.clear
  induction Collector.markedTables m generalizing h with
  | nil => exact ⟨rfl, .refl h⟩
  | cons i is ih =>
    rw [List.foldl_cons]
    dsimp only
    split
    · exact ⟨(ih _).1, (carries_of_userdata rfl rfl rfl rfl : h.Carries (h.setTable i _)).trans (ih _).2⟩
    · exact ih h

end Heap

namespace Collector

/-- Userdata to be finalized are marked in the end: what the first marking does not reach is where the
second one begins. -/
theorem keeps_finalizable (vm : Vm) {h : Heap} {m : Marks} {n : Nat} (hn : .userdata n ∈ h.finalizable)
    (hc : m.Covers (.val (.userdata n))) :
    (mark vm m (vals (h.finalizable.partition m.has).2)).Keeps (.val (.userdata n)) := by
  by_cases hm : m.has (.userdata n)
  · exact keeps_mark vm _ hm
  · refine keeps_root vm (List.mem_map_of_mem ?_) hc
    rw [List.partition_eq_filter_filter]
    exact List.mem_filter.mpr ⟨hn, by simpa using hm⟩

theorem sweeps_collect (vm : Vm) (threads : List Nat) :
    vm.heap.Sweeps (collect vm threads).2 (collect vm threads).1.heap := by
  unfold collect
  dsimp only
  generalize hm : mark vm (.empty vm) _ = m
  -- Weak tables are cleared twice, before what is to be finalized is marked and after it.
  obtain ⟨hlist, hfirst⟩ := vm.heap.finalizable_clear m false
  generalize clear vm.heap m false = h₁ at hlist hfirst
  have hkeeps : ∀ n, .userdata n ∈ vm.heap.finalizable → n < vm.heap.userdata.next →
      (mark { vm with heap := h₁ } m (vals (h₁.finalizable.partition m.has).2)).Keeps
        (.val (.userdata n)) := by
    intro n hn hl
    refine keeps_finalizable _ (hlist ▸ hn) ?_
    rw [← hm, covers_mark]
    simpa [Marks.Covers, Marks.empty] using hl
  generalize mark { vm with heap := h₁ } m _ = m₂ at hkeeps
  obtain ⟨-, hsecond⟩ := h₁.finalizable_clear m₂ true
  have hcarries := hfirst.trans hsecond
  generalize clear h₁ m₂ true = h₂ at hsecond hcarries
  have hcarried : ∀ n, Heap.carried?
      { h₂ with
        finalizable := (h₁.finalizable.partition m.has).1
        tables := h₂.tables.sweep fun i => m₂.tables.getD i false
        closures := h₂.closures.sweep fun i => m₂.closures.getD i false
        cells := h₂.cells.sweep fun i => m₂.cells.getD i false
        userdata := h₂.userdata.sweep fun i => m₂.userdata.getD i false } n =
      if m₂.userdata.getD n false then vm.heap.carried? n else none := by
    intro n
    rw [← hcarries.carried n]
    unfold Heap.carried?
    dsimp only
    rw [Pool.get?_sweep]
    split <;> rfl
  refine ⟨fun n => ?_, fun n hn => ?_, fun v hv => ?_, fun v hv => ?_, hcarries.closing⟩
  · rw [hcarried]
    split
    · exact .inl rfl
    · exact .inr rfl
  · rw [hcarried]
    split
    · rfl
    next hlost =>
      cases hu : vm.heap.userdata.get? n with
      | none => rw [Heap.carried?, hu]; rfl
      | some u => exact absurd (Marks.keeps_userdata (hkeeps n hn (Pool.lt_next hu))) hlost
  · rw [List.partition_eq_filter_filter]
    rw [← hlist] at hv
    by_cases hmarked : m.has v
    · exact .inl (List.mem_filter.mpr ⟨hv, hmarked⟩)
    · exact .inr (List.mem_filter.mpr ⟨hv, by simpa using hmarked⟩)
  · rw [List.partition_eq_filter_filter] at hv
    rw [← hlist]
    exact List.mem_of_mem_filter hv

end Collector
end LuaEmbed.Engine
