import LuaEmbed.Proofs.Lookup

/-!
Marking only ever adds marks, and it begins with the main thread, the threads in the middle of a run
and those that something outside refers to; so a collection leaves these threads as they are, up to
room that is not in use.
-/
namespace LuaEmbed.Engine

namespace Marks

variable {m : Marks}

/-- A node is marked. -/
def Keeps (m : Marks) (n : Node) : Prop := m.hasNode n = true

/-- There is a mark for a node. -/
def Covers (m : Marks) : Node → Prop
  | .val (.table i) => i < m.tables.size
  | .val (.closure i) => i < m.closures.size
  | .val (.userdata i) => i < m.userdata.size
  | .val (.thread i) => i < m.threads.size
  | .cell i => i < m.cells.size
  | .val _ => True

theorem covers_add (m : Marks) (n o : Node) : (m.add o).Covers n ↔ m.Covers n := by
  unfold add
  split
  case h_6 => rfl
  all_goals
    unfold Covers
    simp only [Array.size_setIfInBounds]

theorem getD_set {a : Array Bool} {i j : Nat} (h : a.getD j false = true) :
    (a.setIfInBounds i true).getD j false = true := by
  simp only [Array.getD_eq_getD_getElem?, Array.getElem?_setIfInBounds] at h ⊢
  split
  next hi =>
    subst hi
    split
    · rfl
    next hsize => simp [hsize] at h
  next => exact h

theorem keeps_add {n : Node} (o : Node) (h : m.Keeps n) : (m.add o).Keeps n := by
  unfold add
  split
  case h_6 => exact h
  all_goals
    cases n with
    | cell j => first | exact getD_set h | exact h
    | val v => cases v <;> first | exact getD_set h | exact h

theorem keeps_add_self {n : Node} (h : m.Covers n) : (m.add n).Keeps n := by
  cases n with
  | cell i =>
    unfold Covers at h
    simp [Keeps, hasNode, add, h]
  | val v =>
    cases v with
    | table i | closure i | userdata i | thread i =>
      unfold Covers at h
      simp [Keeps, hasNode, has, add, h]
    | _ => rfl

/-- A userdata with a mark. -/
theorem keeps_userdata {i : Nat} (h : m.Keeps (.val (.userdata i))) : m.userdata.getD i false = true := h

/-- A thread with a mark. -/
theorem keeps_thread {t : Nat} (h : m.Keeps (.val (.thread t))) : m.threads.getD t false = true := h

end Marks

namespace Collector

variable {m : Marks} {n : Node}

/-- A list of nodes marked one after the other, with those that were not marked before. -/
theorem markAll_keeps (n : Node) (ns : List Node) (m : Marks) (fresh : List Node) :
    let r := ns.foldl (fun (m, fresh) n =>
      if m.hasNode n then (m, fresh) else (m.add n, n :: fresh))
      (m, fresh)
    (r.1.Covers n ↔ m.Covers n) ∧ (m.Keeps n → r.1.Keeps n) ∧
      (n ∈ ns → m.Covers n → r.1.Keeps n) := by
  induction ns generalizing m fresh with
  | nil => exact ⟨Iff.rfl, id, nofun⟩
  | cons o ns ih =>
    dsimp only [List.foldl]
    split
    next ho =>
      obtain ⟨hcovers, hmono, hmem⟩ := ih m fresh
      refine ⟨hcovers, hmono, fun h hl => ?_⟩
      rcases List.mem_cons.mp h with rfl | h
      · exact hmono ho
      · exact hmem h hl
    next =>
      obtain ⟨hcovers, hmono, hmem⟩ := ih (m.add o) (o :: fresh)
      have hadd := m.covers_add n o
      refine ⟨hcovers.trans hadd, fun h => hmono (Marks.keeps_add o h), fun h hl => ?_⟩
      rcases List.mem_cons.mp h with rfl | h
      · exact hmono (Marks.keeps_add_self hl)
      · exact hmem h (hadd.mpr hl)

theorem keeps_propagate (vm : Vm) (fuel : Nat) (ns : List Node) (h : m.Keeps n) :
    (propagate vm fuel m ns).Keeps n := by
  induction fuel generalizing m ns with
  | zero => exact h
  | succ fuel ih =>
    have hm : (markAll m ns).1.Keeps n := (markAll_keeps n ns m []).2.1 h
    unfold propagate
    dsimp only
    split
    · exact hm
    · exact ih _ hm

theorem keeps_converge (vm : Vm) (fuel : Nat) (h : m.Keeps n) : (converge vm fuel m).Keeps n := by
  induction fuel generalizing m with
  | zero => exact h
  | succ fuel ih =>
    unfold converge
    dsimp only
    split
    · exact h
    · exact ih (keeps_propagate vm _ _ h)

theorem keeps_mark (vm : Vm) (roots : List Node) (h : m.Keeps n) : (mark vm m roots).Keeps n :=
  keeps_converge vm _ (keeps_propagate vm _ _ h)

theorem keeps_root (vm : Vm) {roots : List Node} (h : n ∈ roots) (hl : m.Covers n) :
    (mark vm m roots).Keeps n := by
  refine keeps_converge vm _ ?_
  obtain ⟨k, hk⟩ : ∃ k, size vm = k + 1 := ⟨_, rfl⟩
  have hm : (markAll m roots).1.Keeps n := (markAll_keeps n roots m []).2.2 h hl
  rw [hk]
  unfold propagate
  dsimp only
  split
  · exact hm
  · exact keeps_propagate vm k _ hm

theorem covers_propagate (vm : Vm) (fuel : Nat) (m : Marks) (ns : List Node) :
    (propagate vm fuel m ns).Covers n ↔ m.Covers n := by
  induction fuel generalizing m ns with
  | zero => exact Iff.rfl
  | succ fuel ih =>
    have hm : (markAll m ns).1.Covers n ↔ m.Covers n := (markAll_keeps n ns m []).1
    unfold propagate
    dsimp only
    split
    · exact hm
    · exact (ih _ _).trans hm

theorem covers_mark (vm : Vm) (m : Marks) (roots : List Node) :
    (mark vm m roots).Covers n ↔ m.Covers n := by
  have hconverge : ∀ fuel (m : Marks), (converge vm fuel m).Covers n ↔ m.Covers n := by
    intro fuel
    induction fuel with
    | zero => exact fun _ => Iff.rfl
    | succ fuel ih =>
      intro m
      unfold converge
      dsimp only
      split
      · exact Iff.rfl
      · exact (ih _).trans (covers_propagate vm _ _ _)
  exact (hconverge _ _).trans (covers_propagate vm _ _ _)

/-- A collection gives back unused room of the threads that it begins with, and no more. -/
theorem thread?_collect {vm : Vm} {t : Nat} {th : Thread} (h : vm.thread? t = some th) {threads : List Nat}
    (hr : t = 0 ∨ th.isRunning ∨ t ∈ threads) :
    (collect vm threads).1.thread? t = some th.shrink := by
  obtain ⟨hl, rfl⟩ := Array.getElem?_eq_some_iff.mp h
  let roots := .val vm.heap.registryTable :: .val (.thread 0) :: typeRoots vm.heap ++
    (running vm ++ threads).map fun t => .val (.thread t)
  have hroot : Node.val (.thread t) ∈ roots := by
    rcases hr with rfl | hr | hr
    · exact List.mem_cons_of_mem _ (List.mem_cons_self ..)
    · have hrunning : t ∈ running vm := by
        unfold running
        rw [List.mem_filter, List.mem_range, Vm.thread_eq, h]
        exact ⟨hl, hr⟩
      exact List.mem_append_right _ (List.mem_map.mpr ⟨t, List.mem_append_left _ hrunning, rfl⟩)
    · exact List.mem_append_right _ (List.mem_map.mpr ⟨t, List.mem_append_right _ hr, rfl⟩)
  have hmark : (mark vm (.empty vm) roots).Keeps (.val (.thread t)) :=
    keeps_root vm hroot (by simpa [Marks.empty, Marks.Covers] using hl)
  unfold collect Vm.thread?
  dsimp only
  rw [Array.getElem?_mapIdx, show vm.threads[t]? = some vm.threads[t] from h, Option.map_some]
  exact congrArg some (if_pos (Marks.keeps_thread (keeps_mark _ _ hmark)))

end Collector
end LuaEmbed.Engine
