import LuaEmbed.Proofs.Calls
import LuaEmbed.Proofs.Granting
import LuaEmbed.Proofs.Handles

/-!
Room on a stack. Room that has been reserved is there for whoever takes up no more of it, however
often parts of it are reserved again and whatever is called in the meantime; and where there is room,
looking at a stack succeeds.
-/
namespace LuaEmbed

open Engine

namespace Engine.Thread

variable {t : Thread} {n m : Nat} {starved : Bool}

/-- The slots in use are within the size, which is that of a stack. -/
def Fits (t : Thread) : Prop := t.used ≤ t.size ∧ minRoom ≤ t.size ∧ t.size ≤ errorSize

/-- The frame on top has reserved so many more slots, and the stack does not have to grow for
them. -/
def Roomy (t : Thread) (n : Nat) : Prop := t.used + n ≤ t.top.limit ∧ t.Ample (t.used + n)

theorem Roomy.less (h : t.Roomy n) (hm : m ≤ n) : t.Roomy m := by
  unfold Roomy at *
  exact ⟨by omega, h.2.less (by omega)⟩

/-- A stack that may grow by a few slots grows by more. -/
theorem grownSize_roomy {size used size' : Nat} (hu : used ≤ size) (hn : n < size)
    (h : grownSize size used n = .ok size') :
    size ≤ size' ∧ (size' ≤ size ∨ size' ≤ maxSize) ∧
      (used + n < size' ∨ used + n = size' ∧ size' = maxSize) := by
  unfold grownSize at h
  split at h
  · obtain rfl := Except.ok.inj h
    omega
  · split at h
    · cases h
    · dsimp only at h
      split at h
      · obtain rfl := Except.ok.inj h
        omega
      · cases h

/-- What has been reserved is there. -/
theorem Fits.reserve (hf : t.Fits) (hn : n < minRoom) (h : (t.reserve starved n).1 = true) :
    (t.reserve starved n).2.Fits ∧ (t.reserve starved n).2.Roomy n := by
  have hu := used_reserve h
  obtain ⟨size, hg, -, he⟩ := reserve_ok h
  obtain ⟨hused, hleast, hmost⟩ := hf
  obtain ⟨hgrown, hbound, hroom⟩ := grownSize_roomy hused (Nat.lt_of_lt_of_le hn hleast) hg
  have hsize : (t.reserve starved n).2.size = size := by
    rw [he, size_modifyTop]
  have hlimit : t.used + n ≤ (t.reserve starved n).2.top.limit := by
    rw [he, top_modifyTop]
    exact Nat.le_max_right ..
  have hmax : size ≤ errorSize :=
    hbound.elim (Nat.le_trans · hmost) (Nat.le_trans · (by decide))
  unfold Fits Roomy Ample
  rw [hu, hsize]
  exact ⟨⟨Nat.le_trans hused hgrown, Nat.le_trans hleast hgrown, hmax⟩, hlimit, hmax, hroom⟩

/-- Reserving what there is room for is granted and changes nothing. -/
theorem Roomy.reserve (h : t.Roomy n) (hm : m ≤ n) (hn : n < minRoom) :
    (t.reserve starved m).1 = true ∧ (t.reserve starved m).2.Roomy n := by
  have hg : grownSize t.size t.used m = .ok t.size := by
    unfold grownSize
    split
    · rfl
    · have hmax : t.used + n = maxSize ∧ t.size = maxSize ∧ m = n := by
        unfold Roomy Ample at h
        omega
      obtain ⟨hused, hsize, rfl⟩ := hmax
      rw [if_neg (by rw [hsize]; exact Nat.lt_irrefl _), hused, hsize]
      have hwanted : max (min (2 * maxSize) maxSize) maxSize = maxSize := rfl
      dsimp only
      rw [hwanted, if_pos ⟨Nat.lt_trans hn (by decide), Nat.le_refl _⟩]
  have hok : (t.reserve starved m).1 = true := by
    unfold Thread.reserve
    simp [hg]
  refine ⟨hok, ?_⟩
  obtain ⟨size, hg', -, he⟩ := reserve_ok hok
  obtain rfl := Except.ok.inj (hg.symm.trans hg')
  obtain ⟨hlimit, hample⟩ := h
  unfold Roomy Ample at *
  rw [used_reserve hok, he, size_modifyTop, top_modifyTop]
  exact ⟨Nat.le_trans hlimit (Nat.le_max_left ..), hample⟩

end Engine.Thread

variable {σ μ : Type} {c : Context} {w w' : World σ μ} {n m : Nat} {s : Array Val}

namespace World

/-- The stack is of the size that it has to be. -/
def Fits (w : World σ μ) (c : Context) : Prop := ∃ th, w.thread? c = some th ∧ th.Fits

/-- So many more slots are reserved on a stack, and it does not have to grow for them. -/
def Roomy (w : World σ μ) (c : Context) (n : Nat) : Prop :=
  ∃ th, w.thread? c = some th ∧ th.Roomy n

/-- A native function shows these slots, and has reserved so many more. -/
structure Poised (w : World σ μ) (c : Context) (s : Array Val) (n : Nat) : Prop where
  stands : w.Stands c s
  roomy : w.Roomy c n

theorem reserve_thread {th : Thread} (ht : w.thread? c = some th) (n : Nat) :
    (w.reserve c n).1 = (th.reserve (w.heap c.vm).starved n).1 ∧
      (w.reserve c n).2.thread? c = some (th.reserve (w.heap c.vm).starved n).2 := by
  obtain ⟨x, hx, -⟩ := Option.bind_eq_some_iff.mp ht
  rw [reserve_answer w c n hx, reserve_world, thread?_modifyThread_self, ht, thread_eq, ht]
  exact ⟨rfl, rfl⟩

theorem Fits.reserve (hf : w.Fits c) (hn : n < Thread.minRoom) (h : (w.reserve c n).1 = true) :
    (w.reserve c n).2.Fits c ∧ (w.reserve c n).2.Roomy c n := by
  obtain ⟨th, ht, hf⟩ := hf
  obtain ⟨hanswer, hth⟩ := reserve_thread ht n
  obtain ⟨hfits, hroomy⟩ := hf.reserve hn (hanswer ▸ h)
  exact ⟨⟨_, hth, hfits⟩, _, hth, hroomy⟩

theorem Roomy.reserve (h : w.Roomy c n) (hm : m ≤ n) (hn : n < Thread.minRoom) :
    (w.reserve c m).1 = true ∧ (w.reserve c m).2.Roomy c n := by
  obtain ⟨th, ht, hr⟩ := h
  obtain ⟨hanswer, hth⟩ := reserve_thread ht m
  obtain ⟨hok, hroomy⟩ := hr.reserve hm hn
  exact ⟨hanswer.trans hok, _, hth, hroomy⟩

theorem Poised.less (h : w.Poised c s n) (hm : m ≤ n) : w.Poised c s m := by
  obtain ⟨hs, th, ht, hr⟩ := h
  exact ⟨hs, th, ht, hr.less hm⟩

/-- What the slots are replaced by takes up room, or gives it back. -/
theorem Poised.modifySlots (h : w.Poised c s n) (f : Array Val → Array Val)
    (hm : (f s).size + m = s.size + n) : (w.modifySlots c f).Poised c (f s) m := by
  obtain ⟨hs, th, ht, hr⟩ := h
  refine ⟨hs.modifySlots f, th.modifyTop (·.mapSlots f), ?_, ?_⟩
  · rw [modifySlots_eq, thread?_modifyThread_self, ht]
    rfl
  have hshown := hs.shown
  unfold shown at hshown
  rw [ht, Option.bind_some] at hshown
  have hcount : th.top.count = s.size := Frame.count_of_shown hshown
  have hcount' : (th.top.mapSlots f).count = (f s).size :=
    Frame.count_of_shown (by rw [Frame.shown_mapSlots, hshown]; rfl)
  have hbase : (th.top.mapSlots f).base = th.top.base := by
    unfold Frame.mapSlots
    split <;> rfl
  have hlimit : (th.top.mapSlots f).limit = th.top.limit := by
    unfold Frame.mapSlots
    split <;> rfl
  unfold Thread.Roomy Thread.Ample Thread.used Frame.used at hr ⊢
  rw [Thread.top_modifyTop, Thread.size_modifyTop, hcount', hbase, hlimit]
  rw [hcount] at hr
  omega

theorem Poised.push (h : w.Poised c s (n + 1)) (v : Val) : (w.push c v).Poised c (s.push v) n :=
  h.modifySlots (·.push v) (by rw [Array.size_push]; omega)

/-- No stack is large. -/
theorem Poised.size_le (h : w.Poised c s n) : s.size + n ≤ Thread.errorSize := by
  obtain ⟨hs, th, ht, -, hmax, hr⟩ := h
  have hshown := hs.shown
  unfold shown at hshown
  rw [ht, Option.bind_some] at hshown
  have hcount : th.top.count = s.size := Frame.count_of_shown hshown
  unfold Thread.used Frame.used at hr
  omega

theorem Poised.exists_instance (h : w.Poised c s n) : ∃ y, w.instances[c.vm]? = some y := by
  obtain ⟨th, ht, -⟩ := h.roomy
  obtain ⟨y, hy, -⟩ := Option.bind_eq_some_iff.mp ht
  exact ⟨y, hy⟩

theorem Poised.at_top {x : Val} (h : w.Poised c (s.push x) n) :
    w.at_ c (s.size + 1 : Nat) = x := by
  unfold at_
  rw [h.stands.slots, show ((s.size + 1 : Nat) - 1 : Int).toNat = s.size by omega]
  simp

/-- Changes that leave the threads alone. -/
theorem Poised.of_thread? (h : w.Poised c s n) (ht : w'.thread? c = w.thread? c) :
    w'.Poised c s n := by
  obtain ⟨⟨hshown, hready⟩, hr⟩ := h
  refine ⟨⟨?_, ?_⟩, ?_⟩
  · unfold shown at hshown ⊢
    rw [ht]
    exact hshown
  · unfold status? at hready ⊢
    rw [ht]
    exact hready
  · unfold Roomy at hr ⊢
    rw [ht]
    exact hr

theorem heap_modifyHeap (w : World σ μ) (i : Nat) (f : Heap → Heap) {y : Instance}
    (hy : w.instances[i]? = some y) : (w.modifyHeap i f).heap i = f (w.heap i) := by
  unfold heap
  rw [vm_eq w i hy]
  unfold vm modifyHeap modifyVm
  rw [instances_modifyInstance_self, hy]
  rfl

theorem Poised.modifyHeap (h : w.Poised c s n) (f : Heap → Heap) :
    (w.modifyHeap c.vm f).Poised c s n ∧ (w.modifyHeap c.vm f).heap c.vm = f (w.heap c.vm) := by
  obtain ⟨y, hy⟩ := h.exists_instance
  exact ⟨h.of_thread? (thread?_objects w c.vm c _ fun _ => rfl), heap_modifyHeap w c.vm f hy⟩

/-- A thread that comes back from a call has the room that it had when the call was made. -/
theorem Poised.back {th th' : Thread} {e : Exit} (h : w.Poised c s n) (ht : w.thread? c = some th)
    (ht' : w'.thread? c = some th') (hr : th'.InRun false .ready th.top th.frames.tail (.exit e))
    (hroom : Thread.RoomFor th.frames th th') : w'.Poised c s n := by
  obtain ⟨hs, th₁, ht₁, hlimit, hample⟩ := h
  obtain rfl := Option.some.inj (ht₁.symm.trans ht)
  refine ⟨hs.back ht ht' hr, th', ht', ?_⟩
  have hused : th'.used = th₁.used := by
    unfold Thread.used
    rw [hr.top_eq.1]
    rfl
  have htop : th₁.top ∈ th₁.frames := th₁.frames_eq ▸ List.mem_cons_self ..
  unfold Thread.Roomy
  rw [hused, hr.top_eq.1]
  exact ⟨hlimit, hroom _ ⟨th₁.top, htop, hlimit⟩ hample⟩

/-- What has been reserved is still there after a call. -/
theorem Poised.invoke {f : Val} {args : List Val} {e : Exit} {d : Drive σ μ} (S : Sound .ready c d)
    (h : w.Poised c s n) (hi : c.invoke f args d w = some (e, w')) (hc : Unclosed c.vm w w') :
    w'.Poised c s n ∧ ∀ vs, e ≠ .yielded vs := by
  obtain ⟨th, ht, -⟩ := h.roomy
  obtain ⟨th', ht', hr', hroom⟩ := S.invoke hi hc ht (h.stands.ready ht)
  exact ⟨h.back ht ht' hr' hroom, (h.stands.invoke S hi hc).2⟩

end World

namespace Context

open World

/-- Where there is room, reserving it leaves everything as it is. -/
theorem checkStack_poised (h : w.Poised c s n) (hn : n < Thread.minRoom) {m : Int} (hpos : 0 < m)
    (hm : m ≤ n) : ∃ w', c.checkStack m w = (.ok (), w') ∧ w'.Poised c s n ∧ w.Alike w' := by
  obtain ⟨hok, hroomy⟩ := h.roomy.reserve (m := m.toNat) (by omega) hn
  exact ⟨_, checkStack_granted hpos hok, ⟨(alike_reserve w c _).stands h.stands, hroomy⟩,
    alike_reserve w c _⟩

theorem resolve_top {v : Val} (h : w.Poised c (s.push v) n) :
    c.resolve (-1) w = (.ok (s.size + 1 : Nat), w) := by
  have hd : (w.depth c : Int) = (s.size + 1 : Nat) := by
    rw [h.stands.depth, Array.size_push]
  have hsize := h.size_le
  rw [Array.size_push] at hsize
  have hgreatest : (Thread.errorSize : Int) ≤ Word32.greatest := by decide
  have hresolve : Index.resolve (-1) (s.size + 1 : Nat) = .ok (s.size + 1 : Nat) :=
    Index.resolve_last (by omega) (by omega)
  unfold resolve
  rw [Api.bind_ok (show c.top w = (.ok (w.depth c : Int), w) from rfl), hd, hresolve]
  rfl

theorem duplicate_poised {x : Val} (h : w.Poised c (s.push x) (n + 1)) (hn : n + 1 < Thread.minRoom) :
    ∃ w', c.duplicate (-1) w = (.ok (), w') ∧ w'.Poised c ((s.push x).push x) n ∧
      ∀ i, w'.heap i = w.heap i := by
  obtain ⟨w₁, hroom, h₁, ha⟩ := checkStack_poised h hn (m := 1) (by omega) (by omega)
  refine ⟨w₁.push c x, ?_, h₁.push x, fun i => (heap_push w₁ c i x).trans (ha.heap i)⟩
  unfold duplicate
  rw [Api.bind_ok (resolve_top h), Api.bind_ok hroom]
  unfold Api.modify
  dsimp only
  rw [h₁.at_top]


theorem cut_poised {e : Val} (h : w.Poised c (s.push e) n) :
    (c.cut s.size w).2.Poised c s (n + 1) := by
  have hs : (s.push e).shrink s.size ++ Array.replicate (s.size - (s.push e).size) .nil = s := by
    apply Array.ext'
    simp
  have hcut := h.modifySlots
    (fun u => u.shrink s.size ++ Array.replicate (s.size - u.size) .nil) (m := n + 1) (by
      rw [hs, Array.size_push]
      omega)
  rwa [hs] at hcut

theorem removeAt_poised {t x : Val} (h : w.Poised c ((s.push t).push x) n) :
    (c.removeAt (s.size + 1) w).2.Poised c (s.push x) (n + 1) ∧
      ∀ i, (c.removeAt (s.size + 1) w).2.heap i = w.heap i := by
  have hs : ((s.push t).push x).eraseIdxIfInBounds (s.size + 1 - 1) = s.push x := by
    rw [Nat.add_sub_cancel, Array.eraseIdxIfInBounds, dif_pos (by simp only [Array.size_push]; omega)]
    apply Array.ext'
    simp [List.eraseIdx_append_of_length_le]
  refine ⟨?_, fun i => heap_modifySlots w c i _⟩
  have hcut := h.modifySlots (·.eraseIdxIfInBounds (s.size + 1 - 1)) (m := n + 1)
    (by rw [hs]; simp; omega)
  rwa [hs] at hcut

end Context
end LuaEmbed
