import LuaEmbed.Proofs.History
import LuaEmbed.Proofs.Keeping

/-!
The books on views and owners. A run is a path of moves, each of which opens or drops one view, lets
one owner go, makes one interpreter, or does neither. Along the path every interpreter counts its
open views, and the history stays orderly.
-/
namespace LuaEmbed

open Engine History

/-- What an interpreter knows of its owner and its views. -/
def Instance.ledger (x : Instance) : Bool × Nat := (x.closed, x.views)

namespace World

variable {σ μ α β : Type}

def ledger (w : World σ μ) (i : Nat) : Option (Bool × Nat) :=
  (w.instances[i]?).map Instance.ledger

/-- Closes an interpreter if its owner is gone and no view of it is open. -/
def settle (w : World σ μ) (i : Nat) : World σ μ :=
  match w.instances[i]? with
  | some x => if x.closed ∧ x.views = 0 then w.happened (.closed i) else w
  | none => w

/-- A view is opened. -/
def addView (w : World σ μ) (o : Opening) : World σ μ :=
  { w.modifyInstance o.stack.vm fun x => { x with views := x.views + 1 } with
    views := w.views.push o }.happened (.opened ⟨o.stack, w.views.next⟩)

/-- The view with a number, which is this one, is dropped. -/
def removeView (w : World σ μ) (n : Nat) (o : Opening) : World σ μ :=
  ({ w with views := w.views.erase n }.happened (.dropped ⟨o.stack, n⟩)).modifyInstance o.stack.vm
    fun x => { x with views := x.views - 1 }

/-- The owner of an interpreter goes. -/
def disown (w : World σ μ) (i : Nat) : World σ μ :=
  (w.modifyInstance i ({ · with closed := true })).happened (.disowned i)

/-- One event in the life of the interpreters, with the closing that it may lead to. -/
inductive Move : World σ μ → World σ μ → Prop where
  /-- Something that concerns neither owners nor views. -/
  | inside {w w' : World σ μ} (hl : ∀ i, w'.ledger i = w.ledger i) (hv : w'.views = w.views)
    (hh : w'.history = w.history) : Move w w'
  | born (w : World σ μ) (vm : Nat) (name : Bytes) :
    Move w { w with instances := w.instances.push { vm := freshVm vm, chunkName := name } }
  | opened (w : World σ μ) (o : Opening) (x : Instance)
    (hx : w.instances[o.stack.vm]? = some x) (hc : x.closed = false) : Move w (w.addView o)
  | dropped (w : World σ μ) (n : Nat) (o : Opening) (ho : w.views.get? n = some o) :
    Move w ((w.removeView n o).settle o.stack.vm)
  | disowned (w : World σ μ) (i : Nat) (x : Instance) (hx : w.instances[i]? = some x)
    (hc : x.closed = false) : Move w ((w.disown i).settle i)

/-- Any number of events, one after the other. -/
abbrev Path : World σ μ → World σ μ → Prop := Relation.ReflTransGen Move

/-- The books agree with the history: every interpreter knows whether its owner is gone and counts
its open views, which are those that the world has. -/
structure Booked (w : World σ μ) : Prop where
  orderly : Orderly w.history
  known : ∀ v ∈ live w.history, ∃ x, w.instances[v.stack.vm]? = some x
  made : ∀ i, .disowned i ∈ w.history → ∃ x, w.instances[i]? = some x
  opened : ∀ v, v ∈ live w.history ↔ ∃ held, w.views.get? v.number = some ⟨v.stack, held⟩
  closed : ∀ i x, w.instances[i]? = some x → (x.closed = true ↔ .disowned i ∈ w.history)
  views : ∀ i x, w.instances[i]? = some x → x.views = (liveOf w.history i).length

/-- The books agree with the history, and no interpreter is due to be closed. -/
structure Accounted (w : World σ μ) : Prop extends Booked w where
  settled : ∀ i, ¬ Due w.history i

/-! ### Changes of the books -/

theorem ledger_some {w : World σ μ} {i : Nat} {b : Bool} {v : Nat} :
    w.ledger i = some (b, v) ↔ ∃ x, w.instances[i]? = some x ∧ x.closed = b ∧ x.views = v := by
  simp [ledger, Instance.ledger]

variable {w w' : World σ μ}

/-- The books are as good after something that concerns neither owners nor views. -/
theorem Booked.inside (hw : w.Booked) (hl : ∀ i, w'.ledger i = w.ledger i)
    (hv : w'.views = w.views) (hh : w'.history = w.history) : w'.Booked := by
  have hback : ∀ (i : Nat) (x' : Instance), w'.instances[i]? = some x' →
      ∃ x : Instance, w.instances[i]? = some x ∧ x.closed = x'.closed ∧ x.views = x'.views := by
    intro i x' hx'
    refine ledger_some.mp ?_
    rw [← hl i]
    exact ledger_some.mpr ⟨x', hx', rfl, rfl⟩
  have hforth : ∀ (i : Nat) (x : Instance), w.instances[i]? = some x →
      ∃ x' : Instance, w'.instances[i]? = some x' := by
    intro i x hx
    obtain ⟨x', hx', -⟩ := ledger_some.mp ((hl i).trans (ledger_some.mpr ⟨x, hx, rfl, rfl⟩))
    exact ⟨x', hx'⟩
  refine ⟨hh ▸ hw.orderly, fun v hm => ?_, fun i hm => ?_, fun v => ?_, fun i x' hx' => ?_,
    fun i x' hx' => ?_⟩
  · obtain ⟨x, hx⟩ := hw.known v (hh ▸ hm)
    exact hforth _ x hx
  · obtain ⟨x, hx⟩ := hw.made i (hh ▸ hm)
    exact hforth _ x hx
  · rw [hh, hv]
    exact hw.opened v
  · obtain ⟨x, hx, hc, -⟩ := hback i x' hx'
    rw [hh, ← hc]
    exact hw.closed i x hx
  · obtain ⟨x, hx, -, he⟩ := hback i x' hx'
    rw [hh, ← he]
    exact hw.views i x hx

theorem Booked.live_born (hw : w.Booked) : liveOf w.history w.instances.size = [] := by
  rw [List.eq_nil_iff_forall_not_mem]
  intro v hv
  obtain ⟨hm, hi⟩ := mem_liveOf.mp hv
  obtain ⟨x, hx⟩ := hw.known v hm
  simp [hi] at hx

theorem Booked.born (hw : w.Booked) (vm : Nat) (name : Bytes) :
    Booked { w with instances := w.instances.push { vm := freshVm vm, chunkName := name } } := by
  have hforth : ∀ (i : Nat) (x : Instance), w.instances[i]? = some x →
      (w.instances.push { vm := freshVm vm, chunkName := name })[i]? = some x := by
    intro i x hx
    have hlt : i < w.instances.size := (Array.getElem?_eq_some_iff.mp hx).1
    rw [Array.getElem?_push, if_neg (Nat.ne_of_lt hlt), hx]
  refine ⟨hw.orderly, fun v hm => ?_, fun i hm => ?_, hw.opened, fun i x' hx' => ?_,
    fun i x' hx' => ?_⟩
  · obtain ⟨x, hx⟩ := hw.known v hm
    exact ⟨x, hforth _ x hx⟩
  · obtain ⟨x, hx⟩ := hw.made i hm
    exact ⟨x, hforth _ x hx⟩
  · rw [Array.getElem?_push] at hx'
    split at hx'
    next he =>
      obtain rfl := Option.some.inj hx'
      simp only [Bool.false_eq_true, false_iff]
      intro hm
      obtain ⟨x, hx⟩ := hw.made i hm
      simp [he] at hx
    next => exact hw.closed i x' hx'
  · rw [Array.getElem?_push] at hx'
    split at hx'
    next he =>
      obtain rfl := Option.some.inj hx'
      rw [he, hw.live_born]
      rfl
    next => exact hw.views i x' hx'

/-- What holds of every interpreter after one of them has changed. -/
theorem forall_modifyInstance {j : Nat} {f : Instance → Instance} {P : Nat → Instance → Prop}
    (hi : w'.instances = (w.modifyInstance j f).instances)
    (hne : ∀ i x, j ≠ i → w.instances[i]? = some x → P i x)
    (hj : ∀ x, w.instances[j]? = some x → P j (f x)) :
    ∀ i x, w'.instances[i]? = some x → P i x := by
  intro i x' hx'
  rw [hi, instances_modifyInstance] at hx'
  split at hx'
  next he =>
    subst he
    obtain ⟨x, hx, rfl⟩ := Option.map_eq_some_iff.mp hx'
    exact hj x hx
  next h => exact hne i x' h hx'

theorem exists_modifyInstance {i j : Nat} {f : Instance → Instance}
    (hi : w'.instances = (w.modifyInstance j f).instances)
    (hx : ∃ x, w.instances[i]? = some x) : ∃ x, w'.instances[i]? = some x := by
  obtain ⟨x, hx⟩ := hx
  rw [hi, instances_modifyInstance, hx]
  split
  · exact ⟨f x, rfl⟩
  · exact ⟨x, rfl⟩

theorem Accounted.addView (hw : w.Accounted) {o : Opening} {x : Instance}
    (hx : w.instances[o.stack.vm]? = some x) (hc : x.closed = false) : (w.addView o).Booked := by
  have hi : (w.addView o).instances
      = (w.modifyInstance o.stack.vm fun x => { x with views := x.views + 1 }).instances := rfl
  have hh : (w.addView o).history = .opened ⟨o.stack, w.views.next⟩ :: w.history := rfl
  have hv : (w.addView o).views = w.views.push o := rfl
  have hfresh : ∀ s : StackId, ⟨s, w.views.next⟩ ∉ live w.history := by
    intro s hm
    obtain ⟨held, hg⟩ := (hw.opened _).mp hm
    rw [Pool.get?_next] at hg
    cases hg
  have howner : .disowned o.stack.vm ∉ w.history := by
    rw [← hw.closed _ x hx, hc]
    simp
  refine ⟨?_, fun v hm => ?_, fun i hm => ?_, fun v => ?_, ?_, ?_⟩
  · rw [hh]
    exact .opened hw.orderly hw.settled (hfresh _) howner
  · refine exists_modifyInstance hi ?_
    rw [hh] at hm
    rcases List.mem_cons.mp hm with rfl | hm
    · exact ⟨x, hx⟩
    · exact hw.known v hm
  · refine exists_modifyInstance hi (hw.made i ?_)
    rw [hh] at hm
    simpa using hm
  · rw [hh, hv, Pool.get?_push]
    obtain ⟨s, n⟩ := v
    dsimp only
    split
    next hn =>
      subst hn
      have hm := hfresh s
      simp only [live, List.mem_cons, View.mk.injEq, and_true, hm, or_false, Option.some.injEq]
      constructor
      · intro h
        exact ⟨o.held, by rw [h]⟩
      · rintro ⟨held, h⟩
        rw [h]
    next hn =>
      have hne : (⟨s, n⟩ : View) ≠ ⟨o.stack, w.views.next⟩ := fun h => hn (by injection h)
      rw [live, List.mem_cons, hw.opened]
      simp [hne]
  · rw [hh]
    refine forall_modifyInstance hi (fun i y _ hy => ?_) fun y hy => ?_
    · simpa using hw.closed i y hy
    · simpa using hw.closed _ y hy
  · rw [hh]
    refine forall_modifyInstance hi (fun i y hne hy => ?_) fun y hy => ?_
    · rw [liveOf_opened, if_neg hne, hw.views i y hy]
    · rw [liveOf_opened, if_pos rfl, List.length_cons, hw.views _ y hy]

theorem Accounted.removeView (hw : w.Accounted) {n : Nat} {o : Opening}
    (ho : w.views.get? n = some o) : (w.removeView n o).Booked := by
  have hi : (w.removeView n o).instances
      = (w.modifyInstance o.stack.vm fun x => { x with views := x.views - 1 }).instances := rfl
  have hh : (w.removeView n o).history = .dropped ⟨o.stack, n⟩ :: w.history := rfl
  have hv : (w.removeView n o).views = w.views.erase n := rfl
  have hlive : ⟨o.stack, n⟩ ∈ live w.history := (hw.opened _).mpr ⟨o.held, ho⟩
  have hmem : ∀ v, v ∈ live (.dropped ⟨o.stack, n⟩ :: w.history) ↔
      v ≠ ⟨o.stack, n⟩ ∧ v ∈ live w.history := fun v => hw.orderly.nodup.mem_erase_iff
  refine ⟨?_, fun v hm => ?_, fun i hm => ?_, fun v => ?_, ?_, ?_⟩
  · rw [hh]
    exact .dropped hw.orderly hw.settled hlive
  · rw [hh, hmem] at hm
    exact exists_modifyInstance hi (hw.known v hm.2)
  · rw [hh] at hm
    exact exists_modifyInstance hi (hw.made i (by simpa using hm))
  · rw [hh, hv, Pool.get?_erase, hmem, hw.opened]
    obtain ⟨s, m⟩ := v
    dsimp only
    split
    next hm =>
      subst hm
      simp only [ne_eq, View.mk.injEq, and_true, ho, Option.some.injEq, reduceCtorEq, exists_false,
        iff_false, not_and, not_exists]
      intro hs held h
      exact hs (by rw [h])
    next hm =>
      have hne : (⟨s, m⟩ : View) ≠ ⟨o.stack, n⟩ := fun h =>
        hm (by injection h with _ h; exact h.symm)
      simp [hne]
  · rw [hh]
    refine forall_modifyInstance hi (fun i y _ hy => ?_) fun y hy => ?_
    · simpa using hw.closed i y hy
    · simpa using hw.closed _ y hy
  · rw [hh]
    refine forall_modifyInstance hi (fun i y hne hy => ?_) fun y hy => ?_
    · rw [length_liveOf_dropped hlive, if_neg hne, hw.views i y hy, Nat.sub_zero]
    · rw [length_liveOf_dropped hlive, if_pos rfl, hw.views _ y hy]

theorem Accounted.disown (hw : w.Accounted) {i : Nat} {x : Instance}
    (hx : w.instances[i]? = some x) (hc : x.closed = false) : (w.disown i).Booked := by
  have hi : (w.disown i).instances =
      (w.modifyInstance i ({ · with closed := true })).instances := rfl
  have hh : (w.disown i).history = .disowned i :: w.history := rfl
  have howner : .disowned i ∉ w.history := by
    rw [← hw.closed _ x hx, hc]
    simp
  refine ⟨?_, fun v hm => exists_modifyInstance hi (hw.known v hm), fun j hm => ?_,
    hw.opened, ?_, ?_⟩
  · rw [hh]
    exact .disowned hw.orderly hw.settled howner
  · refine exists_modifyInstance hi ?_
    rw [hh] at hm
    rcases List.mem_cons.mp hm with hj | hm
    · obtain rfl := Happening.disowned.inj hj
      exact ⟨x, hx⟩
    · exact hw.made j hm
  · rw [hh]
    refine forall_modifyInstance hi (fun j y hne hy => ?_) fun y hy => by simp
    simpa [Ne.symm hne] using hw.closed j y hy
  · rw [hh]
    exact forall_modifyInstance hi (fun j y _ hy => hw.views j y hy) fun y hy => hw.views i y hy

/-- Settling closes the one interpreter that may be due. -/
theorem Booked.settle (hw : w.Booked) {i : Nat} (hother : ∀ j, i ≠ j → ¬ Due w.history j)
    (hopen : .closed i ∉ w.history) : (w.settle i).Accounted := by
  unfold World.settle
  cases hx : w.instances[i]? with
  | none =>
    refine ⟨hw, fun j hd => ?_⟩
    by_cases hj : i = j
    · subst hj
      obtain ⟨x, hx'⟩ := hw.made i hd.1
      simp [hx] at hx'
    · exact hother j hj hd
  | some x =>
    have hc := hw.closed i x hx
    have hv := hw.views i x hx
    dsimp only
    split
    next hdue =>
      have hd : Due w.history i := by
        refine ⟨hc.mp hdue.1, List.eq_nil_of_length_eq_zero ?_, hopen⟩
        rw [← hv, hdue.2]
      refine ⟨⟨.closed hw.orderly hd, hw.known, fun j hm => hw.made j ?_, hw.opened,
        fun j y hy => ?_,
        hw.views⟩, fun j hd' => ?_⟩
      · simpa [happened] using hm
      · simpa [happened] using hw.closed j y hy
      · by_cases hj : i = j
        · subst hj
          exact hd'.2.2 (by simp [happened])
        · exact hother j hj (due_closed hd')
    next hdue =>
      refine ⟨hw, fun j hd => ?_⟩
      by_cases hj : i = j
      · subst hj
        refine hdue ⟨hc.mpr hd.1, ?_⟩
        rw [hv, hd.2.1, List.length_nil]
      · exact hother j hj hd

/-- Accounts that are in order before an event are in order afterwards. -/
theorem Accounted.move (hw : w.Accounted) (h : Move w w') : w'.Accounted := by
  cases h with
  | inside hl hv hh => exact ⟨hw.inside hl hv hh, hh ▸ hw.settled⟩
  | born vm name => exact ⟨hw.born vm name, hw.settled⟩
  | opened o x hx hc =>
    exact ⟨hw.addView hx hc, fun i hd => hw.settled i (due_opened hd)⟩
  | dropped n o ho =>
    refine (hw.removeView ho).settle
      (fun j hne hd => hw.settled j (due_dropped hne hd)) fun hm => ?_
    have hcl : .closed o.stack.vm ∈ w.history := by
      simpa [World.removeView, happened, modifyInstance] using hm
    have hlive : ⟨o.stack, n⟩ ∈ live w.history := (hw.opened _).mpr ⟨o.held, ho⟩
    have hnone := (hw.orderly.of_closed hcl).2
    have hmem := mem_liveOf.mpr ⟨hlive, rfl⟩
    rw [hnone] at hmem
    cases hmem
  | disowned i x hx hc =>
    refine (hw.disown hx hc).settle
      (fun j hne hd => hw.settled j (due_disowned hne hd)) fun hm => ?_
    have hcl : .closed i ∈ w.history := by simpa [World.disown, happened, modifyInstance] using hm
    have hgone := (hw.closed i x hx).mpr (hw.orderly.of_closed hcl).1
    simp [hc] at hgone

/-- The world before any interpreter is made, with a collector that takes its turns in this way. -/
def start (m : μ) (f : Notice → μ → μ) (due : Nat → Engine.Vm → Bool) : World σ μ :=
  { memory := m, subscriber := f, due }

theorem accounted_start (m : μ) (f : Notice → μ → μ) (due : Nat → Engine.Vm → Bool) :
    Accounted (start m f due : World σ μ) where
  orderly := .start
  known _ hv := by cases hv
  made _ hi := by cases hi
  opened v := by simp [start, live, Pool.get?]
  closed i x hx := by simp [start] at hx
  views i x hx := by simp [start] at hx
  settled _ hd := by cases hd.1

theorem Accounted.path (hw : w.Accounted) (h : Path w w') : w'.Accounted := by
  induction h with
  | refl => exact hw
  | tail _ h ih => exact ih.move h

/-! ### The history -/

theorem suffix_settle (w : World σ μ) (i : Nat) : w.history <:+ (w.settle i).history := by
  unfold settle
  split
  · split
    · exact List.suffix_cons _ _
    · exact List.suffix_refl _
  · exact List.suffix_refl _

theorem Move.grows (h : Move w w') : w.history <:+ w'.history := by
  cases h with
  | inside _ _ hh => exact hh ▸ List.suffix_refl _
  | born => exact List.suffix_refl _
  | opened => exact List.suffix_cons _ _
  | dropped n o =>
    have h : w.history <:+ (w.removeView n o).history := List.suffix_cons _ _
    exact h.trans (suffix_settle _ _)
  | disowned i =>
    have h : w.history <:+ (w.disown i).history := List.suffix_cons _ _
    exact h.trans (suffix_settle _ _)

/-- What has happened stays on record. -/
theorem Path.grows (h : Path w w') : w.history <:+ w'.history := by
  induction h with
  | refl => exact List.suffix_refl _
  | tail _ h ih => exact ih.trans h.grows

/-- On the way from one world to another, no closing of an interpreter begins. -/
def Unclosed (i : Nat) (w w' : World σ μ) : Prop :=
  w'.history.count (.closed i) = w.history.count (.closed i)

section Unclosed

variable {w₁ : World σ μ} {i : Nat}

theorem unclosed_of_history (h : w'.history = w.history) : Unclosed i w w' := by
  unfold Unclosed
  rw [h]

theorem Unclosed.of_history {u u' : World σ μ} (h : Unclosed i w w') (hw : u.history = w.history)
    (hw' : u'.history = w'.history) : Unclosed i u u' := by
  unfold Unclosed
  rw [hw, hw']
  exact h

theorem unclosed_of_not_mem (hg : w.history <:+ w'.history) (h : .closed i ∉ w'.history) :
    Unclosed i w w' :=
  (List.count_eq_zero.mpr h).trans (List.count_eq_zero.mpr fun hm => h (hg.subset hm)).symm

theorem Unclosed.onVm [Inhabited α] (h : Unclosed i w w') (j : Nat) (f : Engine.Vm → Engine.Vm × α) :
    Unclosed i (w.onVm j f).2 w' := by
  rw [onVm_world]
  exact h

theorem Unclosed.before (h : Unclosed i w w') (hg : w.history <:+ w₁.history)
    (hg' : w₁.history <:+ w'.history) : Unclosed i w w₁ :=
  Nat.le_antisymm (Nat.le_trans (hg'.sublist.count_le _) (Nat.le_of_eq h)) (hg.sublist.count_le _)

theorem Unclosed.after (h : Unclosed i w w') (hg : w.history <:+ w₁.history)
    (hg' : w₁.history <:+ w'.history) : Unclosed i w₁ w' :=
  h.trans (h.before hg hg').symm

theorem not_unclosed (h : (w.happened (.closed i)).history <:+ w'.history) : ¬ Unclosed i w w' := by
  intro hc
  have hcount := h.sublist.count_le (.closed i)
  unfold Unclosed at hc
  simp only [happened, List.count_cons_self] at hcount
  omega

end Unclosed

end World
end LuaEmbed
