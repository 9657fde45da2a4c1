import LuaEmbed.Proofs.Anchorage
import LuaEmbed.Proofs.Closing

/-!
The references that handles hold. A run is a trail of moves, each of which makes, clones or drops one
handle, lets one owner go, makes one interpreter, or does none of this. Along the trail the history stays
orderly, and the references that have been taken and not released are those of the handles that are there.
-/
namespace LuaEmbed

open Engine Holding

variable {σ μ α β : Type}

namespace World

variable {w w' w₁ w₂ : World σ μ} {es fs : List Holding} {i id : Nat} {t : StackId} {d : Drive σ μ}

/-- The references that an interpreter has given out, and whether its owner is gone. -/
def given (w : World σ μ) (i : Nat) : Option (Pool Nat × Bool) :=
  (w.instances[i]?).map fun x => (x.references, x.closed)

theorem given_some {w : World σ μ} {p : Pool Nat} {b : Bool} :
    w.given i = some (p, b) ↔ ∃ x, w.instances[i]? = some x ∧ x.references = p ∧ x.closed = b := by
  simp [given]

/-- The handles are the same, and so are the references. -/
structure Unheld (w w' : World σ μ) : Prop where
  anchors : ∀ id, w'.anchors.get? id = w.anchors.get? id
  next : w.anchors.next ≤ w'.anchors.next
  given : ∀ i, w'.given i = w.given i

theorem Unheld.refl (w : World σ μ) : w.Unheld w := ⟨fun _ => rfl, Nat.le_refl _, fun _ => rfl⟩

theorem Unheld.trans (h : w.Unheld w₁) (k : w₁.Unheld w') : w.Unheld w' :=
  ⟨fun id => (k.anchors id).trans (h.anchors id), Nat.le_trans h.next k.next,
    fun i => (k.given i).trans (h.given i)⟩

instance : IsPreorder (World σ μ) Unheld where
  refl := .refl
  trans _ _ _ := .trans

theorem unheld_of_instances (hi : w'.instances = w.instances) (ha : w'.anchors = w.anchors) :
    w.Unheld w' :=
  ⟨fun _ => by rw [ha], Nat.le_of_eq (by rw [ha]), fun i => by rw [World.given, hi, World.given]⟩

theorem unheld_modifyInstance (w : World σ μ) (i : Nat) {f : Instance → Instance}
    (hr : ∀ x, (f x).references = x.references) (hc : ∀ x, (f x).closed = x.closed) :
    w.Unheld (w.modifyInstance i f) := by
  refine ⟨fun _ => rfl, Nat.le_refl _, fun j => ?_⟩
  unfold World.given
  rw [instances_modifyInstance]
  split
  · simp [Option.map_map, Function.comp_def, hr, hc]
  · rfl

theorem unheld_modifyVm (w : World σ μ) (i : Nat) (f : Vm → Vm) : w.Unheld (w.modifyVm i f) :=
  unheld_modifyInstance w i (fun _ => rfl) fun _ => rfl

theorem given_modifyInstance (w : World σ μ) (j : Nat) (f : Instance → Instance) :
    (w.modifyInstance j f).given i =
      if j = i then (w.instances[i]?).map fun x => ((f x).references, (f x).closed) else w.given i := by
  unfold World.given
  rw [instances_modifyInstance]
  split
  · rw [Option.map_map]
    rfl
  · rfl

/-! ### Moves -/

/-- One event in the life of handles. -/
inductive Turn : World σ μ → List Holding → World σ μ → Prop where
  | unheld {w w' : World σ μ} (h : w.Unheld w') : Turn w [] w'
  | born (w : World σ μ) (vm : Nat) (name : Bytes) :
    Turn w [] { w with instances := w.instances.push { vm := freshVm vm, chunkName := name } }
  | taken (w : World σ μ) (t : StackId) {p : Pool Nat} {b : Bool} (hg : w.given t.vm = some (p, b)) :
    Turn w [.taken w.anchors.next t p.next] (w.anchor t).2
  | cloned (w : World σ μ) (h : ThreadHandle) {a : Anchor} (ha : w.anchors.get? h.anchor = some a) :
    Turn w [.cloned h.anchor] (w.retain (.thread h))
  | dropped (w : World σ μ) {id : Nat} {a : Anchor} (ha : w.anchors.get? id = some a)
    (hs : 1 < a.strong) : Turn w [.dropped id] (w.releaseAnchor id)
  | released (w : World σ μ) {id : Nat} {a : Anchor} (ha : w.anchors.get? id = some a)
    (hs : a.strong ≤ 1) {p : Pool Nat} (hg : w.given a.thread.vm = some (p, false)) :
    Turn w [.released id] (w.releaseAnchor id)
  | left (w : World σ μ) {id : Nat} {a : Anchor} (ha : w.anchors.get? id = some a)
    (hs : a.strong ≤ 1) (hg : ∀ p, w.given a.thread.vm ≠ some (p, false)) :
    Turn w [.left id] (w.releaseAnchor id)
  | disowned (w : World σ μ) {i : Nat} {p : Pool Nat} (hg : w.given i = some (p, false)) :
    Turn w [.disowned i] (w.disown i)

/-- Any number of events, the latest first. -/
inductive Trail : World σ μ → List Holding → World σ μ → Prop where
  | refl (w : World σ μ) : Trail w [] w
  | tail {w w₁ w' : World σ μ} {es fs : List Holding} (h : Trail w es w₁) (k : Turn w₁ fs w') :
    Trail w (fs ++ es) w'

theorem Turn.trail (h : Turn w es w') : Trail w es w' := List.append_nil es ▸ (Trail.refl w).tail h

theorem Trail.trans (h : Trail w es w₁) (k : Trail w₁ fs w') : Trail w (fs ++ es) w' := by
  induction k with
  | refl => exact h
  | tail _ k ih =>
    rw [List.append_assoc]
    exact ih.tail k

/-- The references are those of the handles that are there. -/
structure Moored (w : World σ μ) (es : List Holding) : Prop where
  orderly : Orderly es
  /-- A handle is there as long as there are clones of it, which it counts. -/
  anchors : ∀ id t r n, w.anchors.get? id = some ⟨t, r, n⟩ ↔
    .taken id t r ∈ es ∧ 0 < n ∧ clones es id = n
  /-- What has been taken from an interpreter and not released is there, and nothing else is. -/
  given : ∀ i p b, w.given i = some (p, b) → ∀ r t, p.get? r = some t ↔
    ∃ id, .taken id ⟨i, t⟩ r ∈ es ∧ .released id ∉ es
  closed : ∀ i p b, w.given i = some (p, b) → (b = true ↔ .disowned i ∈ es)
  fresh : ∀ id t r, .taken id t r ∈ es →
    id < w.anchors.next ∧ ∃ p b, w.given t.vm = some (p, b) ∧ r < p.next
  made : ∀ i, .disowned i ∈ es → w.given i ≠ none

namespace Moored

theorem unheld (hw : w.Moored es) (h : w.Unheld w') : w'.Moored es where
  orderly := hw.orderly
  anchors id := by
    rw [h.anchors id]
    exact hw.anchors id
  given i := by
    rw [h.given i]
    exact hw.given i
  closed i := by
    rw [h.given i]
    exact hw.closed i
  fresh id t r hm := by
    obtain ⟨hid, hr⟩ := hw.fresh id t r hm
    rw [h.given]
    exact ⟨Nat.lt_of_lt_of_le hid h.next, hr⟩
  made i := by
    rw [h.given i]
    exact hw.made i

theorem given_born (w : World σ μ) (x : Instance) :
    World.given { w with instances := w.instances.push x } i =
      if i = w.instances.size then some (x.references, x.closed) else w.given i := by
  unfold World.given
  rw [Array.getElem?_push]
  split <;> rfl

theorem given_size (w : World σ μ) : w.given w.instances.size = none := by
  unfold World.given
  rw [Array.getElem?_eq_none (Nat.le_refl _)]
  rfl

/-- A new interpreter has given out no references. -/
theorem born (hw : w.Moored es) (vm : Nat) (name : Bytes) :
    Moored { w with instances := w.instances.push { vm := freshVm vm, chunkName := name } } es := by
  have hsize : ∀ i, w.given i ≠ none → i ≠ w.instances.size := by
    rintro i h rfl
    exact h (given_size w)
  refine ⟨hw.orderly, hw.anchors, fun i p b => ?_, fun i p b => ?_, fun id t r hm => ?_, fun i hm => ?_⟩
  · rw [given_born]
    split
    next hi =>
      intro hp r t
      obtain ⟨rfl, -⟩ := Prod.mk.inj (Option.some.inj hp)
      refine ⟨nofun, fun ⟨id, hm, _⟩ => ?_⟩
      obtain ⟨-, q, c, hg, -⟩ := hw.fresh id _ r hm
      exact absurd hi (hsize i (by rw [hg]; exact nofun))
    next => exact hw.given i p b
  · rw [given_born]
    split
    next hi =>
      intro hp
      obtain ⟨-, rfl⟩ := Prod.mk.inj (Option.some.inj hp)
      exact ⟨nofun, fun hm => absurd hi (hsize i (hw.made i hm))⟩
    next => exact hw.closed i p b
  · obtain ⟨hid, p, b, hg, hr⟩ := hw.fresh id t r hm
    refine ⟨hid, p, b, ?_, hr⟩
    rw [given_born, if_neg (hsize _ (by rw [hg]; exact nofun))]
    exact hg
  · rw [given_born, if_neg (hsize i (hw.made i hm))]
    exact hw.made i hm

end Moored

theorem anchor_given {p : Pool Nat} {b : Bool} (hg : w.given t.vm = some (p, b)) :
    (w.anchor t).2.anchors = w.anchors.push ⟨t, p.next, 1⟩ ∧
      ∀ i, (w.anchor t).2.given i = if t.vm = i then some (p.push t.thread, b) else w.given i := by
  obtain ⟨x, hx, rfl, rfl⟩ := given_some.mp hg
  unfold anchor instance?
  rw [hx]
  refine ⟨rfl, fun i => (given_modifyInstance w t.vm _).trans ?_⟩
  split
  next hi =>
    subst hi
    rw [hx]
    rfl
  next => rfl

namespace Moored

variable (hw : w.Moored es)

include hw

/-- No handle had the next number before. -/
theorem untaken (u : StackId) (r : Nat) : .taken w.anchors.next u r ∉ es := fun hm =>
  absurd (hw.fresh _ u r hm).1 (Nat.lt_irrefl _)

theorem unreleased : .released w.anchors.next ∉ es := fun hm =>
  have ⟨_, _, _, ht⟩ := hw.orderly.gone_of_released hm
  hw.untaken _ _ ht

variable {p : Pool Nat} {b : Bool} (hg : w.given t.vm = some (p, b))

include hg

/-- No handle to the same interpreter had the next reference before. -/
theorem unreferenced (id : Nat) {u : StackId} (hu : u.vm = t.vm) : .taken id u p.next ∉ es := fun hm => by
  obtain ⟨-, q, c, hq, hlt⟩ := hw.fresh id u _ hm
  rw [hu, hg] at hq
  obtain ⟨rfl, -⟩ := Prod.mk.inj (Option.some.inj hq)
  exact absurd hlt (Nat.lt_irrefl _)

theorem anchors_taken (id : Nat) (u : StackId) (r n : Nat) :
    (w.anchor t).2.anchors.get? id = some ⟨u, r, n⟩ ↔
      .taken id u r ∈ .taken w.anchors.next t p.next :: es ∧ 0 < n ∧
        clones (.taken w.anchors.next t p.next :: es) id = n := by
  rw [(anchor_given hg).1, Pool.get?_push, clones]
  split
  next he =>
    subst he
    rw [clones_eq_zero hw.orderly hw.untaken, if_pos rfl, List.mem_cons, or_iff_left (hw.untaken u r)]
    constructor
    · intro h
      cases h
      exact ⟨rfl, Nat.one_pos, rfl⟩
    · rintro ⟨he, -, rfl⟩
      cases he
      rfl
  next hne =>
    rw [if_neg (Ne.symm hne), hw.anchors id u r n, List.mem_cons,
      or_iff_right (fun h => hne (by cases h; rfl)), Nat.add_zero]

/-- The interpreter of the thread has given out one more reference. -/
theorem pushed_taken (r u : Nat) :
    (p.push t.thread).get? r = some u ↔ ∃ id,
      .taken id ⟨t.vm, u⟩ r ∈ .taken w.anchors.next t p.next :: es ∧
        .released id ∉ .taken w.anchors.next t p.next :: es := by
  have hreleased : ∀ id, .released id ∉ .taken w.anchors.next t p.next :: es ↔ .released id ∉ es :=
    fun _ => by simp
  rw [Pool.get?_push]
  split
  next he =>
    subst he
    constructor
    · intro h
      obtain rfl := Option.some.inj h
      exact ⟨w.anchors.next, List.mem_cons_self, (hreleased _).mpr hw.unreleased⟩
    · rintro ⟨id, hm, -⟩
      rcases List.mem_cons.mp hm with he | hm
      · obtain ⟨-, ht, -⟩ := Holding.taken.inj he
        rw [← ht]
      · exact absurd hm (hw.unreferenced hg id rfl)
  next hne =>
    rw [hw.given _ p b hg r u]
    refine exists_congr fun id => and_congr ?_ (hreleased id).symm
    rw [List.mem_cons, or_iff_right fun h => hne (Holding.taken.inj h).2.2]

theorem given_taken {q : Pool Nat} {b' : Bool} (hq : (w.anchor t).2.given i = some (q, b')) (r u : Nat) :
    q.get? r = some u ↔ ∃ id, .taken id ⟨i, u⟩ r ∈ .taken w.anchors.next t p.next :: es ∧
      .released id ∉ .taken w.anchors.next t p.next :: es := by
  rw [(anchor_given hg).2 i] at hq
  split at hq
  next hi =>
    subst hi
    obtain ⟨rfl, -⟩ := Prod.mk.inj (Option.some.inj hq)
    exact hw.pushed_taken hg r u
  next hi =>
    rw [hw.given i q b' hq r u]
    refine exists_congr fun id => and_congr ?_ (by simp)
    rw [List.mem_cons, or_iff_right fun h => hi (congrArg StackId.vm (Holding.taken.inj h).2.1).symm]

theorem closed_taken {q : Pool Nat} {b' : Bool} (hq : (w.anchor t).2.given i = some (q, b')) :
    b' = true ↔ .disowned i ∈ .taken w.anchors.next t p.next :: es := by
  rw [List.mem_cons, or_iff_right nofun]
  rw [(anchor_given hg).2 i] at hq
  split at hq
  next hi =>
    subst hi
    obtain ⟨-, rfl⟩ := Prod.mk.inj (Option.some.inj hq)
    exact hw.closed _ p b hg
  next => exact hw.closed i q b' hq

theorem fresh_taken {u : StackId} {r : Nat} (hm : .taken id u r ∈ .taken w.anchors.next t p.next :: es) :
    id < (w.anchor t).2.anchors.next ∧ ∃ q b', (w.anchor t).2.given u.vm = some (q, b') ∧ r < q.next := by
  have hnext : (w.anchors.push ⟨t, p.next, 1⟩).next = w.anchors.next + 1 := Array.size_push _
  have hpnext : (p.push t.thread).next = p.next + 1 := Array.size_push _
  rw [(anchor_given hg).1, hnext, (anchor_given hg).2]
  rcases List.mem_cons.mp hm with he | hm
  · cases he
    rw [if_pos rfl]
    exact ⟨Nat.lt_succ_self _, _, _, rfl, by omega⟩
  · obtain ⟨hlt, q, c, hq, hrlt⟩ := hw.fresh id u r hm
    refine ⟨Nat.lt_succ_of_lt hlt, ?_⟩
    split
    next hi =>
      rw [← hi, hg] at hq
      obtain ⟨rfl, rfl⟩ := Prod.mk.inj (Option.some.inj hq)
      exact ⟨_, _, rfl, by omega⟩
    next => exact ⟨q, c, hq, hrlt⟩

/-- A handle that is made has the next number, and the next reference. -/
theorem taken : (w.anchor t).2.Moored (.taken w.anchors.next t p.next :: es) where
  orderly := .taken hw.orderly hw.untaken fun id _ hu => hw.unreferenced hg id hu
  anchors := hw.anchors_taken hg
  given _ _ _ := hw.given_taken hg
  closed _ _ _ := hw.closed_taken hg
  fresh _ _ _ := hw.fresh_taken hg
  made i hm := by
    rw [(anchor_given hg).2 i]
    split
    · exact Option.some_ne_none _
    · exact hw.made i (by simpa using hm)

end Moored

theorem Moored.of_anchor (hw : w.Moored es) {a : Anchor} (ha : w.anchors.get? id = some a) :
    .taken id a.thread a.reference ∈ es ∧ 0 < a.strong ∧ clones es id = a.strong :=
  (hw.anchors id _ _ _).mp ha

/-- The number of clones of one handle changes; with the last one the handle goes. -/
theorem Moored.recounted (hw : w.Moored es) {e : Holding} {a : Anchor} {m : Nat}
    (ha : w.anchors.get? id = some a) (ho : Orderly (e :: es)) (ht : ∀ j t r, e ≠ .taken j t r)
    (hr : ∀ j, e ≠ .released j) (hd : ∀ i, e ≠ .disowned i)
    (hc : ∀ j, clones (e :: es) j = if id = j then m else clones es j)
    (hanchors : ∀ j, w'.anchors.get? j =
      if id = j then (if m = 0 then none else some { a with strong := m }) else w.anchors.get? j)
    (hnext : w'.anchors.next = w.anchors.next) (hgiven : ∀ i, w'.given i = w.given i) :
    w'.Moored (e :: es) := by
  have htaken : ∀ j t r, .taken j t r ∈ e :: es ↔ .taken j t r ∈ es := fun j t r => by
    rw [List.mem_cons, or_iff_right fun h => ht j t r h.symm]
  obtain ⟨hmem, -, -⟩ := hw.of_anchor ha
  refine ⟨ho, fun j t r n => ?_, fun i p b => ?_, fun i p b => ?_, fun j t r hm => ?_, fun i hm => ?_⟩
  · rw [hanchors, htaken, hc]
    split
    next hj =>
      subst hj
      constructor
      · intro h
        split at h
        · cases h
        next hm =>
          obtain ⟨rfl, rfl, rfl⟩ := Anchor.mk.inj (Option.some.inj h)
          exact ⟨hmem, Nat.pos_of_ne_zero hm, rfl⟩
      · rintro ⟨h, hn, rfl⟩
        obtain ⟨rfl, rfl⟩ := ho.taken_once ((htaken _ _ _).mpr h) ((htaken _ _ _).mpr hmem)
        rw [if_neg (by omega)]
    next => exact hw.anchors j t r n
  · rw [hgiven]
    intro hg r t
    rw [hw.given i p b hg r t]
    refine exists_congr fun j => and_congr (htaken _ _ _).symm (not_congr ?_)
    rw [List.mem_cons, or_iff_right fun h => hr j h.symm]
  · rw [hgiven, List.mem_cons, or_iff_right fun h => hd i h.symm]
    exact hw.closed i p b
  · rw [hnext, hgiven]
    exact hw.fresh j t r ((htaken _ _ _).mp hm)
  · rw [hgiven]
    exact hw.made i ((List.mem_cons.mp hm).resolve_left fun h => hd i h.symm)

theorem Moored.cloned (hw : w.Moored es) {h : ThreadHandle} {a : Anchor}
    (ha : w.anchors.get? h.anchor = some a) :
    (w.retain (.thread h)).Moored (.cloned h.anchor :: es) := by
  obtain ⟨-, hpos, hc⟩ := hw.of_anchor ha
  refine hw.recounted (m := a.strong + 1) ha (.cloned hw.orderly (hc ▸ hpos)) nofun nofun nofun
    (fun j => ?_) (fun j => ?_) ?_ fun _ => rfl
  · rw [clones]
    split
    next hj => rw [← hj, hc]
    next => rfl
  · refine (Pool.get?_modify w.anchors h.anchor j _).trans ?_
    split
    next hj =>
      subst hj
      rw [ha]
      rfl
    next => rfl
  · exact Array.size_modify

theorem Moored.dropped (hw : w.Moored es) {a : Anchor} (ha : w.anchors.get? id = some a)
    (hs : 1 < a.strong) : (w.releaseAnchor id).Moored (.dropped id :: es) := by
  obtain ⟨-, -, hc⟩ := hw.of_anchor ha
  have hrelease : w.releaseAnchor id =
      { w with anchors := w.anchors.set id { a with strong := a.strong - 1 } } := by
    unfold releaseAnchor
    rw [ha]
    exact if_neg (by omega)
  rw [hrelease]
  refine hw.recounted (m := a.strong - 1) ha (.dropped hw.orderly (by omega)) nofun nofun nofun
    (fun j => ?_) (fun j => ?_) (Array.size_setIfInBounds) fun _ => rfl
  · rw [clones]
    split
    next hj => rw [← hj, hc]
    next => rfl
  · refine (Pool.get?_set (Pool.lt_next ha) j _).trans ?_
    rw [if_neg (show ¬ a.strong - 1 = 0 by omega)]

/-- The last clone of a handle goes. -/
theorem releaseAnchor_last {a : Anchor} (ha : w.anchors.get? id = some a) (hs : a.strong ≤ 1) :
    (w.releaseAnchor id).anchors = w.anchors.erase id ∧
      (∀ i p b, w.given i = some (p, b) → (w.releaseAnchor id).given i =
        some (if a.thread.vm = i ∧ b = false then p.erase a.reference else p, b)) ∧
      ∀ i, w.given i = none → (w.releaseAnchor id).given i = none := by
  have hrelease : w.releaseAnchor id =
      ({ w with anchors := w.anchors.erase id } : World σ μ).modifyInstance a.thread.vm fun x =>
        if x.closed then x else { x with references := x.references.erase a.reference } := by
    unfold releaseAnchor
    rw [ha]
    exact if_pos hs
  rw [hrelease]
  refine ⟨rfl, fun i p b hg => ?_, fun i hg => ?_⟩
  · obtain ⟨x, hx, rfl, rfl⟩ := given_some.mp hg
    rw [given_modifyInstance]
    split
    next hi =>
      rw [show ({ w with anchors := w.anchors.erase id } : World σ μ).instances[i]? = some x from hx,
        Option.map_some]
      cases hc : x.closed <;> simp [hi, hc]
    next hi =>
      rw [if_neg fun h => hi h.1]
      exact hg
  · rw [given_modifyInstance]
    split
    · rw [show ({ w with anchors := w.anchors.erase id } : World σ μ).instances[i]? = none from
        Option.map_eq_none_iff.mp hg]
      rfl
    · exact hg

theorem releaseAnchor_gone {a : Anchor} (ha : w.anchors.get? id = some a) (hs : a.strong ≤ 1) (j : Nat) :
    (w.releaseAnchor id).anchors.get? j = if id = j then none else w.anchors.get? j := by
  rw [(releaseAnchor_last ha hs).1, Pool.get?_erase]

theorem releaseAnchor_next {a : Anchor} (ha : w.anchors.get? id = some a) (hs : a.strong ≤ 1) :
    (w.releaseAnchor id).anchors.next = w.anchors.next := by
  rw [(releaseAnchor_last ha hs).1]
  exact Array.size_setIfInBounds

theorem Moored.left (hw : w.Moored es) {a : Anchor} (ha : w.anchors.get? id = some a)
    (hs : a.strong ≤ 1) (hg : ∀ p, w.given a.thread.vm ≠ some (p, false)) :
    (w.releaseAnchor id).Moored (.left id :: es) := by
  obtain ⟨hm, hpos, hc⟩ := hw.of_anchor ha
  obtain ⟨-, p, b, hgiven, -⟩ := hw.fresh _ _ _ hm
  have hb : b = true := by
    cases b with
    | true => rfl
    | false => exact absurd hgiven (hg p)
  refine hw.recounted (m := 0) ha
    (.left hw.orderly (by omega) hm ((hw.closed _ p b hgiven).mp hb)) nofun nofun nofun (fun j => ?_)
    (releaseAnchor_gone ha hs) (releaseAnchor_next ha hs) fun i => ?_
  · rw [clones]
    split
    next hj => rw [← hj, hc]; omega
    next => rfl
  · obtain ⟨-, hsome, hnone⟩ := releaseAnchor_last ha hs
    cases hi : w.given i with
    | none => exact hnone i hi
    | some q =>
      refine (hsome i _ _ hi).trans ?_
      rw [if_neg]
      rintro ⟨rfl, hq⟩
      exact hg q.1 (by rw [hi, ← hq])

/-- What an interpreter has given out is what it had given out before, but for the reference of the handle. -/
theorem given_releaseAnchor {a : Anchor} (ha : w.anchors.get? id = some a) (hs : a.strong ≤ 1) {q : Pool Nat}
    {b : Bool} (h : (w.releaseAnchor id).given i = some (q, b)) : ∃ q', w.given i = some (q', b) ∧
      q = if a.thread.vm = i ∧ b = false then q'.erase a.reference else q' := by
  obtain ⟨-, hsome, hnone⟩ := releaseAnchor_last ha hs
  cases hi : w.given i with
  | none => cases (hnone i hi).symm.trans h
  | some g =>
    obtain ⟨hq, rfl⟩ := Prod.mk.inj (Option.some.inj ((hsome i _ _ hi).symm.trans h))
    exact ⟨g.1, rfl, hq.symm⟩

namespace Moored

variable (hw : w.Moored es) {a : Anchor} (ha : w.anchors.get? id = some a) (hs : a.strong ≤ 1)

include hw ha hs

theorem anchors_released (j : Nat) (t : StackId) (r n : Nat) :
    (w.releaseAnchor id).anchors.get? j = some ⟨t, r, n⟩ ↔
      .taken j t r ∈ .released id :: es ∧ 0 < n ∧ clones (.released id :: es) j = n := by
  obtain ⟨-, hpos, hc⟩ := hw.of_anchor ha
  rw [releaseAnchor_gone ha hs, List.mem_cons, or_iff_right nofun, clones]
  split
  next hj =>
    subst hj
    rw [hc]
    exact iff_of_false (Option.some_ne_none _).symm fun h => by omega
  next => exact hw.anchors j t r n

variable {p : Pool Nat} (hg : w.given a.thread.vm = some (p, false))

include hg

theorem given_released {q : Pool Nat} {b : Bool} (hq : (w.releaseAnchor id).given i = some (q, b))
    (r u : Nat) : q.get? r = some u ↔
      ∃ j, .taken j ⟨i, u⟩ r ∈ .released id :: es ∧ .released j ∉ .released id :: es := by
  obtain ⟨hm, -, -⟩ := hw.of_anchor ha
  have htaken : ∀ {j t r}, .taken j t r ∈ .released id :: es ↔ .taken j t r ∈ es := by simp
  obtain ⟨q', hq', rfl⟩ := given_releaseAnchor ha hs hq
  by_cases he : a.thread.vm = i ∧ a.reference = r
  · obtain ⟨rfl, rfl⟩ := he
    obtain ⟨-, rfl⟩ := Prod.mk.inj (Option.some.inj (hq'.symm.trans hg))
    rw [if_pos ⟨rfl, rfl⟩, Pool.get?_erase, if_pos rfl]
    refine iff_of_false (Option.some_ne_none _).symm ?_
    rintro ⟨j, hj, hnot⟩
    rw [hw.orderly.reference_once hm (htaken.mp hj) rfl] at hnot
    exact hnot List.mem_cons_self
  · have hsame : (if a.thread.vm = i ∧ b = false then q'.erase a.reference else q').get? r = q'.get? r := by
      split
      next hi => rw [Pool.get?_erase, if_neg fun h => he ⟨hi.1, h⟩]
      next => rfl
    rw [hsame, hw.given i q' b hq' r u]
    refine exists_congr fun j => ?_
    rw [htaken]
    refine and_congr_right fun hj => not_congr ?_
    rw [List.mem_cons, or_iff_right]
    intro h
    obtain rfl := Holding.released.inj h
    obtain ⟨ht, hr⟩ := hw.orderly.taken_once hm hj
    exact he ⟨congrArg StackId.vm ht, hr⟩

/-- The reference of the last clone is no longer held, and all others still are. -/
theorem released : (w.releaseAnchor id).Moored (.released id :: es) := by
  obtain ⟨hm, hpos, hc⟩ := hw.of_anchor ha
  obtain ⟨-, hsome, -⟩ := releaseAnchor_last ha hs
  have howner : .disowned a.thread.vm ∉ es := fun h => nomatch (hw.closed _ p false hg).mpr h
  refine ⟨.released hw.orderly (by omega) hm howner, hw.anchors_released ha hs,
    fun _ _ _ => hw.given_released ha hs hg, fun i q b hq => ?_, fun j t r hj => ?_, fun i hi => ?_⟩
  · obtain ⟨q', hq', -⟩ := given_releaseAnchor ha hs hq
    rw [hw.closed i q' b hq']
    simp
  · obtain ⟨hlt, q, b, hq, hr⟩ := hw.fresh j t r (by simpa using hj)
    refine ⟨by rwa [releaseAnchor_next ha hs], _, b, hsome _ q b hq, ?_⟩
    split
    · exact Nat.lt_of_lt_of_eq hr Array.size_setIfInBounds.symm
    · exact hr
  · obtain ⟨g, hgi⟩ := Option.ne_none_iff_exists'.mp (hw.made i (by simpa using hi))
    rw [hsome i g.1 g.2 hgi]
    exact Option.some_ne_none _

end Moored

theorem given_disown (w : World σ μ) (j : Nat) {p : Pool Nat} {b : Bool}
    (h : (w.disown j).given i = some (p, b)) :
    ∃ b', w.given i = some (p, b') ∧ b = if j = i then true else b' := by
  have hd : (w.disown j).given i = (w.modifyInstance j ({ · with closed := true })).given i := rfl
  rw [hd, given_modifyInstance] at h
  split at h
  next hj =>
    obtain ⟨x, hx, he⟩ := Option.map_eq_some_iff.mp h
    obtain ⟨rfl, rfl⟩ := Prod.mk.inj he
    exact ⟨x.closed, given_some.mpr ⟨x, hx, rfl, rfl⟩, (if_pos hj).symm⟩
  next hj => exact ⟨b, h, (if_neg hj).symm⟩

theorem given_disown_some (w : World σ μ) (j : Nat) {p : Pool Nat} {b : Bool}
    (h : w.given i = some (p, b)) : ∃ b', (w.disown j).given i = some (p, b') := by
  have hd : (w.disown j).given i = (w.modifyInstance j ({ · with closed := true })).given i := rfl
  rw [hd, given_modifyInstance]
  obtain ⟨x, hx, rfl, -⟩ := given_some.mp h
  split
  · exact ⟨true, by rw [hx]; rfl⟩
  · exact ⟨b, h⟩

theorem Moored.disowned (hw : w.Moored es) {p : Pool Nat} (hg : w.given i = some (p, false)) :
    (w.disown i).Moored (.disowned i :: es) := by
  have howner : .disowned i ∉ es := fun h => nomatch (hw.closed _ p false hg).mpr h
  have htaken : ∀ {j t r}, .taken j t r ∈ .disowned i :: es ↔ .taken j t r ∈ es := by simp
  refine ⟨.disowned hw.orderly howner, fun j t r n => ?_, fun k q b hq r u => ?_, fun k q b hq => ?_,
    fun j t r hj => ?_, fun k hk => ?_⟩
  · rw [htaken]
    exact hw.anchors j t r n
  · obtain ⟨b', hq', -⟩ := given_disown w i hq
    rw [hw.given k q b' hq' r u]
    exact exists_congr fun j => and_congr htaken.symm (by simp)
  · obtain ⟨b', hq', rfl⟩ := given_disown w i hq
    rw [List.mem_cons, ← hw.closed k q b' hq']
    by_cases hk : i = k
    · rw [if_pos hk, hk]
      simp
    · rw [if_neg hk, or_iff_right fun h => hk (Holding.disowned.inj h).symm]
  · obtain ⟨hlt, q, b, hq, hr⟩ := hw.fresh j t r (htaken.mp hj)
    obtain ⟨b', hq'⟩ := given_disown_some w i hq
    exact ⟨hlt, q, b', hq', hr⟩
  · have hsome : w.given k ≠ none := by
      rcases List.mem_cons.mp hk with he | hk
      · obtain rfl := Holding.disowned.inj he
        rw [hg]
        exact nofun
      · exact hw.made k hk
    obtain ⟨g, hgk⟩ := Option.ne_none_iff_exists'.mp hsome
    obtain ⟨b', hq'⟩ := given_disown_some w i hgk
    rw [hq']
    exact nofun

/-- What is moored before an event is moored after it. -/
theorem Moored.turn (hw : w.Moored es) (h : Turn w fs w') : w'.Moored (fs ++ es) := by
  cases h with
  | unheld h => exact hw.unheld h
  | born vm name => exact hw.born vm name
  | taken t hg => exact hw.taken hg
  | cloned h ha => exact hw.cloned ha
  | dropped ha hs => exact hw.dropped ha hs
  | released ha hs hg => exact hw.released ha hs hg
  | left ha hs hg => exact hw.left ha hs hg
  | disowned hg => exact hw.disowned hg

theorem Moored.trail (hw : w.Moored es) (h : Trail w fs w') : w'.Moored (fs ++ es) := by
  induction h with
  | refl => exact hw
  | tail _ k ih =>
    rw [List.append_assoc]
    exact ih.turn k

theorem moored_start (m : μ) (f : Notice → μ → μ) (due : Nat → Vm → Bool) :
    Moored (start m f due : World σ μ) [] where
  orderly := .start
  anchors _ _ _ _ := by simp [start, Pool.get?]
  given _ _ _ h := nomatch h
  closed _ _ _ h := nomatch h
  fresh _ _ _ h := nomatch h
  made _ h := nomatch h

end World
end LuaEmbed
