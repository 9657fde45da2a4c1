import LuaEmbed.Host.Marshal
import LuaEmbed.Proofs.Sweeping
import Mathlib.Data.List.Dedup
import Mathlib.Logic.Relation

/-!
The references to host objects, as an account of what has happened to them. Work of the engine changes
neither the numbers of references nor what userdata carry; what does change them goes one entry at a time,
and after every entry the account is still right: an object's number of references is that of its owners on
the host's side and of the userdata that have not been finalized, and a userdata that has not been is to be
finalized, unless it is exempt.
-/
namespace LuaEmbed

open Engine Owning

variable {σ μ : Type}

namespace World

/-- The number of references to a host object. -/
def strong (w : World σ μ) : Asset → Nat
  | .function id => ((w.functions.get? id).map Counted.strong).getD 0
  | .foreign id => ((w.foreigns.get? id).map Counted.strong).getD 0

variable {w w' w₁ : World σ μ} {v : Value} {x : Asset}

theorem strong_congr (hf : w'.functions = w.functions) (ho : w'.foreigns = w.foreigns) (x : Asset) :
    w'.strong x = w.strong x := by
  cases x with
  | function id => rw [strong, strong, hf]
  | foreign id => rw [strong, strong, ho]

/-! ### Numbers of references -/

theorem get?_recount {β : Type} (p : Pool (Counted β)) (id n : Nat) (f : Nat → Nat) :
    (recount p id f).get? n = if id = n then (p.get? n).bind fun c =>
      if f c.strong = 0 then none else some { c with strong := f c.strong } else p.get? n := by
  unfold recount Pool.get?
  dsimp only
  rw [Array.getElem?_modify]
  split
  · cases p.items[n]? <;> rfl
  · rfl

/-- The number of references after a change of one of them. -/
theorem strong_recount {β : Type} (p : Pool (Counted β)) (id n : Nat) (f : Nat → Nat) :
    (((recount p id f).get? n).map Counted.strong).getD 0 =
      if id = n then ((p.get? n).map fun c => f c.strong).getD 0
      else ((p.get? n).map Counted.strong).getD 0 := by
  rw [get?_recount]
  split
  · cases p.get? n with
    | none => rfl
    | some c =>
      dsimp only [Option.bind_some, Option.map_some]
      split
      next h => simp [h]
      next => rfl
  · rfl

theorem strong_retain (hv : v.asset? = some x) (hx : 0 < w.strong x) (y : Asset) :
    (w.retain v).strong y = w.strong y + if x = y then 1 else 0 := by
  have hcount : ∀ {β : Type} (p : Pool (Counted β)) (id n : Nat),
      0 < ((p.get? id).map Counted.strong).getD 0 →
      (((recount p id (· + 1)).get? n).map Counted.strong).getD 0 =
        ((p.get? n).map Counted.strong).getD 0 + if id = n then 1 else 0 := by
    intro β p id n hpos
    rw [strong_recount]
    split
    next hn =>
      subst hn
      cases hp : p.get? id with
      | none => simp [hp] at hpos
      | some c => rfl
    next => rfl
  cases v with
  | function shape id =>
    obtain rfl := Option.some.inj hv
    cases y with
    | function n => simpa [retain, strong] using hcount w.functions id n hx
    | foreign n => simp [retain, strong]
  | foreign id =>
    obtain rfl := Option.some.inj hv
    cases y with
    | function n => simp [retain, strong]
    | foreign n => simpa [retain, strong] using hcount w.foreigns id n hx
  | _ => cases hv

theorem strong_release (hv : v.asset? = some x) (y : Asset) :
    (w.release v).strong y = w.strong y - if x = y then 1 else 0 := by
  have hcount : ∀ {β : Type} (p : Pool (Counted β)) (id n : Nat),
      (((recount p id (· - 1)).get? n).map Counted.strong).getD 0 =
        ((p.get? n).map Counted.strong).getD 0 - if id = n then 1 else 0 := by
    intro β p id n
    rw [strong_recount]
    split
    · cases p.get? n <;> rfl
    · rfl
  cases v with
  | function shape id =>
    obtain rfl := Option.some.inj hv
    cases y with
    | function n => simpa [release, strong] using hcount w.functions id n
    | foreign n => simp [release, strong]
  | foreign id =>
    obtain rfl := Option.some.inj hv
    cases y with
    | function n => simp [release, strong]
    | foreign n => simpa [release, strong] using hcount w.foreigns id n
  | _ => cases hv

/-- What a userdata carried is let go of as a value is. -/
theorem releasePayload_eq {p : Payload} (hp : p.asset? = some x) :
    ∃ v : Value, v.asset? = some x ∧ w.releasePayload p = w.release v := by
  cases p with
  | function isList id =>
    obtain ⟨n, rfl, rfl⟩ := Option.map_eq_some_iff.mp hp
    exact ⟨.function .raw n, rfl, rfl⟩
  | foreign id =>
    obtain ⟨n, rfl, rfl⟩ := Option.map_eq_some_iff.mp hp
    exact ⟨.foreign n, rfl, rfl⟩
  | _ => cases hp

theorem strong_releasePayload {p : Payload} (hp : p.asset? = some x) (y : Asset) :
    (w.releasePayload p).strong y = w.strong y - if x = y then 1 else 0 := by
  obtain ⟨v, hv, hw⟩ := releasePayload_eq (w := w) hp
  rw [hw]
  exact strong_release hv y

theorem instances_retain (w : World σ μ) (v : Value) :
    (w.retain v).instances = w.instances ∧ (w.retain v).history = w.history := by
  cases v <;> exact ⟨rfl, rfl⟩

theorem instances_release (hv : v.asset? = some x) :
    (w.release v).instances = w.instances ∧ (w.release v).history = w.history := by
  cases v with
  | thread => cases hv
  | _ => exact ⟨rfl, rfl⟩

theorem instances_releasePayload (p : Payload) :
    (w.releasePayload p).instances = w.instances ∧ (w.releasePayload p).history = w.history := by
  unfold releasePayload
  split <;> exact ⟨rfl, rfl⟩

theorem strong_newForeign (payload : String) (y : Asset) :
    w.strong (.foreign w.foreigns.next) = 0 ∧ (w.newForeign payload).2.strong y =
      w.strong y + if .foreign w.foreigns.next = y then 1 else 0 := by
  have hnext : w.strong (.foreign w.foreigns.next) = 0 := by rw [strong, Pool.get?_next]; rfl
  refine ⟨hnext, ?_⟩
  cases y with
  | function id => simp [strong, newForeign]
  | foreign id =>
    by_cases h : id = w.foreigns.next
    · subst h
      simp [hnext]
      simp [strong, newForeign, Pool.get?_push]
    · simp [strong, newForeign, Pool.get?_push, h, Ne.symm h]

theorem strong_newFunction (shape : FunctionShape) (code : σ) (y : Asset) :
    w.strong (.function w.functions.next) = 0 ∧ (w.newFunction shape code).2.strong y =
      w.strong y + if .function w.functions.next = y then 1 else 0 := by
  have hnext : w.strong (.function w.functions.next) = 0 := by rw [strong, Pool.get?_next]; rfl
  refine ⟨hnext, ?_⟩
  cases y with
  | foreign id => simp [strong, newFunction]
  | function id =>
    by_cases h : id = w.functions.next
    · subst h
      simp [hnext]
      simp [strong, newFunction, Pool.get?_push]
    · simp [strong, newFunction, Pool.get?_push, h, Ne.symm h]

/-! ### Where userdata are -/

theorem heap_congr (hi : w'.instances = w.instances) (i : Nat) : w'.heap i = w.heap i := by
  rw [heap, heap, vm, vm, hi]

/-- Outside of an interpreter nothing has happened to host objects or to what carries them. -/
structure Confines (i : Nat) (w w' : World σ μ) : Prop where
  heaps : ∀ j, j ≠ i → (w.heap j).Carries (w'.heap j)
  functions : w'.functions = w.functions
  foreigns : w'.foreigns = w.foreigns
  closed : ∀ j, .closed j ∈ w'.history ↔ .closed j ∈ w.history

theorem Confines.trans {i : Nat} (h : w.Confines i w₁) (k : w₁.Confines i w') : w.Confines i w' :=
  ⟨fun j hj => (h.heaps j hj).trans (k.heaps j hj), k.functions.trans h.functions,
    k.foreigns.trans h.foreigns, fun j => (k.closed j).trans (h.closed j)⟩

/-- What engine work keeps of every heap is kept of all, if it is of that one. -/
theorem Confines.all {i : Nat} (hs : w.Confines i w') {P : Heap → Heap → Prop}
    (hP : ∀ {h h' : Heap}, h.Carries h' → P h h') (hi : P (w.heap i) (w'.heap i)) (j : Nat) :
    P (w.heap j) (w'.heap j) := by
  by_cases h : j = i
  · exact h ▸ hi
  · exact hP (hs.heaps j h)

section

variable {i : Nat} (hs : w.Confines i w')

include hs

theorem Confines.listed (hi : (w.heap i).finalizable ⊆ (w'.heap i).finalizable) (j : Nat) :
    (w.heap j).finalizable ⊆ (w'.heap j).finalizable :=
  hs.all (P := fun h h' => h.finalizable ⊆ h'.finalizable) (fun h => h.listed) hi j

theorem Confines.collecting (hi : (w'.heap i).collecting = (w.heap i).collecting) (j : Nat) :
    (w'.heap j).collecting = (w.heap j).collecting :=
  hs.all (P := fun h h' => h'.collecting = h.collecting) (fun h => h.collecting) hi j

theorem Confines.closing (hi : (w'.heap i).closing = (w.heap i).closing) (j : Nat) :
    (w'.heap j).closing = (w.heap j).closing :=
  hs.all (P := fun h h' => h'.closing = h.closing) (fun h => h.closing) hi j

end

/-- Nothing has happened to host objects or to what carries them. -/
structure Bears (w w' : World σ μ) : Prop where
  heaps : ∀ i, (w.heap i).Carries (w'.heap i)
  functions : w'.functions = w.functions
  foreigns : w'.foreigns = w.foreigns
  closed : ∀ i, .closed i ∈ w'.history ↔ .closed i ∈ w.history

theorem Bears.refl (w : World σ μ) : w.Bears w := ⟨fun _ => .refl _, rfl, rfl, fun _ => Iff.rfl⟩

theorem Bears.trans (h : w.Bears w₁) (k : w₁.Bears w') : w.Bears w' :=
  ⟨fun i => (h.heaps i).trans (k.heaps i), k.functions.trans h.functions,
    k.foreigns.trans h.foreigns, fun i => (k.closed i).trans (h.closed i)⟩

/-- Why the turn of a userdata to be finalized passes, on a thread: what its metatable has as a finalizer by
then is no collector of the bridge, or the engine refuses the call, as calls are nested too deeply or the
stack cannot grow. -/
inductive Balks (w : World σ μ) (c : Context) (n : Nat) : Prop where
  | replaced (h : ∀ b ∈ [Builtin.collectRaw, .collectList, .collectForeign],
      (w.heap c.vm).metafield (.userdata n) "__gc" ≠ .builtin b)
  | nested (h : (w.thread c).top.depth + 1 = Vm.maxNesting ∨ Vm.maxHandling ≤ (w.thread c).top.depth + 1)
  | cramped (h : ((w.vm c.vm).makeRoom c.thread ((w.thread c).top.used + 2) Thread.minRoom).2 ≠ none)

/-- Why a userdata is not finalized, or not when its turn comes, by what happens between two worlds. -/
inductive Excuses (w w' : World σ μ) (k : Carrier) : Prop where
  /-- It is pushed when the interpreter is being closed, or has been. -/
  | late (h : .closed k.vm ∈ w.history)
  /-- It is pushed under a metatable without a finalizer. -/
  | bare (h : (w'.heap k.vm).metafield (.userdata k.userdata) "__gc" = .nil)
  /-- There is no interpreter to push it to. -/
  | nowhere (h : w.instances[k.vm]? = none)
  /-- Its turn passes. -/
  | balked (c : Context) (hc : c.vm = k.vm) (h : w.Balks c k.userdata)
  /-- The interpreter is closed in the middle of a collection. -/
  | overtaken (h : (w.heap k.vm).collecting = true) (hc : .closed k.vm ∈ w'.history)

end World

/-- A world, with what has happened to host objects until then. -/
structure Account (σ μ : Type) where
  world : World σ μ
  events : List Owning

/-- What can happen next, as far as host objects are concerned. -/
inductive Entry : Account σ μ → Account σ μ → Prop where
  | still {w w' es} (h : w.Bears w') : Entry ⟨w, es⟩ ⟨w', es⟩
  | madeForeign {w es} (payload : String) :
    Entry ⟨w, es⟩ ⟨(w.newForeign payload).2, .made (.foreign w.foreigns.next) :: es⟩
  | madeFunction {w es} (shape : FunctionShape) (code : σ) :
    Entry ⟨w, es⟩ ⟨(w.newFunction shape code).2, .made (.function w.functions.next) :: es⟩
  | kept {w es v x} (hv : v.asset? = some x) : Entry ⟨w, es⟩ ⟨w.retain v, .kept x :: es⟩
  | dropped {w es v x} (hv : v.asset? = some x) : Entry ⟨w, es⟩ ⟨w.release v, .dropped x :: es⟩
  /-- A userdata is pushed. The engine is going to finalize it, if its metatable has a finalizer and the
  interpreter is not being closed. -/
  | pushed {w w' es v k enlisted} (hv : v.asset? = some k.asset) (hs : (w.retain v).Confines k.vm w')
    (hg : (w.heap k.vm).Admits k.userdata k.asset (w'.heap k.vm))
    (he : enlisted = true ↔ .userdata k.userdata ∈ (w'.heap k.vm).finalizable ∧ .closed k.vm ∉ w.history) :
    Entry ⟨w, es⟩ ⟨w', .pushed k enlisted :: es⟩
  /-- There is no interpreter to push it to. -/
  | vain {w es v k} (hv : v.asset? = some k.asset) (hi : w.instances[k.vm]? = none) :
    Entry ⟨w, es⟩ ⟨w.retain v, .lost k :: .pushed k false :: es⟩
  | finalized {w w' es k p} (hp : p.asset? = some k.asset) (hs : w.Confines k.vm w')
    (he : (w.heap k.vm).Empties k.userdata p (w'.heap k.vm)) :
    Entry ⟨w, es⟩ ⟨w'.releasePayload p, .finalized k :: es⟩
  | missed {w es k c} (hk : k ∈ waiting es) (hc : c.vm = k.vm) (hb : w.Balks c k.userdata) :
    Entry ⟨w, es⟩ ⟨w, .missed k :: es⟩
  /-- A collection frees userdata, and hands out those that are now to be finalized. -/
  | swept {w w' es i lost} {dues losts : List Carrier} (hs : w.Confines i w')
    (hh : (w.heap i).Sweeps lost (w'.heap i)) (hb : (w.heap i).collecting = false)
    (hc : (w'.heap i).collecting = true)
    (hd : ∀ k, k ∈ dues ↔ k ∈ standing es ∧ k.vm = i ∧ .userdata k.userdata ∈ lost)
    (hl : ∀ k, k ∈ losts ↔ k ∈ standing es ∧ k.vm = i ∧ (w'.heap i).carried? k.userdata = none)
    (hn : losts.Nodup) : Entry ⟨w, es⟩ ⟨w', losts.map .lost ++ (dues.map .due ++ es)⟩
  /-- A collection is over. -/
  | settled {w w' es i} (hs : w.Confines i w') (hc : ∀ n, (w'.heap i).carried? n = (w.heap i).carried? n)
    (hf : (w.heap i).finalizable ⊆ (w'.heap i).finalizable)
    (hl : (w'.heap i).closing = (w.heap i).closing) (hw : ∀ k ∈ waiting es, k.vm ≠ i) :
    Entry ⟨w, es⟩ ⟨w', es⟩
  /-- An interpreter begins to close, and everything in it is now to be finalized. If that is in the middle of
  a collection, the turns that this has still to give pass. -/
  | closing {w w' es i} {dues misses : List Carrier} (hs : ∀ j, j ≠ i → (w.heap j).Carries (w'.heap j))
    (hf : w'.functions = w.functions) (ho : w'.foreigns = w.foreigns)
    (hh : ∀ j, .closed j ∈ w'.history ↔ j = i ∨ .closed j ∈ w.history)
    (hc : ∀ n, (w'.heap i).carried? n = (w.heap i).carried? n)
    (hb : ∀ k ∈ standing es, k.vm = i → (w'.heap i).collecting = true)
    (hd : ∀ k, k ∈ dues ↔ k ∈ standing es ∧ k.vm = i ∧ .userdata k.userdata ∈ (w.heap i).finalizable)
    (hm : ∀ k, k ∈ misses ↔ k ∈ waiting es ∧ k.vm = i) (hn : misses.Nodup) :
    Entry ⟨w, es⟩ ⟨w', dues.map .due ++ (misses.map .missed ++ es)⟩
  /-- An interpreter is freed, with what is left of it. -/
  | freed {w w' es i} {losts : List Carrier} (hs : w.Confines i w') (hc : ∀ n, (w'.heap i).carried? n = none)
    (hh : .closed i ∈ w.history) (hw : ∀ k ∈ waiting es, k.vm ≠ i)
    (hl : ∀ k, k ∈ losts ↔ k ∈ standing es ∧ k.vm = i) (hn : losts.Nodup) :
    Entry ⟨w, es⟩ ⟨w', losts.map .lost ++ es⟩

end LuaEmbed
