import LuaEmbed.Host.Program
import LuaEmbed.Proofs.Granting
import LuaEmbed.Proofs.Lifecycle

/-!
Working on an interpreter whose owner has let go of it. Hardly anything asks whether there is an
owner, and nothing what has been on record; an operation that does not ask does the same with and
without one.
-/
namespace LuaEmbed

open Engine World

/-- What a world may have lost: the owner of an interpreter, and with it the beginning of its record, in whose
place there is another one. -/
structure Loss where
  owner : Option Nat
  record : List Happening

/-- A value is no thread whose owner is lost. -/
def Loss.Spares (l : Loss) : Value → Prop
  | .thread q => l.owner ≠ some q.thread.vm
  | _ => True

theorem Loss.spares_of_plain {l : Loss} {v : Value} (hv : v.asThread? = none) : l.Spares v := by
  cases v with
  | thread q => cases hv
  | _ => trivial

variable {σ μ α β : Type} {l : Loss} {i j : Nat} {c d : Context} {w w' : World σ μ}

namespace World

/-- A world with a loss. -/
def without (w : World σ μ) (l : Loss) : World σ μ :=
  { w with
    instances :=
      match l.owner with
      | some i => w.instances.modify i ({ · with closed := true })
      | none => w.instances
    history := w.history ++ l.record }

theorem instances_without (w : World σ μ) (l : Loss) (j : Nat) :
    (w.without l).instances[j]? =
      if l.owner = some j then (w.instances[j]?).map ({ · with closed := true }) else w.instances[j]? := by
  unfold without
  cases l.owner with
  | none => rfl
  | some i =>
    dsimp only
    rw [Array.getElem?_modify]
    exact if_ctx_congr (Option.some_inj).symm (fun _ => rfl) fun _ => rfl

@[simp] theorem vm_without (w : World σ μ) (l : Loss) (j : Nat) : (w.without l).vm j = w.vm j := by
  unfold vm
  rw [instances_without]
  split
  · cases w.instances[j]? <;> rfl
  · rfl

@[simp] theorem heap_without (w : World σ μ) (l : Loss) (j : Nat) : (w.without l).heap j = w.heap j := by
  unfold heap
  rw [vm_without]

@[simp] theorem thread_without (w : World σ μ) (l : Loss) (c : Context) :
    (w.without l).thread c = w.thread c := by
  unfold thread
  rw [vm_without]

@[simp] theorem slots_without (w : World σ μ) (l : Loss) (c : Context) :
    (w.without l).slots c = w.slots c := by
  unfold slots
  rw [thread_without]

@[simp] theorem depth_without (w : World σ μ) (l : Loss) (c : Context) :
    (w.without l).depth c = w.depth c := by
  unfold depth
  rw [thread_without]

@[simp] theorem at_without (w : World σ μ) (l : Loss) (c : Context) (pos : Int) :
    (w.without l).at_ c pos = w.at_ c pos := by
  unfold at_
  rw [slots_without]

@[simp] theorem displayName_without (w : World σ μ) (l : Loss) (c : Context) (v : Val) :
    (w.without l).displayName c v = w.displayName c v :=
  displayName_congr (heap_without w l c.vm) v

@[simp] theorem describe_without (w : World σ μ) (l : Loss) (c : Context) (v : Val) :
    (w.without l).describe c v = w.describe c v := describe_congr (heap_without w l c.vm) v

/-- What the bridge keeps of an interpreter, but for whether it has an owner. -/
theorem instance?_without (w : World σ μ) (l : Loss) (j : Nat) {g : Instance → α}
    (hg : ∀ x : Instance, g { x with closed := true } = g x) :
    ((w.without l).instance? j).map g = (w.instance? j).map g := by
  unfold instance?
  rw [instances_without]
  split
  · rw [Option.map_map, show g ∘ _ = g from funext hg]
  · rfl

theorem instance?_without_of_ne (w : World σ μ) (h : l.owner ≠ some j) :
    (w.without l).instance? j = w.instance? j := by
  unfold instance?
  rw [instances_without, if_neg h]

theorem modifyInstance_comm (l : Loss) (j : Nat) {f : Instance → Instance}
    (hf : l.owner = some j → ∀ x : Instance, f { x with closed := true } = { f x with closed := true })
    (w : World σ μ) : (w.without l).modifyInstance j f = (w.modifyInstance j f).without l := by
  have hi : ((w.without l).modifyInstance j f).instances = ((w.modifyInstance j f).without l).instances := by
    apply Array.ext_getElem?
    intro k
    rw [instances_modifyInstance, instances_without, instances_without, instances_modifyInstance]
    split
    next hj =>
      subst hj
      split
      next ho =>
        cases w.instances[j]? with
        | none => rfl
        | some x => exact congrArg some (hf ho x)
      next => rfl
    next => rfl
  calc (w.without l).modifyInstance j f
      = { (w.modifyInstance j f).without l with
          instances := ((w.without l).modifyInstance j f).instances } := rfl
    _ = _ := by rw [hi]

/-- What has nothing to do with the owner. -/
theorem modifyInstance_without (w : World σ μ) (l : Loss) (j : Nat) {f : Instance → Instance}
    (hf : ∀ x : Instance, f { x with closed := true } = { f x with closed := true }) :
    (w.without l).modifyInstance j f = (w.modifyInstance j f).without l :=
  modifyInstance_comm l j (fun _ => hf) w

/-- What is done to an interpreter whose owner is there. -/
theorem modifyInstance_without_of_ne (w : World σ μ) {f : Instance → Instance} (h : l.owner ≠ some j) :
    (w.without l).modifyInstance j f = (w.modifyInstance j f).without l :=
  modifyInstance_comm l j (fun ho => absurd ho h) w

@[simp] theorem modifyVm_without (w : World σ μ) (l : Loss) (j : Nat) (f : Vm → Vm) :
    (w.without l).modifyVm j f = (w.modifyVm j f).without l :=
  modifyInstance_without w l j fun _ => rfl

@[simp] theorem modifyHeap_without (w : World σ μ) (l : Loss) (j : Nat) (f : Heap → Heap) :
    (w.without l).modifyHeap j f = (w.modifyHeap j f).without l := modifyVm_without w l j _

@[simp] theorem modifyThread_without (w : World σ μ) (l : Loss) (c : Context) (f : Thread → Thread) :
    (w.without l).modifyThread c f = (w.modifyThread c f).without l := modifyVm_without w l c.vm _

@[simp] theorem modifySlots_without (w : World σ μ) (l : Loss) (c : Context)
    (f : Array Val → Array Val) :
    (w.without l).modifySlots c f = (w.modifySlots c f).without l := modifyThread_without w l c _

@[simp] theorem push_without (w : World σ μ) (l : Loss) (c : Context) (v : Val) :
    (w.without l).push c v = (w.push c v).without l := modifySlots_without w l c _

@[simp] theorem truncate_without (w : World σ μ) (l : Loss) (c : Context) (n : Nat) :
    (w.without l).truncate c n = (w.truncate c n).without l := modifySlots_without w l c _

theorem onVm_without [Inhabited α] (w : World σ μ) (l : Loss) (j : Nat) (f : Vm → Vm × α) :
    (w.without l).onVm j f = ((w.onVm j f).1, (w.onVm j f).2.without l) := by
  apply Prod.ext
  · dsimp only
    rw [onVm_eq, onVm_eq, instances_without]
    by_cases hij : l.owner = some j
    · rw [if_pos hij]
      cases w.instances[j]? <;> rfl
    · rw [if_neg hij]
      cases w.instances[j]? <;> rfl
  · dsimp only
    rw [onVm_world, onVm_world, modifyVm_without]

theorem reserve_without (w : World σ μ) (l : Loss) (c : Context) (n : Nat) :
    (w.without l).reserve c n = ((w.reserve c n).1, (w.reserve c n).2.without l) := by
  unfold reserve
  rw [heap_without]
  exact onVm_without w l c.vm _

theorem retain_without (w : World σ μ) (l : Loss) (v : Value) :
    (w.without l).retain v = (w.retain v).without l := by
  cases v <;> rfl

/-- Letting go of a thread asks for its owner; nothing else that is let go of has one. -/
theorem release_without (w : World σ μ) (l : Loss) {v : Value} (hv : l.Spares v) :
    (w.without l).release v = (w.release v).without l := by
  cases v with
  | thread q =>
    unfold release
    dsimp only
    have hanchors : (w.without l).anchors = w.anchors := rfl
    rw [hanchors]
    split
    next hown =>
      obtain ⟨a, ha, ht⟩ := (Option.any_eq_true _ _).mp hown
      have hspared : l.owner ≠ some a.thread.vm := by
        rw [of_decide_eq_true ht]
        exact hv
      unfold releaseAnchor
      rw [hanchors, ha]
      dsimp only
      split
      · exact modifyInstance_without_of_ne { w with anchors := w.anchors.erase q.anchor } hspared
      · rfl
    next => rfl
  | _ => rfl

theorem releaseAll_without (l : Loss) {vs : List Value} (hv : ∀ v ∈ vs, l.Spares v)
    (w : World σ μ) : (w.without l).releaseAll vs = (w.releaseAll vs).without l := by
  induction vs generalizing w with
  | nil => rfl
  | cons v vs ih =>
    unfold releaseAll
    rw [List.foldl_cons, List.foldl_cons, release_without w l (hv v (List.mem_cons_self ..))]
    exact ih (fun u hu => hv u (List.mem_cons_of_mem _ hu)) _

theorem errorText_without (w : World σ μ) (l : Loss) (c : Context) (v : Val) :
    (w.without l).errorText c v = w.errorText c v := by
  unfold errorText
  rw [displayName_without]

theorem popErrorText_without (w : World σ μ) (l : Loss) (c : Context) :
    (w.without l).popErrorText c = ((w.popErrorText c).1, (w.popErrorText c).2.without l) := by
  have hpop : ∀ (u : World σ μ) (v : Val),
      ((u.without l).errorText c v, (u.without l).modifySlots c (·.pop)) =
        (u.errorText c v, (u.modifySlots c (·.pop)).without l) := fun u v => by
    rw [errorText_without, modifySlots_without]
  unfold popErrorText
  rw [slots_without]
  cases (w.slots c).back? with
  | none => rfl
  | some v =>
    cases v with
    | nil | bool _ | int _ | float _ | str _ => exact hpop w _
    | table _ | builtin _ | closure _ | userdata _ | light _ | thread _ =>
      dsimp only
      rw [reserve_without]
      exact hpop (w.reserve c 2).2 _

/-! What the engine makes in an operation. -/

@[simp] theorem asksName_without (w : World σ μ) (l : Loss) (c : Context) :
    (w.without l).asksName c = w.asksName c := by
  funext v
  unfold asksName
  rw [heap_without]

@[simp] theorem checked_without (w : World σ μ) (l : Loss) (c : Context) (h : Handle) :
    (w.without l).checked c h = w.checked c h := by
  unfold checked
  rw [depth_without, at_without]

@[simp] theorem window_without (w : World σ μ) (l : Loss) (c : Context) (n : Int) (start : Option Int) :
    (w.without l).window c n start = w.window c n start := by
  unfold window
  rw [depth_without, slots_without]

@[simp] theorem makes_without (w : World σ μ) (l : Loss) (c : Context) :
    (w.without l).makes c = w.makes c := by
  funext v
  unfold makes
  simp only [checked_without, asksName_without]

theorem maker_without (w : World σ μ) (l : Loss) (o : Op σ μ α) : o.maker? (w.without l) = o.maker? w := by
  have hgranted : ∀ c n, ((w.without l).reserve c n).1 = (w.reserve c n).1 := fun c n => by
    rw [reserve_without]
  cases o with
  | stack c o =>
    have hlooks : o.looksAt (w.without l) c = o.looksAt w c := by
      unfold StackOp.looksAt
      cases o <;> simp
    unfold Op.maker? StackOp.makes
    cases o <;> simp only [hgranted, hlooks, makes_without, asksName_without, depth_without]
  | run c o =>
    unfold Op.maker? CallOp.makes
    cases o <;> simp only [hgranted, makes_without]
  | _ => rfl

end World

/-! ### Operations -/

/-- An operation that does the same whatever is lost. -/
def Api.Heedless (l : Loss) (a : Api σ μ α) : Prop :=
  ∀ w, a (w.without l) = ((a w).1, (a w).2.without l)

namespace Api.Heedless

theorem pure (x : α) : Heedless l (Pure.pure x : Api σ μ α) := fun _ => rfl

theorem throw (e : Error) : Heedless l (MonadExcept.throw e : Api σ μ α) := fun _ => rfl

theorem check (r : Except Error α) : Heedless l (Api.check r : Api σ μ α) := fun _ => rfl

theorem bind {a : Api σ μ α} {k : α → Api σ μ β} (ha : Heedless l a) (hk : ∀ x, Heedless l (k x)) :
    Heedless l (a >>= k) := by
  intro w
  have h := ha w
  cases hr : a w with
  | mk r w₁ =>
    rw [hr] at h
    cases r with
    | ok x => rw [bind_ok h, bind_ok hr, hk x w₁]
    | error e => rw [bind_error h, bind_error hr]

theorem discard {a : Api σ μ α} (ha : Heedless l a) : Heedless l (Functor.discard a) :=
  ha.bind fun _ => .pure _

theorem ite {p : Prop} [Decidable p] {a b : Api σ μ α} (ha : Heedless l a) (hb : Heedless l b) :
    Heedless l (if p then a else b) := by
  split
  · exact ha
  · exact hb

theorem modify {f : World σ μ → World σ μ} (hf : ∀ w, f (w.without l) = (f w).without l) :
    Heedless l (Api.modify f) := fun w => congrArg (Except.ok (), ·) (hf w)

/-- Looking at what the owner has no part in. -/
theorem get {k : World σ μ → Api σ μ β} (hk : ∀ w, k (w.without l) = k w)
    (h : ∀ w, Heedless l (k w)) : Heedless l (MonadState.get >>= k) := by
  intro w
  rw [get_bind, get_bind, hk]
  exact h w w

end Api.Heedless

open Api

namespace Context

variable (c : Context)

theorem heedless_top : Heedless l (c.top : Api σ μ Int) := by
  intro w
  unfold top
  rw [depth_without]

theorem heedless_resolve (k : Int) : Heedless l (c.resolve k : Api σ μ Int) :=
  c.heedless_top.bind fun _ => .check _

theorem heedless_checkStack (n : Int) : Heedless l (c.checkStack n : Api σ μ Unit) := by
  intro w
  unfold checkStack
  split
  · rfl
  · rw [reserve_without]
    cases w.reserve c n.toNat with
    | mk ok w₁ => cases ok <;> rfl

theorem heedless_checkStackFor (n : Nat) : Heedless l (c.checkStackFor n : Api σ μ Unit) := by
  unfold checkStackFor
  exact .ite ((Heedless.throw _).bind fun _ => c.heedless_checkStack _) (c.heedless_checkStack _)

theorem heedless_modifySlots (f : Array Val → Array Val) :
    Heedless l (Api.modify (·.modifySlots c f) : Api σ μ Unit) :=
  .modify fun w => modifySlots_without w l c f

theorem heedless_cut (n : Nat) : Heedless l (c.cut n : Api σ μ Unit) := c.heedless_modifySlots _

theorem heedless_setTop (n : Int) : Heedless l (c.setTop n : Api σ μ Unit) := by
  unfold setTop
  have hk : ∀ target : Int, Heedless l (do
      let depth ← c.top
      if depth < target then c.checkStack (target - depth)
      c.cut target.toNat : Api σ μ Unit) := fun _ =>
    c.heedless_top.bind fun _ =>
      .ite ((c.heedless_checkStack _).bind fun _ => c.heedless_cut _) (c.heedless_cut _)
  exact .ite ((c.heedless_resolve n).bind hk) ((Heedless.pure n).bind hk)

theorem heedless_pop (n : Int) : Heedless l (c.pop n : Api σ μ Unit) := by
  unfold pop
  exact .ite (.pure ()) (c.heedless_top.bind fun _ =>
    (Heedless.check _).discard.bind fun _ => c.heedless_cut _)

theorem heedless_remove (k : Int) : Heedless l (c.remove k : Api σ μ Unit) :=
  (c.heedless_resolve k).bind fun _ => c.heedless_modifySlots _

theorem heedless_pushSlot (pos : Int) :
    Heedless l (Api.modify fun w => w.push c (w.at_ c pos) : Api σ μ Unit) :=
  .modify fun w => by rw [at_without, push_without]

theorem heedless_duplicate (k : Int) : Heedless l (c.duplicate k : Api σ μ Unit) :=
  (c.heedless_resolve k).bind fun pos => (c.heedless_checkStack 1).bind fun _ =>
    c.heedless_pushSlot pos

theorem heedless_replace (k : Int) : Heedless l (c.replace k : Api σ μ Unit) :=
  (c.heedless_resolve k).bind fun _ => c.heedless_modifySlots _

theorem heedless_rotate (k n : Int) : Heedless l (c.rotate k n : Api σ μ Unit) := by
  unfold rotate
  exact (c.heedless_resolve k).bind fun _ => c.heedless_top.bind fun _ =>
    .ite (c.heedless_modifySlots _) (.pure ())

theorem heedless_copy (k n : Int) : Heedless l (c.copy k n : Api σ μ Unit) :=
  (c.heedless_resolve k).bind fun _ => (c.heedless_resolve n).bind fun _ => c.heedless_modifySlots _

theorem heedless_typeOf (k : Int) : Heedless l (c.typeOf k : Api σ μ TypeTag) :=
  (c.heedless_resolve k).bind fun _ => .get (fun w => by rw [at_without]) fun _ => .pure _

theorem heedless_rawLen (k : Int) : Heedless l (c.rawLen k : Api σ μ Nat) :=
  (c.heedless_resolve k).bind fun _ => .get (fun w => by rw [at_without, heap_without]) fun _ => .pure _

theorem heedless_shared : Heedless l (c.shared : Api σ μ Nat) := by
  unfold shared
  refine (c.heedless_checkStack 1).bind fun _ => .get (fun w => by rw [heap_without]) fun w =>
    .get (fun w => by rw [heap_without]) fun w' => ?_
  split
  · exact .ite (.throw _) (.pure _)
  · exact .throw _

theorem heedless_sameVm (d : Context) : Heedless l (c.sameVm d : Api σ μ Bool) := by
  intro w
  have h := c.heedless_shared (l := l) w
  unfold sameVm
  rw [h]
  cases c.shared w with
  | mk r w₁ =>
    dsimp only
    cases r with
    | ok a =>
      dsimp only
      rw [d.heedless_shared (l := l) w₁]
      cases d.shared w₁ with
      | mk r w₂ => cases r <;> rfl
    | error e =>
      dsimp only
      rw [d.heedless_shared (l := l) w₁]

theorem anchor_without (w : World σ μ) (t : StackId) :
    (w.without l).anchor t = ((w.anchor t).1, (w.anchor t).2.without l) := by
  unfold anchor
  rw [instance?_without w l t.vm (g := (·.references.next)) fun _ => rfl,
    modifyInstance_without w l t.vm fun _ => rfl]
  cases (w.instance? t.vm).map (·.references.next) <;> rfl

theorem heedless_capture (pos : Int) : Heedless l (c.capture pos : Api σ μ ThreadHandle) := by
  unfold capture
  refine c.heedless_shared.bind fun vm => (c.heedless_checkStack 1).bind fun _ =>
    .get (fun w => by rw [at_without]) fun w => ?_
  cases w.at_ c pos with
  | thread t =>
    intro w
    dsimp only
    rw [anchor_without]
  | _ => exact .throw _

theorem heedless_read (k : Int) : Heedless l (c.read k : Api σ μ Value) := by
  unfold read
  refine (c.heedless_resolve k).bind fun pos => (c.heedless_checkStack 2).bind fun _ =>
    .get (fun w => by simp only [at_without, displayName_without]) fun w => ?_
  cases w.at_ c pos with
  | thread t => exact (c.heedless_capture pos).bind fun _ => .pure _
  | _ => exact .pure _

/-- Whoever has read a thread can read on. -/
theorem read_thread {k : Int} {q : ThreadHandle} (h : c.read k w = (.ok (.thread q), w')) :
    w.Grants c 2 ∧ (w.heap c.vm).owner? ≠ none ∧ w.Intact w' ∧
      ∃ pos, c.resolve k w = (.ok pos, w) ∧ w.at_ c pos = .thread q.thread.thread := by
  obtain ⟨pos, hk, -, -, -, hshows⟩ := read_ok h
  obtain ⟨t, hat⟩ : ∃ t, w.at_ c pos = .thread t := by
    cases hv : w.at_ c pos <;> rw [hv] at hshows
    case thread t => exact ⟨t, rfl⟩
    all_goals cases hshows
  have hq : t = q.thread.thread := by
    rw [hat] at hshows
    obtain ⟨q', he, ht⟩ := hshows
    rw [← Value.thread.inj he] at ht
    exact ht.symm
  have hroom : w.Grants c 2 := by
    by_contra hno
    unfold read at h
    rw [Api.bind_ok hk, Api.bind_error
      (checkStack_refused (n := 2) (by decide) (Bool.eq_false_iff.mpr hno))] at h
    cases h
  have hknown : (w.heap c.vm).owner? ≠ none := by
    intro hno
    obtain ⟨w₁, hchecked, hi⟩ := checkStack_intact hroom (show (2 : Int) ≤ (2 : Nat) by decide)
    obtain ⟨w₂, -, -, hshared⟩ := shared_intact ((hi.grants c 2 hroom).less (by decide : 1 ≤ 2))
    rw [hi.heap] at hshared
    unfold read capture at h
    rw [Api.bind_ok hk, Api.bind_ok hchecked, Api.get_bind, hi.at_, hat] at h
    dsimp only at h
    rw [Api.bind_error (Api.bind_error (hshared hno))] at h
    cases h
  obtain ⟨v, w₁, hread, hi, -⟩ := read_intact hk hroom fun _ _ => hknown
  rw [h] at hread
  obtain rfl := (Prod.mk.inj hread).2
  exact ⟨hroom, hknown, hi, pos, hk, hq ▸ hat⟩

variable {c} in
theorem resolve_position {s : Array Val} {pos : Int} (hs : w.shown c = some s) (hlow : 1 ≤ pos)
    (hhigh : pos ≤ s.size) : c.resolve pos w = (.ok pos, w) := by
  have hresolve : Index.resolve pos s.size = .ok pos := by
    unfold Index.resolve
    dsimp only
    rw [if_neg (by omega), if_neg (by omega)]
  unfold resolve
  rw [Api.bind_ok (show c.top w = (.ok (w.depth c : Int), w) from rfl), depth_of_shown hs, hresolve]
  rfl

variable {c} in
/-- A value that has been read, with more to come: if it is a thread, the rest can be read. -/
def Carried (c : Context) (w : World σ μ) (last : Int) (v : Value) : Prop :=
  v.asThread? = none ∨
    w.Grants c 2 ∧ (w.heap c.vm).owner? ≠ none ∧ ∃ s, w.shown c = some s ∧ last ≤ s.size

/-- While slots are read one after the other, no thread that was read is let go of. -/
theorem heedless_readFrom {n : Nat} {pos last : Int} {acc : List Value} (hlow : 1 ≤ pos)
    (hlast : pos + n = last + 1) (hfit : ∀ s, w.shown c = some s → last ≤ s.size)
    (hacc : ∀ v ∈ acc, c.Carried w last v) :
    c.readFrom pos n acc (w.without l) =
      ((c.readFrom pos n acc w).1, (c.readFrom pos n acc w).2.without l) := by
  induction n generalizing w pos acc with
  | zero => rfl
  | succ n ih =>
    unfold readFrom
    rw [c.heedless_read pos w]
    cases hr : c.read pos w with
    | mk r w₁ =>
    cases r with
    | ok v =>
      have hsame := (c.steady_read pos).related hr
      refine ih (by omega) (by omega) (fun s hs => hfit s ((hsame.shown c).symm.trans hs)) ?_
      -- Reading keeps what the threads that were read before go with.
      have hkeep : ∀ u, c.Carried w last u → c.Carried w₁ last u := by
        rintro u (hu | ⟨hroom, hknown, s, hs, hl⟩)
        · exact .inl hu
        · obtain ⟨_, w₂, hread, hi, -⟩ := read_intact
            (resolve_position hs hlow (by omega)) hroom fun _ _ => hknown
          rw [hr] at hread
          obtain rfl := (Prod.mk.inj hread).2
          exact .inr ⟨hi.grants c 2 hroom, by rwa [hi.heap], s, by rwa [hi.shown], hl⟩
      intro u hu
      rcases List.mem_cons.mp hu with rfl | hu
      · cases u with
        | thread q =>
          obtain ⟨hroom, hknown, hi, p, -, hat⟩ := c.read_thread hr
          have hs := shown_of_slot w (slot_of_at hat (by intro h; cases h))
          exact .inr ⟨hi.grants c 2 hroom, by rwa [hi.heap], _, by rwa [hi.shown], hfit _ hs⟩
        | _ => exact .inl rfl
      · exact hkeep u (hacc u hu)
    | error e =>
      have hplain : ∀ v ∈ acc, v.asThread? = none := by
        intro v hv
        rcases hacc v hv with h | ⟨hroom, hknown, s, hs, hl⟩
        · exact h
        · obtain ⟨_, w₂, hread, -⟩ := read_intact
            (resolve_position hs hlow (by omega)) hroom fun _ _ => hknown
          rw [hr] at hread
          cases hread
      exact congrArg (Except.error e, ·) (releaseAll_without l (fun v hv => Loss.spares_of_plain (hplain v hv)) w₁)

variable {c} in
/-- A batch that lies on the stack is read the same. -/
theorem readBatch_without {n : Int} {start : Option Int}
    (hfit : ∀ first, Index.resolveWindow n start (w.depth c) = .ok first →
      0 ≤ n ∧ 1 ≤ first ∧ first + n ≤ w.depth c + 1) :
    c.readBatch n start (w.without l) =
      ((c.readBatch n start w).1, (c.readBatch n start w).2.without l) := by
  unfold readBatch
  split
  · rfl
  · have htop : ∀ u : World σ μ, c.top u = (.ok (u.depth c : Int), u) := fun _ => rfl
    rw [Api.bind_ok (htop _), Api.bind_ok (htop _), depth_without]
    cases hw : Index.resolveWindow n start (w.depth c) with
    | error e => rfl
    | ok first =>
      obtain ⟨hcount, hlow, hhigh⟩ := hfit first hw
      have hlast : first + (n.toNat : Int) = first + n - 1 + 1 := by omega
      refine c.heedless_readFrom hlow hlast (fun s hs => ?_) fun _ hv => absurd hv List.not_mem_nil
      rw [depth_of_shown hs] at hhigh
      omega

theorem heedless_readBatch (n : Int) {start : Option Int}
    (hs : ∀ k, start = some k → k ≤ Word32.greatest) :
    Heedless l (c.readBatch n start : Api σ μ (List Value)) := fun _ =>
  readBatch_without fun _ h => Index.resolveWindow_fits hs h

theorem heedless_popValues (n : Int) : Heedless l (c.popValues n : Api σ μ (List Value)) :=
  (c.heedless_readBatch n fun _ h => by cases h).bind fun _ => (c.heedless_pop n).bind fun _ => .pure _

theorem heedless_validate (h : Handle) : Heedless l (c.validate h : Api σ μ Unit) := by
  unfold validate
  exact c.heedless_top.bind fun _ => .ite ((c.heedless_checkStack 2).bind fun _ =>
    .get (fun w => by rw [at_without, describe_without]) fun _ => .check _) (.check _)

/-- Whether a thread belongs to an interpreter depends on that thread's owner. -/
theorem heedless_owns {q : ThreadHandle} (hq : l.owner ≠ some q.thread.vm) :
    Heedless l (c.owns q : Api σ μ Bool) := by
  unfold owns
  refine .get (fun w => by rw [instance?_without_of_ne w hq]) fun w => ?_
  split
  · exact .ite (.pure _) (c.heedless_shared.bind fun _ => .pure _)
  · exact .pure _

theorem heedless_pushThread {q : ThreadHandle} (hq : l.owner ≠ some q.thread.vm) :
    Heedless l (c.pushThread q : Api σ μ Unit) := by
  unfold pushThread
  have hpush : Heedless l (Api.modify (·.push c (.thread q.thread.thread)) : Api σ μ Unit) :=
    .modify fun w => push_without w l c _
  have hk : Heedless l (do
      if q.thread ≠ c then Context.checkStack q.thread 1
      Api.modify (·.push c (.thread q.thread.thread)) : Api σ μ Unit) :=
    .ite ((heedless_checkStack _ 1).bind fun _ => hpush) hpush
  exact (c.heedless_owns hq).bind fun _ => .ite ((Heedless.throw _).bind fun _ => hk) hk

end Context

namespace World

theorem pushUserdata_without (w : World σ μ) (l : Loss) (c : Context) (p : Payload) (m : String)
    (b : Builtin) : (w.without l).pushUserdata c p m b =
      ((w.pushUserdata c p m b).1, (w.pushUserdata c p m b).2.without l) := onVm_without w l c.vm _

theorem pushFunction_without (w : World σ μ) (l : Loss) (c : Context) (shape : FunctionShape)
    (id : Nat) : (w.without l).pushFunction c shape id = (w.pushFunction c shape id).without l := by
  unfold pushFunction closureOf
  rw [retain_without]
  cases shape <;>
  · dsimp only
    rw [pushUserdata_without]
    dsimp only
    rw [onVm_without]
    dsimp only
    rw [push_without]

theorem pushForeign_without (w : World σ μ) (l : Loss) (c : Context) (id : Nat) :
    (w.without l).pushForeign c id = (w.pushForeign c id).without l := by
  unfold pushForeign
  rw [retain_without]
  dsimp only
  rw [pushUserdata_without]
  dsimp only
  rw [push_without]

end World

namespace Context

variable (c : Context)

theorem heedless_push {v : Value} (hv : l.Spares v) : Heedless l (c.push v : Api σ μ Unit) := by
  unfold push
  refine (c.heedless_checkStack 3).bind fun _ => ?_
  cases v with
  | function shape id => exact .modify fun w => pushFunction_without w l c shape id
  | foreign id => exact .modify fun w => pushForeign_without w l c id
  | thread q => exact c.heedless_pushThread hv
  | handle h => exact (c.heedless_validate h).bind fun _ => c.heedless_pushSlot h.position
  | _ => exact .modify fun w => push_without w l c _

theorem heedless_pushEach {vs : List Value} (hv : ∀ v ∈ vs, l.Spares v) :
    Heedless l (c.pushEach vs : Api σ μ Unit) := by
  induction vs with
  | nil => exact .pure ()
  | cons v vs ih =>
    exact (c.heedless_push (hv v (List.mem_cons_self ..))).bind fun _ =>
      ih fun u hu => hv u (List.mem_cons_of_mem _ hu)

theorem heedless_pushAll {vs : List Value} (hv : ∀ v ∈ vs, l.Spares v) :
    Heedless l (c.pushAll vs : Api σ μ Unit) :=
  (c.heedless_checkStackFor _).bind fun _ => c.heedless_pushEach hv

theorem heedless_readForeign (k : Int) : Heedless l (c.readForeign k : Api σ μ (Option Value)) := by
  unfold readForeign
  refine (c.heedless_resolve k).bind fun pos => (c.heedless_checkStack 2).bind fun _ => ?_
  intro w
  have hforeign : (w.without l).foreignOf? c (w.at_ c pos) = w.foreignOf? c (w.at_ c pos) := by
    unfold foreignOf?
    rw [heap_without]
  dsimp only
  rw [at_without, hforeign]
  cases w.foreignOf? c (w.at_ c pos) with
  | none => rfl
  | some id => exact congrArg (Except.ok (some (Value.foreign id)), ·) (retain_without w l (.foreign id))

theorem heedless_getGlobal (name : Bytes) : Heedless l (c.getGlobal name : Api σ μ Value) :=
  (c.heedless_checkStack 3).bind fun _ =>
    (Heedless.modify fun w => by dsimp only; rw [heap_without, push_without]).bind fun _ =>
      c.heedless_read (-1)

theorem heedless_setGlobal (name : Bytes) : Heedless l (c.setGlobal name : Api σ μ Unit) :=
  (c.heedless_resolve (-1)).bind fun pos => (c.heedless_checkStack 3).bind fun _ =>
    .modify fun w => by
      dsimp only
      rw [at_without, modifyHeap_without, modifySlots_without]

theorem heedless_transfer (d : Context) (n : Int) :
    Heedless l (c.transfer d n : Api σ μ Unit) := by
  unfold transfer
  have hmove : ∀ depth : Int, Heedless l (Api.modify fun w =>
      let moved := (w.slots c).toList.drop (depth - n).toNat
      (w.truncate c (depth - n).toNat).modifySlots d (· ++ moved.toArray) : Api σ μ Unit) :=
    fun depth => .modify fun w => by
      dsimp only
      rw [slots_without, truncate_without, modifySlots_without]
  have hk : ∀ depth : Int, Heedless l (do
      if c = d then return
      d.checkStack n
      Api.modify fun w =>
        let moved := (w.slots c).toList.drop (depth - n).toNat
        (w.truncate c (depth - n).toNat).modifySlots d (· ++ moved.toArray) : Api σ μ Unit) :=
    fun depth => .ite (.pure ()) ((d.heedless_checkStack n).bind fun _ => hmove depth)
  exact .ite (.pure ()) (c.heedless_top.bind fun depth => (Heedless.check _).discard.bind fun _ =>
    (c.heedless_sameVm d).bind fun _ => .ite ((Heedless.throw _).bind fun _ => hk depth) (hk depth))

/-! ### Loading -/

theorem heedless_tryLoadWith (chunk name : Bytes) (mode : LoadMode) :
    Heedless l (c.tryLoadWith chunk name mode : Api σ μ LoadOutcome) := by
  unfold tryLoadWith
  refine (c.heedless_checkStack 1).bind fun _ => ?_
  intro w
  dsimp only
  rw [thread_without, onVm_without]
  dsimp only
  rw [push_without]

theorem heedless_configuredName : Heedless l (c.configuredName : Api σ μ Bytes) :=
  c.heedless_shared.bind fun vm => .get (fun w => by
    rw [instance?_without w l vm (g := (·.chunkName)) fun _ => rfl]) fun _ => .pure _

theorem heedless_tryLoad (chunk : Bytes) : Heedless l (c.tryLoad chunk : Api σ μ LoadOutcome) :=
  c.heedless_configuredName.bind fun _ => c.heedless_tryLoadWith chunk _ .any

theorem heedless_loadWith (chunk name : Bytes) (mode : LoadMode) :
    Heedless l (c.loadWith chunk name mode : Api σ μ Unit) := by
  unfold loadWith
  refine c.heedless_top.bind fun base => (c.heedless_tryLoadWith chunk name mode).bind fun _ =>
    .ite (.pure ()) (c.heedless_top.bind fun _ => (c.heedless_typeOf (-1)).bind fun _ => ?_)
  have hend : ∀ text : Option String, Heedless l (do
      c.cut base.toNat
      let e := Error.ofDescription text
      Api.modify (·.log .debug "chunk failed to load" [("error", e.message)])
      throw e : Api σ μ Unit) := fun _ =>
    (c.heedless_cut _).bind fun _ => (Heedless.modify fun _ => rfl).bind fun _ => .throw _
  refine .ite (.bind ?_ hend) ((Heedless.pure none).bind hend)
  intro w
  dsimp only
  rw [popErrorText_without]

theorem heedless_load (chunk : Bytes) : Heedless l (c.load chunk : Api σ μ Unit) :=
  c.heedless_configuredName.bind fun _ => c.heedless_loadWith chunk _ .any

theorem heedless_loadNamed (chunk : Bytes) (name : String) (mode : LoadMode) :
    Heedless l (c.loadNamed chunk name mode : Api σ μ Unit) :=
  (Heedless.check _).bind fun _ => c.heedless_loadWith chunk _ mode

/-! ### Threads -/

theorem heedless_captureTop {v : World σ μ → Val × World σ μ}
    (hv : ∀ w, v (w.without l) = ((v w).1, (v w).2.without l)) : Heedless l (c.captureTop v) := by
  unfold captureTop
  refine (c.heedless_checkStack 2).bind fun _ => (Heedless.modify fun w => ?_).bind fun _ =>
    c.heedless_top.bind fun top => ?_
  · dsimp only
    rw [hv]
    dsimp only
    rw [push_without]
  · intro w
    dsimp only
    rw [c.heedless_capture top w]
    exact congrArg (_, ·) (truncate_without _ l c _)

theorem heedless_newThread : Heedless l (c.newThread : Api σ μ ThreadHandle) :=
  c.heedless_captureTop fun w => onVm_without w l c.vm _

theorem heedless_currentThread : Heedless l (c.currentThread : Api σ μ ThreadHandle) :=
  c.heedless_captureTop fun _ => rfl

end Context

namespace ThreadHandle

variable {q : ThreadHandle} (hq : l.owner ≠ some q.thread.vm)

include hq

theorem isClosed_without (w : World σ μ) : q.isClosed (w.without l) = q.isClosed w := by
  unfold isClosed
  rw [instance?_without_of_ne w hq]

theorem heedless_status (c : Context) : Heedless l (q.status c : Api σ μ CoroutineStatus) := by
  intro w
  unfold status
  rw [isClosed_without hq, vm_without]
  split
  · rfl
  · split <;> rfl

theorem heedless_view (held : Bool) : Heedless l (q.view held : Api σ μ View) := by
  intro w
  unfold view
  rw [isClosed_without hq]
  split
  · rfl
  · dsimp only
    rw [modifyInstance_without w l q.thread.vm fun _ => rfl]
    rfl

end ThreadHandle

theorem World.heedless_fault (c : Context) : Heedless l (World.fault c : Api σ μ FaultEnd) := by
  have hnotify : ∀ (ns : List Notice) (w : World σ μ),
      ns.foldl notify (w.without l) = (ns.foldl notify w).without l := by
    intro ns
    induction ns with
    | nil => exact fun _ => rfl
    | cons n ns ih => exact fun w => ih (w.notify n)
  intro w
  have htext : (w.without l).faultText c = w.faultText c := by
    unfold faultText
    rw [slots_without]
  unfold fault
  rw [htext, show (w.without l).hook = w.hook from rfl]
  generalize HookRegister.report _ _ = r
  rcases r with _ | ⟨⟨ns, e⟩, s⟩
  · rfl
  · exact congrArg (Except.ok e, ·) (hnotify ns { w with hook := s.hook })

/-- A value is a thread of an interpreter. -/
def Value.ThreadOf (i : Nat) : Value → Prop
  | .thread q => q.thread.vm = i
  | _ => False

/-- Of owners, at most that of an interpreter is lost. -/
def Loss.At (l : Loss) (i : Nat) : Prop := ∀ j, l.owner = some j → j = i

theorem Loss.At.ne (hl : l.At i) (h : j ≠ i) : l.owner ≠ some j := fun ho => h (hl j ho)

theorem Loss.At.spares (hl : l.At i) {v : Value} (h : ¬ v.ThreadOf i) : l.Spares v := by
  cases v with
  | thread q => exact hl.ne h
  | _ => trivial

/-- It is not about threads of an interpreter. -/
def StackOp.Discreet (i : Nat) : StackOp α → Prop
  | .push v => ¬ v.ThreadOf i
  | .pushAll vs => ∀ v ∈ vs, ¬ v.ThreadOf i
  | .readBatch _ start => ∀ k, start = some k → k ≤ Word32.greatest
  | .belongs q | .status q => q.thread.vm ≠ i
  | _ => True

/-- Operations on a stack do not ask for the owner of an interpreter, unless they are about its
threads. -/
theorem StackOp.heedless (hl : l.At i) {o : StackOp α} (ho : o.Discreet i) (c : Context) :
    Heedless l (o.perform c : Api σ μ α) := by
  cases o with
  | top => exact c.heedless_top
  | resolve k => exact c.heedless_resolve k
  | setTop n => exact c.heedless_setTop n
  | checkStack n => exact c.heedless_checkStack n
  | pop n => exact c.heedless_pop n
  | remove k => exact c.heedless_remove k
  | duplicate k => exact c.heedless_duplicate k
  | replace k => exact c.heedless_replace k
  | rotate k n => exact c.heedless_rotate k n
  | copy k n => exact c.heedless_copy k n
  | typeOf k => exact c.heedless_typeOf k
  | rawLen k => exact c.heedless_rawLen k
  | push v => exact c.heedless_push (hl.spares ho)
  | pushAll vs => exact c.heedless_pushAll fun v hv => hl.spares (ho v hv)
  | read k => exact c.heedless_read k
  | readBatch n start => exact c.heedless_readBatch n ho
  | popValues n => exact c.heedless_popValues n
  | validate h => exact c.heedless_validate h
  | readForeign k => exact c.heedless_readForeign k
  | getGlobal name => exact c.heedless_getGlobal name
  | setGlobal name => exact c.heedless_setGlobal name
  | transfer d n => exact c.heedless_transfer d n
  | sameVm d => exact c.heedless_sameVm d
  | load chunk => exact c.heedless_load chunk
  | loadNamed chunk name mode => exact c.heedless_loadNamed chunk name mode
  | tryLoad chunk => exact c.heedless_tryLoad chunk
  | newThread => exact c.heedless_newThread
  | currentThread => exact c.heedless_currentThread
  | belongs q => exact c.heedless_owns (hl.ne ho)
  | status q => exact ThreadHandle.heedless_status (hl.ne ho) c
  | fault => exact heedless_fault c

end LuaEmbed
