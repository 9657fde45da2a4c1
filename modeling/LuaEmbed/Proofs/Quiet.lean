import LuaEmbed.Proofs.Footprint
import LuaEmbed.Proofs.Payloads

/-!
The operations on one stack during which no code runs are quiet: each comes down to changes of the
kinds that need no run, whether it succeeds or fails.
-/
namespace LuaEmbed

open Engine World

variable {σ μ α β : Type}

/-- Whether it succeeds or fails, the world after it is related to the one before. -/
def Api.Keeps (R : World σ μ → World σ μ → Prop) (a : Api σ μ α) : Prop := ∀ w, R w (a w).2

namespace Api

variable {w w' w₁ : World σ μ}

theorem bind_ok {a : Api σ μ α} {k : α → Api σ μ β} {x : α} (h : a w = (.ok x, w₁)) :
    (a >>= k) w = k x w₁ := by
  simp only [Bind.bind, ExceptT.bind, ExceptT.mk, StateT.bind, h]
  rfl

theorem bind_error {a : Api σ μ α} {k : α → Api σ μ β} {e : Error} (h : a w = (.error e, w₁)) :
    (a >>= k) w = (.error e, w₁) := by
  simp only [Bind.bind, ExceptT.bind, ExceptT.mk, StateT.bind, h]
  rfl

theorem get_bind (w : World σ μ) (k : World σ μ → Api σ μ β) :
    ((MonadState.get : Api σ μ (World σ μ)) >>= k) w = k w w := rfl

theorem discard_eq (a : Api σ μ α) : Functor.discard a = (a >>= fun _ => Pure.pure ()) := by
  simp [Functor.discard, Functor.mapConst, ExceptT.map, Bind.bind, ExceptT.bind,
    ExceptT.mk, Pure.pure, ExceptT.pure]
  rfl

theorem bind_cases {a : Api σ μ α} {k : α → Api σ μ β} {r : Except Error β}
    (h : (a >>= k) w = (r, w')) :
    (∃ x w₁, a w = (.ok x, w₁) ∧ k x w₁ = (r, w')) ∨
    (∃ e, a w = (.error e, w') ∧ r = .error e) := by
  cases ha : a w with
  | mk s w₁ =>
    cases s with
    | ok x => exact .inl ⟨x, w₁, rfl, (bind_ok ha).symm.trans h⟩
    | error e =>
      obtain ⟨rfl, rfl⟩ := Prod.mk.inj ((bind_error ha).symm.trans h)
      exact .inr ⟨e, rfl, rfl⟩

theorem bind_eq_ok {a : Api σ μ α} {k : α → Api σ μ β} {y : β} (h : (a >>= k) w = (.ok y, w')) :
    ∃ x w₁, a w = (.ok x, w₁) ∧ k x w₁ = (.ok y, w') := by
  rcases bind_cases h with h | ⟨e, -, he⟩
  · exact h
  · cases he

end Api

namespace Api.Keeps

variable {R : World σ μ → World σ μ → Prop}

theorem related {a : Api σ μ α} {r : Except Error α} {w w' : World σ μ} (ha : Keeps R a)
    (h : a w = (r, w')) : R w w' := by
  have hr := ha w
  rwa [h] at hr

theorem modify {f : World σ μ → World σ μ} (h : ∀ w, R w (f w)) : Keeps R (Api.modify f) := h

variable [IsPreorder (World σ μ) R]

theorem pure (x : α) : Keeps R (Pure.pure x : Api σ μ α) := fun w => refl_of R w

theorem throw (e : Error) : Keeps R (MonadExcept.throw e : Api σ μ α) := fun w => refl_of R w

theorem get : Keeps R (MonadState.get : Api σ μ (World σ μ)) := fun w => refl_of R w

theorem check (r : Except Error α) : Keeps R (Api.check r : Api σ μ α) := fun w => refl_of R w

theorem bind {a : Api σ μ α} {k : α → Api σ μ β} (ha : Keeps R a) (hk : ∀ x, Keeps R (k x)) :
    Keeps R (a >>= k) := by
  intro w
  have h := ha w
  cases hr : a w with
  | mk r w₁ =>
    rw [hr] at h
    cases r with
    | ok x =>
      rw [bind_ok hr]
      exact trans_of R h (hk x w₁)
    | error e =>
      rw [bind_error hr]
      exact h

theorem discard {a : Api σ μ α} (ha : Keeps R a) : Keeps R (Functor.discard a) := by
  rw [discard_eq]
  exact ha.bind fun _ => pure ()

omit [IsPreorder (World σ μ) R] in
theorem ite {p : Prop} [Decidable p] {a b : Api σ μ α} (ha : Keeps R a) (hb : Keeps R b) :
    Keeps R (if p then a else b) := by
  split
  · exact ha
  · exact hb

end Api.Keeps

/-- What looking at stacks keeps: reserving room does, and so do making handles to threads and letting
go of values. -/
structure World.Looks (R : World σ μ → World σ μ → Prop) : Prop extends IsPreorder (World σ μ) R where
  reserve : ∀ w c n, R w (w.reserve c n).2
  anchor : ∀ w t, R w (w.anchor t).2
  releaseAll : ∀ w vs, R w (w.releaseAll vs)

open Api

namespace World.Looks

variable {R : World σ μ → World σ μ → Prop} (L : Looks R) (c : Context)

include L

theorem keeps_top : Keeps R (c.top : Api σ μ Int) := by
  have := L.toIsPreorder
  exact fun w => refl_of R w

theorem keeps_resolve (i : Int) : Keeps R (c.resolve i : Api σ μ Int) := by
  have := L.toIsPreorder
  exact (L.keeps_top c).bind fun _ => .check _

theorem keeps_checkStack (n : Int) : Keeps R (c.checkStack n : Api σ μ Unit) := by
  have := L.toIsPreorder
  intro w
  unfold Context.checkStack
  split
  · exact refl_of R w
  · have h := L.reserve w c n.toNat
    cases hr : w.reserve c n.toNat with
    | mk ok w' =>
      rw [hr] at h
      cases ok <;> exact h

theorem keeps_shared : Keeps R (c.shared : Api σ μ Nat) := by
  have := L.toIsPreorder
  unfold Context.shared
  refine (L.keeps_checkStack c 1).bind fun _ => Keeps.get.bind fun w => Keeps.get.bind fun w' => ?_
  split
  · exact .ite (.throw _) (.pure _)
  · exact .throw _

theorem keeps_sameVm (d : Context) : Keeps R (c.sameVm d : Api σ μ Bool) := by
  have := L.toIsPreorder
  intro w
  unfold Context.sameVm
  have h := L.keeps_shared c w
  split
  next a w₁ hc =>
    rw [hc] at h
    have h' := L.keeps_shared d w₁
    split <;> next hd => rw [hd] at h'; exact trans_of R h h'
  next e w₁ hc =>
    rw [hc] at h
    exact trans_of R h (L.keeps_shared d w₁)

theorem keeps_owns (h : ThreadHandle) : Keeps R (c.owns h : Api σ μ Bool) := by
  have := L.toIsPreorder
  unfold Context.owns
  refine Keeps.get.bind fun w => ?_
  split
  · exact .ite (.pure _) ((L.keeps_shared c).bind fun _ => .pure _)
  · exact .pure _

theorem keeps_capture (pos : Int) : Keeps R (c.capture pos : Api σ μ ThreadHandle) := by
  have := L.toIsPreorder
  unfold Context.capture
  refine (L.keeps_shared c).bind fun vm => (L.keeps_checkStack c 1).bind fun _ =>
    Keeps.get.bind fun w => ?_
  split
  next t _ => exact fun w => L.anchor w ⟨vm, t⟩
  next => exact .throw _

theorem keeps_read (i : Int) : Keeps R (c.read i : Api σ μ Value) := by
  have := L.toIsPreorder
  unfold Context.read
  refine (L.keeps_resolve c i).bind fun pos => (L.keeps_checkStack c 2).bind fun _ =>
    Keeps.get.bind fun w => ?_
  cases w.at_ c pos with
  | thread t => exact (L.keeps_capture c pos).bind fun _ => .pure _
  | _ => exact .pure _

theorem keeps_readFrom (pos : Int) (n : Nat) (acc : List Value) :
    Keeps R (c.readFrom pos n acc : Api σ μ (List Value)) := by
  have := L.toIsPreorder
  induction n generalizing pos acc with
  | zero => exact .pure _
  | succ n ih =>
    intro w
    unfold Context.readFrom
    have h := L.keeps_read c pos w
    split
    next hr =>
      rw [hr] at h
      exact trans_of R h (ih _ _ _)
    next hr =>
      rw [hr] at h
      exact trans_of R h (L.releaseAll _ acc)

theorem keeps_readBatch (n : Int) (start : Option Int) :
    Keeps R (c.readBatch n start : Api σ μ (List Value)) := by
  have := L.toIsPreorder
  unfold Context.readBatch
  exact .ite (.pure _) ((L.keeps_top c).bind fun _ => (Keeps.check _).bind fun _ =>
    L.keeps_readFrom c _ _ _)

variable (hm : ∀ w f, R w (w.modifySlots c f))

include hm

theorem keeps_pop (n : Int) : Keeps R (c.pop n : Api σ μ Unit) := by
  have := L.toIsPreorder
  unfold Context.pop
  exact .ite (.pure _) ((L.keeps_top c).bind fun _ => (Keeps.check _).discard.bind fun _ =>
    .modify fun w => hm w _)

theorem keeps_popValues (n : Int) : Keeps R (c.popValues n : Api σ μ (List Value)) := by
  have := L.toIsPreorder
  exact (L.keeps_readBatch c n none).bind fun _ => (L.keeps_pop c hm n).bind fun _ => .pure _

end World.Looks

/-- What working on stacks keeps: a change of the slots of those that may be worked on, of objects, a
new thread, another reference to a host object, for someone or for a new userdata, and a log record. -/
structure World.Works (A : Context → Prop) (R : World σ μ → World σ μ → Prop) : Prop
    extends Looks R where
  slots : ∀ w c f, A c → R w (w.modifySlots c f)
  objects : ∀ w i f, (∀ vm, (f vm).threads = vm.threads) → (∀ vm : Vm, vm.heap.Carries (f vm).heap) →
    R w (w.modifyVm i f)
  spawn : ∀ w i slots, R w (w.modifyVm i fun vm => { vm with threads := vm.threads.push (.new slots) })
  retain : ∀ w v, R w (w.retain v)
  carry : ∀ w (c : Context) v p m b x, v.asset? = some x → p.asset? = some x →
    R w ((w.retain v).pushUserdata c p m b).2
  log : ∀ w level text fields, R w (w.log level text fields)

namespace World.Works

variable {A : Context → Prop} {R : World σ μ → World σ μ → Prop} (W : Works A R) (c : Context)

include W

theorem chain {w w₁ w' : World σ μ} (h : R w w₁) (k : R w₁ w') : R w w' := by
  have := W.toIsPreorder
  exact trans_of R h k

theorem push (w : World σ μ) (v : Val) (hc : A c) : R w (w.push c v) := W.slots w c _ hc

theorem release (w : World σ μ) (v : Value) : R w (w.release v) := W.releaseAll w [v]

theorem modifyHeap (w : World σ μ) (i : Nat) {f : Heap → Heap} (hf : ∀ h : Heap, h.Carries (f h)) :
    R w (w.modifyHeap i f) :=
  W.objects w i _ (fun _ => rfl) fun vm => hf vm.heap

theorem onVm [Inhabited α] (w : World σ μ) (i : Nat) {f : Vm → Vm × α}
    (hf : ∀ vm, (f vm).1.threads = vm.threads) (hh : ∀ vm : Vm, vm.heap.Carries (f vm).1.heap) :
    R w (w.onVm i f).2 := by
  rw [onVm_world]
  exact W.objects w i _ hf hh

theorem releasePayload (w : World σ μ) (p : Payload) : R w (w.releasePayload p) := by
  have := W.toIsPreorder
  unfold World.releasePayload
  split
  next id => exact W.release w (.function .raw id)
  next id => exact W.release w (.foreign id)
  next => exact refl_of R w

theorem closureOf (w : World σ μ) (shape : FunctionShape) (id : Nat) :
    R w (w.closureOf c shape id).2 := by
  unfold World.closureOf
  cases shape <;>
    exact W.chain (W.carry w c _ _ _ _ _ rfl rfl)
      (W.onVm _ _ (fun _ => rfl) fun vm => vm.heap.carries_newClosure _)

theorem pushFunction (w : World σ μ) (shape : FunctionShape) (id : Nat) (hc : A c) :
    R w (w.pushFunction c shape id) :=
  W.chain (W.closureOf c w shape id) (W.push c _ _ hc)

theorem pushForeign (w : World σ μ) (id : Nat) (hc : A c) : R w (w.pushForeign c id) :=
  W.chain (W.carry w c _ _ _ _ _ rfl rfl) (W.push c _ _ hc)

theorem popErrorText (w : World σ μ) (hc : A c) : R w (w.popErrorText c).2 := by
  have := W.toIsPreorder
  unfold World.popErrorText
  split
  · exact refl_of R w
  next v _ =>
    cases v with
    | nil | bool _ | int _ | float _ | str _ => exact W.slots w c _ hc
    | _ => exact W.chain (W.reserve w c 2) (W.slots _ c _ hc)

theorem keeps_checkStackFor (n : Nat) : Keeps R (c.checkStackFor n : Api σ μ Unit) := by
  have := W.toIsPreorder
  unfold Context.checkStackFor
  exact .ite ((Keeps.throw _).bind fun _ => W.keeps_checkStack c _) (W.keeps_checkStack c _)

theorem keeps_cut (n : Nat) (hc : A c) : Keeps R (c.cut n : Api σ μ Unit) :=
  .modify fun w => W.slots w c _ hc

theorem keeps_setTop (n : Int) (hc : A c) : Keeps R (c.setTop n : Api σ μ Unit) := by
  have := W.toIsPreorder
  unfold Context.setTop
  have hk : ∀ target : Int, Keeps R (do
      let depth ← c.top
      if depth < target then c.checkStack (target - depth)
      c.cut target.toNat : Api σ μ Unit) := fun _ =>
    (W.keeps_top c).bind fun _ =>
      .ite ((W.keeps_checkStack c _).bind fun _ => W.keeps_cut c _ hc) (W.keeps_cut c _ hc)
  exact .ite ((W.keeps_resolve c n).bind hk) ((Keeps.pure n).bind hk)

theorem keeps_modifySlots (f : Int → Array Val → Array Val) (i : Int) (hc : A c) :
    Keeps R (do
      let pos ← c.resolve i
      Api.modify (·.modifySlots c (f pos)) : Api σ μ Unit) := by
  have := W.toIsPreorder
  exact (W.keeps_resolve c i).bind fun _ => .modify fun w => W.slots w c _ hc

theorem keeps_duplicate (i : Int) (hc : A c) : Keeps R (c.duplicate i : Api σ μ Unit) := by
  have := W.toIsPreorder
  exact (W.keeps_resolve c i).bind fun _ => (W.keeps_checkStack c 1).bind fun _ =>
    .modify fun w => W.push c w _ hc

theorem keeps_rotate (i n : Int) (hc : A c) : Keeps R (c.rotate i n : Api σ μ Unit) := by
  have := W.toIsPreorder
  unfold Context.rotate
  exact (W.keeps_resolve c i).bind fun _ => (W.keeps_top c).bind fun _ =>
    .ite (.modify fun w => W.slots w c _ hc) (.pure ())

theorem keeps_copy (i j : Int) (hc : A c) : Keeps R (c.copy i j : Api σ μ Unit) := by
  have := W.toIsPreorder
  exact (W.keeps_resolve c i).bind fun _ => W.keeps_modifySlots c _ j hc

theorem keeps_typeOf (i : Int) : Keeps R (c.typeOf i : Api σ μ TypeTag) := by
  have := W.toIsPreorder
  exact (W.keeps_resolve c i).bind fun _ => Keeps.get.bind fun _ => .pure _

theorem keeps_rawLen (i : Int) : Keeps R (c.rawLen i : Api σ μ Nat) := by
  have := W.toIsPreorder
  exact (W.keeps_resolve c i).bind fun _ => Keeps.get.bind fun _ => .pure _

theorem keeps_validate (h : Handle) : Keeps R (c.validate h : Api σ μ Unit) := by
  have := W.toIsPreorder
  unfold Context.validate
  exact (W.keeps_top c).bind fun _ =>
    .ite ((W.keeps_checkStack c 2).bind fun _ => Keeps.get.bind fun _ => .check _) (.check _)

theorem keeps_pushThread (h : ThreadHandle) (hc : A c) :
    Keeps R (c.pushThread h : Api σ μ Unit) := by
  have := W.toIsPreorder
  unfold Context.pushThread
  have hp : Keeps R (Api.modify fun w : World σ μ => w.push c (.thread h.thread.thread)) :=
    .modify fun w => W.push c w _ hc
  have hk : Keeps R (do
      if h.thread ≠ c then Context.checkStack h.thread 1
      Api.modify (·.push c (.thread h.thread.thread)) : Api σ μ Unit) :=
    .ite ((W.keeps_checkStack _ 1).bind fun _ => hp) hp
  exact (W.keeps_owns c h).bind fun _ => .ite ((Keeps.throw _).bind fun _ => hk) hk

theorem keeps_push (v : Value) (hc : A c) : Keeps R (c.push v : Api σ μ Unit) := by
  have := W.toIsPreorder
  unfold Context.push
  refine (W.keeps_checkStack c 3).bind fun _ => ?_
  cases v with
  | function shape id => exact .modify fun w => W.pushFunction c w shape id hc
  | thread h => exact W.keeps_pushThread c h hc
  | handle h => exact (W.keeps_validate c h).bind fun _ => .modify fun w => W.push c w _ hc
  | foreign id => exact .modify fun w => W.pushForeign c w id hc
  | _ => exact .modify fun w => W.push c w _ hc

theorem keeps_pushEach (vs : List Value) (hc : A c) : Keeps R (c.pushEach vs : Api σ μ Unit) := by
  have := W.toIsPreorder
  induction vs with
  | nil => exact .pure ()
  | cons v vs ih => exact (W.keeps_push c v hc).bind fun _ => ih

theorem keeps_pushAll (vs : List Value) (hc : A c) : Keeps R (c.pushAll vs : Api σ μ Unit) := by
  have := W.toIsPreorder
  exact (W.keeps_checkStackFor c _).bind fun _ => W.keeps_pushEach c vs hc

theorem keeps_readForeign (i : Int) : Keeps R (c.readForeign i : Api σ μ (Option Value)) := by
  have := W.toIsPreorder
  unfold Context.readForeign
  refine (W.keeps_resolve c i).bind fun pos => (W.keeps_checkStack c 2).bind fun _ => ?_
  intro w
  dsimp only
  split
  next id _ => exact W.retain w (.foreign id)
  next => exact refl_of R w

theorem keeps_getGlobal (name : Bytes) (hc : A c) :
    Keeps R (c.getGlobal name : Api σ μ Value) := by
  have := W.toIsPreorder
  exact (W.keeps_checkStack c 3).bind fun _ =>
    (Keeps.modify fun w => W.push c w _ hc).bind fun _ => W.keeps_read c (-1)

theorem keeps_setGlobal (name : Bytes) (hc : A c) :
    Keeps R (c.setGlobal name : Api σ μ Unit) := by
  have := W.toIsPreorder
  exact (W.keeps_resolve c (-1)).bind fun _ => (W.keeps_checkStack c 3).bind fun _ =>
    .modify fun w => W.chain (W.modifyHeap w _ fun h => h.carries_rawSet _ _ _) (W.slots _ c _ hc)

theorem keeps_transfer (d : Context) (n : Int) (hc : A c) (hd : A d) :
    Keeps R (c.transfer d n : Api σ μ Unit) := by
  have := W.toIsPreorder
  unfold Context.transfer
  refine .ite (.pure ()) ((W.keeps_top c).bind fun depth => (Keeps.check _).discard.bind fun _ =>
    (W.keeps_sameVm c d).bind fun _ => ?_)
  have hk : Keeps R (do
      if c = d then return
      d.checkStack n
      Api.modify fun w =>
        let moved := (w.slots c).toList.drop (depth - n).toNat
        (w.truncate c (depth - n).toNat).modifySlots d (· ++ moved.toArray) : Api σ μ Unit) :=
    .ite (.pure ()) ((W.keeps_checkStack d n).bind fun _ => .modify fun w =>
      W.chain (W.slots w c _ hc) (W.slots _ d _ hd))
  exact .ite ((Keeps.throw _).bind fun _ => hk) hk

theorem keeps_tryLoadWith (chunk name : Bytes) (mode : LoadMode) (hc : A c) :
    Keeps R (c.tryLoadWith chunk name mode : Api σ μ LoadOutcome) := by
  have := W.toIsPreorder
  unfold Context.tryLoadWith
  refine (W.keeps_checkStack c 1).bind fun _ => ?_
  intro w
  refine W.chain (W.onVm w c.vm (fun vm => ?_) fun vm => ?_) (W.push c _ _ hc)
  · split <;> rfl
  · split
    next hl => exact Heap.carries_load hl
    next => exact .refl _

theorem keeps_configuredName : Keeps R (c.configuredName : Api σ μ Bytes) := by
  have := W.toIsPreorder
  exact (W.keeps_shared c).bind fun _ => Keeps.get.bind fun _ => .pure _

theorem keeps_tryLoad (chunk : Bytes) (hc : A c) :
    Keeps R (c.tryLoad chunk : Api σ μ LoadOutcome) := by
  have := W.toIsPreorder
  exact (W.keeps_configuredName c).bind fun _ => W.keeps_tryLoadWith c _ _ _ hc

theorem keeps_loadWith (chunk name : Bytes) (mode : LoadMode) (hc : A c) :
    Keeps R (c.loadWith chunk name mode : Api σ μ Unit) := by
  have := W.toIsPreorder
  unfold Context.loadWith
  have hk (base : Int) (text : Option String) : Keeps R (do
      c.cut base.toNat
      let e := Error.ofDescription text
      Api.modify (·.log .debug "chunk failed to load" [("error", e.message)])
      throw e : Api σ μ Unit) :=
    (W.keeps_cut c _ hc).bind fun _ => (Keeps.modify fun w => W.log w _ _ _).bind fun _ => .throw _
  refine (W.keeps_top c).bind fun base => (W.keeps_tryLoadWith c _ _ _ hc).bind fun _ =>
    .ite (.pure ()) ((W.keeps_top c).bind fun _ => (W.keeps_typeOf c _).bind fun _ => .ite ?_ ?_)
  · have hp : Keeps R (fun w => (.ok (some (w.popErrorText c).1), (w.popErrorText c).2) :
        Api σ μ (Option String)) := fun w => W.popErrorText c w hc
    exact hp.bind (hk base)
  · exact (Keeps.pure none).bind (hk base)

theorem keeps_load (chunk : Bytes) (hc : A c) : Keeps R (c.load chunk : Api σ μ Unit) := by
  have := W.toIsPreorder
  exact (W.keeps_configuredName c).bind fun _ => W.keeps_loadWith c _ _ _ hc

theorem keeps_loadNamed (chunk : Bytes) (name : String) (mode : LoadMode) (hc : A c) :
    Keeps R (c.loadNamed chunk name mode : Api σ μ Unit) := by
  have := W.toIsPreorder
  exact (Keeps.check _).bind fun _ => W.keeps_loadWith c _ _ _ hc

theorem keeps_captureTop {v : World σ μ → Val × World σ μ} (hc : A c)
    (hv : ∀ w, R w (v w).2) : Keeps R (c.captureTop v) := by
  have := W.toIsPreorder
  unfold Context.captureTop
  refine (W.keeps_checkStack c 2).bind fun _ =>
    (Keeps.modify fun w => W.chain (hv w) (W.push c _ _ hc)).bind fun _ =>
      (W.keeps_top c).bind fun top => ?_
  intro w
  exact W.chain (W.keeps_capture c top w) (W.slots _ c _ hc)

theorem keeps_newThread (hc : A c) : Keeps R (c.newThread : Api σ μ ThreadHandle) := by
  refine W.keeps_captureTop c hc fun w => ?_
  rw [onVm_world]
  exact W.spawn w c.vm #[]

theorem keeps_currentThread (hc : A c) : Keeps R (c.currentThread : Api σ μ ThreadHandle) := by
  have := W.toIsPreorder
  exact W.keeps_captureTop c hc fun w => refl_of R w

theorem keeps_status (h : ThreadHandle) : Keeps R (h.status c : Api σ μ CoroutineStatus) := by
  have := W.toIsPreorder
  intro w
  unfold ThreadHandle.status
  split
  · exact refl_of R w
  · split <;> exact refl_of R w

theorem keeps_pushLoaded (hc : A c) : Keeps R (c.pushLoaded : Api σ μ Unit) := by
  refine .modify fun w => ?_
  have h := W.onVm w c.vm
    (f := fun vm =>
      let loaded := vm.heap.subtable vm.heap.registryTable "_LOADED"
      ({ vm with heap := loaded.2 }, loaded.1)) (fun _ => rfl) fun vm => vm.heap.carries_subtable _ _
  exact W.chain h (W.push c _ _ hc)

theorem keeps_pushOpener (o : ModuleOpener) (hc : A c) :
    Keeps R (c.pushOpener o : Api σ μ Unit) := by
  refine .modify fun w => ?_
  cases o with
  | native f => exact W.push c w _ hc
  | host shape id => exact W.pushFunction c w shape id hc

theorem keeps_removeAt (pos : Nat) (hc : A c) : Keeps R (c.removeAt pos : Api σ μ Unit) :=
  .modify fun w => W.slots w c _ hc

end World.Works

theorem World.works_touches (A : Context → Prop) : Works A (TouchesIn (σ := σ) (μ := μ) A) where
  refl _ := .refl
  trans _ _ _ := .trans
  reserve := touches_reserve
  anchor w t := .single (.handle (.made w t))
  releaseAll := touches_releaseAll
  slots w c f hc := touches_modifySlots w c f hc
  objects w i f hf _ := .single (.objects w i f hf)
  spawn w i slots := .single (.spawn w i (.new slots))
  retain := touches_retain
  carry w c v p m b _ _ _ := (touches_retain w v).trans (touches_pushUserdata _ c p m b)
  log w _ _ _ := touches_notify w _

/-- An operation that makes only changes that need no run, on such stacks. -/
abbrev Api.QuietIn (A : Context → Prop) (a : Api σ μ α) : Prop := Api.Keeps (TouchesIn A) a

/-- An operation that makes only changes that need no run. -/
abbrev Api.Quiet (a : Api σ μ α) : Prop := a.QuietIn fun _ => True

namespace Context

variable {A : Context → Prop} (c : Context)

theorem quiet_top : QuietIn A (c.top : Api σ μ Int) := (works_touches A).keeps_top c

theorem quiet_resolve (i : Int) : QuietIn A (c.resolve i : Api σ μ Int) :=
  (works_touches A).keeps_resolve c i

theorem quiet_checkStack (n : Int) : QuietIn A (c.checkStack n : Api σ μ Unit) :=
  (works_touches A).keeps_checkStack c n

theorem quiet_cut (n : Nat) (hc : A c) : QuietIn A (c.cut n : Api σ μ Unit) :=
  (works_touches A).keeps_cut c n hc

theorem quiet_pop (n : Int) (hc : A c) : QuietIn A (c.pop n : Api σ μ Unit) :=
  (works_touches A).keeps_pop c (fun w f => touches_modifySlots w c f hc) n

theorem quiet_duplicate (i : Int) (hc : A c) : QuietIn A (c.duplicate i : Api σ μ Unit) :=
  (works_touches A).keeps_duplicate c i hc

theorem quiet_typeOf (i : Int) : QuietIn A (c.typeOf i : Api σ μ TypeTag) :=
  (works_touches A).keeps_typeOf c i

theorem quiet_rawLen (i : Int) : QuietIn A (c.rawLen i : Api σ μ Nat) :=
  (works_touches A).keeps_rawLen c i

theorem quiet_sameVm (d : Context) : QuietIn A (c.sameVm d : Api σ μ Bool) :=
  (works_touches A).keeps_sameVm c d

theorem quiet_read (i : Int) : QuietIn A (c.read i : Api σ μ Value) := (works_touches A).keeps_read c i

theorem quiet_readBatch (n : Int) (start : Option Int) :
    QuietIn A (c.readBatch n start : Api σ μ (List Value)) := (works_touches A).keeps_readBatch c n start

theorem quiet_popValues (n : Int) (hc : A c) :
    QuietIn A (c.popValues n : Api σ μ (List Value)) :=
  (works_touches A).keeps_popValues c (fun w f => touches_modifySlots w c f hc) n

theorem quiet_validate (h : Handle) : QuietIn A (c.validate h : Api σ μ Unit) :=
  (works_touches A).keeps_validate c h

theorem quiet_owns (h : ThreadHandle) : QuietIn A (c.owns h : Api σ μ Bool) :=
  (works_touches A).keeps_owns c h

theorem quiet_push (v : Value) (hc : A c) : QuietIn A (c.push v : Api σ μ Unit) :=
  (works_touches A).keeps_push c v hc

theorem quiet_pushAll (vs : List Value) (hc : A c) : QuietIn A (c.pushAll vs : Api σ μ Unit) :=
  (works_touches A).keeps_pushAll c vs hc

theorem quiet_readForeign (i : Int) : QuietIn A (c.readForeign i : Api σ μ (Option Value)) :=
  (works_touches A).keeps_readForeign c i

theorem quiet_setGlobal (name : Bytes) (hc : A c) :
    QuietIn A (c.setGlobal name : Api σ μ Unit) :=
  (works_touches A).keeps_setGlobal c name hc

theorem quiet_captureTop {v : World σ μ → Val × World σ μ} (hc : A c)
    (hv : ∀ w, TouchesIn A w (v w).2) : QuietIn A (c.captureTop v) :=
  (works_touches A).keeps_captureTop c hc hv

theorem quiet_status (h : ThreadHandle) : QuietIn A (h.status c : Api σ μ CoroutineStatus) :=
  (works_touches A).keeps_status c h

theorem quiet_removeAt (pos : Nat) (hc : A c) : QuietIn A (c.removeAt pos : Api σ μ Unit) :=
  (works_touches A).keeps_removeAt c pos hc

end Context

variable {A : Context → Prop}

theorem World.touches_notices (ns : List Notice) (w : World σ μ) :
    TouchesIn A w (ns.foldl World.notify w) := by
  induction ns generalizing w with
  | nil => exact .refl
  | cons n ns ih => exact (touches_notify w n).trans (ih _)

/-- However the report of a fault ends, the register may have changed, and something may have become
known. -/
theorem World.fault_cases (c : Context) (w : World σ μ) :
    ∃ e hook ns, World.fault c w = (.ok e, List.foldl World.notify { w with hook } ns) := by
  unfold World.fault
  split
  next ns e s _ => exact ⟨e, s.hook, ns, rfl⟩
  next => exact ⟨.blocked, w.hook, [], rfl⟩

theorem World.quiet_fault (c : Context) : QuietIn A (World.fault c : Api σ μ FaultEnd) := by
  intro w
  obtain ⟨e, hook, ns, h⟩ := fault_cases c w
  rw [h]
  have hhook : TouchesIn A w { w with hook } := touches_host rfl rfl rfl rfl
  exact hhook.trans (touches_notices _ _)

/-- The other stack that an operation works on, if there is one. -/
def StackOp.target? : StackOp α → Option Context
  | .transfer d _ => some d
  | _ => none

/-- The operation reports a fault. -/
def StackOp.isFault : StackOp α → Bool
  | .fault => true
  | _ => false

/-- Every operation of this kind keeps what working on stacks keeps, if faults do. -/
theorem StackOp.keeps {R : World σ μ → World σ μ → Prop} (W : World.Works A R) (c : Context)
    (o : StackOp α) (hc : A c) (ht : ∀ d, o.target? = some d → A d)
    (hfault : o.isFault = true → Keeps R (World.fault c)) : Keeps R (o.perform c : Api σ μ α) := by
  cases o with
  | top => exact W.keeps_top c
  | resolve i => exact W.keeps_resolve c i
  | setTop n => exact W.keeps_setTop c n hc
  | checkStack n => exact W.keeps_checkStack c n
  | pop n => exact W.keeps_pop c (fun w f => W.slots w c f hc) n
  | remove i => exact W.keeps_modifySlots c _ i hc
  | duplicate i => exact W.keeps_duplicate c i hc
  | replace i => exact W.keeps_modifySlots c _ i hc
  | rotate i n => exact W.keeps_rotate c i n hc
  | copy i j => exact W.keeps_copy c i j hc
  | typeOf i => exact W.keeps_typeOf c i
  | rawLen i => exact W.keeps_rawLen c i
  | push v => exact W.keeps_push c v hc
  | pushAll vs => exact W.keeps_pushAll c vs hc
  | read i => exact W.keeps_read c i
  | readBatch n start => exact W.keeps_readBatch c n start
  | popValues n => exact W.keeps_popValues c (fun w f => W.slots w c f hc) n
  | validate h => exact W.keeps_validate c h
  | readForeign i => exact W.keeps_readForeign c i
  | getGlobal name => exact W.keeps_getGlobal c name hc
  | setGlobal name => exact W.keeps_setGlobal c name hc
  | transfer d n => exact W.keeps_transfer c d n hc (ht d rfl)
  | sameVm d => exact W.keeps_sameVm c d
  | load s => exact W.keeps_load c s hc
  | loadNamed s n m => exact W.keeps_loadNamed c s n m hc
  | tryLoad s => exact W.keeps_tryLoad c s hc
  | newThread => exact W.keeps_newThread c hc
  | currentThread => exact W.keeps_currentThread c hc
  | belongs h => exact W.keeps_owns c h
  | status h => exact W.keeps_status c h
  | fault => exact hfault rfl

/-- Whatever an operation of this kind does, it does it without a run. -/
theorem StackOp.quiet (c : Context) (o : StackOp α) (hc : A c)
    (ht : ∀ d, o.target? = some d → A d) :
    QuietIn A (o.perform c : Api σ μ α) :=
  o.keeps (World.works_touches A) c hc ht fun _ => World.quiet_fault c

end LuaEmbed
