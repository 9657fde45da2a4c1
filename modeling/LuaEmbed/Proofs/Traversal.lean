import LuaEmbed.Host.Drive
import LuaEmbed.Proofs.Quiet

/-!
Every operation of a host is put together from changes that need no run and from a few operations
that run a thread, or that open or close something. So a property of runs which putting together
passes on is one of every operation, once it is one of these few.
-/
namespace LuaEmbed

open Engine World

variable {σ μ α β : Type}

/-- What an operation without a run does beside working on a stack: it may change what the host alone
knows, and make a host object. -/
structure Effects (A : Context → Prop) (S : World σ μ → World σ μ → Prop) : Prop extends Works A S where
  host : ∀ {w w'}, w'.instances = w.instances → w'.functions = w.functions →
    w'.foreigns = w.foreigns → w'.anchors = w.anchors → w'.views = w.views →
    w'.history = w.history → S w w'
  newForeign : ∀ w payload, S w (w.newForeign payload).2
  newFunction : ∀ w shape code, S w (w.newFunction shape code).2

/-- A report of a fault changes what the host alone knows. -/
theorem Effects.fault {A : Context → Prop} {S : World σ μ → World σ μ → Prop} (E : Effects A S)
    (c : Context) : (World.fault c : Api σ μ FaultEnd).Keeps S := by
  have hnotices : ∀ (ns : List Notice) (w : World σ μ), S w (ns.foldl World.notify w) := by
    intro ns
    induction ns with
    | nil => exact E.refl
    | cons n ns ih =>
      intro w
      have hfirst : S w (w.notify n) := E.host rfl rfl rfl rfl rfl rfl
      exact E.chain hfirst (ih _)
  intro w
  obtain ⟨e, hook, ns, h⟩ := fault_cases c w
  rw [h]
  have hhook : S w { w with hook } := E.host rfl rfl rfl rfl rfl rfl
  exact E.chain hhook (hnotices _ _)

theorem effects_touches (A : Context → Prop) : Effects A (TouchesIn (σ := σ) (μ := μ) A) where
  toWorks := works_touches A
  host hi _ _ ha hv hh := touches_host hi hv hh ha
  newForeign _ _ := touches_host rfl rfl rfl rfl
  newFunction _ _ _ := touches_host rfl rfl rfl rfl

/-- What a property of runs needs to be one of every operation on such stacks. -/
structure Traversal (A : Context → Prop) (S : World σ μ → World σ μ → Prop)
    (M : ∀ α : Type, Run σ μ α → Prop) : Prop where
  bind : ∀ {α β : Type} {m : Run σ μ α} {k : α → Run σ μ β},
    M α m → (∀ a, M β (k a)) → M β (m >>= k)
  effects : Effects A S
  quiet : ∀ {α : Type} {f : World σ μ → α × World σ μ}, (∀ w, S w (f w).2) → M α (Run.onWorld f)
  invoke : ∀ c f args, A c → M Exit (Context.invoke c f args)
  resumeWith : ∀ source co n, A co → M ResumeEnd (resumeWith source co n)
  finalize : ∀ c v, A c → M Unit (finalize c v)
  pause : ∀ c, A c → M Exit (Run.drive c (.need .pause))
  birth : ∀ vm name (hook : World σ μ → HookRegister), M Unit (Run.update fun w =>
    { w with
      instances := w.instances.push { vm := freshVm vm, chunkName := name }
      hook := hook w })
  dropOwner : ∀ vm, M Unit (dropOwner vm)
  view : ∀ h : ThreadHandle, M (Except Error View) (Run.api (h.view true))
  dropView : ∀ v, M Unit (dropView v true)
  withView : ∀ (h : ThreadHandle) {α : Type} (a : Context → Act σ μ α), A h.thread →
    (∀ c, A c → M (Except Error α) (a c)) → M (Except Error α) (h.withView a)

/-- A view that is open for a while, in terms of its opening and its dropping. -/
theorem withView_of {M : ∀ α : Type, Run σ μ α → Prop}
    (bind : ∀ {α β : Type} {m : Run σ μ α} {k : α → Run σ μ β},
      M α m → (∀ a, M β (k a)) → M β (m >>= k))
    (pure : ∀ {α : Type} (a : α), M α (Pure.pure a)) {h : ThreadHandle}
    (hview : M (Except Error View) (Run.api (h.view false))) (hdrop : ∀ v, M Unit (dropView v false))
    {a : Context → Act σ μ α} (ha : ∀ c, M (Except Error α) (a c)) :
    M (Except Error α) (h.withView a) := by
  have hbind : ∀ {β γ : Type} {m : Act σ μ β} {k : β → Act σ μ γ}, M (Except Error β) m →
      (∀ b, M (Except Error γ) (k b)) → M (Except Error γ) (m >>= k : Act σ μ γ) :=
    fun hm hk => bind hm fun
      | .ok b => hk b
      | .error e => pure (Except.error e)
  have hlift : ∀ {β : Type} {m : Run σ μ β}, M β m →
      M (Except Error β) (ExceptT.lift m : Act σ μ β) := fun hm => bind hm fun b => pure (Except.ok b)
  exact hbind hview fun v => hbind (hlift (ha v.stack)) fun r =>
    hbind (hlift (hdrop v)) fun _ => pure r

/-- What is kept beside the interpreters has changed, and something other than a closing may have
happened. -/
structure World.Noted (w w' : World σ μ) : Prop where
  vms : ∀ i : Nat, (w'.instances[i]?).map Instance.vm = (w.instances[i]?).map Instance.vm
  functions : w'.functions = w.functions
  foreigns : w'.foreigns = w.foreigns
  history : w.history <:+ w'.history
  closed : ∀ i, .closed i ∈ w'.history → .closed i ∈ w.history

namespace World

variable {w w' w₁ : World σ μ}

theorem Noted.trans (h : w.Noted w₁) (k : w₁.Noted w') : w.Noted w' :=
  ⟨fun i => (k.vms i).trans (h.vms i), k.functions.trans h.functions,
    k.foreigns.trans h.foreigns, h.history.trans k.history, fun i hi => h.closed i (k.closed i hi)⟩

theorem noted_silent (hi : w'.instances = w.instances) (hf : w'.functions = w.functions)
    (ho : w'.foreigns = w.foreigns) (hh : w'.history = w.history) : w.Noted w' :=
  ⟨fun i => by rw [hi], hf, ho, hh ▸ List.suffix_refl _, fun i => by rw [hh]; exact id⟩

theorem noted_happened {e : Happening} (hi : w'.instances = w.instances)
    (hf : w'.functions = w.functions) (ho : w'.foreigns = w.foreigns)
    (hh : w'.history = e :: w.history) (he : ∀ i, .closed i ≠ e) : w.Noted w' :=
  ⟨fun i => by rw [hi], hf, ho, by rw [hh]; exact List.suffix_cons _ _, fun i hc =>
    (List.mem_cons.mp (hh ▸ hc)).resolve_left (he i)⟩

theorem noted_modifyInstance (w : World σ μ) (i : Nat) {f : Instance → Instance}
    (hf : ∀ x, (f x).vm = x.vm) : w.Noted (w.modifyInstance i f) := by
  refine ⟨fun j => ?_, rfl, rfl, List.suffix_refl _, fun _ => id⟩
  rw [instances_modifyInstance]
  split
  · cases w.instances[j]? with
    | none => rfl
    | some x => exact congrArg some (hf x)
  · rfl

theorem Noted.thread? (h : w.Noted w') (c : Context) : w'.thread? c = w.thread? c := by
  have hvm : ∀ x : World σ μ, x.thread? c =
      ((x.instances[c.vm]?).map Instance.vm).bind (·.thread? c.thread) := by
    intro x
    unfold World.thread?
    cases x.instances[c.vm]? <;> rfl
  rw [hvm, hvm, h.vms]

theorem noted_view (h : ThreadHandle) (held : Bool) (w : World σ μ) :
    w.Noted (h.view held w).2 := by
  unfold ThreadHandle.view
  split
  · exact noted_silent rfl rfl rfl rfl
  · have hbooks := noted_modifyInstance w h.thread.vm
      (f := fun x => { x with views := x.views + 1 }) fun _ => rfl
    exact hbooks.trans (noted_happened rfl rfl rfl rfl nofun)

end World

/-- What a property of runs needs to be one of what opens and closes interpreters and views: changes
of the records have it, and so has the closing of an interpreter. -/
structure Housekeeping (M : ∀ α : Type, Run σ μ α → Prop) : Prop where
  bind : ∀ {α β : Type} {m : Run σ μ α} {k : α → Run σ μ β},
    M α m → (∀ a, M β (k a)) → M β (m >>= k)
  noted : ∀ {α : Type} {f : World σ μ → α × World σ μ}, (∀ w, Noted w (f w).2) →
    M α (Run.onWorld f)
  shutDown : ∀ vm, M Unit (shutDown vm)

namespace Housekeeping

variable {M : ∀ α : Type, Run σ μ α → Prop} (H : Housekeeping M)

include H

theorem pure (x : α) : M α (Pure.pure x) :=
  H.noted (f := fun w => (x, w)) fun _ => noted_silent rfl rfl rfl rfl

theorem get : M (World σ μ) MonadState.get :=
  H.noted (f := fun w => (w, w)) fun _ => noted_silent rfl rfl rfl rfl

theorem update {f : World σ μ → World σ μ} (h : ∀ w, Noted w (f w)) : M Unit (Run.update f) :=
  H.noted (f := fun w => ((), f w)) h

theorem view (h : ThreadHandle) (held : Bool) : M (Except Error View) (Run.api (h.view held)) :=
  H.noted fun w => noted_view h held w

theorem dropOwner (vm : Nat) : M Unit (dropOwner vm) := by
  unfold World.dropOwner
  refine H.bind H.get fun w => ?_
  split
  · exact H.pure ()
  split
  · exact H.pure ()
  refine H.bind (H.update fun w => ?_) fun _ => ?_
  · have hbooks := noted_modifyInstance w vm (f := ({ · with closed := true })) fun _ => rfl
    exact hbooks.trans (noted_happened rfl rfl rfl rfl nofun)
  · split
    · exact H.shutDown vm
    · exact H.update fun w => noted_silent rfl rfl rfl rfl

theorem dropView (v : View) (held : Bool) : M Unit (dropView v held) := by
  unfold World.dropView
  refine H.bind H.get fun w => ?_
  split
  · exact H.pure ()
  next o _ =>
    split
    · refine H.bind (H.update fun w => noted_happened rfl rfl rfl rfl nofun) fun _ => ?_
      unfold releaseView
      refine H.bind (H.update fun w => noted_modifyInstance w _ fun _ => rfl) fun _ =>
        H.bind H.get fun w => ?_
      split
      · split
        · exact H.shutDown _
        · exact H.pure ()
      · exact H.pure ()
    · exact H.pure ()

/-- A view that is open for a while. -/
theorem withView (h : ThreadHandle) {a : Context → Act σ μ α}
    (ha : ∀ c, M (Except Error α) (a c)) : M (Except Error α) (h.withView a) :=
  withView_of H.bind H.pure (H.view h false) (fun v => H.dropView v false) ha

end Housekeeping

/-- The other stack that an operation works on, if there is one. -/
def CallOp.target? : CallOp α → Option Context
  | .resume h _ => some h.thread
  | _ => none

/-- An operation works on such stacks only. A new interpreter may be any. -/
def Op.Within (A : Context → Prop) : Op σ μ α → Prop
  | .stack c o => A c ∧ ∀ d, o.target? = some d → A d
  | .run c o => A c ∧ ∀ d, o.target? = some d → A d
  | .newInstance _ => ∀ vm, A ⟨vm, 0⟩
  | _ => True

theorem Op.within_all (o : Op σ μ α) : o.Within fun _ => True := by
  cases o <;> simp [Within]

namespace Traversal

variable {A : Context → Prop} {S : World σ μ → World σ μ → Prop}
  {M : ∀ α : Type, Run σ μ α → Prop} (T : Traversal A S M)

theorem ite {p : Prop} [Decidable p] {a b : Run σ μ α} (ha : M α a) (hb : M α b) :
    M α (if p then a else b) := by
  split
  · exact ha
  · exact hb

theorem act_ite {p : Prop} [Decidable p] {a b : Act σ μ α} (ha : M (Except Error α) a)
    (hb : M (Except Error α) b) : M (Except Error α) (if p then a else b : Act σ μ α) :=
  ite ha hb

include T

theorem pure (x : α) : M α (Pure.pure x) := T.quiet (f := fun w => (x, w)) T.effects.refl

theorem get : M (World σ μ) MonadState.get := T.quiet (f := fun w => (w, w)) T.effects.refl

theorem api {a : Api σ μ α} (h : a.Keeps S) : M (Except Error α) (Run.api a) := T.quiet h

theorem update {f : World σ μ → World σ μ} (h : ∀ w, S w (f w)) : M Unit (Run.update f) :=
  T.quiet (f := fun w => ((), f w)) h

theorem act_pure (x : α) : M (Except Error α) (Pure.pure x : Act σ μ α) := T.pure (Except.ok x)

theorem act_throw (e : Error) : M (Except Error α) (MonadExcept.throw e : Act σ μ α) :=
  T.pure (Except.error e)

theorem throw_bind (e : Error) (k : α → Act σ μ β) :
    M (Except Error β) (MonadExcept.throw e >>= k : Act σ μ β) := T.pure (Except.error e)

theorem act_bind {m : Act σ μ α} {k : α → Act σ μ β} (hm : M (Except Error α) m)
    (hk : ∀ a, M (Except Error β) (k a)) : M (Except Error β) (m >>= k : Act σ μ β) :=
  T.bind hm fun r =>
    match r with
    | .ok a => hk a
    | .error e => T.pure (Except.error e)

theorem lift {m : Run σ μ α} (h : M α m) : M (Except Error α) (ExceptT.lift m : Act σ μ α) :=
  T.bind h fun a => T.pure (Except.ok a)

theorem act_api {a : Api σ μ α} (h : a.Keeps S) : M (Except Error α) (Act.api a) := T.api h

theorem act_update {f : World σ μ → World σ μ} (h : ∀ w, S w (f w)) :
    M (Except Error Unit) (Act.update f) := T.lift (T.update h)

theorem act_get : M (Except Error (World σ μ)) (MonadState.get : Act σ μ (World σ μ)) :=
  T.lift T.get

theorem act_map {m : Act σ μ α} (f : α → β) (h : M (Except Error α) m) :
    M (Except Error β) (f <$> m : Act σ μ β) := T.act_bind h fun a => T.act_pure (f a)

theorem finalizeAll (c : Context) (vs : List Val) (hc : A c) :
    M Unit (finalizeAll c vs) := by
  induction vs with
  | nil => exact T.pure ()
  | cons v vs ih => exact T.bind (T.finalize c v hc) fun _ => ih

/-! ### Calls -/

theorem takeCall (c : Context) (n : Nat) (hc : A c) :
    M (Val × List Val) (c.takeCall n) :=
  T.bind T.get fun _ => T.bind (T.update fun w => T.effects.slots w c _ hc) fun _ => T.pure _

theorem protect (c : Context) (n : Nat) (want : Option Nat) (hc : A c) :
    M (Option ErrorStatus) (c.protect n want) := by
  unfold Context.protect
  refine T.bind (T.takeCall c n hc) fun p => T.bind (T.invoke c p.1 p.2 hc) fun e => ?_
  cases e with
  | raised status v => exact T.bind (T.update fun w => T.effects.push c w v hc) fun _ => T.pure _
  | _ => exact T.bind (T.update fun w => T.effects.slots w c _ hc) fun _ => T.pure _

theorem protectedCall (c : Context) (n : Nat) (rc : ResultCount) (base : Nat)
    (hc : A c) : M (Except Error Int) (c.protectedCall n rc base) := by
  unfold Context.protectedCall
  cases rc
  case' fixed m => refine T.act_bind (T.act_api (T.effects.keeps_checkStack c _)) fun _ => ?_
  all_goals
    refine T.act_bind (T.act_update fun w => T.effects.log w _ _ _) fun _ =>
      T.act_bind (T.lift (T.protect c n _ hc)) fun r => ?_
    cases r with
    | none => exact T.act_bind (T.act_api (T.effects.keeps_top c)) fun _ => T.act_pure _
    | some status =>
      exact T.act_bind (T.lift (T.quiet fun w => T.effects.popErrorText c w hc)) fun _ =>
        T.act_bind (T.act_api (T.effects.keeps_cut c base hc)) fun _ =>
          T.act_bind (T.act_update fun w => T.effects.log w _ _ _) fun _ => T.act_throw _

theorem callInPlace (c : Context) (args : List Value) (rc : ResultCount)
    (hc : A c) : M (Except Error Int) (c.callInPlace args rc) := by
  unfold Context.callInPlace
  refine T.act_bind (T.act_api (T.effects.keeps_top c)) fun depth =>
    act_ite (T.throw_bind _ _) (act_ite (T.throw_bind _ _) ?_)
  refine T.act_bind (T.lift (T.api (T.effects.keeps_pushAll c args hc))) fun r => ?_
  cases r with
  | error e => exact T.act_bind (T.act_api (T.effects.keeps_cut c _ hc)) fun _ => T.act_throw e
  | ok _ => exact T.protectedCall c _ rc _ hc

theorem callWith (c : Context) (args : List Value) (rc : ResultCount)
    (hc : A c) : M (Except Error (List Value)) (c.callWith args rc) := by
  unfold Context.callWith
  exact T.act_bind (T.callInPlace c args rc hc) fun _ =>
    T.act_bind (T.act_api (T.effects.keeps_top c)) fun _ =>
      T.act_bind (T.lift (T.api (T.effects.keeps_readBatch c _ _))) fun _ =>
        T.act_bind (T.act_api (T.effects.keeps_cut c _ hc)) fun _ => T.pure _

theorem len (c : Context) (i : Int) (hc : A c) :
    M (Except Error Value) (c.len i) := by
  unfold Context.len
  refine T.act_bind (T.act_api (T.effects.keeps_resolve c i)) fun pos =>
    T.act_bind (T.act_api (T.effects.keeps_checkStack c 2)) fun _ =>
      T.act_bind (T.act_api (T.effects.keeps_top c)) fun base =>
        T.act_bind (T.act_update fun w =>
          T.effects.chain (T.effects.push c w _ hc) (T.effects.push c _ _ hc)) fun _ =>
          T.act_bind (T.act_map _ (T.protectedCall c 1 _ _ hc)) fun _ =>
            T.act_bind (T.lift (T.api (T.effects.keeps_read c _))) fun _ =>
              T.act_bind (T.act_api (T.effects.keeps_cut c _ hc)) fun _ => T.pure _

/-! ### Modules -/

theorem registerModule (c : Context) (name : Bytes) (o : ModuleOpener) (publish : Bool)
    (hc : A c) : M (Except Error Value) (c.registerModule name o publish) := by
  unfold Context.registerModule
  refine T.act_bind (T.act_api (T.effects.keeps_top c)) fun base =>
    T.act_bind (T.act_api (T.effects.keeps_checkStack c 5)) fun _ => ?_
  refine T.act_bind (T.act_api (T.effects.keeps_pushLoaded c hc)) fun _ =>
    T.act_bind (T.act_update fun w => T.effects.push c w _ hc) fun _ => T.act_bind T.act_get fun w => ?_
  have hend : ∀ isLoaded : Bool, M (Except Error Value) (do
      Act.api (c.removeAt (base + 1).toNat)
      if publish then
        Act.api (c.duplicate (-1))
        Act.api (c.setGlobal name)
      Act.update (·.log .debug "module registered"
        [("fresh", if isLoaded then "false" else "true"), ("module", name.toStringLossy),
         ("publish_global", if publish then "true" else "false")])
      Act.api (c.read (-1)) : Act σ μ Value) := by
    intro isLoaded
    refine T.act_bind (T.act_api (T.effects.keeps_removeAt c _ hc)) fun _ => ?_
    have hlog : ∀ fields, M (Except Error Value) (do
        Act.update (·.log .debug "module registered" fields)
        Act.api (c.read (-1)) : Act σ μ Value) := fun fields =>
      T.act_bind (T.act_update fun w => T.effects.log w _ _ _) fun _ => T.act_api (T.effects.keeps_read c _)
    exact act_ite (T.act_bind (T.act_api (T.effects.keeps_duplicate c _ hc)) fun _ =>
      T.act_bind (T.act_api (T.effects.keeps_setGlobal c name hc)) fun _ => hlog _) (hlog _)
  refine act_ite ?_ (hend _)
  refine T.act_bind (T.act_api (T.effects.keeps_cut c _ hc)) fun _ =>
    T.act_bind (T.act_api (T.effects.keeps_pushOpener c o hc)) fun _ =>
      T.act_bind (T.act_update fun w => T.effects.push c w _ hc) fun _ =>
        T.act_bind (T.lift (T.protectedCall c 1 _ _ hc)) fun r => ?_
  cases r with
  | error e => exact T.act_bind (T.act_api (T.effects.keeps_cut c _ hc)) fun _ => T.throw_bind e _
  | ok _ => exact T.act_bind (T.act_update fun w =>
      T.effects.modifyHeap w _ fun h => h.carries_rawSet _ _ _) fun _ => hend _

theorem openLib (c : Context) (lib : StdLib) (hc : A c) :
    M (Except Error Unit) (c.openLib lib) := by
  unfold Context.openLib
  exact T.act_bind (T.registerModule c _ _ _ hc) fun v =>
    T.act_bind (T.act_update fun w => T.effects.release w v) fun _ =>
      T.act_api (T.effects.keeps_pop c (fun w f => T.effects.slots w c f hc) 1)

theorem openLibs (c : Context) (libs : List StdLib) (hc : A c) :
    M (Except Error Unit) (c.openLibs libs) := by
  induction libs with
  | nil => exact T.act_pure ()
  | cons lib libs ih => exact T.act_bind (T.openLib c lib hc) fun _ => ih

/-- What is done for a new interpreter once its number is known. -/
theorem newInstanceAt (config : Config) (name : Bytes) (vm : Nat) (hc : A ⟨vm, 0⟩) :
    M (Except Error Nat) (do
      Act.update fun w =>
        { w with
          instances := w.instances.push { vm := freshVm vm, chunkName := name }
          hook := match config.hook with
            | some h => some h
            | none => w.hook }
      match ← ExceptT.lift (Context.openLibs ⟨vm, 0⟩
          (if config.openStdLibs then StdLib.all else config.libs)) with
      | .error e =>
        ExceptT.lift (World.dropOwner vm)
        throw e
      | .ok () =>
        Act.update (·.log .debug "state created" [("config", config.describe)])
        return vm : Act σ μ Nat) := by
  refine T.act_bind (T.lift (T.birth _ name _)) fun _ =>
    T.act_bind (T.lift (T.openLibs _ _ hc)) fun r => ?_
  cases r with
  | error e => exact T.act_bind (T.lift (T.dropOwner _)) fun _ => T.act_throw e
  | ok _ => exact T.act_bind (T.act_update fun w => T.effects.log w _ _ _) fun _ => T.act_pure _

theorem newInstance (config : Config) (hmain : ∀ vm, A ⟨vm, 0⟩) :
    M (Except Error Nat) (newInstance config) :=
  have := T.effects.toIsPreorder
  T.act_bind (T.act_api (.check _)) fun name => T.act_bind T.act_get fun _ =>
    T.newInstanceAt config name _ (hmain _)

/-! ### Coroutines -/

theorem resume (h : ThreadHandle) (source : Context) (args : List Value)
    (hh : A h.thread) : M (Except Error Resumed) (h.resume source args) := by
  unfold ThreadHandle.resume
  refine T.act_bind (T.act_api (T.effects.keeps_owns source h)) fun own => ?_
  refine act_ite (T.throw_bind _ _) (T.act_bind (T.act_api (T.effects.keeps_status source h)) fun s => ?_)
  cases s with
  | suspended =>
    refine T.withView h _ hh fun co hco => ?_
    unfold World.goOn
    refine T.act_bind (T.act_api (T.effects.keeps_top co)) fun base =>
      act_ite (T.throw_bind _ _) (T.act_bind (T.lift (T.api (T.effects.keeps_pushAll co args hco))) fun r => ?_)
    cases r with
    | error e => exact T.act_bind (T.act_api (T.effects.keeps_cut co _ hco)) fun _ => T.throw_bind e _
    | ok _ =>
      refine T.act_bind (T.lift (T.resumeWith source co _ hco)) fun r => ?_
      cases r with
      | failed v =>
        exact T.act_bind (T.lift (T.quiet fun w =>
          T.effects.chain (T.effects.push co w v hco) (T.effects.popErrorText co _ hco))) fun _ => T.act_throw _
      | _ =>
        exact T.act_bind (T.act_api (T.effects.keeps_popValues co (fun w f => T.effects.slots w co f hco) _))
          fun _ => T.act_pure _
  | _ => exact T.throw_bind _ _

/-! ### Programs -/

theorem call (c : Context) (o : CallOp α) (hc : A c)
    (ht : ∀ d, o.target? = some d → A d) :
    M (Except Error α) (o.perform c) := by
  cases o with
  | call args rc => exact T.callWith c args rc hc
  | callInPlace args rc => exact T.callInPlace c args rc hc
  | len i => exact T.len c i hc
  | registerModule name o publish => exact T.registerModule c name o publish hc
  | openLib lib => exact T.openLib c lib hc
  | openStdLibs => exact T.openLibs c _ hc
  | resume h args => exact T.resume h c args (ht _ rfl)

/-- Every operation on such stacks has the property. -/
theorem op (o : Op σ μ α) (ho : o.Within A) : M α o.perform := by
  cases o with
  | stack c o => exact T.api (o.keeps T.effects.toWorks c ho.1 ho.2 fun _ => T.effects.fault c)
  | run c o => exact T.call c o ho.1 ho.2
  | view h => exact T.view h
  | dropView v => exact T.dropView v
  | newInstance config => exact T.newInstance config ho
  | dropOwner vm => exact T.dropOwner vm
  | newForeign payload => exact T.quiet fun w => T.effects.newForeign w payload
  | newFunction shape code => exact T.quiet fun w => T.effects.newFunction w shape code
  | retain v => exact T.update fun w => T.effects.retain w v
  | release v => exact T.update fun w => T.effects.release w v
  | starve vm on | halt vm on =>
    exact T.update fun w => T.effects.modifyHeap w vm fun h => Heap.carries_of_userdata rfl rfl rfl rfl
  | modifyMemory f => exact T.update fun w => T.effects.host rfl rfl rfl rfl rfl rfl
  | _ => exact T.quiet fun w => T.effects.host rfl rfl rfl rfl rfl rfl

/-- And so has the turn of the collector in it. -/
theorem turnOf (o : Op σ μ α) (ho : ∀ w c, o.maker? w = some c → A c) : M Unit o.turn := by
  unfold Op.turn
  refine T.bind T.get fun w => ?_
  split
  next c hc => exact T.bind (T.pause c (ho w c hc)) fun _ => T.pure ()
  next => exact T.pure ()

/-! ### Demands -/

theorem collect (sweep : ∀ i threads,
    M (List Val) (Run.onVm i fun vm => Collector.collect vm threads))
    (flag : ∀ i collecting, M Unit (Run.update (·.modifyHeap i ({ · with collecting })))) (c : Context)
    (hc : A c) : M Unit (collect c) := by
  unfold World.collect
  exact T.bind T.get fun w => T.bind (sweep _ _) fun lost =>
    T.bind (flag _ true) fun _ => T.bind (T.finalizeAll c lost hc) fun _ => flag _ false

theorem resumeFor (c : Context) (thread : Nat) (args : List Val) (hc : A ⟨c.vm, thread⟩) :
    M (Except Val (List Val)) (resumeFor c thread args) := by
  unfold World.resumeFor
  refine T.bind (T.quiet fun w => T.effects.reserve w _ _) fun ok => ?_
  cases ok with
  | false => exact T.pure _
  | true =>
    refine T.bind (T.update fun w => T.effects.slots w _ _ hc) fun _ =>
      T.bind (T.resumeWith c _ _ hc) fun r => ?_
    cases r with
    | failed v => exact T.pure _
    | _ =>
      refine T.bind T.get fun _ => T.bind (T.update fun w => T.effects.slots w _ _ hc) fun _ =>
        T.bind (T.quiet fun w => T.effects.reserve w _ _) fun ok => ?_
      cases ok <;> exact T.pure _

end Traversal

/-- And so does every host program. -/
theorem Traversal.program {S : World σ μ → World σ μ → Prop} {M : ∀ α : Type, Run σ μ α → Prop}
    (T : Traversal (fun _ => True) S M)
    (p : Program σ μ α) : M α p.perform := by
  induction p with
  | pure a => exact T.pure a
  | step o k ih =>
    exact T.bind (T.turnOf o fun _ _ _ => trivial) fun _ => T.bind (T.op o o.within_all) ih

/-- What a thread goes on with after the collector's turn. -/
def Engine.Demand.afterTurn? : Demand → Option Next
  | .turn => some (.go .run)
  | .pause => some (.exit (.returned []))
  | _ => none

/-- A collection may begin when the demand is met. -/
def Engine.Demand.mayCollect : Demand → Bool
  | .collect _ | .turn | .pause => true
  | _ => false

/-- A collection begins at a moment: it is asked for, or it is the collector's turn, which it takes. -/
def World.Collects (w : World σ μ) (c : Context) : Next → Prop
  | .need (.collect _) => True
  | .need .turn | .need .pause => w.takesTurn c = true
  | _ => False

theorem World.Collects.need {w : World σ μ} {c : Context} {next : Next} (h : w.Collects c next) :
    ∃ demand, next = .need demand := by
  cases next with
  | need demand => exact ⟨demand, rfl⟩
  | _ => exact h.elim

/-- What a property of how host functions run needs, beside one that every operation has: the ways in
which a run ends have it, and it is kept by what goes before and by letting go of the function that has
run. -/
structure Meeting (M : ∀ α : Type, Run σ μ α → Prop) (c : Context) (N : Run σ μ Next → Prop) :
    Prop where
  after : ∀ {α : Type} {m : Run σ μ α} {k : α → Run σ μ Next},
    M α m → (∀ a, N (k a)) → N (m >>= k)
  endHost : ∀ n, N (endHost c n)
  raiseHost : ∀ text, N (raiseHost c text)
  unwind : N Run.unwind
  released : ∀ {m : Run σ μ Next} shape id, N m → N (do
    let next ← m
    Run.update (·.release (.function shape id))
    return next)

namespace Meeting

variable {S : World σ μ → World σ μ → Prop} {M : ∀ α : Type, Run σ μ α → Prop} {c : Context}
  {N : Run σ μ Next → Prop} (H : Meeting M c N) (T : Traversal (fun _ => True) S M)

include H T

omit T in
theorem raisePanic (p : Panic) : N (raisePanic c p) := by
  unfold World.raisePanic
  split
  · exact H.raiseHost _
  · exact H.unwind

theorem runRaw (p : Program σ μ (Outcome Nat)) : N (runRaw p c) := by
  refine H.after (T.program p) fun r => ?_
  cases r with
  | done n =>
    refine H.after T.get fun w => ?_
    dsimp only
    split
    · exact H.endHost n
    · exact H.raiseHost _
  | failed e => exact H.raiseHost _
  | panicked p => exact H.raisePanic p

theorem runList (p : List Value → Program σ μ (Outcome (List Value))) : N (runList p c) := by
  refine H.after T.get fun w => H.after (T.api (T.effects.keeps_readBatch c _ _)) fun r => ?_
  cases r with
  | error e => exact H.raiseHost _
  | ok args =>
    refine H.after (T.program (p args)) fun r => ?_
    cases r with
    | done results =>
      refine H.after (T.api (T.effects.keeps_pushAll c results trivial)) fun pushed =>
        H.after (T.update fun w => T.effects.releaseAll w results) fun _ => ?_
      cases pushed with
      | error e => exact H.raiseHost _
      | ok _ => exact H.endHost _
    | failed e => exact H.raiseHost _
    | panicked p => exact H.raisePanic p

theorem runHost (code : HostCode σ μ) (id : Option Nat) : N (runHost code c id) := by
  refine H.after T.get fun w => ?_
  dsimp only
  split
  · exact H.raiseHost _
  next id shape s _ =>
    refine H.after (T.update fun w => T.effects.retain w _) fun _ => ?_
    cases shape with
    | raw => exact H.released .raw id (H.runRaw T _)
    | list => exact H.released .list id (H.runList T _)

/-- Every demand is met with this property, if native functions and scripts go on with it and if closing
and collecting, where they come about, have what it rests on. -/
theorem meet (code : HostCode σ μ) (demand : Demand) (hanswer : ∀ f, N (answer c f))
    (hturn : ∀ next, demand.afterTurn? = some next → N (Pure.pure next))
    (hclose : ∀ thread onlyFailed k, demand = .close thread onlyFailed k →
      M (Option Val) (closeFor c thread onlyFailed))
    (hcollect : demand.mayCollect = true → M Unit (World.collect c)) :
    N (meet code c demand) := by
  have hpause : demand.mayCollect = true → M Unit (turn c) := fun hd =>
    T.bind T.get fun w => Traversal.ite (hcollect hd) (T.pure ())
  cases demand with
  | host isList id => exact H.runHost T code id
  | resume thread args k => exact H.after (T.resumeFor c thread args trivial) fun _ => hanswer _
  | close thread onlyFailed k =>
    exact H.after (hclose thread onlyFailed k rfl) fun _ => hanswer _
  | collect k => exact H.after (hcollect rfl) fun _ => hanswer _
  | turn => exact H.after (hpause rfl) fun _ => hturn _ rfl
  | pause => exact H.after (hpause rfl) fun _ => hturn _ rfl
  | release p k => exact H.after (T.update fun w => T.effects.releasePayload w p) fun _ => hanswer _

end Meeting
end LuaEmbed
