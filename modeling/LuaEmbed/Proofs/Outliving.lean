import LuaEmbed.Proofs.Closing
import LuaEmbed.Proofs.Disowning

/-!
A view of a stack keeps its interpreter going when the owner lets go of it. Whatever is then done
through the view comes out as if the owner were still there, scripts and host functions that run on
the way included, as long as nobody passes a thread of that interpreter on.
-/
namespace LuaEmbed

open Engine World

variable {σ μ α β : Type} {l : Loss} {i : Nat} {c : Context} {d : Drive σ μ} {w : World σ μ}
  {code : HostCode σ μ}

/-- From a world on, it comes to the same whatever is lost. -/
def Run.HeedlessAt (l : Loss) (d : Drive σ μ) (w : World σ μ) (m : Run σ μ α) : Prop :=
  m d (w.without l) = (m d w).map fun r => (r.1, r.2.without l)

/-- It comes to the same from every world on. -/
def Run.Heedless (l : Loss) (d : Drive σ μ) (m : Run σ μ α) : Prop := ∀ w, m.HeedlessAt l d w

/-- However a thread runs, it runs the same whatever is lost. -/
def Drive.Heedless (l : Loss) (d : Drive σ μ) : Prop := ∀ c n, (Run.drive c n).Heedless l d

namespace Run

theorem HeedlessAt.bind {m : Run σ μ α} {k : α → Run σ μ β} (hm : m.HeedlessAt l d w)
    (hk : ∀ a u, m d w = some (a, u) → (k a).HeedlessAt l d u) : (m >>= k).HeedlessAt l d w := by
  have hb : ∀ u, (m >>= k) d u = (m d u).bind fun r => k r.1 d r.2 := fun _ => rfl
  unfold HeedlessAt at hm ⊢
  rw [hb, hb, hm]
  cases hr : m d w with
  | none => rfl
  | some r => exact hk r.1 r.2 hr

namespace Heedless

theorem bind {m : Run σ μ α} {k : α → Run σ μ β} (hm : m.Heedless l d)
    (hk : ∀ a, (k a).Heedless l d) : (m >>= k).Heedless l d := fun w => (hm w).bind fun a u _ => hk a u

theorem onWorld {f : World σ μ → α × World σ μ}
    (hf : ∀ w, f (w.without l) = ((f w).1, (f w).2.without l)) : (Run.onWorld f).Heedless l d :=
  fun w => congrArg some (hf w)

theorem update {f : World σ μ → World σ μ} (hf : ∀ w, f (w.without l) = (f w).without l) :
    (Run.update f).Heedless l d := fun w => congrArg (fun u => some ((), u)) (hf w)

theorem api {a : Api σ μ α} (ha : a.Heedless l) : (Run.api a).Heedless l d := onWorld ha

theorem onVm [Inhabited α] (j : Nat) (f : Vm → Vm × α) : (Run.onVm j f).Heedless l d :=
  onWorld fun w => onVm_without w l j f

theorem pure (a : α) : Heedless l d (Pure.pure a : Run σ μ α) := fun _ => rfl

theorem unwind : Heedless l d (Run.unwind : Run σ μ α) := fun _ => rfl

/-- Looking at what the owner has no part in. -/
theorem get {k : World σ μ → Run σ μ β} (hk : ∀ w, k (w.without l) = k w)
    (h : ∀ w, (k w).Heedless l d) : Heedless l d (MonadState.get >>= k) := by
  intro w
  have hg : ∀ u, (MonadState.get >>= k) d u = k u d u := fun _ => rfl
  unfold HeedlessAt
  rw [hg, hg, hk]
  exact h w w

theorem ite {p : Prop} [Decidable p] {a b : Run σ μ α} (ha : a.Heedless l d)
    (hb : b.Heedless l d) : (if p then a else b).Heedless l d := by
  split
  · exact ha
  · exact hb

end Heedless
end Run

/-- An operation that may fail comes to the same. -/
abbrev Act.Heedless (l : Loss) (d : Drive σ μ) (m : Act σ μ α) : Prop :=
  Run.Heedless (α := Except Error α) l d m

namespace Act.Heedless

theorem pure (a : α) : Act.Heedless l d (Pure.pure a : Act σ μ α) := Run.Heedless.pure (Except.ok a)

theorem throw (e : Error) : Act.Heedless l d (MonadExcept.throw e : Act σ μ α) :=
  Run.Heedless.pure (Except.error e)

theorem bindCont {k : α → Act σ μ β} (hk : ∀ a, (k a).Heedless l d) (r : Except Error α) :
    Run.Heedless l d (ExceptT.bindCont k r : Run σ μ (Except Error β)) := by
  cases r with
  | ok a => exact hk a
  | error e => exact Run.Heedless.pure (Except.error e)

theorem bind {m : Act σ μ α} {k : α → Act σ μ β} (hm : m.Heedless l d)
    (hk : ∀ a, (k a).Heedless l d) : Act.Heedless l d (m >>= k) :=
  Run.Heedless.bind hm (bindCont hk)

theorem throw_bind (e : Error) (k : α → Act σ μ β) :
    Act.Heedless l d (MonadExcept.throw e >>= k : Act σ μ β) := Run.Heedless.pure (Except.error e)

theorem lift {m : Run σ μ α} (hm : m.Heedless l d) : Act.Heedless l d (ExceptT.lift m) :=
  hm.bind fun a => Run.Heedless.pure (Except.ok a)

theorem api {a : Api σ μ α} (ha : a.Heedless l) : Act.Heedless l d (Act.api a) :=
  Run.Heedless.api ha

theorem update {f : World σ μ → World σ μ} (hf : ∀ w, f (w.without l) = (f w).without l) :
    Act.Heedless l d (Act.update f) := lift (.update hf)

/-- Looking at what the owner has no part in. -/
theorem get {k : World σ μ → Act σ μ β} (hk : ∀ w, k (w.without l) = k w)
    (h : ∀ w, (k w).Heedless l d) : Act.Heedless l d (MonadState.get >>= k) := by
  intro w
  have hg : ∀ u, (MonadState.get >>= k) d u = k u d u := fun _ => rfl
  unfold Run.HeedlessAt
  rw [hg, hg, hk]
  exact h w w

theorem ite {p : Prop} [Decidable p] {a b : Act σ μ α} (ha : a.Heedless l d)
    (hb : b.Heedless l d) : Act.Heedless l d (if p then a else b) := Run.Heedless.ite ha hb

end Act.Heedless

section Operations

variable (hd : d.Heedless l) (c : Context)

include hd

namespace Context

theorem heedless_protect (n : Nat) (want : Option Nat) : (c.protect n want).Heedless l d := by
  unfold protect takeCall invoke
  refine .bind (.get (fun w => by simp only [slots_without]) fun w =>
    .bind (.update fun u => modifySlots_without u l c _) fun _ => .pure _) fun r => ?_
  refine .bind (.bind (.onVm _ _) fun next => hd c next) fun e => ?_
  cases e with
  | raised status v => exact .bind (.update fun w => push_without w l c v) fun _ => .pure _
  | _ => exact .bind (.update fun w => modifySlots_without w l c _) fun _ => .pure _

theorem heedless_protectedCall (n : Nat) (results : ResultCount) (base : Nat) :
    (c.protectedCall n results base).Heedless l d := by
  unfold protectedCall
  cases results
  case' fixed m => refine .bind (.api (c.heedless_checkStack _)) fun _ => ?_
  all_goals
    refine .bind (.update fun _ => rfl) fun _ => .bind (.lift (c.heedless_protect hd n _)) fun r => ?_
    cases r with
    | none => exact .bind (.api c.heedless_top) fun _ => .pure _
    | some status =>
      exact .bind (.lift (.onWorld fun w => popErrorText_without w l c)) fun _ =>
        .bind (.api (c.heedless_cut base)) fun _ => .bind (.update fun _ => rfl) fun _ => .throw _

theorem heedless_callInPlace {args : List Value} (ha : ∀ v ∈ args, l.Spares v)
    (results : ResultCount) : (c.callInPlace args results).Heedless l d := by
  unfold callInPlace
  refine .bind (.api c.heedless_top) fun depth =>
    .ite (.throw_bind _ _) (.ite (.throw_bind _ _) ?_)
  refine .bind (.lift (.api (c.heedless_pushAll ha))) fun r => ?_
  cases r with
  | error e => exact .bind (.api (c.heedless_cut _)) fun _ => .throw e
  | ok _ => exact c.heedless_protectedCall hd _ results _

omit hd in
/-- Results on top of a stack lie on it, so they are read the same. -/
theorem heedless_produced (produced : Int) : Act.Heedless l d (do
    let base := (← Act.api c.top) - produced
    let vs ← ExceptT.lift (Run.api (c.readBatch produced (some (base + 1))))
    Act.api (c.cut base.toNat)
    ExceptT.mk (pure vs) : Act σ μ (List Value)) := by
  intro w
  have htop : ∀ (K : Int → Act σ μ (List Value)) (u : World σ μ),
      (Act.api c.top >>= K) d u = K (u.depth c : Int) d u := fun _ _ => rfl
  have hread : (Run.api (c.readBatch produced (some ((w.depth c : Int) - produced + 1)))).HeedlessAt
      l d w := by
    refine congrArg some (readBatch_without fun first hf => ?_)
    by_cases hstart : 0 ≤ (w.depth c : Int) - produced + 1
    · have hfirst := Index.resolveWindow_ok hstart hf
      obtain ⟨hcount, hlow⟩ := Index.resolveWindow_low hf
      omega
    · refine Index.resolveWindow_fits (fun k hk => ?_) hf
      have hgreatest : (0 : Int) ≤ Word32.greatest := by decide
      rw [← Option.some.inj hk]
      omega
  unfold Run.HeedlessAt
  rw [htop, htop, depth_without]
  exact (hread.bind fun r u _ => Run.Heedless.pure (Except.ok r) u).bind fun r u _ =>
    Act.Heedless.bindCont (fun r => .bind (.api (c.heedless_cut _)) fun _ => Run.Heedless.pure r) r u

theorem heedless_callWith {args : List Value} (ha : ∀ v ∈ args, l.Spares v)
    (results : ResultCount) : (c.callWith args results).Heedless l d := by
  unfold callWith
  exact .bind (c.heedless_callInPlace hd ha results) fun produced => c.heedless_produced produced

theorem heedless_len (k : Int) : (c.len k).Heedless l d := by
  unfold len
  refine .bind (.api (c.heedless_resolve k)) fun pos => .bind (.api (c.heedless_checkStack 2)) fun _ =>
    .bind (.api c.heedless_top) fun base => .bind (.update fun w => ?_) fun _ => ?_
  · rw [push_without, at_without, push_without]
  · have hcall : Act.Heedless l d (discard (c.protectedCall 1 (.fixed 1) base.toNat)) :=
      .bind (c.heedless_protectedCall hd 1 _ _) fun _ => .pure _
    exact .bind hcall fun _ => .bind (.lift (.api (c.heedless_read (-1)))) fun r =>
      .bind (.api (c.heedless_cut _)) fun _ => Run.Heedless.pure r

omit hd in
theorem heedless_pushLoaded : Api.Heedless l (c.pushLoaded : Api σ μ Unit) :=
  .modify fun w => by
    dsimp only
    rw [onVm_without]
    dsimp only
    rw [push_without]

omit hd in
theorem heedless_pushOpener (o : ModuleOpener) :
    Api.Heedless l (c.pushOpener o : Api σ μ Unit) :=
  .modify fun w => by
    cases o with
    | native f => exact push_without w l c _
    | host shape id => exact pushFunction_without w l c shape id

theorem heedless_registerModule (name : Bytes) (o : ModuleOpener) (publish : Bool) :
    (c.registerModule name o publish).Heedless l d := by
  unfold registerModule
  refine .bind (.api c.heedless_top) fun base => .bind (.api (c.heedless_checkStack 5)) fun _ => ?_
  refine .bind (.api c.heedless_pushLoaded) fun _ => .bind (.update fun w => by
    rw [heap_without, at_without, push_without]) fun _ => ?_
  have hend : ∀ isLoaded : Bool, Act.Heedless l d (do
      Act.api (c.removeAt (base + 1).toNat)
      if publish then
        Act.api (c.duplicate (-1))
        Act.api (c.setGlobal name)
      Act.update (·.log .debug "module registered"
        [("fresh", if isLoaded then "false" else "true"), ("module", name.toStringLossy),
         ("publish_global", if publish then "true" else "false")])
      Act.api (c.read (-1)) : Act σ μ Value) := by
    intro isLoaded
    have hlog : ∀ fields, Act.Heedless l d (do
        Act.update (·.log .debug "module registered" fields)
        Act.api (c.read (-1)) : Act σ μ Value) := fun fields =>
      .bind (.update fun _ => rfl) fun _ => .api (c.heedless_read (-1))
    exact .bind (.api (c.heedless_modifySlots _)) fun _ =>
      .ite (.bind (.api (c.heedless_duplicate (-1))) fun _ =>
        .bind (.api (c.heedless_setGlobal name)) fun _ => hlog _) (hlog _)
  refine .get (fun w => by simp only [at_without]) fun w => .ite ?_ (hend _)
  refine .bind (.api (c.heedless_cut _)) fun _ => .bind (.api (c.heedless_pushOpener o)) fun _ =>
    .bind (.update fun w => push_without w l c _) fun _ =>
      .bind (.lift (c.heedless_protectedCall hd 1 _ _)) fun r => ?_
  cases r with
  | error e => exact .bind (.api (c.heedless_cut _)) fun _ => .throw_bind e _
  | ok _ =>
    refine .bind (.update fun w => ?_) fun _ => hend _
    rw [slots_without, at_without, modifyHeap_without]

end Context

namespace World

theorem heedless_finalize (c : Context) (v : Val) : (finalize c v).Heedless l d := by
  unfold finalize
  refine .get (fun w => by rw [heap_without]) fun w => ?_
  split
  · exact .pure ()
  · unfold callFinalizer
    exact .bind (.onVm _ _) fun _ => .bind (.onVm _ _) fun next =>
      .bind (.bind (hd c next) fun _ => .pure _) fun _ => .update fun w => modifyThread_without w l c _

theorem heedless_finalizeAll (c : Context) (vs : List Val) : (finalizeAll c vs).Heedless l d := by
  induction vs with
  | nil => exact .pure ()
  | cons v vs ih => exact .bind (heedless_finalize hd c v) fun _ => ih

/-- Closing an interpreter is noted, and asks for no owner. -/
theorem heedless_shutDown (vm : Nat) : (shutDown vm).Heedless l d := by
  unfold shutDown
  exact .bind (.update fun _ => rfl) fun _ => .bind (.onVm _ _) fun lost =>
    .bind (heedless_finalizeAll hd _ lost) fun _ =>
      .bind (.update fun w => modifyInstance_without w l vm fun _ => rfl) fun _ => .update fun _ => rfl

theorem heedless_releaseView {vm : Nat} (hv : l.owner ≠ some vm) : (releaseView vm).Heedless l d := by
  unfold releaseView
  refine .bind (.update fun w => modifyInstance_without w l vm fun _ => rfl) fun _ =>
    .get (fun w => by rw [instance?_without_of_ne w hv]) fun w => ?_
  split
  · exact .ite (heedless_shutDown hd vm) (.pure ())
  · exact .pure ()

theorem heedless_dropView {v : View} (hv : l.owner ≠ some v.stack.vm) (held : Bool) :
    (dropView v held).Heedless l d := by
  unfold dropView
  refine .get (fun _ => rfl) fun w => ?_
  split
  · exact .pure ()
  · exact .ite (.bind (.update fun _ => rfl) fun _ => heedless_releaseView hd hv) (.pure ())

theorem heedless_dropOwner {vm : Nat} (hv : l.owner ≠ some vm) : (dropOwner vm).Heedless l d := by
  unfold dropOwner
  refine .get (fun w => by rw [instance?_without_of_ne w hv]) fun w => ?_
  split
  · exact .pure ()
  · refine .ite (.pure ()) (.bind (.update fun w => ?_) fun _ =>
      .ite (heedless_shutDown hd vm) (.update fun _ => rfl))
    rw [modifyInstance_without w l vm fun _ => rfl]
    rfl

theorem heedless_resumeWith (source co : Context) (n : Nat) :
    (resumeWith source co n).Heedless l d := by
  unfold resumeWith
  refine .get (fun w => by rw [thread_without]) fun w => .get (fun w => by rw [vm_without]) fun w' => ?_
  split
  · exact .bind (.update fun w => modifySlots_without w l co _) fun _ => .pure _
  · refine .bind (.onVm _ _) fun next => .bind (hd co next) fun e =>
      .bind (.update fun w => modifyVm_without w l co.vm _) fun _ => ?_
    cases e with
    | returned vs => exact .get (fun w => by rw [depth_without]) fun _ => .pure _
    | _ => exact .pure _

theorem heedless_goOn (source co : Context) {args : List Value} (ha : ∀ v ∈ args, l.Spares v) :
    (goOn source co args).Heedless l d := by
  unfold goOn
  refine .bind (.api co.heedless_top) fun base => .ite (.throw_bind _ _) ?_
  refine .bind (.lift (.api (co.heedless_pushAll ha))) fun r => ?_
  cases r with
  | error e => exact .bind (.api (co.heedless_cut _)) fun _ => .throw_bind e _
  | ok _ =>
    refine .bind (.lift (heedless_resumeWith hd source co _)) fun r => ?_
    cases r with
    | returned n | yielded n => exact .bind (.api (co.heedless_popValues n)) fun _ => .pure _
    | failed v =>
      refine .bind (.lift (.onWorld fun w => ?_)) fun _ => .throw _
      rw [push_without, popErrorText_without]

end World

namespace ThreadHandle

variable {q : ThreadHandle} (hq : l.owner ≠ some q.thread.vm)

include hq

/-- A view that is opened is one of the thread's own stack. -/
theorem heedless_withView {a : Context → Act σ μ α} (ha : ∀ c, (a c).Heedless l d) :
    (q.withView a).Heedless l d := by
  let k (v : View) : Act σ μ α := do
    let r ← ExceptT.lift (a v.stack)
    ExceptT.lift (World.dropView v false)
    ExceptT.mk (pure r)
  have hend : ∀ v : View, v.stack = q.thread → (k v).Heedless l d := fun v hv =>
    .bind (.lift (ha v.stack)) fun r =>
      .bind (.lift (heedless_dropView hd (by rw [hv]; exact hq) false)) fun _ => Run.Heedless.pure r
  intro w
  change Run.HeedlessAt (α := Except Error α) l d w
    ((Run.api (q.view false) : Run σ μ (Except Error View)) >>= ExceptT.bindCont k)
  refine (Run.Heedless.api (heedless_view hq false) w).bind fun r u hr => ?_
  cases r with
  | error e => exact Run.Heedless.pure (Except.error e) u
  | ok v =>
    have hview : q.view false w = (.ok v, u) := Option.some.inj hr
    rcases view_cases q false w with ⟨-, he⟩ | ⟨x, -, -, he⟩ <;> rw [he] at hview
    · cases hview
    · obtain ⟨hv, -⟩ := Prod.mk.inj hview
      exact hend v (by rw [← Except.ok.inj hv]) u

theorem heedless_resume (source : Context) {args : List Value} (ha : ∀ v ∈ args, l.Spares v) :
    (q.resume source args).Heedless l d := by
  unfold resume
  refine .bind (.api (source.heedless_owns hq)) fun own => .ite (.throw_bind _ _) ?_
  refine .bind (.api (heedless_status hq source)) fun s => ?_
  cases s with
  | suspended => exact heedless_withView hd hq fun co => heedless_goOn hd source co ha
  | _ => exact .throw_bind _ _

end ThreadHandle
end Operations

/-! ### Programs that pass no thread on -/

/-- It is not about threads of an interpreter. Opening a library is letting go of its module, and that may be
such a thread. -/
def CallOp.Discreet (i : Nat) : CallOp α → Prop
  | .call args _ | .callInPlace args _ => ∀ v ∈ args, ¬ v.ThreadOf i
  | .len _ | .registerModule _ _ _ => True
  | .resume q args => q.thread.vm ≠ i ∧ ∀ v ∈ args, ¬ v.ThreadOf i
  | .openLib _ | .openStdLibs => False

/-- It makes no interpreter, and it is not about the threads, the views and the owner of this one. Without an
owner, a thread that is let go of stays among the references. -/
def Op.Discreet (i : Nat) : Op σ μ α → Prop
  | .stack _ o => o.Discreet i
  | .run _ o => o.Discreet i
  | .release v => ¬ v.ThreadOf i
  | .view q => q.thread.vm ≠ i
  | .dropView v => v.stack.vm ≠ i
  | .dropOwner vm => vm ≠ i
  | .newInstance _ => False
  | _ => True

/-- Whatever answers it gets, a program asks for such operations only, and it ends as stated. -/
def Program.Discreet (i : Nat) (ends : α → Prop) : Program σ μ α → Prop
  | .pure a => ends a
  | .step o k => o.Discreet i ∧ ∀ b, (k b).Discreet i ends

/-- The results of a list function have no thread of an interpreter among them. -/
def Outcome.Discreet (i : Nat) : Outcome (List Value) → Prop
  | .done vs => ∀ v ∈ vs, ¬ v.ThreadOf i
  | _ => True

/-- Host functions pass no thread of an interpreter on. -/
structure HostCode.Discreet (code : HostCode σ μ) (i : Nat) : Prop where
  raw : ∀ s c, (code.raw s c).Discreet i fun _ => True
  list : ∀ s c args, (code.list s c args).Discreet i (Outcome.Discreet i)

section Programs

variable (hl : l.At i) (hd : d.Heedless l)

include hl hd

theorem CallOp.heedless {o : CallOp α} (ho : o.Discreet i) (c : Context) :
    Act.Heedless l d (o.perform c) := by
  have hspares : ∀ {args : List Value}, (∀ v ∈ args, ¬ v.ThreadOf i) → ∀ v ∈ args, l.Spares v :=
    fun ha v hv => hl.spares (ha v hv)
  cases o with
  | call args results => exact c.heedless_callWith hd (hspares ho) results
  | callInPlace args results => exact c.heedless_callInPlace hd (hspares ho) results
  | len k => exact c.heedless_len hd k
  | registerModule name o publish => exact c.heedless_registerModule hd name o publish
  | resume q args => exact ThreadHandle.heedless_resume hd (hl.ne ho.1) c (hspares ho.2)
  | openLib _ | openStdLibs => exact ho.elim

theorem Op.heedless {o : Op σ μ α} (ho : o.Discreet i) : o.perform.Heedless l d := by
  cases o with
  | stack c o => exact .api (StackOp.heedless hl ho c)
  | run c o => exact CallOp.heedless hl hd ho c
  | view q => exact .api (ThreadHandle.heedless_view (hl.ne ho) true)
  | dropView v => exact heedless_dropView hd (hl.ne ho) true
  | newInstance _ => exact ho.elim
  | dropOwner vm => exact heedless_dropOwner hd (hl.ne ho)
  | retain v => exact .update fun w => retain_without w l v
  | release v => exact .update fun w => release_without w l (hl.spares ho)
  | starve vm on | halt vm on => exact .update fun w => modifyHeap_without w l vm _
  | modifyMemory f => exact .update fun _ => rfl
  | _ => exact .onWorld fun _ => rfl

omit hl in
/-- The collector's turn comes whatever is lost. -/
theorem Op.heedless_turn (o : Op σ μ α) : o.turn.Heedless l d := by
  unfold Op.turn
  refine .get (fun w => by rw [maker_without]) fun w => ?_
  split
  · exact .bind (hd _ _) fun _ => .pure _
  · exact .pure _

theorem Program.heedless {ends : α → Prop} {p : Program σ μ α} (hp : p.Discreet i ends) :
    p.perform.Heedless l d := by
  induction p with
  | pure a => exact .pure a
  | step o k ih =>
    exact .bind (Op.heedless_turn hd o) fun _ => .bind (Op.heedless hl hd hp.1) fun b => ih b (hp.2 b)

/-- And where it ends, it ends as stated. -/
theorem Program.heedless_ends {ends : α → Prop} {p : Program σ μ α} (hp : p.Discreet i ends)
    {k : α → Run σ μ β} (hk : ∀ a, ends a → (k a).Heedless l d) :
    (p.perform >>= k).Heedless l d := by
  induction p with
  | pure a => exact hk a hp
  | step o k' ih =>
    have hassoc : (Program.step o k').perform >>= k =
        o.turn >>= fun _ => o.perform >>= fun b => (k' b).perform >>= k :=
      (bind_assoc o.turn (fun _ => o.perform >>= fun b => (k' b).perform) k).trans
        (congrArg (o.turn >>= ·) (funext fun _ => bind_assoc o.perform (fun b => (k' b).perform) k))
    rw [hassoc]
    exact .bind (Op.heedless_turn hd o) fun _ => .bind (Op.heedless hl hd hp.1) fun b => ih b (hp.2 b)

end Programs

/-! ### Runs of threads -/

namespace World

theorem releasePayload_without (w : World σ μ) (l : Loss) (p : Payload) :
    (w.without l).releasePayload p = (w.releasePayload p).without l := by
  unfold releasePayload
  split <;> rfl

theorem heedless_raiseHost (c : Context) (message : String) :
    (raiseHost c message : Run σ μ Next).Heedless l d :=
  .bind (.update fun w => by rw [reserve_without]) fun _ =>
    .get (fun w => by rw [heap_without]) fun _ => .pure _

theorem heedless_raisePanic (c : Context) (p : Panic) :
    (raisePanic c p : Run σ μ Next).Heedless l d := by
  unfold raisePanic
  split
  · exact heedless_raiseHost c _
  · exact .unwind

theorem heedless_endHost (c : Context) (n : Nat) : (endHost c n : Run σ μ Next).Heedless l d :=
  .onVm _ _

section Demands

variable (hd : d.Heedless l)

include hd

theorem heedless_collect (c : Context) : (collect c).Heedless l d := by
  unfold collect
  refine .get (fun w => ?_) fun w => .bind (.onVm _ _) fun lost =>
    .bind (.update fun w => modifyHeap_without w l c.vm _) fun _ =>
      .bind (heedless_finalizeAll hd c lost) fun _ => .update fun w => modifyHeap_without w l c.vm _
  rw [instance?_without w l c.vm (g := fun x => x.references.items.toList.filterMap id) fun _ => rfl]

theorem heedless_turn (c : Context) : (World.turn c).Heedless l d := by
  unfold World.turn
  refine .get (fun w => ?_) fun w => .ite (heedless_collect hd c) (.pure ())
  unfold takesTurn
  rw [heap_without, vm_without]
  rfl

theorem heedless_resumeFor (c : Context) (thread : Nat) (args : List Val) :
    (resumeFor c thread args).Heedless l d := by
  unfold resumeFor
  have hroom : ∀ (co : Context) (n : Nat),
      (Run.onWorld fun w : World σ μ => w.reserve co n).Heedless l d := fun co n =>
    .onWorld fun w => reserve_without w l co n
  have hresults : ∀ n : Nat, Run.Heedless l d (do
      let s := (← get).slots ⟨c.vm, thread⟩
      Run.update (·.truncate ⟨c.vm, thread⟩ (s.size - n))
      if ← Run.onWorld fun w => w.reserve c (n + 1) then
        return .ok (s.toList.drop (s.size - n))
      else return .error (.text "too many results to resume") : Run σ μ (Except Val (List Val))) :=
    fun n => .get (fun w => by rw [slots_without]) fun w =>
      .bind (.update fun w => truncate_without w l _ _) fun _ => .bind (hroom c _) fun _ =>
        .ite (.pure _) (.pure _)
  refine .bind (hroom _ _) fun _ => .ite (.pure _) ?_
  refine .bind (.update fun w => modifySlots_without w l _ _) fun _ =>
    .bind (heedless_resumeWith hd c _ _) fun r => ?_
  cases r with
  | failed v => exact .pure _
  | returned n => exact hresults n
  | yielded n => exact hresults n

theorem heedless_closeFor (c : Context) (thread : Nat) (onlyFailed : Bool) :
    (closeFor c thread onlyFailed).Heedless l d := by
  unfold closeFor
  refine .get (fun w => by rw [vm_without]) fun w => .ite (.pure _) ?_
  refine .get (fun w => by rw [thread_without]) fun w => .bind (.onVm _ _) fun next =>
    .bind (hd _ next) fun e => ?_
  cases e <;> exact .pure _

section Hosts

variable (hl : l.At i)

include hl

theorem heedless_runRaw {p : Program σ μ (Outcome Nat)} (hp : p.Discreet i fun _ => True)
    (c : Context) : (runRaw p c).Heedless l d := by
  refine .bind (Program.heedless hl hd hp) fun r => ?_
  cases r with
  | done count =>
    exact .get (fun w => by simp only [depth_without]) fun w =>
      .ite (heedless_endHost c count) (heedless_raiseHost c _)
  | failed e => exact heedless_raiseHost c _
  | panicked p => exact heedless_raisePanic c p

theorem heedless_runList {p : List Value → Program σ μ (Outcome (List Value))}
    (hp : ∀ args, (p args).Discreet i (Outcome.Discreet i)) (c : Context) :
    (runList p c).Heedless l d := by
  have hstart : ∀ k : Int, some 1 = some k → k ≤ Word32.greatest := by
    intro k hk
    rw [← Option.some.inj hk]
    decide
  refine .get (fun w => by simp only [depth_without]) fun w =>
    .bind (.api (c.heedless_readBatch _ hstart)) fun r => ?_
  cases r with
  | error e => exact heedless_raiseHost c _
  | ok args =>
    refine Program.heedless_ends hl hd (hp args) fun r hr => ?_
    cases r with
    | done results =>
      refine .bind (.api (c.heedless_pushAll fun v hv => hl.spares (hr v hv))) fun pushed =>
        .bind (.update (releaseAll_without l fun v hv => hl.spares (hr v hv))) fun _ => ?_
      cases pushed with
      | error e => exact heedless_raiseHost c _
      | ok _ => exact heedless_endHost c _
    | failed e => exact heedless_raiseHost c _
    | panicked p => exact heedless_raisePanic c p

theorem heedless_runHost (hc : code.Discreet i) (c : Context) (id : Option Nat) :
    (runHost code c id).Heedless l d := by
  unfold runHost
  refine .get (fun w => rfl) fun w => ?_
  dsimp only
  split
  · exact heedless_raiseHost c _
  next id shape s _ =>
    refine .bind (.update fun w => retain_without w l _) fun _ => ?_
    have hrelease : ∀ next, Run.Heedless l d (do
        Run.update (·.release (.function shape id))
        return next : Run σ μ Next) := fun _ =>
      .bind (.update fun w => release_without w l trivial) fun _ => .pure _
    cases shape with
    | raw => exact .bind (heedless_runRaw hd hl (hc.raw s c) c) hrelease
    | list => exact .bind (heedless_runList hd hl (hc.list s c) c) hrelease

theorem heedless_meet (hc : code.Discreet i) (c : Context) (demand : Demand) :
    (meet code c demand).Heedless l d := by
  have hanswer : ∀ f, (answer c f : Run σ μ Next).Heedless l d := fun f => .onVm _ _
  cases demand with
  | host isList id => exact heedless_runHost hd hl hc c id
  | resume thread args k => exact .bind (heedless_resumeFor hd c thread args) fun _ => hanswer _
  | close thread onlyFailed k =>
    exact .bind (heedless_closeFor hd c thread onlyFailed) fun _ => hanswer _
  | collect k => exact .bind (heedless_collect hd c) fun _ => hanswer _
  | turn | pause => exact .bind (heedless_turn hd c) fun _ => .pure _
  | release p k =>
    exact .bind (.update fun w => releasePayload_without w l p) fun _ => hanswer _

end Hosts
end Demands

/-- So a thread runs the same, whatever is lost. -/
theorem heedless_drive (hl : l.At i) (hc : code.Discreet i) (fuel : Nat) :
    (drive code fuel).Heedless l := by
  induction fuel with
  | zero => exact fun _ _ _ => rfl
  | succ fuel ih =>
    intro c next w
    cases next with
    | exit e => rfl
    | go s =>
      have hgo : ∀ u : World σ μ, drive code (fuel + 1) c (.go s) u =
          drive code fuel c (u.onVm c.vm fun vm => vm.step c.thread s).1
            (u.onVm c.vm fun vm => vm.step c.thread s).2 := fun _ => rfl
      change drive code (fuel + 1) c (.go s) (w.without l) =
        (drive code (fuel + 1) c (.go s) w).map fun r => (r.1, r.2.without l)
      rw [hgo, hgo, onVm_without]
      exact ih c _ _
    | need demand =>
      have hneed : ∀ u : World σ μ, drive code (fuel + 1) c (.need demand) u =
          (meet code c demand >>= fun next => Run.drive c next) (drive code fuel) u := by
        intro u
        change _ = (meet code c demand (drive code fuel) u).bind fun r => drive code fuel c r.1 r.2
        conv_lhs => unfold drive
        cases hm : meet code c demand (drive code fuel) u <;> simp only [hm] <;> rfl
      change drive code (fuel + 1) c (.need demand) (w.without l) =
        (drive code (fuel + 1) c (.need demand) w).map fun r => (r.1, r.2.without l)
      rw [hneed, hneed]
      exact Run.Heedless.bind (heedless_meet ih hl hc c demand) (fun next => ih c next) w

/-! ### With the owner and without -/

/-- A world with nothing on record. -/
def unrecorded (w : World σ μ) : World σ μ := { w with history := [] }

theorem disown_eq (w : World σ μ) (i : Nat) :
    w.disown i = w.unrecorded.without ⟨some i, .disowned i :: w.history⟩ := rfl

/-- What a world would be if the owner of an interpreter had gone when so much was on record. -/
def disownedSince (w : World σ μ) (i : Nat) (past : List Happening) : World σ μ :=
  { w with
    instances := w.instances.modify i ({ · with closed := true })
    history := w.history.take (w.history.length - past.length) ++ .disowned i :: past }

theorem disownedSince_without (w : World σ μ) (i : Nat) (past : List Happening) :
    (w.without ⟨none, past⟩).disownedSince i past = w.without ⟨some i, .disowned i :: past⟩ := by
  unfold disownedSince without
  dsimp only
  rw [List.length_append, Nat.add_sub_cancel, List.take_left]

/-- What runs the same whatever is lost runs the same with and without an owner. -/
theorem heedless_disown {m : Run σ μ α} (hm : ∀ l : Loss, l.At i → m.Heedless l d) (w : World σ μ) :
    m d (w.disown i) = (m d w).map fun r => (r.1, r.2.disownedSince i w.history) := by
  have hwhole : m d w = _ := hm ⟨none, w.history⟩ nofun w.unrecorded
  have hlost : m d (w.disown i) = _ :=
    hm ⟨some i, .disowned i :: w.history⟩ (fun _ hj => (Option.some.inj hj).symm) w.unrecorded
  rw [hlost, hwhole, Option.map_map]
  refine congrArg (Option.map · _) (funext fun r => ?_)
  exact congrArg (r.1, ·) (disownedSince_without r.2 i w.history).symm

/-- While a view is open, an owner's letting go does nothing but what is noticed of it. -/
theorem dropOwner_viewed {x : Instance} (hx : w.instances[i]? = some x) (ho : x.closed = false)
    (hv : x.views ≠ 0) : ∃ n, ∀ d, dropOwner i d w = some ((), (w.notify n).disown i) := by
  refine ⟨.log ⟨.debug, "selune::bridge", "state dropped, close deferred",
    [("views", toString x.views)]⟩, fun d => ?_⟩
  have hget : ∀ k : World σ μ → Run σ μ Unit, (MonadState.get >>= k) d w = k w d w := fun _ => rfl
  unfold dropOwner
  rw [hget, show w.instance? i = some x from hx]
  dsimp only
  rw [if_neg (by rw [ho]; exact Bool.false_ne_true), if_neg hv]
  rfl

/-- Without its owner, an interpreter's threads are taken for those of another one. -/
theorem push_thread_disown {q : ThreadHandle} (hq : q.thread.vm = i) (h : w.Grants c 3) :
    (c.push (.thread q) (w.disown i)).1 =
      .error (.unsupportedValue "thread handle belongs to a different VM instance") := by
  have hgrants : w.unrecorded.Grants c 3 := by
    have hsame := congrArg Prod.fst (reserve_without w.unrecorded ⟨none, w.history⟩ c 3)
    exact hsame.symm.trans h
  obtain ⟨w₁, hroom, -⟩ := Context.checkStack_intact hgrants (show (3 : Int) ≤ (3 : Nat) by decide)
  have hroom' : c.checkStack 3 (w.disown i) =
      (.ok (), w₁.without ⟨some i, .disowned i :: w.history⟩) := by
    rw [disown_eq, c.heedless_checkStack 3 w.unrecorded, hroom]
  have howns : c.owns q (w₁.without ⟨some i, .disowned i :: w.history⟩) =
      (.ok false, w₁.without ⟨some i, .disowned i :: w.history⟩) := by
    unfold Context.owns
    rw [Api.get_bind, hq]
    unfold instance?
    rw [instances_without, if_pos rfl]
    cases w₁.instances[i]? <;> rfl
  unfold Context.push
  rw [Api.bind_ok hroom']
  unfold Context.pushThread
  dsimp only
  rw [Api.bind_ok howns]
  rfl

/-- Once the owner of an interpreter has let go of it while a view is open, whatever a host does comes out
as if the owner were there, and what happens meanwhile to other interpreters is recorded after that, as long
as neither the host nor its functions pass a thread of the interpreter on. To push such a thread is refused. -/
theorem outlives_owner {x : Instance} (hx : w.instances[i]? = some x) (ho : x.closed = false)
    (hv : x.views ≠ 0) (hc : code.Discreet i) :
    ∃ n : Notice, (∀ d, dropOwner i d w = some ((), (w.notify n).disown i)) ∧
      (∀ (α : Type) (p : Program σ μ α) (fuel : Nat), p.Discreet i (fun _ => True) →
        p.run code fuel ((w.notify n).disown i) =
          (p.run code fuel (w.notify n)).map fun r => (r.1, r.2.disownedSince i w.history)) ∧
      ∀ (u : World σ μ) (c : Context) (q : ThreadHandle), q.thread.vm = i → u.Grants c 3 →
        (c.push (.thread q) (u.disown i)).1 =
          .error (.unsupportedValue "thread handle belongs to a different VM instance") := by
  obtain ⟨n, hdrop⟩ := dropOwner_viewed hx ho hv
  refine ⟨n, hdrop, fun α p fuel hp => ?_, fun u c q hq h => push_thread_disown hq h⟩
  exact heedless_disown (fun l hl => Program.heedless hl (heedless_drive hl hc fuel) hp) (w.notify n)

/-- A new interpreter with a view of its main stack. -/
def viewed : World Unit Unit where
  instances := #[{ vm := freshVm 0, chunkName := .empty, views := 1 }]
  views := ⟨#[some ⟨⟨0, 0⟩, true⟩]⟩
  memory := ()
  subscriber _ m := m

/-- A value is pushed through the view that is left, and looked at. -/
theorem outlives_owner_viewed :
    ∃ w' : World Unit Unit, dropOwner 0 (drive HostCode.silent 0) viewed = some ((), w') ∧
      ((Program.step (.stack ⟨0, 0⟩ (.push (.int 5))) fun _ =>
        .ask (.stack ⟨0, 0⟩ (.typeOf 1))).run HostCode.silent 0 w').map (·.1) = some (.ok .number) := by
  have hsilent : HostCode.silent.Discreet 0 :=
    ⟨fun _ _ => trivial, fun _ _ _ v hv => absurd hv List.not_mem_nil⟩
  have hview : viewed.instances[0]? = some viewed.instances[0] := rfl
  obtain ⟨n, hdrop, hrun, -⟩ := outlives_owner hview rfl (by decide) hsilent
  refine ⟨_, hdrop _, ?_⟩
  have hdiscreet : Program.Discreet 0 (fun _ => True) (Program.step (.stack ⟨0, 0⟩ (.push (.int 5)))
      fun _ => .ask (.stack ⟨0, 0⟩ (.typeOf 1)) : Program Unit Unit (Except Error TypeTag)) :=
    And.intro id fun _ => And.intro trivial fun _ => trivial
  rw [hrun _ _ 0 hdiscreet, Option.map_map, show viewed.notify n = viewed from rfl]
  decide +kernel

/-- A thread that is obtained through the view cannot be pushed on it any more. -/
theorem viewed_thread_refused :
    dropOwner 0 (drive HostCode.silent 0) viewed = some ((), viewed.disown 0) ∧
      ((do Context.push ⟨0, 0⟩ (.thread (← Context.currentThread ⟨0, 0⟩)) : Api Unit Unit Unit)
        viewed).1 = .ok () ∧
      ((do Context.push ⟨0, 0⟩ (.thread (← Context.currentThread ⟨0, 0⟩)) : Api Unit Unit Unit)
        (viewed.disown 0)).1 =
          .error (.unsupportedValue "thread handle belongs to a different VM instance") :=
  ⟨rfl, by decide +kernel, by decide +kernel⟩

end World
end LuaEmbed
