import LuaEmbed.Proofs.Interaction

/-!
What happens inside a run: the moments that it comes to, one after the other and in the runs nested
in it, and the operations that host functions ask for at these moments. A property that bears on
moments is kept by a run if steps keep it and if every operation asks for such moments only.
-/
namespace LuaEmbed

open Engine World

variable {σ μ α β : Type}

/-! ### The moments that an operation asks for -/

namespace Run

/-- It asks for such moments only, on the way from a world. -/
def AsksAt (P : Moment σ μ → Prop) (d : Drive σ μ) (w : World σ μ) (m : Run σ μ α) : Prop :=
  ∃ t, m.Lays w t ∧ ∀ x, t.Asks d x → P x

/-- Wherever it begins, it asks only for moments that go with the beginning. -/
def AsksOnly (Q : World σ μ → Moment σ μ → Prop) (d : Drive σ μ) (m : Run σ μ α) : Prop :=
  ∀ w, m.AsksAt (Q w) d w

variable {P : Moment σ μ → Prop} {Q : World σ μ → Moment σ μ → Prop} {d : Drive σ μ}
  {w : World σ μ}

theorem AsksAt.holds {m : Run σ μ α} (h : m.AsksAt P d w) {x : Moment σ μ} (hx : m.Asks d w x) :
    P x := by
  obtain ⟨t, ht, hP⟩ := h
  exact hP x (hx t ht)

theorem AsksAt.imp {m : Run σ μ α} {P' : Moment σ μ → Prop} (h : m.AsksAt P d w)
    (hP : ∀ x, P x → P' x) : m.AsksAt P' d w := by
  obtain ⟨t, ht, hall⟩ := h
  exact ⟨t, ht, fun x hx => hP x (hall x hx)⟩

theorem asksAt_onWorld (f : World σ μ → α × World σ μ) : (Run.onWorld f).AsksAt P d w :=
  ⟨_, lays_onWorld f w, fun _ h => by cases h⟩

theorem asksAt_pure (a : α) : AsksAt P d w (Pure.pure a) := asksAt_onWorld fun w => (a, w)

theorem asksAt_unwind : (Run.unwind : Run σ μ α).AsksAt P d w := ⟨_, lays_unwind w, fun _ h => by cases h⟩

theorem asksAt_onWorld_bind {f : World σ μ → α × World σ μ} {k : α → Run σ μ β}
    (h : (k (f w).1).AsksAt P d (f w).2) : (Run.onWorld f >>= k).AsksAt P d w := h

theorem asksAt_drive_bind {c : Context} {n : Next} {k : Exit → Run σ μ β} (h : P ⟨c, n, w⟩)
    (hk : ∀ e w, (k e).AsksAt P d w) : (Run.drive c n >>= k).AsksAt P d w := by
  choose t ht hP using hk
  refine ⟨_, lays_bind (lays_drive c n w) ht, fun x hx => ?_⟩
  cases hx with
  | now => exact h
  | later _ hx => exact hP _ _ x hx

theorem asksAt_drive {c : Context} {n : Next} (h : P ⟨c, n, w⟩) :
    (Run.drive c n).AsksAt P d w :=
  ⟨_, lays_drive c n w, fun x hx => by
    cases hx with
    | now => exact h
    | later _ hx => cases hx⟩

theorem asksOnly_bind {R : World σ μ → World σ μ → Prop} {m : Run σ μ α} {k : α → Run σ μ β}
    (pull : ∀ {a b x}, R a b → Q b x → Q a x) (hr : m.Keeps R d) (hm : m.AsksOnly Q d)
    (hk : ∀ a, (k a).AsksOnly Q d) : (m >>= k).AsksOnly Q d := by
  intro w
  obtain ⟨t, ht, hP⟩ := hm w
  choose f hf hQ using hk
  refine ⟨_, lays_bind ht hf, fun x hx => ?_⟩
  rcases Tree.asks_bind hx with hx | ⟨a, w₁, hrun, hx⟩
  · exact hP x hx
  · exact pull (hr w a w₁ ((ht d).trans hrun)) (hQ a w₁ x hx)

/-- What follows asks for nothing. -/
theorem asksAt_bind_mute {m : Run σ μ α} {k : α → Run σ μ β} (hm : m.AsksAt P d w)
    (hk : ∀ a w, (k a).AsksAt (fun _ => False) d w) : (m >>= k).AsksAt P d w := by
  obtain ⟨t, ht, hP⟩ := hm
  choose f hf hfalse using hk
  refine ⟨_, lays_bind ht hf, fun x hx => ?_⟩
  rcases Tree.asks_bind hx with hx | ⟨a, w₁, -, hx⟩
  · exact hP x hx
  · exact (hfalse a w₁ x hx).elim

/-- It leads to a related world, and asks only for moments that go with the beginning. -/
def Guides (R : World σ μ → World σ μ → Prop) (Q : World σ μ → Moment σ μ → Prop) (d : Drive σ μ)
    (m : Run σ μ α) : Prop := m.Keeps R d ∧ m.AsksOnly Q d

theorem guides_onWorld {R : World σ μ → World σ μ → Prop} {f : World σ μ → α × World σ μ}
    (h : ∀ w, R w (f w).2) : (Run.onWorld f).Guides R Q d :=
  ⟨keeps_onWorld h, fun _ => asksAt_onWorld f⟩

end Run

/-- What a relation and a property of moments need for every operation to keep the one and to ask
only for moments with the other: the relation bears on threads alone, the property goes with what
led to a moment, and the operations that run threads are as wanted. -/
structure Guiding (R : World σ μ → World σ μ → Prop) (Q : World σ μ → Moment σ μ → Prop)
    (d : Drive σ μ) : Prop extends Stable R where
  noted : ∀ {w w' : World σ μ}, w.Noted w' → R w w'
  births : ∀ w x, R w { w with instances := w.instances.push x }
  pull : ∀ {a b x}, R a b → Q b x → Q a x
  invoke : ∀ c f args, (Context.invoke c f args).Guides R Q d
  resumeWith : ∀ source co n, (World.resumeWith source co n).Guides R Q d
  finalize : ∀ c v, (World.finalize c v).Guides R Q d
  pause : ∀ c, (Run.drive c (.need .pause)).Guides R Q d
  shutDown : ∀ vm, (World.shutDown vm).Guides R Q d

namespace Guiding

variable {R : World σ μ → World σ μ → Prop} {Q : World σ μ → Moment σ μ → Prop} {d : Drive σ μ}
  (G : Guiding R Q d)

include G

theorem bind {m : Run σ μ α} {k : α → Run σ μ β} (hm : m.Guides R Q d)
    (hk : ∀ a, (k a).Guides R Q d) : (m >>= k).Guides R Q d :=
  ⟨G.toStable.bind hm.1 fun a => (hk a).1, Run.asksOnly_bind G.pull hm.1 hm.2 fun a => (hk a).2⟩

theorem pure (a : α) : (Pure.pure a : Run σ μ α).Guides R Q d :=
  Run.guides_onWorld (f := fun w => (a, w)) G.refl

theorem get : Run.Guides (α := World σ μ) R Q d MonadState.get :=
  Run.guides_onWorld (f := fun w => (w, w)) G.refl

omit G in
theorem update {f : World σ μ → World σ μ} (h : ∀ w, R w (f w)) : (Run.update f).Guides R Q d :=
  Run.guides_onWorld (f := fun w => ((), f w)) h

theorem housekeeping : Housekeeping fun (α : Type) (m : Run σ μ α) => m.Guides R Q d where
  bind := G.bind
  noted h := Run.guides_onWorld fun w => G.noted (h w)
  shutDown := G.shutDown

/-- So every operation is as wanted. -/
theorem traversal : Traversal (fun _ => True) (TouchesIn fun _ => True)
    fun (α : Type) (m : Run σ μ α) => m.Guides R Q d where
  bind := G.bind
  effects := effects_touches _
  quiet h := Run.guides_onWorld fun w => G.touches (h w)
  invoke c f args _ := G.invoke c f args
  resumeWith source co n _ := G.resumeWith source co n
  finalize c v _ := G.finalize c v
  pause c _ := G.pause c
  birth _ _ _ := update fun w =>
    G.trans (G.births w _) (G.noted (noted_silent rfl rfl rfl rfl))
  dropOwner := G.housekeeping.dropOwner
  view h := G.housekeeping.view h true
  dropView v := G.housekeeping.dropView v true
  withView h _ _ _ ha := G.housekeeping.withView h fun c => ha c trivial

/-- A collection asks for such moments only, if what it frees does not bear on the relation. -/
theorem asksAt_collect (c : Context) {w : World σ μ}
    (hsweep : R w (w.onVm c.vm fun vm => Collector.collect vm (w.keptBy c)).2) :
    (World.collect c).AsksAt (Q w) d w := by
  unfold World.collect
  refine Run.asksAt_onWorld_bind (f := fun w => (w, w)) (Run.asksAt_onWorld_bind ?_)
  have hrest : ∀ lost : List Val, Run.Guides R Q d (do
      Run.update (·.modifyHeap c.vm ({ · with collecting := true }))
      finalizeAll c lost
      Run.update (·.modifyHeap c.vm ({ · with collecting := false }))) := fun lost =>
    G.bind (update fun w => G.touches (touches_modifyHeap w _ _)) fun _ =>
      G.bind (G.traversal.finalizeAll c lost trivial) fun _ =>
        update fun w => G.touches (touches_modifyHeap w _ _)
  exact ((hrest _).2 _).imp fun _ => G.pull hsweep

theorem asksAt_turn (c : Context) {w : World σ μ}
    (hsweep : w.takesTurn c = true →
      R w (w.onVm c.vm fun vm => Collector.collect vm (w.keptBy c)).2) :
    (World.turn c).AsksAt (Q w) d w := by
  unfold World.turn
  refine Run.asksAt_onWorld_bind (f := fun w => (w, w)) ?_
  split
  next htakes => exact G.asksAt_collect c (hsweep htakes)
  next => exact Run.asksAt_pure ()

/-- And so is the meeting of every demand, as to what is asked for, if closing and collecting, where
they come about, are as wanted. -/
theorem meet (code : HostCode σ μ) (c : Context) {demand : Demand} {w : World σ μ}
    (hclose : ∀ thread onlyFailed k, demand = .close thread onlyFailed k →
      (closeFor c thread onlyFailed).Guides R Q d)
    (hsweep : w.Collects c (.need demand) →
      R w (w.onVm c.vm fun vm => Collector.collect vm (w.keptBy c)).2) :
    (meet code c demand).AsksAt (Q w) d w := by
  by_cases hd : demand.mayCollect = true
  case pos =>
    cases demand with
    | collect k =>
      exact Run.asksAt_bind_mute (G.asksAt_collect c (hsweep trivial)) fun _ _ => Run.asksAt_onWorld _
    | turn | pause => exact Run.asksAt_bind_mute (G.asksAt_turn c hsweep) fun _ _ => Run.asksAt_pure _
    | _ => cases hd
  have H : Meeting (fun (α : Type) (m : Run σ μ α) => m.Guides R Q d) c fun m => m.AsksOnly Q d :=
    { after := fun hm hk => Run.asksOnly_bind G.pull hm.1 hm.2 hk
      endHost := fun _ _ => Run.asksAt_onWorld _
      raiseHost := fun _ _ => Run.asksAt_onWorld_bind (f := fun w => ((), (w.reserve c 1).2))
        (Run.asksAt_onWorld_bind (f := fun w => (w, w)) (Run.asksAt_pure _))
      unwind := fun _ => Run.asksAt_unwind
      released := fun shape id hm w => Run.asksAt_bind_mute (hm w) fun _ _ =>
        Run.asksAt_onWorld_bind (f := fun w => ((), w.release (.function shape id)))
          (Run.asksAt_pure _) }
  exact H.meet G.traversal code demand (fun _ _ => Run.asksAt_onWorld _)
    (fun _ _ _ => Run.asksAt_pure _) hclose (fun hm => absurd hm hd) w

end Guiding

/-! ### What happens inside a run -/

/-- A moment is reached by the run from another one: as one of its own, which follow each other, or
as one of the runs that it has inside it. -/
inductive World.Reached (code : HostCode σ μ) (m : Moment σ μ) : Moment σ μ → Prop where
  | here : Reached code m m
  | step {c s w} (h : Reached code m ⟨c, (w.onVm c.vm fun vm => vm.step c.thread s).1,
      (w.onVm c.vm fun vm => vm.step c.thread s).2⟩) : Reached code m ⟨c, .go s, w⟩
  | inside {c demand w x} (fuel : Nat) (ha : (World.meet code c demand).Asks (drive code fuel) w x)
      (h : Reached code m x) : Reached code m ⟨c, .need demand, w⟩
  | met {c demand w next w'} (fuel : Nat)
      (hm : World.meet code c demand (drive code fuel) w = some (next, w'))
      (h : Reached code m ⟨c, next, w'⟩) : Reached code m ⟨c, .need demand, w⟩

/-- An operation that has the engine make no object gives the collector no turn. -/
theorem Op.turn_idle {o : Op σ μ α} {w : World σ μ} (h : o.maker? w = none) (d : Drive σ μ) :
    o.turn d w = some ((), w) := by
  unfold turn
  refine Run.bind_some.mpr ⟨w, w, rfl, ?_⟩
  rw [h]
  rfl

/-- A program asks for an operation in some world, if runs go as stated. -/
inductive Program.Asks (d : Drive σ μ) (o : Op σ μ β) (u : World σ μ) :
    Program σ μ α → World σ μ → Prop where
  | now {k : β → Program σ μ α} {w} (ht : o.turn d w = some ((), u)) : Asks d o u (.step o k) w
  | later {γ : Type} {p : Op σ μ γ} {k : γ → Program σ μ α} {w a w₁ w₂}
      (ht : p.turn d w = some ((), w₁)) (hr : p.perform d w₁ = some (a, w₂))
      (h : Asks d o u (k a) w₂) : Asks d o u (.step p k) w

/-- A host function, about to run on a thread, asks for an operation in some world. -/
inductive HostCode.Asks (code : HostCode σ μ) (d : Drive σ μ) (c : Context) (id : Nat)
    (o : Op σ μ β) (u w : World σ μ) : Prop where
  | raw {s n} (hf : w.functions.get? id = some ⟨(.raw, s), n⟩)
      (h : (code.raw s c).Asks d o u (w.retain (.function .raw id)))
  | list {s n args w₁} (hf : w.functions.get? id = some ⟨(.list, s), n⟩)
      (hargs : c.readBatch ((w.retain (.function .list id)).depth c) (some 1)
        (w.retain (.function .list id)) = (.ok args, w₁))
      (h : (code.list s c args).Asks d o u w₁)

namespace Keeping

variable {R : World σ μ → World σ μ → Prop} {d : Drive σ μ} (K : Keeping R d) {o : Op σ μ β}
  {w u : World σ μ}

include K

theorem asks {p : Program σ μ α} (h : p.Asks d o u w) : R w u := by
  induction h with
  | now ht => exact K.traversal.turnOf _ (fun _ _ _ => trivial) _ _ _ ht
  | later ht hr _ ih =>
    exact K.trans (K.traversal.turnOf _ (fun _ _ _ => trivial) _ _ _ ht)
      (K.trans (K.traversal.op _ (Op.within_all _) _ _ _ hr) ih)

theorem hostAsks {code : HostCode σ μ} {c : Context} {id : Nat} (h : code.Asks d c id o u w) :
    R w u := by
  cases h with
  | raw _ h => exact K.trans (K.touches (touches_retain w _)) (K.asks h)
  | list _ hargs h =>
    have hread : Touches _ _ := (c.quiet_readBatch _ _).related hargs
    exact K.trans (K.touches ((touches_retain w _).trans hread)) (K.asks h)

end Keeping

/-- Inside a run, a host function on a thread asks for an operation in some world. -/
def World.Inside (code : HostCode σ μ) (x : Moment σ μ) (c : Context) (o : Op σ μ β)
    (u : World σ μ) : Prop :=
  ∃ isList id w fuel, Reached code ⟨c, .need (.host isList (some id)), w⟩ x ∧
    code.Asks (drive code fuel) c id o u w

end LuaEmbed
