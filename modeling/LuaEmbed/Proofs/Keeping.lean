import LuaEmbed.Proofs.Traversal

/-!
Relations between the world before and after that whatever a host does keeps, once the few
operations that run a thread, or that open or close something, are known to keep them.
-/
namespace LuaEmbed

open Engine World

variable {σ μ α β : Type}

namespace Run

/-- Whenever it ends, it has led from a world to a related one. -/
def Keeps (R : World σ μ → World σ μ → Prop) (d : Drive σ μ) (m : Run σ μ α) : Prop :=
  ∀ w a w', m d w = some (a, w') → R w w'

theorem related {R : World σ μ → World σ μ → Prop} {d : Drive σ μ} {m : Run σ μ α}
    {w w' : World σ μ}
    {a : α} (h : m d w = some (a, w')) (hm : m.Keeps R d) : R w w' := hm _ _ _ h

theorem Keeps.ite {R : World σ μ → World σ μ → Prop} {d : Drive σ μ} {p : Prop} [Decidable p]
    {a b : Run σ μ α} (ha : a.Keeps R d) (hb : b.Keeps R d) : Keeps R d (if p then a else b) := by
  split
  · exact ha
  · exact hb

theorem keeps_update {R : World σ μ → World σ μ → Prop} {d : Drive σ μ} {f : World σ μ → World σ μ}
    (h : ∀ w, R w (f w)) : (Run.update f).Keeps R d := by
  rintro w _ _ ⟨⟩
  exact h w

theorem keeps_onWorld {R : World σ μ → World σ μ → Prop} {d : Drive σ μ}
    {f : World σ μ → α × World σ μ} (h : ∀ w, R w (f w).2) : (Run.onWorld f).Keeps R d := by
  intro w a w' hw
  obtain rfl := congrArg Prod.snd (Option.some.inj hw)
  exact h w

theorem bind_some {m : Run σ μ α} {k : α → Run σ μ β} {d : Drive σ μ} {w w' : World σ μ} {b : β} :
    (m >>= k) d w = some (b, w') ↔ ∃ a w₁, m d w = some (a, w₁) ∧ k a d w₁ = some (b, w') := by
  simp only [Bind.bind, ReaderT.bind, StateT.bind, Option.bind_eq_some_iff, Prod.exists]

theorem discard_some {m : Run σ μ α} {d : Drive σ μ} {w w' : World σ μ} {u : Unit} :
    discard m d w = some (u, w') ↔ ∃ a, m d w = some (a, w') := by
  have h : discard m = (m >>= fun _ => Pure.pure ()) := rfl
  rw [h, bind_some]
  constructor
  · rintro ⟨a, w₁, ha, ⟨⟩⟩
    exact ⟨a, ha⟩
  · rintro ⟨a, ha⟩
    exact ⟨a, w', ha, rfl⟩

theorem onVm_some [Inhabited α] {i : Nat} {f : Vm → Vm × α} {d : Drive σ μ} {w w' : World σ μ}
    {a : α} :
    Run.onVm i f d w = some (a, w') ↔ (w.onVm i f).1 = a ∧ (w.onVm i f).2 = w' := by
  have h : Run.onVm i f d w = some ((w.onVm i f).1, (w.onVm i f).2) := rfl
  rw [h, Option.some_inj, Prod.mk.injEq]

end Run

namespace Act

/-- Whether it succeeds or fails, it has led from a world to a related one. -/
abbrev Keeps (R : World σ μ → World σ μ → Prop) (d : Drive σ μ) (m : Act σ μ α) : Prop :=
  Run.Keeps (α := Except Error α) R d m

theorem bind_some {m : Act σ μ α} {k : α → Act σ μ β} {d : Drive σ μ} {w w' : World σ μ}
    {r : Except Error β} :
    (m >>= k) d w = some (r, w') ↔
      (∃ a w₁, m d w = some (.ok a, w₁) ∧ k a d w₁ = some (r, w')) ∨
      (∃ e, m d w = some (.error e, w') ∧ r = .error e) := by
  simp only [Bind.bind, ExceptT.bind, ExceptT.mk, ReaderT.bind, StateT.bind,
    Option.bind_eq_some_iff, Prod.exists]
  constructor
  · rintro ⟨s, w₁, h, hk⟩
    cases s with
    | ok a => exact .inl ⟨a, w₁, h, hk⟩
    | error e =>
      obtain ⟨rfl, rfl⟩ := Prod.mk.inj (Option.some.inj hk)
      exact .inr ⟨e, h, rfl⟩
  · rintro (⟨a, w₁, h, hk⟩ | ⟨e, h, rfl⟩)
    · exact ⟨.ok a, w₁, h, hk⟩
    · exact ⟨.error e, w', h, rfl⟩

theorem api_eq_some {a : Api σ μ α} {d : Drive σ μ} {w w' : World σ μ} {r : Except Error α} :
    Act.api a d w = some (r, w') ↔ a w = (r, w') := Option.some_inj

theorem api_some {a : Api σ μ α} {d : Drive σ μ} {w w' : World σ μ} {r : Except Error α} :
    Act.api a d w = some (r, w') ↔ (a w).1 = r ∧ (a w).2 = w' := by
  have h : Act.api a d w = some ((a w).1, (a w).2) := rfl
  rw [h, Option.some_inj, Prod.mk.injEq]

theorem lift_bind_some {m : Run σ μ α} {k : α → Act σ μ β} {d : Drive σ μ} {w w' : World σ μ}
    {r : Except Error β} :
    (ExceptT.lift m >>= k) d w = some (r, w') ↔
      ∃ a w₁, m d w = some (a, w₁) ∧ k a d w₁ = some (r, w') := by
  have h : (ExceptT.lift m : Act σ μ α) d w = (m d w).map fun p => (.ok p.1, p.2) := by
    cases hm : m d w <;> simp [ExceptT.lift, ExceptT.mk, Functor.map, StateT.map, hm]
  rw [bind_some, h]
  cases hm : m d w with
  | none => simp
  | some p => simp [Prod.ext_iff]

theorem Keeps.ite {R : World σ μ → World σ μ → Prop} {d : Drive σ μ} {p : Prop} [Decidable p]
    {a b : Act σ μ α} (ha : a.Keeps R d) (hb : b.Keeps R d) : Keeps R d (if p then a else b) :=
  Run.Keeps.ite ha hb

end Act

/-- A relation that changes which need no run keep. -/
structure Stable (R : World σ μ → World σ μ → Prop) : Prop where
  refl : ∀ w, R w w
  trans : ∀ {a b c}, R a b → R b c → R a c
  touch : ∀ {w w'}, Touch w w' → R w w'

/-- What else a relation needs for every operation to keep it: it is kept by the runs of calls,
resumes and finalizers, and by what opens and closes views and interpreters. -/
structure Keeping (R : World σ μ → World σ μ → Prop) (d : Drive σ μ) : Prop extends Stable R where
  invoke : ∀ c f args, (Context.invoke c f args).Keeps R d
  resumeWith : ∀ source co n, (resumeWith source co n).Keeps R d
  finalize : ∀ c v, (finalize c v).Keeps R d
  pause : ∀ c, (Run.drive c (.need .pause)).Keeps R d
  birth : ∀ w vm name,
    R w { w with instances := w.instances.push { vm := freshVm vm, chunkName := name } }
  dropOwner : ∀ vm, (dropOwner vm).Keeps R d
  view : ∀ (h : ThreadHandle) w, R w (h.view true w).2
  dropView : ∀ v, (dropView v true).Keeps R d
  withView : ∀ (h : ThreadHandle) {α : Type} (a : Context → Act σ μ α),
    (∀ c, Act.Keeps R d (a c)) → Act.Keeps R d (h.withView a)

namespace Stable

variable {R : World σ μ → World σ μ → Prop} {d : Drive σ μ} (K : Stable R)

include K

theorem touches {w w' : World σ μ} (h : Touches w w') : R w w' := by
  induction h with
  | refl => exact K.refl w
  | tail _ h ih => exact K.trans ih (K.touch h)

theorem pure (x : α) : Run.Keeps R d (Pure.pure x : Run σ μ α) := by
  rintro w _ _ ⟨⟩
  exact K.refl w

theorem bind {m : Run σ μ α} {k : α → Run σ μ β} (hm : m.Keeps R d) (hk : ∀ a, (k a).Keeps R d) :
    (m >>= k).Keeps R d := by
  intro w b w' h
  obtain ⟨a, w₁, ha, hb⟩ := Run.bind_some.mp h
  exact K.trans (hm _ _ _ ha) (hk _ _ _ _ hb)

theorem get : Run.Keeps R d (MonadState.get : Run σ μ (World σ μ)) := by
  rintro w _ _ ⟨⟩
  exact K.refl w

theorem onWorld {f : World σ μ → α × World σ μ} (h : ∀ w, Touches w (f w).2) :
    (Run.onWorld f).Keeps R d := Run.keeps_onWorld fun w => K.touches (h w)

theorem api {a : Api σ μ α} (h : a.Quiet) : (Run.api a).Keeps R d := K.onWorld h

theorem update {f : World σ μ → World σ μ} (h : ∀ w, Touches w (f w)) :
    (Run.update f).Keeps R d := Run.keeps_update fun w => K.touches (h w)

theorem finalizeAll {c : Context} (hf : ∀ v, (finalize c v).Keeps R d) (vs : List Val) :
    (finalizeAll c vs).Keeps R d := by
  induction vs with
  | nil => exact K.pure ()
  | cons v vs ih => exact K.bind (hf v) fun _ => ih

theorem withView (hv : ∀ (h : ThreadHandle) b w, R w (h.view b w).2)
    (hdrop : ∀ v b, (dropView v b).Keeps R d) (h : ThreadHandle) (a : Context → Act σ μ α)
    (ha : ∀ c, Act.Keeps R d (a c)) : Act.Keeps R d (h.withView a) :=
  withView_of (M := fun _ m => m.Keeps R d) K.bind K.pure (Run.keeps_onWorld (hv h false))
    (fun n => hdrop n false) ha

end Stable

/-- Every operation keeps such a relation. -/
theorem Keeping.traversal {R : World σ μ → World σ μ → Prop} {d : Drive σ μ} (K : Keeping R d) :
    Traversal (fun _ => True) (TouchesIn fun _ => True) fun _ m => m.Keeps R d where
  bind hm hk := K.bind hm hk
  effects := effects_touches _
  quiet h := K.onWorld h
  invoke c f args _ := K.invoke c f args
  resumeWith source co n _ := K.resumeWith source co n
  finalize c v _ := K.finalize c v
  pause c _ := K.pause c
  birth vm name _ := Run.keeps_update fun w =>
    K.trans (K.birth w vm name) (K.touches (touches_host rfl rfl rfl rfl))
  dropOwner := K.dropOwner
  view h := Run.keeps_onWorld (K.view h)
  dropView := K.dropView
  withView h _ a _ ha := K.withView h a fun c => ha c trivial

/-- How a demand of a thread is met: the native function on top goes on or fails, it is a host function
that ends and hands its results on, or the collector has had its turn. -/
inductive Met (R : World σ μ → World σ μ → Prop) (c : Context) (demand : Demand) (w : World σ μ) :
    Next → World σ μ → Prop where
  | goesOn {w' a} (h : R w w') : Met R c demand w (.go (.act a)) w'
  | fails {w' status v handled} (h : R w w') : Met R c demand w (.go (.raise status v handled)) w'
  | ends {w₁ w' vs} (h : R w w₁) (ht : Touches (w₁.modifyThread c (·.popFrame)) w')
    (hs : w'.instances = (w₁.modifyThread c (·.popFrame)).instances) :
    Met R c demand w (.go (.results vs)) w'
  | turned {w' next} (hd : demand.afterTurn? = some next) (h : R w w') : Met R c demand w next w'
  /-- There is no such interpreter. -/
  | nowhere {w' next} (h : R w w') (hn : w'.instances[c.vm]? = none) : Met R c demand w next w'

/-- The threads that a collection leaves in place when one of them begins it: itself and those that
are referred to. -/
def World.keptBy (w : World σ μ) (c : Context) : List Nat :=
  c.thread :: ((w.instance? c.vm).map fun x => x.references.items.toList.filterMap id).getD []

namespace Keeping

variable {R : World σ μ → World σ μ → Prop} {d : Drive σ μ} (K : Keeping R d) (c : Context)
  {demand : Demand}

include K

theorem met_trans {w w₁ w' : World σ μ} {next : Next} (h : R w w₁) (hm : Met R c demand w₁ next w') :
    Met R c demand w next w' := by
  cases hm with
  | goesOn h' => exact .goesOn (K.trans h h')
  | fails h' => exact .fails (K.trans h h')
  | ends h' ht hs => exact .ends (K.trans h h') ht hs
  | turned hd h' => exact .turned hd (K.trans h h')
  | nowhere h' hn => exact .nowhere (K.trans h h') hn

theorem met_host {w w₁ w' : World σ μ} {next : Next} (hm : Met R c demand w next w₁)
    (ht : Touches w₁ w') (hs : w'.instances = w₁.instances) : Met R c demand w next w' := by
  cases hm with
  | goesOn h => exact .goesOn (K.trans h (K.touches ht))
  | fails h => exact .fails (K.trans h (K.touches ht))
  | ends h hp hi => exact .ends h (hp.trans ht) (hs.trans hi)
  | turned hd h => exact .turned hd (K.trans h (K.touches ht))
  | nowhere h hn => exact .nowhere (K.trans h (K.touches ht)) (ht.instances_none hn)

theorem met_bind {m : Run σ μ α} {k : α → Run σ μ Next} (hm : m.Keeps R d)
    (hk : ∀ a w next w', k a d w = some (next, w') → Met R c demand w next w') {w w' : World σ μ}
    {next : Next} (h : (m >>= k) d w = some (next, w')) : Met R c demand w next w' := by
  obtain ⟨a, w₁, ha, hb⟩ := Run.bind_some.mp h
  exact K.met_trans c (hm _ _ _ ha) (hk _ _ _ _ hb)

theorem met_answer {f : Heap → Heap × Action} {w w' : World σ μ} {next : Next}
    (h : answer c f d w = some (next, w')) : Met R c demand w next w' := by
  have ho : w.onVm c.vm (fun vm => vm.onHeap f) = (next, w') := Option.some.inj h
  have hr : R w w' := by
    have ht := K.touches (touches_onVm w c.vm (fun vm => vm.onHeap f) fun _ => rfl)
    rwa [ho] at ht
  rw [onVm_eq] at ho
  cases hx : w.instances[c.vm]? with
  | some x =>
    obtain ⟨rfl, rfl⟩ := Prod.mk.inj (by simpa only [hx] using ho)
    exact .goesOn hr
  | none =>
    obtain ⟨rfl, rfl⟩ := Prod.mk.inj (by simpa only [hx] using ho)
    exact .nowhere hr hx

theorem met_endHost {n : Nat} {w w' : World σ μ} {next : Next}
    (h : endHost c n d w = some (next, w')) : Met R c demand w next w' := by
  have ho := Option.some.inj h
  have hw := congrArg Prod.snd ho
  dsimp only at ho hw
  rw [onVm_world] at hw
  rw [onVm_eq] at ho
  have hp : Touches (w.modifyThread c (·.popFrame)) w' := by
    rw [← hw]
    exact .refl
  cases hx : w.instances[c.vm]? with
  | some x =>
    obtain ⟨rfl, -⟩ := Prod.mk.inj (by simpa only [hx] using ho)
    exact .ends (K.refl w) hp (by rw [← hw]; rfl)
  | none =>
    obtain ⟨rfl, -⟩ := Prod.mk.inj (by simpa only [hx] using ho)
    exact .ends (K.refl w) hp (by rw [← hw]; rfl)

theorem met_raiseHost {message : String} {w w' : World σ μ} {next : Next}
    (h : raiseHost c message d w = some (next, w')) : Met R c demand w next w' := by
  refine K.met_bind c (K.update fun w => touches_reserve w c 1) (fun _ => ?_) h
  refine fun w next w' h => K.met_bind c K.get (fun u w next w' h => ?_) h
  obtain ⟨rfl, rfl⟩ := Prod.mk.inj (Option.some.inj h)
  unfold failing
  split <;> exact .fails (K.refl w)

/-- A collection keeps the relation, if what it frees does not bear on it. -/
theorem collect {w w' : World σ μ} {u : Unit}
    (hsweep : R w (w.onVm c.vm fun vm => Collector.collect vm (w.keptBy c)).2)
    (h : World.collect c d w = some (u, w')) : R w w' := by
  unfold World.collect at h
  obtain ⟨_, w₁, hget, h⟩ := Run.bind_some.mp h
  obtain ⟨rfl, rfl⟩ := Prod.mk.inj (Option.some.inj hget)
  obtain ⟨lost, w₁, hlost, h⟩ := Run.bind_some.mp h
  obtain ⟨-, rfl⟩ := Run.onVm_some.mp hlost
  refine K.trans hsweep (Run.related h ?_)
  exact K.bind (K.update fun w => touches_modifyHeap w _ _) fun _ =>
    K.bind (K.toStable.finalizeAll (K.finalize c) lost) fun _ =>
      K.update fun w => touches_modifyHeap w _ _

/-- The collector's turn keeps the relation, if a collection does. -/
theorem turn {w w' : World σ μ} {u : Unit}
    (hcollect : w.takesTurn c = true → ∀ u w', World.collect c d w = some (u, w') → R w w')
    (h : World.turn c d w = some (u, w')) : R w w' := by
  unfold World.turn at h
  obtain ⟨_, w₁, hget, h⟩ := Run.bind_some.mp h
  obtain ⟨rfl, rfl⟩ := Prod.mk.inj (Option.some.inj hget)
  split at h
  next htakes => exact hcollect htakes u w' h
  next =>
    obtain ⟨-, rfl⟩ := Prod.mk.inj (Option.some.inj h)
    exact K.refl w

/-- Every demand is met in one of these ways, if closing and collecting, where they come about, keep
the relation. -/
theorem met (code : HostCode σ μ)
    (hclose : ∀ thread onlyFailed k, demand = .close thread onlyFailed k →
      (World.closeFor c thread onlyFailed).Keeps R d)
    {w w' : World σ μ} {next : Next}
    (hcollect : w.Collects c (.need demand) → ∀ u w', World.collect c d w = some (u, w') → R w w')
    (h : meet code c demand d w = some (next, w')) : Met R c demand w next w' := by
  by_cases hd : demand.mayCollect = true
  case pos =>
    cases demand with
    | collect k =>
      obtain ⟨u, w₁, hu, ha⟩ := Run.bind_some.mp h
      exact K.met_trans c (hcollect trivial u w₁ hu) (K.met_answer c ha)
    | turn | pause =>
      obtain ⟨u, w₁, hu, hnext⟩ := Run.bind_some.mp h
      obtain ⟨rfl, rfl⟩ := Prod.mk.inj (Option.some.inj hnext)
      exact .turned rfl (K.turn c hcollect hu)
    | _ => cases hd
  have H : Meeting (fun _ m => m.Keeps R d) c fun m =>
      ∀ w next w', m d w = some (next, w') → Met R c demand w next w' :=
    { after := fun hm hk _ _ _ h => K.met_bind c hm hk h
      endHost := fun _ _ _ _ h => K.met_endHost c h
      raiseHost := fun _ _ _ _ h => K.met_raiseHost c h
      unwind := fun _ _ _ h => by cases h
      released := fun shape id hm _ _ _ h => by
        obtain ⟨_, w₁, h₁, h⟩ := Run.bind_some.mp h
        obtain ⟨rfl, rfl⟩ := Prod.mk.inj (Option.some.inj h)
        exact K.met_host c (hm _ _ _ h₁) (touches_release w₁ (.function shape id)) rfl }
  have hturn : ∀ next, demand.afterTurn? = some next → ∀ w next' w',
      (Pure.pure next : Run σ μ Next) d w = some (next', w') → Met R c demand w next' w' := by
    rintro next hnext w _ _ ⟨⟩
    exact .turned hnext (K.refl w)
  exact H.meet K.traversal code demand (fun _ _ _ _ h => K.met_answer c h) hturn hclose
    (fun hm => absurd hm hd) w next w' h

end Keeping

/-- A relation that nothing inside an interpreter bears on. -/
structure Outside (R : World σ μ → World σ μ → Prop) : Prop extends Stable R where
  vm : ∀ w i f, R w (w.modifyVm i f)

/-- However a run of a thread ends, it has led from a world to a related one. -/
def Drive.Keeps (R : World σ μ → World σ μ → Prop) (d : Drive σ μ) : Prop :=
  ∀ c n, (Run.drive c n : Run σ μ Exit).Keeps R d

theorem World.drive_exit {code : HostCode σ μ} {fuel : Nat} {c : Context} {e e' : Exit}
    {w w' : World σ μ} (h : drive code fuel c (.exit e) w = some (e', w')) : e' = e ∧ w' = w := by
  cases fuel with
  | zero => cases h
  | succ fuel =>
    obtain ⟨rfl, rfl⟩ := Prod.mk.inj (Option.some.inj h)
    exact ⟨rfl, rfl⟩

/-- A run that needs something goes on when the need is met. -/
theorem World.drive_need {code : HostCode σ μ} {fuel : Nat} {c : Context} {demand : Demand}
    {w w' : World σ μ} {e : Exit} (h : drive code (fuel + 1) c (.need demand) w = some (e, w')) :
    ∃ next w₁, meet code c demand (drive code fuel) w = some (next, w₁) ∧
      drive code fuel c next w₁ = some (e, w') := by
  unfold drive at h
  dsimp only at h
  split at h
  next next w₁ hm => exact ⟨next, w₁, hm, h⟩
  next => cases h

namespace Outside

variable {R : World σ μ → World σ μ → Prop} {d : Drive σ μ} (O : Outside R)

include O

theorem world_onVm [Inhabited α] (w : World σ μ) (i : Nat) (f : Vm → Vm × α) :
    R w (w.onVm i f).2 := by
  rw [onVm_world]
  exact O.vm w i _

theorem onVm [Inhabited α] (i : Nat) (f : Vm → Vm × α) : (Run.onVm i f).Keeps R d :=
  Run.keeps_onWorld fun w => O.world_onVm w i f

theorem update (i : Nat) (f : Vm → Vm) : (Run.update (·.modifyVm i f)).Keeps R d :=
  Run.keeps_update fun w => O.vm w i f

variable (hd : d.Keeps R)

include hd

theorem invoke (c : Context) (f : Val) (args : List Val) : (c.invoke f args).Keeps R d :=
  O.bind (O.onVm _ _) fun _ => hd c _

theorem callFinalizer (c : Context) (f v : Val) : (callFinalizer c f v).Keeps R d :=
  O.bind (O.onVm _ _) fun _ => O.bind (O.onVm _ _) fun _ =>
    O.bind (O.bind (hd c _) fun _ => O.pure ()) fun _ => O.update _ _

theorem finalize (c : Context) (v : Val) : (finalize c v).Keeps R d := by
  unfold World.finalize
  refine O.bind O.get fun w => ?_
  split
  · exact O.pure ()
  · exact O.callFinalizer hd c _ v

theorem resumeWith (source co : Context) (n : Nat) : (resumeWith source co n).Keeps R d := by
  unfold World.resumeWith
  refine O.bind O.get fun _ => O.bind O.get fun w => ?_
  split
  · exact O.bind (O.toStable.update fun w => touches_modifySlots w co _ trivial) fun _ => O.pure _
  · refine O.bind (O.onVm _ _) fun _ => O.bind (hd co _) fun e => O.bind (O.update _ _) fun _ => ?_
    cases e with
    | returned vs => exact O.bind O.get fun _ => O.pure _
    | _ => exact O.pure _

theorem closeFor (c : Context) (thread : Nat) (onlyFailed : Bool) :
    (closeFor c thread onlyFailed).Keeps R d := by
  unfold World.closeFor
  refine O.bind O.get fun w => .ite (O.pure _) ?_
  refine O.bind O.get fun _ => O.bind (O.onVm _ _) fun _ => O.bind (hd _ _) fun e => ?_
  cases e <;> exact O.pure _

/-- Once the closing of an interpreter has begun, nothing but runs is left of it. -/
theorem shutDown {i : Nat} {w w' : World σ μ} {a : Unit} (h : shutDown i d w = some (a, w')) :
    R (w.happened (.closed i)) w' := by
  unfold World.shutDown at h
  obtain ⟨_, w₁, h₁, h⟩ := Run.bind_some.mp h
  obtain ⟨-, rfl⟩ := Prod.mk.inj (Option.some.inj h₁)
  refine Run.related h (O.bind (O.onVm _ _) fun lost =>
    O.bind (O.finalizeAll (O.finalize hd ⟨i, 0⟩) lost) fun _ =>
      O.bind (O.update i fun _ => {}) fun _ =>
      O.toStable.update fun w => touches_notify w _)

omit hd in
theorem met {c : Context} {demand : Demand} {w w' : World σ μ} {next : Next}
    (h : Met R c demand w next w') : R w w' := by
  cases h with
  | goesOn h => exact h
  | fails h => exact h
  | ends h ht _ => exact O.trans (O.trans h (O.vm _ _ _)) (O.touches ht)
  | turned _ h => exact h
  | nowhere h _ => exact h

/-- However a demand is met, the relation is kept. -/
theorem meet (K : Keeping R d) (code : HostCode σ μ) {c : Context} {demand : Demand} {w w' : World σ μ}
    {next : Next} (h : World.meet code c demand d w = some (next, w')) : R w w' := by
  have hcollect : ∀ u w', World.collect c d w = some (u, w') → R w w' := fun u w' =>
    K.collect c (O.world_onVm w _ _)
  exact O.met (K.met c code (fun thread onlyFailed _ _ => O.closeFor hd c thread onlyFailed)
    (fun _ => hcollect) h)

omit hd in
/-- Whatever runs, for however long, keeps the relation, if every operation does that uses runs
which do. -/
theorem drive (hK : ∀ d : Drive σ μ, d.Keeps R → Keeping R d) (code : HostCode σ μ) (fuel : Nat) :
    (drive code fuel).Keeps R := by
  induction fuel with
  | zero => rintro c n w a w' ⟨⟩
  | succ fuel ih =>
    intro c n w a w' h
    cases n with
    | exit e =>
      obtain ⟨-, rfl⟩ := Prod.mk.inj (Option.some.inj h)
      exact O.refl w
    | go s =>
      let r := w.onVm c.vm fun vm => vm.step c.thread s
      have h' : World.drive code fuel c r.1 r.2 = some (a, w') := h
      exact O.trans (O.world_onVm w _ _) (ih c _ _ a w' h')
    | need demand =>
      obtain ⟨next, w₁, hm, h'⟩ := drive_need h
      exact O.trans (O.meet ih (hK _ ih) code hm) (ih c _ _ a w' h')

end Outside
end LuaEmbed
