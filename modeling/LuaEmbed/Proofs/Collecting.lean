import LuaEmbed.Proofs.Calls
import LuaEmbed.Proofs.Refusal

/-!
What the collector does when it takes its turn on a stack. All that runs are the finalizers of objects
which nobody can reach any more. Each of them is called on top of the stack and comes back to it, so the
stack is afterwards as it was.
-/
namespace LuaEmbed

open Engine World

variable {σ μ α : Type} {c : Context} {st : ThreadStatus} {s : Array Val} {w w' : World σ μ}
  {d : Drive σ μ} {x : Unit}

namespace World

/-! ### What runs -/

/-- At such a moment the finalizer of an object begins to run on a thread. -/
def FinalizerOf (c : Context) (v : Val) (m : Moment σ μ) : Prop :=
  ∃ (w : World σ μ) (f : Val), (w.heap c.vm).metafield v "__gc" = f ∧ f ≠ .nil ∧ m.context = c ∧
    (m.next, m.world) = w.onVm c.vm fun vm => vm.enter c.thread f [v]
      { nests := true, canYield := false, name := some ⟨"metamethod", "__gc"⟩ }

/-- The objects that a collection on a thread finds to be lost, and has to finalize. -/
def lostTo (w : World σ μ) (c : Context) : List Val :=
  (w.onVm c.vm fun vm => Collector.collect vm (w.keptBy c)).1

theorem asks_finalizerOf (c : Context) (v : Val) :
    (finalize c v).AsksOnly (fun _ => FinalizerOf c v) d := by
  intro w
  unfold finalize
  refine Run.asksAt_onWorld_bind (f := fun w => (w, w)) ?_
  dsimp only
  split
  next => exact Run.asksAt_pure ()
  next hnil =>
    unfold callFinalizer
    refine Run.asksAt_onWorld_bind (Run.asksAt_onWorld_bind (Run.asksAt_bind_mute
      (Run.asksAt_drive_bind ?_ fun _ _ => Run.asksAt_pure ()) fun _ w =>
        Run.asksAt_onWorld fun w : World σ μ => ((), _)))
    refine ⟨_, _, ?_, fun h => hnil h, rfl, rfl⟩
    rw [onVm_world]
    exact congrArg (·.metafield v "__gc") (heap_modifyThread w c c.vm _)

theorem asks_finalizersOf (c : Context) (vs : List Val) :
    (finalizeAll c vs).AsksOnly (fun _ m => ∃ v ∈ vs, FinalizerOf c v m) d := by
  induction vs with
  | nil => exact fun _ => Run.asksAt_pure ()
  | cons v vs ih =>
    refine Run.asksOnly_bind (R := fun _ _ => True) (fun _ h => h) (fun _ _ _ _ => trivial)
      (fun w => ?_) fun _ w => ?_
    · exact (asks_finalizerOf c v w).imp fun m h => ⟨v, List.mem_cons_self .., h⟩
    · exact (ih w).imp fun m ⟨u, hu, h⟩ => ⟨u, List.mem_cons_of_mem _ hu, h⟩

/-- When the collector takes its turn, only finalizers of what is lost are called. -/
theorem asks_turn (c : Context) (w : World σ μ) :
    (World.turn c).AsksAt (fun m => w.takesTurn c = true ∧ ∃ v ∈ w.lostTo c, FinalizerOf c v m) d w := by
  unfold World.turn
  refine Run.asksAt_onWorld_bind (f := fun w => (w, w)) ?_
  split
  next htakes =>
    unfold collect
    refine Run.asksAt_onWorld_bind (f := fun w => (w, w)) (Run.asksAt_onWorld_bind
      (Run.asksAt_onWorld_bind (f := fun w => ((), _)) (Run.asksAt_bind_mute ?_ fun _ _ =>
        Run.asksAt_onWorld fun w : World σ μ => ((), _))))
    exact (asks_finalizersOf c _ _).imp fun m h => ⟨htakes, h⟩
  next => exact Run.asksAt_pure ()

/-! ### What it leaves -/

theorem StandsAs.finalize (S : Sound st c d) (hs : w.StandsAs st c s) {v : Val}
    (h : World.finalize c v d w = some (x, w')) (hc : Unclosed c.vm w w') : w'.StandsAs st c s := by
  rcases finalize_cases h with rfl | ⟨f, hf⟩
  · exact hs
  obtain ⟨th, ht, hstatus, -⟩ := hs.thread
  obtain ⟨th₁, e, ht', hr, -⟩ := S.finalizer hf hc ht hstatus
  refine hs.carried ht ht' ?_ ((th₁.status_setAwait _).trans (hr.back.1.trans hstatus.symm))
  rw [Thread.setAwait, Thread.top_modifyTop, hr.top_eq.1]

theorem StandsAs.finalizeAll (S : Sound st c d) {vs : List Val} (hs : w.StandsAs st c s)
    (h : World.finalizeAll c vs d w = some (x, w')) (hc : Unclosed c.vm w w') : w'.StandsAs st c s := by
  induction vs generalizing w with
  | nil =>
    obtain ⟨-, rfl⟩ := Prod.mk.inj (Option.some.inj h)
    exact hs
  | cons v vs ih =>
    obtain ⟨_, w₁, hfirst, hrest⟩ := Run.bind_some.mp h
    have hgrows := (path_outside.finalize S.path c v _ _ _ hfirst).grows
    have hgrows' := (path_outside.toStable.finalizeAll (path_outside.finalize S.path c) vs _ _ _ hrest).grows
    exact ih (hs.finalize S hfirst (hc.before hgrows hgrows')) hrest (hc.after hgrows hgrows')

/-- A collection on a stack leaves it as it was. -/
theorem StandsAs.collect (S : Sound st c d) (hs : w.StandsAs st c s)
    (h : World.collect c d w = some (x, w')) (hc : Unclosed c.vm w w') : w'.StandsAs st c s := by
  obtain ⟨th, ht, -⟩ := hs.thread
  unfold World.collect at h
  obtain ⟨_, w₁, h₁, h⟩ := Run.bind_some.mp h
  obtain ⟨rfl, rfl⟩ := Prod.mk.inj (Option.some.inj h₁)
  obtain ⟨lost, w₂, hsweep, h⟩ := Run.bind_some.mp h
  obtain ⟨rfl, rfl⟩ := Run.onVm_some.mp hsweep
  obtain ⟨_, w₃, hflag, h⟩ := Run.bind_some.mp h
  obtain ⟨-, rfl⟩ := Prod.mk.inj (Option.some.inj hflag)
  obtain ⟨_, w₄, hall, hdone⟩ := Run.bind_some.mp h
  obtain ⟨-, rfl⟩ := Prod.mk.inj (Option.some.inj hdone)
  have hmodify : ∀ (u : World σ μ) (f : Heap → Heap), u.StandsAs st c s →
      (u.modifyHeap c.vm f).StandsAs st c s := fun u f hu =>
    ((unmoved_touches (touches_modifyHeap u _ _)).stands hu)
  obtain ⟨vm, hvm, -, hw₂⟩ := onVm_thread ht fun vm => Collector.collect vm (w.keptBy c)
  have hroot : c.thread ∈ w.keptBy c := List.mem_cons_self ..
  obtain ⟨n, hn⟩ := th.shrink_eq
  have hswept := hs.carried ht (hw₂.trans (Collector.thread?_collect hvm (.inr (.inr hroot))))
    (by rw [hn]; rfl) (by rw [hn])
  exact hmodify _ _ ((hmodify _ _ hswept).finalizeAll S hall (hc.onVm _ _))

theorem StandsAs.turn (S : Sound st c d) (hs : w.StandsAs st c s)
    (h : World.turn c d w = some (x, w')) (hc : Unclosed c.vm w w') : w'.StandsAs st c s := by
  unfold World.turn at h
  obtain ⟨_, w₁, h₁, h₂⟩ := Run.bind_some.mp h
  obtain ⟨rfl, rfl⟩ := Prod.mk.inj (Option.some.inj h₁)
  split at h₂
  next => exact hs.collect S h₂ hc
  next =>
    obtain ⟨-, rfl⟩ := Prod.mk.inj (Option.some.inj h₂)
    exact hs

/-- Nor does the pause that an operation makes for the collector change the stack. A thread that is not in
the middle of a run must be left in peace by what runs. -/
theorem StandsAs.paused {code : HostCode σ μ} {fuel : Nat} {e : Exit} (hs : w.StandsAs st c s)
    (hP : st ≠ .ready → Throughout code (Unharmed st c) ⟨c, .need .pause, w⟩)
    (h : drive code fuel c (.need .pause) w = some (e, w')) (hc : Unclosed c.vm w w') :
    w'.StandsAs st c s := by
  have hall : Throughout code (Unharmed st c) ⟨c, .need .pause, w⟩ := by
    by_cases hst : st = .ready
    · exact fun m _ => hst ▸ unharmed_ready m
    · exact hP hst
  cases fuel with
  | zero => cases h
  | succ fuel =>
    obtain ⟨-, next, w₁, hm, hd⟩ := driveOnly_need (Drive.only_some.mpr ⟨hall, h⟩)
    obtain ⟨x, w₂, hturn, hnext⟩ := Run.bind_some.mp hm
    obtain ⟨rfl, rfl⟩ := Prod.mk.inj (Option.some.inj hnext)
    obtain ⟨-, rfl⟩ := drive_exit (Drive.only_some.mp hd).2
    exact hs.turn (sound_only code fuel) hturn hc

end World

namespace Op

theorem maker?_stack {o : StackOp α} {T : Context} (h : (Op.stack c o : Op σ μ _).maker? w = some T) :
    T = c := by
  unfold maker? at h
  dsimp only at h
  split at h
  · exact (Option.some.inj h).symm
  · cases h

/-- An operation on a stack gives the collector no turn, or one on this stack. -/
theorem turn_stack {o : StackOp α} (h : (Op.stack c o : Op σ μ _).turn d w = some (x, w')) :
    w' = w ∨ ∃ e, d c (.need .pause) w = some (e, w') := by
  cases hm : (Op.stack c o : Op σ μ _).maker? w with
  | none =>
    rw [turn_idle hm] at h
    exact .inl (Prod.mk.inj (Option.some.inj h)).2.symm
  | some T =>
    obtain rfl := maker?_stack hm
    unfold turn at h
    obtain ⟨_, w₁, h₁, h₂⟩ := Run.bind_some.mp h
    obtain ⟨rfl, rfl⟩ := Prod.mk.inj (Option.some.inj h₁)
    rw [hm] at h₂
    exact .inr (Run.discard_some.mp h₂)

theorem asks_turn_stack (o : StackOp α) (d : Drive σ μ) (w : World σ μ) :
    (Op.stack c o : Op σ μ _).turn.AsksAt (· = ⟨c, .need .pause, w⟩) d w := by
  unfold turn
  refine Run.asksAt_onWorld_bind (f := fun w => (w, w)) ?_
  dsimp only
  split
  next T hm =>
    obtain rfl := maker?_stack hm
    exact Run.asksAt_drive_bind (P := (· = ⟨T, .need .pause, w⟩)) rfl fun _ _ => Run.asksAt_pure ()
  next => exact Run.asksAt_pure ()

/-- An operation that has the engine make no object asks for nothing before it is done. -/
theorem not_asks_turn {o : Op σ μ α} (h : o.maker? w = none) (m : Moment σ μ) : ¬ o.turn.Asks d w m := by
  intro hm
  have hnone : o.turn.AsksAt (fun _ => False) d w := by
    unfold turn
    refine Run.asksAt_onWorld_bind (f := fun w => (w, w)) ?_
    rw [h]
    exact Run.asksAt_pure ()
  exact hnone.holds hm

end Op
end LuaEmbed
