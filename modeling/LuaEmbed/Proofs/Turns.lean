import LuaEmbed.Proofs.Closing
import LuaEmbed.Proofs.Interaction
import LuaEmbed.Proofs.Steady

/-!
A resume, taken apart: what comes before the thread goes on, the moment at which it does, and what
is made of its exit. Between the two there is nothing but the thread's own run.
-/
namespace LuaEmbed

open Engine World

variable {σ μ : Type}

namespace Act

variable {α β : Type} {d : Drive σ μ} {w w' : World σ μ}

theorem api_ok_bind {a : Api σ μ α} {x : α} (h : a w = (.ok x, w')) (k : α → Act σ μ β) :
    (Act.api a >>= k) d w = k x d w' := by
  have hb : (Act.api a >>= k) d w = ExceptT.bindCont k (a w).1 d (a w).2 := rfl
  rw [hb, h]
  rfl

theorem api_error_bind {a : Api σ μ α} {e : Error} (h : a w = (.error e, w'))
    (k : α → Act σ μ β) : (Act.api a >>= k) d w = some (.error e, w') := by
  have hb : (Act.api a >>= k) d w = ExceptT.bindCont k (a w).1 d (a w).2 := rfl
  rw [hb, h]
  rfl

theorem lift_bind (m : Run σ μ α) (k : α → Act σ μ β) :
    (ExceptT.lift m >>= k) d w = (m d w).bind fun r => k r.1 d r.2 := by
  have h : (ExceptT.lift m : Act σ μ α) d w = (m d w).map fun p => (.ok p.1, p.2) := by
    cases hm : m d w <;> simp [ExceptT.lift, ExceptT.mk, Functor.map, StateT.map, hm]
  have hb : (ExceptT.lift m >>= k) d w =
      ((ExceptT.lift m : Act σ μ α) d w).bind fun p => ExceptT.bindCont k p.1 d p.2 := rfl
  rw [hb, h, Option.bind_map]
  rfl

theorem api_map (a : Api σ μ α) (f : α → β) :
    (Act.api a >>= fun x => (pure (f x) : Act σ μ β)) d w = some ((a >>= fun x => pure (f x)) w) := by
  have hb : (Act.api a >>= fun x => (pure (f x) : Act σ μ β)) d w =
      ExceptT.bindCont (fun x => (pure (f x) : Act σ μ β)) (a w).1 d (a w).2 := rfl
  rw [hb]
  cases ha : a w with
  | mk r w₁ =>
    cases r with
    | ok x =>
      rw [Api.bind_ok ha]
      rfl
    | error e =>
      rw [Api.bind_error ha]
      rfl

end Act

namespace ThreadHandle

section

variable (h : ThreadHandle) (source : Context) (args : List Value) (w : World σ μ)

/-- The world in which a resume pushes its arguments: a view of the thread is open. -/
def entered : World σ μ := (h.view false (source.owns h w).2).2

/-- The world in which the arguments are on the thread's stack. -/
def loaded : World σ μ := (Context.pushAll h.thread args (h.entered source w)).2

/-- Nothing stands in the way of resuming a thread. -/
structure Goes : Prop where
  owns : (source.owns h w).1 = .ok true
  status : (h.status source (source.owns h w).2).1 = .ok .suspended
  short : args.length ≤ Word32.greatest
  pushed : (Context.pushAll h.thread args (h.entered source w)).1 = .ok ()
  granted : ((h.loaded source args w).vm h.thread.vm).refusal? h.thread.thread args.length
    ((h.loaded source args w).thread source).top.depth = none

/-- The moment at which a resumed thread goes on. -/
def turn : Moment σ μ :=
  let w := h.loaded source args w
  let r := w.onVm h.thread.vm fun vm =>
    vm.beginResume h.thread.thread args.length (w.thread source).top.depth
  ⟨h.thread, r.1, r.2⟩

end

/-- What is made of the exit of a thread that was resumed. -/
def handBack (co : Context) (e : Exit) : Api σ μ Resumed := fun w =>
  let w := w.modifyVm co.vm (·.endResume co.thread e)
  match e with
  | .returned _ => (do return .returned (← co.popValues (w.depth co)) : Api σ μ Resumed) w
  | .yielded vs => (do return .yielded (← co.popValues vs.length) : Api σ μ Resumed) w
  | .raised _ v =>
    (.error (.call ((w.push co v).popErrorText co).1), ((w.push co v).popErrorText co).2)

variable {h : ThreadHandle} {source : Context} {args : List Value} {w : World σ μ}

theorem isClosed_of_touches {w' : World σ μ} (h : Touches w w') (q : ThreadHandle) :
    q.isClosed w' = q.isClosed w := by
  unfold ThreadHandle.isClosed World.instance?
  rw [h.closed]

/-- A thread that is owned belongs to an interpreter that still has its owner. -/
theorem isClosed_of_owns (ho : (source.owns h w).1 = .ok true) : h.isClosed w = false := by
  unfold Context.owns at ho
  rw [Api.get_bind] at ho
  unfold ThreadHandle.isClosed
  cases hx : w.instance? h.thread.vm with
  | none =>
    simp only [hx] at ho
    cases ho
  | some x =>
    simp only [hx] at ho
    split at ho
    · cases ho
    next hc => simpa using hc

theorem Goes.isClosed (G : h.Goes source args w) : h.isClosed (source.owns h w).2 = false :=
  (isClosed_of_touches (source.quiet_owns h w) h).trans (isClosed_of_owns G.owns)

/-- The view that a resume opens. -/
theorem Goes.view (G : h.Goes source args w) :
    h.view false (source.owns h w).2 =
      (.ok ⟨h.thread, (source.owns h w).2.views.next⟩, h.entered source w) := by
  unfold ThreadHandle.entered ThreadHandle.view
  rw [if_neg (by rw [G.isClosed]; exact Bool.false_ne_true)]

theorem Goes.entered (G : h.Goes source args w) :
    h.entered source w = (source.owns h w).2.addView ⟨h.thread, false⟩ := by
  unfold ThreadHandle.entered ThreadHandle.view
  rw [if_neg (by rw [G.isClosed]; exact Bool.false_ne_true)]
  rfl

theorem status_world (w : World σ μ) : (h.status source w).2 = w := by
  unfold ThreadHandle.status
  split
  · rfl
  · split <;> rfl

theorem pair_eq {α β : Type} {p : α × β} {a : α} (h : p.1 = a) : p = (a, p.2) := by rw [← h]

/-- How the run of a resumed thread ends for the interpreter. -/
theorem Goes.resumeWith (G : h.Goes source args w) (d : Drive σ μ) :
    World.resumeWith source h.thread args.length d (h.loaded source args w) =
      (d.from (h.turn source args w)).map fun r =>
        let w := r.2.modifyVm h.thread.vm (·.endResume h.thread.thread r.1)
        match r.1 with
        | .returned _ => (.returned (w.depth h.thread), w)
        | .yielded vs => (.yielded vs.length, w)
        | .raised _ v => (.failed v, w) := by
  unfold World.resumeWith
  dsimp only [bind, ReaderT.bind, StateT.bind, MonadState.get, getThe, MonadStateOf.get, liftM,
    monadLift, MonadLift.monadLift, StateT.get, pure, Option.bind]
  rw [G.granted]
  change (d.from (h.turn source args w)).bind _ = _
  cases d.from (h.turn source args w) with
  | none => rfl
  | some r =>
    obtain ⟨e, w₁⟩ := r
    cases e <;> rfl

/-- If nothing stands in its way, a resume has the thread run and makes what it can of its exit. -/
theorem Goes.resume (G : h.Goes source args w) (d : Drive σ μ) :
    h.resume source args d w = (d.from (h.turn source args w)).bind fun r =>
      let r := handBack h.thread r.1 r.2
      (World.dropView ⟨h.thread, (source.owns h w).2.views.next⟩ false d r.2).map fun s => (r.1, s.2) := by
  have hown : source.owns h w = (.ok true, (source.owns h w).2) := pair_eq G.owns
  have hstatus : h.status source (source.owns h w).2 = (.ok .suspended, (source.owns h w).2) := by
    rw [pair_eq G.status, status_world]
  have hpush : Context.pushAll h.thread args (h.entered source w) =
      (.ok (), h.loaded source args w) := pair_eq G.pushed
  unfold ThreadHandle.resume
  rw [Act.api_ok_bind hown, if_neg (by simp)]
  dsimp only
  rw [Act.api_ok_bind hstatus]
  dsimp only
  unfold withView
  rw [Act.api_ok_bind G.view, Act.lift_bind]
  unfold World.goOn
  dsimp only
  rw [Act.api_ok_bind (rfl : Context.top h.thread (h.entered source w) = (.ok _, _)),
    if_neg (Int.not_lt.mpr G.short), Act.lift_bind,
    show Run.api (Context.pushAll h.thread args) d (h.entered source w) = _ from congrArg some hpush,
    Option.bind_some]
  dsimp only
  rw [Act.lift_bind, G.resumeWith]
  cases d.from (h.turn source args w) with
  | none => rfl
  | some r =>
    obtain ⟨e, w₁⟩ := r
    have hdrop : ∀ (r : Except Error Resumed) (w₂ : World σ μ),
        (ExceptT.lift (World.dropView ⟨h.thread, (source.owns h w).2.views.next⟩ false) >>=
          fun _ => ExceptT.mk (pure r) : Act σ μ Resumed) d w₂ =
        (World.dropView ⟨h.thread, (source.owns h w).2.views.next⟩ false d w₂).map fun s => (r, s.2) := by
      intro r w₂
      rw [Act.lift_bind, Option.map_eq_bind]
      rfl
    rw [Option.map_some, Option.bind_some, Option.bind_some]
    simp only [hdrop]
    cases e with
    | returned vs | yielded vs =>
      dsimp only
      rw [Act.api_map, Option.bind_some]
      rfl
    | raised status v =>
      unfold handBack
      dsimp only
      generalize w₁.modifyVm _ _ = w₂
      rw [Act.lift_bind, Run.onWorld]
      generalize (w₂.push h.thread v).popErrorText h.thread = p
      rfl

/-! ### The view that a resume opens -/

theorem outside_handBack {R : World σ μ → World σ μ → Prop} (O : Outside R) (co : Context)
    (e : Exit) (w : World σ μ) : R w (handBack co e w).2 := by
  have hend := O.vm w co.vm (·.endResume co.thread e)
  unfold handBack
  dsimp only
  generalize w.modifyVm co.vm _ = w₁ at hend
  cases e with
  | returned vs | yielded vs =>
    refine O.trans hend (O.touches ?_)
    exact ((co.quiet_popValues _ trivial).bind fun _ => .pure _) w₁
  | raised status v =>
    exact O.trans hend (O.touches ((touches_push w₁ co v trivial).trans (touches_popErrorText _ co trivial)))

/-- When the resumed thread exits, the view is still open. -/
theorem Goes.view_open {code : HostCode σ μ} {fuel : Nat} {e : Exit} {w₁ : World σ μ}
    (G : h.Goes source args w)
    (hd : (World.drive code fuel).from (h.turn source args w) = some (e, w₁)) :
    (handBack h.thread e w₁).2.views.get? (source.owns h w).2.views.next
      = some ⟨h.thread, false⟩ := by
  have O := balanced_outside (σ := σ) (μ := μ)
  have hpush : Balanced (h.entered source w) (h.loaded source args w) :=
    O.touches (Context.quiet_pushAll h.thread args trivial _)
  have hturn : Balanced (h.loaded source args w) (h.turn source args w).world :=
    O.world_onVm _ _ _
  have hrun : Balanced (h.turn source args w).world w₁ := balanced_drive code fuel _ _ _ _ _ hd
  have hall := O.trans hpush (O.trans hturn (O.trans hrun (outside_handBack O h.thread e w₁)))
  refine (hall _ _ rfl).mp ?_
  rw [G.entered]
  change ((source.owns h w).2.views.push ⟨h.thread, false⟩).get? _ = _
  rw [Pool.get?_push, if_pos rfl]

theorem closed_handBack (co : Context) (e : Exit) (w : World σ μ) (i : Nat) :
    ((handBack co e w).2.instances[i]?).map (·.closed) = (w.instances[i]?).map (·.closed) := by
  have hend : ((w.modifyVm co.vm (·.endResume co.thread e)).instances[i]?).map (·.closed)
      = (w.instances[i]?).map (·.closed) := by
    rw [modifyVm, instances_modifyInstance]
    split
    · simp [Option.map_map, Function.comp_def]
    · rfl
  unfold handBack
  dsimp only
  generalize w.modifyVm co.vm _ = w₁ at hend
  rw [← hend]
  cases e with
  | returned vs | yielded vs =>
    exact TouchesIn.closed (((co.quiet_popValues _ trivial).bind fun _ => .pure _) w₁) i
  | raised status v =>
    exact TouchesIn.closed ((touches_push w₁ co v trivial).trans (touches_popErrorText _ co trivial)) i

end ThreadHandle

/-- Dropping a view of an interpreter that has its owner does nothing else. -/
theorem World.dropView_of_owned {v : View} {held : Bool} {d : Drive σ μ}
    {w : World σ μ} (ho : w.views.get? v.number = some ⟨v.stack, held⟩)
    (hc : (w.instances[v.stack.vm]?).map (·.closed) = some false) :
    dropView v held d w = some ((), w.removeView v.number ⟨v.stack, held⟩) := by
  obtain ⟨x, hx, hc⟩ := Option.map_eq_some_iff.mp hc
  unfold dropView
  refine Run.bind_some.mpr ⟨w, w, rfl, ?_⟩
  simp only [ho, if_true]
  refine Run.bind_some.mpr ⟨(), _, rfl, Run.bind_some.mpr
    ⟨(), w.removeView v.number ⟨v.stack, held⟩, rfl, ?_⟩⟩
  refine Run.bind_some.mpr ⟨_, _, rfl, ?_⟩
  have hx' : (w.removeView v.number ⟨v.stack, held⟩).instance? v.stack.vm = some { x with views := x.views - 1 } := by
    unfold removeView instance?
    rw [instances_modifyInstance_self]
    dsimp only [happened]
    rw [hx]
    rfl
  rw [hx']
  dsimp only
  rw [hc]
  simp
  rfl

/-- How a resume ends, as long as the interpreter has its owner. -/
theorem ThreadHandle.Goes.ends {code : HostCode σ μ} {fuel : Nat} {e : Exit} {w w₁ : World σ μ}
    {h : ThreadHandle} {source : Context} {args : List Value} (G : h.Goes source args w)
    (hd : (World.drive code fuel).from (h.turn source args w) = some (e, w₁))
    (ho : (w₁.instances[h.thread.vm]?).map (·.closed) = some false) :
    h.resume source args (World.drive code fuel) w =
      some ((handBack h.thread e w₁).1, (handBack h.thread e w₁).2.removeView
        (source.owns h w).2.views.next ⟨h.thread, false⟩) := by
  rw [G.resume, hd, Option.bind_some]
  dsimp only
  rw [dropView_of_owned (G.view_open hd) ((closed_handBack h.thread e w₁ _).trans ho)]
  rfl

end LuaEmbed
