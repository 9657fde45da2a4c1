import LuaEmbed.Proofs.Keeping
import Mathlib.Tactic.ByContra
import Mathlib.Tactic.Choose

/-!
What an operation asks for while it runs, as a tree: it ends, or it has a thread run to its next
exit and goes on from there. Every operation is such a tree, so more patience only ever turns a run
without an end into one with an end, and the moments at which an operation has a thread run can be
named.
-/
namespace LuaEmbed

open Engine World

variable {σ μ α β : Type}

/-- A thread that is about to go on: what is about to happen on it, and the world in which it
does. -/
structure Moment (σ μ : Type) where
  context : Context
  next : Next
  world : World σ μ

/-- The host function that is about to run, if there is one. -/
def Engine.Next.host? : Next → Option (Bool × Nat)
  | .need (.host isList (some id)) => some (isList, id)
  | _ => none

theorem Moment.eq_of_host {m : Moment σ μ} {isList : Bool} {id : Nat}
    (h : m.next.host? = some (isList, id)) :
    m = ⟨m.context, .need (.host isList (some id)), m.world⟩ := by
  obtain ⟨c, next, w⟩ := m
  have hnext : next = .need (.host isList (some id)) := by
    unfold Engine.Next.host? at h
    split at h
    next heq =>
      obtain ⟨rfl, rfl⟩ := Prod.mk.inj (Option.some.inj h)
      exact heq
    next => cases h
  rw [hnext]

/-- A run from a moment on. -/
def Drive.from (d : Drive σ μ) (m : Moment σ μ) : Option (Exit × World σ μ) :=
  d m.context m.next m.world

/-- The second runs whatever the first runs, to the same end. -/
def Drive.Below (d d' : Drive σ μ) : Prop := ∀ m r, d.from m = some r → d'.from m = some r

/-- Something that runs threads one after the other, laid out. It may end without a result. -/
inductive Tree (σ μ α : Type) where
  | done (a : α) (w : World σ μ)
  | gone
  | ask (m : Moment σ μ) (k : Exit × World σ μ → Tree σ μ α)

namespace Tree

variable {d d' : Drive σ μ} {t : Tree σ μ α} {x : Moment σ μ}

def run (d : Drive σ μ) : Tree σ μ α → Option (α × World σ μ)
  | done a w => some (a, w)
  | gone => none
  | ask m k => (d.from m).bind fun r => (k r).run d

def bind (f : α → World σ μ → Tree σ μ β) : Tree σ μ α → Tree σ μ β
  | done a w => f a w
  | gone => gone
  | ask m k => ask m fun r => (k r).bind f

/-- The moments at which it has a thread run, if runs go as stated. -/
inductive Asks (d : Drive σ μ) (x : Moment σ μ) : Tree σ μ α → Prop where
  | now (k : Exit × World σ μ → Tree σ μ α) : Asks d x (ask x k)
  | later {m r} {k : Exit × World σ μ → Tree σ μ α} (hr : d.from m = some r)
    (h : Asks d x (k r)) : Asks d x (ask m k)

theorem run_bind (f : α → World σ μ → Tree σ μ β) (t : Tree σ μ α) :
    (t.bind f).run d = (t.run d).bind fun r => (f r.1 r.2).run d := by
  induction t with
  | done a w => rfl
  | gone => rfl
  | ask m k ih =>
    have hask : ((ask m k).bind f).run d = (d.from m).bind fun r => ((k r).bind f).run d := rfl
    have hrun : (ask m k).run d = (d.from m).bind fun r => (k r).run d := rfl
    rw [hask, hrun]
    cases d.from m with
    | none => rfl
    | some r => exact ih r

theorem run_mono (hd : d.Below d') {r : α × World σ μ} (h : t.run d = some r) :
    t.run d' = some r := by
  induction t with
  | done a w => exact h
  | gone => cases h
  | ask m k ih =>
    obtain ⟨s, hs, hk⟩ := Option.bind_eq_some_iff.mp h
    unfold run
    rw [hd m s hs]
    exact ih s hk

theorem asks_bind {f : α → World σ μ → Tree σ μ β} (h : (t.bind f).Asks d x) :
    t.Asks d x ∨ ∃ a w, t.run d = some (a, w) ∧ (f a w).Asks d x := by
  induction t with
  | done a w => exact .inr ⟨a, w, rfl, h⟩
  | gone => cases h
  | ask m k ih =>
    unfold bind at h
    cases h with
    | now => exact .inl (.now k)
    | later hr h =>
      rcases ih _ h with h | ⟨a, w, hrun, h⟩
      · exact .inl (.later hr h)
      · refine .inr ⟨a, w, ?_, h⟩
        unfold run
        rw [hr]
        exact hrun

/-- Without an end of that run there would be no end of the whole. -/
theorem asks_of_none {r : α × World σ μ} (h : t.run d = some r)
    (hnone : ∀ d' : Drive σ μ, (∀ m, m ≠ x → d'.from m = d.from m) → d'.from x = none →
      t.run d' = none) : t.Asks d x := by
  by_contra hx
  classical
  let d' : Drive σ μ := fun c n w => if Moment.mk c n w = x then none else d c n w
  have hne : ∀ m, m ≠ x → d'.from m = d.from m := fun m hm => if_neg hm
  have hrun : t.run d' = t.run d := by
    clear h hnone
    induction t with
    | done a w => rfl
    | gone => rfl
    | ask m k ih =>
      have hm : m ≠ x := fun he => hx (he ▸ .now k)
      unfold run
      rw [hne m hm]
      cases hr : d.from m with
      | none => rfl
      | some r => exact ih r fun h => hx (.later hr h)
  have hat : d'.from x = none := if_pos rfl
  rw [hnone d' hne hat, h] at hrun
  cases hrun

end Tree

namespace Run

/-- The tree says what the run comes to from a world on, however threads run. -/
def Lays (m : Run σ μ α) (w : World σ μ) (t : Tree σ μ α) : Prop := ∀ d, m d w = t.run d

/-- It can be laid out as a tree. -/
def Laid (m : Run σ μ α) : Prop := ∀ w, ∃ t, m.Lays w t

/-- At such a moment it has a thread run, on the way from a world, if runs go as stated. -/
def Asks (m : Run σ μ α) (d : Drive σ μ) (w : World σ μ) (x : Moment σ μ) : Prop :=
  ∀ t, m.Lays w t → t.Asks d x

theorem lays_onWorld (f : World σ μ → α × World σ μ) (w : World σ μ) :
    (Run.onWorld f).Lays w (.done (f w).1 (f w).2) := fun _ => rfl

theorem lays_unwind (w : World σ μ) : (Run.unwind : Run σ μ α).Lays w .gone := fun _ => rfl

theorem lays_drive (c : Context) (n : Next) (w : World σ μ) :
    (Run.drive c n).Lays w (.ask ⟨c, n, w⟩ fun r => .done r.1 r.2) := by
  intro d
  exact (Option.bind_fun_some _).symm

theorem lays_bind {m : Run σ μ α} {k : α → Run σ μ β} {w : World σ μ} {t : Tree σ μ α}
    {f : α → World σ μ → Tree σ μ β} (hm : m.Lays w t) (hk : ∀ a w, (k a).Lays w (f a w)) :
    (m >>= k).Lays w (t.bind f) := by
  intro d
  have hb : (m >>= k) d w = (m d w).bind fun r => k r.1 d r.2 := rfl
  rw [hb, Tree.run_bind, hm d]
  exact congrArg _ (funext fun r => hk r.1 r.2 d)

theorem laid_onWorld (f : World σ μ → α × World σ μ) : (Run.onWorld f).Laid :=
  fun w => ⟨_, lays_onWorld f w⟩

theorem laid_unwind : (Run.unwind : Run σ μ α).Laid := fun w => ⟨_, lays_unwind w⟩

theorem laid_drive (c : Context) (n : Next) : (Run.drive c n : Run σ μ Exit).Laid :=
  fun w => ⟨_, lays_drive c n w⟩

theorem laid_bind {m : Run σ μ α} {k : α → Run σ μ β} (hm : m.Laid) (hk : ∀ a, (k a).Laid) :
    (m >>= k).Laid := by
  intro w
  obtain ⟨t, ht⟩ := hm w
  choose f hf using hk
  exact ⟨_, lays_bind ht hf⟩

theorem Laid.mono {m : Run σ μ α} (h : m.Laid) {d d' : Drive σ μ} (hd : d.Below d') {w : World σ μ}
    {r : α × World σ μ} (hr : m d w = some r) : m d' w = some r := by
  obtain ⟨t, ht⟩ := h w
  rw [ht] at hr ⊢
  exact Tree.run_mono hd hr

end Run

/-! ### Every operation can be laid out -/

/-- A property that every change of the world and every run of a thread has, also what has no result, and
that putting together passes on. -/
structure Compositional (M : ∀ α : Type, Run σ μ α → Prop) : Prop where
  bind : ∀ {α β : Type} {m : Run σ μ α} {k : α → Run σ μ β},
    M α m → (∀ a, M β (k a)) → M β (m >>= k)
  onWorld : ∀ {α : Type} (f : World σ μ → α × World σ μ), M α (Run.onWorld f)
  drive : ∀ c n, M Exit (Run.drive c n)
  unwind : M Next Run.unwind

namespace Compositional

variable {M : ∀ α : Type, Run σ μ α → Prop} (C : Compositional M)

include C

theorem pure (a : α) : M α (Pure.pure a) := C.onWorld fun w => (a, w)

theorem get : M (World σ μ) MonadState.get := C.onWorld fun w => (w, w)

theorem update (f : World σ μ → World σ μ) : M Unit (Run.update f) := C.onWorld fun w => ((), f w)

theorem finalize (c : Context) (v : Val) : M Unit (finalize c v) := by
  unfold World.finalize
  refine C.bind C.get fun w => ?_
  split
  · exact C.pure ()
  · exact C.bind (C.onWorld _) fun _ => C.bind (C.onWorld _) fun _ =>
      C.bind (C.bind (C.drive c _) fun _ => C.pure ()) fun _ => C.update _

theorem shutDown (vm : Nat) : M Unit (shutDown vm) := by
  have hall : ∀ vs, M Unit (finalizeAll ⟨vm, 0⟩ vs) := by
    intro vs
    induction vs with
    | nil => exact C.pure ()
    | cons v vs ih => exact C.bind (C.finalize _ v) fun _ => ih
  exact C.bind (C.update _) fun _ => C.bind (C.onWorld _) fun lost =>
    C.bind (hall lost) fun _ => C.bind (C.update _) fun _ => C.update _

theorem housekeeping : Housekeeping M where
  bind := C.bind
  noted _ := C.onWorld _
  shutDown := C.shutDown

theorem resumeWith (source co : Context) (n : Nat) : M ResumeEnd (resumeWith source co n) := by
  unfold World.resumeWith
  refine C.bind C.get fun _ => C.bind C.get fun w => ?_
  split
  · exact C.bind (C.update _) fun _ => C.pure _
  · refine C.bind (C.onWorld _) fun _ => C.bind (C.drive _ _) fun e => C.bind (C.update _) fun _ => ?_
    cases e with
    | returned vs => exact C.bind C.get fun _ => C.pure _
    | _ => exact C.pure _

theorem closeFor (c : Context) (thread : Nat) (onlyFailed : Bool) :
    M (Option Val) (closeFor c thread onlyFailed) := by
  unfold World.closeFor
  refine C.bind C.get fun w => Traversal.ite (C.pure _) ?_
  refine C.bind C.get fun _ => C.bind (C.onWorld _) fun _ => C.bind (C.drive _ _) fun e => ?_
  cases e <;> exact C.pure _

/-- So every operation has it. -/
theorem traversal : Traversal (fun _ => True) (TouchesIn fun _ => True) M where
  bind hm hk := C.bind hm hk
  effects := effects_touches _
  quiet _ := C.onWorld _
  invoke c _ _ _ := C.bind (C.onWorld _) fun _ => C.drive c _
  resumeWith source co n _ := C.resumeWith source co n
  finalize c v _ := C.finalize c v
  pause c _ := C.drive c _
  birth _ _ _ := C.update _
  dropOwner := C.housekeeping.dropOwner
  view _ := C.onWorld _
  dropView v := C.housekeeping.dropView v true
  withView h _ _ _ ha := C.housekeeping.withView h fun c => ha c trivial

/-- And so has the meeting of every demand. -/
theorem meet (code : HostCode σ μ) (c : Context) (demand : Demand) :
    M Next (meet code c demand) := by
  have H : Meeting M c (M Next) :=
    { after := C.bind
      endHost := fun _ => C.onWorld _
      raiseHost := fun _ => C.bind (C.update _) fun _ => C.bind C.get fun _ => C.pure _
      unwind := C.unwind
      released := fun _ _ hm => C.bind hm fun _ => C.bind (C.update _) fun _ => C.pure _ }
  exact H.meet C.traversal code demand (fun _ => C.onWorld _) (fun _ _ => C.pure _)
    (fun thread onlyFailed _ _ => C.closeFor c thread onlyFailed)
    fun _ => C.traversal.collect (fun _ _ => C.onWorld _) (fun _ _ => C.update _) c trivial

end Compositional

theorem Run.laid : Compositional fun (α : Type) (m : Run σ μ α) => m.Laid where
  bind := laid_bind
  onWorld := laid_onWorld
  drive := laid_drive
  unwind := laid_unwind

/-! ### Patience -/

/-- A run that ends within a number of steps ends so within any greater number. -/
theorem World.below_drive (code : HostCode σ μ) {n m : Nat} (h : n ≤ m) :
    (drive code n).Below (drive code m) := by
  induction n generalizing m with
  | zero => rintro ⟨c, next, w⟩ r ⟨⟩
  | succ n ih =>
    obtain ⟨m, rfl⟩ : ∃ k, m = k + 1 := ⟨m - 1, by omega⟩
    have hnm := ih (Nat.le_of_succ_le_succ h)
    rintro ⟨c, next, w⟩ ⟨e, w'⟩ hr
    cases next with
    | exit e => exact hr
    | go s =>
      exact hnm ⟨c, (w.onVm c.vm fun vm => vm.step c.thread s).1,
        (w.onVm c.vm fun vm => vm.step c.thread s).2⟩ _ hr
    | need demand =>
      obtain ⟨next, w₁, hmet, hgo⟩ := drive_need hr
      have hmet' := (Run.laid.meet code c demand).mono hnm hmet
      have hgo' : drive code m c next w₁ = some (e, w') := hnm ⟨c, next, w₁⟩ _ hgo
      change drive code (m + 1) c (.need demand) w = some (e, w')
      unfold drive
      simp only [hmet', hgo']

end LuaEmbed
