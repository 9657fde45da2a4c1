import LuaEmbed.Proofs.Attendance
import LuaEmbed.Proofs.Parking

/-!
A stack on which nothing is done. As long as no code runs on a thread, no host function works on its
stack and no collection frees it, it is left exactly as it is by whatever runs on other threads,
attempts to resume it included: they end before they have changed anything. A thread that is in the
middle of a run needs less, since nobody can have it go on and nothing frees it.
-/
namespace LuaEmbed

open Engine

variable {σ μ α β : Type} {T c : Context} {free : Prop} {w w' w₁ : World σ μ} {d d' : Drive σ μ}
  {th : Thread}

/-- An operation does not work on a stack. To resume its thread is another matter. -/
def Op.Avoids (T : Context) : Op σ μ α → Prop
  | .stack c o => T ≠ c ∧ ∀ d, o.target? = some d → T ≠ d
  | .run c _ => T ≠ c
  | _ => True

/-- What makes an object on the stack works on it. -/
theorem Op.Avoids.maker {o : Op σ μ α} (ho : o.Avoids T) (h : o.maker? w = some c) : T ≠ c := by
  unfold Op.maker? at h
  cases o with
  | stack d o =>
    dsimp only at h
    split at h
    · exact Option.some.inj h ▸ ho.1
    · cases h
  | run d o =>
    dsimp only at h
    split at h
    · exact Option.some.inj h ▸ ho
    · cases h
  | _ => cases h

theorem Program.Asks.mono {o : Op σ μ β} {u : World σ μ} {p : Program σ μ α} (hd : d.Below d')
    (h : p.Asks d o u w) : p.Asks d' o u w := by
  induction h with
  | now ht => exact .now ((Run.laid.traversal.turnOf _ fun _ _ _ => trivial).mono hd ht)
  | later ht hr _ ih =>
    exact .later ((Run.laid.traversal.turnOf _ fun _ _ _ => trivial).mono hd ht)
      ((Run.laid.traversal.op _ (Op.within_all _)).mono hd hr) ih

theorem HostCode.Asks.mono {code : HostCode σ μ} {id : Nat} {o : Op σ μ β} {u : World σ μ}
    (hd : d.Below d') (h : code.Asks d c id o u w) : code.Asks d' c id o u w := by
  cases h with
  | raw hf h => exact .raw hf (h.mono hd)
  | list hf hargs h => exact .list hf hargs (h.mono hd)

namespace ThreadHandle

/-- A view shows the stack of its thread. -/
theorem withView_eq (h : ThreadHandle) (a : Context → Act σ μ α) :
    h.withView a = h.withView fun _ => a h.thread := by
  funext d w
  unfold ThreadHandle.withView
  rcases World.view_cases h false w with ⟨-, hv⟩ | ⟨x, -, -, hv⟩
  · rw [Act.api_error_bind hv, Act.api_error_bind hv]
  · rw [Act.api_ok_bind hv, Act.api_ok_bind hv]

/-- A thread in the middle of a run cannot be resumed. -/
theorem Goes.not_running {h : ThreadHandle} {source : Context} {args : List Value}
    (G : h.Goes source args w) (ht : w.thread? h.thread = some th) : ¬ th.isRunning := by
  intro hrun
  have hasked : w.Unmoved (source.owns h w).2 := World.unmoved_touches (source.quiet_owns h w)
  obtain ⟨th₁, ht₁, hr⟩ := hasked _ _ ht
  obtain ⟨hready, hinside⟩ := Thread.isRunning_iff.mp (hr.toSameBelow.isRunning hrun)
  rcases seen_suspended ht₁ G.status with hy | ⟨-, habove, -⟩
  · rw [hready] at hy
    cases hy
  · exact hinside (Thread.tail_frames_eq_nil.mpr habove)

end ThreadHandle

namespace World

/-- While its interpreter stays open, a thread stays as it is but for the size of its stack. It may be
any, or one that is in the middle of a run. -/
structure Rests (free : Prop) (T : Context) (w w' : World σ μ) : Prop where
  grows : w.history <:+ w'.history
  kept : Unclosed T.vm w w' → ∀ th, w.thread? T = some th → free ∨ th.isRunning →
    ∃ th', w'.thread? T = some th' ∧ th.Rested False th'

theorem Still.rests (h : Still T w w') : Rests free T w w' :=
  ⟨h.grows, fun _ th ht _ => ⟨th, h.same th ht, .refl _ th⟩⟩

theorem Rests.refl (w : World σ μ) : Rests free T w w := (Still.refl w).rests

theorem Rests.trans (h : Rests free T w w₁) (k : Rests free T w₁ w') : Rests free T w w' := by
  refine ⟨h.grows.trans k.grows, fun hc th ht hf => ?_⟩
  obtain ⟨th₁, ht₁, hr₁⟩ := h.kept (hc.before h.grows k.grows) th ht hf
  obtain ⟨th', ht', hr'⟩ := k.kept (hc.after h.grows k.grows) th₁ ht₁ (hf.imp_right hr₁.toSameBelow.isRunning)
  exact ⟨th', ht', hr₁.trans hr'⟩

theorem Unmoved.rests (h : w.Unmoved w') (hh : w.history <:+ w'.history) : Rests free T w w' :=
  ⟨hh, fun _ th ht _ => h T th ht⟩

/-- Work on other stacks. -/
theorem rests_touches (h : TouchesIn (T ≠ ·) w w') : Rests free T w w' := by
  have hh : w'.history = w.history := h.touches.history
  refine ⟨hh ▸ List.suffix_refl _, fun _ th ht _ => ?_⟩
  obtain ⟨th', ht', hr⟩ := h.rested ht
  exact ⟨th', ht', hr.toSameBelow, hr.waits, .inr (hr.slots.resolve_left fun h => h rfl)⟩

/-- A thread that is not there has nothing to lose. -/
theorem rests_of_absent (h : w.history <:+ w'.history) (hn : w.thread? T = none) :
    Rests free T w w' :=
  ⟨h, fun _ th ht => by rw [hn] at ht; cases ht⟩

theorem Rests.stands {st : ThreadStatus} {s : Array Val} (h : Rests True T w w')
    (hc : Unclosed T.vm w w') (hs : w.StandsAs st T s) : w'.StandsAs st T s := by
  obtain ⟨th, ht, rfl, hn, rfl⟩ := hs.thread
  obtain ⟨th', ht', hr⟩ := h.kept hc th ht (.inl trivial)
  have hs' := stands_of_thread ht' (hr.script.trans hn)
  rwa [hr.status, hr.slots.resolve_left id] at hs'

/-- A collection that spares a thread. -/
theorem rests_collect (h : free → c.vm = T.vm → w.Spares c T) :
    Rests free T w (w.onVm c.vm fun vm => Collector.collect vm (w.keptBy c)).2 := by
  refine ⟨?_, fun _ th ht hf => ?_⟩
  · rw [onVm_world]
    exact List.suffix_refl _
  · by_cases hi : c.vm = T.vm
    · have hroot : T.thread = 0 ∨ th.isRunning ∨ T.thread ∈ w.keptBy c := by
        rcases hf with hf | hrun
        · have hspared := h hf hi
          unfold Spares at hspared
          rwa [thread_of_some ht] at hspared
        · exact .inr (.inl hrun)
      rw [hi]
      obtain ⟨vm, hvm, -, hw'⟩ := onVm_thread ht fun vm => Collector.collect vm (w.keptBy c)
      exact ⟨th.shrink, hw'.trans (Collector.thread?_collect hvm hroot), th.rested_shrink False⟩
    · refine ⟨th, ?_, .refl _ th⟩
      rw [onVm_world, thread?_modifyVm_of_ne _ _ _ _ hi, ht]

/-! ### Operations -/

/-- Runs of other threads let a thread rest, and it does not run itself unless it is in the middle of a
run. -/
structure Idles (free : Prop) (T : Context) (d : Drive σ μ) : Prop extends
    Elsewhere T (Rests free T) d where
  idle : free → ∀ m : Moment σ μ, m.context = T → d.from m = none

namespace Idles

variable (I : Idles free T d)

include I

/-- Every operation on other stacks does too. -/
theorem traversal : Traversal (T ≠ ·) (TouchesIn (T ≠ ·)) fun (α : Type) (m : Run σ μ α) =>
    m.Keeps (Rests free T) d where
  bind := I.bind
  effects := effects_touches _
  quiet h := Run.keeps_onWorld fun w => rests_touches (h w)
  invoke _ f args hc := I.invoke hc f args
  resumeWith source _ n hco := I.resumeWith hco source n
  finalize _ v hc := I.finalize hc v
  pause _ hc := I.others hc _
  birth vm name hook := Run.keeps_update fun w => (still_birth w _).rests.trans
    (rests_touches (touches_host rfl rfl rfl rfl))
  dropOwner := I.housekeeping.dropOwner
  view h := I.housekeeping.view h true
  dropView v := I.housekeeping.dropView v true
  withView h _ a hh ha := by
    rw [ThreadHandle.withView_eq]
    exact I.housekeeping.withView h fun _ => ha h.thread hh

/-- So does an attempt to resume the thread itself, since it ends before the thread goes on. -/
theorem resume (h : ThreadHandle) (source : Context) (args : List Value) :
    Act.Keeps (Rests free T) d (h.resume source args) := by
  intro w r w' hr
  by_cases hT : T = h.thread
  case neg => exact I.traversal.resume h source args hT _ _ _ hr
  have hpath : Path w w' := (path_keeping I.path).traversal.resume h source args trivial _ _ _ hr
  by_cases G : h.Goes source args w
  · refine ⟨hpath.grows, fun _ th ht hf => ?_⟩
    rcases hf with hf | hrun
    · rw [G.resume, I.idle hf _ hT.symm] at hr
      cases hr
    · exact absurd hrun (G.not_running (hT ▸ ht))
  · obtain ⟨e, w₂, hall, hu⟩ := ThreadHandle.resume_refused G
    rw [hall] at hr
    obtain ⟨-, rfl⟩ := Prod.mk.inj (Option.some.inj hr)
    exact hu.rests hpath.grows

/-- A new interpreter is another one. -/
theorem newInstance (config : Config) : Act.Keeps (Rests free T) d (World.newInstance config) := by
  intro w r w' h
  have hpath : Path w w' :=
    (path_keeping I.path).traversal.newInstance config (fun _ => trivial) _ _ _ h
  cases ht : w.thread? T with
  | none => exact rests_of_absent hpath.grows ht
  | some th =>
    obtain ⟨x, hx, -⟩ := Option.bind_eq_some_iff.mp ht
    have hne : T ≠ ⟨w.instances.size, 0⟩ := fun he =>
      absurd (Array.getElem?_eq_some_iff.mp hx).1 (by rw [he]; exact Nat.lt_irrefl _)
    unfold World.newInstance at h
    rcases Act.bind_some.mp h with ⟨name, w₁, hn, h⟩ | ⟨e, hn, -⟩
    · obtain ⟨-, rfl⟩ := Prod.mk.inj (Option.some.inj hn)
      rcases Act.bind_some.mp h with ⟨_, w₂, hget, h⟩ | ⟨_, hget, -⟩
      · obtain ⟨hu, rfl⟩ := Prod.mk.inj (Option.some.inj hget)
        obtain rfl := Except.ok.inj hu
        exact Run.related h (I.traversal.newInstanceAt config name _ hne)
      · cases (Prod.mk.inj (Option.some.inj hget)).1
    · obtain ⟨-, rfl⟩ := Prod.mk.inj (Option.some.inj hn)
      exact .refl _

/-- So does every operation that does not work on its stack. -/
theorem op (o : Op σ μ α) (ho : o.Avoids T) : o.perform.Keeps (Rests free T) d := by
  cases o with
  | run c o =>
    cases o with
    | resume h args => exact I.resume h c args
    | _ => exact I.traversal.op _ ⟨ho, fun _ h => by cases h⟩
  | newInstance config => exact I.newInstance config
  | stack c o => exact I.traversal.op _ ho
  | _ => exact I.traversal.op _ trivial

theorem program {p : Program σ μ α} {a : α} (h : p.perform d w = some (a, w'))
    (ho : ∀ {β : Type} (o : Op σ μ β) u, p.Asks d o u w → o.Avoids T) : Rests free T w w' := by
  induction p generalizing w with
  | pure a =>
    obtain ⟨-, rfl⟩ := Prod.mk.inj (Option.some.inj h)
    exact .refl _
  | step o k ih =>
    obtain ⟨_, w₁, ht, h⟩ := Run.bind_some.mp h
    obtain ⟨b, w₂, hb, hk⟩ := Run.bind_some.mp h
    have havoids := ho o w₁ (.now ht)
    exact (I.traversal.turnOf o (fun _ _ hc => havoids.maker hc) _ _ _ ht).trans
      ((I.op o havoids _ _ _ hb).trans (ih b hk fun o' u ha => ho o' u (.later ht hb ha)))

/-! ### Demands -/

/-- If nothing stands in the way of resuming the thread, it would run. -/
theorem resumeWith_idle (hf : free) {source : Context} {n : Nat}
    (h : (w.vm T.vm).refusal? T.thread n (w.thread source).top.depth = none) :
    World.resumeWith source T n d w = none := by
  refine Option.eq_none_iff_forall_ne_some.mpr ?_
  rintro ⟨r, w'⟩ hr
  unfold World.resumeWith at hr
  obtain ⟨_, w₁, h₁, hr⟩ := Run.bind_some.mp hr
  obtain ⟨rfl, rfl⟩ := Prod.mk.inj (Option.some.inj h₁)
  obtain ⟨_, w₂, h₂, hr⟩ := Run.bind_some.mp hr
  obtain ⟨rfl, rfl⟩ := Prod.mk.inj (Option.some.inj h₂)
  simp only [h] at hr
  obtain ⟨next, w₃, -, hr⟩ := Run.bind_some.mp hr
  obtain ⟨e, w₄, hgo, -⟩ := Run.bind_some.mp hr
  rw [show Run.drive T next d w₃ = none from I.idle hf ⟨T, next, w₃⟩ rfl] at hgo
  cases hgo

/-- So does a script's attempt to resume the thread. -/
theorem resumeFor (c : Context) (thread : Nat) (args : List Val) :
    (World.resumeFor c thread args).Keeps (Rests free T) d := by
  intro w r w' h
  by_cases hT : T = ⟨c.vm, thread⟩
  case neg => exact I.traversal.resumeFor c thread args hT _ _ _ h
  have hpath : Path w w' := (path_keeping I.path).traversal.resumeFor c thread args trivial _ _ _ h
  subst hT
  cases hroom : (w.reserve ⟨c.vm, thread⟩ args.length).1 with
  | false =>
    rw [resumeFor_cramped thread hroom] at h
    obtain ⟨-, rfl⟩ := Prod.mk.inj (Option.some.inj h)
    have hreserved := unmoved_touches (touches_reserve w ⟨c.vm, thread⟩ args.length)
    exact hreserved.rests hpath.grows
  | true =>
    cases hwhy : ((w.offered ⟨c.vm, thread⟩ args).vm c.vm).refusal? thread args.length
        ((w.offered ⟨c.vm, thread⟩ args).thread c).top.depth with
    | some why =>
      obtain ⟨w₂, hall, hu⟩ := resumeFor_refused thread hroom hwhy
      rw [hall] at h
      obtain ⟨-, rfl⟩ := Prod.mk.inj (Option.some.inj h)
      exact hu.rests hpath.grows
    | none =>
      refine ⟨hpath.grows, fun _ th ht hf => ?_⟩
      have htouch : Touches w (w.offered ⟨c.vm, thread⟩ args) := by
        have hreserved : Touches w _ := touches_reserve w ⟨c.vm, thread⟩ args.length
        exact hreserved.trans (touches_modifySlots _ _ _ trivial)
      obtain ⟨th₁, ht₁, hs⟩ := htouch.sameBelow ht
      rcases hf with hf | hrun
      · unfold World.resumeFor at h
        obtain ⟨ok, w₁, hres, h⟩ := Run.bind_some.mp h
        obtain ⟨hok, rfl⟩ := Prod.mk.inj (Option.some.inj hres)
        obtain rfl : ok = true := hok.symm.trans hroom
        obtain ⟨_, w₂, hload, h⟩ := Run.bind_some.mp h
        obtain ⟨-, rfl⟩ := Prod.mk.inj (Option.some.inj hload)
        obtain ⟨r₁, w₁, hgo, -⟩ := Run.bind_some.mp h
        exact absurd (hgo.symm.trans (I.resumeWith_idle hf hwhy)) (Option.some_ne_none _)
      · have hbusy : (((w.offered ⟨c.vm, thread⟩ args).vm c.vm).thread thread).Busy .ready := by
          rw [show ((w.offered ⟨c.vm, thread⟩ args).vm c.vm).thread thread = th₁ from
            thread_of_some ht₁]
          exact Thread.busy_ready.mpr (hs.isRunning hrun)
        exact absurd hwhy (refusal_of_busy hbusy (by decide) _ _)

/-- Scripts that close threads leave one in the middle of a run alone. -/
theorem closeFor (c : Context) (thread : Nat) (onlyFailed : Bool) :
    (World.closeFor c thread onlyFailed).Keeps (Rests free T) d := by
  intro w r w' h
  by_cases hT : T = ⟨c.vm, thread⟩
  case neg => exact I.toElsewhere.closeFor hT onlyFailed _ _ _ h
  have hpath := path_outside.closeFor I.path c thread onlyFailed _ _ _ h
  subst hT
  unfold World.closeFor at h
  obtain ⟨_, w₁, h₁, h⟩ := Run.bind_some.mp h
  obtain ⟨rfl, rfl⟩ := Prod.mk.inj (Option.some.inj h₁)
  dsimp only at h
  split at h
  case isTrue =>
    obtain ⟨-, rfl⟩ := Prod.mk.inj (Option.some.inj h)
    exact .refl w
  next hgo =>
  refine ⟨hpath.grows, fun _ th ht hf => ?_⟩
  rcases hf with hf | hrun
  · obtain ⟨_, w₂, h₂, h⟩ := Run.bind_some.mp h
    obtain ⟨rfl, rfl⟩ := Prod.mk.inj (Option.some.inj h₂)
    obtain ⟨next, w₃, h₃, h⟩ := Run.bind_some.mp h
    obtain ⟨e, w₄, h₄, h⟩ := Run.bind_some.mp h
    rw [show Run.drive ⟨c.vm, thread⟩ next d w₃ = none from I.idle hf ⟨_, next, w₃⟩ rfl] at h₄
    cases h₄
  · refine absurd (Bool.or_eq_true_iff.mpr (.inl ?_)) hgo
    rw [show (w.vm c.vm).thread thread = th from thread_of_some ht]
    exact hrun

theorem raiseHost (message : String) :
    (World.raiseHost c message).Keeps (Rests free T) d :=
  I.bind (I.traversal.quiet fun w => touches_reserve w c 1) fun _ => I.bind I.get fun _ => I.pure _

theorem raisePanic (p : Panic) : (World.raisePanic c p).Keeps (Rests free T) d := by
  unfold World.raisePanic
  split
  · exact I.raiseHost _
  · rintro w next w' ⟨⟩

theorem endHost (hne : T ≠ c) (n : Nat) : (World.endHost c n).Keeps (Rests free T) d :=
  I.onWorld fun w => still_onVm hne w fun vm => Vm.apart_modifyThread vm _ _

theorem raw (hne : T ≠ c) {p : Program σ μ (Outcome Nat)} {next : Next}
    (h : runRaw p c d w = some (next, w'))
    (ho : ∀ {β : Type} (o : Op σ μ β) u, p.Asks d o u w → o.Avoids T) : Rests free T w w' := by
  unfold runRaw at h
  obtain ⟨r, w₁, hp, h⟩ := Run.bind_some.mp h
  refine (I.program hp ho).trans ?_
  cases r with
  | done n =>
    obtain ⟨_, w₂, hget, h⟩ := Run.bind_some.mp h
    obtain ⟨rfl, rfl⟩ := Prod.mk.inj (Option.some.inj hget)
    split at h
    · exact I.endHost hne _ _ _ _ h
    · exact I.raiseHost _ _ _ _ h
  | failed e => exact I.raiseHost _ _ _ _ h
  | panicked p => exact I.raisePanic p _ _ _ h

theorem list (hne : T ≠ c) {p : List Value → Program σ μ (Outcome (List Value))} {next : Next}
    (h : runList p c d w = some (next, w'))
    (ho : ∀ {β : Type} (o : Op σ μ β) args w₁ u,
      c.readBatch (w.depth c) (some 1) w = (.ok args, w₁) → (p args).Asks d o u w₁ → o.Avoids T) :
    Rests free T w w' := by
  unfold runList at h
  obtain ⟨_, w₁, hget, h⟩ := Run.bind_some.mp h
  obtain ⟨rfl, rfl⟩ := Prod.mk.inj (Option.some.inj hget)
  obtain ⟨r, w₁, hread, h⟩ := Run.bind_some.mp h
  refine (I.traversal.api (c.quiet_readBatch _ _) _ _ _ hread).trans ?_
  cases r with
  | error e => exact I.raiseHost _ _ _ _ h
  | ok args =>
    obtain ⟨r, w₂, hp, h⟩ := Run.bind_some.mp h
    refine (I.program hp fun o u ha => ho o args w₁ u (Option.some.inj hread) ha).trans ?_
    cases r with
    | done results =>
      refine Run.related h (I.bind (I.traversal.api (c.quiet_pushAll results hne)) fun pushed =>
        I.bind (I.traversal.update fun w => touches_releaseAll w results) fun _ => ?_)
      cases pushed with
      | error e => exact I.raiseHost _
      | ok _ => exact I.endHost hne _
    | failed e => exact I.raiseHost _ _ _ _ h
    | panicked p => exact I.raisePanic p _ _ _ h

/-- A host function on another thread that does not work on the stack. -/
theorem host (code : HostCode σ μ) (hne : T ≠ c) {id : Option Nat} {next : Next}
    (h : runHost code c id d w = some (next, w'))
    (ho : ∀ i, id = some i → ∀ {β : Type} (o : Op σ μ β) u, code.Asks d c i o u w → o.Avoids T) :
    Rests free T w w' := by
  unfold runHost at h
  obtain ⟨_, w₁, hget, h⟩ := Run.bind_some.mp h
  obtain ⟨rfl, rfl⟩ := Prod.mk.inj (Option.some.inj hget)
  cases heq : id.bind fun id => (w.functions.get? id).map fun f => (id, f.object) with
  | none =>
    simp only [heq] at h
    exact I.raiseHost _ _ _ _ h
  | some found =>
  obtain ⟨i, shape, s⟩ := found
  simp only [heq] at h
  obtain ⟨i', rfl, heq⟩ := Option.bind_eq_some_iff.mp heq
  obtain ⟨⟨object, n⟩, hf, heq⟩ := Option.map_eq_some_iff.mp heq
  obtain ⟨rfl, rfl⟩ := Prod.mk.inj heq
  obtain ⟨_, w₁, hretain, h⟩ := Run.bind_some.mp h
  obtain ⟨-, rfl⟩ := Prod.mk.inj (Option.some.inj hretain)
  have hretained : Rests free T w (w.retain (.function shape i')) :=
    rests_touches (touches_retain w _)
  refine hretained.trans ?_
  cases shape with
  | raw =>
    obtain ⟨next', w₂, hrun, h⟩ := Run.bind_some.mp h
    obtain ⟨-, rfl⟩ := Prod.mk.inj (Option.some.inj h)
    have hrested := I.raw hne hrun fun o u ha => ho i' rfl o u (.raw hf ha)
    exact hrested.trans (rests_touches (touches_release w₂ _))
  | list =>
    obtain ⟨next', w₂, hrun, h⟩ := Run.bind_some.mp h
    obtain ⟨-, rfl⟩ := Prod.mk.inj (Option.some.inj h)
    have hrested := I.list hne hrun fun o args w₁ u hread ha =>
      ho i' rfl o u (.list hf hread ha)
    exact hrested.trans (rests_touches (touches_release w₂ _))

theorem collect (hne : T ≠ c) {u : Unit} (hspares : free → c.vm = T.vm → w.Spares c T)
    (h : World.collect c d w = some (u, w')) : Rests free T w w' := by
  unfold World.collect at h
  obtain ⟨_, w₁, hget, h⟩ := Run.bind_some.mp h
  obtain ⟨rfl, rfl⟩ := Prod.mk.inj (Option.some.inj hget)
  obtain ⟨lost, w₁, hlost, h⟩ := Run.bind_some.mp h
  obtain ⟨-, rfl⟩ := Run.onVm_some.mp hlost
  refine (rests_collect hspares).trans (Run.related h ?_)
  exact I.bind (I.traversal.update fun w => touches_modifyHeap w _ _) fun _ =>
    I.bind (I.finalizeAll hne lost) fun _ =>
      I.traversal.update fun w => touches_modifyHeap w _ _

theorem turn (hne : T ≠ c) {u : Unit}
    (hspares : free → w.takesTurn c = true → c.vm = T.vm → w.Spares c T)
    (h : World.turn c d w = some (u, w')) : Rests free T w w' := by
  unfold World.turn at h
  obtain ⟨_, w₁, hget, h⟩ := Run.bind_some.mp h
  obtain ⟨rfl, rfl⟩ := Prod.mk.inj (Option.some.inj hget)
  split at h
  next htakes => exact I.collect hne (fun hf hi => hspares hf htakes hi) h
  next => exact I.pure () _ _ _ h

/-- However a demand of another thread is met. -/
theorem meet (code : HostCode σ μ) (hne : T ≠ c) {demand : Demand} {next : Next}
    (h : World.meet code c demand d w = some (next, w'))
    (hhost : ∀ isList i, demand = .host isList (some i) → ∀ {β : Type} (o : Op σ μ β) u,
      code.Asks d c i o u w → o.Avoids T)
    (hcollect : free → w.Collects c (.need demand) → c.vm = T.vm → w.Spares c T) :
    Rests free T w w' := by
  have hanswer : ∀ f, (answer c f).Keeps (Rests free T) d := fun f =>
    I.onWorld fun w => still_onVm hne w fun vm => Vm.apart_onHeap _ vm f
  cases demand with
  | host isList id => exact I.host code hne h fun i hi => hhost isList i (by rw [hi])
  | resume thread args k => exact I.bind (I.resumeFor c thread args) (fun _ => hanswer _) _ _ _ h
  | close thread onlyFailed k =>
    exact I.bind (I.closeFor c thread onlyFailed) (fun _ => hanswer _) _ _ _ h
  | collect k =>
    obtain ⟨_, w₁, hc, h⟩ := Run.bind_some.mp h
    exact (I.collect hne (fun hf hi => hcollect hf trivial hi) hc).trans (hanswer k _ _ _ h)
  | turn | pause =>
    obtain ⟨_, w₁, hturn, h⟩ := Run.bind_some.mp h
    obtain ⟨-, rfl⟩ := Prod.mk.inj (Option.some.inj h)
    exact I.turn hne hcollect hturn
  | release p k =>
    exact I.bind (I.traversal.update fun w => touches_releasePayload w p) (fun _ => hanswer _) _ _ _ h

end Idles

/-! ### Runs -/

/-- At a moment, nothing is done to a thread: the host function that is to run on another one, if
there is such, does not work on its stack. If the thread may be any, it is not its turn either, and no
collection frees it. -/
structure Spared (code : HostCode σ μ) (free : Prop) (T : Context) (x : Moment σ μ) : Prop where
  hosts : x.context ≠ T → ∀ isList i, x.next = .need (.host isList (some i)) →
    ∀ {β : Type} (o : Op σ μ β) fuel u, code.Asks (drive code fuel) x.context i o u x.world →
      o.Avoids T
  turn : free → x.context ≠ T
  collects : free → x.world.Collects x.context x.next → x.context.vm = T.vm →
    x.world.Spares x.context T

/-- Whatever runs, for however long, lets a thread rest to which nothing is done. -/
theorem idles_only (code : HostCode σ μ) (fuel : Nat) :
    Idles free T (driveOnly code (Spared code free T) fuel) := by
  have hpath : ∀ n, (driveOnly code (Spared code free T) n).Keeps Path := fun n =>
    (path_drive code n).only _
  have hidle : ∀ n, free → ∀ m : Moment σ μ, m.context = T →
      (driveOnly code (Spared code free T) n).from m = none := by
    intro n hf m hm
    refine Option.eq_none_iff_forall_ne_some.mpr fun r hr => ?_
    exact ((Drive.only_some.mp hr).1 m .here).turn hf hm
  induction fuel with
  | zero =>
    refine ⟨⟨.trans, Still.rests, fun hh hc => ⟨hh, fun hn => absurd hn hc⟩, hpath 0, ?_⟩, hidle 0⟩
    intro c _ next w e w' h
    exact absurd (h.symm.trans driveOnly_zero) (Option.some_ne_none _)
  | succ n ih =>
    refine ⟨⟨.trans, Still.rests, fun hh hc => ⟨hh, fun hn => absurd hn hc⟩, hpath _, ?_⟩, hidle _⟩
    intro c hne next w e w' h
    cases next with
    | exit e =>
      obtain ⟨-, rfl⟩ := driveOnly_exit h
      exact .refl _
    | go s =>
      exact (still_onVm hne w fun vm => Vm.apart_step vm _ s).rests.trans
        (ih.others hne _ _ _ _ (driveOnly_go h))
    | need demand =>
      obtain ⟨hx, next, w₁, hm, h'⟩ := driveOnly_need h
      refine Rests.trans ?_ (ih.others hne next _ _ _ h')
      refine ih.meet code hne hm (fun isList i hd β o u ha => ?_) hx.collects
      exact hx.hosts hne.symm isList i (by rw [hd]) o n u (ha.mono (Drive.only_below _ _))

end World
end LuaEmbed
