import LuaEmbed.Proofs.Isolation

/-!
A thread that is busy, at the moments of a run. Whatever runs, for however long and however deeply
runs nest, the thread is still busy at every moment that is come to; and when it is its own turn, it
runs for a call that was made from one of its frames. A thread that has failed for good is busy in this
sense, as long as no script closes it and no collection frees it.
-/
namespace LuaEmbed

open Engine World

variable {σ μ : Type} {T c : Context} {st : ThreadStatus} {d : Drive σ μ} {w w' : World σ μ}
  {th : Thread}

namespace Engine

variable {g : Frame} {lower : List Frame}

theorem Hanging.tail_ne_nil {fs : List Frame} (h : Hanging false g lower fs) (hl : lower ≠ []) :
    fs.tail ≠ [] := by
  cases h with
  | ground => exact hl
  | upon _ hs => exact hs.ne_nil

/-- A thread in the run of a call that was made from a frame of a busy thread is busy. -/
theorem Thread.InRun.busy {next : Next} (h : th.InRun false st g lower next)
    (hl : st = .ready → lower ≠ []) : th.Busy st := by
  have hs : ∀ {th : Thread}, th.Suspended false st g lower → th.Busy st := fun h =>
    ⟨h.status, fun hst => h.frames.tail_ne_nil (hl hst)⟩
  cases next with
  | go s =>
    cases s with
    | run => exact h.1.busy
    | act a => exact Active.busy h
    | results vs => exact hs h
    | raise status v handled => exact h.elim hs Active.busy
  | need demand => exact h.active.busy
  | exit e => exact ⟨h.back.1, fun hst => by rw [h.back.2]; exact hl hst⟩

/-- What is about to happen is part of a run that goes on. -/
def Next.inRun : Next → Bool
  | .exit _ | .need .pause => false
  | _ => true

end Engine

namespace World

/-- At a moment, a thread is busy; and if it is its turn, it runs for a call that was made from one of
its frames. -/
structure Engages (st : ThreadStatus) (T : Context) (x : Moment σ μ) : Prop where
  busy : ∃ th, x.world.thread? T = some th ∧ th.Busy st
  turn : x.context = T → x.next.inRun = true → ∃ th g lower, x.world.thread? T = some th ∧
    (st = .ready → lower ≠ []) ∧ th.InRun false st g lower x.next

/-- The moment comes later, and a thread that was busy still is then, unless its interpreter has been
closed. -/
structure Attends (st : ThreadStatus) (T : Context) (w : World σ μ) (x : Moment σ μ) : Prop where
  grows : w.history <:+ x.world.history
  engages : Unclosed T.vm w x.world → ∀ th, w.thread? T = some th → th.Busy st →
    Engages st T x

theorem engages_of_inRun {g : Frame} {lower : List Frame} {next : Next}
    (ht : w.thread? T = some th) (hr : th.InRun false st g lower next)
    (hl : st = .ready → lower ≠ []) : Engages st T ⟨T, next, w⟩ :=
  ⟨⟨th, ht, hr.busy hl⟩, fun _ _ => ⟨th, g, lower, ht, hl, hr⟩⟩

/-- A moment at which no run goes on. -/
theorem engages_of_idle {next : Next} (hn : next.inRun = false) (ht : w.thread? T = some th)
    (hb : th.Busy st) : Engages st T ⟨c, next, w⟩ :=
  ⟨⟨th, ht, hb⟩, fun _ h => by rw [hn] at h; cases h⟩

theorem engages_of_ne {next : Next} (hne : T ≠ c) (ht : w.thread? T = some th)
    (hb : th.Busy st) : Engages st T ⟨c, next, w⟩ :=
  ⟨⟨th, ht, hb⟩, fun h => absurd h.symm hne⟩

/-- The turn of another thread, after changes that leave the thread alone. -/
theorem attends_of_still {next : Next} (hne : T ≠ c) (h : Still T w w') :
    Attends st T w ⟨c, next, w'⟩ :=
  ⟨h.grows, fun _ th ht hb => engages_of_ne hne (h.same th ht) hb⟩

theorem Attends.pull {x : Moment σ μ} (h : Undisturbed st T w w') (k : Attends st T w' x) :
    Attends st T w x := by
  refine ⟨h.grows.trans k.grows, fun hc th ht hb => ?_⟩
  obtain ⟨th', ht', hs⟩ := h.kept (hc.before h.grows k.grows) th ht hb
  exact k.engages (hc.after h.grows k.grows) th' ht' (hs.busy hb)

namespace Sound

variable (S : Sound st T d)

include S

omit S in
theorem asks_invoke (x : Context) (f : Val) (args : List Val) :
    (x.invoke f args).AsksOnly (Attends st T) d := by
  intro w
  refine Run.asksAt_onWorld_bind (Run.asksAt_drive ?_)
  by_cases hx : T = x
  · subst hx
    refine ⟨by rw [onVm_world]; exact List.suffix_refl _, fun _ th ht hb => ?_⟩
    obtain ⟨vm, hvm, hnext, hw₁⟩ := onVm_thread ht fun vm =>
      (vm.modifyThread T.thread (·.setAwait .guarded)).enter T.thread f args
        { nests := true, canYield := false }
    obtain ⟨th₁, ht₁, hr₁⟩ := Vm.enter_inRun (Vm.thread?_modify hvm (·.setAwait .guarded))
      (Thread.suspended_guarded hb.status) (m := { nests := true, canYield := false }) (by simp) f args
    rw [← hnext] at hr₁
    exact engages_of_inRun (hw₁.trans ht₁) hr₁ hb.inside
  · exact attends_of_still hx (still_onVm hx w fun vm =>
      (Vm.apart_modifyThread vm _ _).trans (Vm.apart_enter _ _ _ _ _))

omit S in
theorem asks_finalize (x : Context) (v : Val) : (finalize x v).AsksOnly (Attends st T) d := by
  intro w
  unfold World.finalize
  refine Run.asksAt_onWorld_bind (f := fun w => (w, w)) ?_
  dsimp only
  split
  · exact Run.asksAt_pure ()
  generalize (w.heap x.vm).metafield v "__gc" = f
  unfold callFinalizer
  refine Run.asksAt_onWorld_bind (Run.asksAt_onWorld_bind (Run.asksAt_bind_mute
    (Run.asksAt_drive_bind ?_ fun _ _ => Run.asksAt_pure ()) fun _ w =>
      Run.asksAt_onWorld fun w : World σ μ => ((), _)))
  by_cases hx : T = x
  · subst hx
    refine ⟨by simp only [onVm_world]; exact List.suffix_refl _, fun _ th ht hb => ?_⟩
    obtain ⟨vm, hvm, -, hw₁⟩ := onVm_thread ht fun vm =>
      (vm.modifyThread T.thread (·.setAwait .guarded), (vm.thread T.thread).top.await)
    have ht₁ := hw₁.trans (Vm.thread?_modify hvm _)
    obtain ⟨vm₁, hvm₁, hnext, hw₂⟩ := onVm_thread ht₁ fun vm => vm.enter T.thread f [v]
      { nests := true, canYield := false, name := some ⟨"metamethod", "__gc"⟩ }
    obtain ⟨th₂, ht₂, hr₂⟩ := Vm.enter_inRun hvm₁ (Thread.suspended_guarded hb.status)
      (m := { nests := true, canYield := false, name := some ⟨"metamethod", "__gc"⟩ })
        (by simp) f [v]
    rw [← hnext] at hr₂
    exact engages_of_inRun (hw₂.trans ht₂) hr₂ hb.inside
  · exact attends_of_still hx ((still_onVm hx w fun vm =>
      Vm.apart_modifyThread vm _ _).trans (still_onVm hx _ fun vm => Vm.apart_enter vm _ _ _ _))

omit S in
theorem asks_resumeWith (hst : st ≠ .yielded) (source co : Context) (n : Nat) :
    (resumeWith source co n).AsksOnly (Attends st T) d := by
  intro w
  unfold World.resumeWith
  refine Run.asksAt_onWorld_bind (f := fun w => (w, w))
    (Run.asksAt_onWorld_bind (f := fun w => (w, w)) ?_)
  dsimp only
  split
  next => exact Run.asksAt_onWorld_bind (f := fun w => ((), _)) (Run.asksAt_pure _)
  next hno =>
    refine Run.asksAt_onWorld_bind (Run.asksAt_drive_bind ?_ fun e w => ?_)
    · by_cases hx : T = co
      · subst hx
        refine ⟨by rw [onVm_world]; exact List.suffix_refl _, fun _ th ht hb => ?_⟩
        have hbusy : (w.thread T).Busy st := by rwa [thread_of_some ht]
        exact absurd hno (refusal_of_busy hbusy hst _ _)
      · exact attends_of_still hx (still_onVm hx w fun vm =>
          Vm.apart_beginResume vm _ _ _)
    · refine Run.asksAt_onWorld_bind (f := fun w => ((), w.modifyVm co.vm (·.endResume co.thread e))) ?_
      cases e with
      | returned vs => exact Run.asksAt_onWorld_bind (f := fun w => (w, w)) (Run.asksAt_pure _)
      | _ => exact Run.asksAt_pure _

omit S in
theorem asks_closeFor (x : Context) (thread : Nat) (onlyFailed : Bool)
    (hne : st ≠ .ready → T ≠ ⟨x.vm, thread⟩) :
    (closeFor x thread onlyFailed).AsksOnly (Attends st T) d := by
  intro w
  unfold World.closeFor
  refine Run.asksAt_onWorld_bind (f := fun w => (w, w)) ?_
  dsimp only
  split
  next => exact Run.asksAt_pure _
  next hgo =>
  refine Run.asksAt_onWorld_bind (f := fun w => (w, w))
    (Run.asksAt_onWorld_bind (Run.asksAt_drive_bind ?_ fun e w => ?_))
  · by_cases hx : T = ⟨x.vm, thread⟩
    · obtain rfl : st = .ready := not_not.mp fun hst => hne hst hx
      subst hx
      refine ⟨by rw [onVm_world]; exact List.suffix_refl _, fun _ th ht hb => absurd ?_ hgo⟩
      have hrun : (w.thread ⟨x.vm, thread⟩).isRunning := by
        rw [thread_of_some ht]
        exact Thread.busy_ready.mp hb
      exact Bool.or_eq_true_iff.mpr (.inl hrun)
    · exact attends_of_still hx (still_onVm hx w fun vm => Vm.apart_beginClose vm _ _)
  · cases e <;> exact Run.asksAt_pure _

theorem asks_finalizeAll (x : Context) (vs : List Val) :
    (finalizeAll x vs).AsksOnly (Attends st T) d := by
  induction vs with
  | nil => exact fun _ => Run.asksAt_pure ()
  | cons v vs ih =>
    exact Run.asksOnly_bind Attends.pull (S.keeps_finalize x v) (asks_finalize x v) fun _ => ih

theorem asks_shutDown (i : Nat) : (shutDown i).AsksOnly (Attends st T) d := by
  intro w
  have hbegun : Still T w (w.happened (.closed i)) := ⟨List.suffix_cons _ _, fun _ h => h⟩
  have hemptied : ∀ f : Vm → Vm, Undisturbed st T w ((w.happened (.closed i)).modifyVm i f) := by
    intro f
    by_cases hi : i = T.vm
    · have hclosed : ¬ Unclosed T.vm w ((w.happened (.closed i)).modifyVm i f) :=
        hi ▸ not_unclosed (List.suffix_refl _)
      exact ⟨List.suffix_cons _ _, fun hc => absurd hc hclosed⟩
    · exact (hbegun.trans (still_modifyVm _ i fun h => absurd h hi)).undisturbed
  unfold World.shutDown
  refine Run.asksAt_onWorld_bind (f := fun w => ((), w.happened (.closed i)))
    (Run.asksAt_onWorld_bind (Run.asksAt_bind_mute ?_ fun _ _ =>
      Run.asksAt_onWorld_bind (f := fun w => ((), _)) (Run.asksAt_onWorld fun w => ((), _))))
  refine (S.asks_finalizeAll ⟨i, 0⟩ _ _).imp fun x hx => Attends.pull ?_ hx
  rw [onVm_world]
  exact hemptied _

omit S in
theorem asks_pause (x : Context) : (Run.drive x (.need .pause)).AsksOnly (Attends st T) d := fun _ =>
  Run.asksAt_drive ⟨List.suffix_refl _, fun _ _ ht hb => engages_of_idle rfl ht hb⟩

theorem guiding (hst : st ≠ .yielded) : Guiding (Undisturbed st T) (Attends st T) d where
  toStable := undisturbed_stable _ T
  noted h := (still_noted h).undisturbed
  births w x := (still_birth w x).undisturbed
  pull := Attends.pull
  invoke c f args := ⟨S.keeps_invoke c f args, asks_invoke c f args⟩
  resumeWith source co n := ⟨S.keeps_resumeWith source co n, asks_resumeWith hst source co n⟩
  finalize c v := ⟨S.keeps_finalize c v, asks_finalize c v⟩
  pause c := ⟨S.keeps_pause c, asks_pause c⟩
  shutDown i := ⟨S.elsewhere.shutDown i, S.asks_shutDown i⟩

/-- However a demand is met, the thread is busy at whatever is asked for, if nothing is demanded that
could end it. -/
theorem asks_meet {code : HostCode σ μ} {demand : Demand} (hst : st ≠ .yielded)
    (hx : Unharmed st T ⟨c, .need demand, w⟩) :
    (meet code c demand).AsksAt (Attends st T w) d w := by
  refine (S.guiding hst).meet code c (fun thread onlyFailed k hd => ?_) fun hcollects => ?_
  · subst hd
    have hne := fun hst => hx.closes hst thread onlyFailed k rfl
    exact ⟨S.keeps_closeFor c thread onlyFailed hne, asks_closeFor c thread onlyFailed hne⟩
  · exact undisturbed_collect w _ _ fun hst hi => hx.collects hst hcollects hi

end Sound

/-! ### One step, one run, and what is asked for inside -/

theorem Engages.step {s : Signal} (h : Engages st T ⟨c, .go s, w⟩) :
    Engages st T ⟨c, (w.onVm c.vm fun vm => vm.step c.thread s).1,
      (w.onVm c.vm fun vm => vm.step c.thread s).2⟩ := by
  by_cases hc : T = c
  · subst hc
    obtain ⟨th, g, lower, ht, hl, hr⟩ := h.turn rfl rfl
    obtain ⟨vm, hvm, hnext, hw₁⟩ := onVm_thread ht fun vm => vm.step T.thread s
    obtain ⟨th₁, ht₁, hr₁⟩ := Vm.step_inRun hvm hr
    rw [← hnext] at hr₁
    exact engages_of_inRun (hw₁.trans ht₁) hr₁ hl
  · obtain ⟨th, ht, hb⟩ := h.busy
    have hsame := still_onVm hc w fun vm => Vm.apart_step vm c.thread s
    exact engages_of_ne hc (hsame.same th ht) hb

/-- Whatever moment a run reaches, a thread that was busy still is then, unless its interpreter has
been closed or something has ended it. -/
theorem Reached.engages {code : HostCode σ μ} {x m : Moment σ μ} (h : Reached code m x)
    (hst : st ≠ .yielded) (hP : Throughout code (Unharmed st T) x) :
    x.world.history <:+ m.world.history ∧
      (Unclosed T.vm x.world m.world → Engages st T x → Engages st T m) := by
  induction h with
  | here => exact ⟨List.suffix_refl _, fun _ => id⟩
  | @step c s w _ ih =>
    obtain ⟨hgrows, hm⟩ := ih (throughout_step hP)
    rw [show (w.onVm c.vm fun vm => vm.step c.thread s).2.history = w.history from by
      rw [onVm_world]; rfl] at hgrows
    exact ⟨hgrows, fun hc hx => hm (hc.onVm _ _) hx.step⟩
  | @inside c demand w x fuel ha _ ih =>
    obtain ⟨hgrows, hm⟩ := ih (throughout_asked hP ha)
    have hx := asked_only hP ((sound_only code fuel).asks_meet hst (hP _ .here)) ha
    refine ⟨hx.grows.trans hgrows, fun hc he => hm (hc.after hx.grows hgrows) ?_⟩
    obtain ⟨th, ht, hb⟩ := he.busy
    exact hx.engages (hc.before hx.grows hgrows) th ht hb
  | @met c demand w next w' fuel hm _ ih =>
    obtain ⟨hgrows, hm'⟩ := ih (throughout_met hP hm)
    have hmo := (Run.laid.meet code c demand).run_only hm fun _ => throughout_asked hP
    have S : Sound st T (driveOnly code (Unharmed st T) fuel) := sound_only code fuel
    have hmet := S.met (hP _ .here) hmo
    have hpath := (path_outside.meet S.path (path_keeping S.path) code hmo).grows
    refine ⟨hpath.trans hgrows, fun hc he => hm' (hc.after hpath hgrows) ?_⟩
    have hopen := hc.before hpath hgrows
    by_cases hne : T = c
    · subst hne
      by_cases hrun : Next.inRun (.need demand) = true
      · obtain ⟨th, g, lower, ht, hl, hr⟩ := he.turn rfl hrun
        obtain ⟨th', ht', hr', -⟩ := inRun_met hmet hopen ht hr
        exact engages_of_inRun ht' hr' hl
      · obtain ⟨th, ht, hb⟩ := he.busy
        cases demand with
        | pause =>
          obtain ⟨u, w₁, hturn, hnext⟩ := Run.bind_some.mp hmo
          obtain ⟨rfl, rfl⟩ := Prod.mk.inj (Option.some.inj hnext)
          obtain ⟨th', ht', hs⟩ := (S.turn (hP _ .here) (.inr rfl) hturn).kept hopen th ht hb
          exact engages_of_idle rfl ht' (hs.busy hb)
        | _ => exact absurd rfl hrun
    · obtain ⟨th, ht, hb⟩ := he.busy
      obtain ⟨th', ht', hs⟩ := (undisturbed_met hne hmet).kept hopen th ht hb
      exact engages_of_ne hne ht' (hs.busy hb)

end World
end LuaEmbed
