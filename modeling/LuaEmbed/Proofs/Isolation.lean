import LuaEmbed.Proofs.GuardedRun
import LuaEmbed.Proofs.Restraint
import LuaEmbed.Proofs.Resting

/-!
A thread in the middle of a run is left alone by whatever runs on other threads: of its frames, only
the one on top can change. So a call that the host makes comes back to the frame it was made from,
however it nests, unless the interpreter has been closed in the meantime.
-/
namespace LuaEmbed

open Engine

namespace World

variable {σ μ α β : Type} {w w' : World σ μ} {c t T : Context} {st : ThreadStatus} {d : Drive σ μ}
  {th : Thread}

/-- While nobody closes its interpreter, a thread that is busy keeps its state and all its frames but the
one on top. -/
structure Undisturbed (st : ThreadStatus) (c : Context) (w w' : World σ μ) : Prop where
  grows : w.history <:+ w'.history
  kept : Unclosed c.vm w w' → ∀ th, w.thread? c = some th → th.Busy st →
    ∃ th', w'.thread? c = some th' ∧ th.SameBelow th'

theorem Still.undisturbed (h : Still c w w') : Undisturbed st c w w' :=
  ⟨h.grows, fun _ th ht _ => ⟨th, h.same th ht, .refl th⟩⟩

theorem Undisturbed.trans {w₁ : World σ μ} (h : Undisturbed st c w w₁)
    (k : Undisturbed st c w₁ w') : Undisturbed st c w w' := by
  refine ⟨h.grows.trans k.grows, fun hc th ht hr => ?_⟩
  obtain ⟨th₁, ht₁, hs₁⟩ := h.kept (hc.before h.grows k.grows) th ht hr
  obtain ⟨th', ht', hs'⟩ := k.kept (hc.after h.grows k.grows) th₁ ht₁ (hs₁.busy hr)
  exact ⟨th', ht', hs₁.trans hs'⟩

/-- Work on an interpreter, as one of its threads sees it. -/
theorem onVm_thread [Inhabited α] (h : w.thread? c = some th) (f : Vm → Vm × α) :
    ∃ vm, vm.thread? c.thread = some th ∧ (w.onVm c.vm f).1 = (f vm).2 ∧
      (w.onVm c.vm f).2.thread? c = (f vm).1.thread? c.thread := by
  obtain ⟨x, hx, ht⟩ := Option.bind_eq_some_iff.mp h
  refine ⟨x.vm, ht, onVm_answer w c.vm f hx, ?_⟩
  rw [onVm_world, thread?_modifyVm, if_pos rfl, hx]
  rfl

theorem undisturbed_stable (st : ThreadStatus) (c : Context) :
    Stable (Undisturbed (σ := σ) (μ := μ) st c) where
  refl w := (Still.refl w).undisturbed
  trans h k := h.trans k
  touch {w w'} h := by
    have hh : w'.history = w.history := TouchesIn.history (.single h)
    exact ⟨hh ▸ List.suffix_refl _, fun _ th ht _ => h.sameBelow ht⟩

/-- What is known of a function that runs threads, as to one thread and a state that it is in: runs
follow paths, those of other threads leave it alone if it is busy in this state, as do the collector's
turn on it and resumes of it, and a call on it comes back to where it was made. -/
structure Sound (st : ThreadStatus) (T : Context) (d : Drive σ μ) : Prop where
  path : d.Keeps Path
  others : ∀ {c : Context}, T ≠ c → ∀ next,
      (Run.drive c next : Run σ μ Exit).Keeps (Undisturbed st T) d
  pause : (Run.drive T (.need .pause)).Keeps (Undisturbed st T) d
  resumed : ∀ source n, (resumeWith source T n).Keeps (Undisturbed st T) d
  returns : ∀ {next : Next} {w w' : World σ μ} {e : Exit} {th : Thread} {co : Bool} {g : Frame}
    {lower : List Frame}, d T next w = some (e, w') → Unclosed T.vm w w' →
    w.thread? T = some th → th.InRun co st g lower next →
    ∃ th', w'.thread? T = some th' ∧ th'.InRun co st g lower (.exit e) ∧
      (co = false → Thread.RoomFor (g :: lower) th th')

theorem thread_of_some (h : w.thread? c = some th) : w.thread c = th := by
  rw [thread_eq, h]
  rfl

/-- A thread that is busy cannot be resumed. -/
theorem refusal_of_busy {vm : Vm} {t : Nat} (h : (vm.thread t).Busy st) (hst : st ≠ .yielded)
    (count depth : Nat) : vm.refusal? t count depth ≠ none := by
  unfold Vm.refusal?
  cases st with
  | yielded => exact absurd rfl hst
  | failed status =>
    simp only [h.status]
    exact Option.some_ne_none _
  | ready =>
    have hrun := Thread.busy_ready.mp h
    unfold Thread.isRunning at hrun
    simp only [Bool.and_eq_true, decide_eq_true_eq] at hrun
    simp only [hrun.1, hrun.2, if_true]
    exact Option.some_ne_none _

namespace Sound

variable (S : Sound st c d)

include S

theorem elsewhere : Elsewhere c (Undisturbed st c) d where
  trans h k := h.trans k
  still h := h.undisturbed
  ended hh hc := ⟨hh, fun hn => absurd hn hc⟩
  path := S.path
  others hne := S.others hne

/-! ### Calls -/

/-- A call comes back to the frame that it was made from. -/
theorem invoke {f : Val} {args : List Val} {e : Exit} (h : c.invoke f args d w = some (e, w'))
    (hc : Unclosed c.vm w w') (ht : w.thread? c = some th) (hs : th.status = st) :
    ∃ th', w'.thread? c = some th' ∧ th'.InRun false st th.top th.frames.tail (.exit e) ∧
      Thread.RoomFor th.frames th th' := by
  unfold Context.invoke at h
  obtain ⟨next, w₁, h₁, hd⟩ := Run.bind_some.mp h
  obtain ⟨rfl, rfl⟩ := Run.onVm_some.mp h₁
  obtain ⟨vm, hvm, hnext, hw₁⟩ := onVm_thread ht fun vm =>
    (vm.modifyThread c.thread (·.setAwait .guarded)).enter c.thread f args
      { nests := true, canYield := false }
  have hguard := Vm.thread?_modify hvm (·.setAwait .guarded)
  obtain ⟨th₁, ht₁, hr₁⟩ := Vm.enter_inRun hguard
    (Thread.suspended_guarded hs) (m := { nests := true, canYield := false }) (by simp) f args
  obtain ⟨th', ht', hr', hroom⟩ := S.returns hd (hc.onVm _ _) (hw₁.trans ht₁) (by rw [hnext]; exact hr₁)
  refine ⟨th', ht', hr', ?_⟩
  rw [th.frames_eq]
  have hawait : (th.setAwait .guarded).size = th.size := th.size_modifyTop _
  exact (Thread.Grown.of_size hawait).roomFor.trans ((Vm.roomFor_enter hguard ht₁).trans (hroom rfl))

theorem keeps_invoke (x : Context) (f : Val) (args : List Val) :
    (x.invoke f args).Keeps (Undisturbed st c) d := by
  intro w e w' h
  by_cases hx : c = x
  case neg => exact S.elsewhere.invoke hx f args _ _ _ h
  subst hx
  have hpath := path_outside.invoke S.path c f args _ _ _ h
  refine ⟨hpath.grows, fun hc th ht hb => ?_⟩
  obtain ⟨th', ht', hr', hroom⟩ := S.invoke h hc ht hb.status
  exact ⟨th', ht', hr'.sameBelow hb.status hroom⟩

/-- A finalizer comes back to the frame that it was called on, whose wait is then restored. -/
theorem finalizer {f v : Val} {u : Unit} (h : callFinalizer c f v d w = some (u, w'))
    (hc : Unclosed c.vm w w') (ht : w.thread? c = some th) (hs : th.status = st) :
    ∃ (th₁ : Thread) (e : Exit), w'.thread? c = some (th₁.setAwait th.top.await) ∧
      th₁.InRun false st th.top th.frames.tail (.exit e) ∧
      Thread.RoomFor th.frames th (th₁.setAwait th.top.await) := by
  unfold callFinalizer at h
  obtain ⟨await, w₁, hguard, h₂⟩ := Run.bind_some.mp h
  obtain ⟨rfl, rfl⟩ := Run.onVm_some.mp hguard
  obtain ⟨next, w₂, henter, h₃⟩ := Run.bind_some.mp h₂
  obtain ⟨rfl, rfl⟩ := Run.onVm_some.mp henter
  obtain ⟨_, w₃, hdiscard, hrestore⟩ := Run.bind_some.mp h₃
  obtain ⟨-, rfl⟩ := Prod.mk.inj (Option.some.inj hrestore)
  obtain ⟨e, hd⟩ := Run.discard_some.mp hdiscard
  obtain ⟨vm, hvm, hawait, hw₁⟩ := onVm_thread ht fun vm =>
    (vm.modifyThread c.thread (·.setAwait .guarded), (vm.thread c.thread).top.await)
  have ht₁ := hw₁.trans (Vm.thread?_modify hvm _)
  obtain ⟨vm₁, hvm₁, hnext, hw₂⟩ := onVm_thread ht₁ fun vm => vm.enter c.thread f [v]
    { nests := true, canYield := false, name := some ⟨"metamethod", "__gc"⟩ }
  obtain ⟨th₂, ht₂, hr₂⟩ := Vm.enter_inRun hvm₁ (Thread.suspended_guarded hs)
    (m := { nests := true, canYield := false, name := some ⟨"metamethod", "__gc"⟩ })
      (by simp) f [v]
  have hopen : Unclosed c.vm w w₃ := hc
  obtain ⟨th₃, ht₃, hr₃, hroom⟩ :=
    S.returns hd ((hopen.onVm _ _).onVm _ _) (hw₂.trans ht₂) (by rw [hnext]; exact hr₂)
  refine ⟨th₃, e, ?_, hr₃, ?_⟩
  · rw [thread?_modifyThread_self, ht₃, hawait, Vm.thread_of_some hvm]
    rfl
  · have hbefore : (th.setAwait .guarded).size = th.size := th.size_modifyTop _
    have hafter : (th₃.setAwait th.top.await).size = th₃.size := th₃.size_modifyTop _
    rw [th.frames_eq]
    exact (Thread.Grown.of_size hbefore).roomFor.trans
      ((Vm.roomFor_enter hvm₁ ht₂).trans ((hroom rfl).trans (Thread.Grown.of_size hafter).roomFor))

theorem keeps_finalize (x : Context) (v : Val) : (finalize x v).Keeps (Undisturbed st c) d := by
  intro w a w' h
  by_cases hx : c = x
  case neg => exact S.elsewhere.finalize hx v _ _ _ h
  subst hx
  have hpath := path_outside.finalize S.path c v _ _ _ h
  rcases finalize_cases h with rfl | ⟨f, hf⟩
  · exact (undisturbed_stable st c).refl _
  refine ⟨hpath.grows, fun hc th ht hb => ?_⟩
  obtain ⟨th₁, e, ht₁, hr₁, hroom⟩ := S.finalizer hf hc ht hb.status
  obtain ⟨htop, htail⟩ := hr₁.top_eq
  refine ⟨_, ht₁, (th₁.status_setAwait _).trans (hr₁.back.1.trans hb.status.symm), ?_, ?_, ?_, ?_,
    ?_, .inl ?_, fun n hn => hroom n (th.frames_eq ▸ ?_)⟩
  · rw [Thread.frames_setAwait, List.tail_cons, htail]
  · rw [Thread.setAwait, Thread.top_modifyTop, htop]
  · rw [Thread.setAwait, Thread.top_modifyTop, htop]
  · rw [Thread.setAwait, Thread.top_modifyTop, htop]
  · rw [Thread.setAwait, Thread.top_modifyTop, htop]
  · rw [Thread.setAwait, Thread.top_modifyTop]
  · obtain ⟨f, hf, hlimit⟩ := hn
    exact ⟨f, List.mem_cons_of_mem _ hf, hlimit⟩

theorem keeps_resumeWith (source co : Context) (n : Nat) :
    (resumeWith source co n).Keeps (Undisturbed st c) d := by
  by_cases hx : c = co
  · exact hx ▸ S.resumed source n
  · exact S.elsewhere.resumeWith hx source n

/-- A thread in the middle of a run is not closed by others. -/
theorem keeps_closeFor (x : Context) (thread : Nat) (onlyFailed : Bool)
    (hne : st ≠ .ready → c ≠ ⟨x.vm, thread⟩) :
    (closeFor x thread onlyFailed).Keeps (Undisturbed st c) d := by
  intro w a w' h
  by_cases hx : c = ⟨x.vm, thread⟩
  case neg => exact S.elsewhere.closeFor hx onlyFailed _ _ _ h
  obtain rfl : st = .ready := not_not.mp fun hst => hne hst hx
  subst hx
  have hpath := path_outside.closeFor S.path x thread onlyFailed _ _ _ h
  unfold World.closeFor at h
  obtain ⟨_, w₁, h₁, h₂⟩ := Run.bind_some.mp h
  obtain ⟨rfl, rfl⟩ := Prod.mk.inj (Option.some.inj h₁)
  dsimp only at h₂
  split at h₂
  case isTrue =>
    obtain ⟨-, rfl⟩ := Prod.mk.inj (Option.some.inj h₂)
    exact (undisturbed_stable _ _).refl w
  next hgo =>
  refine ⟨hpath.grows, fun _ th ht hb => absurd ?_ hgo⟩
  have hrun : (w.thread ⟨x.vm, thread⟩).isRunning := by
    rw [thread_of_some ht]
    exact Thread.busy_ready.mp hb
  exact Bool.or_eq_true_iff.mpr (.inl hrun)

theorem keeps_pause (x : Context) : (Run.drive x (.need .pause)).Keeps (Undisturbed st c) d := by
  by_cases hx : c = x
  · exact hx ▸ S.pause
  · exact S.others hx _

theorem keeping : Keeping (Undisturbed st c) d where
  toStable := undisturbed_stable st c
  invoke := S.keeps_invoke
  resumeWith := S.keeps_resumeWith
  finalize := S.keeps_finalize
  pause := S.keeps_pause
  birth w _ _ := (still_birth w _).undisturbed
  dropOwner := S.elsewhere.housekeeping.dropOwner
  view h w := (still_noted (noted_view h true w)).undisturbed
  dropView v := S.elsewhere.housekeeping.dropView v true
  withView h _ _ ha := S.elsewhere.housekeeping.withView h ha

end Sound

/-! ### Collecting and closing -/

/-- A collection on a thread leaves another one in place: it is the main thread or in the middle of a
run, or something keeps it. -/
def Spares (w : World σ μ) (c T : Context) : Prop :=
  T.thread = 0 ∨ (w.thread T).isRunning ∨ T.thread ∈ w.keptBy c

theorem undisturbed_collect (w : World σ μ) (i : Nat) (threads : List Nat)
    (h : st ≠ .ready → i = c.vm →
      c.thread = 0 ∨ (w.thread c).isRunning ∨ c.thread ∈ threads) :
    Undisturbed st c w (w.onVm i fun vm => Collector.collect vm threads).2 := by
  refine ⟨?_, fun _ th ht hb => ?_⟩
  · rw [onVm_world]
    exact List.suffix_refl _
  · by_cases hi : i = c.vm
    · have hroot : c.thread = 0 ∨ th.isRunning ∨ c.thread ∈ threads := by
        by_cases hst : st = .ready
        · exact .inr (.inl (Thread.busy_ready.mp (hst ▸ hb)))
        · have hspared := h hst hi
          rwa [thread_of_some ht] at hspared
      obtain ⟨vm, hvm, -, hw'⟩ := onVm_thread ht fun vm => Collector.collect vm threads
      rw [hi]
      exact ⟨th.shrink, hw'.trans (Collector.thread?_collect hvm hroot),
        (th.rested_shrink True).toSameBelow⟩
    · refine ⟨th, ?_, .refl th⟩
      rw [onVm_world, thread?_modifyVm_of_ne _ _ _ _ hi, ht]

/-- At a moment, nothing comes about that could end a thread which is not in the middle of a run: no
script closes it, and no collection frees it; and if it is suspended, nobody has resumed it. -/
structure Unharmed (st : ThreadStatus) (T : Context) (x : Moment σ μ) : Prop where
  closes : st ≠ .ready → ∀ thread onlyFailed k, x.next = .need (.close thread onlyFailed k) →
    T ≠ ⟨x.context.vm, thread⟩
  collects : st ≠ .ready → x.world.Collects x.context x.next → x.context.vm = T.vm →
    x.world.Spares x.context T
  resumes : st = .yielded → (x.world.thread T).status = .yielded

theorem unharmed_ready {T : Context} (x : Moment σ μ) : Unharmed .ready T x :=
  ⟨fun h => absurd rfl h, fun h => absurd rfl h, nofun⟩

/-! ### Runs -/

/-- However a demand of another thread is met. -/
theorem undisturbed_met {demand : Demand} {next : Next} (hne : c ≠ t)
    (h : Met (Undisturbed st c) t demand w next w') :
    Undisturbed st c w w' := by
  cases h with
  | goesOn h => exact h
  | fails h => exact h
  | ends h ht _ =>
    exact h.trans ((still_apart hne _ fun vm => Vm.apart_modifyThread vm _ _).undisturbed.trans
      ((undisturbed_stable st c).touches ht))
  | turned _ h => exact h
  | nowhere h _ => exact h

/-- A call whose demand has been met goes on. -/
theorem inRun_met {co : Bool} {demand : Demand} {next : Next} {g : Frame} {lower : List Frame}
    (h : Met (Undisturbed st c) c demand w next w') (hc : Unclosed c.vm w w')
    (ht : w.thread? c = some th) (hr : th.InRun co st g lower (.need demand)) :
    ∃ th', w'.thread? c = some th' ∧ th'.InRun co st g lower next ∧
      Thread.RoomFor (g :: lower) th th' := by
  have ha := hr.active
  have hroom : ∀ {th'}, th.SameBelow th' → Thread.RoomFor (g :: lower) th th' := fun hs n hn =>
    hs.room n (ha.reserved hn)
  cases h with
  | goesOn h =>
    obtain ⟨th', ht', hs⟩ := h.kept hc th ht ha.busy
    exact ⟨th', ht', ha.sameBelow hs, hroom hs⟩
  | fails h =>
    obtain ⟨th', ht', hs⟩ := h.kept hc th ht ha.busy
    exact ⟨th', ht', .inr (ha.sameBelow hs), hroom hs⟩
  | @ends w₁ _ _ h hpop hi =>
    have hgrows := ((undisturbed_stable st c).touches hpop).grows
    obtain ⟨th₁, ht₁, hs⟩ := h.kept (hc.before h.grows hgrows) th ht ha.busy
    have hframe : w'.thread? c = (w₁.modifyThread c (·.popFrame)).thread? c := by
      unfold thread?
      rw [hi]
    refine ⟨th₁.popFrame, ?_, (ha.sameBelow hs).popFrame,
      (hroom hs).trans (Thread.Grown.of_size rfl).roomFor⟩
    rw [hframe, thread?_modifyThread_self, ht₁]
    rfl
  | turned hd h =>
    obtain ⟨th', ht', hs⟩ := h.kept hc th ht ha.busy
    cases demand with
    | turn =>
      obtain rfl := Option.some.inj hd
      exact ⟨th', ht', ⟨ha.sameBelow hs, hs.script.trans hr.2⟩, hroom hs⟩
    | pause => exact hr.elim
    | _ => cases hd
  | nowhere h hn =>
    obtain ⟨th', ht', hs⟩ := h.kept hc th ht ha.busy
    unfold thread? at ht'
    rw [hn] at ht'
    cases ht'

/-- Demands are met without disturbing a thread that is busy, if nothing is demanded that could end
it. -/
theorem Sound.met (S : Sound st T d) {code : HostCode σ μ} {demand : Demand} {next : Next}
    (hx : Unharmed st T ⟨c, .need demand, w⟩) (h : meet code c demand d w = some (next, w')) :
    Met (Undisturbed st T) c demand w next w' := by
  refine S.keeping.met c code ?_ ?_ h
  · rintro thread onlyFailed k rfl
    exact S.keeps_closeFor c thread onlyFailed fun hst => hx.closes hst thread onlyFailed k rfl
  · intro hcollects u w' hw
    exact S.keeping.collect c (undisturbed_collect w _ _ fun hst hi =>
      hx.collects hst hcollects hi) hw

/-- The collector's turn does not disturb it either. -/
theorem Sound.turn (S : Sound st T d) {demand : Demand} {u : Unit} (hx : Unharmed st T ⟨c, .need demand, w⟩)
    (hd : demand = .turn ∨ demand = .pause) (h : World.turn c d w = some (u, w')) :
    Undisturbed st T w w' := by
  refine S.keeping.turn c (fun htakes u w' hw => S.keeping.collect c ?_ hw) h
  have hcollects : w.Collects c (.need demand) := by rcases hd with rfl | rfl <;> exact htakes
  exact undisturbed_collect w _ _ fun hst hi => hx.collects hst hcollects hi

/-- A thread that has been resumed is ready. -/
theorem status_beginResume {vm : Vm} {t : Nat} (h : vm.thread? t = some th) (hs : th.status = .yielded)
    (count depth : Nat) :
    ∃ th', (vm.beginResume t count depth).1.thread? t = some th' ∧ th'.status = .ready := by
  unfold Vm.beginResume
  simp only [Vm.thread_of_some h, hs]
  exact ⟨_, Vm.thread?_modify h _, rfl⟩

/-- If a thread stays in its state, it is not resumed: the interpreter refuses, or the run is not let go. -/
theorem undisturbed_resumed (code : HostCode σ μ) (fuel : Nat) (source : Context) (n : Nat) :
    (resumeWith source T n).Keeps (Undisturbed st T) (driveOnly code (Unharmed st T) fuel) := by
  intro w a w' h
  have hpath := path_outside.resumeWith ((path_drive code fuel).only _) source T n _ _ _ h
  cases hwhy : (w.vm T.vm).refusal? T.thread n (w.thread source).top.depth with
  | some why =>
    rw [resumeWith_refused hwhy] at h
    obtain ⟨-, rfl⟩ := Prod.mk.inj (Option.some.inj h)
    exact (undisturbed_stable st T).touches (touches_modifySlots w T _ trivial)
  | none =>
    refine ⟨hpath.grows, fun _ th ht hb => ?_⟩
    by_cases hst : st = .yielded
    case neg =>
      have hbusy : (w.thread T).Busy st := by rwa [thread_of_some ht]
      exact absurd hwhy (refusal_of_busy hbusy hst _ _)
    unfold World.resumeWith at h
    obtain ⟨_, _, h₁, h₂⟩ := Run.bind_some.mp h
    obtain ⟨rfl, rfl⟩ := Prod.mk.inj (Option.some.inj h₁)
    obtain ⟨_, _, h₃, h₄⟩ := Run.bind_some.mp h₂
    obtain ⟨rfl, rfl⟩ := Prod.mk.inj (Option.some.inj h₃)
    rw [hwhy] at h₄
    obtain ⟨next, w₁, hbegin, h₅⟩ := Run.bind_some.mp h₄
    obtain ⟨e, w₂, hrun, -⟩ := Run.bind_some.mp h₅
    obtain ⟨rfl, rfl⟩ := Run.onVm_some.mp hbegin
    have hstill := ((Drive.only_some.mp hrun).1 _ .here).resumes hst
    obtain ⟨vm, hvm', -, hw₁⟩ := onVm_thread ht fun vm =>
      vm.beginResume T.thread n (w.thread source).top.depth
    obtain ⟨th₁, ht₁, hs₁⟩ := status_beginResume hvm' (hst ▸ hb.status) n (w.thread source).top.depth
    rw [thread_of_some (hw₁.trans ht₁), hs₁] at hstill
    cases hstill

/-- Whatever runs, for however long, calls come back and other threads are left alone, as long as
nothing ends the one that this is about. -/
theorem sound_only (code : HostCode σ μ) (fuel : Nat) :
    Sound st T (driveOnly code (Unharmed st T) fuel) := by
  have hpath : ∀ n, (driveOnly code (Unharmed st T) n).Keeps Path := fun n =>
    (path_drive code n).only _
  induction fuel with
  | zero =>
    have hnone : ∀ {c next w} {r : Exit × World σ μ},
        driveOnly code (Unharmed st T) 0 c next w = some r → False := fun h => by
      rw [driveOnly_zero] at h
      cases h
    exact ⟨hpath 0, fun _ _ _ _ _ h => (hnone h).elim, fun _ _ _ h => (hnone h).elim,
      undisturbed_resumed code 0, fun h => (hnone h).elim⟩
  | succ fuel ih =>
    refine ⟨hpath _, ?_, ?_, undisturbed_resumed code _, ?_⟩
    · intro c hne next w e w' h
      cases next with
      | exit e =>
        obtain ⟨-, rfl⟩ := driveOnly_exit h
        exact (undisturbed_stable st T).refl _
      | go s =>
        exact (still_onVm hne w fun vm => Vm.apart_step vm _ s).undisturbed.trans
          (ih.others hne _ _ _ _ (driveOnly_go h))
      | need demand =>
        obtain ⟨hx, next, w₁, hm, h'⟩ := driveOnly_need h
        exact (undisturbed_met hne (ih.met hx hm)).trans (ih.others hne next _ _ _ h')
    · intro w e w' h
      obtain ⟨hx, next, w₁, hm, h'⟩ := driveOnly_need h
      obtain ⟨u, w₂, hturn, hnext⟩ := Run.bind_some.mp hm
      obtain ⟨rfl, rfl⟩ := Prod.mk.inj (Option.some.inj hnext)
      obtain ⟨rfl, rfl⟩ := drive_exit (Drive.only_some.mp h').2
      exact ih.turn hx (.inr rfl) hturn
    · intro next w w' e th co g lower h hc ht hr
      cases next with
      | exit e =>
        obtain ⟨rfl, rfl⟩ := driveOnly_exit h
        exact ⟨th, ht, hr, fun _ => .refl⟩
      | go s =>
        obtain ⟨vm, hvm, hnext, hw₁⟩ := onVm_thread ht fun vm => vm.step T.thread s
        obtain ⟨th₁, ht₁, hr₁⟩ := Vm.step_inRun hvm hr
        obtain ⟨th', ht', hr', hroom⟩ := ih.returns (driveOnly_go h) (hc.onVm _ _) (hw₁.trans ht₁)
          (hnext ▸ hr₁)
        refine ⟨th', ht', hr', fun hco => ?_⟩
        subst hco
        exact (Vm.step_roomFor hvm ht₁ hr₁).trans (hroom rfl)
      | need demand =>
        obtain ⟨hx, next, w₁, hm, h'⟩ := driveOnly_need h
        have hgrows := (ih.path T next _ _ _ h').grows
        have hgrew := (path_outside.meet ih.path (path_keeping ih.path) code hm).grows
        obtain ⟨th₁, ht₁, hr₁, hmet⟩ := inRun_met (ih.met hx hm) (hc.before hgrew hgrows) ht hr
        obtain ⟨th', ht', hr', hroom⟩ := ih.returns h' (hc.after hgrew hgrows) ht₁ hr₁
        exact ⟨th', ht', hr', fun hco => hmet.trans (hroom hco)⟩

/-- A thread in the middle of a run needs no such care. -/
theorem sound_drive (code : HostCode σ μ) (fuel : Nat) :
    Sound .ready T (World.drive code fuel) := by
  have hall : driveOnly code (Unharmed .ready T) fuel = World.drive code fuel :=
    Drive.only_of_all (fun _ m _ => unharmed_ready m) _
  rw [← hall]
  exact sound_only code fuel

end World
end LuaEmbed
