import LuaEmbed.Proofs.Sparing

/-!
What becomes of a resume that is refused, and of one whose thread fails. A thread that has failed is
dead from then on: whatever else happens, everyone sees it so and nobody can resume it, as long as no
script closes it and no collection frees it.
-/
namespace LuaEmbed

open Engine World

variable {σ μ α : Type} {T c source : Context} {code : HostCode σ μ} {fuel : Nat} {d : Drive σ μ}
  {w w' w₁ u : World σ μ} {th : Thread} {st : ThreadStatus} {status : ErrorStatus} {e : Exit}

/-! ### The end of a resume -/

namespace World

/-- Dropping a view changes the records, and nothing else unless it closes the interpreter. -/
theorem dropView_left {v : View} {held : Bool} {a : Unit} (hd : d.Keeps Path)
    (ho : w.views.get? v.number = some ⟨v.stack, held⟩) (h : dropView v held d w = some (a, w'))
    (hc : Unclosed v.stack.vm w w') : w' = w.removeView v.number ⟨v.stack, held⟩ := by
  unfold dropView at h
  obtain ⟨_, w₁, hget, h⟩ := Run.bind_some.mp h
  obtain ⟨rfl, rfl⟩ := Prod.mk.inj (Option.some.inj hget)
  simp only [ho, if_true] at h
  obtain ⟨_, w₁, herase, h⟩ := Run.bind_some.mp h
  obtain ⟨-, rfl⟩ := Prod.mk.inj (Option.some.inj herase)
  unfold releaseView at h
  obtain ⟨_, w₂, hcount, h⟩ := Run.bind_some.mp h
  obtain ⟨-, rfl⟩ := Prod.mk.inj (Option.some.inj hcount)
  obtain ⟨_, w₃, hlook, h⟩ := Run.bind_some.mp h
  obtain ⟨rfl, rfl⟩ := Prod.mk.inj (Option.some.inj hlook)
  have hshut : ∀ {u : World σ μ} {a}, w.history <:+ u.history →
      shutDown v.stack.vm d u = some (a, w') → False := fun hg h => by
    have hclosing := (path_outside.shutDown hd h).grows
    exact not_unclosed hclosing (hc.after hg ((List.suffix_cons _ _).trans hclosing))
  dsimp only at h
  unfold removeView
  have hgrows : w.history <:+ (({ w with views := w.views.erase v.number }.happened
      (.dropped v)).modifyInstance v.stack.vm
        fun x => { x with views := x.views - 1 }).history := List.suffix_cons _ _
  generalize (({ w with views := w.views.erase v.number }.happened
    (.dropped v)).modifyInstance v.stack.vm
      fun x => { x with views := x.views - 1 }) = u at h hgrows ⊢
  cases hx : u.instance? v.stack.vm <;> simp only [hx] at h
  · exact (Prod.mk.inj (Option.some.inj h)).2.symm
  · split at h
    · exact (hshut hgrows h).elim
    · exact (Prod.mk.inj (Option.some.inj h)).2.symm

end World

namespace ThreadHandle

variable {h : ThreadHandle} {args : List Value} {r : Except Error Resumed}

/-- How a resume ends, unless the interpreter is closed with it. -/
theorem Goes.left (G : h.Goes source args w)
    (hd : (World.drive code fuel).from (h.turn source args w) = some (e, w₁))
    (hr : h.resume source args (World.drive code fuel) w = some (r, w'))
    (hc : Unclosed h.thread.vm w w') :
    r = (handBack h.thread e w₁).1 ∧ w' = (handBack h.thread e w₁).2.removeView
      (source.owns h w).2.views.next ⟨h.thread, false⟩ := by
  rw [G.resume, hd, Option.bind_some] at hr
  dsimp only at hr
  obtain ⟨⟨_, w₂⟩, hdrop, hr⟩ := Option.map_eq_some_iff.mp hr
  obtain ⟨rfl, rfl⟩ := Prod.mk.inj hr
  have hran : w.history <:+ (handBack h.thread e w₁).2.history :=
    ((grows_turn G).trans (path_drive code fuel _ _ _ _ _ hd).grows).trans
      (outside_handBack path_outside h.thread e w₁).grows
  have hdropped := path_dropView (path_drive code fuel) _ _ _ _ _ hdrop
  exact ⟨rfl, dropView_left (path_drive code fuel) (G.view_open hd) hdrop
    (hc.after hran hdropped.grows)⟩

/-- A thread is not resumed from its own stack. -/
theorem Goes.ne (G : h.Goes source args w) : source ≠ h.thread := by
  intro he
  have hs := G.status
  unfold ThreadHandle.status at hs
  rw [if_neg (by rw [G.isClosed]; exact Bool.false_ne_true), if_pos he.symm] at hs
  cases hs

/-- A thread that waits fails for good when its body raises an error that nothing in it catches. -/
theorem Goes.fails {v : Val} (G : h.Goes source args w) (ht : w.thread? h.thread = some th)
    (hw : th.Waits) (hd : (World.drive code fuel).from (h.turn source args w) =
      some (.raised status v, w₁)) (hc : Unclosed h.thread.vm w w₁) :
    ∃ s, w₁.StandsAs (.failed status) h.thread s := by
  obtain ⟨g, th₁, ht₁, hr⟩ := G.inRun ht hw
  have hran : Unclosed h.thread.vm (h.turn source args w).world w₁ :=
    hc.after (grows_turn G) (path_drive code fuel _ _ _ _ _ hd).grows
  obtain ⟨th', ht', ⟨hstatus, hn⟩, -⟩ := (sound_drive code fuel).returns hd hran ht₁ hr
  have hs := stands_of_thread ht' hn
  rw [hstatus] at hs
  exact ⟨_, hs⟩

/-- The error value that a failed thread hands over is taken off its stack, and its text is the error
of the resume. -/
theorem handBack_raised {s : Array Val} {v : Val} (hs : w.StandsAs st T s) :
    (∃ text, (handBack T (.raised status v) w).1 = .error (.call text)) ∧
      (handBack T (.raised status v) w).2.StandsAs st T s := by
  have hthread : ∀ c, (w.modifyVm T.vm (·.endResume T.thread (.raised status v))).thread? c =
      w.thread? c := by
    intro c
    rw [thread?_modifyVm]
    unfold World.thread?
    split
    next hi =>
      rw [hi]
      rfl
    next => rfl
  have hended := (unmoved_of_thread? hthread).stands hs
  unfold handBack
  dsimp only
  generalize w.modifyVm T.vm _ = w₁ at hended
  exact ⟨⟨_, rfl⟩, Context.stands_popErrorText (hended.push v)⟩

/-- While a thread runs that was resumed, another one rests to which nothing is done. -/
theorem Goes.rests {free : Prop} (G : h.Goes source args w) (hne : T ≠ h.thread)
    (hP : Throughout code (Spared code free T) (h.turn source args w))
    (hd : (World.drive code fuel).from (h.turn source args w) = some (e, w₁)) :
    Rests free T w w₁ := by
  have hentered : Rests free T w (h.entered source w) := by
    rw [G.entered]
    exact (rests_touches (source.quiet_owns h w)).trans (still_noted (noted_addView _ _)).rests
  have hloaded : Rests free T (h.entered source w) (h.loaded source args w) :=
    rests_touches (Context.quiet_pushAll h.thread args hne _)
  have hturn : Rests free T (h.loaded source args w) (h.turn source args w).world :=
    (still_onVm hne _ fun vm => Vm.apart_beginResume vm _ _ _).rests
  have hrun := (idles_only code fuel).others hne _ _ _ _ (Drive.only_some.mpr ⟨hP, hd⟩)
  exact hentered.trans (hloaded.trans (hturn.trans hrun))

end ThreadHandle

/-! ### A thread that has failed -/

namespace World

/-- What everyone but the thread itself sees of it, and how attempts to resume it end. -/
structure Perished (T : Context) (w : World σ μ) : Prop where
  status : ∀ q : ThreadHandle, q.thread = T → ∀ c, c ≠ T → q.status c w = (.ok .dead, w)
  seen : ∀ asking, asking ≠ T.thread → (w.vm T.vm).statusSeen T.thread asking = .dead
  /-- The only failures that come before are those of finding out whose thread it is. -/
  resume : ∀ q : ThreadHandle, q.thread = T → ∀ c, c ≠ T → ∀ args, ∃ e w',
    (∀ d, q.resume c args d w = some (.error e, w')) ∧ w.Unmoved w' ∧
    ((c.owns q w).1 = .ok true → e = .call "cannot resume dead coroutine")
  /-- A script that tries fails in the same way, or for want of room for its arguments. -/
  script : ∀ (c : Context) args, c.vm = T.vm → ∃ v w',
    (∀ d, resumeFor c T.thread args d w = some (.error v, w')) ∧ w.Unmoved w' ∧
    ((w.reserve T args.length).1 = true → v = .text "cannot resume dead coroutine")

theorem statusSeen_of_failed {vm : Vm} {t asking : Nat} (h : (vm.thread t).status = .failed status)
    (hne : t ≠ asking) : vm.statusSeen t asking = .dead := by
  unfold Vm.statusSeen
  simp only [h, if_neg hne]

theorem status_of_failed (ht : w.thread? T = some th) (hs : th.status = .failed status)
    {q : ThreadHandle} (hq : q.thread = T) (hne : c ≠ T) : q.status c w = (.ok .dead, w) := by
  subst hq
  have hfailed : ((w.vm q.thread.vm).thread q.thread.thread).status = .failed status := by
    rwa [show (w.vm q.thread.vm).thread q.thread.thread = th from thread_of_some ht]
  have hlt : q.thread.thread < (w.vm q.thread.vm).threads.size := by
    obtain ⟨x, hx, hx'⟩ := Option.bind_eq_some_iff.mp ht
    rw [vm_eq w _ hx]
    exact (Array.getElem?_eq_some_iff.mp hx').1
  unfold ThreadHandle.status
  split
  · rfl
  · rw [if_neg hne.symm]
    dsimp only
    rw [statusSeen_of_failed hfailed]
    split
    next hvm =>
      intro he
      apply hne
      cases c
      cases hq : q.thread
      simp_all
    next => exact Nat.ne_of_lt hlt

theorem resume_of_failed (ht : w.thread? T = some th) (hs : th.status = .failed status)
    {q : ThreadHandle} (hq : q.thread = T) (hne : c ≠ T) (args : List Value) : ∃ e w',
    (∀ d, q.resume c args d w = some (.error e, w')) ∧ w.Unmoved w' ∧
    ((c.owns q w).1 = .ok true → e = .call "cannot resume dead coroutine") := by
  obtain ⟨th₁, ht₁, hr⟩ := unmoved_touches (c.quiet_owns q w) T th ht
  have hseen := status_of_failed (c := c) ht₁ (hr.status.trans hs) hq hne
  have hrefused : ¬ q.Goes c args w := by
    intro G
    have hstatus := G.status
    rw [hseen] at hstatus
    cases hstatus
  obtain ⟨e, w', hall, hu⟩ := ThreadHandle.resume_refused hrefused
  refine ⟨e, w', hall, hu, fun ho => ?_⟩
  have hdead : q.resume c args (fun _ _ _ => none) w = _ :=
    ThreadHandle.resume_of_seen (ThreadHandle.pair_eq ho) (congrArg Prod.fst hseen) (by decide)
  rw [hall] at hdead
  exact Except.error.inj (Prod.mk.inj (Option.some.inj hdead)).1

theorem resumeFor_of_failed (ht : w.thread? T = some th) (hs : th.status = .failed status)
    (hc : c.vm = T.vm) (args : List Val) : ∃ v w',
    (∀ d, resumeFor c T.thread args d w = some (.error v, w')) ∧ w.Unmoved w' ∧
    ((w.reserve T args.length).1 = true → v = .text "cannot resume dead coroutine") := by
  have hco : (⟨c.vm, T.thread⟩ : Context) = T := by rw [hc]
  cases hroom : (w.reserve T args.length).1 with
  | false =>
    refine ⟨_, _, fun d => resumeFor_cramped (c := c) T.thread (by rwa [hco]) d, ?_, nofun⟩
    exact unmoved_touches (touches_reserve w _ _)
  | true =>
    have htouch : Touches w (w.offered T args) := by
      have hreserved : Touches w _ := touches_reserve w T args.length
      exact hreserved.trans (touches_modifySlots _ T _ trivial)
    obtain ⟨th₁, ht₁, hr⟩ := htouch.sameBelow ht
    have hrefused : ∀ count depth, ((w.offered T args).vm T.vm).refusal? T.thread count depth =
        some (Bytes.ofString "cannot resume dead coroutine") := by
      intro count depth
      unfold Vm.refusal?
      simp only [show ((w.offered T args).vm T.vm).thread T.thread = th₁ from thread_of_some ht₁,
        hr.status.trans hs]
    obtain ⟨w', hall, hu⟩ := resumeFor_refused (c := c) T.thread (by rwa [hco])
      (by rw [hco, hc]; exact hrefused _ _)
    exact ⟨_, w', hall, hu, fun _ => rfl⟩

theorem perished_of_failed (ht : w.thread? T = some th) (hs : th.status = .failed status) :
    Perished T w where
  status _ hq _ hne := status_of_failed ht hs hq hne
  seen asking hne := by
    have hfailed : ((w.vm T.vm).thread T.thread).status = .failed status := by
      rwa [show (w.vm T.vm).thread T.thread = th from thread_of_some ht]
    exact statusSeen_of_failed hfailed hne.symm
  resume _ hq _ hne args := resume_of_failed ht hs hq hne args
  script _ args hc := resumeFor_of_failed ht hs hc args

/-- A world comes after another one, by runs at whose moments nothing happens that could end a thread:
by work on stacks and in the records, by operations of the host, by what is come to inside these, and
by runs of other threads. -/
inductive Later (code : HostCode σ μ) (st : ThreadStatus) (T : Context) (w : World σ μ) :
    World σ μ → Prop where
  | here : Later code st T w w
  | touched {u v} (h : Later code st T w u) (ht : Touches u v) : Later code st T w v
  | operated {α : Type} {o : Op σ μ α} {u v a} (fuel : Nat) (h : Later code st T w u)
      (ho : o.perform (drive code fuel) u = some (a, v))
      (hP : ∀ x, o.perform.Asks (drive code fuel) u x → Throughout code (Unharmed st T) x) :
      Later code st T w v
  | inside {α : Type} {o : Op σ μ α} {u x m} (fuel : Nat) (h : Later code st T w u)
      (hx : o.perform.Asks (drive code fuel) u x)
      (hP : ∀ t, o.perform.Lays u t → ∀ y, t.Asks (drive code fuel) y →
        Throughout code (Unharmed st T) y)
      (hm : Reached code m x) : Later code st T w m.world
  | reached {c next u m} (h : Later code st T w u) (hne : T ≠ c)
      (hP : Throughout code (Unharmed st T) ⟨c, next, u⟩) (hm : Reached code m ⟨c, next, u⟩) :
      Later code st T w m.world

/-- A busy thread is busy later on. -/
theorem Later.busy (h : Later code st T w u) (hst : st ≠ .yielded) (ht : w.thread? T = some th)
    (hb : th.Busy st) : w.history <:+ u.history ∧
      (Unclosed T.vm w u → ∃ th', u.thread? T = some th' ∧ th'.Busy st) := by
  have hundisturbed : ∀ {u v : World σ μ}, Undisturbed st T u v → w.history <:+ u.history ∧
      (Unclosed T.vm w u → ∃ th', u.thread? T = some th' ∧ th'.Busy st) →
      w.history <:+ v.history ∧
        (Unclosed T.vm w v → ∃ th', v.thread? T = some th' ∧ th'.Busy st) := by
    rintro u v hu ⟨hgrows, hbusy⟩
    refine ⟨hgrows.trans hu.grows, fun hc => ?_⟩
    obtain ⟨th₁, ht₁, hb₁⟩ := hbusy (hc.before hgrows hu.grows)
    obtain ⟨th', ht', hs⟩ := hu.kept (hc.after hgrows hu.grows) th₁ ht₁ hb₁
    exact ⟨th', ht', hs.busy hb₁⟩
  have hreached : ∀ {x m : Moment σ μ}, Throughout code (Unharmed st T) x → Reached code m x →
      w.history <:+ x.world.history ∧ (Unclosed T.vm w x.world → Engages st T x) →
      w.history <:+ m.world.history ∧
        (Unclosed T.vm w m.world → ∃ th', m.world.thread? T = some th' ∧ th'.Busy st) := by
    rintro x m hP hm ⟨hgrows, hx⟩
    obtain ⟨hgrows', hengages⟩ := hm.engages hst hP
    exact ⟨hgrows.trans hgrows', fun hc =>
      (hengages (hc.after hgrows hgrows') (hx (hc.before hgrows hgrows'))).busy⟩
  induction h with
  | here => exact ⟨List.suffix_refl _, fun _ => ⟨th, ht, hb⟩⟩
  | touched _ h ih => exact hundisturbed ((undisturbed_stable st T).touches h) ih
  | @operated _ o u v a fuel _ ho hP ih =>
    have honly := (Run.laid.traversal.op o o.within_all).run_only ho hP
    exact hundisturbed ((sound_only code fuel).keeping.traversal.op o o.within_all _ _ _ honly) ih
  | @inside _ o u x m fuel _ hx hP hm ih =>
    obtain ⟨t, hlays, hattends⟩ :=
      (((sound_only (T := T) code fuel).guiding hst).traversal.op o o.within_all).2 u
    have hx' := hattends x (Tree.asks_only (hx t hlays) (hP t hlays))
    refine hreached (hP t hlays x (hx t hlays)) hm ⟨ih.1.trans hx'.grows, fun hc => ?_⟩
    obtain ⟨th₁, ht₁, hb₁⟩ := ih.2 (hc.before ih.1 hx'.grows)
    exact hx'.engages (hc.after ih.1 hx'.grows) th₁ ht₁ hb₁
  | @reached c next u m _ hne hP hm ih =>
    refine hreached hP hm ⟨ih.1, fun hc => ?_⟩
    obtain ⟨th₁, ht₁, hb₁⟩ := ih.2 hc
    exact engages_of_ne hne ht₁ hb₁

end World

/-! ### The law of resumes that do not succeed -/

namespace ThreadHandle

variable {h : ThreadHandle} {args : List Value} {r : Except Error Resumed}

/-- What is made of the error of a thread leaves other threads alone. -/
theorem rests_handBack {free : Prop} (hne : T ≠ h.thread) (v : Val) (n : Nat) :
    Rests free T w ((handBack h.thread (.raised status v) w).2.removeView n ⟨h.thread, false⟩) := by
  have hended : Rests free T w
      (w.modifyVm h.thread.vm (·.endResume h.thread.thread (.raised status v))) :=
    (still_apart hne w fun vm => Vm.apart_endResume vm _ _).rests
  refine hended.trans (Rests.trans ?_ (still_noted (noted_removeView _ n ⟨h.thread, false⟩)).rests)
  unfold handBack
  dsimp only
  generalize w.modifyVm h.thread.vm _ = w₁
  exact rests_touches ((touches_push w₁ h.thread v hne).trans (touches_popErrorText _ h.thread hne))

/-- What a resume leaves behind whose thread has failed: it was resumed in the first world, stopped
in the second, and the resume was over in the third. -/
structure Fails (code : HostCode σ μ) (h : ThreadHandle) (source : Context) (args : List Value)
    (status : ErrorStatus) (w w₁ w' : World σ μ) (r : Except Error Resumed) : Prop where
  error : ∃ text, r = .error (.call text)
  /-- The error value that it handed over is not on its stack any more. -/
  taken : ∃ s, w₁.StandsAs (.failed status) h.thread s ∧ w'.StandsAs (.failed status) h.thread s
  resumer : ∀ free th, w.thread? source = some th → free ∨ th.isRunning →
    Throughout code (Spared code free source) (h.turn source args w) →
    Unclosed source.vm w w' → ∃ th', w'.thread? source = some th' ∧ th.Rested False th'
  dead : ∀ u, Later code (.failed status) h.thread w' u → Unclosed h.thread.vm w' u →
    Perished h.thread u

/-- If anything stands in the way of a resume, nothing runs and every thread stays as it was; the
interpreter itself refuses only for want of nesting what the bridge lets through. If the thread was
waiting and fails, its resumer's stack is as it was, unless something has been done to it, and the
thread is dead for good. -/
theorem resume_law (code : HostCode σ μ) (h : ThreadHandle) (source : Context) (args : List Value)
    (w : World σ μ) :
    (¬ h.Goes source args w → ∃ e w', (∀ d, h.resume source args d w = some (.error e, w')) ∧
      w.Unmoved w') ∧
    (∀ st s, w.StandsAs st h.thread s → (source.owns h w).1 = .ok true →
      (h.status source (source.owns h w).2).1 = .ok .suspended →
      (Context.pushAll h.thread args (h.entered source w)).1 = .ok () →
      ((h.loaded source args w).vm h.thread.vm).refusal? h.thread.thread args.length
        ((h.loaded source args w).thread source).top.depth =
        if Vm.maxNesting ≤ ((h.loaded source args w).thread source).top.depth then
          some (Bytes.ofString "C stack overflow") else none) ∧
    (h.Goes source args w → ∀ th, w.thread? h.thread = some th → th.Waits →
      ∀ fuel status v w₁ r w',
        (World.drive code fuel).from (h.turn source args w) = some (.raised status v, w₁) →
        h.resume source args (World.drive code fuel) w = some (r, w') →
        Unclosed h.thread.vm w w' → Fails code h source args status w w₁ w' r) := by
  refine ⟨resume_refused, fun st s hs ho hseen hp => refusal_of_suspended ho hseen hp hs, ?_⟩
  intro G th ht hw fuel status v w₁ r w' hd hr hc
  obtain ⟨rfl, rfl⟩ := G.left hd hr hc
  have hback : Rests False source w₁ ((handBack h.thread (.raised status v) w₁).2.removeView
      (source.owns h w).2.views.next ⟨h.thread, false⟩) := rests_handBack G.ne v _
  have hran : w.history <:+ w₁.history :=
    (grows_turn G).trans (path_drive code fuel _ _ _ _ _ hd).grows
  obtain ⟨s, hs⟩ := G.fails ht hw hd (hc.before hran hback.grows)
  obtain ⟨herror, hleft⟩ := handBack_raised (v := v) hs
  have hleft' := (unmoved_noted (noted_removeView _ (source.owns h w).2.views.next
    ⟨h.thread, false⟩)).stands hleft
  refine ⟨herror, ⟨s, hs, hleft'⟩, fun free th ht hf hP hc => ?_, fun u hu hc => ?_⟩
  · exact ((G.rests G.ne hP hd).trans (rests_handBack G.ne v _)).kept hc th ht hf
  · obtain ⟨th', ht', hstatus, -⟩ := hleft'.thread
    have hbusy : th'.Busy (.failed status) := ⟨hstatus, nofun⟩
    obtain ⟨th'', ht'', hb⟩ := (hu.busy nofun ht' hbusy).2 hc
    exact perished_of_failed ht'' hb.status

end ThreadHandle

/-! ### A script that fails -/

/-- The error that a run ends with, if it does. -/
def Engine.Exit.raised? : Exit → Option (ErrorStatus × Val)
  | .raised status v => some (status, v)
  | _ => none

theorem Engine.Exit.eq_of_raised? {v : Val} (h : e.raised? = some (status, v)) :
    e = .raised status v := by
  cases e with
  | raised status' v' =>
    obtain ⟨rfl, rfl⟩ := Prod.mk.inj (Option.some.inj h)
    rfl
  | _ => cases h

namespace World

/-- An interpreter with a function on its main stack, and with a coroutine that is to run a script. In
three variables the script has the function that resumes threads, the main thread, and the function
that raises errors. -/
def entangled (code : Array Instr) : World Unit Unit where
  instances := #[{
    vm :=
      { freshVm 0 with
        heap :=
          { (freshVm 0).heap with
            closures := { items := #[some (.script (.mk code (code.map fun _ => 1) #[]
              #[⟨"resume", false, 0⟩, ⟨"main", false, 1⟩, ⟨"error", false, 2⟩] 0 false 4 none
              ⟨.empty, .empty, 0⟩) #[0, 1, 2])] }
            cells := { items :=
              #[some (.builtin .coroutineResume), some (.thread 0), some (.builtin .baseError)] } }
        threads := #[.new #[.builtin .echoing], .new #[.closure 0]] }
    chunkName := .empty }]
  memory := ()
  subscriber _ m := m

/-- A script that raises an error. -/
def raisingScript : Array Instr := #[.getUpvalue 2, .call 0 (some 0) none, .ret 0]

/-- A script that resumes the main thread before it raises an error. -/
def entanglingScript : Array Instr :=
  #[.getUpvalue 0, .getUpvalue 1, .call 0 (some 0) none, .getUpvalue 2, .call 0 (some 0) none, .ret 0]

end World

namespace ThreadHandle

theorem resume_law_raising :
    ∃ v w₁ r w', (World.drive HostCode.silent 9).from
        (paired.coroutine.turn ⟨0, 0⟩ [] (entangled raisingScript)) = some (.raised .runtime v, w₁) ∧
      paired.coroutine.resume ⟨0, 0⟩ [] (World.drive HostCode.silent 9) (entangled raisingScript) =
        some (r, w') ∧
      (∃ text, r = .error (.call text)) ∧ Perished ⟨0, 1⟩ w' ∧
      w'.slots ⟨0, 0⟩ = #[.builtin .echoing] := by
  have hgoes : paired.coroutine.Goes ⟨0, 0⟩ [] (entangled raisingScript) :=
    ⟨by decide +kernel, by decide +kernel, by decide, by decide +kernel, by decide +kernel⟩
  have hrun : ((World.drive HostCode.silent 9).from (paired.coroutine.turn ⟨0, 0⟩ []
      (entangled raisingScript))).map (fun p => p.1.raised?) = some (some (.runtime, .nil)) := by
    decide +kernel
  have hres : (paired.coroutine.resume ⟨0, 0⟩ [] (World.drive HostCode.silent 9)
      (entangled raisingScript)).map (fun p => p.2.history) =
        some [.dropped ⟨⟨0, 1⟩, 0⟩, .opened ⟨⟨0, 1⟩, 0⟩] := by
    decide +kernel
  obtain ⟨⟨e, w₁⟩, hd, he⟩ := Option.map_eq_some_iff.mp hrun
  obtain rfl := Exit.eq_of_raised? he
  obtain ⟨⟨r, w'⟩, hr, hh⟩ := Option.map_eq_some_iff.mp hres
  have hopen : Unclosed 0 (entangled raisingScript) w' :=
    unclosed_of_not_mem List.nil_suffix (by rw [show w'.history = _ from hh]; decide)
  have hfails := (resume_law HostCode.silent paired.coroutine ⟨0, 0⟩ [] (entangled raisingScript)).2.2
    hgoes _ rfl (.fresh rfl rfl rfl) 9 _ _ _ _ _ hd hr hopen
  have hspared : Throughout HostCode.silent (Spared HostCode.silent True ⟨0, 0⟩)
      (paired.coroutine.turn ⟨0, 0⟩ [] (entangled raisingScript)) :=
    throughout_of_selfContained (n := 9) (by decide +kernel) fun next w hnext =>
      ⟨fun _ _ _ h => absurd h (hnext _), fun _ => show (⟨0, 1⟩ : Context) ≠ ⟨0, 0⟩ by decide,
        fun _ h => absurd h.need.choose_spec (hnext _)⟩
  obtain ⟨th', ht', hr'⟩ := hfails.resumer True _ rfl (.inl trivial) hspared hopen
  refine ⟨_, w₁, r, w', hd, hr, hfails.error, hfails.dead w' .here rfl, ?_⟩
  unfold World.slots
  rw [thread_of_some ht']
  exact hr'.slots.resolve_left id

/-- A script can resume its resumer, if that one is at its base, and so take away what is on its stack
before it fails. Nobody has opened a view of that stack. -/
theorem resumer_entangled :
    paired.coroutine.Goes ⟨0, 0⟩ [] (entangled entanglingScript) ∧
    (entangled entanglingScript).slots ⟨0, 0⟩ = #[.builtin .echoing] ∧
    (∃ v w₁, (World.drive HostCode.silent 30).from (paired.coroutine.turn ⟨0, 0⟩ []
      (entangled entanglingScript)) = some (.raised .runtime v, w₁)) ∧
    ∃ r w', paired.coroutine.resume ⟨0, 0⟩ [] (World.drive HostCode.silent 30)
        (entangled entanglingScript) = some (r, w') ∧
      w'.history = [.dropped ⟨⟨0, 1⟩, 0⟩, .opened ⟨⟨0, 1⟩, 0⟩] ∧ w'.slots ⟨0, 0⟩ = #[] := by
  refine ⟨⟨by decide +kernel, by decide +kernel, by decide, by decide +kernel, by decide +kernel⟩,
    by decide +kernel, ?_, ?_⟩
  · have hrun : ((World.drive HostCode.silent 30).from (paired.coroutine.turn ⟨0, 0⟩ []
        (entangled entanglingScript))).map (fun p => p.1.raised?) =
          some (some (.runtime, .nil)) := by
      decide +kernel
    obtain ⟨⟨e, w₁⟩, hd, he⟩ := Option.map_eq_some_iff.mp hrun
    obtain rfl := Exit.eq_of_raised? he
    exact ⟨_, w₁, hd⟩
  · have hres : (paired.coroutine.resume ⟨0, 0⟩ [] (World.drive HostCode.silent 30)
        (entangled entanglingScript)).map (fun p => (p.2.history, p.2.slots ⟨0, 0⟩)) =
          some ([.dropped ⟨⟨0, 1⟩, 0⟩, .opened ⟨⟨0, 1⟩, 0⟩], #[]) := by
      decide +kernel
    obtain ⟨⟨r, w'⟩, hr, he⟩ := Option.map_eq_some_iff.mp hres
    exact ⟨r, w', hr, Prod.mk.inj he⟩

end ThreadHandle
end LuaEmbed
