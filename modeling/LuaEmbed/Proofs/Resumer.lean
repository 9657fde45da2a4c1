import LuaEmbed.Proofs.Attendance
import LuaEmbed.Proofs.Refusal

/-!
A thread that has resumed another one, as it is seen from inside. As long as the resumed thread
runs, its resumer is in the middle of a run, whatever happens and however deeply runs nest; so it is
seen as normal, and nobody can resume it.
-/
namespace LuaEmbed

open Engine World

variable {σ μ : Type} {T c : Context} {w : World σ μ} {th : Thread}

namespace World

/-! ### How the thread is seen -/

/-- What everyone but the thread itself sees of it, and how attempts to resume it end. -/
structure Shielded (T : Context) (w : World σ μ) : Prop where
  status : ∀ q : ThreadHandle, q.thread = T → q.isClosed w = false → ∀ c, c ≠ T →
    q.status c w = (.ok .normal, w)
  seen : ∀ asking, asking ≠ T.thread → (w.vm T.vm).statusSeen T.thread asking = .normal
  /-- The only failures that come before are those of finding out whose thread it is. -/
  resume : ∀ q : ThreadHandle, q.thread = T → ∀ c args d, ∃ e w',
    q.resume c args d w = some (.error e, w') ∧ w'.slots T = w.slots T ∧
    ((c.owns q w).1 = .ok true → e = .call "cannot resume non-suspended coroutine")
  /-- A script that tries fails in the same way, or for want of room for its arguments. -/
  script : ∀ (c : Context) args d, c.vm = T.vm → ∃ v w',
    resumeFor c T.thread args d w = some (.error v, w') ∧ w'.slots T = w.slots T ∧
    ((w.reserve T args.length).1 = true → v = .text "cannot resume non-suspended coroutine")

theorem refusal_eq_of_running {vm : Vm} {t : Nat} (h : (vm.thread t).isRunning)
    (count depth : Nat) :
    vm.refusal? t count depth
      = some (Bytes.ofString "cannot resume non-suspended coroutine") := by
  unfold Thread.isRunning at h
  simp only [Bool.and_eq_true, decide_eq_true_eq] at h
  unfold Vm.refusal?
  simp only [h.1, h.2, if_true]

theorem statusSeen_of_running {vm : Vm} {t asking : Nat} (h : (vm.thread t).isRunning)
    (hne : t ≠ asking) : vm.statusSeen t asking = .normal := by
  unfold Thread.isRunning at h
  simp only [Bool.and_eq_true, decide_eq_true_eq] at h
  unfold Vm.statusSeen
  simp only [h.1, h.2, if_neg hne, if_true]

theorem status_of_running (ht : w.thread? T = some th) (hr : th.isRunning) {q : ThreadHandle}
    (hq : q.thread = T) (hopen : q.isClosed w = false) (c : Context) :
    q.status c w = (.ok (if T = c then .running else .normal), w) := by
  subst hq
  have hrun : ((w.vm q.thread.vm).thread q.thread.thread).isRunning := by
    rwa [show (w.vm q.thread.vm).thread q.thread.thread = th from thread_of_some ht]
  unfold ThreadHandle.status
  simp only [hopen, Bool.false_eq_true, if_false]
  split
  · rfl
  next hne =>
    have hlt : q.thread.thread < (w.vm q.thread.vm).threads.size := by
      obtain ⟨x, hx, hx'⟩ := Option.bind_eq_some_iff.mp ht
      rw [vm_eq w _ hx]
      exact (Array.getElem?_eq_some_iff.mp hx').1
    rw [statusSeen_of_running hrun]
    split
    next hvm =>
      intro he
      apply hne
      cases c
      cases hq : q.thread
      simp_all
    next => exact Nat.ne_of_lt hlt

theorem resume_of_running (ht : w.thread? T = some th) (hr : th.isRunning) {q : ThreadHandle}
    (hq : q.thread = T) (c : Context) (args : List Value) (d : Drive σ μ) :
    ∃ e, q.resume c args d w = some (.error e, (c.owns q w).2) ∧
      ((c.owns q w).1 = .ok true → e = .call "cannot resume non-suspended coroutine") := by
  have htouch : Touches w _ := c.quiet_owns q w
  have htrue := @ThreadHandle.isClosed_of_owns _ _ q c w
  unfold ThreadHandle.resume
  cases ho : c.owns q w with
  | mk r w₁ =>
    rw [ho] at htouch htrue
    cases r with
    | error e => exact ⟨e, Act.bind_some.mpr (.inr ⟨e, Act.api_eq_some.mpr ho, rfl⟩), nofun⟩
    | ok own =>
      cases own with
      | false =>
        exact ⟨_, Act.bind_some.mpr (.inl ⟨false, w₁, Act.api_eq_some.mpr ho, rfl⟩), nofun⟩
      | true =>
        obtain ⟨th₁, ht₁, hs₁⟩ := htouch.sameBelow ht
        have hclosed : q.isClosed w₁ = false := (ThreadHandle.isClosed_of_touches htouch q).trans (htrue rfl)
        have hstatus := status_of_running ht₁ (hs₁.isRunning hr) hq hclosed c
        refine ⟨_, Act.bind_some.mpr (.inl ⟨true, w₁, Act.api_eq_some.mpr ho, ?_⟩), fun _ => rfl⟩
        refine Act.bind_some.mpr (.inl ⟨_, w₁, Act.api_eq_some.mpr hstatus, ?_⟩)
        by_cases hc : T = c
        · rw [if_pos hc]
          rfl
        · rw [if_neg hc]
          rfl

theorem resumeFor_of_running (ht : w.thread? T = some th) (hr : th.isRunning) {c : Context}
    (hc : c.vm = T.vm) (args : List Val) (d : Drive σ μ) : ∃ v w', resumeFor c T.thread args d w = some (.error v, w') ∧
      w'.slots T = w.slots T ∧
      ((w.reserve T args.length).1 = true → v = .text "cannot resume non-suspended coroutine") := by
  have hco : (⟨c.vm, T.thread⟩ : Context) = T := by rw [hc]
  have htouch : Touches w _ := touches_reserve w T args.length
  have hslots := slots_reserve w T T args.length
  cases hroom : (w.reserve T args.length).1 with
  | false =>
    have hres := resumeFor_cramped (c := c) T.thread (by rwa [hco]) d
    rw [hco] at hres
    exact ⟨_, _, hres, hslots, nofun⟩
  | true =>
    have htouch₂ : Touches w (w.offered T args) := htouch.trans (touches_modifySlots _ T _ trivial)
    obtain ⟨th₂, ht₂, hs₂⟩ := htouch₂.sameBelow ht
    have hrun : (((w.offered T args).vm T.vm).thread T.thread).isRunning := by
      rw [show ((w.offered T args).vm T.vm).thread T.thread = th₂ from thread_of_some ht₂]
      exact hs₂.isRunning hr
    obtain ⟨w', hres, hunmoved⟩ := resumeFor_refused (c := c) T.thread
      (by rwa [hco]) (by rw [hco, hc]; exact refusal_eq_of_running hrun _ _)
    obtain ⟨th', ht', hs'⟩ := hunmoved T th ht
    refine ⟨_, w', hres d, ?_, fun _ => rfl⟩
    unfold World.slots
    rw [thread_of_some ht', thread_of_some ht]
    exact hs'.slots.resolve_left id

theorem shielded_of_running (ht : w.thread? T = some th) (hr : th.isRunning) : Shielded T w where
  status q hq hc c hne := by rw [status_of_running ht hr hq hc, if_neg hne.symm]
  seen asking hne := statusSeen_of_running (by
    rwa [show (w.vm T.vm).thread T.thread = th from thread_of_some ht]) hne.symm
  resume q hq c args d := by
    obtain ⟨e, he, hcall⟩ := resume_of_running ht hr hq c args d
    exact ⟨e, _, he, (c.steady_owns q w).slots T, hcall⟩
  script c args d hc := resumeFor_of_running ht hr hc args d

/-- Before the resumed thread goes on, nothing happens to the resumer. -/
theorem undisturbed_loaded {h : ThreadHandle} {args : List Value} (G : h.Goes T args w) :
    Undisturbed .ready T w (h.loaded T args w) := by
  have K := undisturbed_stable (σ := σ) (μ := μ) .ready T
  have hentered : Undisturbed .ready T w (h.entered T w) := by
    rw [G.entered]
    exact (K.touches (T.quiet_owns h w)).trans (still_noted (noted_addView _ _)).undisturbed
  exact hentered.trans (K.touches (Context.quiet_pushAll h.thread args trivial _))

theorem grows_turn {h : ThreadHandle} {args : List Value} (G : h.Goes T args w) :
    w.history <:+ (h.turn T args w).world.history := by
  unfold ThreadHandle.turn
  dsimp only
  rw [onVm_world]
  exact (undisturbed_loaded G).grows

theorem attends_turn {h : ThreadHandle} {args : List Value} (G : h.Goes T args w)
    (ht : w.thread? T = some th) (hr : th.isRunning) : Attends .ready T w (h.turn T args w) := by
  have hloaded := undisturbed_loaded G
  refine ⟨grows_turn G, fun hc _ _ _ => ?_⟩
  have hopen : Unclosed T.vm w (h.loaded T args w) := by
    unfold ThreadHandle.turn at hc
    dsimp only at hc
    rw [onVm_world] at hc
    exact hc.of_history rfl rfl
  obtain ⟨th', ht', hs⟩ := hloaded.kept hopen th ht (Thread.busy_ready.mpr hr)
  have hne : T ≠ h.thread := by
    intro he
    have hrun : (((h.loaded T args w).vm h.thread.vm).thread h.thread.thread).isRunning := by
      rw [show ((h.loaded T args w).vm h.thread.vm).thread h.thread.thread = th' from
        he ▸ thread_of_some ht']
      exact hs.isRunning hr
    exact refusal_of_busy (Thread.busy_ready.mpr hrun) (by decide) _ _ G.granted
  have hbegun := still_onVm hne (h.loaded T args w) fun vm =>
    Vm.apart_beginResume vm h.thread.thread args.length ((h.loaded T args w).thread T).top.depth
  exact engages_of_ne hne (hbegun.same th' ht') (Thread.busy_ready.mpr (hs.isRunning hr))

/-- As long as a resume from a thread that is inside a frame is in progress, the thread is shielded:
at every moment that the resumed thread's run reaches, and whenever a host function asks for an
operation inside that run. -/
theorem resumer_shielded (code : HostCode σ μ) {h : ThreadHandle} {args : List Value}
    (ht : w.thread? T = some th) (hr : th.isRunning) (G : h.Goes T args w) :
    (∀ m, Reached code m (h.turn T args w) → Unclosed T.vm w m.world → Shielded T m.world) ∧
    ∀ {β : Type} (c : Context) (o : Op σ μ β) u, Inside code (h.turn T args w) c o u →
      Unclosed T.vm w u → Shielded T u := by
  have hattends := attends_turn G ht hr
  have hreached : ∀ m, Reached code m (h.turn T args w) →
      w.history <:+ m.world.history ∧
        (Unclosed T.vm w m.world → ∃ th, m.world.thread? T = some th ∧ th.isRunning) := by
    intro m hm
    obtain ⟨hgrows, hengages⟩ := hm.engages (by decide) fun m _ => unharmed_ready (T := T) m
    refine ⟨hattends.grows.trans hgrows, fun hc => ?_⟩
    obtain ⟨th', ht', hb⟩ := (hengages (hc.after hattends.grows hgrows)
      (hattends.engages (hc.before hattends.grows hgrows) th ht (Thread.busy_ready.mpr hr))).busy
    exact ⟨th', ht', Thread.busy_ready.mp hb⟩
  refine ⟨fun m hm hc => ?_, fun c o u hin hc => ?_⟩
  · obtain ⟨th', ht', hr'⟩ := (hreached m hm).2 hc
    exact shielded_of_running ht' hr'
  · obtain ⟨isList, id, w₁, n, hm, hask⟩ := hin
    have hsame := (sound_drive code n (T := T)).keeping.hostAsks hask
    obtain ⟨hgrows, hrunning⟩ := hreached _ hm
    obtain ⟨th₁, ht₁, hr₁⟩ := hrunning (hc.before hgrows hsame.grows)
    obtain ⟨th', ht', hs⟩ :=
      hsame.kept (hc.after hgrows hsame.grows) th₁ ht₁ (Thread.busy_ready.mpr hr₁)
    exact shielded_of_running ht' (hs.isRunning hr₁)

end World

/-! ### A host function that asks for its resumer's status -/

/-- Asks for the status of the main thread, and keeps the answer in mind. -/
def HostCode.asking : HostCode Unit (Option CoroutineStatus) where
  raw _ c := do
    let s ← Program.ask (.stack c (.status ⟨⟨0, 0⟩, 0⟩))
    Program.ask (.modifyMemory fun _ => s.toOption)
    return .done 0
  list _ _ _ := .pure (.done [])

namespace World

/-- An interpreter with frames above the base of its main thread, and with a coroutine that is to
run a host function. -/
def paired (above : List Frame) : World Unit (Option CoroutineStatus) where
  instances := #[{
    vm :=
      { freshVm 0 with
        heap :=
          { (freshVm 0).heap with
            closures := { items := #[some (.native .callRaw #[.userdata 0])] }
            userdata := { items := #[some ⟨.function false (some 0), 16, none⟩] } }
        threads := #[{ above }, .new #[.closure 0]] }
    chunkName := .empty }]
  functions := { items := #[some ⟨(.raw, ()), 1⟩] }
  memory := none
  subscriber _ m := m

/-- The coroutine of such an interpreter. -/
def paired.coroutine : ThreadHandle := ⟨⟨0, 1⟩, 1⟩

def paired.main : ThreadHandle := ⟨⟨0, 0⟩, 0⟩

/-- The moment at which the main thread has the coroutine go on. -/
def paired.turn (above : List Frame) : Moment Unit (Option CoroutineStatus) :=
  coroutine.turn ⟨0, 0⟩ [] (paired above)

/-- The host function asks at once. -/
theorem inside_asking {x : Moment Unit (Option CoroutineStatus)}
    (hc : x.context = ⟨0, 1⟩) (hn : x.next.host? = some (false, 0))
    (hf : (x.world.functions.get? 0).map Counted.object = some (.raw, ())) :
    Inside HostCode.asking x ⟨0, 1⟩ (.stack ⟨0, 1⟩ (.status paired.main))
      (x.world.retain (.function .raw 0)) := by
  obtain ⟨⟨object, strong⟩, hget, rfl⟩ := Option.map_eq_some_iff.mp hf
  have hx := Moment.eq_of_host hn
  rw [hc] at hx
  have hidle : (Op.stack ⟨0, 1⟩ (.status paired.main)).maker? (x.world.retain (.function .raw 0)) = none :=
    if_neg (by rw [show StackOp.makes _ _ _ = (_ && false) from rfl, Bool.and_false]; decide)
  refine ⟨false, 0, x.world, 0, ?_, .raw hget (.now (Op.turn_idle hidle _))⟩
  rw [← hx]
  exact .here

theorem resumer_shielded_frame :
    ∃ u, Inside HostCode.asking (paired.turn [{ level := .native #[] }]) ⟨0, 1⟩
        (.stack ⟨0, 1⟩ (.status paired.main)) u ∧
      Shielded ⟨0, 0⟩ u ∧ paired.main.status ⟨0, 1⟩ u = (.ok .normal, u) := by
  have hin : Inside HostCode.asking (paired.turn [{ level := .native #[] }]) ⟨0, 1⟩ _ _ :=
    inside_asking rfl (by decide +kernel) (by decide +kernel)
  have hgoes : paired.coroutine.Goes ⟨0, 0⟩ [] (paired [{ level := .native #[] }]) :=
    ⟨by decide +kernel, by decide +kernel, by decide, by decide +kernel, by decide +kernel⟩
  have hshield := (resumer_shielded HostCode.asking (T := ⟨0, 0⟩) rfl rfl hgoes).2 _ _ _ hin
    (unclosed_of_not_mem List.nil_suffix (by decide +kernel))
  exact ⟨_, hin, hshield, hshield.status paired.main rfl (by decide +kernel) ⟨0, 1⟩ (by decide)⟩

/-- A thread that resumes another one from its base is seen as if it could be resumed. -/
theorem resumer_misjudged :
    paired.coroutine.Goes ⟨0, 0⟩ [] (paired []) ∧
    ∃ u, Inside HostCode.asking (paired.turn []) ⟨0, 1⟩
        (.stack ⟨0, 1⟩ (.status paired.main)) u ∧
      .closed 0 ∉ u.history ∧ paired.main.isClosed u = false ∧
      (paired.main.status ⟨0, 1⟩ u).1 = .ok .dead := by
  refine ⟨⟨by decide +kernel, by decide +kernel, by decide, by decide +kernel, by decide +kernel⟩,
    _, inside_asking rfl (by decide +kernel) (by decide +kernel), ?_⟩
  decide +kernel

end World
end LuaEmbed
