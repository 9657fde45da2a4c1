import LuaEmbed.Proofs.Lifecycle

/-!
Every run of a host program is a path of events in the lives of the interpreters, whatever its
functions do and however they nest, and each resume gives back the view that it opened.
-/
namespace LuaEmbed

open Engine History

namespace World

variable {σ μ α β : Type} {w w' : World σ μ} {d : Drive σ μ}

theorem move_modifyInstance (w : World σ μ) (i : Nat) {f : Instance → Instance}
    (hf : ∀ x, (f x).ledger = x.ledger) : Move w (w.modifyInstance i f) := by
  refine .inside (fun j => ?_) rfl rfl
  unfold ledger
  rw [instances_modifyInstance]
  split
  · simp [Option.map_map, Function.comp_def, hf]
  · rfl

theorem path_outside : Outside (Path (σ := σ) (μ := μ)) where
  refl _ := .refl
  trans h k := h.trans k
  touch {w w'} h := by
    cases h with
    | host _ hi hv hh => exact .single (.inside (fun j => by rw [ledger, hi, ledger]) hv hh)
    | handle h =>
      obtain ⟨⟨i, f, hi⟩, hv, hh⟩ := h.records
      have hmove := move_modifyInstance w i (f := fun x => { x with references := f x }) fun _ => rfl
      exact .tail (.single hmove) (.inside (fun j => by rw [ledger, hi, ledger]) hv hh)
    | _ => exact .single (move_modifyInstance _ _ fun _ => rfl)
  vm w i _ := .single (move_modifyInstance w i fun _ => rfl)

theorem noted_addView (w : World σ μ) (o : Opening) : w.Noted (w.addView o) := by
  have hbooks := noted_modifyInstance w o.stack.vm
    (f := fun x => { x with views := x.views + 1 }) fun _ => rfl
  exact hbooks.trans (noted_happened rfl rfl rfl rfl nofun)

theorem noted_removeView (w : World σ μ) (n : Nat) (o : Opening) :
    w.Noted (w.removeView n o) := by
  have hdropped : w.Noted ({ w with views := w.views.erase n }.happened (.dropped ⟨o.stack, n⟩)) :=
    noted_happened rfl rfl rfl rfl nofun
  exact hdropped.trans (noted_modifyInstance _ o.stack.vm fun _ => rfl)

/-- A view is either refused, because the owner of its interpreter is gone, or opened. -/
theorem view_cases (h : ThreadHandle) (held : Bool) (w : World σ μ) :
    (h.isClosed w = true ∧
      h.view held w = (.error (.unsupportedValue "thread outlived its VM"), w)) ∨
    ∃ x, w.instances[h.thread.vm]? = some x ∧ x.closed = false ∧
      h.view held w = (.ok ⟨h.thread, w.views.next⟩, w.addView ⟨h.thread, held⟩) := by
  unfold ThreadHandle.view
  by_cases hc : h.isClosed w = true
  · rw [if_pos hc]
    exact .inl ⟨hc, rfl⟩
  · rw [if_neg hc]
    unfold ThreadHandle.isClosed World.instance? at hc
    cases hx : w.instances[h.thread.vm]? with
    | none => simp [hx] at hc
    | some x => exact .inr ⟨x, rfl, by simpa [hx] using hc, rfl⟩

theorem path_view (h : ThreadHandle) (held : Bool) (w : World σ μ) : Path w (h.view held w).2 := by
  rcases view_cases h held w with ⟨-, he⟩ | ⟨x, hx, hc, he⟩
  · rw [he]
  · rw [he]
    exact .single (.opened w ⟨h.thread, held⟩ x hx hc)

theorem path_releaseView (hd : d.Keeps Path) {i : Nat} {a : Unit}
    (h : releaseView i d w = some (a, w')) :
    Path ((w.modifyInstance i fun x => { x with views := x.views - 1 }).settle i) w' := by
  unfold releaseView at h
  obtain ⟨_, w₁, h₁, h⟩ := Run.bind_some.mp h
  obtain ⟨-, rfl⟩ := Prod.mk.inj (Option.some.inj h₁)
  obtain ⟨_, w₂, h₂, h⟩ := Run.bind_some.mp h
  obtain ⟨rfl, rfl⟩ := Prod.mk.inj (Option.some.inj h₂)
  dsimp only at h
  generalize w.modifyInstance i (fun x => { x with views := x.views - 1 }) = u at h ⊢
  unfold World.instance? at h
  unfold settle
  cases hx : u.instances[i]? with
  | none =>
    simp only [hx] at h
    obtain ⟨-, rfl⟩ := Prod.mk.inj (Option.some.inj h)
    exact .refl
  | some x =>
    simp only [hx] at h
    dsimp only
    by_cases hdue : x.closed = true ∧ x.views = 0
    · rw [if_pos hdue]
      rw [if_pos hdue.symm] at h
      exact path_outside.shutDown hd h
    · rw [if_neg hdue]
      rw [if_neg fun h => hdue h.symm] at h
      obtain ⟨-, rfl⟩ := Prod.mk.inj (Option.some.inj h)
      exact .refl

theorem path_dropView (hd : d.Keeps Path) (v : View) (held : Bool) :
    (dropView v held).Keeps Path d := by
  intro w a w' h
  unfold dropView at h
  obtain ⟨_, w₁, h₁, h⟩ := Run.bind_some.mp h
  obtain ⟨rfl, rfl⟩ := Prod.mk.inj (Option.some.inj h₁)
  cases ho : w.views.get? v.number with
  | none =>
    simp only [ho] at h
    obtain ⟨-, rfl⟩ := Prod.mk.inj (Option.some.inj h)
    exact .refl
  | some o =>
    simp only [ho] at h
    split at h
    next hv =>
      subst hv
      obtain ⟨_, w₂, h₂, h⟩ := Run.bind_some.mp h
      obtain ⟨-, rfl⟩ := Prod.mk.inj (Option.some.inj h₂)
      exact .head (.dropped w v.number _ ho) (path_releaseView hd h)
    · obtain ⟨-, rfl⟩ := Prod.mk.inj (Option.some.inj h)
      exact .refl

theorem path_dropOwner (hd : d.Keeps Path) (i : Nat) : (dropOwner i).Keeps Path d := by
  intro w a w' h
  unfold dropOwner at h
  obtain ⟨_, w₁, h₁, h⟩ := Run.bind_some.mp h
  obtain ⟨rfl, rfl⟩ := Prod.mk.inj (Option.some.inj h₁)
  unfold World.instance? at h
  cases hx : w.instances[i]? with
  | none =>
    simp only [hx] at h
    obtain ⟨-, rfl⟩ := Prod.mk.inj (Option.some.inj h)
    exact .refl
  | some x =>
    simp only [hx] at h
    split at h
    case isTrue =>
      obtain ⟨-, rfl⟩ := Prod.mk.inj (Option.some.inj h)
      exact .refl
    next hc =>
    obtain ⟨_, w₁, h₁, h⟩ := Run.bind_some.mp h
    obtain ⟨-, rfl⟩ := Prod.mk.inj (Option.some.inj h₁)
    refine .head (.disowned w i x hx (by simpa using hc)) ?_
    have hy : (w.disown i).instances[i]? = some { x with closed := true } := by
      simp [World.disown, happened, hx]
    unfold settle
    rw [hy]
    dsimp only
    split at h
    next hv =>
      rw [if_pos ⟨rfl, hv⟩]
      exact path_outside.shutDown hd h
    next hv =>
      rw [if_neg fun h => hv h.2]
      obtain ⟨-, rfl⟩ := Prod.mk.inj (Option.some.inj h)
      exact path_outside.touches (touches_notify _ _)

theorem path_keeping (hd : d.Keeps Path) : Keeping Path d where
  toStable := path_outside.toStable
  invoke := path_outside.invoke hd
  resumeWith := path_outside.resumeWith hd
  finalize := path_outside.finalize hd
  pause c := hd c _
  birth w vm name := .single (.born w vm name)
  dropOwner := path_dropOwner hd
  view h w := path_view h true w
  dropView n := path_dropView hd n true
  withView h _ a ha := path_outside.toStable.withView path_view (path_dropView hd) h a ha

/-- Whatever runs, for however long, is a path. -/
theorem path_drive (code : HostCode σ μ) (fuel : Nat) : (World.drive code fuel).Keeps Path :=
  path_outside.drive (fun _ => path_keeping) code fuel

/-! ### The views that resumes open -/

/-- The views that the host does not hold are the same. -/
def Balanced (w w' : World σ μ) : Prop :=
  ∀ (n : Nat) (o : Opening), o.held = false → (w.views.get? n = some o ↔ w'.views.get? n = some o)

theorem balanced_of_views (h : w'.views = w.views) : Balanced w w' := by
  intro n o _
  rw [h]

theorem balanced_outside : Outside (Balanced (σ := σ) (μ := μ)) where
  refl _ := balanced_of_views rfl
  trans h k n o ho := (h n o ho).trans (k n o ho)
  touch h := balanced_of_views <| by
    cases h with
    | handle h => exact h.records.2.1
    | host _ _ hv => exact hv
    | _ => rfl
  vm _ _ _ := balanced_of_views rfl

theorem balanced_shutDown (hd : d.Keeps Balanced) (i : Nat) : (shutDown i).Keeps Balanced d := by
  intro w a w' h
  have hi : Balanced w (w.happened (.closed i)) := balanced_of_views rfl
  exact balanced_outside.trans hi (balanced_outside.shutDown hd h)

theorem balanced_releaseView (hd : d.Keeps Balanced) (i : Nat) :
    (releaseView i).Keeps Balanced d := by
  unfold releaseView
  refine balanced_outside.bind (Run.keeps_update fun _ => balanced_of_views rfl) fun _ =>
    balanced_outside.bind balanced_outside.get fun w => ?_
  split
  · exact .ite (balanced_shutDown hd i) (balanced_outside.pure ())
  · exact balanced_outside.pure ()

theorem balanced_dropOwner (hd : d.Keeps Balanced) (i : Nat) : (dropOwner i).Keeps Balanced d := by
  unfold dropOwner
  refine balanced_outside.bind balanced_outside.get fun w => ?_
  split
  · exact balanced_outside.pure ()
  · exact .ite (balanced_outside.pure ())
      (balanced_outside.bind (Run.keeps_update fun _ => balanced_of_views rfl) fun _ =>
      .ite (balanced_shutDown hd i) (balanced_outside.toStable.update fun w => touches_notify w _))

theorem balanced_dropView (hd : d.Keeps Balanced) (v : View) :
    (dropView v true).Keeps Balanced d := by
  intro w a w' h
  unfold dropView at h
  obtain ⟨_, w₁, h₁, h⟩ := Run.bind_some.mp h
  obtain ⟨rfl, rfl⟩ := Prod.mk.inj (Option.some.inj h₁)
  cases ho : w.views.get? v.number with
  | none =>
    simp only [ho] at h
    obtain ⟨-, rfl⟩ := Prod.mk.inj (Option.some.inj h)
    exact balanced_outside.refl w
  | some o =>
    simp only [ho] at h
    split at h
    next hheld =>
      subst hheld
      obtain ⟨_, w₂, h₂, h⟩ := Run.bind_some.mp h
      obtain ⟨-, rfl⟩ := Prod.mk.inj (Option.some.inj h₂)
      refine balanced_outside.trans (fun m p hp => ?_) (balanced_releaseView hd _ _ _ _ h)
      dsimp only [happened]
      rw [Pool.get?_erase]
      split
      next hm =>
        subst hm
        rw [ho]
        simp only [Option.some.injEq, reduceCtorEq, iff_false]
        rintro rfl
        cases hp
      next => rfl
    next =>
      obtain ⟨-, rfl⟩ := Prod.mk.inj (Option.some.inj h)
      exact balanced_outside.refl w

theorem balanced_view (h : ThreadHandle) (w : World σ μ) : Balanced w (h.view true w).2 := by
  rcases view_cases h true w with ⟨-, he⟩ | ⟨x, -, -, he⟩
  · rw [he]
    exact balanced_outside.refl w
  · rw [he]
    intro n o ho
    have hg : (w.addView ⟨h.thread, true⟩).views = w.views.push ⟨h.thread, true⟩ := rfl
    rw [hg, Pool.get?_push]
    split
    next hn =>
      rw [hn, Pool.get?_next]
      simp only [reduceCtorEq, Option.some.injEq, false_iff]
      rintro rfl
      cases ho
    next => rfl

theorem balanced_withView (hd : d.Keeps Balanced) (h : ThreadHandle) (a : Context → Act σ μ α)
    (ha : ∀ c, Act.Keeps Balanced d (a c)) : Act.Keeps Balanced d (h.withView a) := by
  intro w r w' hw
  unfold ThreadHandle.withView at hw
  rcases view_cases h false w with ⟨-, he⟩ | ⟨x, -, -, he⟩
  · rcases Act.bind_some.mp hw with ⟨v, w₁, hv, -⟩ | ⟨e, hv, -⟩
    · simp [Act.api_some, he] at hv
    · obtain ⟨-, rfl⟩ : _ ∧ w = w' := by simpa [Act.api_some, he] using hv
      exact balanced_outside.refl w
  rcases Act.bind_some.mp hw with ⟨v, w₁, hv, hrun⟩ | ⟨e, hv, -⟩
  case inr => simp [Act.api_some, he] at hv
  obtain ⟨rfl, rfl⟩ : _ = v ∧ _ = w₁ := by simpa [Act.api_some, he] using hv
  obtain ⟨s, w₂, hs, hrun⟩ := Act.lift_bind_some.mp hrun
  obtain ⟨_, w₃, hdrop, hrun⟩ := Act.lift_bind_some.mp hrun
  obtain ⟨-, rfl⟩ := Prod.mk.inj (Option.some.inj hrun)
  have hbal := ha _ _ _ _ hs
  have hviews : (w.addView ⟨h.thread, false⟩).views = w.views.push ⟨h.thread, false⟩ := rfl
  have hopen : w₂.views.get? w.views.next = some ⟨h.thread, false⟩ := by
    rw [← hbal _ _ rfl, hviews, Pool.get?_push, if_pos rfl]
  unfold dropView at hdrop
  obtain ⟨_, w₄, h₄, hdrop⟩ := Run.bind_some.mp hdrop
  obtain ⟨rfl, rfl⟩ := Prod.mk.inj (Option.some.inj h₄)
  simp only [hopen, if_true] at hdrop
  obtain ⟨_, w₅, h₅, hdrop⟩ := Run.bind_some.mp hdrop
  obtain ⟨-, rfl⟩ := Prod.mk.inj (Option.some.inj h₅)
  refine balanced_outside.trans (fun m o ho => ?_) (balanced_releaseView hd _ _ _ _ hdrop)
  dsimp only [happened]
  rw [Pool.get?_erase]
  split
  next hm => rw [← hm, Pool.get?_next]
  next hm => rw [← hbal m o ho, hviews, Pool.get?_push, if_neg (Ne.symm hm)]

theorem balanced_keeping (hd : d.Keeps Balanced) : Keeping Balanced d where
  toStable := balanced_outside.toStable
  invoke := balanced_outside.invoke hd
  resumeWith := balanced_outside.resumeWith hd
  finalize := balanced_outside.finalize hd
  pause c := hd c _
  birth _ _ _ := balanced_of_views rfl
  dropOwner := balanced_dropOwner hd
  view := balanced_view
  dropView := balanced_dropView hd
  withView h _ a ha := balanced_withView hd h a ha

theorem balanced_drive (code : HostCode σ μ) (fuel : Nat) :
    (World.drive code fuel).Keeps Balanced :=
  balanced_outside.drive (fun _ => balanced_keeping) code fuel

/-! ### Handles that have outlived their interpreter's owner -/

/-- What a handle to a thread of an interpreter can still be used for is decided without it. -/
structure Sealed (w : World σ μ) (i : Nat) : Prop where
  view : ∀ (h : ThreadHandle) held, h.thread.vm = i →
    h.view held w = (.error (.unsupportedValue "thread outlived its VM"), w)
  status : ∀ (h : ThreadHandle) c, h.thread.vm = i → h.status c w = (.ok .dead, w)
  owns : ∀ (h : ThreadHandle) (c : Context), h.thread.vm = i → c.owns h w = (.ok false, w)
  resume : ∀ (h : ThreadHandle) source args (d : Drive σ μ), h.thread.vm = i →
    h.resume source args d w
      = some (.error (.unsupportedValue "cannot resume a coroutine of another VM instance"), w)
  clone : ∀ h : ThreadHandle, (w.retain (.thread h)).instances = w.instances
  drop : ∀ h : ThreadHandle, (w.release (.thread h)).instances[i]? = w.instances[i]?

theorem sealed_of_closed {i : Nat} {x : Instance} (hx : w.instances[i]? = some x)
    (hc : x.closed = true) : w.Sealed i := by
  have hclosed : ∀ h : ThreadHandle, h.thread.vm = i → h.isClosed w = true := by
    rintro h rfl
    simp [ThreadHandle.isClosed, World.instance?, hx, hc]
  have howns : ∀ (h : ThreadHandle) (c : Context), h.thread.vm = i →
      c.owns h w = (.ok false, w) := by
    rintro h c rfl
    unfold Context.owns
    rw [Api.get_bind, World.instance?, hx]
    dsimp only
    rw [if_pos hc]
    rfl
  refine ⟨fun h held hi => ?_, fun h c hi => ?_, howns, fun h source args d hi => ?_, fun h => rfl,
    fun h => ?_⟩
  · unfold ThreadHandle.view
    rw [if_pos (hclosed h hi)]
  · unfold ThreadHandle.status
    rw [if_pos (hclosed h hi)]
  · unfold ThreadHandle.resume
    exact Act.bind_some.mpr (.inl ⟨false, w, Act.api_some.mpr (by simp [howns h source hi]), rfl⟩)
  · unfold World.release releaseAnchor
    dsimp only
    split
    · split
      · rfl
      next a _ =>
        split
        · rw [instances_modifyInstance]
          split
          next hi =>
            subst hi
            simp [hx, hc]
          next => rfl
        · rfl
    · rfl

/-- Wherever a run of a host program leads, and at every moment on the way, every interpreter counts
the views of it that are open. Resumes leave none open. An interpreter has been closed once or not
at all, and at the very moment when it had lost its owner and its last view; and from the moment it
lost its owner, no handle to one of its threads reaches it. -/
theorem run_orderly (code : HostCode σ μ) (fuel : Nat) (p : Program σ μ α) (m : μ)
    (f : Notice → μ → μ) (due : Nat → Vm → Bool) {a : α} {w : World σ μ}
    (h : p.run code fuel (start m f due) = some (a, w)) :
    Path (start m f due) w ∧
    (∀ u : World σ μ, Path (start m f due) u →
      ∀ i x, u.instances[i]? = some x → x.views = (liveOf u.history i).length) ∧
    (∀ v, v ∈ live w.history ↔ w.views.get? v.number = some ⟨v.stack, true⟩) ∧
    Orderly w.history ∧
    (∀ i, w.history.count (.closed i) ≤ 1) ∧
    (∀ i, .closed i ∈ w.history ↔ .disowned i ∈ w.history ∧ liveOf w.history i = []) ∧
    ∀ i, .disowned i ∈ w.history → w.Sealed i := by
  have hpath := (path_keeping (path_drive code fuel)).traversal.program p _ _ _ h
  have hbal := (balanced_keeping (balanced_drive code fuel)).traversal.program p _ _ _ h
  have hacc := (accounted_start m f due).path hpath
  refine ⟨hpath, fun u hu => ((accounted_start m f due).path hu).views, fun v => ?_, hacc.orderly,
    hacc.orderly.closed_once, fun i => ?_, fun i hi => ?_⟩
  · rw [hacc.opened]
    constructor
    · rintro ⟨held, hv⟩
      cases held with
      | true => exact hv
      | false =>
        have hnone := (hbal _ _ rfl).mpr hv
        simp [start, Pool.get?] at hnone
    · exact fun hv => ⟨true, hv⟩
  · refine ⟨hacc.orderly.of_closed, fun hdue => ?_⟩
    by_contra hc
    exact hacc.settled i ⟨hdue.1, hdue.2, hc⟩
  · obtain ⟨x, hx⟩ := hacc.made i hi
    exact sealed_of_closed hx ((hacc.closed i x hx).mpr hi)

/-- Opens a view of a main stack and drops it when the owner of its interpreter is gone. -/
def lateView : Program Unit Unit Unit := do
  discard (Program.ask (.newInstance { openStdLibs := false }))
  match ← Program.ask (.stack ⟨0, 0⟩ .currentThread) with
  | .error _ => return
  | .ok h =>
    match ← Program.ask (.view h) with
    | .error _ => return
    | .ok v =>
      Program.ask (.dropOwner 0)
      Program.ask (.dropView v)

/-- No host function does anything. -/
def HostCode.silent : HostCode Unit Unit where
  raw _ _ := .pure (.done 0)
  list _ _ _ := .pure (.done [])

theorem run_orderly_lateView :
    ∃ w, lateView.run HostCode.silent 5 (start () (fun _ m => m) fun _ _ => true) = some ((), w) ∧
      w.history = [.closed 0, .dropped ⟨⟨0, 0⟩, 0⟩, .disowned 0, .opened ⟨⟨0, 0⟩, 0⟩] ∧
      Orderly w.history ∧ w.Sealed 0 := by
  have h : (lateView.run HostCode.silent 5 (start () (fun _ m => m) fun _ _ => true)).map (·.2.history)
      = some [.closed 0, .dropped ⟨⟨0, 0⟩, 0⟩, .disowned 0, .opened ⟨⟨0, 0⟩, 0⟩] := by
    decide +kernel
  obtain ⟨⟨a, w⟩, hw, hh⟩ := Option.map_eq_some_iff.mp h
  have ho := run_orderly HostCode.silent 5 lateView () (fun _ m => m) (fun _ _ => true) hw
  have hgone : .disowned 0 ∈ w.history := by
    rw [show w.history = _ from hh]
    simp
  exact ⟨w, hw, hh, ho.2.2.2.1, ho.2.2.2.2.2.2 0 hgone⟩

end World
end LuaEmbed
