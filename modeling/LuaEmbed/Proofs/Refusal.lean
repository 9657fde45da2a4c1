import LuaEmbed.Proofs.Calls
import LuaEmbed.Proofs.Turns

/-!
Resumes that do not take place. Whatever stands in the way of a resume, it fails before anything
runs, and every thread is left as it was. Where the bridge sees a thread as suspended, the
interpreter has one reason left to refuse, which is how deeply the resume is nested.
-/
namespace LuaEmbed

open Engine World

variable {σ μ α β : Type} {c co source : Context} {w w' w₁ w₂ : World σ μ} {d : Drive σ μ}
  {st : ThreadStatus} {s : Array Val}

namespace World

/-- Every thread is as it was, but for its room: the state that it is in, its frames, and the slots
that it shows. -/
def Unmoved (w w' : World σ μ) : Prop :=
  ∀ c th, w.thread? c = some th → ∃ th', w'.thread? c = some th' ∧ th.Rested False th'

theorem Unmoved.refl (w : World σ μ) : w.Unmoved w := fun _ th h => ⟨th, h, .refl _ th⟩

theorem Unmoved.trans (h : w.Unmoved w₁) (k : w₁.Unmoved w') : w.Unmoved w' := by
  intro c th ht
  obtain ⟨th₁, ht₁, hs₁⟩ := h c th ht
  obtain ⟨th', ht', hs'⟩ := k c th₁ ht₁
  exact ⟨th', ht', hs₁.trans hs'⟩

theorem unmoved_of_thread? (h : ∀ c, w'.thread? c = w.thread? c) : w.Unmoved w' :=
  fun c th ht => ⟨th, (h c).trans ht, .refl _ th⟩

theorem unmoved_touches (h : TouchesIn (fun _ => False) w w') : w.Unmoved w' :=
  fun _ _ ht => h.rested ht

theorem unmoved_noted (h : w.Noted w') : w.Unmoved w' := unmoved_of_thread? h.thread?

theorem stands_of_thread {th : Thread} (ht : w.thread? c = some th)
    (hn : th.top.isScript = false) : w.StandsAs th.status c th.top.slots := by
  refine ⟨?_, ?_⟩
  · unfold World.shown
    rw [ht, Option.bind_some]
    unfold Frame.isScript at hn
    unfold Frame.shown Frame.slots
    cases hl : th.top.level with
    | native s => rfl
    | script a => simp [hl] at hn
  · unfold status?
    rw [ht]
    rfl

/-- The thread that a stack belongs to. -/
theorem StandsAs.thread (h : w.StandsAs st c s) :
    ∃ th, w.thread? c = some th ∧ th.status = st ∧ th.top.isScript = false ∧ th.top.slots = s := by
  obtain ⟨th, ht, hs⟩ := Option.bind_eq_some_iff.mp h.shown
  have hstatus := h.state
  unfold status? at hstatus
  rw [ht] at hstatus
  refine ⟨th, ht, Option.some.inj hstatus, ?_, ?_⟩
  · unfold Frame.shown at hs
    unfold Frame.isScript
    cases hl : th.top.level with
    | native s => rfl
    | script a => simp [hl] at hs
  · rw [Frame.slots_eq_shown, hs]
    rfl

theorem Unmoved.stands (h : w.Unmoved w') (hs : w.StandsAs st c s) : w'.StandsAs st c s := by
  obtain ⟨th, ht, rfl, hn, rfl⟩ := hs.thread
  obtain ⟨th', ht', hr⟩ := h c th ht
  have hs' := stands_of_thread ht' (hr.script.trans hn)
  rwa [hr.status, hr.slots.resolve_left id] at hs'

/-- Work on one stack that leaves the slots there as they were. -/
theorem unmoved_restored (h : TouchesIn (· = c) w w')
    (hs : ∀ st s, w.StandsAs st c s → w'.shown c = some s) : w.Unmoved w' := by
  intro d th ht
  obtain ⟨th', ht', hr⟩ := h.rested ht
  refine ⟨th', ht', hr.toSameBelow, hr.waits, .inr ?_⟩
  rcases hr.slots with rfl | hslots
  · cases hn : th.top.isScript with
    | false =>
      have hshown := hs _ _ (stands_of_thread ht hn)
      rw [← slots_of_shown hshown]
      unfold World.slots
      rw [thread_of_some ht']
      rfl
    | true =>
      have hscript : ∀ f : Frame, f.isScript = true → f.slots = #[] := by
        intro f hf
        unfold Frame.isScript at hf
        unfold Frame.slots
        split at hf
        · cases hf
        next => simp
      rw [hscript _ hn, hscript _ (hr.script.trans hn)]
  · exact hslots

theorem StandsAs.taken {us : List Val} (h : w.StandsAs st c (s ++ us.toArray)) :
    (w.modifySlots c fun s => s.shrink (s.size - us.length)).StandsAs st c s := by
  have hcut := h.modifySlots fun s => s.shrink (s.size - us.length)
  have he : (s ++ us.toArray).shrink ((s ++ us.toArray).size - us.length) = s := by
    apply Array.ext'
    simp
  rwa [he] at hcut

/-- The world in which the arguments that a script hands over are on a thread's stack. -/
def offered (w : World σ μ) (co : Context) (args : List Val) : World σ μ :=
  (w.reserve co args.length).2.modifySlots co (· ++ args.toArray)

/-- Without room for the arguments, a script's attempt ends before the thread is touched. -/
theorem resumeFor_cramped (thread : Nat) {args : List Val}
    (h : (w.reserve ⟨c.vm, thread⟩ args.length).1 = false) (d : Drive σ μ) :
    resumeFor c thread args d w = some (.error (.text "too many arguments to resume"),
      (w.reserve ⟨c.vm, thread⟩ args.length).2) := by
  unfold World.resumeFor
  exact Run.bind_some.mpr ⟨false, _, congrArg some (ThreadHandle.pair_eq h), rfl⟩

/-- A script's attempt to resume a thread that the interpreter refuses is an error, and every thread
is as it was. -/
theorem resumeFor_refused (thread : Nat) {args : List Val} {why : Bytes}
    (hroom : (w.reserve ⟨c.vm, thread⟩ args.length).1 = true)
    (hwhy : ((w.offered ⟨c.vm, thread⟩ args).vm c.vm).refusal? thread args.length
      ((w.offered ⟨c.vm, thread⟩ args).thread c).top.depth = some why) :
    ∃ w', (∀ d, resumeFor c thread args d w = some (.error (.str why), w')) ∧ w.Unmoved w' := by
  let co : Context := ⟨c.vm, thread⟩
  have hres : w.reserve co args.length = (true, (w.reserve co args.length).2) :=
    ThreadHandle.pair_eq hroom
  refine ⟨(w.offered co args).modifySlots co fun s => s.shrink (s.size - args.length), fun d => ?_,
    unmoved_restored (c := co) ?_ fun st s hs => ?_⟩
  · unfold World.resumeFor
    exact Run.bind_some.mpr ⟨true, (w.reserve co args.length).2, congrArg some hres,
      Run.bind_some.mpr ⟨(), w.offered co args, rfl, Run.bind_some.mpr ⟨.failed (.str why), _,
        resumeWith_refused hwhy, rfl⟩⟩⟩
  · have hreserved : TouchesIn (· = co) w (w.reserve co args.length).2 := touches_reserve w co _
    have hoffered : TouchesIn (· = co) (w.reserve co args.length).2 (w.offered co args) :=
      touches_modifySlots _ co _ rfl
    exact hreserved.trans (hoffered.trans (touches_modifySlots _ co _ rfl))
  · have hs' : (w.offered co args).StandsAs st co (s ++ args.toArray) :=
      ((alike_reserve w co args.length).stands hs).modifySlots _
    exact hs'.taken.shown

end World

namespace World

/-- Taking values that have been put on a stack away again. -/
theorem StandsAs.cut {us : List Val} (h : w.StandsAs st c (s ++ us.toArray)) :
    (c.cut s.size w).2.StandsAs st c s := Context.stands_cut h

/-- A thread that does not go on is left with the stack that it had. -/
theorem goOn_refused (source co : Context) (args : List Value) (w : World σ μ)
    (hn : ¬ (args.length ≤ Word32.greatest ∧ (co.pushAll args w).1 = .ok () ∧
      ((co.pushAll args w).2.vm co.vm).refusal? co.thread args.length
        ((co.pushAll args w).2.thread source).top.depth = none)) :
    ∃ e w₂, (∀ d, goOn source co args d w = some (.error e, w₂)) ∧ TouchesIn (· = co) w w₂ ∧
      ∀ st s, w.StandsAs st co s → w₂.shown co = some s := by
  have hpush := co.quiet_pushAll (A := (· = co)) args rfl w
  have hpushed : ∀ st s, w.StandsAs st co s →
      PushedAll st co s args w (co.pushAll args w).1 (co.pushAll args w).2 :=
    fun st s hs => pushAll_cases hs rfl
  generalize hp : co.pushAll args w = p at hn hpush hpushed
  obtain ⟨r, w₁⟩ := p
  unfold goOn
  by_cases hlong : (Word32.greatest : Int) < args.length
  · refine ⟨.stackOverflow Word32.greatest, w, fun d => ?_, .refl, fun _ _ hs => hs.shown⟩
    rw [Act.api_ok_bind (rfl : co.top w = (.ok _, _)), if_pos hlong]
    rfl
  cases r with
  | error e =>
    refine ⟨e, (co.cut (w.depth co) w₁).2, fun d => ?_,
      hpush.trans (touches_modifySlots w₁ co _ rfl), fun st s hs => ?_⟩
    · rw [Act.api_ok_bind (rfl : co.top w = (.ok _, _)), if_neg hlong]
      dsimp only
      rw [Act.lift_bind, show Run.api (co.pushAll args) d w = _ from congrArg some hp,
        Option.bind_some]
      rfl
    · rw [hs.depth]
      cases hpushed st s hs with
      | refused _ us hs' => exact hs'.cut.shown
  | ok u =>
    obtain ⟨why, hwhy⟩ := Option.ne_none_iff_exists'.mp fun hnone =>
      hn ⟨Int.not_lt.mp hlong, rfl, hnone⟩
    let w₂ := w₁.modifySlots co fun s => s.shrink (s.size - args.length)
    refine ⟨.call ((w₂.push co (.str why)).popErrorText co).1,
      ((w₂.push co (.str why)).popErrorText co).2, fun d => ?_, ?_, fun st s hs => ?_⟩
    · rw [Act.api_ok_bind (rfl : co.top w = (.ok _, _)), if_neg hlong]
      dsimp only
      rw [Act.lift_bind, show Run.api (co.pushAll args) d w = _ from congrArg some hp,
        Option.bind_some]
      dsimp only
      rw [Act.lift_bind, resumeWith_refused hwhy, Option.bind_some]
      dsimp only
      rw [Act.lift_bind, Run.onWorld]
      generalize (w₂.push co (.str why)).popErrorText co = p
      rfl
    · have htaken : TouchesIn (· = co) w₁ w₂ := touches_modifySlots w₁ co _ rfl
      have hfailed : TouchesIn (· = co) w₂ (w₂.push co (.str why)) := touches_push w₂ co _ rfl
      exact hpush.trans (htaken.trans (hfailed.trans (touches_popErrorText _ co rfl)))
    · cases hpushed st s hs with
      | done us hs' _ hd =>
        rw [show w₂ = w₁.modifySlots co fun s => s.shrink (s.size - us.length) by
          rw [← hd.length_eq]]
        exact (Context.stands_popErrorText (hs'.taken.push _)).shown

end World

namespace ThreadHandle

variable {h : ThreadHandle} {args : List Value}

/-- What is done in a view, when no code runs meanwhile. -/
theorem withView_quiet {a : Context → Act σ μ α} {r : Except Error α} (hc : h.isClosed w = false)
    (ha : a h.thread d (w.addView ⟨h.thread, false⟩) = some (r, w₂))
    (ht : Touches (w.addView ⟨h.thread, false⟩) w₂) :
    h.withView a d w = some (r, w₂.removeView w.views.next ⟨h.thread, false⟩) := by
  rcases view_cases h false w with ⟨hclosed, -⟩ | ⟨x, hx, hopen, hview⟩
  · rw [hc] at hclosed
    cases hclosed
  unfold withView
  rw [Act.api_ok_bind hview, Act.lift_bind]
  dsimp only
  rw [ha, Option.bind_some, Act.lift_bind,
    World.dropView_of_owned ?_ ?_]
  · rfl
  · refine ((balanced_outside (σ := σ) (μ := μ)).touches ht _ _ rfl).mp ?_
    change (w.views.push _).get? _ = _
    rw [Pool.get?_push, if_pos rfl]
  · rw [ht.closed]
    change ((w.modifyInstance h.thread.vm fun x => { x with views := x.views + 1 }).instances[
      h.thread.vm]?).map (·.closed) = some false
    rw [instances_modifyInstance_self, hx]
    exact congrArg some hopen

/-- What a resume says about a thread that is not suspended. -/
theorem resume_of_seen {seen : CoroutineStatus} (ho : source.owns h w = (.ok true, w₁))
    (hs : (h.status source w₁).1 = .ok seen) (hne : seen ≠ .suspended) :
    h.resume source args d w = some (.error (.call
      (if seen = .dead then "cannot resume dead coroutine"
        else "cannot resume non-suspended coroutine")), w₁) := by
  have hstatus : h.status source w₁ = (.ok seen, w₁) := by rw [pair_eq hs, status_world]
  unfold ThreadHandle.resume
  rw [Act.api_ok_bind ho, if_neg (by simp)]
  dsimp only
  rw [Act.api_ok_bind hstatus]
  cases seen with
  | suspended => exact absurd rfl hne
  | _ => rfl

theorem status_ok (h : ThreadHandle) (c : Context) (w : World σ μ) :
    ∃ seen, (h.status c w).1 = .ok seen := by
  unfold ThreadHandle.status
  split
  · exact ⟨_, rfl⟩
  · split <;> exact ⟨_, rfl⟩

/-- In the world in which the arguments are pushed, every thread is as it was, and a view of this one
is open. -/
theorem entered_eq (ho : (source.owns h w).1 = .ok true) :
    h.isClosed (source.owns h w).2 = false ∧
      h.entered source w = (source.owns h w).2.addView ⟨h.thread, false⟩ := by
  have hopen : h.isClosed (source.owns h w).2 = false :=
    (isClosed_of_touches (source.quiet_owns h w) h).trans (isClosed_of_owns ho)
  refine ⟨hopen, ?_⟩
  unfold entered
  rcases view_cases h false (source.owns h w).2 with ⟨hc, -⟩ | ⟨-, -, -, hv⟩
  · rw [hopen] at hc
    cases hc
  · rw [hv]

/-- If anything stands in the way of a resume, it is an error and nothing runs: the answer is the
same however runs go, and every thread is as it was. -/
theorem resume_refused (hn : ¬ h.Goes source args w) :
    ∃ e w', (∀ d, h.resume source args d w = some (.error e, w')) ∧ w.Unmoved w' := by
  have hasked : w.Unmoved (source.owns h w).2 := unmoved_touches (source.quiet_owns h w)
  cases ho : (source.owns h w).1 with
  | error e => exact ⟨e, _, fun d => Act.api_error_bind (pair_eq ho) _, hasked⟩
  | ok own =>
  cases own with
  | false =>
    refine ⟨.unsupportedValue "cannot resume a coroutine of another VM instance", _, fun d => ?_,
      hasked⟩
    unfold ThreadHandle.resume
    rw [Act.api_ok_bind (pair_eq ho)]
    rfl
  | true =>
  obtain ⟨seen, hs⟩ := h.status_ok source (source.owns h w).2
  by_cases hsusp : seen = .suspended
  case neg => exact ⟨_, _, fun d => resume_of_seen (pair_eq ho) hs hsusp, hasked⟩
  subst hsusp
  obtain ⟨hopen, hentered⟩ := entered_eq ho
  obtain ⟨e, w₂, hgo, ht, hshown⟩ := goOn_refused source h.thread args (h.entered source w)
    fun ⟨hshort, hpushed, hgranted⟩ => hn ⟨ho, hs, hshort, hpushed, hgranted⟩
  rw [hentered] at hgo ht hshown
  refine ⟨e, w₂.removeView (source.owns h w).2.views.next ⟨h.thread, false⟩, fun d => ?_,
    hasked.trans ((unmoved_noted (noted_addView _ _)).trans
    ((unmoved_restored ht hshown).trans (unmoved_noted (noted_removeView _ _ _))))⟩
  unfold ThreadHandle.resume
  rw [Act.api_ok_bind (pair_eq ho), if_neg (by simp)]
  dsimp only
  rw [Act.api_ok_bind (show h.status source (source.owns h w).2 = _ by
    rw [pair_eq hs, status_world])]
  exact withView_quiet hopen (hgo d) ht.touches

/-- A thread that is seen as suspended has yielded, or it has no frame and something on its
stack. -/
theorem seen_suspended {th : Thread} (ht : w.thread? h.thread = some th)
    (hs : (h.status source w).1 = .ok .suspended) :
    th.status = .yielded ∨ th.status = .ready ∧ th.above = [] ∧ th.ground.count ≠ 0 := by
  obtain ⟨asking, hseen⟩ : ∃ asking,
      (w.vm h.thread.vm).statusSeen h.thread.thread asking = .suspended := by
    unfold ThreadHandle.status at hs
    split at hs
    · cases hs
    · split at hs
      · cases hs
      · exact ⟨_, Except.ok.inj hs⟩
  unfold Vm.statusSeen at hseen
  rw [show (w.vm h.thread.vm).thread h.thread.thread = th from thread_of_some ht] at hseen
  dsimp only at hseen
  by_cases hself : h.thread.thread = asking
  · rw [if_pos hself] at hseen
    cases hseen
  rw [if_neg hself] at hseen
  cases hst : th.status with
  | yielded => exact .inl rfl
  | failed e =>
    rw [hst] at hseen
    cases hseen
  | ready =>
    rw [hst] at hseen
    dsimp only at hseen
    by_cases hbase : th.above = []
    · refine .inr ⟨rfl, hbase, fun hcount => ?_⟩
      simp [hbase, hcount] at hseen
    · simp [hbase] at hseen

/-- Once the bridge has seen a thread as suspended and has pushed the arguments, the interpreter
refuses to resume it for one reason at most: that resumes are nested too deeply. -/
theorem refusal_of_suspended (ho : (source.owns h w).1 = .ok true)
    (hs : (h.status source (source.owns h w).2).1 = .ok .suspended)
    (hp : (Context.pushAll h.thread args (h.entered source w)).1 = .ok ())
    (hstands : w.StandsAs st h.thread s) :
    ((h.loaded source args w).vm h.thread.vm).refusal? h.thread.thread args.length
      ((h.loaded source args w).thread source).top.depth =
      if Vm.maxNesting ≤ ((h.loaded source args w).thread source).top.depth then
        some (Bytes.ofString "C stack overflow") else none := by
  have howned : w.Unmoved (source.owns h w).2 := unmoved_touches (source.quiet_owns h w)
  have hentered := (howned.stands hstands)
  obtain ⟨th, ht, rfl, hn, rfl⟩ := hentered.thread
  have he : (h.entered source w).thread? h.thread = some th := by
    rw [(entered_eq ho).2]
    exact ((noted_addView _ _).thread? _).trans ht
  obtain ⟨us, hloaded, hlength⟩ : ∃ us : List Val,
      (h.loaded source args w).StandsAs th.status h.thread (th.top.slots ++ us.toArray) ∧
        us.length = args.length := by
    cases pushAll_cases (stands_of_thread he hn) (pair_eq hp) with
    | done us hs' _ hd => exact ⟨us, hs', hd.length_eq.symm⟩
  obtain ⟨th', ht', hbelow⟩ :=
    TouchesIn.sameBelow (Context.quiet_pushAll h.thread args trivial (h.entered source w)) he
  generalize ((h.loaded source args w).thread source).top.depth = depth
  unfold Vm.refusal?
  rw [show ((h.loaded source args w).vm h.thread.vm).thread h.thread.thread = th' from
    thread_of_some ht']
  dsimp only
  rw [hbelow.status]
  rcases seen_suspended ht hs with hy | ⟨hr, habove, hcount⟩
  · rw [hy]
  · have hbase : ∀ u : Thread, u.frames.tail = [] → u.above = [] ∧ u.top = u.ground := by
      rintro ⟨above, ground, status, size⟩ hu
      cases above with
      | nil => exact ⟨rfl, rfl⟩
      | cons f rest => simp [Thread.frames] at hu
    have htail : th.frames.tail = [] := by
      unfold Thread.frames
      rw [habove]
      rfl
    obtain ⟨habove', htop'⟩ := hbase th' (hbelow.below.trans htail)
    have hfew : ¬ th'.ground.count ≤ args.length := by
      have hdepth := hloaded.depth
      unfold World.depth Thread.depth at hdepth
      rw [show (h.loaded source args w).thread h.thread = th' from thread_of_some ht', htop'] at hdepth
      have hshown := (stands_of_thread ht hn).depth
      unfold World.depth Thread.depth at hshown
      rw [show (source.owns h w).2.thread h.thread = th from thread_of_some ht,
        (hbase th htail).2] at hshown
      rw [(hbase th htail).2] at hdepth
      rw [hdepth, Array.size_append, ← hshown, List.size_toArray, hlength]
      omega
    rw [hr]
    simp [habove', hfew]

end ThreadHandle
end LuaEmbed
