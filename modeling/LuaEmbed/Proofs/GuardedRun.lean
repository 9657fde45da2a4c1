import LuaEmbed.Proofs.Footprint

/-!
The run of a call that the host makes, and the run of a coroutine's body. The frame that the call was
made from waits behind a guard, the frames above it belong to the call, and those below it are not
touched; when the run exits, the frame is on top again and nothing else of it has changed. A
coroutine's body runs above its base frame in the same way, and may also yield.
-/
namespace LuaEmbed.Engine

/-- What a frame can wait for while a frame above it runs, within a call. -/
def Await.isInner : Await → Bool
  | .body _ | .caught .. | .push _ | .method _ | .test _ | .drop | .returning | .handler _ => true
  | .closing _ (some _) (.caught ..) => true
  | _ => false

/-- What the frame that a call was made from can wait for, or the base frame of a coroutine. -/
def Await.isGuard (co : Bool) : Await → Bool
  | .guarded | .closing _ _ .guarded => !co
  | .started => co
  | _ => false

/-- Whether values that arrive go to a script. -/
def Await.feedsScript : Await → Bool
  | .push _ | .method _ | .test _ | .drop => true
  | _ => false

theorem Await.inner_of_feedsScript {a : Await} (h : a.feedsScript = true) : a.isInner = true := by
  cases a <;> first | rfl | cases h

/-- A frame of a call that waits for the frame above it; only that of a coroutine may yield. -/
structure Frame.Waiting (co : Bool) (f : Frame) : Prop where
  await : f.await.isInner = true
  canYield : f.canYield = true → co = true
  script : f.await.feedsScript = true → f.isScript = true

theorem Frame.waiting {co : Bool} {f : Frame} (ha : f.await.isInner = true)
    (hc : f.canYield = true → co = true) (hs : f.await.feedsScript = false) : f.Waiting co :=
  ⟨ha, hc, fun h => by rw [hs] at h; cases h⟩

/-- Frames of which the topmost wait, down to the one that a call was made from. Below that of a
coroutine there is none. -/
inductive Hanging (co : Bool) (g : Frame) (lower : List Frame) : List Frame → Prop where
  | ground (a : Await) (h : a.isGuard co = true) (hl : co = true → lower = []) :
    Hanging co g lower ({ g with await := a } :: lower)
  | upon {f : Frame} {fs : List Frame} (h : f.Waiting co) (hs : Hanging co g lower fs) :
    Hanging co g lower (f :: fs)

namespace Thread

variable (co : Bool) (st : ThreadStatus) (g : Frame) (lower : List Frame)

/-- All frames of the call wait. -/
structure Suspended (th : Thread) : Prop where
  status : th.status = st
  frames : Hanging co g lower th.frames

/-- The frame on top works for the call; the others wait. -/
structure Active (th : Thread) : Prop where
  status : th.status = st
  await : th.top.await = .idle
  canYield : th.top.canYield = true → co = true
  frames : Hanging co g lower th.frames.tail

/-- How the run of a call leaves a thread: the frame that it was made from is on top again. A
coroutine may also stop at a native function that yields, or fail for good. -/
def Left (th : Thread) : Exit → Prop
  | .returned _ => th.status = st ∧ th.frames = { g with await := .idle } :: lower
  | .raised status _ =>
    if co then th.status = .failed status ∧ th.top.isScript = false
    else th.status = st ∧ th.frames = { g with await := .idle } :: lower
  | .yielded vs => co = true ∧ th.status = .yielded ∧ th.top.level = .native vs.toArray ∧
      th.top.await = .yielded ∧ Hanging co g lower th.frames.tail

/-- A thread in the run of a call, at a moment. -/
def InRun (th : Thread) : Next → Prop
  | .go .run | .need .turn => Active co st g lower th ∧ th.top.isScript = true
  | .need .pause => False
  | .go (.act _) | .need _ => Active co st g lower th
  | .go (.results _) => Suspended co st g lower th
  | .go (.raise ..) => Suspended co st g lower th ∨ Active co st g lower th
  | .exit e => Left co st g lower th e

variable {co st g lower}

theorem frames_popFrame {th : Thread} (h : th.frames.tail ≠ []) :
    th.popFrame.frames = th.frames.tail := by
  obtain ⟨above, ground, status, size⟩ := th
  cases above with
  | nil => exact absurd rfl h
  | cons f rest => rfl

theorem frames_setAwait (th : Thread) (a : Await) :
    (th.setAwait a).frames = { th.top with await := a } :: th.frames.tail := frames_modifyTop th _

theorem status_setAwait (th : Thread) (a : Await) : (th.setAwait a).status = th.status :=
  status_modifyTop th _

end Thread

theorem Hanging.ne_nil {co : Bool} {g : Frame} {lower fs : List Frame} (h : Hanging co g lower fs) : fs ≠ [] := by
  cases h <;> exact List.cons_ne_nil _ _

/-- A coroutine that has not been started has no frame but its ground. -/
theorem Hanging.of_started {co : Bool} {g f : Frame} {lower fs : List Frame}
    (h : Hanging co g lower (f :: fs)) (hf : f.await = .started) : co = true ∧ fs = [] := by
  generalize hfs : f :: fs = frames at h
  cases h with
  | ground a ha hl =>
    obtain ⟨rfl, rfl⟩ := List.cons.inj hfs
    obtain rfl : a = .started := hf
    exact ⟨ha, hl ha⟩
  | upon hw =>
    obtain ⟨rfl, -⟩ := List.cons.inj hfs
    have ha := hw.await
    rw [hf] at ha
    cases ha

namespace Thread

variable {co : Bool} {st : ThreadStatus} {g : Frame} {lower : List Frame} {th : Thread}

/-- On top is the frame that the call was made from, or one of the call's own. -/
theorem hanging_cases (h : Hanging co g lower th.frames) :
    (th.top.await.isGuard co = true ∧ (co = true → lower = []) ∧
      th.frames = { g with await := th.top.await } :: lower) ∨
    (th.top.Waiting co ∧ Hanging co g lower th.frames.tail) := by
  rw [frames_eq] at h
  generalize hf : th.top :: th.frames.tail = frames at h
  cases h with
  | ground a ha hl =>
    obtain ⟨htop, htail⟩ := List.cons.inj hf
    have hta : th.top.await = a := by rw [htop]
    refine .inl ⟨hta ▸ ha, hl, ?_⟩
    rw [frames_eq, htail, hta]
    exact congrArg (· :: lower) htop
  | upon hw hs =>
    obtain ⟨rfl, rfl⟩ := List.cons.inj hf
    exact .inr ⟨hw, hs⟩

theorem Active.sameBelow (h : th.Active co st g lower) {th' : Thread} (hs : th.SameBelow th') :
    th'.Active co st g lower where
  status := hs.status.trans h.status
  await := by
    rcases hs.await with ha | ha
    · exact ha.trans h.await
    · exact ha
  canYield := by
    rw [hs.canYield]
    exact h.canYield
  frames := by
    rw [hs.below]
    exact h.frames

theorem InRun.active {d : Demand} (h : th.InRun co st g lower (.need d)) : th.Active co st g lower := by
  cases d with
  | turn => exact h.1
  | pause => exact h.elim
  | _ => exact h

theorem Active.busy (h : th.Active co st g lower) : th.Busy st := ⟨h.status, fun _ => h.frames.ne_nil⟩

/-- The frame on top goes away. -/
theorem Active.popFrame (h : th.Active co st g lower) : th.popFrame.Suspended co st g lower where
  status := h.status
  frames := by
    rw [frames_popFrame h.frames.ne_nil]
    exact h.frames

/-- The frame on top waits for something from now on. -/
theorem suspended_modifyTop (hs : th.status = st) (hf : Hanging co g lower th.frames.tail)
    {f : Frame → Frame} (hw : (f th.top).Waiting co) : (th.modifyTop f).Suspended co st g lower where
  status := by rw [status_modifyTop, hs]
  frames := by
    rw [frames_modifyTop]
    exact .upon hw hf

theorem Active.modifyTop (h : th.Active co st g lower) {f : Frame → Frame}
    (ha : (f th.top).await = th.top.await) (hc : (f th.top).canYield = th.top.canYield) :
    (th.modifyTop f).Active co st g lower where
  status := by rw [status_modifyTop, h.status]
  await := by rw [top_modifyTop, ha, h.await]
  canYield := by
    rw [top_modifyTop, hc]
    exact h.canYield
  frames := by
    rw [frames_modifyTop]
    exact h.frames

theorem Suspended.pushFrame (h : th.Suspended co st g lower) {f : Frame} (ha : f.await = .idle)
    (hc : f.canYield = true → co = true) : (th.pushFrame f).Active co st g lower :=
  ⟨h.status, ha, hc, h.frames⟩

/-- What the frame on top was waiting for has arrived. -/
theorem active_modifyTop (hs : th.status = st) (hc : th.top.canYield = true → co = true)
    (hf : Hanging co g lower th.frames.tail) {f : Frame → Frame} (ha : (f th.top).await = .idle)
    (hc' : (f th.top).canYield = th.top.canYield) : (th.modifyTop f).Active co st g lower where
  status := by rw [status_modifyTop, hs]
  await := by rw [top_modifyTop, ha]
  canYield := by
    rw [top_modifyTop, hc']
    exact hc
  frames := by
    rw [frames_modifyTop]
    exact hf

/-- A call begins behind a guard. -/
theorem suspended_guarded (hs : th.status = st) :
    (th.setAwait .guarded).Suspended false st th.top th.frames.tail where
  status := (th.status_setAwait _).trans hs
  frames := by
    rw [frames_setAwait]
    exact .ground _ rfl nofun

/-- A call comes back to the frame that it was made from. -/
theorem InRun.back {e : Exit} (h : th.InRun false st g lower (.exit e)) :
    th.status = st ∧ th.frames = { g with await := .idle } :: lower := by
  cases e with
  | returned vs => exact h
  | raised status v => exact h
  | yielded vs => exact absurd h.1 Bool.false_ne_true

theorem InRun.top_eq {e : Exit} (h : th.InRun false st g lower (.exit e)) :
    th.top = { g with await := .idle } ∧ th.frames.tail = lower :=
  List.cons.inj (th.frames_eq.symm.trans h.back.2)

theorem InRun.sameBelow {th' : Thread} {e : Exit} (hs : th.status = st)
    (h : th'.InRun false st th.top th.frames.tail (.exit e)) (hr : RoomFor th.frames th th') :
    th.SameBelow th' := by
  obtain ⟨htop, htail⟩ := h.top_eq
  refine ⟨h.back.1.trans hs.symm, htail, ?_, ?_, ?_, ?_, .inr ?_, ?_⟩
  · rw [htop]
    rfl
  · rw [htop]
  · rw [htop]
  · rw [htop]
  · rw [htop]
  · rintro n ⟨f, hf, hn⟩
    exact hr n ⟨f, List.mem_of_mem_tail hf, hn⟩

/-- What the frames below have reserved is reserved. -/
theorem hanging_reserved {fs : List Frame} {n : Nat} (h : Hanging co g lower fs)
    (hr : Reserved (g :: lower) n) : Reserved fs n := by
  induction h with
  | ground a =>
    obtain ⟨f, hf, hn⟩ := hr
    rcases List.mem_cons.mp hf with rfl | hf
    · exact ⟨_, List.mem_cons_self .., hn⟩
    · exact ⟨f, List.mem_cons_of_mem _ hf, hn⟩
  | upon _ _ ih =>
    obtain ⟨f, hf, hn⟩ := ih
    exact ⟨f, List.mem_cons_of_mem _ hf, hn⟩

theorem Active.reserved {n : Nat} (h : th.Active co st g lower) (hr : Reserved (g :: lower) n) :
    Reserved th.frames.tail n := hanging_reserved h.frames hr

theorem InRun.reserved {next : Next} {n : Nat} (h : th.InRun false st g lower next)
    (hr : Reserved (g :: lower) n) : Reserved th.frames n := by
  have hactive : th.Active false st g lower → Reserved th.frames n := fun ha => by
    obtain ⟨f, hf, hn⟩ := ha.reserved hr
    exact ⟨f, List.mem_of_mem_tail hf, hn⟩
  have hsuspended : th.Suspended false st g lower → Reserved th.frames n := fun hs =>
    hanging_reserved hs.frames hr
  cases next with
  | go s =>
    cases s with
    | run => exact hactive h.1
    | act => exact hactive h
    | results => exact hsuspended h
    | raise => exact h.elim hsuspended hactive
  | need => exact hactive h.active
  | exit e =>
    obtain ⟨f, hf, hn⟩ := hr
    rw [h.back.2]
    rcases List.mem_cons.mp hf with rfl | hf
    · exact ⟨_, List.mem_cons_self .., hn⟩
    · exact ⟨f, List.mem_cons_of_mem _ hf, hn⟩

theorem Suspended.size (h : th.Suspended co st g lower) (n : Nat) :
    ({ th with size := n } : Thread).Suspended co st g lower := ⟨h.status, h.frames⟩

end Thread

namespace Vm

variable {co : Bool} {t : Nat} {st : ThreadStatus} {g : Frame} {lower : List Frame} {vm : Vm}
  {th : Thread}

/-- The thread in the run of a call, after a step. -/
def InRun (co : Bool) (t : Nat) (st : ThreadStatus) (g : Frame) (lower : List Frame)
    (r : Vm × Next) : Prop :=
  ∃ th, r.1.thread? t = some th ∧ th.InRun co st g lower r.2

theorem thread_of_some (h : vm.thread? t = some th) : vm.thread t = th := by
  rw [thread_eq, h]
  rfl

theorem thread?_modify (h : vm.thread? t = some th) (f : Thread → Thread) :
    (vm.modifyThread t f).thread? t = some (f th) := by
  rw [thread?_modifyThread_self, h]
  rfl

theorem makeRoom_cases (h : vm.thread? t = some th) (used need : Nat) :
    ∃ n, (vm.makeRoom t used need).1.thread? t = some { th with size := n } ∧
      ((vm.makeRoom t used need).2 = none ∨
        ∃ status v b, (vm.makeRoom t used need).2 = some (.raise status v b)) := by
  unfold makeRoom
  dsimp only
  split
  · split
    · exact ⟨th.size, h, .inr ⟨_, _, _, rfl⟩⟩
    · exact ⟨_, thread?_modify h _, .inl rfl⟩
  · split
    · exact ⟨th.size, h, .inr ⟨_, _, _, rfl⟩⟩
    · exact ⟨_, thread?_modify h _, .inr ⟨_, _, _, rfl⟩⟩

theorem enterScript_inRun (h : vm.thread? t = some th) (hs : th.Suspended co st g lower)
    {frame : Frame} (ha : frame.await = .idle) (hc : frame.canYield = true → co = true) (f : Val) (p : Proto)
    (cells : Array Nat) (args : List Val) :
    InRun co t st g lower (vm.enterScript t f p cells args frame) := by
  unfold enterScript
  dsimp only
  generalize hb : (if p.isVararg = true then _ else _) = base
  obtain ⟨n, hth, hm⟩ := makeRoom_cases h (frame.base + args.length) (base - frame.base + p.room)
  cases hr : vm.makeRoom t (frame.base + args.length) (base - frame.base + p.room) with
  | mk vm₁ e =>
    simp only [hr] at hth hm
    rcases hm with rfl | ⟨status, v, b, rfl⟩
    · exact ⟨_, thread?_modify hth _, (hs.size n).pushFrame ha hc, rfl⟩
    · exact ⟨_, hth, .inl (hs.size n)⟩

theorem enterNative_inRun (h : vm.thread? t = some th) (hs : th.Suspended co st g lower)
    {frame : Frame} (ha : frame.await = .idle) (hc : frame.canYield = true → co = true) (f : Val) (b : Builtin)
    (up : Array Val) (args : List Val) :
    InRun co t st g lower (vm.enterNative t f b up args frame) := by
  unfold enterNative
  dsimp only
  obtain ⟨n, hth, hm⟩ := makeRoom_cases h (frame.base + args.length) Thread.minRoom
  cases hr : vm.makeRoom t (frame.base + args.length) Thread.minRoom with
  | mk vm₁ e =>
    simp only [hr] at hth hm
    rcases hm with rfl | ⟨status, v, b', rfl⟩
    · have hp := (hs.size n).pushFrame (f := { frame with
        level := .native args.toArray, fn := f
        limit := frame.base + args.length + Thread.minRoom }) ha hc
      dsimp only
      split <;> exact ⟨_, thread?_modify hth _, hp⟩
    · exact ⟨_, hth, .inl (hs.size n)⟩

theorem enter_inRun (h : vm.thread? t = some th) (hs : th.Suspended co st g lower) {m : Manner}
    (hm : (th.top.canYield && m.canYield) = true → co = true) (f : Val) (args : List Val) :
    InRun co t st g lower (vm.enter t f args m) := by
  unfold enter
  dsimp only
  rw [thread_of_some h]
  generalize (if m.nests = true then _ else _) = depth
  split
  · exact ⟨th, h, .inl hs⟩
  · split
    · exact ⟨th, h, .inl hs⟩
    · split
      · exact ⟨th, h, .inl hs⟩
      · split
        · exact enterNative_inRun h hs rfl hm _ _ _ _
        · split
          · exact enterScript_inRun h hs rfl hm _ _ _ _
          · exact enterNative_inRun h hs rfl hm _ _ _ _
          · exact ⟨th, h, hs⟩
        · exact ⟨th, h, hs⟩

theorem onHeap_inRun (h : vm.thread? t = some th) (ha : th.Active co st g lower)
    (f : Heap → Heap × Action) : InRun co t st g lower (vm.onHeap f) := ⟨th, h, ha⟩

/-! ### Closing variables and unwinding -/

/-- What is closed for the guard ends the run. -/
theorem closeOrDeliver_guard (h : vm.thread? t = some th) (hs : th.status = st)
    {a : Await} (hf : th.frames = { g with await := a } :: lower) (rest : List Val)
    (error : Option (ErrorStatus × Val)) :
    InRun false t st g lower (vm.closeOrDeliver t rest error .guarded) := by
  obtain ⟨htop, htail⟩ := List.cons.inj (th.frames_eq.symm.trans hf)
  have hframes : ∀ b, (th.setAwait b).frames = { g with await := b } :: lower := by
    intro b
    rw [Thread.frames_setAwait, htop, htail]
  unfold closeOrDeliver
  cases rest with
  | cons v rest =>
    refine enter_inRun (thread?_modify h _) ⟨(th.status_setAwait _).trans hs, ?_⟩ (by simp) _ _
    rw [hframes]
    exact .ground _ rfl nofun
  | nil =>
    have hth := thread?_modify h fun th => (th.setAwait .idle).shrink
    have hstatus : (th.setAwait .idle).shrink.status = st := by
      rw [(Thread.rested_shrink _ True).status, Thread.status_setAwait, hs]
    have hexit : (th.setAwait .idle).shrink.frames = { g with await := .idle } :: lower := by
      rw [Thread.frames_shrink, hframes]
    cases error with
    | none => exact ⟨_, hth, hstatus, hexit⟩
    | some e => exact ⟨_, hth, hstatus, hexit⟩

/-- What is closed for a protected call within the run is followed by the call's continuation. -/
theorem closeOrDeliver_caught (h : vm.thread? t = some th) (hs : th.status = st)
    (hc : th.top.canYield = true → co = true) (hf : Hanging co g lower th.frames.tail)
    (rest : List Val)
    (error : ErrorStatus × Val) (handler : Option Val)
    (k : Except Val (List Val) → Heap → Heap × Action) :
    InRun co t st g lower (vm.closeOrDeliver t rest (some error) (.caught handler k)) := by
  unfold closeOrDeliver
  cases rest with
  | cons v rest =>
    exact enter_inRun (thread?_modify h _)
      (Thread.suspended_modifyTop hs hf (Frame.waiting rfl hc rfl))
      (by simp) _ _
  | nil =>
    have hact := Thread.active_modifyTop hs hc hf (f := ({ · with await := .idle })) rfl rfl
    exact onHeap_inRun (thread?_modify h fun th => (th.setAwait .idle).shrink)
      (hact.sameBelow (Thread.rested_shrink _ True).toSameBelow) _

theorem handlerOf_guard {a : Await} (h : a.isGuard co = true) : (handlerOf a).isSome = true := by
  cases a with
  | guarded | started => rfl
  | closing rest error back =>
    cases back with
    | guarded => rfl
    | _ => cases h
  | _ => cases h

/-- Unwinding stops at the guard at the latest. -/
theorem unwind_hanging {ground : Frame} (h : Heap) {fs : List Frame} (hf : Hanging co g lower fs) :
    ∀ {above : List Frame} (acc : List Val), above ++ [ground] = fs →
      ∃ f fs', (unwind h above acc).1 ++ [ground] = f :: fs' ∧ Hanging co g lower (f :: fs') ∧
        (handlerOf f.await).isSome = true := by
  induction hf with
  | ground a ha hl =>
    intro above acc he
    refine ⟨_, lower, ?_, .ground a ha hl, handlerOf_guard ha⟩
    cases above with
    | nil => exact he
    | cons f rest =>
      obtain ⟨rfl, hl⟩ := List.cons.inj he
      rw [unwind, if_pos (handlerOf_guard ha)]
      exact he
  | @upon f fs hw hs ih =>
    intro above acc he
    cases above with
    | nil => exact absurd (List.cons.inj he).2.symm hs.ne_nil
    | cons f rest =>
      obtain ⟨rfl, hl⟩ := List.cons.inj he
      unfold unwind
      split
      next hh => exact ⟨f, fs, he, .upon hw hs, hh⟩
      next => exact ih _ hl

/-- Errors within the run reach what is closed for the guard, or for a protected call. -/
theorem deliverError_inRun (h : vm.thread? t = some th) (hs : th.Suspended co st g lower)
    (hh : (handlerOf th.top.await).isSome = true) (hstart : th.top.await ≠ .started)
    (closers : List Val) (status : ErrorStatus) (v : Val) :
    InRun co t st g lower (match th.top.await with
      | .closing rest _ back => vm.closeOrDeliver t (closers ++ rest) (some (status, v)) back
      | back => vm.closeOrDeliver t closers (some (status, v)) back) := by
  rcases Thread.hanging_cases hs.frames with ⟨ha, -, hf⟩ | ⟨hw, hf⟩
  · generalize th.top.await = a at ha hf hstart
    cases a with
    | started => exact absurd rfl hstart
    | guarded =>
      obtain rfl : co = false := by simpa [Await.isGuard] using ha
      exact closeOrDeliver_guard h hs.status hf _ _
    | closing rest e back =>
      cases back with
      | guarded =>
        obtain rfl : co = false := by simpa [Await.isGuard] using ha
        exact closeOrDeliver_guard h hs.status hf _ _
      | _ => cases ha
    | _ => cases ha
  · have ha := hw.await
    generalize th.top.await = a at ha hh
    cases a with
    | caught handler k => exact closeOrDeliver_caught h hs.status hw.canYield hf _ _ _ _
    | closing rest e back =>
      cases e with
      | none => cases ha
      | some e =>
        cases back with
        | caught handler k => exact closeOrDeliver_caught h hs.status hw.canYield hf _ _ _ _
        | _ => cases ha
    | guarded | started | idle | yielded => cases ha
    | _ => cases hh

theorem failed_left (h : Heap) (status : ErrorStatus) (v : Val) (th : Thread) :
    (failed h status v th).status = .failed status ∧ (failed h status v th).top.isScript = false := by
  unfold failed
  refine ⟨Thread.status_modifyTop _ _, ?_⟩
  rw [Thread.top_modifyTop]
  split <;> rfl

theorem settle_inRun (h : vm.thread? t = some th)
    (hf : th.Suspended co st g lower ∨ th.Active co st g lower) (status : ErrorStatus) (v : Val) :
    InRun co t st g lower (vm.settle t status v) := by
  have hs : th.status = st := by
    rcases hf with hf | hf
    · exact hf.status
    · exact hf.status
  obtain ⟨f, fs, hu, hh, hsome⟩ : ∃ f fs,
      (unwind vm.heap th.above []).1 ++ [th.ground] = f :: fs ∧ Hanging co g lower (f :: fs) ∧
        (handlerOf f.await).isSome = true := by
    rcases hf with hf | hf
    · exact unwind_hanging vm.heap hf.frames [] rfl
    · obtain ⟨above, ground, status, size⟩ := th
      cases above with
      | nil => exact absurd rfl hf.frames.ne_nil
      | cons f rest =>
        have hidle : f.await = .idle := hf.await
        rw [unwind, hidle, if_neg (by simp [handlerOf])]
        exact unwind_hanging vm.heap hf.frames _ rfl
  unfold settle
  dsimp only
  rw [thread_of_some h]
  split
  next habove hstarted =>
    rw [habove] at hu
    obtain ⟨rfl, -⟩ := List.cons.inj hu
    obtain ⟨rfl, -⟩ := hh.of_started hstarted
    refine ⟨_, thread?_modify h _, ?_⟩
    exact failed_left vm.heap status v th
  next hno =>
    generalize (unwind vm.heap th.above []).1 = above at hu hno
    have hth := thread?_modify h ({ · with above })
    have htop : ({ th with above } : Thread).top = f := by
      have he := Thread.frames_eq { th with above }
      exact (List.cons.inj (he.symm.trans hu)).1
    have hstart : f.await ≠ .started := by
      intro hstarted
      obtain ⟨-, rfl⟩ := hh.of_started hstarted
      cases above with
      | nil =>
        obtain ⟨hg, -⟩ := List.cons.inj hu
        exact hno rfl (by rw [hg]; exact hstarted)
      | cons f' rest => exact absurd (List.cons.inj hu).2 (by simp)
    rw [thread_of_some hth]
    exact deliverError_inRun hth ⟨hs, show Hanging co g lower (above ++ [th.ground]) from hu ▸ hh⟩
      (htop ▸ hsome) (htop ▸ hstart) _ _ _

/-- A script goes on with what it was waiting for. -/
theorem continue_inRun (h : vm.thread? t = some th) (hs : th.status = st)
    (hw : th.top.Waiting co) (hf : Hanging co g lower th.frames.tail) (hscript : th.top.isScript = true)
    (f : Activation → Activation) : InRun co t st g lower (vm.continue_ t f) := by
  unfold continue_
  refine ⟨_, thread?_modify h _, Thread.active_modifyTop hs hw.canYield hf ?_ ?_, ?_⟩
  · split <;> rfl
  · split <;> rfl
  · rw [Thread.top_modifyTop]
    unfold Frame.isScript at hscript ⊢
    cases hl : th.top.level with
    | native s => simp [hl] at hscript
    | script a => rfl

theorem deliver_inRun (h : vm.thread? t = some th) (hs : th.Suspended co st g lower) (vs : List Val) :
    InRun co t st g lower (vm.deliver t vs) := by
  unfold deliver
  dsimp only
  rw [thread_of_some h]
  rcases Thread.hanging_cases hs.frames with ⟨ha, -, hf⟩ | ⟨hw, hf⟩
  · obtain ⟨htop, htail⟩ := List.cons.inj (th.frames_eq.symm.trans hf)
    generalize th.top.await = a at ha hf htop
    cases a with
    | guarded | started =>
      refine ⟨_, thread?_modify h _, (th.status_setAwait _).trans hs.status, ?_⟩
      rw [Thread.frames_setAwait, htop, htail]
    | closing rest e back =>
      cases back with
      | guarded =>
        obtain rfl : co = false := by simpa [Await.isGuard] using ha
        exact closeOrDeliver_guard h hs.status hf _ _
      | _ => cases ha
    | _ => cases ha
  · have ha := hw.await
    have hscript := hw.script
    have hidle : (th.setAwait .idle).Active co st g lower :=
      Thread.active_modifyTop hs.status hw.canYield hf rfl rfl
    generalize th.top.await = a at ha hscript
    cases a with
    | body k => exact onHeap_inRun (thread?_modify h _) hidle _
    | caught handler k => exact onHeap_inRun (thread?_modify h _) hidle _
    | push | method | test | drop => exact continue_inRun h hs.status hw hf (hscript rfl) _
    | returning =>
      refine ⟨_, thread?_modify h _, hs.status, ?_⟩
      rw [Thread.frames_popFrame hf.ne_nil]
      exact hf
    | handler status => exact ⟨th, h, .inl hs⟩
    | closing rest e back =>
      cases e with
      | none => cases ha
      | some e =>
        cases back with
        | caught handler k => exact closeOrDeliver_caught h hs.status hw.canYield hf _ _ _ _
        | _ => cases ha
    | guarded | started | idle | yielded => cases ha

theorem raise_inRun (h : vm.thread? t = some th)
    (hf : th.Suspended co st g lower ∨ th.Active co st g lower) (status : ErrorStatus) (v : Val) (handled : Bool) :
    InRun co t st g lower (vm.raise t status v handled) := by
  have hs : th.status = st := by
    rcases hf with hf | hf
    · exact hf.status
    · exact hf.status
  unfold raise
  dsimp only
  rw [thread_of_some h]
  split
  · exact settle_inRun h hf status v
  · split
    · exact settle_inRun h hf status v
    · refine enter_inRun (thread?_modify h _) ?_ (by simp) _ _
      split
      next hnone =>
        have hinner : (th.top.canYield = true → co = true) ∧ Hanging co g lower th.frames.tail := by
          rcases hf with hf | hf
          · rcases Thread.hanging_cases hf.frames with ⟨ha, -⟩ | ⟨hw, hrest⟩
            · have hsome := handlerOf_guard ha
              rw [Option.isNone_iff_eq_none.mp (Bool.and_eq_true_iff.mp hnone).1] at hsome
              cases hsome
            · exact ⟨hw.canYield, hrest⟩
          · exact ⟨hf.canYield, hf.frames⟩
        exact Thread.suspended_modifyTop hs hinner.2 (Frame.waiting rfl hinner.1 rfl)
      next hsome =>
        rcases hf with hf | hf
        · exact ⟨hs, .upon (Frame.waiting rfl nofun rfl) hf.frames⟩
        · rw [hf.await] at hsome
          exact absurd rfl hsome

theorem act_inRun (h : vm.thread? t = some th) (hf : th.Active co st g lower) (a : Action) :
    InRun co t st g lower (vm.act t a) := by
  cases a with
  | ret vs => exact ⟨_, thread?_modify h _, hf.popFrame⟩
  | raise | raiseMemory | fail | badArgument => exact ⟨th, h, .inr hf⟩
  | call f args keep canYield k =>
    exact enter_inRun (thread?_modify h _)
      (Thread.suspended_modifyTop hf.status hf.frames (Frame.waiting rfl hf.canYield rfl))
      (by
        rw [Thread.top_modifyTop, Bool.and_eq_true]
        exact fun hc => hf.canYield hc.1) _ _
  | protect f args handler k =>
    exact enter_inRun (thread?_modify h _)
      (Thread.suspended_modifyTop hf.status hf.frames (Frame.waiting rfl hf.canYield rfl))
      (by
        rw [Thread.setAwait, Thread.top_modifyTop, Bool.and_eq_true]
        exact fun hc => hf.canYield hc.1) _ _
  | yield vs =>
    unfold act
    dsimp only
    rw [thread_of_some h]
    split
    next hc =>
      refine ⟨_, thread?_modify h _, hf.canYield hc, rfl, ?_⟩
      have hframes := Thread.frames_modifyTop th fun f =>
        { f with level := .native vs.toArray, await := .yielded }
      have htop := Thread.top_modifyTop th fun f =>
        { f with level := .native vs.toArray, await := .yielded }
      refine ⟨congrArg Frame.level htop, congrArg Frame.await htop, ?_⟩
      change Hanging co g lower (th.modifyTop _).frames.tail
      rw [hframes]
      exact hf.frames
    next => exact ⟨th, h, .inr hf⟩
  | resume other args k => exact ⟨_, thread?_modify h _, hf.modifyTop rfl rfl⟩
  | close other onlyFailed k => exact ⟨_, thread?_modify h _, hf.modifyTop rfl rfl⟩
  | status | situation | position => exact onHeap_inRun h hf _
  | newThread f k => exact onHeap_inRun (thread?_spawn h _) hf _
  | collect k => exact ⟨th, h, hf⟩
  | release p k => exact ⟨th, h, hf⟩

end Vm

/-! ### Scripts -/

/-- A script that stops to call something waits for its results. -/
def Stop.Waits : Stop → Prop
  | .invoke _ _ _ _ await => await.feedsScript = true
  | _ => True

def Stepped.Waits : Stepped → Prop
  | .off _ _ s => s.Waits
  | .on .. => True

theorem Stepped.Waits.made {s : Stepped} (h : s.Waits) : s.made.Waits := by
  cases s with
  | on => exact trivial
  | off => exact h

namespace Activation

variable (h : Heap) (a : Activation)

theorem settle_waits (o : Outcome Val) (n : Nat) (origins : List (Option Origin)) (event : String) :
    (a.settle h o n origins event).Waits := by
  cases o with
  | invoke => exact rfl
  | _ => exact trivial

theorem settleStore_waits (o : Outcome Heap) (origins : List (Option Origin)) :
    (a.settleStore h o origins).Waits := by
  cases o with
  | invoke => exact rfl
  | _ => exact trivial

theorem closeNext_waits (height : Nat) (s : Stepped) (hs : s.Waits) :
    ((a.closeNext? h height).getD s).Waits := by
  unfold closeNext?
  split
  · split
    · exact rfl
    · exact hs
  · exact hs

end Activation

theorem Instr.step_waits (i : Instr) (a : Activation) (h : Heap) : (i.step a h).Waits := by
  cases i with
  | index o => exact a.settle_waits h _ _ _ _
  | setIndex pos o => exact a.settleStore_waits h _ _
  | arith op l r => exact a.settle_waits h _ _ _ _
  | unary op o => exact a.settle_waits h _ _ _ _
  | length o => exact a.settle_waits h _ _ _ _
  | call pos want callee => exact rfl
  | forCall pos vars => exact rfl
  | ret pos => exact a.closeNext_waits h _ _ trivial
  | scope height => exact a.closeNext_waits h _ _ trivial
  | concat l r =>
    unfold step
    dsimp only
    split
    · exact trivial
    · exact (a.settle_waits h _ _ _ _).made
  | _ =>
    unfold step
    dsimp only
    repeat' split
    all_goals first | exact trivial | exact rfl

theorem Activation.run_waits (n : Nat) (a : Activation) (h : Heap) : (a.run n h).2.2.Waits := by
  induction n generalizing a h with
  | zero => exact trivial
  | succ n ih =>
    unfold run
    split
    · exact trivial
    next i _ =>
      have hw := i.step_waits { a with pc := a.pc + 1 } h
      split
      · exact ih _ _
      next hs =>
        rw [hs] at hw
        exact hw

namespace Vm

variable {co : Bool} {t : Nat} {st : ThreadStatus} {g : Frame} {lower : List Frame} {vm : Vm}
  {th : Thread}

theorem thread?_set (h : vm.thread? t = some th) (th' : Thread) :
    (vm.setThread t th').thread? t = some th' := by
  rw [thread?_setThread, if_pos rfl, h]
  rfl

theorem runScript_inRun (h : vm.thread? t = some th) (hf : th.Active co st g lower)
    (hs : th.top.isScript = true) : InRun co t st g lower (vm.runScript t) := by
  obtain ⟨above, ground, status, size⟩ := th
  cases above with
  | nil => exact absurd rfl hf.frames.ne_nil
  | cons f rest =>
  obtain ⟨level, aw, fn, name, base, limit, depth, cy⟩ := f
  cases level with
  | native s => cases hs
  | script a =>
  obtain rfl : aw = .idle := hf.await
  have hcy : cy = true → co = true := hf.canYield
  obtain rfl : status = st := hf.status
  have hrest : Hanging co g lower (rest ++ [ground]) := hf.frames
  unfold runScript take
  rw [thread_of_some h]
  dsimp only
  have hw := a.run_waits slice (vm.setThread t default).heap
  generalize a.run slice (vm.setThread t default).heap = r at hw
  obtain ⟨a', heap, stop⟩ := r
  dsimp only at hw ⊢
  have htaken : (⟨heap, (vm.setThread t default).threads⟩ : Vm).thread? t = some default :=
    thread?_set h default
  have hput : ∀ th', (Vm.setThread ⟨heap, (vm.setThread t default).threads⟩ t th').thread? t =
      some th' := thread?_set htaken
  cases stop with
  | pause => exact ⟨_, hput _, ⟨rfl, rfl, hcy, hrest⟩, rfl⟩
  | ret vs => exact ⟨_, hput _, rfl, hrest⟩
  | fault m => exact ⟨_, hput _, .inr ⟨rfl, rfl, hcy, hrest⟩⟩
  | memory => exact ⟨_, hput _, .inr ⟨rfl, rfl, hcy, hrest⟩⟩
  | invoke f args name' isMeta await =>
    have hframe : Hanging co g lower (⟨.script a', await, fn, name, base, limit, depth, cy⟩ ::
        (rest ++ [ground])) := .upon ⟨Await.inner_of_feedsScript hw, hcy, fun _ => rfl⟩ hrest
    exact enter_inRun (hput _) ⟨rfl, hframe⟩ (by
      rw [Bool.and_eq_true]
      exact fun hc => hcy hc.1) _ _
  | tail f args name' =>
    have hreturn : ∀ m : Manner, InRun co t status g lower
        ((Vm.setThread ⟨heap, (vm.setThread t default).threads⟩ t
          ⟨⟨.script a', .returning, fn, name, base, limit, depth, cy⟩ :: rest,
            ground, status, size⟩).enter
            t f args m) := fun m =>
      enter_inRun (hput _) ⟨rfl, .upon (Frame.waiting rfl hcy rfl) hrest⟩
        (by
          rw [Bool.and_eq_true]
          exact fun hc => hcy hc.1) _ _
    dsimp only
    split
    · split
      · exact enterScript_inRun (hput _) ⟨rfl, hrest⟩ rfl hcy _ _ _ _
      · exact hreturn _
    · exact hreturn _

/-- One step of a thread in the run of a call. -/
theorem step_inRun {s : Signal} (h : vm.thread? t = some th) (hf : th.InRun co st g lower (.go s)) :
    InRun co t st g lower (vm.step t s) := by
  cases s with
  | run => exact runScript_inRun h hf.1 hf.2
  | act a => exact act_inRun h hf a
  | results vs => exact deliver_inRun h hf vs
  | raise status v handled => exact raise_inRun h hf status v handled

/-- A step of a call leaves room for what has been reserved below. -/
theorem step_roomFor {s : Signal} {th' : Thread} (h : vm.thread? t = some th)
    (h' : (vm.step t s).1.thread? t = some th') (hr : th'.InRun false st g lower (vm.step t s).2) :
    Thread.RoomFor (g :: lower) th th' := by
  obtain ⟨th₁, ht₁, hsize⟩ := resizes_step vm t s th h
  obtain rfl := Option.some.inj (ht₁.symm.trans h')
  exact fun n hn => hsize.roomFor n (hr.reserved hn)

end Vm
end LuaEmbed.Engine
