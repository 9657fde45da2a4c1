import LuaEmbed.Machine.Collector
import LuaEmbed.Proofs.GuardedRun
import LuaEmbed.Proofs.TameLibrary

/-!
The machine leaves alone what userdata carry, as long as the native functions that wait on its threads
do. The one thing that empties a userdata is a collector of the bridge, and it says at once what has to be
let go of for that.
-/
namespace LuaEmbed.Engine

/-- Whatever a frame waits for, userdata are left alone when it arrives. -/
def Await.Tame : Await → Prop
  | .body k => Resumes k
  | .caught _ k => Resumes k
  | .closing _ _ back => back.Tame
  | _ => True

theorem Await.tame_of_feedsScript {a : Await} (h : a.feedsScript = true) : a.Tame := by
  cases a <;> trivial

/-- All frames of a thread wait for such things. -/
def Thread.Tame (th : Thread) : Prop := ∀ f ∈ th.frames, f.await.Tame

/-- All threads of an interpreter are such threads. -/
def Vm.Tame (vm : Vm) : Prop := ∀ t th, vm.thread? t = some th → th.Tame

/-- What happens next on a thread leaves userdata alone, however it is answered. -/
def Next.Tame (h : Heap) : Next → Prop
  | .go (.act (.release _ k)) => ∀ g, Goes g (k g)
  | .go (.act a) => a.Tame h
  | .need (.resume _ _ k) => Resumes k
  | .need (.close _ _ k) => Resumes k
  | .need (.collect k) => h.collecting = false ∧ ∀ g, Goes g (k g)
  | .need (.release _ k) => ∀ g, Goes g (k g)
  | _ => True

/-- What has been taken out of a userdata and is still to be let go of. -/
def Next.debt : Next → Option Payload
  | .go (.act (.release p _)) => some p
  | .need (.release p _) => some p
  | _ => none

/-- The userdata carry what they did, but for one that has been emptied of what is still to be let go
of. -/
def Next.Owes (next : Next) (h h' : Heap) : Prop :=
  match next.debt with
  | none => h.Carries h'
  | some p => ∃ n, h.Empties n p h'

/-- From these objects on, an interpreter has come to such threads and goes on in such a way. -/
structure Vm.Leads (h : Heap) (r : Vm × Next) : Prop where
  threads : r.1.Tame
  next : r.2.Tame r.1.heap
  heap : r.2.Owes h r.1.heap

namespace Thread

variable {th : Thread}

theorem tame_modifyTop (h : th.Tame) {f : Frame → Frame} (hf : (f th.top).await.Tame) :
    (th.modifyTop f).Tame := by
  intro g hg
  rw [frames_modifyTop] at hg
  rcases List.mem_cons.mp hg with rfl | hg
  · exact hf
  · exact h g (List.mem_of_mem_tail hg)

theorem tame_top (h : th.Tame) : th.top.await.Tame := h _ (by rw [frames_eq]; exact List.mem_cons_self ..)

theorem tame_setAwait (h : th.Tame) {a : Await} (ha : a.Tame) : (th.setAwait a).Tame :=
  tame_modifyTop h ha

theorem tame_popFrame (h : th.Tame) : th.popFrame.Tame := by
  intro f hf
  refine h f ?_
  rcases List.mem_append.mp hf with hf | hf
  · exact List.mem_append_left _ (List.mem_of_mem_tail hf)
  · exact List.mem_append_right _ hf

theorem tame_pushFrame (h : th.Tame) {f : Frame} (hf : f.await.Tame) : (th.pushFrame f).Tame :=
  List.forall_mem_cons.mpr ⟨hf, h⟩

theorem tame_shrink (h : th.Tame) : th.shrink.Tame := by
  unfold Tame
  rwa [frames_shrink]

/-- A thread without a call in progress. -/
theorem tame_ground {g : Frame} {status : ThreadStatus} {size : Nat} (hg : g.await.Tame) :
    ({ ground := g, status, size } : Thread).Tame := by
  rintro f hf
  rwa [List.mem_singleton.mp hf]

theorem tame_default : (default : Thread).Tame := tame_ground trivial

end Thread

namespace Vm

variable {vm : Vm} {t : Nat} {h : Heap}

theorem tame_of_threads {vm' : Vm} (hvm : vm.Tame) (ht : vm'.threads = vm.threads) : vm'.Tame := by
  intro u th hu
  refine hvm u th ?_
  rwa [thread?, ht] at hu

theorem Tame.thread (hvm : vm.Tame) (t : Nat) : (vm.thread t).Tame := by
  rw [thread_eq]
  cases ht : vm.thread? t with
  | none => exact Thread.tame_default
  | some th => exact hvm t th ht

theorem Tame.modifyThread (hvm : vm.Tame) {f : Thread → Thread} (hf : ∀ th : Thread, th.Tame → (f th).Tame) :
    (vm.modifyThread t f).Tame := by
  intro u th hu
  rw [thread?_modifyThread] at hu
  split at hu
  · obtain ⟨th₀, h₀, rfl⟩ := Option.map_eq_some_iff.mp hu
    exact hf th₀ (hvm u th₀ h₀)
  · exact hvm u th hu

theorem Tame.setThread (hvm : vm.Tame) {th : Thread} (hth : th.Tame) : (vm.setThread t th).Tame := by
  intro u th' hu
  rw [thread?_setThread] at hu
  split at hu
  · obtain ⟨_, -, rfl⟩ := Option.map_eq_some_iff.mp hu
    exact hth
  · exact hvm u th' hu

theorem Tame.setAwait (hvm : vm.Tame) {a : Await} (ha : a.Tame) :
    (vm.modifyThread t (·.setAwait a)).Tame := hvm.modifyThread fun _ hth => Thread.tame_setAwait hth ha

theorem Tame.spawn (hvm : vm.Tame) (slots : Array Val) :
    Tame { vm with threads := vm.threads.push (.new slots) } := by
  intro u th hu
  unfold thread? at hu
  dsimp only at hu
  rw [Array.getElem?_push] at hu
  split at hu
  · obtain rfl := Option.some.inj hu
    exact Thread.tame_ground trivial
  · exact hvm u th hu

/-- A request of a native function, as what happens next. -/
theorem leads_request (hvm : vm.Tame) {a : Action} (hh : h.Carries vm.heap) (ha : a.Tame vm.heap) :
    Leads h (vm, .go (.act a)) := by
  cases ha with
  | _ => exact ⟨hvm, by constructor <;> assumption, hh⟩

theorem leads_onHeap (hvm : vm.Tame) {f : Heap → Heap × Action} (hh : h.Carries vm.heap)
    (hf : Goes vm.heap (f vm.heap)) : Leads h (vm.onHeap f) := by
  have hthreads : (vm.onHeap f).1.Tame := tame_of_threads hvm rfl
  exact leads_request hthreads (hh.trans hf.1) hf.2

theorem Leads.after {g : Heap} {r : Vm × Next} (hr : Leads g r) (hg : h.Carries g) : Leads h r := by
  refine ⟨hr.threads, hr.next, ?_⟩
  have hheap := hr.heap
  unfold Next.Owes at *
  split
  next hd =>
    rw [hd] at hheap
    exact hg.trans hheap
  next p hd =>
    rw [hd] at hheap
    obtain ⟨n, hn⟩ := hheap
    exact ⟨n, hn.after hg⟩

/-! ### Calls -/

theorem makeRoom_tame (hvm : vm.Tame) (t used need : Nat) :
    (vm.makeRoom t used need).1.Tame ∧
      ∀ s, (vm.makeRoom t used need).2 = some s → ∃ status v b, s = .raise status v b := by
  have hsize : ∀ size, (vm.modifyThread t ({ · with size })).Tame := fun size =>
    hvm.modifyThread fun th hth => hth
  unfold makeRoom
  dsimp only
  split
  · split
    · exact ⟨hvm, by rintro s ⟨⟩; exact ⟨_, _, _, rfl⟩⟩
    · exact ⟨hsize _, nofun⟩
  · split
    · exact ⟨hvm, by rintro s ⟨⟩; exact ⟨_, _, _, rfl⟩⟩
    · exact ⟨hsize _, by rintro s ⟨⟩; exact ⟨_, _, _, rfl⟩⟩

theorem leads_enterScript (hvm : vm.Tame) (t : Nat) (f : Val) (p : Proto) (cells : Array Nat)
    (args : List Val) {frame : Frame} (ha : frame.await = .idle) :
    Leads vm.heap (vm.enterScript t f p cells args frame) := by
  unfold enterScript
  dsimp only
  generalize (if p.isVararg = true then _ else _) = base
  obtain ⟨htame, hraise⟩ := makeRoom_tame hvm t (frame.base + args.length) (base - frame.base + p.room)
  have hheap := vm.heap_makeRoom t (frame.base + args.length) (base - frame.base + p.room)
  split
  next vm' s hm =>
    rw [hm] at htame hheap hraise
    obtain ⟨status, v, b, rfl⟩ := hraise s rfl
    exact ⟨htame, trivial, hheap ▸ .refl _⟩
  next vm' hm =>
    rw [hm] at htame hheap
    refine ⟨htame.modifyThread fun th hth => Thread.tame_pushFrame hth ?_, trivial, hheap ▸ .refl _⟩
    rw [ha]
    trivial

theorem start_heap_bind (f : Heap → Native (List Val)) (g : Heap) :
    (Native.heap >>= f).start g = (f g).start g := rfl

theorem apply_collector {b : Builtin} (hb : b ∈ [Builtin.collectRaw, .collectList, .collectForeign])
    (up : Array Val) (args : List Val) : Library.apply b up args = Library.collect args := by
  rcases List.mem_cons.mp hb with rfl | hb
  · rfl
  rcases List.mem_cons.mp hb with rfl | hb
  · rfl
  rw [List.mem_singleton.mp hb]
  rfl

/-- A collector of the bridge empties the userdata that it is given, and asks for what that carried to be
let go of. -/
theorem start_collect {args : List Val} {g : Heap} {i : Nat} {u : Userdata}
    (ha : Args.at_ args 1 = .userdata i) (hu : g.userdata.get? i = some u) :
    ∃ p : Payload, p.asset? = none ∧ (Library.collect args).start g =
      ({ g with userdata := g.userdata.modify i ({ · with payload := p }) },
        .release u.payload fun h => (h, .ret [])) := by
  unfold Library.collect
  rw [ha]
  dsimp only
  rw [start_heap_bind, hu]
  obtain ⟨payload, size, meta_⟩ := u
  cases payload with
  | function isList id => exact ⟨.function isList none, rfl, rfl⟩
  | foreign id => exact ⟨.foreign none, rfl, rfl⟩
  | _ => exact ⟨_, rfl, rfl⟩

/-- With nothing to empty it ends at once. -/
theorem start_collect_idle {args : List Val} {g : Heap}
    (ha : ∀ i, Args.at_ args 1 = .userdata i → g.userdata.get? i = none) :
    (Library.collect args).start g = (g, .ret []) := by
  unfold Library.collect
  split
  next i hi =>
    rw [start_heap_bind, ha i hi]
    rfl
  next => rfl

theorem empties_modify {g : Heap} {i : Nat} {u : Userdata} (hu : g.userdata.get? i = some u) {p : Payload}
    (hp : p.asset? = none) : g.Empties i u.payload
      { g with userdata := g.userdata.modify i ({ · with payload := p }) } := by
  refine ⟨by rw [Heap.carried?, hu]; rfl, fun m => ?_, List.Subset.refl _, rfl, rfl⟩
  unfold Heap.carried?
  dsimp only
  rw [Pool.get?_modify]
  by_cases hm : i = m
  · subst hm
    rw [if_pos rfl, if_pos rfl, hu]
    exact hp
  · rw [if_neg hm, if_neg (Ne.symm hm)]

theorem leads_collect (hvm : vm.Tame) (args : List Val) :
    Leads vm.heap (vm.onHeap (Library.collect args).start) := by
  by_cases hidle : ∀ i, Args.at_ args 1 = .userdata i → vm.heap.userdata.get? i = none
  · refine leads_onHeap hvm (.refl _) ?_
    rw [start_collect_idle hidle]
    exact ⟨.refl _, .ret⟩
  · simp only [not_forall] at hidle
    obtain ⟨i, ha, hu⟩ := hidle
    obtain ⟨u, hu⟩ := Option.ne_none_iff_exists'.mp hu
    obtain ⟨p, hp, hstart⟩ := start_collect ha hu
    have hr : vm.onHeap (Library.collect args).start =
        ({ vm with heap := { vm.heap with userdata := vm.heap.userdata.modify i ({ · with payload := p }) } },
          .go (.act (.release u.payload fun h => (h, .ret [])))) := by
      unfold onHeap
      dsimp only
      rw [hstart]
    rw [hr]
    exact ⟨tame_of_threads hvm rfl, fun _ => ⟨.refl _, .ret⟩, i, empties_modify hu hp⟩

theorem leads_enterNative (hvm : vm.Tame) (t : Nat) (f : Val) (b : Builtin) (up : Array Val)
    (args : List Val) {frame : Frame} (ha : frame.await = .idle) :
    Leads vm.heap (vm.enterNative t f b up args frame) := by
  unfold enterNative
  obtain ⟨htame, hraise⟩ := makeRoom_tame hvm t (frame.base + args.length) Thread.minRoom
  have hheap := vm.heap_makeRoom t (frame.base + args.length) Thread.minRoom
  split
  next vm' s hm =>
    rw [hm] at htame hheap hraise
    obtain ⟨status, v, b, rfl⟩ := hraise s rfl
    exact ⟨htame, trivial, hheap ▸ .refl _⟩
  next vm' hm =>
    rw [hm] at htame hheap
    have hframe : (vm'.modifyThread t (·.pushFrame
        { frame with
          level := .native args.toArray, fn := f
          limit := frame.base + args.length + Thread.minRoom })).Tame :=
      htame.modifyThread fun th hth => Thread.tame_pushFrame hth (by rw [ha]; trivial)
    dsimp only at hheap ⊢
    rw [← hheap]
    split
    · exact ⟨hframe, trivial, .refl _⟩
    · exact ⟨hframe, trivial, .refl _⟩
    next hraw hlist =>
      by_cases hb : b ∈ [Builtin.collectRaw, .collectList, .collectForeign]
      · rw [apply_collector hb]
        exact leads_collect hframe args
      · have hgoes := (Library.tame_apply args up hb).at_ vm'.heap (fun vs h => (h, .ret vs))
          fun _ g => ⟨.refl g, .ret⟩
        exact leads_onHeap hframe (.refl _) hgoes

theorem leads_enter (hvm : vm.Tame) (t : Nat) (f : Val) (args : List Val) (m : Manner) :
    Leads vm.heap (vm.enter t f args m) := by
  unfold enter
  dsimp only
  generalize (if m.nests = true then _ else _) = depth
  split
  · exact ⟨hvm, trivial, .refl _⟩
  split
  · exact ⟨hvm, trivial, .refl _⟩
  split
  · exact ⟨hvm, trivial, .refl _⟩
  split
  · exact leads_enterNative hvm t _ _ _ _ rfl
  · split
    · exact leads_enterScript hvm t _ _ _ _ rfl
    · exact leads_enterNative hvm t _ _ _ _ rfl
    · exact ⟨hvm, trivial, .refl _⟩
  · exact ⟨hvm, trivial, .refl _⟩

theorem leads_closeOrDeliver (hvm : vm.Tame) (t : Nat) (rest : List Val)
    (error : Option (ErrorStatus × Val)) {back : Await} (hback : back.Tame) :
    Leads vm.heap (vm.closeOrDeliver t rest error back) := by
  unfold closeOrDeliver
  split
  next v rest =>
    have hclosing : Await.Tame (.closing rest error back) := hback
    exact leads_enter (hvm.setAwait hclosing) t _ _ _
  next =>
    have hidle : (vm.modifyThread t fun th => (th.setAwait .idle).shrink).Tame :=
      hvm.modifyThread fun th hth => Thread.tame_shrink (Thread.tame_setAwait hth trivial)
    dsimp only
    split
    next k => exact leads_onHeap hidle (.refl _) (hback _ _)
    · exact ⟨hidle, trivial, .refl _⟩
    · exact ⟨hidle, trivial, .refl _⟩

/-! ### Steps -/

theorem leads_deliver (hvm : vm.Tame) (t : Nat) (vs : List Val) : Leads vm.heap (vm.deliver t vs) := by
  have hidle : (vm.modifyThread t (·.setAwait .idle)).Tame := hvm.setAwait trivial
  have hpop : (vm.modifyThread t (·.popFrame)).Tame := hvm.modifyThread fun _ => Thread.tame_popFrame
  have hcontinue : ∀ f, Leads vm.heap (vm.continue_ t f) := by
    intro f
    refine ⟨hvm.modifyThread fun th hth => Thread.tame_modifyTop hth ?_, trivial, .refl _⟩
    split <;> trivial
  have htop := Thread.tame_top (hvm.thread t)
  unfold deliver
  dsimp only
  generalize (vm.thread t).top.await = a at htop
  cases a with
  | idle => exact ⟨hvm, trivial, .refl _⟩
  | guarded | started => exact ⟨hidle, trivial, .refl _⟩
  | body k | caught handler k => exact leads_onHeap hidle (.refl _) (htop _ _)
  | push | method | test | drop => exact hcontinue _
  | returning | yielded => exact ⟨hpop, trivial, .refl _⟩
  | handler => exact ⟨hvm, trivial, .refl _⟩
  | closing rest error back => exact leads_closeOrDeliver hvm t rest error htop

theorem unwind_subset (g : Heap) (fs : List Frame) (acc : List Val) : (unwind g fs acc).1 ⊆ fs := by
  induction fs generalizing acc with
  | nil => exact List.Subset.refl _
  | cons f fs ih =>
    unfold unwind
    split
    · exact List.Subset.refl _
    · exact List.Subset.trans (ih _) (List.subset_cons_self _ _)

theorem tame_failed {th : Thread} (hth : th.Tame) (g : Heap) (status : ErrorStatus) (v : Val) :
    (failed g status v th).Tame := by
  have hground : Thread.Tame
      { th with ground := { th.ground with await := .idle }, status := .failed status } := by
    intro f hf
    rcases List.mem_append.mp hf with hf | hf
    · exact hth f (List.mem_append_left _ hf)
    · rw [List.mem_singleton.mp hf]
      trivial
  refine Thread.tame_modifyTop hground ?_
  have htop := Thread.tame_top hground
  split <;> exact htop

theorem leads_settle (hvm : vm.Tame) (t : Nat) (status : ErrorStatus) (v : Val) :
    Leads vm.heap (vm.settle t status v) := by
  have habove : (vm.modifyThread t fun th =>
      { th with above := (unwind vm.heap (vm.thread t).above []).1 }).Tame := by
    refine hvm.modifyThread fun th hth f hf => ?_
    rcases List.mem_append.mp hf with hf | hf
    · exact hvm.thread t f (List.mem_append_left _ (unwind_subset _ _ _ hf))
    · exact hth f (List.mem_append_right _ hf)
  unfold settle
  dsimp only
  split
  · exact ⟨hvm.modifyThread fun _ hth => tame_failed hth _ _ _, trivial, .refl _⟩
  · have htop := Thread.tame_top (habove.thread t)
    split
    next ha =>
      rw [ha] at htop
      exact leads_closeOrDeliver habove t _ _ htop
    next => exact leads_closeOrDeliver habove t _ _ htop

theorem leads_raise (hvm : vm.Tame) (t : Nat) (status : ErrorStatus) (v : Val) (handled : Bool) :
    Leads vm.heap (vm.raise t status v handled) := by
  unfold raise
  dsimp only
  split
  · exact leads_settle hvm t status v
  · split
    · exact leads_settle hvm t status v
    · refine leads_enter (hvm.modifyThread fun th hth => ?_) t _ _ _
      split
      · exact Thread.tame_setAwait hth trivial
      · exact Thread.tame_pushFrame hth trivial

theorem leads_act (hvm : vm.Tame) (t : Nat) {a : Action} (ha : a.Tame vm.heap) :
    Leads vm.heap (vm.act t a) := by
  have hshow : ∀ other, (vm.modifyThread t (·.modifyTop (showing other))).Tame := fun other =>
    hvm.modifyThread fun _ hth => Thread.tame_modifyTop hth (Thread.tame_top hth)
  cases ha with
  | ret => exact ⟨hvm.modifyThread fun _ => Thread.tame_popFrame, trivial, .refl _⟩
  | raise | raiseMemory | fail | badArgument => exact ⟨hvm, trivial, .refl _⟩
  | @call _ _ _ keep _ k hc ht =>
    have hbody : Await.Tame (.body k) := fun vs g => ⟨hc vs g, ht vs g⟩
    exact leads_enter (hvm.modifyThread fun _ hth => Thread.tame_modifyTop hth
      (f := fun fr => { fr with level := .native keep.toArray, await := .body k }) hbody) t _ _ _
  | @protect _ _ _ handler k hc ht =>
    have hcaught : Await.Tame (.caught handler k) := fun r g => ⟨hc r g, ht r g⟩
    exact leads_enter (hvm.setAwait hcaught) t _ _ _
  | yield =>
    unfold act
    dsimp only
    split
    · refine ⟨hvm.modifyThread fun _ hth => ?_, trivial, .refl _⟩
      exact Thread.tame_modifyTop hth (f := fun f => { f with level := _, await := .yielded }) trivial
    · exact ⟨hvm, trivial, .refl _⟩
  | resume hc ht | close hc ht => exact ⟨hshow _, fun r g => ⟨hc r g, ht r g⟩, .refl _⟩
  | status hc ht | situation hc ht | position hc ht =>
    exact leads_onHeap hvm (.refl _) ⟨hc _ _, ht _ _⟩
  | newThread hc ht => exact leads_onHeap (hvm.spawn _) (.refl _) ⟨hc _ _, ht _ _⟩
  | collect hh hc ht => exact ⟨hvm, ⟨hh, fun g => ⟨hc g, ht g⟩⟩, .refl _⟩

theorem leads_runScript (hvm : vm.Tame) (t : Nat) : Leads vm.heap (vm.runScript t) := by
  have htaken : (vm.setThread t default).Tame := hvm.setThread Thread.tame_default
  have hth := hvm.thread t
  unfold runScript take
  dsimp only
  split
  next a aw fn name base limit depth cy rest ground status size heq =>
    rw [heq] at hth
    obtain ⟨haw, hrest⟩ := List.forall_mem_cons.mp hth
    have hrest' : Thread.Tame ⟨rest, ground, status, size⟩ := hrest
    -- While a script runs its thread is out of the interpreter, and goes back as it is by then.
    have hw := a.run_waits slice (vm.setThread t default).heap
    have hcarries := a.carries_run slice (vm.setThread t default).heap
    generalize a.run slice (vm.setThread t default).heap = r at hw hcarries
    obtain ⟨a', heap, stop⟩ := r
    dsimp only at hw hcarries ⊢
    have hput : ∀ {th : Thread}, th.Tame →
        (Vm.setThread ⟨heap, (vm.setThread t default).threads⟩ t th).Tame := fun hth =>
      Tame.setThread (tame_of_threads htaken rfl) hth
    have hframe : ∀ aw' : Await, aw'.Tame → Thread.Tame
        ⟨⟨.script a', aw', fn, name, base, limit, depth, cy⟩ :: rest, ground, status, size⟩ :=
      fun aw' haw' => List.forall_mem_cons.mpr ⟨haw', hrest⟩
    have henter : ∀ {aw' : Await} f args m, aw'.Tame → Leads vm.heap
        ((Vm.setThread ⟨heap, (vm.setThread t default).threads⟩ t
          ⟨⟨.script a', aw', fn, name, base, limit, depth, cy⟩ :: rest, ground, status, size⟩).enter
            t f args m) := fun f args m haw' =>
      (leads_enter (hput (hframe _ haw')) t f args m).after hcarries
    cases stop with
    | pause => exact ⟨hput (hframe _ haw), trivial, hcarries⟩
    | ret vs => exact ⟨hput hrest', trivial, hcarries⟩
    | fault m => exact ⟨hput (hframe _ trivial), trivial, hcarries⟩
    | memory => exact ⟨hput (hframe _ trivial), trivial, hcarries⟩
    | invoke f args name' isMeta await => exact henter _ _ _ (Await.tame_of_feedsScript hw)
    | tail f args name' =>
      dsimp only
      split
      · split
        · exact (leads_enterScript (hput hrest') t _ _ _ _ rfl).after hcarries
        · exact henter _ _ _ trivial
      · exact henter _ _ _ trivial
  next => exact ⟨htaken.setThread hth, trivial, .refl _⟩

/-- Whatever is about to happen on a thread, a step leaves userdata alone, or empties one and owes what it
carried. What is owed already stays so. -/
theorem leads_step (hvm : vm.Tame) (t : Nat) {s : Signal} (hs : Next.Tame vm.heap (.go s)) :
    (vm.step t s).1.Tame ∧ (vm.step t s).2.Tame (vm.step t s).1.heap ∧
      match Next.debt (.go s) with
      | none => (vm.step t s).2.Owes vm.heap (vm.step t s).1.heap
      | some p => (vm.step t s).2.debt = some p ∧ (vm.step t s).1 = vm := by
  have hleads : ∀ {r : Vm × Next}, Leads vm.heap r →
      r.1.Tame ∧ r.2.Tame r.1.heap ∧ r.2.Owes vm.heap r.1.heap := fun hr =>
    ⟨hr.threads, hr.next, hr.heap⟩
  cases s with
  | run => exact hleads (leads_runScript hvm t)
  | results vs => exact hleads (leads_deliver hvm t vs)
  | raise status v handled => exact hleads (leads_raise hvm t status v handled)
  | act a =>
    cases a with
    | release p k => exact ⟨hvm, hs, rfl, rfl⟩
    | _ => exact hleads (leads_act hvm t hs)

/-! ### Resumes and closes -/

theorem leads_beginResume (hvm : vm.Tame) (t count depth : Nat) :
    Leads vm.heap (vm.beginResume t count depth) := by
  unfold beginResume
  dsimp only
  split
  · refine ⟨hvm.modifyThread fun th hth f hf => ?_, trivial, .refl _⟩
    have hpop := Thread.tame_popFrame hth
    rcases List.mem_append.mp hf with hf | hf
    · obtain ⟨g, hg, rfl⟩ := List.mem_map.mp hf
      exact hpop g (List.mem_append_left _ hg)
    · rw [List.mem_singleton.mp hf]
      exact hth th.ground (List.mem_append_right _ (List.mem_singleton_self _))
  · exact leads_enter (hvm.modifyThread fun _ hth => Thread.tame_modifyTop hth
      (f := fun g => { g with
        level := .native (g.slots.shrink (g.slots.size - count - 1)), await := .started
        depth := depth + 1, canYield := true }) trivial) t _ _ _

theorem Tame.endResume (hvm : vm.Tame) (t : Nat) (e : Exit) : (vm.endResume t e).Tame := by
  cases e with
  | returned vs =>
    exact hvm.modifyThread fun _ hth => Thread.tame_modifyTop hth (Thread.tame_top hth)
  | _ => exact hvm

theorem leads_beginClose (hvm : vm.Tame) (t depth : Nat) : Leads vm.heap (vm.beginClose t depth) :=
  leads_closeOrDeliver (hvm.setThread (Thread.tame_ground (g :=
    { level := .native #[], await := .guarded, depth }) trivial)) t _ _ trivial

/-- A collection drops threads, and leaves the others as they are up to room that is not in use. -/
theorem Tame.collect (hvm : vm.Tame) (threads : List Nat) : (Collector.collect vm threads).1.Tame := by
  intro t th ht
  unfold Collector.collect thread? at ht
  dsimp only at ht
  rw [Array.getElem?_mapIdx] at ht
  obtain ⟨th₀, h₀, rfl⟩ := Option.map_eq_some_iff.mp ht
  split
  · exact Thread.tame_shrink (hvm t th₀ h₀)
  · exact Thread.tame_default

end Vm
end LuaEmbed.Engine
