import Mathlib.Data.List.Forall2
import LuaEmbed.Proofs.Granting
import LuaEmbed.Proofs.Isolation
import LuaEmbed.Proofs.Passing
import LuaEmbed.Proofs.Progress

/-!
Calls of host functions. Whoever calls one, it begins in a frame of its own that shows the arguments
and nothing else; and what it leaves there is handed to its caller, as far as it lies within this
frame.
-/
namespace LuaEmbed

open Engine World

namespace Engine.Vm

variable {vm : Vm} {t : Nat} {th : Thread} {u : Val} {args : List Val} {m : Manner}

/-- Room that is made is reserved on the stack. -/
theorem makeRoom_ok (h : vm.thread? t = some th) {used need : Nat}
    (hroom : (vm.makeRoom t used need).2 = none) :
    ∃ size, Thread.grownSize th.size used need = .ok size ∧ (vm.heap.starved = true → size = th.size) ∧
      vm.makeRoom t used need = (vm.modifyThread t ({ · with size }), none) := by
  unfold makeRoom at hroom ⊢
  rw [thread_of_some h] at hroom ⊢
  cases hg : Thread.grownSize th.size used need with
  | error size =>
    simp only [hg] at hroom
    split at hroom <;> cases hroom
  | ok size =>
    simp only [hg] at hroom ⊢
    split at hroom
    · cases hroom
    next hst =>
      refine ⟨size, rfl, fun hs => ?_, if_neg hst⟩
      simpa [hs] using hst

theorem makeRoom_granted (h : vm.thread? t = some th) {l used need : Nat}
    (hr : th.Reaches vm.heap.starved l) (hl : used + need ≤ l) (hu : 0 < used) :
    (vm.makeRoom t used need).2 = none := by
  obtain ⟨size, hg, hst⟩ := hr.grows hl hu
  unfold makeRoom
  rw [thread_of_some h]
  simp only [hg]
  refine congrArg Prod.snd (if_neg ?_)
  simpa using hst

/-- The frame on top may call a native function with so many arguments: there is room for them and for
the function's own slots, and native calls are not nested too deeply. -/
structure Enters (vm : Vm) (t : Nat) (n : Nat) (m : Manner) : Prop where
  nesting : m.nests = true →
    (vm.thread t).top.depth + 1 ≠ maxNesting ∧ (vm.thread t).top.depth + 1 < maxHandling
  room : (vm.makeRoom t ((vm.thread t).used + 1 + n) Thread.minRoom).2 = none

/-- A call of a host function comes to ask for it, in a frame that shows the arguments. -/
theorem enter_host {shape : FunctionShape} {id : Nat} {c : Context} {s : Array Val}
    (hu : Denotes vm.heap c s (.function shape id) u) (h : vm.thread? t = some th)
    (he : vm.Enters t args.length m) :
    ∃ vm' f size, vm.enter t u args m = (vm', .need (.host (shape = .list) (some id))) ∧
      vm'.heap = vm.heap ∧ vm'.thread? t = some { th.pushFrame f with size } ∧
      f.level = .native args.toArray ∧ f.base = th.used + 1 ∧
      Thread.grownSize th.size (th.used + 1 + args.length) Thread.minRoom = .ok size ∧
      (vm.heap.starved = true → size = th.size) := by
  obtain ⟨i, k, x, rfl, hclosure, huser, hpayload⟩ := hu
  obtain ⟨hnest, hroom⟩ := he
  rw [thread_of_some h] at hnest hroom
  obtain ⟨size, hsize, hstarved, hmade⟩ := makeRoom_ok h hroom
  have hcallee : callee? vm.heap maxChain (.closure i) args = .ok (.closure i, args) := rfl
  have hfunction : hostFunction? vm.heap #[.userdata k] = some id := by
    unfold hostFunction?
    simp [huser, hpayload]
  have hshallow : ¬ (m.nests && decide ((if m.nests then th.top.depth + 1 else th.top.depth) =
      maxNesting)) = true := by
    cases hn : m.nests with
    | false => simp
    | true => simpa using (hnest hn).1
  have hhandled : ¬ (m.nests && decide (maxHandling ≤ if m.nests then th.top.depth + 1 else
      th.top.depth)) = true := by
    cases hn : m.nests with
    | false => simp
    | true => simpa using (hnest hn).2
  unfold enter
  rw [thread_of_some h]
  dsimp only
  rw [if_neg hshallow, if_neg hhandled, hcallee]
  simp only [hclosure]
  unfold enterNative
  dsimp only [Thread.used] at hmade
  rw [hmade]
  have hthread := fun f => thread?_modify (thread?_modify h ({ · with size })) (·.pushFrame f)
  cases shape with
  | raw =>
    refine ⟨_, _, size, Prod.ext rfl ?_, rfl, hthread _, rfl, rfl, hsize, hstarved⟩
    exact congrArg (fun r => Next.need (.host false r)) hfunction
  | list =>
    refine ⟨_, _, size, Prod.ext rfl ?_, rfl, hthread _, rfl, rfl, hsize, hstarved⟩
    exact congrArg (fun r => Next.need (.host true r)) hfunction

end Engine.Vm

variable {σ μ : Type} {c : Context} {w w' w₁ : World σ μ} {fs : List Frame} {u : Val}
  {args : List Val} {m : Manner} {shape : FunctionShape} {id : Nat} {s : σ}

namespace World

/-- A thread is ready to run, and these are its frames, the latest first. -/
def Frames (w : World σ μ) (c : Context) (fs : List Frame) : Prop :=
  ∃ th, w.thread? c = some th ∧ th.status = .ready ∧ th.frames = fs

/-- A value that was pushed for a host function, and what that function does. -/
structure Backs (w : World σ μ) (c : Context) (u : Val) (shape : FunctionShape) (id : Nat) (s : σ) :
    Prop where
  value : Denotes (w.heap c.vm) c (w.slots c) (.function shape id) u
  code : ∃ n, w.functions.get? id = some ⟨(shape, s), n⟩

/-- A native function has begun, in a frame that shows its arguments, above frames that are as they
were. -/
structure Entered (w : World σ μ) (c : Context) (fs : List Frame) (args : List Val) (w₁ : World σ μ) :
    Prop where
  frames : ∃ f, w₁.Frames c (f :: fs) ∧ f.base = (w.thread c).used + 1
  shown : w₁.shown c = some args.toArray
  heap : ∀ i, w₁.heap i = w.heap i
  functions : w₁.functions = w.functions
  history : w₁.history = w.history
  room : ∀ k < Thread.minRoom, w₁.Grants c k
  reaches : ∀ l, (w.thread c).Reaches (w.heap c.vm).starved l →
    (w₁.thread c).Reaches (w.heap c.vm).starved l

theorem enter_host (hf : w.Frames c fs) (hb : w.Backs c u shape id s)
    (he : (w.vm c.vm).Enters c.thread args.length m) :
    ∃ w₁, (w.onVm c.vm fun vm => vm.enter c.thread u args m) =
      (.need (.host (shape = .list) (some id)), w₁) ∧ w.Entered c fs args w₁ := by
  obtain ⟨th, ht, hready, rfl⟩ := hf
  obtain ⟨x, hx, hth⟩ := Option.bind_eq_some_iff.mp ht
  have hvalue := hb.value
  unfold heap at hvalue
  rw [vm_eq w c.vm hx] at he hvalue
  obtain ⟨vm', f, size, henter, hheap, hthread, hlevel, hbase, hsize, hstarved⟩ :=
    Vm.enter_host hvalue hth he
  have hworld : (w.onVm c.vm fun vm => vm.enter c.thread u args m) =
      (.need (.host (shape = .list) (some id)), w.modifyVm c.vm fun _ => vm') := by
    rw [onVm_congr (g := fun _ => (vm', .need (.host (shape = .list) (some id)))) w c.vm hx henter,
      onVm_eq, hx]
  have hthread' : (w.modifyVm c.vm fun _ => vm').thread? c = some { th.pushFrame f with size } := by
    rw [thread?_modifyVm, if_pos rfl, hx]
    exact hthread
  have hheap' : ∀ i, (w.modifyVm c.vm fun _ => vm').heap i = w.heap i := by
    intro i
    unfold heap
    by_cases hi : c.vm = i
    · subst hi
      rw [vm_eq w _ hx, vm_eq _ _ (by rw [modifyVm, instances_modifyInstance_self, hx]; rfl)]
      exact hheap
    · unfold vm
      rw [modifyVm, instances_modifyInstance, if_neg hi]
  have hused : ({ th.pushFrame f with size } : Thread).used = th.used + 1 + args.length := by
    change f.base + f.count = _
    rw [hbase, Frame.count, hlevel]
    rfl
  have hinstance : ∃ y, (w.modifyVm c.vm fun _ => vm').instances[c.vm]? = some y :=
    ⟨_, by rw [modifyVm, instances_modifyInstance_self, hx]; rfl⟩
  have hroom : ∀ k, ({ th.pushFrame f with size } : Thread).Grants (w.heap c.vm).starved k →
      (w.modifyVm c.vm fun _ => vm').Grants c k := by
    intro k hk
    rw [World.grants_iff, thread_of_some hthread', hheap']
    exact ⟨hinstance, hk⟩
  refine ⟨_, hworld, ⟨f, ⟨_, hthread', hready, rfl⟩, by rw [hbase, thread_of_some ht]⟩, ?_, hheap', rfl, rfl, fun k hk => ?_,
    fun l hl => ?_⟩
  · unfold shown
    rw [hthread', Option.bind_some]
    change f.shown = _
    rw [Frame.shown, hlevel]
  · refine hroom k (Thread.grants_iff.mpr (.inl ?_))
    have hfit := Thread.grownSize_room hsize
    rw [hused]
    dsimp only
    omega
  · rw [thread_of_some hthread']
    rw [thread_of_some ht] at hl
    unfold heap at hl ⊢
    rw [vm_eq w c.vm hx] at hl ⊢
    exact hl.grown hsize hstarved

/-! ### What a host function leaves -/

theorem Frames.ne_nil (h : w.Frames c fs) : fs ≠ [] := by
  obtain ⟨th, -, -, rfl⟩ := h
  rw [th.frames_eq]
  exact List.cons_ne_nil _ _

theorem Frames.same (h : w.Frames c fs) (ht : w'.thread? c = w.thread? c) : w'.Frames c fs := by
  obtain ⟨th, hth, hr, hf⟩ := h
  exact ⟨th, ht.trans hth, hr, hf⟩

/-- The frame on top goes away. -/
theorem Frames.pop {f : Frame} (h : w.Frames c (f :: fs)) (hne : fs ≠ []) :
    (w.modifyThread c (·.popFrame)).Frames c fs := by
  obtain ⟨th, hth, hr, hf⟩ := h
  have htail : th.frames.tail = fs := by rw [hf, List.tail_cons]
  refine ⟨th.popFrame, ?_, hr, ?_⟩
  · rw [thread?_modifyThread_self, hth]
    rfl
  · rw [Thread.frames_popFrame (by rwa [htail]), htail]

/-- A native function on top is still on top, above the same frames. -/
theorem Frames.kept {f : Frame} {s : Array Val} (h : w.Frames c (f :: fs)) (hs : w.shown c = some s)
    (hk : ∀ th, w.thread? c = some th → ∃ th', w'.thread? c = some th' ∧ th.SameBelow th') :
    ∃ f' s', w'.Frames c (f' :: fs) ∧ w'.Stands c s' ∧ f'.base = f.base := by
  obtain ⟨th, hth, hr, hf⟩ := h
  obtain ⟨htop, htail⟩ := List.cons.inj (th.frames_eq.symm.trans hf)
  obtain ⟨th', hth', hb⟩ := hk th hth
  have hready : th'.status = .ready := hb.status.trans hr
  have hframes : th'.frames = th'.top :: fs := by rw [th'.frames_eq, hb.below, htail]
  have hbase : th'.top.base = f.base := by rw [hb.base, htop]
  have hnative : th'.top.isScript = false := by
    unfold shown at hs
    rw [hth, Option.bind_some] at hs
    rw [hb.script]
    unfold Frame.isScript
    unfold Frame.shown at hs
    cases hl : th.top.level with
    | native s => rfl
    | script a =>
      rw [hl] at hs
      cases hs
  unfold Frame.isScript at hnative
  cases hl : th'.top.level with
  | script a =>
    rw [hl] at hnative
    cases hnative
  | native s' =>
    refine ⟨th'.top, s', ⟨th', hth', hready, hframes⟩, ⟨?_, ?_⟩, hbase⟩
    · unfold shown
      rw [hth', Option.bind_some, Frame.shown, hl]
    · unfold status?
      rw [hth', Option.map_some, hready]

theorem Frames.used {f : Frame} {s : Array Val} (h : w.Frames c (f :: fs)) (hs : w.shown c = some s) :
    (w.thread c).used = f.base + s.size := by
  obtain ⟨th, hth, -, hf⟩ := h
  obtain ⟨rfl, -⟩ := List.cons.inj (th.frames_eq.symm.trans hf)
  unfold shown at hs
  rw [hth, Option.bind_some] at hs
  rw [thread_of_some hth, ← Frame.count_of_shown hs]
  rfl

theorem Frames.isRunning {f : Frame} {th : Thread} (h : w.Frames c (f :: fs)) (hne : fs ≠ [])
    (hth : w.thread? c = some th) : th.isRunning := by
  obtain ⟨th', hth', hr, hf⟩ := h
  obtain rfl := Option.some.inj (hth.symm.trans hth')
  exact Thread.isRunning_iff.mpr ⟨hr, by rwa [hf, List.tail_cons]⟩

/-- The end of a host function hands the topmost slots of its frame on. -/
theorem endHost_eq {s : Array Val} (h : w.Stands c s) (k : Nat) (d : Drive σ μ) :
    endHost c k d w =
      some (.go (.results (s.toList.drop (s.size - k))), w.modifyThread c (·.popFrame)) := by
  obtain ⟨th, ht, -⟩ := Option.bind_eq_some_iff.mp h.shown
  obtain ⟨x, hx, -⟩ := Option.bind_eq_some_iff.mp ht
  have hslots : (x.vm.thread c.thread).slots = s := by
    rw [← h.slots, ← vm_eq w c.vm hx]
    rfl
  unfold endHost Run.onVm Run.onWorld
  dsimp only
  rw [onVm_eq, hx]
  dsimp only
  rw [hslots]
  rfl

/-- The complaint about a function that claims to have left more results than there are slots. -/
def overstated (count depth : Nat) : Error :=
  .runtime s!"host function reported {count} results but the stack holds {depth}"

variable {code : HostCode σ μ} {d : Drive σ μ} {n k : Nat} {t : Array Val}

/-- How a host function is run. -/
def serve (code : HostCode σ μ) (c : Context) (s : σ) : FunctionShape → Run σ μ Next
  | .raw => runRaw (code.raw s c) c
  | .list => runList (code.list s c) c

/-- A host function runs as its program does, and is kept alive meanwhile. -/
theorem meet_host {shape : FunctionShape} (hf : w.functions.get? id = some ⟨(shape, s), n⟩)
    (isList : Bool) : World.meet code c (.host isList (some id)) d w =
      (serve code c s shape d (w.retain (.function shape id))).map fun r =>
        (r.1, r.2.release (.function shape id)) := by
  have hget : ∀ k : World σ μ → Run σ μ Next, (MonadState.get >>= k) d w = k w d w := fun _ => rfl
  have hkept : ∀ m : Run σ μ Next, (do
      Run.update (·.retain (.function shape id))
      let next ← m
      Run.update (·.release (.function shape id))
      return next : Run σ μ Next) d w =
        (m d (w.retain (.function shape id))).map fun r => (r.1, r.2.release (.function shape id)) := by
    intro m
    change (m d (w.retain (.function shape id))).bind _ = _
    cases m d (w.retain (.function shape id)) <;> rfl
  change runHost code c (some id) d w = _
  unfold runHost
  rw [hget]
  simp only [Option.bind_some, hf, Option.map_some]
  cases shape with
  | raw => exact hkept (runRaw (code.raw s c) c)
  | list => exact hkept (runList (code.list s c) c)

theorem meet_raw (hf : w.functions.get? id = some ⟨(.raw, s), n⟩) {next : Next}
    (h : runRaw (code.raw s c) c d (w.retain (.function .raw id)) = some (next, w')) (isList : Bool) :
    World.meet code c (.host isList (some id)) d w = some (next, w'.release (.function .raw id)) :=
  (meet_host hf isList).trans (congrArg (Option.map _) h)

theorem meet_list (hf : w.functions.get? id = some ⟨(.list, s), n⟩) {next : Next}
    (h : runList (code.list s c) c d (w.retain (.function .list id)) = some (next, w'))
    (isList : Bool) :
    World.meet code c (.host isList (some id)) d w = some (next, w'.release (.function .list id)) :=
  (meet_host hf isList).trans (congrArg (Option.map _) h)

theorem failing_of_fed {h : Heap} (hf : h.starved = false) (message : String) :
    failing h message = .raise .runtime (.text message) false := by
  unfold failing
  rw [hf]
  rfl

theorem raiseHost_eq (c : Context) (message : String) (d : Drive σ μ) (w : World σ μ) :
    raiseHost c message d w =
      some (.go (failing (w.heap c.vm) message), (w.reserve c 1).2) := by
  rw [← heap_reserve w c c.vm 1]
  rfl

/-- A raw function that has left as many results as it says hands them on. -/
theorem runRaw_results {p : Program σ μ (Outcome Nat)} (h : p.perform d w = some (.done k, w'))
    (hs : w'.Stands c t) (hk : k ≤ t.size) :
    runRaw p c d w =
      some (.go (.results (t.toList.drop (t.size - k))), w'.modifyThread c (·.popFrame)) := by
  unfold runRaw
  refine Run.bind_some.mpr ⟨_, _, h, Run.bind_some.mpr ⟨w', w', rfl, ?_⟩⟩
  rw [if_pos (by rwa [hs.depth])]
  exact endHost_eq hs k d

/-- One that has not fails. -/
theorem runRaw_excess {p : Program σ μ (Outcome Nat)} (h : p.perform d w = some (.done k, w'))
    (hk : w'.depth c < k) :
    runRaw p c d w =
      some (.go (failing (w'.heap c.vm) (overstated k (w'.depth c)).message), (w'.reserve c 1).2) := by
  unfold runRaw
  refine Run.bind_some.mpr ⟨_, _, h, Run.bind_some.mpr ⟨w', w', rfl, ?_⟩⟩
  rw [if_neg (Nat.not_le.mpr hk)]
  exact raiseHost_eq _ _ _ _

/-- A list function gets what its frame shows, and hands on what its results stand for. -/
theorem runList_results {p : List Value → Program σ μ (Outcome (List Value))}
    {given results : List Value} {w₂ w₃ : World σ μ} {us : List Val}
    (hread : c.readBatch (w.depth c) (some 1) w = (.ok given, w₁))
    (h : (p given).perform d w₁ = some (.done results, w₂))
    (hpush : c.pushAll results w₂ = (.ok (), w₃)) (hs : w₃.Stands c (t ++ us.toArray))
    (hlength : results.length = us.length) :
    runList p c d w =
      some (.go (.results us), (w₃.releaseAll results).modifyThread c (·.popFrame)) := by
  have hs' := (alike_releaseAll w₃ results).stands hs
  unfold runList
  refine Run.bind_some.mpr ⟨w, w, rfl, Run.bind_some.mpr ⟨_, _, congrArg some hread, ?_⟩⟩
  dsimp only
  refine Run.bind_some.mpr ⟨_, _, h, ?_⟩
  dsimp only
  refine Run.bind_some.mpr ⟨_, _, congrArg some hpush, Run.bind_some.mpr ⟨(), _, rfl, ?_⟩⟩
  dsimp only
  rw [endHost_eq hs' _ d, hlength]
  simp

/-- A function that has begun may use the room that its caller has left. -/
theorem Entered.grants (he : w.Entered c fs args w₁) {l k : Nat}
    (hl : (w.thread c).Reaches (w.heap c.vm).starved l)
    (hk : (w.thread c).used + 1 + args.length + k ≤ l) : w₁.Grants c k := by
  obtain ⟨f, hframes, hbase⟩ := he.frames
  have hused := hframes.used he.shown
  rw [hbase, List.size_toArray] at hused
  obtain ⟨th, hth, -⟩ := hframes
  obtain ⟨x, hx, -⟩ := Option.bind_eq_some_iff.mp hth
  rw [World.grants_iff, he.heap]
  exact ⟨⟨x, hx⟩, (he.reaches l hl).grants (by omega) (.inl (by omega))⟩

/-- What comes of a raw function that has begun above these frames, whatever its program does: where
it says how many results it leaves, its caller gets the topmost slots of its frame, or an error if
there are fewer. -/
structure RawProtocol (code : HostCode σ μ) (c : Context) (id : Nat) (s : σ) (fs : List Frame)
    (w : World σ μ) : Prop where
  results : ∀ {fuel k w'}, (code.raw s c).perform (drive code fuel) (w.retain (.function .raw id)) =
      some (.done k, w') → Unclosed c.vm w w' → k ≤ w'.depth c →
    ∃ w'', w''.Frames c fs ∧
      Attained code ⟨c, .go (.results ((w'.slots c).toList.drop (w'.depth c - k))), w''⟩
        ⟨c, .need (.host false (some id)), w⟩
  excess : ∀ {fuel k w'}, (code.raw s c).perform (drive code fuel) (w.retain (.function .raw id)) =
      some (.done k, w') → Unclosed c.vm w w' → w'.depth c < k →
    ∃ w'' f, w''.Frames c (f :: fs) ∧
      Attained code ⟨c, .go (failing (w'.heap c.vm) (overstated k (w'.depth c)).message), w''⟩
        ⟨c, .need (.host false (some id)), w⟩

/-- What comes of a list function that has begun above these frames: it gets what its frame shows, and
its caller gets what the function's results stand for, whatever else it has left on the stack. -/
structure ListProtocol (code : HostCode σ μ) (c : Context) (id : Nat) (s : σ) (fs : List Frame)
    (args : List Val) (w : World σ μ) : Prop where
  served : ∃ given w₁,
    c.readBatch args.length (some 1) (w.retain (.function .list id)) = (.ok given, w₁) ∧
    w.ShowsAll c 1 args given ∧
    ∀ {fuel results w₂ w₃}, (code.list s c given).perform (drive code fuel) w₁ =
        some (.done results, w₂) → Unclosed c.vm w w₂ → c.pushAll results w₂ = (.ok (), w₃) →
      ∃ us w₄, results.Forall₂ (Denotes (w₃.heap c.vm) c (w₃.slots c)) us ∧
        (∀ i, w₄.heap i = w₃.heap i) ∧ w₄.Frames c fs ∧
        Attained code ⟨c, .go (.results us), w₄⟩ ⟨c, .need (.host true (some id)), w⟩

/-- A host function's program, begun above these frames, leaves them as they were. -/
theorem Entered.performed {α : Type} {p : Program σ μ α} {a : α} {fuel : Nat} {w₂ : World σ μ}
    (he : w.Entered c fs args w₁) (hne : fs ≠ []) (hu : Touches w₁ w₂)
    (hp : p.perform (drive code fuel) w₂ = some (a, w')) (hc : Unclosed c.vm w₁ w') :
    ∃ f t, w'.Frames c (f :: fs) ∧ w'.Stands c t := by
  obtain ⟨f, hframes, -⟩ := he.frames
  have K := (sound_drive code fuel (T := c)).keeping
  have hundisturbed := K.trans (K.touches hu) (K.traversal.program _ _ _ _ hp)
  obtain ⟨f', t, hf', hs, -⟩ := hframes.kept he.shown fun th hth =>
    hundisturbed.kept hc th hth (Thread.busy_ready.mpr (hframes.isRunning hne hth))
  exact ⟨f', t, hf', hs⟩

theorem Entered.raw (he : w.Entered c fs args w₁) (hne : fs ≠ [])
    (hf : w₁.functions.get? id = some ⟨(.raw, s), n⟩) : RawProtocol code c id s fs w₁ := by
  have hbegin : Touches w₁ _ := touches_retain w₁ (.function .raw id)
  refine ⟨fun {fuel k w'} h hc hk => ?_, fun {fuel k w'} h hc hk => ?_⟩
  · obtain ⟨f, t, hframes, hs⟩ := he.performed hne hbegin h hc
    rw [hs.depth] at hk ⊢
    rw [hs.slots]
    exact ⟨(w'.modifyThread c (·.popFrame)).release (.function .raw id),
      (hframes.pop hne).same rfl, .met fuel (meet_raw hf (runRaw_results h hs hk) false) .here⟩
  · obtain ⟨f, t, hframes, hs⟩ := he.performed hne hbegin h hc
    have hend : Touches w' _ := (touches_reserve w' c 1).trans (touches_release _ (.function .raw id))
    obtain ⟨f', -, hf', -⟩ := hframes.kept hs.shown fun th hth =>
      TouchesIn.sameBelow hend hth
    exact ⟨_, f', hf', .met fuel (meet_raw hf (runRaw_excess h hk) false) .here⟩

/-- A list function that has begun reads what its frame shows. -/
theorem Entered.listens (he : w.Entered c fs args w₁) (id : Nat) (hshort : args.length ≤ Word32.greatest)
    (ht : ∀ t, .thread t ∈ args → (w.heap c.vm).owner? ≠ none) :
    ∃ given w₂, c.readBatch args.length (some 1) (w₁.retain (.function .list id)) = (.ok given, w₂) ∧
      w₁.ShowsAll c 1 args given ∧ w₁.Intact w₂ ∧ Touches w₁ w₂ := by
  have hbegin : w₁.Intact (w₁.retain (.function .list id)) := intact_of_instances rfl
  have hall : args.toArray.toList.drop (1 - 1 : Int).toNat = args ++ [] := (List.append_nil args).symm
  obtain ⟨given, w₂, hread, hi, hgiven⟩ := Context.readBatch_intact
    (hbegin.grants c 2 (he.room 2 (by decide))) (Int.le_refl 1) ((hbegin.shown c).trans he.shown)
    hall (by simpa using hshort)
    fun t hmem => by
      rw [hbegin.heap, he.heap]
      exact ht t hmem
  have hquiet : Touches (w₁.retain (.function .list id)) _ :=
    c.quiet_readBatch args.length (some 1) (w₁.retain (.function .list id))
  rw [hread] at hquiet
  exact ⟨given, w₂, hread, showsAll_congr (hbegin.heap c.vm) hgiven, hbegin.trans hi,
    (touches_retain _ _).trans hquiet⟩

theorem Entered.list (he : w.Entered c fs args w₁) (hne : fs ≠ [])
    (hf : w₁.functions.get? id = some ⟨(.list, s), n⟩) (hshort : args.length ≤ Word32.greatest)
    (ht : ∀ t, .thread t ∈ args → (w.heap c.vm).owner? ≠ none) :
    ListProtocol code c id s fs args w₁ := by
  obtain ⟨given, w₂, hread, hgiven, -, hreading⟩ := he.listens id hshort ht
  refine ⟨given, w₂, hread, hgiven, fun {fuel results w₃ w₄} hp hc hpush => ?_⟩
  obtain ⟨f, t, hframes, hs⟩ := he.performed hne hreading hp hc
  have hpushed := pushAll_cases hs hpush
  generalize hr : Except.ok () = r at hpushed
  cases hpushed with
  | refused e => cases hr
  | @done w₄ us hs₄ _ hd =>
    have hpushing : Touches w₃ (w₄.releaseAll results) := by
      have hquiet : Touches w₃ _ := c.quiet_pushAll results trivial w₃
      rw [hpush] at hquiet
      exact hquiet.trans (touches_releaseAll _ results)
    obtain ⟨f', -, hframes', -⟩ := hframes.kept hs.shown fun th hth => hpushing.sameBelow hth
    refine ⟨us, ((w₄.releaseAll results).modifyThread c (·.popFrame)).release (.function .list id),
      by rwa [hs₄.slots], fun i => ?_, (hframes'.pop hne).same rfl, ?_⟩
    · rw [← (alike_releaseAll w₄ results).heap i]
      exact heap_modifyThread _ c i _
    · have hdepth : (w₁.retain (.function .list id)).depth c = args.length :=
        depth_of_shown he.shown
      refine .met fuel (meet_list hf ?_ true) .here
      exact runList_results (by rwa [hdepth]) hp hpush hs₄ hd.length_eq

end World
end LuaEmbed
