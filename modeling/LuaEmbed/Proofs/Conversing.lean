import LuaEmbed.Proofs.Failing
import LuaEmbed.Proofs.Marshalling

/-!
One resume of a conversation with a coroutine. The coroutine waits with nothing on its stack but,
before it has been started, its function; it hears the arguments and nothing else, and when it stops,
what it hands over is taken off its stack, which is empty then.
-/
namespace LuaEmbed

open Engine World

variable {σ μ : Type} {w w' w₁ : World σ μ} {c co source : Context} {th th' : Thread}
  {vs : List Value} {l : List Val} {e : Exit} {s : Array Val}

deriving instance DecidableEq for Engine.Exit

namespace Engine.Exit

/-- The values that a run ends with. -/
def values : Exit → List Val
  | .returned vs | .yielded vs => vs
  | .raised _ v => [v]

/-- What is answered, if the host sees the values in this way, when a run has ended like this. -/
def answer? : Exit → List Value → Option Resumed
  | .returned _, vs => some (.returned vs)
  | .yielded _, vs => some (.yielded vs)
  | .raised .., _ => none

/-- How a coroutine stands to others when its run has ended like this. -/
def leaves : Exit → CoroutineStatus
  | .yielded _ => .suspended
  | _ => .dead

end Engine.Exit

namespace World

/-- A thread that rests shows what it has shown. -/
theorem shown_of_rested (ht : w.thread? c = some th) (ht' : w'.thread? c = some th')
    (hr : th.Rested False th') : w'.shown c = w.shown c := by
  unfold shown
  rw [ht, ht', Option.bind_some, Option.bind_some]
  have hscript := hr.script
  have hslots := hr.slots.resolve_left id
  unfold Frame.isScript at hscript
  unfold Frame.slots at hslots
  unfold Frame.shown
  cases hl : th.top.level <;> cases hl' : th'.top.level <;> simp_all

/-- What a stack shows whose thread is known. -/
theorem native_of_shown (ht : w.thread? c = some th) (hs : w.shown c = some s) :
    th.top.isScript = false ∧ th.top.shown = some s := by
  unfold shown at hs
  rw [ht, Option.bind_some] at hs
  refine ⟨?_, hs⟩
  unfold Frame.shown at hs
  unfold Frame.isScript
  cases hl : th.top.level <;> simp_all

end World

namespace World

/-- What plain values stand for on a stack is their copies. -/
theorem eq_copied {heap : Heap} {stack : Array Val} {us : List Val}
    (hv : ∀ v ∈ vs, v.IsPrimitive = true) (hd : vs.Forall₂ (Denotes heap c stack) us) :
    us = vs.map Value.copied := by
  induction hd with
  | nil => rfl
  | @cons v u vs us hd _ ih =>
    have hu : u = v.copied := by
      have hp := hv v (List.mem_cons_self ..)
      cases v with
      | nil | bool | int | float | text => exact hd
      | _ => cases hp
    rw [hu, ih fun v hmem => hv v (List.mem_cons_of_mem _ hmem), List.map_cons]

/-- Two worlds with the same objects and the same memory of the host. -/
def SameStore (w w' : World σ μ) : Prop :=
  (∀ i, w'.heap i = w.heap i) ∧ w'.memory = w.memory

instance : IsPreorder (World σ μ) SameStore where
  refl _ := ⟨fun _ => rfl, rfl⟩
  trans _ _ _ h k := ⟨fun i => (k.1 i).trans (h.1 i), k.2.trans h.2⟩

theorem memory_releaseAll (w : World σ μ) (vs : List Value) :
    (w.releaseAll vs).memory = w.memory := by
  induction vs generalizing w with
  | nil => rfl
  | cons v vs ih =>
    refine (ih _).trans ?_
    cases v with
    | thread h =>
      unfold release releaseAnchor
      dsimp only
      split
      · split
        · rfl
        · split <;> rfl
      · rfl
    | _ => rfl

theorem memory_anchor (w : World σ μ) (t : StackId) : (w.anchor t).2.memory = w.memory := by
  unfold anchor
  dsimp only
  split <;> rfl

theorem looks_sameStore : Looks (SameStore (σ := σ) (μ := μ)) where
  reserve w c n := ⟨fun i => heap_reserve w c i n, by rw [reserve_world]; rfl⟩
  anchor w t := ⟨(looks_alike.anchor w t).heap, memory_anchor w t⟩
  releaseAll w vs := ⟨(alike_releaseAll w vs).heap, memory_releaseAll w vs⟩

theorem sameStore_removeView (w : World σ μ) (n : Nat) (o : Opening) :
    SameStore w (w.removeView n o) := by
  have hdropped : w.Alike ({ w with views := w.views.erase n }.happened (.dropped ⟨o.stack, n⟩)) :=
    alike_of_instances rfl
  have hremoved : w.Alike (w.removeView n o) := by
    unfold removeView
    exact hdropped.trans (alike_modifyInstance _ _ fun _ => rfl)
  exact ⟨hremoved.heap, rfl⟩

/-- Two worlds that differ at most in what is on a stack, in the room that is reserved, in handles and
in views: the objects, the host's memory and what the threads are about to do are the same. -/
structure SameBut (T : Context) (w w' : World σ μ) : Prop where
  heap : ∀ i, w'.heap i = w.heap i
  memory : w'.memory = w.memory
  threads : ∀ c th, w.thread? c = some th → ∃ th', w'.thread? c = some th' ∧ th.Rested (c = T) th'

end World

namespace ThreadHandle

variable {h : ThreadHandle} {args : List Value}

/-! ### Before a resume -/

/-- A coroutine that can be resumed in a conversation: it has not been started, and its function is
alone on its stack, or it has yielded, and what it yielded has been taken away. -/
inductive Poised (h : ThreadHandle) (w : World σ μ) : Prop where
  | fresh (f : Val) (th : Thread) (ht : w.thread? h.thread = some th) (hs : th.status = .ready)
    (ha : th.above = []) (hf : w.shown h.thread = some #[f])
  | parked (g : Frame) (th : Thread) (ht : w.thread? h.thread = some th) (hp : th.Parked g)
    (hg : g.shown = some #[]) (hf : w.shown h.thread = some #[])

/-- Nothing is refused to a resume that passes plain values: the interpreter has its owner and its
record, no reservation is refused, and native calls are not nested too deeply. -/
structure Welcome (h : ThreadHandle) (source : Context) (args : List Value) (w : World σ μ) :
    Prop where
  owned : (w.instances[h.thread.vm]?).map (·.closed) = some false
  sameVm : source.vm = h.thread.vm
  other : source ≠ h.thread
  recorded : (w.heap source.vm).owner? = some h.thread.vm
  asks : w.Grants source 1
  plain : ∀ v ∈ args, v.IsPrimitive = true
  short : args.length ≤ Word32.greatest
  room : ∀ n, (Context.pushAll h.thread args (h.entered source w)).1 ≠ .error (.stackOverflow n)
  shallow : (w.thread source).top.depth < Vm.maxNesting

theorem Poised.rested (P : h.Poised w) (hr : ∀ th, w.thread? h.thread = some th →
    ∃ th', w'.thread? h.thread = some th' ∧ th.Rested False th') : h.Poised w' := by
  cases P with
  | fresh f th ht hs ha hf =>
    obtain ⟨th', ht', hr⟩ := hr th ht
    exact .fresh f th' ht' (hr.status.trans hs)
      (Thread.tail_frames_eq_nil.mp (hr.below.trans (Thread.tail_frames_eq_nil.mpr ha)))
      ((shown_of_rested ht ht' hr).trans hf)
  | parked g th ht hp hg hf =>
    obtain ⟨th', ht', hr⟩ := hr th ht
    exact .parked g th' ht' (hp.rested hr) hg ((shown_of_rested ht ht' hr).trans hf)

/-- Another thread of the same interpreter is judged by the interpreter. -/
theorem status_judged (hopen : h.isClosed w = false) (hvm : source.vm = h.thread.vm)
    (hne : source ≠ h.thread) (ht : w.thread? h.thread = some th) :
    ∃ vm : Vm, vm.thread h.thread.thread = th ∧
      h.status source w = (.ok (vm.statusSeen h.thread.thread source.thread), w) ∧
      h.thread.thread ≠ source.thread := by
  refine ⟨w.vm h.thread.vm, thread_of_some ht, ?_, fun he => hne ?_⟩
  · unfold ThreadHandle.status
    rw [if_neg (by rw [hopen]; exact Bool.false_ne_true), if_neg hne.symm, if_pos hvm.symm]
  · cases source
    cases hq : h.thread
    simp_all

/-- Such a coroutine is seen as suspended. -/
theorem Poised.seen (P : h.Poised w) (hopen : h.isClosed w = false) (hvm : source.vm = h.thread.vm)
    (hne : source ≠ h.thread) : h.status source w = (.ok .suspended, w) := by
  cases P with
  | fresh f th ht hs ha hf =>
    obtain ⟨vm, rfl, hstatus, hother⟩ := status_judged hopen hvm hne ht
    have hshown := (native_of_shown ht hf).2
    rw [Thread.top_of_base ha] at hshown
    rw [hstatus]
    unfold Vm.statusSeen
    simp [hother, hs, ha, Frame.count_of_shown hshown]
  | parked g th ht hp hg hf =>
    obtain ⟨vm, rfl, hstatus, hother⟩ := status_judged hopen hvm hne ht
    rw [hstatus]
    unfold Vm.statusSeen
    simp [hother, hp.status]

/-- What its stack is seen to be, and its state. -/
theorem Poised.stands (P : h.Poised w) : ∃ st s, w.StandsAs st h.thread s := by
  cases P with
  | fresh f th ht hs ha hf => exact ⟨_, _, hf, by unfold status?; rw [ht]; rfl⟩
  | parked g th ht hp hg hf => exact ⟨_, _, hf, by unfold status?; rw [ht]; rfl⟩

theorem Welcome.owns (W : h.Welcome source args w) :
    ∃ w', source.owns h w = (.ok true, w') ∧ w.Intact w' := by
  obtain ⟨x, hx, hc⟩ := Option.map_eq_some_iff.mp W.owned
  obtain ⟨w', hi, hshared, -⟩ := Context.shared_intact W.asks
  refine ⟨w', ?_, hi⟩
  unfold Context.owns
  rw [Api.get_bind]
  simp only [World.instance?, hx, hc]
  rw [if_neg Bool.false_ne_true, Api.bind_ok (hshared _ W.recorded)]
  simp
  rfl

/-- Nothing stands in the way of a resume to which nothing is refused. -/
theorem Welcome.goes (W : h.Welcome source args w) (P : h.Poised w) {st : ThreadStatus}
    (hs : w.StandsAs st source s) : h.Goes source args w := by
  obtain ⟨w', hown, hi⟩ := W.owns
  have howns : (source.owns h w).1 = .ok true := congrArg Prod.fst hown
  have hunmoved : w.Unmoved (source.owns h w).2 := unmoved_touches (source.quiet_owns h w)
  have hopen : h.isClosed (source.owns h w).2 = false := (entered_eq howns).1
  have hseen : (h.status source (source.owns h w).2).1 = .ok .suspended :=
    congrArg Prod.fst ((P.rested fun th ht => hunmoved _ th ht).seen hopen W.sameVm W.other)
  have hpushed : (Context.pushAll h.thread args (h.entered source w)).1 = .ok () := by
    rcases Context.pushAll_cases (c := h.thread) W.plain (h.entered source w) with
      ⟨w₁, hpush, -⟩ | ⟨n, w₁, hpush⟩
    · rw [hpush]
    · exact absurd (congrArg Prod.fst hpush) (W.room n)
  refine ⟨howns, hseen, W.short, hpushed, ?_⟩
  obtain ⟨st', s', hstands⟩ := P.stands
  rw [refusal_of_suspended howns hseen hpushed hstands, if_neg (Nat.not_le.mpr ?_)]
  obtain ⟨th, ht, -⟩ := hs.thread
  obtain ⟨th₁, ht₁, hr₁⟩ := hunmoved _ th ht
  have hentered : (h.entered source w).thread? source = some th₁ := by
    rw [(entered_eq howns).2]
    exact ((noted_addView _ _).thread? _).trans ht₁
  obtain ⟨th₂, ht₂, hr₂⟩ :=
    TouchesIn.sameBelow (Context.quiet_pushAll h.thread args trivial (h.entered source w)) hentered
  have hshallow := W.shallow
  rw [thread_of_some ht] at hshallow
  rw [show (h.loaded source args w).thread source = th₂ from thread_of_some ht₂, hr₂.depth, hr₁.depth]
  exact hshallow

/-! ### What the coroutine hears -/

/-- A coroutine goes on with these values: its function, which has been alone on its stack, is applied
to them, or they are what the yield returns at which it is parked. -/
inductive Hears (h : ThreadHandle) (w : World σ μ) (vals : List Val) (m : Moment σ μ) : Prop where
  | begins (f : Val) (hf : w.Stands h.thread #[f]) (v : World σ μ) (hv : v.Stands h.thread #[])
    (hm : (m.next, m.world) = v.onVm h.thread.vm fun vm =>
      vm.enter h.thread.thread f vals { nests := false, canYield := true })
  | goesOn (hy : w.status? h.thread = some .yielded) (hm : m.next = .go (.results vals))

/-- What a coroutine hears is what was passed, and its body runs above an empty base. -/
theorem Goes.hears (G : h.Goes source args w) (P : h.Poised w)
    (hv : ∀ v ∈ args, v.IsPrimitive = true) :
    h.Hears w (args.map Value.copied) (h.turn source args w) ∧
    ∃ g th, g.shown = some #[] ∧ (h.turn source args w).world.thread? h.thread = some th ∧
      th.InRun true .ready g [] (h.turn source args w).next := by
  cases P with
  | fresh f th ht hs ha hf =>
    have hstands : w.Stands h.thread #[f] := ⟨hf, by unfold status?; rw [ht, ← hs]; rfl⟩
    obtain ⟨vals, v, ground, depth, size, hd, hv', hm⟩ := G.applies (s := #[]) hstands
    obtain rfl := eq_copied hv hd
    refine ⟨.begins f hstands v ⟨?_, ?_⟩ hm, G.begins (s := #[]) hstands⟩
    · unfold shown
      rw [hv']
      rfl
    · unfold status?
      rw [hv']
      rfl
  | parked g th ht hp hg hf =>
    obtain ⟨vals, depth, th', hnext, hd, ht', hs'⟩ := G.goesOn ht hp
    obtain rfl := eq_copied hv hd
    refine ⟨.goesOn ?_ hnext, g.nested depth, th', hg, ht', by rw [hnext]; exact hs'⟩
    unfold status?
    rw [ht, Option.map_some, hp.status]

/-! ### After a resume -/

/-- What a coroutine hands over can be read: the interpreter has its owner and has not been closed,
there is room for reading and, if there are threads among the values, the record. -/
structure Legible (co : Context) (e : Exit) (w : World σ μ) : Prop where
  owned : (w.instances[co.vm]?).map (·.closed) = some false
  unclosed : .closed co.vm ∉ w.history
  short : (e.values.length : Int) ≤ Word32.greatest
  room : e.values ≠ [] → (stopped co e w).Grants co 2
  recorded : ∀ t, .thread t ∈ e.values → (w.heap co.vm).owner? ≠ none

/-- The world that a resume leaves behind, by the world in which the coroutine has stopped. -/
def left (h : ThreadHandle) (source : Context) (w : World σ μ) (e : Exit) (w₁ : World σ μ) :
    World σ μ :=
  (handBack h.thread e w₁).2.removeView (source.owns h w).2.views.next ⟨h.thread, false⟩

/-- How a coroutine is left: ready for the next resume if it has yielded, and otherwise with nothing
on its stack and nothing to run. -/
def Settled (h : ThreadHandle) (e : Exit) (w : World σ μ) : Prop :=
  match e with
  | .yielded _ => h.Poised w
  | .returned _ => ∃ th, w.thread? h.thread = some th ∧ th.status = .ready ∧ th.above = [] ∧
      w.shown h.thread = some #[]
  | .raised .. => False

theorem Settled.seen (S : h.Settled e w) (hopen : h.isClosed w = false)
    (hvm : source.vm = h.thread.vm) (hne : source ≠ h.thread) :
    h.status source w = (.ok e.leaves, w) := by
  cases e with
  | yielded vs => exact Poised.seen S hopen hvm hne
  | raised status v => exact S.elim
  | returned vs =>
    obtain ⟨th, ht, hs, ha, hf⟩ := S
    obtain ⟨vm, rfl, hstatus, hother⟩ := status_judged hopen hvm hne ht
    have hshown := (native_of_shown ht hf).2
    rw [Thread.top_of_base ha] at hshown
    rw [hstatus]
    unfold Vm.statusSeen
    simp [hother, hs, ha, Frame.count_of_shown hshown, Exit.leaves]

/-- The values that are all a stack shows are popped, if they can be read. -/
theorem popValues_all (hs : w.shown co = some l.toArray) (hl : (l.length : Int) ≤ Word32.greatest)
    (hroom : l ≠ [] → w.Grants co 2) (ho : ∀ t, .thread t ∈ l → (w.heap co.vm).owner? ≠ none) :
    ∃ vs w', co.popValues l.length w = (.ok vs, w') ∧ w.ShowsAll co 1 l vs ∧
      w'.shown co = some #[] := by
  have hpopped : ∃ vs w', co.popValues l.length w = (.ok vs, w') := by
    by_cases h0 : l = []
    · subst h0
      exact ⟨[], w, rfl⟩
    · refine Context.exists_popValues_whole hs hl ⟨fun _ => hroom h0, fun u hu ht => ?_⟩
      have hmem : u ∈ l := by
        rw [slots_of_shown hs] at hu
        unfold StackOp.seen at hu
        dsimp only at hu
        cases hwindow : Index.window? l.length none l.length with
        | none => simp [hwindow] at hu
        | some k =>
          simp only [hwindow, Option.map_some, Option.getD_some] at hu
          exact List.mem_of_mem_drop hu
      cases u with
      | thread t => exact ho t hmem
      | _ => cases ht
  obtain ⟨vs, w', hpop⟩ := hpopped
  exact ⟨vs, w', hpop, Context.popValues_whole hs hpop⟩

/-- No interpreter loses its owner by the end of a resume. -/
theorem closed_left (i : Nat) : ((h.left source w e w₁).instances[i]?).map (·.closed) =
    (w₁.instances[i]?).map (·.closed) := by
  have hremoved : ∀ (v : World σ μ) n, ((v.removeView n ⟨h.thread, false⟩).instances[i]?).map (·.closed) =
      (v.instances[i]?).map (·.closed) := by
    intro v n
    unfold removeView
    rw [instances_modifyInstance]
    split
    · rw [Option.map_map]
      rfl
    · rfl
  unfold left
  rw [hremoved, closed_handBack]

theorem isClosed_of_owned (hc : (w.instances[h.thread.vm]?).map (·.closed) = some false) :
    h.isClosed w = false := by
  unfold ThreadHandle.isClosed World.instance?
  rw [hc]
  rfl

theorem heap_stopped (co : Context) (e : Exit) (w : World σ μ) (i : Nat) :
    (stopped co e w).heap i = w.heap i := by
  have hend : ∀ vm : Vm, (vm.endResume co.thread e).heap = vm.heap := by
    intro vm
    cases e <;> rfl
  unfold stopped modifyVm heap vm
  rw [instances_modifyInstance]
  split
  next hi =>
    subst hi
    cases w.instances[co.vm]? with
    | none => rfl
    | some x => exact hend x.vm
  next => rfl

/-- What is made of an exit that is not an error is that the values are popped. -/
theorem handBack_pops (co : Context) (w₁ : World σ μ) (he : ∀ status v, e ≠ .raised status v) :
    ∃ n : Int, (handBack co e w₁).2 = (co.popValues n (stopped co e w₁)).2 ∧
      ((stopped co e w₁).shown co = some e.values.toArray → n = e.values.length) ∧
      ∀ vs w', co.popValues n (stopped co e w₁) = (.ok vs, w') →
        ∃ a, e.answer? vs = some a ∧ (handBack co e w₁).1 = .ok a := by
  have hmap : ∀ (n : Int) (kind : List Value → Resumed),
      ((co.popValues n >>= fun vs => pure (kind vs) : Api σ μ Resumed) (stopped co e w₁)).2 =
        (co.popValues n (stopped co e w₁)).2 ∧
      ∀ vs w', co.popValues n (stopped co e w₁) = (.ok vs, w') →
        ((co.popValues n >>= fun vs => pure (kind vs) : Api σ μ Resumed) (stopped co e w₁)).1 =
          .ok (kind vs) := by
    intro n kind
    refine ⟨?_, fun vs w' h => by rw [Api.bind_ok h]; rfl⟩
    cases h : co.popValues n (stopped co e w₁) with
    | mk r w' =>
      cases r with
      | ok vs =>
        rw [Api.bind_ok h]
        rfl
      | error e => rw [Api.bind_error h]
  cases e with
  | raised status v => exact absurd rfl (he status v)
  | returned vs =>
    refine ⟨(stopped co (.returned vs) w₁).depth co, (hmap _ .returned).1, fun hs => ?_,
      fun vs w' h => ⟨_, rfl, (hmap _ .returned).2 vs w' h⟩⟩
    rw [depth_of_shown hs]
    rfl
  | yielded vs =>
    exact ⟨vs.length, (hmap _ .yielded).1, fun _ => rfl,
      fun vs w' h => ⟨_, rfl, (hmap _ .yielded).2 vs w' h⟩⟩

/-- Taking what a coroutine hands over off its stack leaves the rest of it alone. -/
theorem rested_left (source : Context) (w : World σ μ) (he : ∀ status v, e ≠ .raised status v) (ht : w₁.thread? h.thread = some th)
    (hn : th.top.isScript = false) :
    ∃ th', (h.left source w e w₁).thread? h.thread = some th' ∧ th.Rested True th' := by
  have hstopped : ∃ th', (stopped h.thread e w₁).thread? h.thread = some th' ∧ th.Rested True th' := by
    obtain ⟨x, hx, hth⟩ := Option.bind_eq_some_iff.mp ht
    unfold stopped
    rw [thread?_modifyVm, if_pos rfl, hx]
    cases e with
    | raised status v => exact absurd rfl (he status v)
    | yielded vs => exact ⟨th, hth, .refl True th⟩
    | returned vs =>
      refine ⟨_, Vm.thread?_modify hth _, Thread.sameBelow_modifyTop _ ?_ rfl rfl rfl (.inl rfl), ?_,
        .inl trivial⟩
      · rw [hn]
        rfl
      · rw [Thread.top_modifyTop]
        rfl
  obtain ⟨th₁, ht₁, hr₁⟩ := hstopped
  obtain ⟨n, hback, -⟩ := handBack_pops h.thread w₁ he
  obtain ⟨th₂, ht₂, hr₂⟩ := TouchesIn.rested (A := fun _ => True)
    (Context.quiet_popValues h.thread n trivial (stopped h.thread e w₁)) ht₁
  refine ⟨th₂, ?_, hr₁.trans hr₂⟩
  unfold left
  rw [(noted_removeView _ _ _).thread?, hback]
  exact ht₂

/-- It leaves other threads as they are. -/
theorem unmoved_left {T : Context} (source : Context) (w : World σ μ) (hne : T ≠ h.thread) (he : ∀ status v, e ≠ .raised status v)
    (ht : w₁.thread? T = some th) :
    ∃ th', (h.left source w e w₁).thread? T = some th' ∧ th.Rested False th' := by
  obtain ⟨n, hback, -⟩ := handBack_pops h.thread w₁ he
  have hended : (stopped h.thread e w₁).thread? T = some th :=
    (still_apart hne w₁ fun vm => Vm.apart_endResume vm _ _).same th ht
  obtain ⟨th', ht', hr⟩ := TouchesIn.rested
    (Context.quiet_popValues h.thread n rfl (stopped h.thread e w₁)) hended
  refine ⟨th', ?_, hr.toSameBelow, hr.waits, .inr (hr.slots.resolve_left hne.symm)⟩
  unfold left
  rw [(noted_removeView _ _ _).thread?, hback]
  exact ht'

/-- Beyond its stack it changes nothing that the coroutines work with. -/
theorem sameBut_left (source : Context) (w : World σ μ) (he : ∀ status v, e ≠ .raised status v)
    (ht : w₁.thread? h.thread = some th) (hn : th.top.isScript = false) :
    w₁.SameBut h.thread (h.left source w e w₁) := by
  obtain ⟨n, hback, -⟩ := handBack_pops h.thread w₁ he
  have hstore : SameStore (stopped h.thread e w₁) (h.left source w e w₁) := by
    unfold left
    rw [hback]
    exact trans_of SameStore (looks_sameStore.keeps_popValues h.thread
      (fun w f => ⟨fun i => heap_modifySlots w _ i f, rfl⟩) n _) (sameStore_removeView _ _ _)
  refine ⟨fun i => (hstore.1 i).trans (heap_stopped h.thread e w₁ i), hstore.2, fun T th' ht' => ?_⟩
  · by_cases hT : T = h.thread
    · subst hT
      obtain rfl := Option.some.inj (ht.symm.trans ht')
      obtain ⟨th₂, ht₂, hr⟩ := rested_left source w he ht hn
      exact ⟨th₂, ht₂, hr.toSameBelow, hr.waits, .inl rfl⟩
    · obtain ⟨th₂, ht₂, hr⟩ := unmoved_left source w hT he ht'
      exact ⟨th₂, ht₂, hr.toSameBelow, hr.waits, .inr (hr.slots.resolve_left id)⟩

/-- When a coroutine has stopped, its stack shows what it hands over and nothing else. -/
theorem stopped_shows {g : Frame} (co : Context) (he : ∀ status v, e ≠ .raised status v) (hg : g.shown = some #[])
    (ht : w₁.thread? co = some th) (hr : th.InRun true .ready g [] (.exit e)) :
    th.top.isScript = false ∧ (stopped co e w₁).shown co = some e.values.toArray := by
  cases e with
  | raised status v => exact absurd rfl (he status v)
  | yielded vs =>
    obtain ⟨hp, -⟩ := hr.parked
    refine ⟨hp.native, (shown_stopped_yielded co vs w₁).trans ?_⟩
    unfold shown
    rw [ht, Option.bind_some]
    unfold Frame.shown
    rw [hr.2.2.1]
    rfl
  | returned vs =>
    have htop : th.top = { g with await := .idle } :=
      (List.cons.inj ((th.frames_eq).symm.trans hr.2)).1
    have hshown : w₁.shown co = some #[] := by
      unfold shown
      rw [ht, Option.bind_some, htop]
      exact hg
    refine ⟨(native_of_shown ht hshown).1, ?_⟩
    rw [shown_stopped_returned hshown, Array.empty_append]
    rfl

/-- With its stack emptied, the coroutine is as it is to be left. -/
theorem settled_of_rested {g : Frame} (he : ∀ status v, e ≠ .raised status v)
    (hg : g.shown = some #[]) (hr : th.InRun true .ready g [] (.exit e))
    (ht : w.thread? h.thread = some th') (hs : th.Rested True th')
    (hf : w.shown h.thread = some #[]) : h.Settled e w := by
  cases e with
  | raised status v => exact absurd rfl (he status v)
  | yielded vs => exact .parked g th' ht (hr.parked.1.rested hs) hg hf
  | returned vs =>
    have htail : th.frames.tail = [] := by rw [hr.2, List.tail_cons]
    exact ⟨th', ht, hs.status.trans hr.1,
      Thread.tail_frames_eq_nil.mp (hs.below.trans htail), hf⟩

/-- What a resume in a conversation does: the coroutine hears the arguments; what the run of its body
ends with is answered, and is gone from its stack; it is seen as suspended after a yield and as dead
after its return; and beyond this nothing is done to what the body has left behind. -/
structure Answers (code : HostCode σ μ) (fuel : Nat) (h : ThreadHandle) (source : Context)
    (args : List Value) (w : World σ μ) (e : Exit) (w₁ : World σ μ) : Prop where
  hears : h.Hears w (args.map Value.copied) (h.turn source args w)
  answer : ∃ vs a, e.answer? vs = some a ∧ w₁.ShowsAll h.thread 1 e.values vs ∧
    h.resume source args (World.drive code fuel) w = some (.ok a, h.left source w e w₁)
  emptied : (h.left source w e w₁).shown h.thread = some #[]
  status : (h.status source (h.left source w e w₁)).1 = .ok e.leaves
  settled : h.Settled e (h.left source w e w₁)
  data : w₁.SameBut h.thread (h.left source w e w₁)

/-- A resume of a coroutine that is poised, to which nothing is refused and whose body yields or
returns what can be read, is answered. -/
theorem Poised.answers {code : HostCode σ μ} {fuel : Nat} (P : h.Poised w)
    (W : h.Welcome source args w) {st : ThreadStatus} (hs : w.StandsAs st source s)
    (hd : (World.drive code fuel).from (h.turn source args w) = some (e, w₁))
    (he : ∀ status v, e ≠ .raised status v) (L : Legible h.thread e w₁) :
    Answers code fuel h source args w e w₁ := by
  have G := W.goes P hs
  obtain ⟨hears, g, th, hg, ht, hr⟩ := G.hears P W.plain
  have hran : Unclosed h.thread.vm (h.turn source args w).world w₁ :=
    unclosed_of_not_mem (path_drive code fuel _ _ _ _ _ hd).grows L.unclosed
  obtain ⟨th₁, ht₁, hr₁, -⟩ := (sound_drive code fuel).returns hd hran ht hr
  obtain ⟨hnative, hshown⟩ := stopped_shows h.thread he hg ht₁ hr₁
  obtain ⟨vs, w₂, hpop, hshows, hempty⟩ := popValues_all hshown L.short L.room fun t ht => by
    rw [heap_stopped]
    exact L.recorded t ht
  obtain ⟨n, hback, hn, hanswer⟩ := handBack_pops h.thread w₁ he
  obtain rfl := hn hshown
  obtain ⟨a, ha, hback₁⟩ := hanswer vs w₂ hpop
  have hleft : (h.left source w e w₁).shown h.thread = some #[] := by
    unfold left
    rw [shown, (noted_removeView _ _ _).thread?, hback, hpop]
    exact hempty
  obtain ⟨th₂, ht₂, hr₂⟩ := rested_left source w he ht₁ hnative
  have hsettled := settled_of_rested he hg hr₁ ht₂ hr₂ hleft
  have hopen : h.isClosed (h.left source w e w₁) = false := isClosed_of_owned (by
    rw [closed_left]
    exact L.owned)
  refine ⟨hears, ⟨vs, a, ha, showsAll_congr (heap_stopped h.thread e w₁ h.thread.vm) hshows, ?_⟩,
    hleft, congrArg Prod.fst (hsettled.seen hopen W.sameVm W.other), hsettled,
    sameBut_left source w he ht₁ hnative⟩
  rw [G.ends hd L.owned, hback₁]
  rfl

end ThreadHandle
end LuaEmbed
