import LuaEmbed.Proofs.Reading

/-!
What becomes of host values on a stack: plain values are copied, references to the host's objects
are wrapped, and handles and threads become what they stand for. Pushing appends and does nothing
else, and when a value cannot be pushed the stack below it is as it was.
-/
namespace LuaEmbed

open Engine

/-- Functions and userdata are still there with what they carry, and allocation fails or not as it
did. -/
structure Engine.Heap.Extends (h h' : Heap) : Prop where
  closures : ∀ i x, h.closures.get? i = some x → h'.closures.get? i = some x
  userdata : ∀ i x, h.userdata.get? i = some x →
    ∃ x', h'.userdata.get? i = some x' ∧ x'.payload = x.payload
  starved : h'.starved = h.starved

namespace Engine

namespace Heap

variable {h h' h'' : Heap}

theorem Extends.refl (h : Heap) : h.Extends h :=
  ⟨fun _ _ hx => hx, fun _ x hx => ⟨x, hx, rfl⟩, rfl⟩

theorem Extends.trans (e : h.Extends h') (e' : h'.Extends h'') : h.Extends h'' := by
  refine ⟨fun i x hx => e'.closures i x (e.closures i x hx), fun i x hx => ?_,
    e'.starved.trans e.starved⟩
  obtain ⟨x', hx', hp⟩ := e.userdata i x hx
  obtain ⟨x'', hx'', hp'⟩ := e'.userdata i x' hx'
  exact ⟨x'', hx'', hp'.trans hp⟩

theorem extends_of_pools (hc : h'.closures = h.closures) (hu : h'.userdata = h.userdata)
    (hs : h'.starved = h.starved) : h.Extends h' :=
  ⟨fun i x hx => by rwa [hc], fun i x hx => ⟨x, by rwa [hu], rfl⟩, hs⟩

theorem extends_rawSet (h : Heap) (t k v : Val) : h.Extends (h.rawSet t k v) := by
  cases t <;> exact extends_of_pools rfl rfl rfl

theorem extends_namedMetatable (h : Heap) (name : String) :
    h.Extends (h.namedMetatable name).2.2 := by
  unfold namedMetatable
  split
  · exact extends_of_pools rfl rfl rfl
  · exact .refl h

theorem extends_newClosure (h : Heap) (c : Closure) : h.Extends (h.newClosure c).2 := by
  refine ⟨fun i x hx => ?_, fun i x hx => ⟨x, hx, rfl⟩, rfl⟩
  unfold newClosure
  rw [Pool.get?_push, if_neg (Nat.ne_of_lt (Pool.lt_next hx)), hx]

theorem extends_newUserdata (h : Heap) (u : Userdata) : h.Extends (h.newUserdata u).2 := by
  refine ⟨fun i x hx => hx, fun i x hx => ⟨x, ?_, rfl⟩, rfl⟩
  unfold newUserdata
  rw [Pool.get?_push, if_neg (Nat.ne_of_lt (Pool.lt_next hx)), hx]

theorem extends_setMetatable (h : Heap) (i : Nat) (m : Option Nat) :
    h.Extends (h.setMetatable (.userdata i) m) := by
  have hset : h.Extends { h with userdata := h.userdata.modify i ({ · with metatable := m }) } := by
    refine ⟨fun j x hx => hx, fun j x hx => ?_, rfl⟩
    rw [Pool.get?_modify, hx]
    split
    · exact ⟨_, rfl, rfl⟩
    · exact ⟨x, rfl, rfl⟩
  unfold setMetatable
  dsimp only
  split
  · exact hset
  · exact hset.trans (extends_of_pools rfl rfl rfl)

end Heap

end Engine

namespace World

variable {σ μ : Type} {c d : Context} {w w' w₁ : World σ μ}

/-- A native function is on top of a thread in this state, and shows these slots. -/
structure StandsAs (w : World σ μ) (st : ThreadStatus) (c : Context) (s : Array Val) : Prop where
  shown : w.shown c = some s
  state : w.status? c = some st

/-- A native function is on top of a thread that is ready to run, and shows these slots. -/
abbrev Stands (w : World σ μ) (c : Context) (s : Array Val) : Prop := w.StandsAs .ready c s

variable {st : ThreadStatus}

theorem StandsAs.slots {s : Array Val} (h : w.StandsAs st c s) : w.slots c = s :=
  slots_of_shown h.shown

theorem StandsAs.depth {s : Array Val} (h : w.StandsAs st c s) : w.depth c = s.size :=
  depth_of_shown h.shown

theorem Alike.stands {s : Array Val} (h : w.Alike w') (hs : w.StandsAs st c s) :
    w'.StandsAs st c s :=
  ⟨(h.shown c).trans hs.shown, (h.status c).trans hs.state⟩

theorem StandsAs.modifySlots {s : Array Val} (h : w.StandsAs st c s) (f : Array Val → Array Val) :
    (w.modifySlots c f).StandsAs st c (f s) := by
  refine ⟨?_, (status?_modifySlots w c c f).trans h.state⟩
  rw [shown_modifySlots_self, h.shown]
  rfl

theorem StandsAs.push {s : Array Val} (h : w.StandsAs st c s) (v : Val) :
    (w.push c v).StandsAs st c (s.push v) :=
  h.modifySlots _

/-- Work on objects, as the stacks see it. -/
theorem StandsAs.onVm {α : Type} [Inhabited α] {s : Array Val} (h : w.StandsAs st c s) (i : Nat)
    {f : Vm → Vm × α} (hf : ∀ vm, (f vm).1.threads = vm.threads) :
    (w.onVm i f).2.StandsAs st c s := by
  refine ⟨(shown_onVm w c i f hf).trans h.shown, ?_⟩
  unfold status?
  rw [onVm_world, thread?_objects w i c _ hf]
  exact h.state

/-- What a host value is on a stack, among the objects of its interpreter. -/
def Denotes (h : Heap) (c : Context) (stack : Array Val) (v : Value) (u : Val) : Prop :=
  match v with
  | .nil => u = .nil
  | .bool b => u = .bool b
  | .int i => u = .int i
  | .float x => u = .float x
  | .text s => u = .str s
  | .function shape id => ∃ f k x, u = .closure f ∧
      h.closures.get? f = some (.native (entry shape) #[.userdata k]) ∧
      h.userdata.get? k = some x ∧ x.payload = .function (shape = .list) (some id)
  | .thread t => u = .thread t.thread.thread
  | .handle hd => hd.stack = c ∧ stack[(hd.position - 1).toNat]? = some u
  | .foreign id => ∃ k x, u = .userdata k ∧ h.userdata.get? k = some x ∧
      x.payload = .foreign (some id)

/-- What stands for a host function does not depend on what else is on the stack. -/
theorem Denotes.anywhere {h : Heap} {s s' : Array Val} {shape : FunctionShape} {id : Nat} {u : Val}
    (hd : Denotes h c s (.function shape id) u) : Denotes h c s' (.function shape id) u := hd

theorem Denotes.extend {h h' : Heap} {stack : Array Val} {v : Value} {u : Val}
    (hd : Denotes h c stack v u) (he : h.Extends h') (us : Array Val) :
    Denotes h' c (stack ++ us) v u := by
  cases v with
  | function shape id =>
    obtain ⟨f, k, x, rfl, hf, hk, hp⟩ := hd
    obtain ⟨x', hk', hp'⟩ := he.userdata k x hk
    exact ⟨f, k, x', rfl, he.closures f _ hf, hk', hp'.trans hp⟩
  | foreign id =>
    obtain ⟨k, x, rfl, hk, hp⟩ := hd
    obtain ⟨x', hk', hp'⟩ := he.userdata k x hk
    exact ⟨k, x', rfl, hk', hp'.trans hp⟩
  | handle hd' =>
    refine ⟨hd.1, ?_⟩
    obtain ⟨hl, hu⟩ := Array.getElem?_eq_some_iff.mp hd.2
    rw [Array.getElem?_append_left hl, hd.2]
  | _ => exact hd

/-! ### Wrapping host objects -/

/-- Work on objects, as whoever looks at them sees it. -/
theorem StandsAs.onVm_eq {α : Type} [Inhabited α] {s : Array Val} (h : w.StandsAs st c s)
    (f : Vm → Vm × α) :
    ∃ vm, w.heap c.vm = vm.heap ∧ (w.onVm c.vm f).1 = (f vm).2 ∧
      (w.onVm c.vm f).2.heap c.vm = (f vm).1.heap := by
  obtain ⟨th, ht, -⟩ := Option.bind_eq_some_iff.mp h.shown
  obtain ⟨x, hx, -⟩ := Option.bind_eq_some_iff.mp ht
  refine ⟨x.vm, ?_, onVm_answer w c.vm f hx, ?_⟩
  · unfold heap
    rw [vm_eq w c.vm hx]
  · unfold heap vm
    rw [onVm_world, modifyVm, instances_modifyInstance_self, hx]
    rfl

theorem carrier_spec (h : Heap) (p : Payload) (m : String) (b : Builtin) :
    h.Extends (carrier h p m b).2 ∧ ∃ k x, (carrier h p m b).1 = .userdata k ∧
      (carrier h p m b).2.userdata.get? k = some x ∧ x.payload = p := by
  unfold carrier
  have hmeta := Heap.extends_namedMetatable h m
  generalize h.namedMetatable m = named at hmeta
  obtain ⟨t, isNew, h₁⟩ := named
  dsimp only at hmeta ⊢
  have hfields : h₁.Extends (if isNew = true then
      (h₁.rawSetText t "__gc" (.builtin b)).rawSetText t "__metatable" (.bool false) else h₁) := by
    split
    · exact (Heap.extends_rawSet _ _ _ _).trans (Heap.extends_rawSet _ _ _ _)
    · exact .refl h₁
  generalize (if isNew = true then
      (h₁.rawSetText t "__gc" (.builtin b)).rawSetText t "__metatable" (.bool false) else h₁) = h₂
        at hfields
  have hnew := Heap.extends_newUserdata h₂ ⟨p, 16, none⟩
  have hget : (h₂.newUserdata ⟨p, 16, none⟩).2.userdata.get? h₂.userdata.next =
      some ⟨p, 16, none⟩ := by
    unfold Heap.newUserdata
    rw [Pool.get?_push, if_pos rfl]
  have hall := (hmeta.trans hfields).trans hnew
  have hu : (h₂.newUserdata ⟨p, 16, none⟩).1 = .userdata h₂.userdata.next := rfl
  split
  next i =>
    have hset := Heap.extends_setMetatable (h₂.newUserdata ⟨p, 16, none⟩).2 h₂.userdata.next
      (some i)
    obtain ⟨x, hx, hp⟩ := hset.userdata _ _ hget
    exact ⟨hall.trans hset, _, x, rfl, hx, hp⟩
  next => exact ⟨hall, _, _, rfl, hget, rfl⟩

theorem StandsAs.pushUserdata {s : Array Val} (hs : w.StandsAs st c s) (p : Payload) (m : String)
    (b : Builtin) :
    (w.pushUserdata c p m b).2.StandsAs st c s ∧
    (w.heap c.vm).Extends ((w.pushUserdata c p m b).2.heap c.vm) ∧
    ∃ k x, (w.pushUserdata c p m b).1 = .userdata k ∧
      ((w.pushUserdata c p m b).2.heap c.vm).userdata.get? k = some x ∧ x.payload = p := by
  refine ⟨hs.onVm c.vm fun _ => rfl, ?_⟩
  obtain ⟨vm, hheap, hanswer, hheap'⟩ := hs.onVm_eq fun vm =>
    ({ vm with heap := (carrier vm.heap p m b).2 }, (carrier vm.heap p m b).1)
  unfold World.pushUserdata
  rw [hheap, hanswer, hheap']
  exact carrier_spec vm.heap p m b

/-- A closure over a carrier of a host function. -/
theorem StandsAs.newClosure {s : Array Val} (hs : w.StandsAs st c s) (b : Builtin) (u : Val) :
    let r := w.onVm c.vm fun vm =>
      ({ vm with heap := (vm.heap.newClosure (.native b #[u])).2 },
        (vm.heap.newClosure (.native b #[u])).1)
    r.2.StandsAs st c s ∧ (w.heap c.vm).Extends (r.2.heap c.vm) ∧
      ∃ f, r.1 = .closure f ∧ (r.2.heap c.vm).closures.get? f = some (.native b #[u]) := by
  dsimp only
  refine ⟨hs.onVm c.vm fun _ => rfl, ?_⟩
  obtain ⟨vm, hheap, hanswer, hheap'⟩ := hs.onVm_eq fun vm =>
    ({ vm with heap := (vm.heap.newClosure (.native b #[u])).2 },
      (vm.heap.newClosure (.native b #[u])).1)
  rw [hheap, hanswer, hheap']
  refine ⟨Heap.extends_newClosure _ _, _, rfl, ?_⟩
  unfold Heap.newClosure
  rw [Pool.get?_push, if_pos rfl]

theorem thread?_closureOf (w : World σ μ) (c : Context) (shape : FunctionShape) (id : Nat) :
    (w.closureOf c shape id).2.thread? c = w.thread? c := by
  have hobjects : ∀ (w : World σ μ) (f : Vm → Vm × Val), (∀ vm, (f vm).1.threads = vm.threads) →
      (w.onVm c.vm f).2.thread? c = w.thread? c := by
    intro w f hf
    rw [onVm_world]
    exact thread?_objects w c.vm c _ hf
  have hcarrier : ∀ p m b, ((w.retain (.function shape id)).pushUserdata c p m b).2.thread? c
      = w.thread? c := fun p m b => hobjects _ _ fun _ => rfl
  unfold closureOf
  cases shape with
  | raw | list =>
    dsimp only
    rw [hobjects _ _ fun _ => rfl]
    exact hcarrier _ _ _

theorem StandsAs.pushFunction {s : Array Val} (hs : w.StandsAs st c s) (shape : FunctionShape)
    (id : Nat) : ∃ u, (w.pushFunction c shape id).StandsAs st c (s.push u) ∧
      (w.heap c.vm).Extends ((w.pushFunction c shape id).heap c.vm) ∧
      Denotes ((w.pushFunction c shape id).heap c.vm) c s (.function shape id) u := by
  have hr := alike_retain w (.function shape id)
  have hfinish : ∀ m b, ∃ u,
      let r := (w.retain (.function shape id)).pushUserdata c
        (.function (shape = .list) (some id)) m b
      let q := r.2.onVm c.vm fun vm =>
        ({ vm with heap := (vm.heap.newClosure (.native (entry shape) #[r.1])).2 },
          (vm.heap.newClosure (.native (entry shape) #[r.1])).1)
      u = q.1 ∧ (q.2.push c u).StandsAs st c (s.push u) ∧
        (w.heap c.vm).Extends ((q.2.push c u).heap c.vm) ∧
        Denotes ((q.2.push c u).heap c.vm) c s (.function shape id) u := by
    intro m b
    obtain ⟨hstands, hext, k, x, hu, hx, hp⟩ :=
      (hr.stands hs).pushUserdata (.function (shape = .list) (some id)) m b
    obtain ⟨hstands', hext', f, hf, hget⟩ := hstands.newClosure (entry shape)
      ((w.retain (.function shape id)).pushUserdata c (.function (shape = .list) (some id)) m b).1
    obtain ⟨x', hx', hp'⟩ := hext'.userdata k x hx
    rw [hr.heap] at hext
    refine ⟨_, rfl, hstands'.push _, ?_, ?_⟩
    · rw [heap_push]
      exact hext.trans hext'
    · rw [heap_push]
      exact ⟨f, k, x', hf, hu ▸ hget, hx', hp'.trans hp⟩
  cases shape with
  | raw =>
    obtain ⟨u, rfl, h⟩ := hfinish rawMeta .collectRaw
    exact ⟨_, h⟩
  | list =>
    obtain ⟨u, rfl, h⟩ := hfinish listMeta .collectList
    exact ⟨_, h⟩

theorem StandsAs.pushForeign {s : Array Val} (hs : w.StandsAs st c s) (id : Nat) :
    ∃ u, (w.pushForeign c id).StandsAs st c (s.push u) ∧
      (w.heap c.vm).Extends ((w.pushForeign c id).heap c.vm) ∧
      Denotes ((w.pushForeign c id).heap c.vm) c s (.foreign id) u := by
  have hr := alike_retain w (.foreign id)
  obtain ⟨hstands, hext, k, x, hu, hx, hp⟩ :=
    (hr.stands hs).pushUserdata (.foreign (some id)) foreignMeta .collectForeign
  rw [hr.heap] at hext
  have he : ∀ r,
      (w.retain (.foreign id)).pushUserdata c (.foreign (some id)) foreignMeta .collectForeign = r →
      w.pushForeign c id = r.2.push c r.1 := by
    rintro _ rfl
    rfl
  rw [he _ rfl, heap_push]
  exact ⟨_, hstands.push _, hext, k, x, hu, hx, hp⟩

/-! ### Pushing -/

/-- How pushing ends: the value that stands for the host's is on top, or the stack is as it was. -/
inductive Pushed (st : ThreadStatus) (c : Context) (s : Array Val) (v : Value) (w : World σ μ) :
    Except Error Unit → World σ μ → Prop where
  | done {w' : World σ μ} (u : Val) (hs : w'.StandsAs st c (s.push u))
    (he : (w.heap c.vm).Extends (w'.heap c.vm)) (hd : Denotes (w'.heap c.vm) c s v u) :
    Pushed st c s v w (.ok ()) w'
  | refused {w' : World σ μ} (e : Error) (hs : w'.StandsAs st c s) : Pushed st c s v w (.error e) w'

theorem pushed_plain {s : Array Val} {v : Value} {u : Val} {r : Except Error Unit} (ha : w.Alike w₁)
    (hs : w.StandsAs st c s) (hd : Denotes (w.heap c.vm) c s v u)
    (h : (Api.modify (·.push c u) : Api σ μ Unit) w₁ = (r, w')) : Pushed st c s v w r w' := by
  obtain ⟨rfl, rfl⟩ := Prod.mk.inj h
  refine .done u ((ha.stands hs).push u) ?_ ?_
  · rw [heap_push, ha.heap]
    exact .refl _
  · rw [heap_push, ha.heap]
    exact hd

theorem pushThread_cases {s : Array Val} {th : ThreadHandle} {r : Except Error Unit}
    (ha : w.Alike w₁)
    (hs : w.StandsAs st c s) (h : c.pushThread th w₁ = (r, w')) :
    Pushed st c s (.thread th) w r w' := by
  unfold Context.pushThread at h
  rcases Api.bind_cases h with ⟨own, w₂, howns, h₂⟩ | ⟨e, howns, rfl⟩
  · have ha₂ := ha.trans ((c.steady_owns th).related howns)
    have hpush : ∀ w₃, w₂.Alike w₃ →
        (Api.modify (·.push c (.thread th.thread.thread)) : Api σ μ Unit) w₃ = (r, w') →
        Pushed st c s (.thread th) w r w' := fun w₃ ha₃ h₃ => pushed_plain (ha₂.trans ha₃) hs rfl h₃
    cases own with
    | false =>
      obtain ⟨rfl, rfl⟩ := Prod.mk.inj h₂
      exact .refused _ (ha₂.stands hs)
    | true =>
      by_cases hc : th.thread = c
      · rw [if_neg (by simp), if_neg (by simp [hc])] at h₂
        exact hpush w₂ (.refl w₂) h₂
      · rw [if_neg (by simp), if_pos hc] at h₂
        rcases Api.bind_cases h₂ with ⟨_, w₃, hroom, h₃⟩ | ⟨e, hroom, rfl⟩
        · exact hpush w₃ ((Context.steady_checkStack _ _).related hroom) h₃
        · exact .refused e ((ha₂.trans ((Context.steady_checkStack _ _).related hroom)).stands hs)
  · exact .refused e ((ha.trans ((c.steady_owns th).related howns)).stands hs)

theorem push_cases {s : Array Val} {v : Value} {r : Except Error Unit} (hs : w.StandsAs st c s)
    (h : c.push v w = (r, w')) : Pushed st c s v w r w' := by
  unfold Context.push at h
  rcases Api.bind_cases h with ⟨_, w₁, hroom, h₁⟩ | ⟨e, hroom, rfl⟩
  case inr => exact .refused e (((c.steady_checkStack 3).related hroom).stands hs)
  have ha := (c.steady_checkStack 3).related hroom
  cases v with
  | nil => exact pushed_plain ha hs rfl h₁
  | bool b => exact pushed_plain ha hs rfl h₁
  | int i => exact pushed_plain ha hs rfl h₁
  | float x => exact pushed_plain ha hs rfl h₁
  | text t => exact pushed_plain ha hs rfl h₁
  | thread th => exact pushThread_cases ha hs h₁
  | function shape id =>
    obtain ⟨rfl, rfl⟩ := Prod.mk.inj h₁
    obtain ⟨u, hstands, hext, hd⟩ := (ha.stands hs).pushFunction shape id
    rw [ha.heap] at hext
    exact .done u hstands hext hd
  | foreign id =>
    obtain ⟨rfl, rfl⟩ := Prod.mk.inj h₁
    obtain ⟨u, hstands, hext, hd⟩ := (ha.stands hs).pushForeign id
    rw [ha.heap] at hext
    exact .done u hstands hext hd
  | handle hd =>
    rcases Api.bind_cases h₁ with ⟨_, w₂, hvalid, h₂⟩ | ⟨e, hvalid, rfl⟩
    · obtain ⟨hstack, hlow, hhigh⟩ := Context.validate_ok hvalid
      have ha₂ := ha.trans ((c.steady_validate hd).related hvalid)
      obtain ⟨rfl, rfl⟩ := Prod.mk.inj h₂
      refine pushed_plain ha₂ hs ⟨hstack.symm, ?_⟩ rfl
      rw [(ha.stands hs).depth] at hhigh
      unfold at_
      rw [(ha₂.stands hs).slots, Array.getD_eq_getD_getElem?,
        Array.getElem?_eq_getElem (show (hd.position - 1).toNat < s.size by omega)]
      rfl
    · exact .refused e ((ha.trans ((c.steady_validate hd).related hvalid)).stands hs)

/-- How pushing a list ends: all values are there in order, or those up to the first that cannot be
pushed. -/
inductive PushedAll (st : ThreadStatus) (c : Context) (s : Array Val) (vs : List Value)
    (w : World σ μ) :
    Except Error Unit → World σ μ → Prop where
  | done {w' : World σ μ} (us : List Val) (hs : w'.StandsAs st c (s ++ us.toArray))
    (he : (w.heap c.vm).Extends (w'.heap c.vm))
    (hd : vs.Forall₂ (Denotes (w'.heap c.vm) c (s ++ us.toArray)) us) :
    PushedAll st c s vs w (.ok ()) w'
  | refused {w' : World σ μ} (e : Error) (us : List Val) (hs : w'.StandsAs st c (s ++ us.toArray)) :
    PushedAll st c s vs w (.error e) w'

theorem pushEach_cases {s : Array Val} {vs : List Value} {r : Except Error Unit}
    (hs : w.StandsAs st c s) (h : c.pushEach vs w = (r, w')) : PushedAll st c s vs w r w' := by
  induction vs generalizing w s with
  | nil =>
    obtain ⟨rfl, rfl⟩ := Prod.mk.inj h
    exact .done [] (by simpa using hs) (.refl _) .nil
  | cons v vs ih =>
    have happend : ∀ u (us : List Val), s.push u ++ us.toArray = s ++ (u :: us).toArray := by simp
    rcases Api.bind_cases h with ⟨_, w₁, hv, hrest⟩ | ⟨e, hv, rfl⟩
    · cases push_cases hs hv with
      | done u hs₁ he hd =>
        cases ih hs₁ hrest with
        | done us hs₂ he₂ hd₂ =>
          rw [happend] at hs₂ hd₂
          exact .done (u :: us) hs₂ (he.trans he₂) (.cons (hd.extend he₂ _) hd₂)
        | refused e us hs₂ =>
          rw [happend] at hs₂
          exact .refused e (u :: us) hs₂
    · cases push_cases hs hv with
      | refused _ hs₁ => exact .refused e [] (by simpa using hs₁)

theorem pushAll_cases {s : Array Val} {vs : List Value} {r : Except Error Unit}
    (hs : w.StandsAs st c s) (h : c.pushAll vs w = (r, w')) : PushedAll st c s vs w r w' := by
  unfold Context.pushAll at h
  rcases Api.bind_cases h with ⟨_, w₁, hroom, h₁⟩ | ⟨e, hroom, rfl⟩
  · have ha := (c.steady_checkStackFor _).related hroom
    cases pushEach_cases (ha.stands hs) h₁ with
    | done us hs₂ he hd => exact .done us hs₂ (ha.heap c.vm ▸ he) hd
    | refused e us hs₂ => exact .refused e us hs₂
  · exact .refused e [] (by simpa using ((c.steady_checkStackFor _).related hroom).stands hs)

end World
end LuaEmbed
