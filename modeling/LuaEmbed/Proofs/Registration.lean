import LuaEmbed.Proofs.Registering

/-!
What a registration comes to. Its opener is called once, or not at all; and whatever the opener does,
its value is recorded, published and read, or the stack is as it was and nothing has been recorded.
-/
namespace LuaEmbed

open Engine World

variable {σ μ : Type} {c : Context} {w w' : World σ μ} {s : Array Val} {x t : Val} {n : Nat}
  {name : Bytes} {publish : Bool}

/-- The objects after the value of a module has been made a global, if it is. -/
def Engine.Heap.published (h : Heap) (publish : Bool) (name : Bytes) (x : Val) : Heap :=
  if publish then h.rawSet h.globals (.str name) x else h

/-- A thread cannot be read in an interpreter that has lost its record. -/
def Engine.Heap.Unreadable (h : Heap) (x : Val) : Prop := (∃ i, x = .thread i) ∧ ¬ h.Recorded

/-- The value of a module is on top of the stack, and stands under the name among the loaded modules
and, if it is published, among the globals. Nothing else has been made of the objects. -/
structure World.Stored (c : Context) (s : Array Val) (t : Val) (name : Bytes) (publish : Bool) (x : Val)
    (h : Heap) (w : World σ μ) : Prop where
  stack : w.Poised c (s.push x) 4
  objects : w.heap c.vm = h.published publish name x
  entry : (w.heap c.vm).rawGet t (.str name) = x
  global : publish = true → (w.heap c.vm).rawGet (w.heap c.vm).globals (.str name) = x

/-- A module is registered: its value is stored, and has been read. -/
structure World.Registered (c : Context) (s : Array Val) (t : Val) (name : Bytes) (publish : Bool)
    (x : Val) (h : Heap) (v : Value) (w : World σ μ) : Prop
    extends w.Stored c s t name publish x h where
  read : w.Shows c (s.size + 1) x v
  valid : ∀ h, v = .handle h → (c.validate h w).1 = .ok ()

namespace Context

open Engine.Heap

/-- How a registration ends once its value is found, or recorded, among these objects. -/
inductive Settles (c : Context) (s : Array Val) (t : Val) (name : Bytes) (publish : Bool) (x : Val)
    (h : Heap) : Except Error Value × World σ μ → Prop where
  | read {v : Value} {w : World σ μ} (hx : ¬ h.Unreadable x)
    (hw : w.Registered c s t name publish x h v) : Settles c s t name publish x h (.ok v, w)
  /-- What is stored cannot be read, and stays on the stack. -/
  | unread {w : World σ μ} (hx : h.Unreadable x) (hw : w.Stored c s t name publish x h) :
    Settles c s t name publish x h
      (.error (.unsupportedValue "interpreter was not created by this bridge"), w)

/-- What cannot be read stays where it is. -/
theorem read_unreadable (h : w.Poised c (s.push x) n) (hn : n < Thread.minRoom) (h2 : 2 ≤ n)
    (hx : (w.heap c.vm).Unreadable x) :
    ∃ w', c.read (-1) w =
        (.error (.unsupportedValue "interpreter was not created by this bridge"), w') ∧
      w'.Poised c (s.push x) n ∧ w.Alike w' := by
  obtain ⟨⟨i, rfl⟩, hlost⟩ := hx
  obtain ⟨w₁, hroom, h₁, ha⟩ := checkStack_poised h hn (m := 2) (by omega) (by omega)
  obtain ⟨w₂, hroom₂, h₂, ha₂⟩ := checkStack_poised h₁ hn (m := 1) (by omega) (by omega)
  have hshared : c.shared w₁ =
      (.error (.unsupportedValue "interpreter was not created by this bridge"), w₂) := by
    unfold shared
    rw [Api.bind_ok hroom₂, Api.get_bind, Api.get_bind, (ha.trans ha₂).heap]
    unfold Engine.Heap.Recorded at hlost
    cases hr : (w.heap c.vm).rawGet (w.heap c.vm).registryTable recordKey with
    | light p =>
      have h0 : p = 0 := by
        by_contra h0
        exact hlost ⟨p, h0, hr⟩
      dsimp only
      rw [if_pos h0]
      rfl
    | _ => rfl
  refine ⟨w₂, ?_, h₂, ha.trans ha₂⟩
  unfold read
  rw [Api.bind_ok (resolve_top h), Api.bind_ok hroom, Api.get_bind, h₁.at_top]
  unfold capture
  exact Api.bind_error (Api.bind_error hshared)

/-- Once the value of a module is published, all that is left is to read it. -/
theorem settle_eq (h : w.Poised c (s.push x) 4) (name : Bytes) (publish wasLoaded : Bool) :
    ∃ w₁, c.settle name publish wasLoaded w = c.read (-1) w₁ ∧ w₁.Poised c (s.push x) 4 ∧
      w₁.heap c.vm = (w.heap c.vm).published publish name x := by
  unfold settle
  cases publish with
  | false =>
    have h₁ : (w.log .debug "module registered" [("fresh", if wasLoaded then "false" else "true"),
        ("module", name.toStringLossy), ("publish_global", "false")]).Poised c (s.push x) 4 :=
      h.of_thread? rfl
    exact ⟨_, rfl, h₁, rfl⟩
  | true =>
    obtain ⟨w₁, hdup, h₁, hheap⟩ := duplicate_poised h (by decide)
    obtain ⟨w₂, hset, h₂, hheap₂⟩ := setGlobal_poised h₁ (by decide) (by omega) name
    rw [hheap] at hheap₂
    have h₃ : (w₂.log .debug "module registered" [("fresh", if wasLoaded then "false" else "true"),
        ("module", name.toStringLossy), ("publish_global", "true")]).Poised c (s.push x) 4 :=
      h₂.of_thread? rfl
    exact ⟨_, (Api.bind_ok hdup).trans (Api.bind_ok hset), h₃, hheap₂⟩

theorem recorded_published (h : Heap) : (h.published publish name x).Recorded ↔ h.Recorded := by
  unfold published
  split
  · exact h.recorded_rawSet _ _ _
  · exact Iff.rfl

/-- Publishing a value leaves it where it is recorded, even if the globals are the loaded modules. -/
theorem rawGet_published {h : Heap} (he : h.rawGet t (.str name) = x)
    (hg : publish = true → h.Has h.globals) :
    (h.published publish name x).rawGet t (.str name) = x ∧
      (publish = true → (h.published publish name x).rawGet (h.published publish name x).globals
        (.str name) = x) := by
  unfold published
  cases publish with
  | false => exact ⟨he, nofun⟩
  | true =>
    have hself := rawGet_rawSet_self (hg rfl) name x
    rw [if_pos rfl, globals_rawSet]
    refine ⟨?_, fun _ => hself⟩
    by_cases ht : h.globals = t
    · rw [ht] at hself ⊢
      exact hself
    · rw [rawGet_rawSet_of_ne (.inl ht), he]

theorem settles_settle (h : w.Poised c (s.push x) 4) (wasLoaded : Bool)
    (he : (w.heap c.vm).rawGet t (.str name) = x)
    (hg : publish = true → (w.heap c.vm).Has (w.heap c.vm).globals) :
    Settles c s t name publish x (w.heap c.vm) (c.settle name publish wasLoaded w) := by
  obtain ⟨w₁, hsettle, h₁, hheap⟩ := settle_eq h name publish wasLoaded
  obtain ⟨hentry, hglobal⟩ := rawGet_published he hg
  have hrecord : (w₁.heap c.vm).Recorded ↔ (w.heap c.vm).Recorded := hheap ▸ recorded_published _
  have hstored : ∀ {w'}, w'.Poised c (s.push x) 4 → w₁.Alike w' →
      w'.Stored c s t name publish x (w.heap c.vm) := by
    intro w' h' ha
    have hobjects := (ha.heap c.vm).trans hheap
    exact ⟨h', hobjects, by rw [hobjects, hentry], by rwa [hobjects]⟩
  rw [hsettle]
  by_cases hx : (w.heap c.vm).Unreadable x
  · obtain ⟨w', hread, h', ha⟩ := read_unreadable h₁ (by decide) (by omega)
      ⟨hx.1, mt hrecord.mp hx.2⟩
    rw [hread]
    exact .unread hx (hstored h' ha)
  · have hr : ∀ i, x = .thread i → (w₁.heap c.vm).Recorded := fun i hi =>
      hrecord.mpr (by_contra fun hn => hx ⟨⟨i, hi⟩, hn⟩)
    obtain ⟨v, w', hread, h', ha, hshows⟩ := read_poised h₁ (by decide) (by omega) hr
    have hshows' : w'.Shows c (s.size + 1) x v := (shows_congr (ha.heap c.vm)).mpr hshows
    rw [hread]
    exact .read hx ⟨hstored h' ha, hshows', fun hd hv =>
      validate_poised h' (by decide) (by omega) hshows' hv⟩

/-! ### How an opener's exit is taken -/

theorem heap_popErrorText (w : World σ μ) (c : Context) (i : Nat) :
    (w.popErrorText c).2.heap i = w.heap i := by
  unfold popErrorText
  split
  · rfl
  next v _ =>
    cases v with
    | nil | bool | int | float | str => exact heap_modifySlots w c i _
    | _ => exact (heap_modifySlots _ c i _).trans (heap_reserve w c i 2)

theorem completed_raised (h : w.Stands c (s.push t)) (name : Bytes) (publish : Bool)
    (status : ErrorStatus) (v : Val) :
    ∃ e w', c.completed s.size name publish (.raised status v) w = (.error e, w') ∧
      w'.Stands c s ∧ ∀ i, w'.heap i = w.heap i := by
  have hpop := stands_popErrorText (h.push v)
  have hheap : ∀ i, ((w.push c v).popErrorText c).2.heap i = w.heap i := fun i =>
    (heap_popErrorText _ c i).trans (heap_push w c i v)
  generalize hp : (w.push c v).popErrorText c = p at hpop hheap
  have hcut : (c.cut (s.size + 1) p.2).2.Stands c (s.push t) := by
    have h := stands_cut (s := s.push t) (t := #[]) hpop
    rwa [Array.size_push] at h
  have hlog := (alike_log _ .debug "protected call failed"
    [("message", p.1), ("status", toString status.code)]).stands hcut
  have hall := stands_cut (s := s) (t := #[t]) (by rwa [Array.append_singleton])
  refine ⟨.call p.1, _, ?_, hall, fun i => ?_⟩
  · unfold completed concluded
    dsimp only
    rw [hp]
    rfl
  · rw [heap_modifySlots]
    exact (heap_modifySlots p.2 c i _).trans (hheap i)

theorem adjust_one (vs : List Val) : Activation.adjust (some 1) vs = [vs.headD .nil] := by
  cases vs <;> simp [Activation.adjust]

/-- The value that an opener gives is recorded, and the registration is settled. -/
theorem completed_returned (h : w.Poised c (s.push t) 4) (vs : List Val)
    (ht : (w.heap c.vm).Has t) (hg : publish = true → (w.heap c.vm).Has (w.heap c.vm).globals) :
    Settles c s t name publish (vs.headD .nil)
      ((w.heap c.vm).rawSet t (.str name) (vs.headD .nil))
      (c.completed s.size name publish (.returned vs) w) := by
  let w₁ := w.modifySlots c (· ++ (Activation.adjust (some 1) vs).toArray)
  have h₁ : w₁.Poised c ((s.push t).push (vs.headD .nil)) 3 := by
    have hpush : w₁.Poised c (s.push t ++ (Activation.adjust (some 1) vs).toArray) 3 :=
      h.modifySlots _ (by
        rw [adjust_one]
        simp)
    rwa [adjust_one, Array.append_singleton] at hpush
  have hvalue : (w₁.slots c).back?.getD .nil = vs.headD .nil := by
    rw [h₁.stands.slots, Array.back?_push]
    rfl
  have htable : w₁.at_ c (s.size + 1 : Nat) = t := by
    unfold at_
    rw [h₁.stands.slots, show ((s.size + 1 : Nat) - 1 : Int).toNat = s.size by omega,
      Array.getD_eq_getD_getElem?, Array.getElem?_push,
      if_neg (by rw [Array.size_push]; omega), Array.getElem?_push_size]
    rfl
  obtain ⟨h₂, hheap⟩ : (c.recorded s.size name w₁).Poised c ((s.push t).push (vs.headD .nil)) 3 ∧
      (c.recorded s.size name w₁).heap c.vm = (w.heap c.vm).rawSet t (.str name) (vs.headD .nil) := by
    have hrecord := h₁.modifyHeap fun g => g.rawSet t (.str name) (vs.headD .nil)
    rw [show w₁.heap c.vm = w.heap c.vm from heap_modifySlots w c _ _] at hrecord
    unfold recorded
    dsimp only
    rwa [hvalue, htable]
  obtain ⟨h₃, hheap₃⟩ := removeAt_poised h₂
  rw [← hheap₃ c.vm] at hheap
  have hcompleted : c.completed s.size name publish (.returned vs) w =
      c.settle name publish false (c.removeAt (s.size + 1) (c.recorded s.size name w₁)).2 := rfl
  rw [hcompleted, ← hheap]
  refine settles_settle h₃ false ?_ fun hp => ?_
  · rw [hheap]
    exact rawGet_rawSet_self ht name _
  · rw [hheap, globals_rawSet]
    exact (hg hp).rawSet _ _ _

/-! ### A registration -/

/-- Without room for it, there is no registration. -/
theorem registerModule_refused (hr : (w.reserve c 5).1 = false) (name : Bytes) (publish : Bool) :
    ∃ e w', (∀ o d, c.registerModule name o publish d w = some (.error e, w')) ∧ w.Alike w' := by
  have hc := checkStack_refused (c := c) (w := w) (n := 5) (by decide) hr
  refine ⟨.stackOverflow 5, _, fun o d => ?_, alike_reserve w c 5⟩
  unfold registerModule
  rw [Act.top_bind]
  exact Act.api_error_bind hc _

/-- There is room for a registration. -/
def Admits (c : Context) (s : Array Val) (w : World σ μ) : Prop :=
  ∃ w₁, c.checkStack 5 w = (.ok (), w₁) ∧ w₁.Poised c s 5 ∧ w.Alike w₁

theorem admits_granted (h : w.Stands c s) (hf : w.Fits c) (hr : (w.reserve c 5).1 = true) :
    c.Admits s w := by
  have ha := alike_reserve w c 5
  exact ⟨_, checkStack_granted (by decide) hr, ⟨ha.stands h, (hf.reserve (by decide) hr).2⟩, ha⟩

theorem admits_poised (h : w.Poised c s 5) : c.Admits s w :=
  checkStack_poised h (by decide) (by decide) (by decide)

theorem Admits.depth (h : c.Admits s w) : w.depth c = s.size := by
  obtain ⟨w₁, -, h₁, ha⟩ := h
  exact depth_of_shown ((ha.shown c).symm.trans h₁.stands.shown)

/-- A registration begins with a look at the table of loaded modules. -/
theorem Admits.inspected (h : c.Admits s w) (name : Bytes) :
    ∃ w₁, c.checkStack 5 w = (.ok (), w₁) ∧
      (c.inspected s.size name w₁).Poised c
        ((s.push (w.heap c.vm).loadedTable).push ((w.heap c.vm).loadedEntry name)) 3 ∧
      (c.inspected s.size name w₁).at_ c (s.size + 2 : Nat) = (w.heap c.vm).loadedEntry name ∧
      (c.inspected s.size name w₁).heap c.vm = (w.heap c.vm).withLoaded ∧
      Sustains c w (c.inspected s.size name w₁) := by
  obtain ⟨w₁, hroom, h₁, ha⟩ := h
  obtain ⟨hlook, hheap⟩ := inspected_poised h₁ name
  rw [ha.heap] at hlook hheap
  have hat := hlook.at_top
  rw [Array.size_push] at hat
  exact ⟨w₁, hroom, hlook, hat, hheap,
    (((works_sustains (fun _ => True) c).keeps_checkStack c 5).related hroom).trans (sustains_inspected w₁)⟩

/-- A module that is loaded is not opened. Its value is pushed, published and read. -/
theorem registerModule_loaded (h : c.Admits s w)
    (hx : ((w.heap c.vm).loadedEntry name).truthy = true)
    (hg : publish = true → (w.heap c.vm).Has (w.heap c.vm).globals) :
    ∃ p, (∀ o d, c.registerModule name o publish d w = some p) ∧ Sustains c w p.2 ∧
      Settles c s (w.heap c.vm).loadedTable name publish ((w.heap c.vm).loadedEntry name)
        (w.heap c.vm).withLoaded p := by
  obtain ⟨w₁, hroom, hlook, hat, hheap, hlooking⟩ := h.inspected name
  obtain ⟨h₂, hheap₂⟩ := removeAt_poised hlook
  refine ⟨c.settle name publish true (c.removeAt (s.size + 1) (c.inspected s.size name w₁)).2,
    fun o d => ?_, ?_, ?_⟩
  · rw [registerModule_eq name o publish hroom, h.depth, hat, if_pos hx]
  · exact hlooking.trans (((works_sustains (fun _ => True) c).keeps_removeAt c _ trivial _).trans
      (sustains_settle publish true _))
  · rw [← hheap, ← hheap₂ c.vm]
    refine settles_settle h₂ true ?_ fun hp => ?_
    · rw [hheap₂, hheap]
      rfl
    · rw [hheap₂, hheap, globals_withLoaded]
      exact (hg hp).withLoaded

/-- A module that is not loaded is opened, once. What comes of its opener's exit is completed. -/
theorem registerModule_fresh (h : c.Admits s w)
    (hx : ((w.heap c.vm).loadedEntry name).truthy = false) (o : ModuleOpener) (publish : Bool) :
    ∃ f u, c.Readied s o (w.heap c.vm).loadedTable (w.heap c.vm).withLoaded f u ∧
      Sustains c w u ∧
      ∀ d, c.registerModule name o publish d w =
        (d.from (c.calling f [.str name] u)).map fun r => c.completed s.size name publish r.1 r.2 := by
  obtain ⟨w₁, hroom, hlook, hat, hheap, hlooking⟩ := h.inspected name
  obtain ⟨f, u, hcalls, hreadied, hlaunching⟩ := launched_readied hlook name o
  refine ⟨f, u, hheap ▸ hreadied, hlooking.trans hlaunching, fun d => ?_⟩
  rw [registerModule_eq name o publish hroom, h.depth, hat, hx, if_neg (by decide), hcalls]

theorem history_calling (c : Context) (f : Val) (args : List Val) (w : World σ μ) :
    (c.calling f args w).world.history = w.history := by
  unfold calling
  dsimp only
  rw [onVm_world]
  rfl

/-- Whatever an opener does, the stack that it was called on is there when it exits, and so is the
room to take what it gives. -/
theorem Opens.exit {code : HostCode σ μ} {fuel : Nat} {o : ModuleOpener} {h : Heap} {m : Moment σ μ}
    {e : Exit} (hm : Opens c s name o t h m)
    (hd : (World.drive code fuel).from m = some (e, w')) (hc : Unclosed c.vm m.world w') :
    w'.Poised c (s.push t) 4 ∧ ∀ vs, e ≠ .yielded vs := by
  obtain ⟨-, hu, -⟩ := hm
  exact hu.invoke (sound_drive code fuel) hd (hc.of_history (history_calling ..).symm rfl)

end Context
end LuaEmbed
