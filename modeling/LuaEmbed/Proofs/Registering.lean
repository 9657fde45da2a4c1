import LuaEmbed.Proofs.Applying
import LuaEmbed.Proofs.Entries
import LuaEmbed.Proofs.Room

/-!
Registering a module. Its opener runs once, with the name of the module, unless the module is loaded
already; what it gives is recorded, published and read.
-/
namespace LuaEmbed

open Engine World

variable {σ μ : Type} {c : Context} {w w' : World σ μ} {s : Array Val} {x : Val} {n : Nat}

namespace Act

variable {α β : Type} {d : Drive σ μ}

theorem get_bind (k : World σ μ → Act σ μ α) : (MonadState.get >>= k) d w = k w d w := rfl

theorem api_bind_api (a : Api σ μ α) (k : α → Api σ μ β) :
    (Act.api a >>= fun r => Act.api (k r)) = Act.api (a >>= k) := by
  funext d w
  change ExceptT.bindCont (fun r => Act.api (k r)) (a w).1 d (a w).2 = some ((a >>= k) w)
  cases ha : a w with
  | mk r w₁ =>
    cases r with
    | ok y => rw [Api.bind_ok ha]; rfl
    | error e => rw [Api.bind_error ha]; rfl

end Act
namespace Context

/-! ### The value on top of the stack -/

theorem setGlobal_poised (h : w.Poised c (s.push x) n) (hn : n < Thread.minRoom) (h3 : 3 ≤ n)
    (name : Bytes) :
    ∃ w', c.setGlobal name w = (.ok (), w') ∧ w'.Poised c s (n + 1) ∧
      w'.heap c.vm = (w.heap c.vm).rawSet (w.heap c.vm).globals (.str name) x := by
  obtain ⟨w₁, hroom, h₁, ha⟩ := checkStack_poised h hn (m := 3) (by omega) (by omega)
  obtain ⟨h₂, hheap⟩ := h₁.modifyHeap fun h => h.rawSet h.globals (.str name) x
  refine ⟨_, ?_, by simpa using h₂.modifySlots (·.pop) (m := n + 1) (by simp; omega), ?_⟩
  · unfold setGlobal
    rw [Api.bind_ok (resolve_top h), Api.bind_ok hroom]
    unfold Api.modify
    dsimp only
    rw [h₁.at_top]
  · rw [heap_modifySlots, hheap, ha.heap]

theorem shared_poised (h : w.Poised c s n) (hn : n < Thread.minRoom) (h1 : 1 ≤ n)
    (hr : (w.heap c.vm).Recorded) : ∃ i w', c.shared w = (.ok i, w') ∧ w'.Poised c s n ∧ w.Alike w' := by
  obtain ⟨w₁, hroom, h₁, ha⟩ := checkStack_poised h hn (m := 1) (by omega) (by omega)
  obtain ⟨p, h0, hp⟩ := hr
  refine ⟨(p - 0x7F10000000) / 0x100, w₁, ?_, h₁, ha⟩
  rw [← ha.heap] at hp
  unfold shared
  rw [Api.bind_ok hroom, Api.get_bind, Api.get_bind, hp]
  dsimp only
  rw [if_neg h0]
  rfl

theorem capture_poised {t : Nat} {pos : Int} (h : w.Poised c s n) (hn : n < Thread.minRoom)
    (h1 : 1 ≤ n) (hr : (w.heap c.vm).Recorded) (hpos : w.at_ c pos = .thread t) :
    ∃ q w', c.capture pos w = (.ok q, w') ∧ w'.Poised c s n := by
  obtain ⟨i, w₁, hshared, h₁, ha⟩ := shared_poised h hn h1 hr
  obtain ⟨w₂, hroom, h₂, ha₂⟩ := checkStack_poised h₁ hn (m := 1) (by omega) (by omega)
  rw [← (ha.trans ha₂).at_ c] at hpos
  have hkept : (w₂.anchor ⟨i, t⟩).2.thread? c = w₂.thread? c := thread?_anchor w₂ c ⟨i, t⟩
  unfold capture
  rw [Api.bind_ok hshared, Api.bind_ok hroom, Api.get_bind, hpos]
  exact ⟨_, _, rfl, h₂.of_thread? hkept⟩

theorem read_poised (h : w.Poised c (s.push x) n) (hn : n < Thread.minRoom) (h2 : 2 ≤ n)
    (hr : ∀ t, x = .thread t → (w.heap c.vm).Recorded) :
    ∃ v w', c.read (-1) w = (.ok v, w') ∧ w'.Poised c (s.push x) n ∧ w.Alike w' ∧
      w.Shows c (s.size + 1) x v := by
  have hall : ∃ v w', c.read (-1) w = (.ok v, w') ∧ w'.Poised c (s.push x) n := by
    obtain ⟨w₁, hroom, h₁, ha⟩ := checkStack_poised h hn (m := 2) (by omega) (by omega)
    unfold read
    rw [Api.bind_ok (resolve_top h), Api.bind_ok hroom, Api.get_bind, h₁.at_top]
    cases x with
    | thread t =>
      have hrec : (w₁.heap c.vm).Recorded := by
        obtain ⟨p, h0, hp⟩ := hr t rfl
        exact ⟨p, h0, by rwa [ha.heap]⟩
      obtain ⟨q, w₂, hcapture, h₂⟩ := capture_poised h₁ hn (by omega) hrec h₁.at_top
      exact ⟨_, w₂, Api.bind_ok hcapture, h₂⟩
    | _ => exact ⟨_, w₁, rfl, h₁⟩
  obtain ⟨v, w', hread, h'⟩ := hall
  refine ⟨v, w', hread, h', (c.steady_read (-1)).related hread, ?_⟩
  obtain ⟨pos, hpos, -, -, -, hshows⟩ := read_ok hread
  obtain rfl : ((s.size + 1 : Nat) : Int) = pos :=
    Except.ok.inj (Prod.mk.inj ((resolve_top h).symm.trans hpos)).1
  rwa [h.at_top] at hshows

/-- What was read of an opaque value is a handle that validates. -/
theorem validate_poised {v : Value} {hd : Handle} (h : w.Poised c (s.push x) n)
    (hn : n < Thread.minRoom) (h2 : 2 ≤ n) (hv : w.Shows c (s.size + 1) x v) (he : v = .handle hd) :
    (c.validate hd w).1 = .ok () := by
  subst he
  have hopaque : x.tag.isOpaqueKind ∧ hd = ⟨x.tag, w.displayName c x, s.size + 1, c⟩ := by
    cases x with
    | thread t =>
      obtain ⟨q, hq, -⟩ := hv
      cases hq
    | table | closure | builtin | userdata | light => exact ⟨rfl, Value.handle.inj hv⟩
    | _ => cases hv
  obtain ⟨hk, rfl⟩ := hopaque
  have hslot : (w.slots c)[s.size]? = some x := by
    rw [h.stands.slots]
    simp
  rw [validate_eq _ (h.roomy.reserve h2 hn).1]
  refine (check_iff_holds hk rfl (show (1 : Int) ≤ s.size + 1 by omega)).mpr ⟨rfl, ?_, rfl⟩
  rw [show ((s.size + 1 : Int) - 1).toNat = s.size by omega]
  exact hslot

/-! ### Opening a module -/

section

variable (c) (base : Nat) (name : Bytes)

/-- What follows once the value of a module is on top: it is published, if that is asked for, and
read. -/
def settle (publish wasLoaded : Bool) : Api σ μ Value := do
  if publish then
    c.duplicate (-1)
    c.setGlobal name
  Api.modify (·.log .debug "module registered"
    [("fresh", if wasLoaded then "false" else "true"), ("module", name.toStringLossy),
     ("publish_global", if publish then "true" else "false")])
  c.read (-1)

/-- The stack shows the table of loaded modules, above so many slots, and what that holds under a
name. -/
def inspected (w : World σ μ) : World σ μ :=
  let w := (c.pushLoaded w).2
  w.push c ((w.heap c.vm).rawGet (w.at_ c (base + 1 : Nat)) (.str name))

/-- An opener stands ready above the table of loaded modules, with the name for an argument. -/
def launched (o : ModuleOpener) (w : World σ μ) : World σ μ :=
  (c.pushOpener o (c.cut (base + 1) w).2).2.push c (.str name)

/-- The value on top is recorded in the table of loaded modules. -/
def recorded (w : World σ μ) : World σ μ :=
  let v := (w.slots c).back?.getD .nil
  w.modifyHeap c.vm fun h => h.rawSet (w.at_ c (base + 1 : Nat)) (.str name) v

/-- What is made of the exit of an opener. -/
def completed (publish : Bool) (e : Exit) : Api σ μ Value := fun w =>
  match c.concluded (some 1) (base + 1) e w with
  | (.ok _, w) => c.settle name publish false (c.removeAt (base + 1) (c.recorded base name w)).2
  | (.error e, w) => (.error e, (c.cut base w).2)

end

theorem sustains_settle (publish wasLoaded : Bool) :
    Api.Keeps (Sustains c) (c.settle name publish wasLoaded : Api σ μ Value) := by
  let W : Works (fun _ => True) (Sustains (σ := σ) (μ := μ) c) := works_sustains _ c
  have := W.toIsPreorder
  have hrest : ∀ fields, Api.Keeps (Sustains c) (Api.modify (·.log .debug "module registered" fields) >>=
      fun _ => c.read (-1) : Api σ μ Value) := fun fields =>
    (Api.Keeps.modify fun w => W.log w _ _ _).bind fun _ => W.keeps_read c (-1)
  unfold settle
  dsimp only
  split
  · exact (W.keeps_duplicate c _ trivial).bind fun _ => (W.keeps_setGlobal c name trivial).bind fun _ =>
      hrest _
  · exact hrest _

theorem sustains_inspected (w : World σ μ) : Sustains c w (c.inspected base name w) :=
  let W := works_sustains (fun _ => True) c
  (W.keeps_pushLoaded c trivial w).trans (W.push c _ _ trivial)

theorem sustains_launched (o : ModuleOpener) (w : World σ μ) :
    Sustains c w (c.launched base name o w) :=
  let W := works_sustains (fun _ => True) c
  (W.keeps_cut c _ trivial w).trans ((W.keeps_pushOpener c o trivial _).trans (W.push c _ _ trivial))

theorem sustains_completed (publish : Bool) (e : Exit) :
    Api.Keeps (Sustains c) (c.completed base name publish e : Api σ μ Value) := by
  intro w
  let W : Works (fun _ => True) (Sustains (σ := σ) (μ := μ) c) := works_sustains _ c
  have hconcluded := sustains_concluded (c := c) (some 1) (base + 1) e w
  unfold completed
  cases hc : c.concluded (some 1) (base + 1) e w with
  | mk r w₁ =>
    rw [hc] at hconcluded
    cases r with
    | ok k =>
      have hrecorded : Sustains c w₁ (c.recorded base name w₁) :=
        W.modifyHeap w₁ c.vm fun h =>
          h.carries_rawSet (w₁.at_ c (base + 1 : Nat)) (.str name) ((w₁.slots c).back?.getD .nil)
      exact hconcluded.trans (hrecorded.trans ((W.keeps_removeAt c _ trivial _).trans
        (sustains_settle publish false _)))
    | error e => exact hconcluded.trans (W.keeps_cut c base trivial w₁)

variable {d : Drive σ μ}

/-- Registering a module looks it up, and has its opener run if it is not loaded. -/
theorem registerModule_eq (name : Bytes) (o : ModuleOpener) (publish : Bool) {w₁ : World σ μ}
    (hroom : c.checkStack 5 w = (.ok (), w₁)) :
    let w₂ := c.inspected (w.depth c) name w₁
    c.registerModule name o publish d w =
      if (w₂.at_ c (w.depth c + 2 : Nat)).truthy then
        some (c.settle name publish true (c.removeAt (w.depth c + 1) w₂).2)
      else
        (d.from (c.applied 1 (c.announced 1 (c.launched (w.depth c) name o w₂) (.fixed 1)))).map
          fun r => c.completed (w.depth c) name publish r.1 r.2 := by
  intro w₂
  have hsettle : ∀ loaded : Bool, (do
      if publish = true then do
        Act.api (c.duplicate (-1))
        Act.api (c.setGlobal name)
        Act.update (·.log .debug "module registered"
          [("fresh", if loaded then "false" else "true"), ("module", name.toStringLossy),
            ("publish_global", if publish then "true" else "false")])
        Act.api (c.read (-1))
      else do
        Act.update (·.log .debug "module registered"
          [("fresh", if loaded then "false" else "true"), ("module", name.toStringLossy),
            ("publish_global", if publish then "true" else "false")])
        Act.api (c.read (-1)) : Act σ μ Value) = Act.api (c.settle name publish loaded) := by
    intro loaded
    have hupdate : ∀ f : World σ μ → World σ μ, Act.update f = Act.api (Api.modify f) := fun _ => rfl
    unfold settle
    cases publish <;> simp only [hupdate, Act.api_bind_api] <;> rfl
  unfold registerModule
  have hlook : ∀ k : Unit → Act σ μ Value, (Act.api c.pushLoaded >>= fun _ =>
      Act.update (fun w' => w'.push c ((w'.heap c.vm).rawGet (w'.at_ c (w.depth c + 1 : Nat))
        (.str name))) >>= k) d w₁ = k () d w₂ := fun _ => rfl
  clear_value w₂
  rw [Act.top_bind, Act.api_ok_bind hroom]
  dsimp only
  simp only [hsettle]
  have hslot : ((w.depth c : Int) + 1).toNat = w.depth c + 1 := by omega
  have hentry : (w.depth c : Int) + 2 = (w.depth c + 2 : Nat) := by omega
  have hbase : (w.depth c : Int).toNat = w.depth c := by omega
  simp only [hslot, hentry, hbase]
  rw [hlook, Act.get_bind]
  cases (w₂.at_ c (w.depth c + 2 : Nat)).truthy with
  | true => rfl
  | false =>
    rw [if_pos (by rfl), if_neg (by simp)]
    rw [Act.api_ok_bind (rfl : c.cut (w.depth c + 1) w₂ = (.ok (), _)),
      Act.api_ok_bind (rfl : c.pushOpener o _ = (.ok (), _)), Act.update_bind, Act.lift_bind,
      protectedCall_run (by rfl)]
    change ((d.from (c.applied 1 (c.announced 1 (c.launched (w.depth c) name o w₂)
      (.fixed 1)))).map _).bind _ = _
    cases d.from (c.applied 1 (c.announced 1 (c.launched (w.depth c) name o w₂) (.fixed 1))) with
    | none => rfl
    | some r =>
      obtain ⟨e, w₃⟩ := r
      rw [Option.map_some, Option.map_some, Option.bind_some]
      cases e <;> rfl
end Context

namespace Context

open Engine.Heap

theorem inspected_poised (h : w.Poised c s (n + 2)) (name : Bytes) :
    (c.inspected s.size name w).Poised c
      ((s.push (w.heap c.vm).loadedTable).push ((w.heap c.vm).loadedEntry name)) n ∧
    (c.inspected s.size name w).heap c.vm = (w.heap c.vm).withLoaded := by
  let look (vm : Vm) : Vm × Val := ({ vm with heap := vm.heap.withLoaded }, vm.heap.loadedTable)
  have hpush : (c.pushLoaded w).2 = (w.onVm c.vm look).2.push c (w.onVm c.vm look).1 := rfl
  have hthread : (w.onVm c.vm look).2.thread? c = w.thread? c := by
    rw [onVm_world]
    exact thread?_objects w c.vm c _ fun _ => rfl
  obtain ⟨vm, hheap, hanswer, hheap'⟩ := h.stands.onVm_eq look
  have h₁ := (h.of_thread? hthread).push vm.heap.loadedTable
  unfold inspected
  rw [hpush, hanswer, hheap]
  dsimp only
  rw [heap_push, heap_push, heap_push, hheap', h₁.at_top]
  exact ⟨h₁.push _, rfl⟩
end Context

/-! ### The run of an opener -/

/-- What an opener is on a stack. -/
def ModuleOpener.Denotes (h : Heap) (c : Context) (s : Array Val) : ModuleOpener → Val → Prop
  | .native b, f => f = .builtin b
  | .host shape id, f => World.Denotes h c s (.function shape id) f

namespace Context

theorem applied_eq {f : Val} {vals : List Val} (h : w.Poised c (s.push f ++ vals.toArray) n) :
    ∃ u : World σ μ, c.applied vals.length w = c.calling f vals u ∧
      u.Poised c s (n + 1 + vals.length) ∧ (∀ i, u.heap i = w.heap i) ∧ Sustains c w u := by
  have hpoised := h.modifySlots (·.shrink s.size) (m := n + 1 + vals.length) (by simp; omega)
  rw [shrink_call] at hpoised
  exact ⟨_, applied_calling h.stands, hpoised, fun i => heap_modifySlots w c i _,
    (works_sustains (fun _ => True) c).slots w c _ trivial⟩

/-- At this moment an opener is called, with the name of its module and nothing else, on a stack
that shows the table of loaded modules on top. A native opener finds the objects as they were. -/
inductive Opens (c : Context) (s : Array Val) (name : Bytes) (o : ModuleOpener) (t : Val) (h : Heap) :
    Moment σ μ → Prop where
  | intro {u : World σ μ} {f : Val} (hf : o.Denotes (u.heap c.vm) c (s.push t) f)
    (hu : u.Poised c (s.push t) 4) (hh : ∀ b, o = .native b → u.heap c.vm = h) :
    Opens c s name o t h (c.calling f [.str name] u)

/-- An opener is about to be called on a stack that shows the table of loaded modules on top. -/
structure Readied (c : Context) (s : Array Val) (o : ModuleOpener) (t : Val) (h : Heap) (f : Val)
    (u : World σ μ) : Prop where
  denotes : o.Denotes (u.heap c.vm) c (s.push t) f
  stack : u.Poised c (s.push t) 4
  objects : ∀ b, o = .native b → u.heap c.vm = h

theorem Readied.opens {name : Bytes} {o : ModuleOpener} {t f : Val} {h : Heap} {u : World σ μ}
    (k : c.Readied s o t h f u) : Opens c s name o t h (c.calling f [.str name] u) :=
  .intro k.denotes k.stack k.objects

theorem pushOpener_poised (h : w.Poised c s (n + 1)) (o : ModuleOpener) :
    ∃ f, (c.pushOpener o w).2.Poised c (s.push f) n ∧
      o.Denotes ((c.pushOpener o w).2.heap c.vm) c s f ∧
      ∀ b, o = .native b → (c.pushOpener o w).2.heap c.vm = w.heap c.vm := by
  cases o with
  | native b => exact ⟨_, h.push _, rfl, fun _ _ => heap_push w c c.vm _⟩
  | host shape id =>
    obtain ⟨f, hf, -, hd⟩ := h.stands.pushFunction shape id
    have hthread : (w.closureOf c shape id).2.thread? c = w.thread? c :=
      thread?_closureOf w c shape id
    have hpushed := (h.of_thread? hthread).push (w.closureOf c shape id).1
    have hsame : (w.pushFunction c shape id).slots c = s.push (w.closureOf c shape id).1 :=
      hpushed.stands.slots
    have hvalue := Array.push_eq_push.mp (hf.slots.symm.trans hsame)
    refine ⟨f, ?_, hd, nofun⟩
    rw [hvalue.1]
    exact hpushed

theorem launched_readied {t e : Val} (h : w.Poised c ((s.push t).push e) 3) (name : Bytes)
    (o : ModuleOpener) :
    ∃ f u, c.applied 1 (c.announced 1 (c.launched s.size name o w) (.fixed 1)) =
        c.calling f [.str name] u ∧ c.Readied s o t (w.heap c.vm) f u ∧ Sustains c w u := by
  have hcut := cut_poised h
  rw [Array.size_push] at hcut
  obtain ⟨f, hf, hd, hsame⟩ := pushOpener_poised hcut o
  have hname := hf.push (.str name)
  have ha : (c.launched s.size name o w).Alike
      (c.announced 1 (c.launched s.size name o w) (.fixed 1)) :=
    ((c.steady_checkStack _) _).trans (alike_log _ _ _ _)
  have hall : (c.announced 1 (c.launched s.size name o w) (.fixed 1)).Poised c
      ((s.push t).push f ++ [Val.str name].toArray) 2 := by
    rw [Array.append_singleton]
    exact hname.of_thread? rfl
  obtain ⟨u, hu, hpoised, hheap, hsustains⟩ := applied_eq hall
  have hpushed : u.heap c.vm = (c.pushOpener o (c.cut (s.size + 1) w).2).2.heap c.vm := by
    rw [hheap, ha.heap]
    exact heap_push _ c c.vm _
  refine ⟨f, u, hu, ⟨hpushed ▸ hd, hpoised, fun b hb => ?_⟩,
    (sustains_launched o w).trans ((sustains_announced _ _ _).trans hsustains)⟩
  rw [hpushed, hsame b hb]
  exact heap_modifySlots w c c.vm _

end Context
end LuaEmbed
