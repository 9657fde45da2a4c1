import LuaEmbed.Engine.Script
import LuaEmbed.Proofs.Lookup
import LuaEmbed.Proofs.Ownership

/-!
What the userdata of an interpreter carry. Work on objects leaves it as it is and forgets nothing that is
to be finalized, whatever a script does to tables, variables and metatables; only a userdata's collector
empties it.
-/
namespace LuaEmbed

/-- The host object that a value refers to and shares. -/
def Value.asset? : Value → Option Asset
  | .function _ id => some (.function id)
  | .foreign id => some (.foreign id)
  | _ => none

namespace Engine

/-- The host object that is referred to. -/
def Payload.asset? : Payload → Option Asset
  | .function _ id => id.map .function
  | .foreign id => id.map .foreign
  | _ => none

namespace Heap

/-- The host object that a userdata carries a reference to. -/
def carried? (h : Heap) (n : Nat) : Option Asset := (h.userdata.get? n).bind (·.payload.asset?)

/-- In the second heap every userdata carries what it does in the first, whatever was to be finalized
still is, and whether the interpreter is collecting or closing is the same. -/
structure Carries (h h' : Heap) : Prop where
  carried : ∀ n, h'.carried? n = h.carried? n
  listed : h.finalizable ⊆ h'.finalizable
  collecting : h'.collecting = h.collecting
  closing : h'.closing = h.closing

/-- The second heap is the first after a userdata has been emptied of this. -/
structure Empties (n : Nat) (p : Payload) (h h' : Heap) : Prop where
  before : h.carried? n = p.asset?
  carried : ∀ m, h'.carried? m = if m = n then none else h.carried? m
  listed : h.finalizable ⊆ h'.finalizable
  collecting : h'.collecting = h.collecting
  closing : h'.closing = h.closing

/-- The second heap is the first with one more userdata. It is going to be finalized, unless the interpreter
is being closed or its metatable has no finalizer. -/
structure Admits (n : Nat) (x : Asset) (h h' : Heap) : Prop where
  fresh : h.carried? n = none
  carried : ∀ m, h'.carried? m = if m = n then some x else h.carried? m
  listed : h.finalizable ⊆ h'.finalizable
  collecting : h'.collecting = h.collecting
  closing : h'.closing = h.closing
  enrolled : .userdata n ∈ h'.finalizable ∨ h.closing = true ∨ h'.metafield (.userdata n) "__gc" = .nil

variable {h h₁ h' : Heap}

theorem Carries.refl (h : Heap) : h.Carries h := ⟨fun _ => rfl, List.Subset.refl _, rfl, rfl⟩

theorem Carries.trans (k : h.Carries h₁) (k' : h₁.Carries h') : h.Carries h' :=
  ⟨fun n => (k'.carried n).trans (k.carried n), List.Subset.trans k.listed k'.listed,
    k'.collecting.trans k.collecting, k'.closing.trans k.closing⟩

/-- Objects of other kinds are all that has changed. -/
theorem carries_of_userdata (hu : h'.userdata = h.userdata) (hf : h'.finalizable = h.finalizable)
    (hc : h'.collecting = h.collecting) (hl : h'.closing = h.closing) : h.Carries h' :=
  ⟨fun n => by rw [carried?, carried?, hu], by rw [hf]; exact List.Subset.refl _, hc, hl⟩

/-- A userdata that had been emptied before is emptied of nothing. -/
theorem Empties.carries {n : Nat} {p : Payload} (e : Empties n p h h') (hp : p.asset? = none) :
    h.Carries h' := by
  refine ⟨fun m => ?_, e.listed, e.collecting, e.closing⟩
  rw [e.carried]
  split
  next hm => rw [hm, e.before, hp]
  · rfl

theorem Empties.after {n : Nat} {p : Payload} (e : Empties n p h₁ h') (k : h.Carries h₁) :
    Empties n p h h' :=
  ⟨(k.carried n).symm.trans e.before, fun m => by rw [e.carried, k.carried],
    List.Subset.trans k.listed e.listed, e.collecting.trans k.collecting, e.closing.trans k.closing⟩

variable (h)

theorem carries_newTable (t : Table) : h.Carries (h.newTable t).2 := carries_of_userdata rfl rfl rfl rfl

theorem carries_modifyTable (i : Nat) (f : Table → Table) : h.Carries (h.modifyTable i f) :=
  carries_of_userdata rfl rfl rfl rfl

theorem carries_newClosure (c : Closure) : h.Carries (h.newClosure c).2 :=
  carries_of_userdata rfl rfl rfl rfl

theorem carries_setClosure (i : Nat) (c : Closure) :
    h.Carries { h with closures := h.closures.set i c } :=
  carries_of_userdata rfl rfl rfl rfl

theorem carries_newCell (v : Val) : h.Carries (h.newCell v).2 := carries_of_userdata rfl rfl rfl rfl

theorem carries_setCell (i : Nat) (v : Val) : h.Carries (h.setCell i v) :=
  carries_of_userdata rfl rfl rfl rfl

theorem carries_rawSet (t k v : Val) : h.Carries (h.rawSet t k v) := by
  unfold rawSet
  split
  · exact h.carries_modifyTable _ _
  · exact .refl h

theorem carries_rawSetText (t : Val) (k : String) (v : Val) : h.Carries (h.rawSetText t k v) :=
  h.carries_rawSet t _ v

theorem carries_subtable (t : Val) (k : String) : h.Carries (h.subtable t k).2 := by
  unfold subtable
  split
  · exact .refl h
  · exact (h.carries_newTable {}).trans (carries_rawSetText _ _ _ _)

theorem carries_namedMetatable (name : String) : h.Carries (h.namedMetatable name).2.2 := by
  unfold namedMetatable
  split
  · let h₁ := (h.newTable {}).2.rawSetText (h.newTable {}).1 "__name" (.text name)
    have hname : h.Carries h₁ := (h.carries_newTable {}).trans (carries_rawSetText _ _ _ _)
    exact hname.trans (h₁.carries_rawSetText h₁.registryTable name (h.newTable {}).1)
  · exact .refl h

theorem carried_newUserdata (u : Userdata) (n : Nat) :
    (h.newUserdata u).2.carried? n = if n = h.userdata.next then u.payload.asset? else h.carried? n := by
  unfold newUserdata carried?
  dsimp only
  rw [Pool.get?_push]
  split <;> rfl

theorem carried_next : h.carried? h.userdata.next = none := by
  rw [carried?, Pool.get?_next]
  rfl

/-- A new userdata that carries nothing of the host's. -/
theorem carries_newUserdata {u : Userdata} (hu : u.payload.asset? = none) :
    h.Carries (h.newUserdata u).2 := by
  refine ⟨fun n => ?_, List.Subset.refl _, rfl, rfl⟩
  rw [carried_newUserdata, hu]
  split
  next hn => rw [hn, carried_next]
  · rfl

theorem carried_modify (i n : Nat) {f : Userdata → Userdata} (hf : ∀ u, (f u).payload = u.payload) :
    carried? { h with userdata := h.userdata.modify i f } n = h.carried? n := by
  unfold carried?
  dsimp only
  rw [Pool.get?_modify]
  split
  · cases h.userdata.get? n with
    | none => rfl
    | some u => exact congrArg Payload.asset? (hf u)
  · rfl

theorem carries_setMetatable (v : Val) (m : Option Nat) : h.Carries (h.setMetatable v m) := by
  have hlist : ∀ h' : Heap, h.Carries h' →
      h.Carries (if (h'.metafield v "__gc").isNil || h'.closing || h'.finalizable.contains v then h'
        else { h' with finalizable := v :: h'.finalizable }) := by
    intro h' k
    split
    · exact k
    · exact k.trans ⟨fun _ => rfl, List.subset_cons_self _ _, rfl, rfl⟩
  cases v with
  | table i => exact hlist _ (carries_of_userdata rfl rfl rfl rfl)
  | userdata i =>
    exact hlist _ ⟨fun n => h.carried_modify i n fun _ => rfl, List.Subset.refl _, rfl, rfl⟩
  | _ => exact carries_of_userdata rfl rfl rfl rfl

theorem carries_freshCells (n : Nat) (v : Val) : h.Carries (Chunk.freshCells h n v).2 := by
  induction n generalizing h v with
  | zero => exact .refl h
  | succ n ih => exact (h.carries_newCell v).trans (ih _ _)

variable {h}

theorem carries_load {bytes name mode : Bytes} {depth : Nat} {f : Val}
    (hl : Chunk.load bytes name mode depth h = .ok (f, h')) : h.Carries h' := by
  unfold Chunk.load at hl
  split at hl
  · cases hl
  cases hr : Chunk.read bytes name mode depth with
  | error e =>
    rw [hr] at hl
    cases hl
  | ok p =>
    rw [hr] at hl
    obtain ⟨-, rfl⟩ := Prod.mk.inj (Except.ok.inj hl)
    exact (h.carries_freshCells _ _).trans (carries_newClosure _ _)

/-- Where a field comes to be set: in a table that is there, or in what it is redirected to. -/
theorem setIndexFrom_done {fuel : Nat} {isFirst : Bool} {o k v : Val}
    (hs : Operation.setIndexFrom h (fuel + 1) isFirst o k v = .done h') :
    (∃ i, h' = h.modifyTable i (·.set k v)) ∨
      ∃ m, Operation.setIndexFrom h fuel false m k v = .done h' := by
  unfold Operation.setIndexFrom at hs
  dsimp only at hs
  split at hs
  · split at hs
    · split at hs
      · cases hs
      · exact .inl ⟨_, (Outcome.done.inj hs).symm⟩
    · split at hs
      · split at hs
        · cases hs
        · exact .inl ⟨_, (Outcome.done.inj hs).symm⟩
      · split at hs
        · cases hs
        · cases hs
        · exact .inr ⟨_, hs⟩
  · split at hs
    · cases hs
    · split at hs
      · cases hs
      · cases hs
      · exact .inr ⟨_, hs⟩

theorem carries_setIndex {o k v : Val} (hs : Operation.setIndex h o k v = .done h') : h.Carries h' := by
  have hfrom : ∀ fuel isFirst o, Operation.setIndexFrom h fuel isFirst o k v = .done h' →
      h.Carries h' := by
    intro fuel
    induction fuel with
    | zero => rintro isFirst o ⟨⟩
    | succ fuel ih =>
      intro isFirst o hs
      rcases setIndexFrom_done hs with ⟨i, rfl⟩ | ⟨m, hm⟩
      · exact h.carries_modifyTable i _
      · exact ih _ m hm
  exact hfrom _ _ _ hs

end Heap

/-! ### Scripts -/

/-- The objects after an instruction. -/
def Stepped.heap : Stepped → Heap
  | on _ h => h
  | off _ h _ => h

@[simp] theorem Stepped.heap_made (s : Stepped) : s.made.heap = s.heap := by cases s <;> rfl

namespace Activation

variable (h : Heap) (a : Activation)

theorem carries_settle (o : Outcome Val) (n : Nat) (origins : List (Option Origin)) (event : String) :
    h.Carries (a.settle h o n origins event).heap := by
  cases o <;> exact .refl h

theorem carries_settleStore {o : Outcome Heap} (ho : ∀ h', o = .done h' → h.Carries h')
    (origins : List (Option Origin)) : h.Carries (a.settleStore h o origins).heap := by
  cases o with
  | done h' => exact ho h' rfl
  | _ => exact .refl h

theorem carries_closeNext (height : Nat) {s : Stepped} (hs : h.Carries s.heap) :
    h.Carries ((a.closeNext? h height).getD s).heap := by
  unfold closeNext?
  split
  · split
    · exact .refl h
    · exact hs
  · exact hs

theorem carries_setSlot (i : Nat) (v : Val) : h.Carries (a.setSlot h i v).2 := by
  unfold setSlot
  split
  · exact .refl h
  · exact h.carries_setCell _ _

theorem carries_capture (i : Nat) : h.Carries (a.capture h i).2.2 := by
  unfold capture
  split
  · exact .refl h
  · exact h.carries_newCell _

theorem carries_captureAll (us : List UpvalueDesc) (cells : Array Nat) :
    h.Carries (captureAll us a h cells).2.2 := by
  induction us generalizing h a cells with
  | nil => exact .refl h
  | cons u us ih =>
    unfold captureAll
    split
    · exact (a.carries_capture h u.index).trans (ih _ _ _)
    · exact ih _ _ _

end Activation

theorem Instr.carries_step (i : Instr) (a : Activation) (h : Heap) : h.Carries (i.step a h).heap := by
  have hrefl := Heap.Carries.refl h
  cases i with
  | setLocal s => exact Activation.carries_setSlot h _ s _
  | setUpvalue u => exact h.carries_setCell _ _
  | index o => exact a.carries_settle h _ _ _ _
  | setIndex pos o => exact a.carries_settleStore h (fun _ => Heap.carries_setIndex) _
  | arith op l r => exact a.carries_settle h _ _ _ _
  | unary op o => exact a.carries_settle h _ _ _ _
  | length o => exact a.carries_settle h _ _ _ _
  | ret pos => exact a.carries_closeNext h _ hrefl
  | scope height => exact a.carries_closeNext h _ hrefl
  | newTable array hash =>
    unfold step
    dsimp only
    split
    · exact hrefl
    · exact h.carries_newTable _
  | setList pos first =>
    unfold step
    dsimp only
    split
    · exact h.carries_modifyTable _ _
    · exact hrefl
  | concat l r =>
    unfold step
    dsimp only
    split
    · exact hrefl
    · rw [Stepped.heap_made]
      exact a.carries_settle h _ _ _ _
  | closure j =>
    unfold step
    dsimp only
    split
    · exact hrefl
    · split
      · exact (a.carries_captureAll h _ _).trans (Heap.carries_newClosure _ _)
      · exact hrefl
  | store pos =>
    unfold step
    dsimp only
    split
    · exact hrefl
    · exact h.carries_rawSet _ _ _
  | _ =>
    unfold step
    dsimp only
    repeat' split
    all_goals exact hrefl

theorem Activation.carries_run (n : Nat) (a : Activation) (h : Heap) : h.Carries (a.run n h).2.1 := by
  induction n generalizing a h with
  | zero => exact .refl h
  | succ n ih =>
    unfold run
    split
    · exact .refl h
    next i _ =>
      have hi := i.carries_step { a with pc := a.pc + 1 } h
      split
      next hs =>
        rw [hs] at hi
        exact hi.trans (ih _ _)
      next hs =>
        rw [hs] at hi
        exact hi

end Engine
end LuaEmbed
