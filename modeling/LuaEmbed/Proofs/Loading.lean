import LuaEmbed.Host.Loader
import LuaEmbed.Proofs.Identity
import LuaEmbed.Proofs.Leaving
import LuaEmbed.Proofs.RoundTrip

/-!
The ways to load a chunk. A load by the configured name, one by a given name and one that reports the
interpreter's own outcome all do the same with the chunk. They differ in what they make of the value
that the loader leaves: it stays on the stack, or it is taken off and becomes the text of a failure.
-/
namespace LuaEmbed

open Engine World

variable {σ μ : Type} {c : Context} {w w' w₁ : World σ μ} {s : Array Val} {chunk name : Bytes}
  {mode : LoadMode} {o : LoadOutcome} {v : Val} {h h' : Heap}

namespace Loader

variable (l : Loader) (c : Context)

/-! ### The interpreter's own loader -/

theorem standard_tryLoadWith :
    (standard.tryLoadWith c chunk name mode : Api σ μ LoadOutcome) = c.tryLoadWith chunk name mode := by
  have hvm : ∀ depth, standard.compiled chunk name mode depth =
      Context.compiled chunk name mode depth := by
    intro depth
    funext vm
    unfold compiled standard Context.compiled
    cases Chunk.load chunk name mode.letters depth vm.heap <;> rfl
  unfold tryLoadWith
  rw [Context.tryLoadWith_eq]
  simp only [hvm]

theorem standard_loadWith :
    (standard.loadWith c chunk name mode : Api σ μ Unit) = c.loadWith chunk name mode := by
  unfold loadWith
  simp only [standard_tryLoadWith]
  rfl

end Loader

/-- The kind of the topmost slot. -/
theorem Context.typeOf_shown (hs : w.shown c = some (s.push v)) (hd : (s.size : Int) < Word32.greatest) :
    c.typeOf (-1) w = (.ok v.tag, w) := by
  unfold typeOf
  rw [Api.bind_ok (resolve_shown hs hd)]
  exact congrArg (fun u : Val => (Except.ok u.tag, w)) (at_shown hs)

/-- What stands above is cut off. -/
theorem World.Leaves.cut {t : Array Val} (k : w.Leaves c (s ++ t) h w₁) :
    w.Leaves c s h (c.cut s.size w₁).2 := by
  have hcut := k.modifySlots fun u => u.shrink s.size ++ Array.replicate (s.size - u.size) .nil
  rwa [Context.cut_append] at hcut

namespace Engine

/-- A function has been added to the objects, with cells for its variables. Everything that was there
is as it was. -/
structure Heap.Gains (h : Heap) (f : Val) (h' : Heap) : Prop where
  rest : h' = { h with closures := h'.closures, cells := h'.cells }
  cells : ∀ i x, h.cells.get? i = some x → h'.cells.get? i = some x
  closures : ∃ x, h'.closures = h.closures.push x
  new : f = .closure h.closures.next

theorem Chunk.freshCells_cells (h : Heap) (n : Nat) (v : Val) :
    ∃ xs : Pool Val, (freshCells h n v).2 = { h with cells := xs } ∧
      ∀ i x, h.cells.get? i = some x → xs.get? i = some x := by
  induction n generalizing h v with
  | zero => exact ⟨h.cells, rfl, fun i x hx => hx⟩
  | succ n ih =>
    obtain ⟨xs, hrest, hcells⟩ := ih (h.newCell v).2 .nil
    refine ⟨xs, hrest, fun i x hx => hcells i x ?_⟩
    unfold Heap.newCell
    rw [Pool.get?_push, if_neg (Nat.ne_of_lt (Pool.lt_next hx)), hx]

theorem Chunk.load_gains {depth : Nat} {f : Val} (hl : load chunk name mode.letters depth h = .ok (f, h')) :
    h.Gains f h' := by
  unfold load at hl
  by_cases hs : h.starved = true
  · rw [if_pos hs] at hl
    cases hl
  rw [if_neg hs] at hl
  cases hr : read chunk name mode.letters depth with
  | error e =>
    rw [hr] at hl
    cases hl
  | ok p =>
    rw [hr] at hl
    obtain ⟨xs, hrest, hcells⟩ := freshCells_cells h p.upvalues.size h.globals
    -- What is left of the program after its chunk has been read.
    change Except.ok ((freshCells h p.upvalues.size h.globals).2.newClosure
      (.script p (freshCells h p.upvalues.size h.globals).1)) = _ at hl
    rw [hrest] at hl
    obtain ⟨rfl, rfl⟩ := Prod.mk.inj (Except.ok.inj hl)
    exact ⟨rfl, hcells, ⟨_, rfl⟩, rfl⟩

end Engine

namespace Loader

/-- What the standard loader leaves of a failure is a text, and it has made nothing; what it leaves of a
success is a new function. -/
theorem standard_leaves {depth : Nat} (hl : standard chunk name mode depth h = ((o, v), h')) :
    (o = .ok ∧ h.Gains v h') ∨ (o ≠ .ok ∧ h' = h ∧ ∃ b, v = .str b) := by
  unfold standard at hl
  cases hload : Chunk.load chunk name mode.letters depth h with
  | error e =>
    rw [hload] at hl
    obtain ⟨ho, rfl⟩ := Prod.mk.inj hl
    obtain ⟨rfl, rfl⟩ := Prod.mk.inj ho
    refine .inr ⟨?_, rfl, _, rfl⟩
    cases e.status <;> exact nofun
  | ok p =>
    rw [hload] at hl
    obtain ⟨ho, rfl⟩ := Prod.mk.inj hl
    obtain ⟨rfl, rfl⟩ := Prod.mk.inj ho
    exact .inl ⟨rfl, Chunk.load_gains hload⟩

theorem standard_tryLoad : (standard.tryLoad c chunk : Api σ μ LoadOutcome) = c.tryLoad chunk := by
  unfold tryLoad
  simp only [standard_tryLoadWith]
  rfl

theorem standard_load : (standard.load c chunk : Api σ μ Unit) = c.load chunk := by
  unfold load
  simp only [standard_loadWith]
  rfl

theorem standard_loadNamed (name : String) :
    (standard.loadNamed c chunk name mode : Api σ μ Unit) = c.loadNamed chunk name mode := by
  unfold loadNamed
  simp only [standard_loadWith]
  rfl

/-! ### What a load leaves -/

theorem nesting_reserve (w : World σ μ) (c : Context) (n : Nat) :
    ((w.reserve c n).2.thread c).top.depth = (w.thread c).top.depth := by
  rw [reserve_world, World.thread_eq, World.thread_eq, thread?_modifyThread_self]
  cases w.thread? c with
  | none => rfl
  | some th => exact (th.rested_reserve (w.heap c.vm).starved n False).depth

variable (l : Loader)

/-- The value that the loader leaves is on the stack. -/
theorem tryLoadWith_leaves (hs : w.shown c = some s) (hroom : w.Grants c 1)
    (hl : l chunk name mode (w.thread c).top.depth (w.heap c.vm) = ((o, v), h)) :
    ∃ w', l.tryLoadWith c chunk name mode w = (.ok o, w') ∧ w.Leaves c (s.push v) h w' := by
  have ha := alike_reserve w c 1
  have hs₁ : (w.reserve c 1).2.shown c = some s := (ha.shown c).trans hs
  obtain ⟨th, ht, -⟩ := Option.bind_eq_some_iff.mp hs₁
  obtain ⟨x, hx, -⟩ := Option.bind_eq_some_iff.mp ht
  have hl₁ : l chunk name mode ((w.reserve c 1).2.thread c).top.depth x.vm.heap = ((o, v), h) := by
    rw [nesting_reserve, ← vm_eq _ c.vm hx]
    exact (congrArg _ (heap_reserve w c c.vm 1)).trans hl
  have hmade : l.compiled chunk name mode ((w.reserve c 1).2.thread c).top.depth x.vm =
      ({ x.vm with heap := h }, (o, v)) := by
    unfold compiled
    rw [hl₁]
  unfold tryLoadWith
  rw [Api.bind_ok (Context.checkStack_granted (n := 1) (by decide) hroom)]
  refine ⟨_, ?_, ((ha.leaves hs).modifyHeap fun _ => h).push v⟩
  dsimp only
  rw [show Int.toNat 1 = 1 from rfl,
    onVm_congr (g := fun vm => ({ vm with heap := h }, (o, v))) _ c.vm hx hmade, onVm_answer _ c.vm _ hx,
    onVm_world]
  rfl

theorem abandon_leaves (k : w.Leaves c s h (c.cut s.size w₁).2) (text : Option String) :
    ∃ w', abandon c s.size text w₁ = (.error (.compile (text.getD "unknown error")), w') ∧
      w.Leaves c s h w' :=
  ⟨_, rfl, k.trans_alike (alike_log _ _ _ _)⟩

/-- A failure is taken off the stack and reported. -/
theorem conclude_leaves (hd : (s.size : Int) < Word32.greatest) (ho : o ≠ .ok)
    (k : w.Leaves c (s.push v) h w₁) : ∃ w', conclude c s.size o w₁ = (.error (.compile (report v)), w') ∧
      w.Leaves c s h w' := by
  have htop : c.top w₁ = (.ok (s.size + 1), w₁) := by
    unfold Context.top
    rw [depth_of_shown k.stack, Array.size_push]
    rfl
  unfold conclude
  rw [if_neg ho, Api.bind_ok htop, Api.bind_ok (Context.typeOf_shown k.stack hd)]
  cases v with
  | str b =>
    have hpop : w₁.popErrorText c = (b.toStringLossy, w₁.modifySlots c (·.pop)) := by
      unfold popErrorText
      rw [slots_of_shown k.stack, Array.back?_push]
      rfl
    have kpop := k.modifySlots (·.pop)
    rw [Array.pop_push, ← s.append_empty] at kpop
    rw [if_pos ⟨rfl, rfl⟩, Api.bind_ok (show _ = (_, _) from by rw [hpop])]
    exact abandon_leaves kpop.cut _
  | _ =>
    rw [if_neg nofun]
    rw [Array.push_eq_append] at k
    exact abandon_leaves k.cut none

/-- A load keeps what the loader leaves of a success, and reports what it leaves of a failure. -/
theorem loadWith_leaves (hs : w.shown c = some s) (hd : (s.size : Int) < Word32.greatest)
    (hroom : w.Grants c 1)
    (hl : l chunk name mode (w.thread c).top.depth (w.heap c.vm) = ((o, v), h)) :
    ∃ w', l.loadWith c chunk name mode w =
        (if o = .ok then .ok () else .error (.compile (report v)), w') ∧
      w.Leaves c (if o = .ok then s.push v else s) h w' := by
  obtain ⟨w₁, htry, k⟩ := l.tryLoadWith_leaves hs hroom hl
  have hbase : c.top w = (.ok (s.size : Int), w) := by
    unfold Context.top
    rw [depth_of_shown hs]
  unfold loadWith
  rw [Api.bind_ok hbase, Api.bind_ok htry]
  by_cases ho : o = .ok
  · rw [if_pos ho, if_pos ho]
    unfold conclude
    rw [if_pos ho]
    exact ⟨w₁, rfl, k⟩
  · rw [if_neg ho, if_neg ho]
    exact conclude_leaves hd ho k

/-! ### The configured name -/

theorem configuredName_told {x : Instance} (hx : w.instances[c.vm]? = some x) (hr : w.Recorded c.vm)
    (hroom : w.Grants c 1) :
    c.configuredName w = (.ok x.chunkName, (w.reserve c 1).2) := by
  have hshared : c.shared w = (.ok c.vm, (w.reserve c 1).2) :=
    Prod.ext (Context.shared_answer.mpr ⟨hroom, hr⟩) (c.shared_world w)
  have hname : (((w.reserve c 1).2.instances[c.vm]?).map (·.chunkName)).getD .empty = x.chunkName := by
    rw [reserve_world]
    unfold modifyThread modifyVm
    rw [instances_modifyInstance, if_pos rfl, hx]
    rfl
  unfold Context.configuredName
  rw [Api.bind_ok hshared, ← hname]
  rfl

/-- What follows the name finds the world as it was. -/
theorem configured_leaves {α : Type} {k : Bytes → Api σ μ α} {r : Except Error α} {x : Instance}
    (hx : w.instances[c.vm]? = some x) (hr : w.Recorded c.vm) (hroom : w.Grants c 1)
    (hk : ∃ w', k x.chunkName (w.reserve c 1).2 = (r, w') ∧ (w.reserve c 1).2.Leaves c s h w') :
    ∃ w', (c.configuredName >>= k) w = (r, w') ∧ w.Leaves c s h w' := by
  obtain ⟨w', he, hleft⟩ := hk
  rw [Api.bind_ok (configuredName_told hx hr hroom)]
  exact ⟨w', he, hleft.of_alike (alike_reserve w c 1)⟩

/-- A name that may be given is used as it is. -/
theorem loadNamed_eq {given : String} (hname : chunkName? given = .ok name) :
    (l.loadNamed c chunk given mode : Api σ μ Unit) = l.loadWith c chunk name mode := by
  funext w
  unfold loadNamed
  rw [hname]
  exact Api.bind_ok rfl

/-- A name that may not be given ends a load before it begins. -/
theorem loadNamed_refused {given : String} (hnul : '\x00' ∈ given.toList) : ∃ text, ∀ (w : World σ μ),
    l.loadNamed c chunk given mode w = (.error (.unsupportedValue text), w) := by
  have hname : ∃ text, chunkName? given = .error (.unsupportedValue text) :=
    ⟨_, if_pos (List.contains_iff_mem.mpr hnul)⟩
  obtain ⟨text, hname⟩ := hname
  refine ⟨text, fun w => ?_⟩
  unfold loadNamed
  rw [hname]
  rfl

end Loader

open Loader in
/-- The three ways to load a chunk agree, whatever the loader makes of it; and with the loader that
interpreters have they are the program's. A name with a null byte is refused before any loader is
asked. -/
theorem loading_law (l : Loader) {x : Instance} (hx : w.instances[c.vm]? = some x)
    (hr : w.Recorded c.vm) (hs : w.shown c = some s) (hd : (s.size : Int) < Word32.greatest)
    (hroom : w.Grants c 1)
    (hl : l chunk x.chunkName .any (w.thread c).top.depth (w.heap c.vm) = ((o, v), h)) :
    (∃ w₁, l.tryLoad c chunk w = (.ok o, w₁) ∧ w.Leaves c (s.push v) h w₁) ∧
    (∃ r w₁, r = (if o = .ok then .ok () else .error (.compile (report v))) ∧
      l.load c chunk w = (r, w₁) ∧ w.Leaves c (if o = .ok then s.push v else s) h w₁ ∧
      ∀ name, chunkName? name = .ok x.chunkName →
        ∃ w₂, l.loadNamed c chunk name .any w = (r, w₂) ∧ w₁.Alike w₂) ∧
    (∀ name mode, '\x00' ∈ name.toList → ∃ text, ∀ (w' : World σ μ),
      l.loadNamed c chunk name mode w' = (.error (.unsupportedValue text), w')) ∧
    (standard.tryLoad c chunk : Api σ μ LoadOutcome) = c.tryLoad chunk ∧
    (standard.load c chunk : Api σ μ Unit) = c.load chunk ∧
    (∀ name mode, (standard.loadNamed c chunk name mode : Api σ μ Unit) = c.loadNamed chunk name mode) ∧
    (l = standard → (o = .ok ∧ (w.heap c.vm).Gains v h) ∨
      (o ≠ .ok ∧ h = w.heap c.vm ∧ ∃ b, v = .str b)) := by
  have ha := alike_reserve w c 1
  have hs₁ := (ha.shown c).trans hs
  have hroom₁ : (w.reserve c 1).2.Grants c 1 := hroom.reserve c fun _ => Nat.le_refl 1
  have hl₁ : l chunk x.chunkName .any ((w.reserve c 1).2.thread c).top.depth
      ((w.reserve c 1).2.heap c.vm) = ((o, v), h) := by
    rw [nesting_reserve, ha.heap]
    exact hl
  obtain ⟨w₁, hload, hleft⟩ :=
    configured_leaves (k := fun name => l.loadWith c chunk name .any) hx hr hroom
      (l.loadWith_leaves hs₁ hd hroom₁ hl₁)
  refine ⟨configured_leaves (k := fun name => l.tryLoadWith c chunk name .any) hx hr hroom
      (l.tryLoadWith_leaves hs₁ hroom₁ hl₁),
    ⟨_, w₁, rfl, hload, hleft, fun name hname => ?_⟩, fun name mode hnul => ?_,
    standard_tryLoad, standard_load, fun name mode => standard_loadNamed name, ?_⟩
  · obtain ⟨w₂, hnamed, hleft'⟩ := l.loadWith_leaves hs hd hroom hl
    rw [← l.loadNamed_eq hname] at hnamed
    exact ⟨w₂, hnamed, hleft.alike hleft'⟩
  · exact l.loadNamed_refused hnul
  · rintro rfl
    exact standard_leaves hl

/-- Text that is no program leaves a message for one way to load it, and the other two report that
message and leave nothing. -/
theorem load_malformed :
    let c : Context := ⟨0, 0⟩
    let w := Context.spawned
    let complaint : Bytes := "[string \"\"]:1: unexpected symbol near '='"
    w.Recorded c.vm ∧ w.Grants c 1 ∧ w.shown c = some #[.thread 1] ∧
      (∃ w₁, c.tryLoad "=" w = (.ok .malformed, w₁) ∧
        w.Leaves c #[.thread 1, .str complaint] (w.heap c.vm) w₁) ∧
      ∃ w₁ w₂, c.load "=" w = (.error (.compile complaint.toStringLossy), w₁) ∧
        c.loadNamed "=" "" .any w = (.error (.compile complaint.toStringLossy), w₂) ∧
        w.Leaves c #[.thread 1] (w.heap c.vm) w₁ ∧ w₁.Alike w₂ := by
  intro c w complaint
  have hr : w.Recorded c.vm := by
    unfold World.Recorded
    decide +kernel
  have hroom : w.Grants c 1 := by decide +kernel
  have hs : w.shown c = some #[.thread 1] := by decide +kernel
  have hmade : (Loader.standard "=" .empty .any (w.thread c).top.depth (w.heap c.vm)).1 =
      (.malformed, .str complaint) := by decide +kernel
  obtain ⟨htry, ⟨r, w₁, hr', hload, hleft, hnamed⟩, -, hstandard, hstandard', hstandard'', hheap⟩ :=
    loading_law Loader.standard (c := c) (x := w.instances[0]) rfl hr hs (by decide) hroom
      (Prod.ext hmade rfl)
  obtain ⟨ho, -⟩ | ⟨-, hheap, -⟩ := hheap rfl
  · cases ho
  obtain ⟨w₂, hnamed, ha⟩ := hnamed "" rfl
  rw [hstandard, hheap] at htry
  rw [hheap] at hleft
  rw [hstandard'] at hload
  rw [hstandard''] at hnamed
  subst hr'
  exact ⟨hr, hroom, hs, htry, w₁, w₂, hload, hnamed, hleft, ha⟩

/-- Without its record an interpreter has no configured name, and only a load by a given name, be it
the one that was configured, succeeds. -/
theorem load_unmarked :
    let c : Context := ⟨0, 0⟩
    let w := unmarked #[]
    w.Grants c 1 ∧ (w.instances[0]?).map (·.chunkName) = some .empty ∧ chunkName? "" = .ok .empty ∧
      ∃ w₁ w₂, c.load "" w = (.error Context.unrecorded, w₁) ∧ c.loadNamed "" "" .any w = (.ok (), w₂) ∧
        w₁.shown c = some #[] ∧ (w₂.shown c).map Array.size = some 1 :=
  ⟨by decide +kernel, by decide +kernel, by decide +kernel, _, _, Prod.ext (by decide +kernel) rfl,
    Prod.ext (by decide +kernel) rfl, by decide +kernel, by decide +kernel⟩

end LuaEmbed
