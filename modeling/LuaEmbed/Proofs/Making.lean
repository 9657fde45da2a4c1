import LuaEmbed.Proofs.Libraries

/-!
Making an interpreter. A new one has what the openers of libraries need, and nothing hinders them; so they
are all opened, whichever they are, and only a bad chunk name keeps an interpreter from being made.
-/
namespace LuaEmbed

open Engine World

/-- The name that a configuration gives to chunks holds a NUL byte. -/
def Config.Rejected (config : Config) : Prop := '\x00' ∈ config.chunkName.toList

instance (config : Config) : Decidable config.Rejected := inferInstanceAs (Decidable (_ ∈ _))

theorem Config.chunkName?_eq (config : Config) :
    config.Rejected ∧ (∃ why, chunkName? config.chunkName = .error (.unsupportedValue why)) ∨
      ¬ config.Rejected ∧ chunkName? config.chunkName = .ok (Bytes.ofString config.chunkName) := by
  unfold Config.Rejected chunkName?
  split
  next h => exact .inl ⟨List.contains_iff_mem.mp h, _, rfl⟩
  next h => exact .inr ⟨mt List.contains_iff_mem.mpr h, rfl⟩

namespace Engine.Heap

/-- The objects of a new interpreter, but for its record. -/
def bare : Heap :=
  let (registry, h) := Heap.newTable {} {}
  let (globals, h) := h.newTable {}
  let h := match registry with
    | .table i => { h with registry := i }
    | _ => h
  let h := h.rawSet registry (.int 1) (.thread 0)
  h.rawSet registry (.int 2) globals

theorem heap_freshVm (n : Nat) :
    (freshVm n).heap = bare.rawSet bare.registryTable recordKey (record n) := rfl

/-- The record of a new interpreter is stored beside what its registry holds otherwise. -/
theorem rawGet_freshVm (n : Nat) {k : Val} (hk : Val.order recordKey.normalKey k.normalKey ≠ .eq) :
    (freshVm n).heap.rawGet bare.registryTable k = bare.rawGet bare.registryTable k := by
  rw [heap_freshVm]
  exact (rawGet_rawSet_cases _ _ _ _ _).resolve_right fun h => hk h.2.1

theorem registryTable_freshVm (n : Nat) : (freshVm n).heap.registryTable = bare.registryTable := by
  rw [heap_freshVm]
  exact registryTable_rawSet _ _ _ _

/-- Until modules are loaded, there is room for their table. -/
theorem has_loadedTable {h : Heap} (hnone : h.rawGet h.registryTable (.text "_LOADED") = .nil) :
    h.withLoaded.Has h.loadedTable := by
  unfold withLoaded loadedTable subtable
  rw [hnone]
  exact (has_newTable h {}).rawSet _ _ _

theorem has_bare (i : Nat) (hi : i < 2) : bare.Has (.table i) := by
  have hsome : (bare.tables.get? i).isSome = true := by
    have hall : ∀ j : Fin 2, (bare.tables.get? j).isSome = true := by decide +kernel
    exact hall ⟨i, hi⟩
  obtain ⟨x, hx⟩ := Option.isSome_iff_exists.mp hsome
  exact ⟨i, x, rfl, hx⟩

theorem equipped_freshVm (n : Nat) : Context.Equipped (freshVm n).heap := by
  have hkeeps : ∀ i, i < 2 → (freshVm n).heap.Has (.table i) := fun i hi => by
    rw [heap_freshVm]
    exact (has_bare i hi).rawSet _ _ _
  have hglobals : (freshVm n).heap.globals = .table 1 := by
    unfold Heap.globals
    rw [registryTable_freshVm, rawGet_freshVm n (by decide)]
    decide +kernel
  refine ⟨hkeeps 0 (by decide), ?_, has_loadedTable ?_⟩
  · rw [hglobals]
    exact hkeeps 1 (by decide)
  · rw [registryTable_freshVm, rawGet_freshVm n (by decide)]
    decide +kernel

theorem recorded_freshVm (n : Nat) : (freshVm n).heap.Recorded := by
  refine ⟨0x7F10000000 + 0x100 * n, by omega, ?_⟩
  rw [registryTable_freshVm, heap_freshVm]
  exact rawGet_rawSet_key (has_bare 0 (by decide)) _ _

end Engine.Heap

variable {σ μ : Type} {code : HostCode σ μ} {w w' : World σ μ}

namespace World

/-- The world once there is a new interpreter, before its libraries are opened. -/
def born (w : World σ μ) (config : Config) (name : Bytes) : World σ μ :=
  { w with
    instances := w.instances.push { vm := freshVm w.instances.size, chunkName := name }
    hook := match config.hook with
      | some h => some h
      | none => w.hook }

variable (config : Config) (name : Bytes)

theorem heap_born :
    (w.born config name).heap w.instances.size = (freshVm w.instances.size).heap := by
  unfold World.heap vm born
  rw [Array.getElem?_push_size]
  rfl

theorem thread?_born : (w.born config name).thread? ⟨w.instances.size, 0⟩ = some {} := by
  unfold thread? born
  rw [Array.getElem?_push_size]
  rfl

theorem hook_born : (w.born config name).hook = config.hook.or w.hook := by
  unfold born
  cases config.hook <;> rfl

theorem stands_born : (w.born config name).Stands ⟨w.instances.size, 0⟩ #[] := by
  refine ⟨?_, ?_⟩
  · unfold shown
    rw [thread?_born]
    rfl
  · unfold status?
    rw [thread?_born]
    rfl

theorem admits_born : Context.Admits ⟨w.instances.size, 0⟩ #[] (w.born config name) := by
  refine Context.admits_granted (stands_born config name)
    ⟨{}, thread?_born config name, by decide, by decide, by decide⟩ ?_
  rw [(reserve_thread (thread?_born config name) 5).1, heap_born]
  change (({} : Thread).reserve false 5).1 = true
  decide

theorem unhindered_born : Context.Unhindered ⟨w.instances.size, 0⟩ 0 (w.born config name) := by
  refine ⟨?_, {}, thread?_born config name, by decide, by decide⟩
  rw [heap_born]
  rfl

end World

/-- What making an interpreter comes to, when the name of its chunks is good. -/
theorem newInstance_ends (code : HostCode σ μ) (w : World σ μ) {config : Config} {name : Bytes}
    (hname : chunkName? config.chunkName = .ok name) :
    ∃ w', Run.Ends (α := Except Error Nat) code (newInstance config) w (.ok w.instances.size, w') ∧
      Sustains ⟨w.instances.size, 0⟩ (w.born config name) w' := by
  let c : Context := ⟨w.instances.size, 0⟩
  have hheap := heap_born (w := w) config name
  obtain ⟨ran, w₁, hall, hsustains⟩ := Context.openLibs_unhindered code
    (admits_born (w := w) config name) (by rw [hheap]; exact Heap.equipped_freshVm _)
    (by rw [hheap]; exact Heap.recorded_freshVm _) (unhindered_born config name)
    (if config.openStdLibs then StdLib.all else config.libs)
  obtain ⟨fuel, hends⟩ := hall.ends
  refine ⟨_, ⟨fuel, ?_⟩, hsustains.trans (sustains_log w₁ .debug "state created"
    [("config", config.describe)])⟩
  unfold newInstance
  refine Act.bind_some.mpr (.inl ⟨name, w, ?_, ?_⟩)
  · rw [hname]
    rfl
  · rw [Act.get_bind, Act.update_bind]
    exact Act.lift_bind_some.mpr ⟨_, _, hends, rfl⟩

/-- No interpreter is made for a chunk name that holds a NUL byte. -/
theorem newInstance_rejected {config : Config} {e : Error} (hname : chunkName? config.chunkName = .error e)
    (d : Drive σ μ) : newInstance config d w = some (.error e, w) := by
  unfold newInstance
  refine Act.bind_some.mpr (.inr ⟨e, ?_, rfl⟩)
  rw [hname]
  rfl

end LuaEmbed
