import LuaEmbed.Proofs.Libraries
import LuaEmbed.Proofs.RoundTrip

/-!
Modules. A registration calls its opener once, with the name, if nothing is recorded under the name, and
not at all otherwise; if it succeeds, one value is on the stack, among the loaded modules and, if that
was asked for, among the globals. If it fails, all is as it was, unless it fails at the very end: a
thread that has been recorded and published cannot be read without the record of the interpreter.
-/
namespace LuaEmbed

open Engine World

variable {σ μ : Type} {c : Context} {w : World σ μ} {s : Array Val}

namespace Context

/-- How a registration ends once its opener, called with this table on the stack, has exited. -/
inductive Completes (c : Context) (s : Array Val) (t : Val) (name : Bytes) (publish : Bool)
    (u : World σ μ) : Exit → Except Error Value × World σ μ → Prop where
  /-- The error is passed on, and nothing has been recorded. -/
  | raised (status : ErrorStatus) (v : Val) {e : Error} {w' : World σ μ} (hs : w'.Stands c s)
    (hh : ∀ i, w'.heap i = u.heap i) : Completes c s t name publish u (.raised status v) (.error e, w')
  /-- The first value that the opener gives is recorded. -/
  | returned (vs : List Val) {p : Except Error Value × World σ μ}
    (h : Settles c s t name publish (vs.headD .nil)
      ((u.heap c.vm).rawSet t (.str name) (vs.headD .nil)) p) :
    Completes c s t name publish u (.returned vs) p

/-- What comes of a registration, whatever runs, and when its opener is called. -/
inductive Registers (code : HostCode σ μ) (c : Context) (s : Array Val) (name : Bytes)
    (publish : Bool) (w : World σ μ) : Prop where
  /-- There is no room for it, and nothing happens. -/
  | refused {e : Error} {w' : World σ μ}
    (h : ∀ o d, c.registerModule name o publish d w = some (.error e, w')) (hw : w.Alike w')
  /-- Nothing runs, whatever the opener. -/
  | loaded {p : Except Error Value × World σ μ}
    (hx : ((w.heap c.vm).loadedEntry name).truthy = true)
    (h : ∀ o d, c.registerModule name o publish d w = some p)
    (hp : Settles c s (w.heap c.vm).loadedTable name publish ((w.heap c.vm).loadedEntry name)
      (w.heap c.vm).withLoaded p)
  /-- The opener is called once, and nothing else runs. -/
  | opened (hx : ((w.heap c.vm).loadedEntry name).truthy = false)
    (h : ∀ o, ∃ m, Opens c s name o (w.heap c.vm).loadedTable (w.heap c.vm).withLoaded m ∧
      ∃ k : Exit → World σ μ → Except Error Value × World σ μ,
        (∀ d, c.registerModule name o publish d w = (d.from m).map fun r => k r.1 r.2) ∧
        ∀ fuel e u, (World.drive code fuel).from m = some (e, u) → Unclosed c.vm w u →
          (u.heap c.vm).Has (w.heap c.vm).loadedTable →
          (publish = true → (u.heap c.vm).Has (u.heap c.vm).globals) →
          Completes c s (w.heap c.vm).loadedTable name publish u e (k e u))

theorem registers (code : HostCode σ μ) (hs : w.Stands c s) (hf : w.Fits c) (name : Bytes)
    (publish : Bool) (hg : publish = true → (w.heap c.vm).Has (w.heap c.vm).globals) :
    Registers code c s name publish w := by
  cases hroom : (w.reserve c 5).1 with
  | false =>
    obtain ⟨e, w', h, hw⟩ := registerModule_refused hroom name publish
    exact .refused h hw
  | true =>
    have hadmits := admits_granted hs hf hroom
    cases hx : ((w.heap c.vm).loadedEntry name).truthy with
    | true =>
      obtain ⟨p, h, -, hp⟩ := registerModule_loaded hadmits hx hg
      exact .loaded hx h hp
    | false =>
      refine .opened hx fun o => ?_
      obtain ⟨f, u, hreadied, hlaunching, h⟩ := registerModule_fresh hadmits hx o publish
      refine ⟨_, hreadied.opens, _, h, fun fuel e u hd hc ht hglobals => ?_⟩
      obtain ⟨hpoised, hyield⟩ := hreadied.opens.exit hd
        (hc.of_history ((history_calling ..).trans hlaunching.history) rfl)
      cases e with
      | raised status v =>
        obtain ⟨e, w', hfailed, hstands, hheap⟩ := completed_raised hpoised.stands name publish status v
        rw [hfailed]
        exact .raised status v hstands hheap
      | returned vs => exact .returned vs (completed_returned hpoised vs ht hglobals)
      | yielded vs => exact absurd rfl (hyield vs)

/-- Registrations, one by one, and the libraries of a list: the opener of each is called once, unless it
was loaded before, and the stack is left as it was. -/
theorem registerModule_law (code : HostCode σ μ) (hs : w.Stands c s) (hf : w.Fits c)
    (he : Equipped (w.heap c.vm)) :
    (∀ name publish, Registers code c s name publish w) ∧
    ((w.reserve c 5).1 = true → ∀ libs, ∃ ran r, AllOpened code c s libs w ran r ∧ ran.Nodup ∧
      (∀ lib ∈ ran, lib ∈ libs ∧ ¬ c.Loaded w lib) ∧
      (r.1 = .ok () → ∀ lib ∈ libs, c.Loaded w lib ∨ lib ∈ ran) ∧
      (r.1 = .ok () ∨ (w.heap c.vm).Recorded → r.2.Stands c s)) :=
  ⟨fun name publish => registers code hs hf name publish fun _ => he.globals,
    fun hroom => openLibs_once code (admits_granted hs hf hroom) hs he⟩

/-- Tables that are there, as can be computed. -/
theorem has_of_isSome {h : Heap} {t : Val} {i : Nat} (ht : t = .table i)
    (hi : (h.tables.get? i).isSome = true) : h.Has t := by
  obtain ⟨x, hx⟩ := Option.isSome_iff_exists.mp hi
  exact ⟨i, x, ht, hx⟩

theorem registerModule_law_spawned :
    spawned.Stands ⟨0, 0⟩ #[.thread 1] ∧ spawned.Fits ⟨0, 0⟩ ∧ Equipped (spawned.heap 0) ∧
      Registers HostCode.silent ⟨0, 0⟩ #[.thread 1] (Bytes.ofString "m") true spawned ∧
      ∃ ran r, AllOpened HostCode.silent ⟨0, 0⟩ #[.thread 1] [.string, .string] spawned ran r ∧
        ran.Nodup ∧ r.2.Stands ⟨0, 0⟩ #[.thread 1] := by
  have hs : spawned.Stands ⟨0, 0⟩ #[.thread 1] := ⟨by decide +kernel, by decide +kernel⟩
  have hf : spawned.Fits ⟨0, 0⟩ := ⟨_, rfl, by decide +kernel, by decide +kernel, by decide +kernel⟩
  have he : Equipped (spawned.heap 0) :=
    ⟨has_of_isSome (i := 0) (by decide +kernel) (by decide +kernel),
      has_of_isSome (i := 1) (by decide +kernel) (by decide +kernel),
      has_of_isSome (i := 2) (by decide +kernel) (by decide +kernel)⟩
  have hroom : (spawned.reserve ⟨0, 0⟩ 5).1 = true := by decide +kernel
  have hrecorded : (spawned.heap 0).Recorded := (Heap.recorded_iff _).mpr (by decide +kernel)
  obtain ⟨hregisters, hlibs⟩ := registerModule_law HostCode.silent hs hf he
  obtain ⟨ran, r, hall, hnodup, -, -, hstands⟩ := hlibs hroom [.string, .string]
  exact ⟨hs, hf, he, hregisters _ _, ran, r, hall, hnodup, hstands (.inr hrecorded)⟩

/-- An interpreter without its record, in which a thread is recorded as a module. -/
def misplaced : World Unit Unit :=
  (unmarked #[]).modifyHeap 0 fun h => h.withLoaded.rawSet h.loadedTable (.text "m") (.thread 0)

/-- A module that cannot be read is published, and stays on the stack. -/
theorem registerModule_strands :
    ∃ w', (∀ o d, registerModule ⟨0, 0⟩ (Bytes.ofString "m") o true d misplaced =
        some (.error unrecorded, w')) ∧
      misplaced.shown ⟨0, 0⟩ = some #[] ∧ w'.shown ⟨0, 0⟩ = some #[.thread 0] ∧
      (misplaced.heap 0).rawGet (misplaced.heap 0).globals (.text "m") = .nil ∧
      (w'.heap 0).rawGet (w'.heap 0).globals (.text "m") = .thread 0 := by
  have hs : misplaced.Stands ⟨0, 0⟩ #[] := ⟨by decide +kernel, by decide +kernel⟩
  have hf : misplaced.Fits ⟨0, 0⟩ := ⟨_, rfl, by decide +kernel, by decide +kernel, by decide +kernel⟩
  have hroom : (misplaced.reserve ⟨0, 0⟩ 5).1 = true := by decide +kernel
  have hentry : (misplaced.heap 0).loadedEntry (Bytes.ofString "m") = .thread 0 := by decide +kernel
  have htruthy : ((misplaced.heap 0).loadedEntry (Bytes.ofString "m")).truthy = true := by
    rw [hentry]
    rfl
  have hunread : (misplaced.heap 0).withLoaded.Unreadable (.thread 0) :=
    ⟨⟨0, rfl⟩, mt (Heap.recorded_iff _).mp (by decide +kernel)⟩
  have hglobals : (misplaced.heap 0).Has (misplaced.heap 0).globals :=
    has_of_isSome (i := 1) (by decide +kernel) (by decide +kernel)
  obtain ⟨p, h, -, hp⟩ : ∃ p, (∀ o d, registerModule ⟨0, 0⟩ _ o true d misplaced = some p) ∧ _ :=
    registerModule_loaded (admits_granted hs hf hroom) htruthy fun _ => hglobals
  rw [hentry] at hp
  cases hp with
  | read hx => exact absurd hunread hx
  | @unread w' hx hw =>
    exact ⟨w', h, hs.shown, hw.stack.stands.shown, by decide +kernel, hw.global rfl⟩

end Context
end LuaEmbed
