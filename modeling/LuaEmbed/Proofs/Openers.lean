import LuaEmbed.Host.Module
import LuaEmbed.Proofs.Entries

/-!
What the openers of the standard libraries do to the objects of an interpreter. Each of them makes a
table, fills it in, and adds entries elsewhere; nothing that was there is lost.
-/
namespace LuaEmbed

open Engine

/-- The names of the other libraries. -/
def StdLib.others (lib : StdLib) : List String := (all.filter (· ≠ lib)).map moduleName

namespace Engine

namespace Heap

/-- The second heap has what the first one has: the same registry, in which only entries under texts
have changed and not the table of loaded modules, all tables, and an entry that does not fail a test
wherever the first one has one. The entries under some names are as they were, and so is whether
allocation fails. -/
structure Enriched (names : List String) (h h' : Heap) : Prop where
  registry : h'.registry = h.registry
  starved : h'.starved = h.starved
  has : ∀ t, h.Has t → h'.Has t
  truthy : ∀ t k, (h.rawGet t k).truthy = true → (h'.rawGet t k).truthy = true
  plain : ∀ k : Val, (∀ s, k.normalKey ≠ .str s) →
    h'.rawGet h.registryTable k = h.rawGet h.registryTable k
  loaded : ∀ i, h.rawGet h.registryTable (.text "_LOADED") = .table i →
    h'.rawGet h.registryTable (.text "_LOADED") = .table i
  spared : ∀ t, ∀ k ∈ names, h'.rawGet t (.text k) = h.rawGet t (.text k)

variable {names : List String} {h h₁ h₂ : Heap}

theorem Enriched.registryTable (e : h.Enriched names h₁) : h₁.registryTable = h.registryTable :=
  congrArg Val.table e.registry

theorem Enriched.globals (e : h.Enriched names h₁) : h₁.globals = h.globals := by
  unfold Heap.globals
  rw [e.registryTable]
  exact e.plain _ nofun

theorem Enriched.recorded (e : h.Enriched names h₁) : h₁.Recorded ↔ h.Recorded := by
  unfold Recorded
  rw [e.registryTable, e.plain recordKey nofun]

theorem Enriched.refl (h : Heap) : h.Enriched names h :=
  ⟨rfl, rfl, fun _ ht => ht, fun _ _ hk => hk, fun _ _ => rfl, fun _ hi => hi, fun _ _ _ => rfl⟩

theorem Enriched.trans (e : h.Enriched names h₁) (e' : h₁.Enriched names h₂) :
    h.Enriched names h₂ where
  registry := e'.registry.trans e.registry
  starved := e'.starved.trans e.starved
  has t ht := e'.has t (e.has t ht)
  truthy t k hk := e'.truthy t k (e.truthy t k hk)
  plain k hk := by
    have hp := e'.plain k hk
    rw [e.registryTable] at hp
    exact hp.trans (e.plain k hk)
  loaded i hi := by
    have hl := e'.loaded i
    rw [e.registryTable] at hl
    exact hl (e.loaded i hi)
  spared t k hk := (e'.spared t k hk).trans (e.spared t k hk)

/-- Changes that leave the tables alone. -/
theorem enriched_of_tables (ht : h₁.tables = h.tables) (hr : h₁.registry = h.registry)
    (hs : h₁.starved = h.starved) : h.Enriched names h₁ := by
  have hraw : ∀ t k, h₁.rawGet t k = h.rawGet t k := by
    intro t k
    cases t with
    | table i =>
      change ((h₁.tables.get? i).getD {}).get k = ((h.tables.get? i).getD {}).get k
      rw [ht]
    | _ => rfl
  refine ⟨hr, hs, ?_, fun t k hk => (hraw t k).symm ▸ hk, fun k _ => hraw _ k,
    fun i hi => (hraw _ _).trans hi, fun t k _ => hraw t _⟩
  rintro t ⟨i, x, rfl, hx⟩
  exact ⟨i, x, rfl, ht ▸ hx⟩

theorem enriched_newTable (h : Heap) : h.Enriched names (h.newTable {}).2 where
  registry := rfl
  starved := rfl
  has _ ht := ht.newTable {}
  truthy t k hk := by rwa [rawGet_newTable]
  plain k _ := rawGet_newTable h.registryTable k
  loaded i hi := (rawGet_newTable _ _).trans hi
  spared t k _ := rawGet_newTable t _

theorem text_ne {s t : String} (h : s ≠ t) : Val.text s ≠ Val.text t := fun he =>
  h (String.toByteArray_inj.mp (Val.str.inj he))

/-- Storing a value that does not fail a test, under a key that sets no name apart: in another table than
the registry or under a text; the table of loaded modules is not replaced. -/
theorem enriched_rawSet {t k v : Val} (hv : v.truthy = true)
    (hk : t ≠ h.registryTable ∨ ∃ s, k = .str s ∧ (.str s = Val.text "_LOADED" →
      ∀ i, h.rawGet h.registryTable (.text "_LOADED") ≠ .table i))
    (hn : ∀ name ∈ names, k.normalKey ≠ .text name) : h.Enriched names (h.rawSet t k v) := by
  refine ⟨by cases t <;> rfl, by cases t <;> rfl, fun u hu => hu.rawSet t k v, fun u k' hu => ?_, fun k' hk' => ?_,
    fun i hi => ?_, fun u k' hk' => ?_⟩
  · rcases rawGet_rawSet_cases (h := h) t k v u k' with hsame | ⟨-, -, hstored⟩
    · rwa [hsame]
    · rwa [hstored]
  · rcases hk with hne | ⟨s, rfl, -⟩
    · exact (rawGet_rawSet_cases t k v _ _).resolve_right fun hc => hne hc.1
    · exact rawGet_rawSet_of_ne (.inr (hk' s)) v
  · rcases hk with hne | ⟨s, rfl, hs⟩
    · exact ((rawGet_rawSet_cases t k v _ _).resolve_right fun hc => hne hc.1).trans hi
    · have hother : Val.normalKey (.text "_LOADED") ≠ .str s := fun he => hs he.symm i hi
      exact (rawGet_rawSet_of_ne (.inr hother) v).trans hi
  · refine (rawGet_rawSet_cases t k v _ _).resolve_right fun ⟨_, he, _⟩ => hn k' hk' ?_
    exact Val.order_text.mp (Std.OrientedCmp.eq_symm he)

theorem enriched_rawSetText (t : Val) {k : String} {v : Val} (hv : v.truthy = true)
    (hk : k ∉ "_LOADED" :: names) : h.Enriched names (h.rawSetText t k v) := by
  obtain ⟨hl, hn⟩ := not_or.mp (mt List.mem_cons.mpr hk)
  exact enriched_rawSet hv (.inr ⟨_, rfl, fun he => absurd he (text_ne hl)⟩) fun name hname =>
    text_ne fun he => hn (he ▸ hname)

theorem enriched_subtable (h : Heap) {name : String} (hn : name ∉ names) :
    h.Enriched names (h.subtable h.registryTable name).2 ∧
      ∃ i, (h.subtable h.registryTable name).1 = .table i := by
  unfold subtable
  split
  next i _ => exact ⟨.refl h, i, rfl⟩
  next hnone =>
    have hset : (h.newTable {}).2.Enriched names
        ((h.newTable {}).2.rawSet h.registryTable (.text name) (h.newTable {}).1) := by
      refine enriched_rawSet rfl (.inr ⟨_, rfl, fun he i hi => hnone i ?_⟩) fun k hk =>
        text_ne fun he => hn (he ▸ hk)
      rw [← rawGet_newTable, show Val.text name = Val.text "_LOADED" from he]
      exact hi
    exact ⟨(enriched_newTable h).trans hset, _, rfl⟩

end Heap

/-- A table that was not there in the beginning, or another one that is not the registry. -/
def Val.Apart (h : Heap) (v : Val) : Prop := (∃ i, v = .table i) ∧ v ≠ h.registryTable

theorem Val.Apart.truthy {h : Heap} {v : Val} (hv : v.Apart h) : v.truthy = true := by
  obtain ⟨⟨i, rfl⟩, -⟩ := hv
  rfl

namespace Native

variable {α β : Type}

/-- A native function makes its result of the objects alone, which it enriches, or it fails because
allocation does. -/
def Builds (names : List String) (h₀ : Heap) (m : Native α) (P : α → Prop) : Prop :=
  ∀ h, h₀.Enriched names h → ∀ k, (h₀.starved = true ∧ ∃ h', m k h = (h', .raiseMemory)) ∨
    ∃ a h', h₀.Enriched names h' ∧ P a ∧ m k h = k a h'

variable {names : List String} {h₀ : Heap} {m : Native α} {P : α → Prop} {Q : β → Prop}

namespace Builds

theorem pure {a : α} (ha : P a) : Builds names h₀ (Pure.pure a) P :=
  fun h he _ => .inr ⟨a, h, he, ha, rfl⟩

theorem bind {f : α → Native β} (hm : m.Builds names h₀ P) (hf : ∀ a, P a → (f a).Builds names h₀ Q) :
    (m >>= f).Builds names h₀ Q := by
  intro h he k
  rcases hm h he fun a => f a k with hfail | ⟨a, h', he', ha, hrun⟩
  · exact .inl hfail
  · change (_ ∧ ∃ h₁, m (fun a => f a k) h = _) ∨ ∃ b h₁, _ ∧ _ ∧ m (fun a => f a k) h = _
    rw [hrun]
    exact hf a ha h' he' k

theorem onHeap {f : Heap → α × Heap}
    (hf : ∀ h, h₀.Enriched names h → h.Enriched names (f h).2 ∧ P (f h).1) : (Native.onHeap f).Builds names h₀ P :=
  fun h he _ => .inr ⟨_, _, he.trans (hf h he).1, (hf h he).2, rfl⟩

theorem modifyHeap {f : Heap → Heap} (hf : ∀ h, h₀.Enriched names h → h.Enriched names (f h)) :
    (Native.modifyHeap f).Builds names h₀ fun _ => True :=
  fun h he _ => .inr ⟨_, _, he.trans (hf h he), trivial, rfl⟩

theorem heap : Native.heap.Builds names h₀ (h₀.Enriched names) := fun h he _ => .inr ⟨h, h, he, he, rfl⟩

theorem allocate : Native.allocate.Builds names h₀ fun _ => True := by
  refine heap.bind fun h he => ?_
  split
  next hs => exact fun h _ _ => .inl ⟨he.starved.symm.trans hs, h, rfl⟩
  next => exact .pure trivial

theorem newTable (hr : h₀.Has h₀.registryTable) : (Native.newTable {}).Builds names h₀ (Val.Apart h₀) := by
  refine allocate.bind fun _ _ => onHeap fun h he => ⟨Heap.enriched_newTable h, ⟨_, rfl⟩, ?_⟩
  obtain ⟨i, x, hi, hx⟩ := he.has _ hr
  intro hnew
  have hitem : h.tables.items[i]? = some (some x) := Option.join_eq_some_iff.mp hx
  have hlt : i < h.tables.next := (Array.getElem?_eq_some_iff.mp hitem).1
  have hnext : h.tables.next = i := Val.table.inj (hnew.trans hi)
  omega

theorem newClosure (c : Closure) : (Native.newClosure c).Builds names h₀ (·.truthy = true) :=
  allocate.bind fun _ _ => onHeap fun _ _ => ⟨Heap.enriched_of_tables rfl rfl rfl, rfl⟩

theorem forIn {f : α → PUnit → Native (ForInStep PUnit)} {l : List α}
    (hf : ∀ a ∈ l, (f a .unit).Builds names h₀ (· = .yield .unit)) :
    (forIn l PUnit.unit f).Builds names h₀ fun _ => True := by
  induction l with
  | nil => exact .pure trivial
  | cons a l ih =>
    rw [List.forIn_cons]
    refine (hf a (List.mem_cons_self ..)).bind fun s hs => ?_
    subst hs
    exact ih fun b hb => hf b (List.mem_cons_of_mem _ hb)

theorem mapM {f : α → Native β} (l : List α) (hf : ∀ a, (f a).Builds names h₀ Q) :
    (l.mapM f).Builds names h₀ (∀ b ∈ ·, Q b) := by
  have hloop : ∀ (l : List α) (acc : List β), (∀ b ∈ acc, Q b) →
      (List.mapM.loop f l acc).Builds names h₀ (∀ b ∈ ·, Q b) := by
    intro l
    induction l with
    | nil => exact fun acc hacc => .pure fun b hb => hacc b (List.mem_reverse.mp hb)
    | cons a l ih =>
      intro acc hacc
      refine (hf a).bind fun b hb => ih (b :: acc) fun b' hb' => ?_
      rcases List.mem_cons.mp hb' with rfl | hb'
      · exact hb
      · exact hacc b' hb'
  exact hloop l [] nofun

end Builds
end Native
end Engine

/-! ### The openers -/

namespace Library.Openers

open Engine.Native Engine.Heap

variable {names : List String} {h₀ : Heap} (hr : h₀.Has h₀.registryTable)

theorem enriched_setFields (t : Val) {fields : List (String × Builtin)} (h : Heap)
    (hf : ∀ f ∈ fields, f.1 ∉ "_LOADED" :: names) : h.Enriched names (setFields t fields h) := by
  induction fields generalizing h with
  | nil => exact .refl h
  | cons f fields ih =>
    exact (enriched_rawSetText t rfl (hf f (List.mem_cons_self ..))).trans
      (ih _ fun g hg => hf g (List.mem_cons_of_mem _ hg))

theorem builds_setText (t : Val) {k : String} {v : Val} (hv : v.truthy = true)
    (hk : k ∉ "_LOADED" :: names) : (setText t k v).Builds names h₀ fun _ => True :=
  .modifyHeap fun _ _ => enriched_rawSetText t hv hk

theorem builds_subtable {name : String} (hn : name ∉ names) :
    (subtable name).Builds names h₀ (∃ i, · = .table i) :=
  .onHeap fun h _ => enriched_subtable h hn

theorem builds_namedMetatable {name : String} (hn : name ∉ "_LOADED" :: names)
    (hm : "__name" ∉ "_LOADED" :: names) :
    (namedMetatable name).Builds names h₀ fun _ => True := by
  refine .onHeap fun h _ => ⟨?_, trivial⟩
  change h.Enriched names (h.namedMetatable name).2.2
  unfold Heap.namedMetatable
  split
  · let m := (h.newTable {}).1
    have hname : (h.newTable {}).2.Enriched names
        ((h.newTable {}).2.rawSetText m "__name" (.text name)) := enriched_rawSetText m rfl hm
    have hset : ((h.newTable {}).2.rawSetText m "__name" (.text name)).Enriched names
        (((h.newTable {}).2.rawSetText m "__name" (.text name)).rawSetText h.registryTable name m) :=
      enriched_rawSetText _ rfl hn
    exact (enriched_newTable h).trans (hname.trans hset)
  · exact .refl h

theorem enriched_setMetatable (h : Heap) (i : Nat) (m : Option Nat) :
    h.Enriched names (h.setMetatable (.userdata i) m) := by
  unfold setMetatable
  dsimp only
  split <;> exact enriched_of_tables rfl rfl rfl

theorem builds_base (hg : h₀.Has h₀.globals) :
    base.Builds (StdLib.others .base) h₀ (∃ i, · = [.table i]) := by
  obtain ⟨i, x, hi, -⟩ := hg
  refine Builds.heap.bind fun h he => ?_
  have htable : h.globals = .table i := he.globals.trans hi
  refine (Builds.modifyHeap fun h _ => enriched_setFields _ h (by decide)).bind fun _ _ =>
    (builds_setText _ (by rw [htable]; rfl) (by decide)).bind fun _ _ =>
      (builds_setText _ rfl (by decide)).bind fun _ _ => .pure ⟨i, ?_⟩
  rw [htable]

include hr

theorem builds_library {fields : List (String × Builtin)}
    (hf : ∀ f ∈ fields, f.1 ∉ "_LOADED" :: names) :
    (library fields).Builds names h₀ (Val.Apart h₀) :=
  (Builds.newTable hr).bind fun t ht =>
    (Builds.modifyHeap fun h _ => enriched_setFields t h hf).bind fun _ _ => .pure ht

theorem builds_package : package.Builds (StdLib.others .package) h₀ (∃ i, · = [.table i]) := by
  refine (builds_library hr (by decide)).bind fun t ht => (Builds.newTable hr).bind fun searchers hs =>
    (Builds.mapM _ fun f => Builds.newClosure _).bind fun fs hfs => ?_
  have hsearchers : ∀ (l : List (Nat × Val)), (∀ p ∈ l, p.2.truthy = true) → ∀ h : Heap,
      h₀.Enriched (StdLib.others .package) h → h.Enriched (StdLib.others .package)
        (l.foldl (fun h p => h.rawSet searchers (.ofNat (p.1 + 1)) p.2) h) := by
    intro l
    induction l with
    | nil => exact fun _ h _ => .refl h
    | cons p l ih =>
      intro hl h he
      have hset : h.Enriched (StdLib.others .package)
          (h.rawSet searchers (.ofNat (p.1 + 1)) p.2) := by
        refine enriched_rawSet (hl p (List.mem_cons_self ..)) (.inl ?_) fun _ _ => nofun
        rw [he.registryTable]
        exact hs.2
      exact hset.trans (ih (fun q hq => hl q (List.mem_cons_of_mem _ hq)) _ (he.trans hset))
  refine (Builds.modifyHeap (hsearchers _ fun p hp =>
    hfs _ (List.of_mem_zip hp).2)).bind fun _ _ => ?_
  refine (builds_setText t hs.truthy (by decide)).bind fun _ _ =>
    (builds_setText t rfl (by decide)).bind fun _ _ =>
    (builds_setText t rfl (by decide)).bind fun _ _ =>
    (builds_setText t rfl (by decide)).bind fun _ _ =>
    (builds_subtable (by decide)).bind fun loaded hl =>
    (builds_setText t (by obtain ⟨i, rfl⟩ := hl; rfl) (by decide)).bind fun _ _ =>
    (builds_subtable (by decide)).bind fun preload hp =>
    (builds_setText t (by obtain ⟨i, rfl⟩ := hp; rfl) (by decide)).bind fun _ _ =>
    (Builds.newClosure _).bind fun req hreq => Builds.heap.bind fun h _ =>
    (builds_setText _ hreq (by decide)).bind fun _ _ => .pure ?_
  obtain ⟨⟨i, rfl⟩, -⟩ := ht
  exact ⟨i, rfl⟩

theorem builds_string : Openers.string.Builds (StdLib.others .string) h₀ (∃ i, · = [.table i]) := by
  refine (builds_library hr (by decide)).bind fun t ht =>
    (builds_library hr (by decide)).bind fun m _ =>
    (builds_setText m ht.truthy (by decide)).bind fun _ _ =>
    (Builds.modifyHeap fun h _ => ?_).bind fun _ _ => .pure ?_
  · split
    · exact enriched_of_tables rfl rfl rfl
    · exact .refl h
  · obtain ⟨⟨i, rfl⟩, -⟩ := ht
    exact ⟨i, rfl⟩

theorem builds_functions {fields : List (String × Builtin)}
    (hf : ∀ f ∈ fields, f.1 ∉ "_LOADED" :: names) :
    (do return [← library fields] : Native (List Val)).Builds names h₀ (∃ i, · = [.table i]) := by
  refine (builds_library hr hf).bind fun t ht => .pure ?_
  obtain ⟨⟨i, rfl⟩, -⟩ := ht
  exact ⟨i, rfl⟩

theorem builds_utf8 : Openers.utf8.Builds (StdLib.others .utf8) h₀ (∃ i, · = [.table i]) := by
  refine (builds_library hr (by decide)).bind fun t ht =>
    (builds_setText t rfl (by decide)).bind fun _ _ => .pure ?_
  obtain ⟨⟨i, rfl⟩, -⟩ := ht
  exact ⟨i, rfl⟩

theorem builds_math : Openers.math.Builds (StdLib.others .math) h₀ (∃ i, · = [.table i]) := by
  refine (builds_library hr (by decide)).bind fun t ht =>
    (builds_setText t rfl (by decide)).bind fun _ _ =>
    (builds_setText t rfl (by decide)).bind fun _ _ =>
    (builds_setText t rfl (by decide)).bind fun _ _ =>
    (builds_setText t rfl (by decide)).bind fun _ _ => .pure ?_
  obtain ⟨⟨i, rfl⟩, -⟩ := ht
  exact ⟨i, rfl⟩

theorem builds_io : Openers.io.Builds (StdLib.others .io) h₀ (∃ i, · = [.table i]) := by
  refine (builds_library hr (by decide)).bind fun t ht =>
    (builds_namedMetatable (by decide) (by decide)).bind fun m _ =>
    (builds_library hr (by decide)).bind fun methods hm =>
    (builds_setText m hm.truthy (by decide)).bind fun _ _ =>
    (builds_setText m rfl (by decide)).bind fun _ _ =>
    (builds_setText m rfl (by decide)).bind fun _ _ =>
    (builds_setText m rfl (by decide)).bind fun _ _ =>
    (Builds.forIn fun name hname => ?_).bind fun _ _ => .pure ?_
  · have hn : ∀ name ∈ ["stdin", "stdout", "stderr"], name ∉ "_LOADED" :: StdLib.others .io := by
      decide
    refine (Builds.onHeap (P := fun f => ∃ i, f = .userdata i) fun h _ =>
      ⟨enriched_of_tables rfl rfl rfl, _, rfl⟩).bind fun f hf => ?_
    obtain ⟨i, rfl⟩ := hf
    refine (Builds.modifyHeap fun h _ => ?_).bind fun _ _ =>
      (builds_setText t rfl (hn name hname)).bind fun _ _ => .pure rfl
    split
    · exact enriched_setMetatable h i _
    · exact .refl h
  · obtain ⟨⟨i, rfl⟩, -⟩ := ht
    exact ⟨i, rfl⟩

end Library.Openers

/-- Every opener of a standard library gives a table. What it does to the objects shows nowhere under
the name of another library. -/
theorem StdLib.builds_opener {h₀ : Heap} (hr : h₀.Has h₀.registryTable) (hg : h₀.Has h₀.globals)
    (lib : StdLib) (up : Array Val) (args : Args) :
    (Library.apply lib.opener up args).Builds lib.others h₀ (∃ i, · = [.table i]) := by
  open Library.Openers in
  cases lib with
  | base => exact builds_base hg
  | package => exact builds_package hr
  | io => exact builds_io hr
  | string => exact builds_string hr
  | utf8 => exact builds_utf8 hr
  | math => exact builds_math hr
  | coroutine | table | os | debug => exact builds_functions hr (by decide)

end LuaEmbed
