import LuaEmbed.Proofs.Refusal
import LuaEmbed.Proofs.Registration
import LuaEmbed.Proofs.Reserving

/-!
The registration of modules, call by call. The room that is reserved first covers everything up to the
call of the opener and, when that has come back to the stack it was called on, the record of what it
gave.
-/
namespace LuaEmbed

open Engine World

variable {σ μ α β : Type} {c : Context} {w w' : World σ μ} {s : Array Val} {m n : Nat} {x y : Watch σ μ}
  {d : Drive σ μ}

/-- A stack shows these slots, and room is reserved on it for so many more. -/
structure World.Spacious (w : World σ μ) (c : Context) (s : Array Val) (n : Nat) : Prop where
  stands : w.Stands c s
  room : ∀ t ∈ w.thread? c, t.used + n ≤ t.top.limit

namespace World

/-- What the slots are replaced by takes up room, or gives it back. -/
theorem Spacious.modifySlots (h : w.Spacious c s n) (f : Array Val → Array Val)
    (hm : (f s).size + m ≤ s.size + n) : (w.modifySlots c f).Spacious c (f s) m := by
  refine ⟨h.stands.modifySlots f, fun t' ht' => ?_⟩
  rw [modifySlots_eq, thread?_modifyThread_self] at ht'
  obtain ⟨t, ht, rfl⟩ := Option.map_eq_some_iff.mp ht'
  have hroom := h.room t ht
  have hshown := h.stands.shown
  unfold shown at hshown
  rw [ht, Option.bind_some] at hshown
  have hcount : t.top.count = s.size := Frame.count_of_shown hshown
  have hcount' : (t.top.mapSlots f).count = (f s).size :=
    Frame.count_of_shown (by rw [Frame.shown_mapSlots, hshown]; rfl)
  have hbase : (t.top.mapSlots f).base = t.top.base := Frame.base_mapSlots f t.top
  have hlimit : (t.top.mapSlots f).limit = t.top.limit := by
    unfold Frame.mapSlots
    split <;> rfl
  unfold Thread.used Frame.used at hroom ⊢
  rw [Thread.top_modifyTop, hbase, hlimit]
  omega

/-- A call comes back to the room there was. -/
theorem Spacious.invoke {f : Val} {args : List Val} {e : Exit} (S : Sound .ready c d)
    (h : w.Spacious c s n) (hi : c.invoke f args d w = some (e, w')) (hc : Unclosed c.vm w w') :
    w'.Spacious c s n ∧ ∀ vs, e ≠ .yielded vs := by
  obtain ⟨hs, hyield⟩ := h.stands.invoke S hi hc
  refine ⟨⟨hs, fun t' ht' => ?_⟩, hyield⟩
  obtain ⟨t, ht, hready, -⟩ := h.stands.thread
  obtain ⟨t₁, ht₁, hr, -⟩ := S.invoke hi hc ht hready
  obtain rfl := Option.some.inj (ht'.symm.trans ht₁)
  have hused : t'.used = t.used := by
    unfold Thread.used
    rw [hr.top_eq.1]
    rfl
  rw [hused, hr.top_eq.1]
  exact h.room t ht

/-- A call that is to give one value leaves that in the place of the callable and the arguments. -/
theorem Spacious.protect {f : Val} {vals : List Val} (S : Sound .ready c d)
    (h : w.Spacious c (s.push f ++ vals.toArray) n)
    (hp : c.protect vals.length (some 1) d w = some (none, w')) (hc : Unclosed c.vm w w') :
    ∃ v, w'.Spacious c (s.push v) (n + vals.length) := by
  unfold Context.protect at hp
  obtain ⟨p, w₁, htake, h₁⟩ := Run.bind_some.mp hp
  have htaken : w₁ = w.modifySlots c (·.shrink s.size) := by
    have hsize : (s.push f ++ vals.toArray).size - vals.length - 1 = s.size := by
      simp
      omega
    rw [← hsize, ← h.stands.slots]
    exact (Prod.mk.inj (Option.some.inj htake)).2.symm
  have hhistory : w₁.history = w.history := by
    rw [htaken]
    rfl
  have hspace : w₁.Spacious c s (n + 1 + vals.length) := by
    have hcut := h.modifySlots (·.shrink s.size) (m := n + 1 + vals.length) (by simp; omega)
    rw [show (s.push f ++ vals.toArray).shrink s.size = s from Array.ext' (by simp)] at hcut
    rwa [htaken]
  obtain ⟨e, w₂, hcall, h₂⟩ := Run.bind_some.mp h₁
  cases e with
  | returned rs =>
    obtain ⟨_, w₃, h₃, h₄⟩ := Run.bind_some.mp h₂
    obtain ⟨-, rfl⟩ := Prod.mk.inj (Option.some.inj h₃)
    obtain ⟨-, rfl⟩ := Prod.mk.inj (Option.some.inj h₄)
    rw [Context.adjust_one]
    exact ⟨_, (hspace.invoke S hcall (hc.of_history hhistory rfl)).1.modifySlots (· ++ [rs.headD .nil].toArray) (by simp; omega)⟩
  | yielded rs =>
    obtain ⟨_, w₃, h₃, h₄⟩ := Run.bind_some.mp h₂
    obtain ⟨-, rfl⟩ := Prod.mk.inj (Option.some.inj h₃)
    obtain ⟨-, rfl⟩ := Prod.mk.inj (Option.some.inj h₄)
    exact absurd rfl ((hspace.invoke S hcall (hc.of_history hhistory rfl)).2 rs)
  | raised status v =>
    obtain ⟨_, w₃, -, h₄⟩ := Run.bind_some.mp h₂
    cases h₄

/-- Operations leave a stack that is owned by the host to the host. -/
theorem TouchesIn.stands (h : Touches w w') (hs : w.Stands c s) : ∃ s', w'.Stands c s' := by
  obtain ⟨t, ht, hready, hnative, -⟩ := hs.thread
  obtain ⟨t', ht', hb⟩ := h.sameBelow ht
  have hs' := stands_of_thread ht' (hb.script.trans hnative)
  rw [hb.status, hready] at hs'
  exact ⟨_, hs'⟩

end World

namespace Watch

/-- Unless its interpreter has been closed, a stack shows these slots, and room is reserved on it for
so many more; no refusal stands there. -/
structure Stocked (x : Watch σ μ) (c : Context) (s : Array Val) (n : Nat) : Prop where
  heeded : c ∉ x.refused
  space : .closed c.vm ∉ x.world.history → x.world.Spacious c s n

/-- A stack is owned by the host as long as its interpreter has not been closed. -/
def Standing (x : Watch σ μ) (c : Context) : Prop :=
  .closed c.vm ∉ x.world.history → ∃ s, x.world.Stands c s

theorem Stocked.covers (h : x.Stocked c s n) : x.Covers c n :=
  ⟨h.heeded, fun hopen => (h.space hopen).room⟩

theorem Stocked.standing (h : x.Stocked c s n) : x.Standing c :=
  fun hopen => ⟨s, (h.space hopen).stands⟩

theorem Stocked.less (h : x.Stocked c s n) (hm : m ≤ n) : x.Stocked c s m :=
  ⟨h.heeded, fun hopen => ⟨(h.space hopen).stands, (h.covers.less hm).2 hopen⟩⟩

theorem Stocked.modifySlots (h : x.Stocked c s n) (f : Array Val → Array Val)
    (hm : (f s).size + m ≤ s.size + n) :
    ({ x with world := x.world.modifySlots c f }).Stocked c (f s) m :=
  ⟨h.heeded, fun hopen => (h.space hopen).modifySlots f hm⟩

theorem Stocked.push (h : x.Stocked c s (n + 1)) (v : Val) :
    ({ x with world := x.world.push c v }).Stocked c (s.push v) n :=
  h.modifySlots (·.push v) (by rw [Array.size_push]; omega)

theorem Stocked.spared (h : x.Stocked c s n) (hy : x.Spares y) : y.Stocked c s n := by
  have hcovers := hy.retains c n h.covers
  exact ⟨hcovers.1, fun hopen =>
    ⟨hy.alike.stands (h.space (hy.history ▸ hopen)).stands, hcovers.2 hopen⟩⟩

/-- Work that leaves the threads alone. -/
theorem Stocked.of_thread? (h : x.Stocked c s n) (ht : w.thread? c = x.world.thread? c)
    (hh : w.history = x.world.history) : ({ x with world := w }).Stocked c s n := by
  refine ⟨h.heeded, fun hopen => ?_⟩
  obtain ⟨hs, hroom⟩ := h.space (hh ▸ hopen)
  refine ⟨⟨?_, ?_⟩, fun t ht' => hroom t (ht ▸ ht')⟩
  · unfold shown
    rw [ht]
    exact hs.shown
  · unfold status?
    rw [ht]
    exact hs.state

theorem Standing.touched (h : x.Standing c) (hw : Touches x.world y.world) : y.Standing c :=
  fun hopen =>
    let ⟨_, hs⟩ := h (hw.history ▸ hopen)
    hw.stands hs

end Watch

namespace WatchedAct

open WatchedRun (Follows)

variable {Q : α → Watch σ μ → Prop}

/-- Calls after which the stack is still owned by the host. -/
theorem leads_standing {P : Watch σ μ → Prop} {a : Watched σ μ α} {p : Api σ μ α}
    (h : Watched.Traces P a p) (hx : P x) (hp : p.Quiet) (hs : x.Standing c) :
    Leads (fun _ y => y.Standing c) d x (calls a) (Act.api p) :=
  (leads_calls (h x hx)).imp fun _ _ hy v hv => hs.touched ((hy v hv).1.world ▸ hp x.world)

/-- What a call has to give is left in the place of the callable and the arguments, in the room there
was. -/
theorem follows_protect {f : Val} {vals : List Val} (S : Sound .ready c d)
    (hx : x.Stocked c (s.push f ++ vals.toArray) n) :
    Follows (fun o z => o = none → ∃ v, z.Stocked c (s.push v) (n + vals.length)) d x
      (WatchedRun.plain (c.protect vals.length (some 1))) (c.protect vals.length (some 1)) := by
  refine (WatchedRun.follows_plain _).imp fun o z ⟨w, hw, hz⟩ ho => ?_
  subst hz ho
  have hgrows : x.world.history <:+ w.history :=
    ((path_keeping S.path).traversal.protect c vals.length (some 1) trivial _ _ _ hw).grows
  by_cases hopen : .closed c.vm ∈ w.history
  · exact ⟨.nil, hx.heeded, fun h => absurd hopen h⟩
  · obtain ⟨v, hv⟩ := (hx.space fun h => hopen (hgrows.subset h)).protect S hw
      (unclosed_of_not_mem hgrows hopen)
    exact ⟨v, hx.heeded, fun _ => hv⟩

theorem stocked_pushLoaded (hx : x.Stocked c s (n + 1)) :
    ∃ t, ({ x with world := (c.pushLoaded x.world).2 }).Stocked c (s.push t) n := by
  let look (vm : Vm) : Vm × Val := ({ vm with heap := vm.heap.withLoaded }, vm.heap.loadedTable)
  have hpush : (c.pushLoaded x.world).2 =
      (x.world.onVm c.vm look).2.push c (x.world.onVm c.vm look).1 := rfl
  have hthread : (x.world.onVm c.vm look).2.thread? c = x.world.thread? c := by
    rw [onVm_world]
    exact thread?_objects x.world c.vm c _ fun _ => rfl
  have hhistory : (x.world.onVm c.vm look).2.history = x.world.history := by
    rw [onVm_world]
    rfl
  exact ⟨_, (hx.of_thread? hthread hhistory).push _⟩

theorem stocked_pushOpener (hx : x.Stocked c s (n + 1)) (o : ModuleOpener) :
    ∃ f, ({ x with world := (c.pushOpener o x.world).2 }).Stocked c (s.push f) n := by
  cases o with
  | native b => exact ⟨_, hx.push _⟩
  | host shape id =>
    have hhistory : (x.world.closureOf c shape id).2.history = x.world.history :=
      (touches_pushFunction (A := fun _ => True) x.world c shape id trivial).history
    exact ⟨_, (hx.of_thread? (thread?_closureOf x.world c shape id) hhistory).push _⟩

theorem pushOpener_eq (hx : x.Covers c 3) (o : ModuleOpener) :
    Watched.pushOpener c o x = (.ok (), { x with world := (c.pushOpener o x.world).2 }) := by
  cases o with
  | native b => exact Watched.put_eq (hx.less (by decide)) _
  | host shape id => exact Watched.pushFunction_eq hx shape id

/-- A name is looked up. -/
theorem lookup_eq (hx : x.Covers c 1) (name : Bytes) (pos : Int) :
    (do
      let w ← Watched.world
      Watched.put c (.str name)
      Watched.supplant c 1 ((w.heap c.vm).rawGet (w.at_ c pos) (.str name)) : Watched σ μ Unit) x =
    (.ok (), { x with
      world := x.world.push c ((x.world.heap c.vm).rawGet (x.world.at_ c pos) (.str name)) }) := by
  rw [Watched.bind_ok (show Watched.world x = (.ok x.world, x) from rfl),
    Watched.bind_ok (Watched.put_eq hx _)]
  unfold Watched.supplant Watched.change Watched.plain Api.modify World.push
  dsimp only
  rw [modifySlots_modifySlots]
  simp

/-- What the opener gave is recorded. -/
theorem record_eq (hx : x.Covers c 2) (name : Bytes) (pos : Int) :
    (do
      let w ← Watched.world
      let v := (w.slots c).back?.getD .nil
      Watched.put c (.str name)
      Watched.put c v
      Watched.change (·.modifyHeap c.vm fun h => h.rawSet (w.at_ c pos) (.str name) v)
      Watched.drop c 2 : Watched σ μ Unit) x =
    (.ok (), { x with
      world := x.world.modifyHeap c.vm fun h => h.rawSet (x.world.at_ c pos) (.str name)
        ((x.world.slots c).back?.getD .nil) }) := by
  rw [Watched.bind_ok (show Watched.world x = (.ok x.world, x) from rfl),
    Watched.bind_ok (Watched.put_eq (hx.less (by decide)) _),
    Watched.bind_ok (Watched.put_eq (hx.push _) _),
    Watched.bind_ok (show Watched.change _ _ = (.ok (), _) from rfl)]
  unfold Watched.drop Watched.change Watched.plain Api.modify World.push
  dsimp only
  rw [modifyHeap_modifySlots, modifyHeap_modifySlots, modifySlots_modifySlots, modifySlots_modifySlots]
  rw [modifySlots_of_fixed]
  intro s _
  simp

/-- What a module gave is published and read, in room that is asked for anew. -/
theorem leads_settle (hx : x.Standing c) (loaded : Nat) (name : Bytes) (publish wasLoaded : Bool) :
    Leads (fun _ y => y.Standing c) d x
      (do
        calls (Watched.plain (c.removeAt loaded))
        if publish then
          calls (Watched.duplicate c (-1))
          calls (Watched.setGlobal c name)
        change (·.log .debug "module registered"
          [("fresh", if wasLoaded then "false" else "true"), ("module", name.toStringLossy),
           ("publish_global", if publish then "true" else "false")])
        calls (Watched.read c (-1)))
      (do
        Act.api (c.removeAt loaded)
        if publish then
          Act.api (c.duplicate (-1))
          Act.api (c.setGlobal name)
        Act.update (·.log .debug "module registered"
          [("fresh", if wasLoaded then "false" else "true"), ("module", name.toStringLossy),
           ("publish_global", if publish then "true" else "false")])
        Act.api (c.read (-1))) := by
  have hread : ∀ y : Watch σ μ, y.Standing c → Leads (fun _ y => y.Standing c) d y
      (do
        change (·.log .debug "module registered"
          [("fresh", if wasLoaded then "false" else "true"), ("module", name.toStringLossy),
           ("publish_global", if publish then "true" else "false")])
        calls (Watched.read c (-1)))
      (do
        Act.update (·.log .debug "module registered"
          [("fresh", if wasLoaded then "false" else "true"), ("module", name.toStringLossy),
           ("publish_global", if publish then "true" else "false")])
        Act.api (c.read (-1))) := fun y hy =>
    leads_change_bind (leads_standing (Watched.attends_read (P := fun _ => True) (-1)).traces trivial
      (c.quiet_read (-1)) (hy.touched (touches_notify y.world _)))
  refine (leads_standing (Watched.traces_plain (P := fun _ => True) _) trivial
    (c.quiet_removeAt loaded trivial) hx).bind fun _ y hy => Leads.ite (fun _ => ?_) fun _ => hread y hy
  refine (leads_standing (Watched.traces_duplicate (P := fun _ => True) (-1)) trivial
    (c.quiet_duplicate (-1) trivial) hy).bind fun _ z hz => ?_
  exact (leads_standing (Watched.traces_setGlobal (P := fun _ => True) name) trivial
    (c.quiet_setGlobal name trivial) hz).bind fun _ u hu => hread u hu

theorem stocked_require (hx : x.Standing c) (hm : x.Minds (c.checkStack n x.world).2 y)
    (hy : y.Covers c n) : ∃ s, y.Stocked c s n ∧ s.size = x.world.depth c := by
  have ha : x.world.Alike y.world := hm.world ▸ c.steady_checkStack n x.world
  have hh : y.world.history = x.world.history :=
    hm.world ▸ (c.quiet_checkStack (A := fun _ => True) n x.world).history
  by_cases hopen : .closed c.vm ∈ x.world.history
  · exact ⟨.replicate (x.world.depth c) .nil, ⟨hy.1, fun h => absurd hopen (hh ▸ h)⟩, Array.size_replicate⟩
  · obtain ⟨s, hs⟩ := hx hopen
    exact ⟨s, ⟨hy.1, fun h => ⟨ha.stands hs, hy.2 h⟩⟩, hs.depth.symm⟩

/-- The value of a module that has not been loaded is taken off, and its opener is called. -/
theorem stocked_cut {t e : Val} (hx : x.Stocked c ((s.push t).push e) n) :
    ({ x with world := (c.cut (s.size + 1) x.world).2 }).Stocked c (s.push t) (n + 1) := by
  have he : ((s.push t).push e).shrink (s.size + 1) ++
      Array.replicate (s.size + 1 - ((s.push t).push e).size) .nil = s.push t := by
    apply Array.ext'
    simp
  have hcut := hx.modifySlots
    (fun u => u.shrink (s.size + 1) ++ Array.replicate (s.size + 1 - u.size) .nil) (m := n + 1) (by
      have hsize := congrArg Array.size he
      simp only [Array.size_push] at hsize ⊢
      omega)
  rwa [he] at hcut

theorem leads_registerModule (S : Sound .ready c d) (hx : x.Standing c) (name : Bytes)
    (o : ModuleOpener) (publish : Bool) :
    Leads (fun _ y => y.Standing c) d x (registerModule c name o publish)
      (c.registerModule name o publish) := by
  unfold registerModule Context.registerModule
  refine leads_top_bind ?_
  refine (leads_calls (Watched.require_comes c 5 x)).bind fun _ y ⟨hm, _, hcovers⟩ => ?_
  obtain ⟨s, hs, hdepth⟩ := stocked_require hx hm (hcovers (by decide))
  rw [← hdepth]
  refine leads_exact_bind (Watched.grow_eq (hs.covers.less (by decide)) _) rfl ?_
  obtain ⟨t, ht⟩ := stocked_pushLoaded (hs.less (by decide) : y.Stocked c s (4 + 1))
  refine leads_changed_bind (lookup_eq (ht.covers.less (by decide)) name _) ?_
  have hlooked := (ht.less (by decide) : Watch.Stocked _ c _ (3 + 1)).push
    (((c.pushLoaded y.world).2.heap c.vm).rawGet
      ((c.pushLoaded y.world).2.at_ c ((s.size : Int) + 1).toNat) (.str name))
  refine leads_get_bind (Leads.ite (fun _ => ?_) fun _ => leads_settle hlooked.standing _ name publish _)
  have hcut := stocked_cut hlooked
  have hloaded : ((s.size : Int) + 1).toNat = s.size + 1 := by omega
  rw [hloaded] at hcut ⊢
  refine leads_exact_bind (show Watched.plain (c.cut (s.size + 1)) _ = _ from rfl) rfl ?_
  refine leads_exact_bind (pushOpener_eq (hcut.covers.less (by decide)) o) rfl ?_
  obtain ⟨f, hf⟩ := stocked_pushOpener (hcut.less (by decide) : Watch.Stocked _ c _ (3 + 1)) o
  refine leads_changed_bind (Watched.put_eq (hf.covers.less (by decide)) _) ?_
  have hname := hf.push (.str name)
  rw [← Array.append_singleton] at hname
  have hprotect : ∀ z : Watch σ μ, _ → Follows _ d z _ _ := fun z hz =>
    follows_protect S (hname.spared hz : z.Stocked c ((s.push t).push f ++ [Val.str name].toArray) 2)
  have hcall := leads_protectedCall (c := c) (Q := fun z => ∃ v, z.Stocked c ((s.push t).push v) 3) 1
    (.fixed 1) (s.size + 1) hprotect
  refine (leads_lift hcall).bind fun r z hr => ?_
  cases r with
  | error e => exact (leads_plain _).bind fun _ _ _ => leads_throw_bind e _ _
  | ok _ =>
    obtain ⟨v, hv⟩ := hr _ rfl
    refine leads_changed_bind (record_eq (hv.covers.less (by decide)) name _) ?_
    have hrecorded := hv.of_thread?
      (w := z.world.modifyHeap c.vm fun h => h.rawSet (z.world.at_ c (s.size + 1 : Nat)) (.str name)
        ((z.world.slots c).back?.getD .nil)) (thread?_objects z.world c.vm c _ fun _ => rfl) rfl
    exact leads_settle hrecorded.standing _ name publish _

theorem leads_openLib (S : Sound .ready c d) (hx : x.Standing c) (lib : StdLib) :
    Leads (fun _ y => y.Standing c) d x (openLib c lib) (c.openLib lib) := by
  unfold openLib Context.openLib
  refine (leads_registerModule S hx _ _ true).bind fun v y hy => leads_change_bind ?_
  exact leads_standing (Watched.traces_plain (P := fun _ => True) _) trivial (c.quiet_pop 1 trivial)
    (hy.touched (touches_release y.world v))

theorem leads_openLibs (S : Sound .ready c d) (hx : x.Standing c) (libs : List StdLib) :
    Leads (fun _ y => y.Standing c) d x (openLibs c libs) (c.openLibs libs) := by
  induction libs generalizing x with
  | nil => exact leads_pure hx
  | cons lib libs ih => exact (leads_openLib S hx lib).bind fun _ y hy => ih hy

end WatchedAct
end LuaEmbed
