import LuaEmbed.Proofs.Calls
import LuaEmbed.Proofs.Callwise
import LuaEmbed.Watch.Run

/-!
Operations that run code, and the ends of host functions, call by call. Whoever puts something on a
stack has reserved room for it there; there are two places at which a refusal is passed over, and
nothing else goes beyond what has been reserved.
-/
namespace LuaEmbed

open Engine World

variable {σ μ α β : Type}

namespace WatchedRun

/-! ### Following what an operation is -/

/-- From here on, something comes to what it is as a whole, call by call, if that has an end; what
was sound stays so, and this holds of what comes out. -/
structure Follows (Q : α → Watch σ μ → Prop) (d : Drive σ μ) (x : Watch σ μ) (a : WatchedRun σ μ α)
    (p : Run σ μ α) : Prop where
  ends : ∀ r w, p d x.world = some (r, w) →
    ∃ y, a d x = some (r, y) ∧ y.world = w ∧ (x.Sound → y.Sound) ∧ Q r y
  endless : p d x.world = none → a d x = none

variable {Q : α → Watch σ μ → Prop} {R : β → Watch σ μ → Prop} {d : Drive σ μ} {x : Watch σ μ}
  {a : WatchedRun σ μ α} {p : Run σ μ α} {k : α → WatchedRun σ μ β} {r : α → Run σ μ β}

/-- It is enough to know what comes out. -/
theorem Follows.of_some {v : α} {w : World σ μ} {y : Watch σ μ} (hp : p d x.world = some (v, w))
    (ha : a d x = some (v, y)) (hw : y.world = w) (hs : x.Sound → y.Sound) (hq : Q v y) :
    Follows Q d x a p := by
  refine ⟨fun r w' h => ?_, fun h => ?_⟩
  · obtain ⟨rfl, rfl⟩ := Prod.mk.inj (Option.some.inj (hp.symm.trans h))
    exact ⟨y, ha, hw, hs, hq⟩
  · rw [hp] at h
    cases h

theorem Follows.imp {Q' : α → Watch σ μ → Prop} (h : Follows Q d x a p)
    (hQ : ∀ v y, Q v y → Q' v y) : Follows Q' d x a p :=
  ⟨fun r w hp =>
    let ⟨y, ha, hw, hs, hq⟩ := h.ends r w hp
    ⟨y, ha, hw, hs, hQ _ _ hq⟩, h.endless⟩

/-- One thing after the other. -/
theorem Follows.bind (h : Follows Q d x a p) (hk : ∀ v y, Q v y → Follows R d y (k v) (r v)) :
    Follows R d x (a >>= k) (p >>= r) := by
  have hrun : (p >>= r) d x.world = (p d x.world).bind fun q => r q.1 d q.2 := rfl
  have hcalls : (a >>= k) d x = (a d x).bind fun q => k q.1 d q.2 := rfl
  cases hp : p d x.world with
  | none =>
    rw [hp] at hrun
    rw [h.endless hp] at hcalls
    exact ⟨fun v w he => absurd (hrun.symm.trans he) nofun, fun _ => hcalls⟩
  | some q =>
    obtain ⟨v, w⟩ := q
    obtain ⟨y, ha, rfl, hs, hq⟩ := h.ends v w hp
    rw [hp] at hrun
    rw [ha] at hcalls
    have hnext := hk v y hq
    refine ⟨fun u w' he => ?_, fun he => hcalls.trans (hnext.endless (hrun.symm.trans he))⟩
    obtain ⟨z, hz, hw, hs', hR⟩ := hnext.ends u w' (hrun.symm.trans he)
    exact ⟨z, hcalls.trans hz, hw, fun hx => hs' (hs hx), hR⟩

theorem follows_pure {v : α} (h : Q v x) : Follows Q d x (pure v) (pure v) :=
  .of_some rfl rfl rfl id h

theorem follows_plain (a : Run σ μ α) :
    Follows (fun v y => ∃ w, a d x.world = some (v, w) ∧ y = { x with world := w }) d x (plain a) a := by
  refine ⟨fun r w h => ⟨{ x with world := w }, ?_, rfl, id, w, h, rfl⟩, fun h => ?_⟩ <;>
  · unfold plain
    rw [h]
    rfl

theorem follows_change (f : World σ μ → World σ μ) :
    Follows (fun _ y => y = { x with world := f x.world }) d x (change f) (Run.update f) :=
  .of_some rfl rfl rfl id rfl

theorem follows_calls {P : Watch σ μ → Prop} {a : Watched σ μ α} {p : Api σ μ α}
    (h : Watched.Comes P x a p) :
    Follows (fun r y => x.Minds (p x.world).2 y ∧ ∀ v, r = .ok v → P y) d x (calls a) (Run.api p) := by
  obtain ⟨y, ha, hm, hq⟩ := h
  exact .of_some rfl (congrArg some ha) hm.world hm.sound ⟨hm, hq⟩

variable {c : Context}

/-- A failure is raised with its text. -/
theorem follows_raiseHost (message : String) :
    Follows (fun _ _ => True) d x (raiseHost c message) (World.raiseHost c message) := by
  obtain ⟨y, hy, hw, hs⟩ := Watched.putFailure_sound x c message
  have hrun : raiseHost c message d x = (some (Watched.putFailure c message x)).bind fun q =>
      some (.go (failing (q.2.world.heap c.vm) message), q.2) := rfl
  rw [hy] at hrun
  refine .of_some rfl (hrun.trans ?_) hw hs trivial
  exact congrArg (fun w : World σ μ => some (Next.go (failing (w.heap c.vm) message), y)) hw

theorem follows_raisePanic (p : Panic) :
    Follows (fun _ _ => True) d x (raisePanic c p) (World.raisePanic c p) := by
  unfold raisePanic World.raisePanic
  cases p.dropping with
  | none => exact follows_raiseHost _
  | some _ => exact ⟨fun _ _ h => (Option.some_ne_none _ h.symm).elim, fun _ => rfl⟩

theorem follows_traces {P : Watch σ μ → Prop} {a : Watched σ μ α} {p : Api σ μ α}
    (h : Watched.Traces P a p) (hx : P x) :
    Follows (fun _ _ => True) d x (calls a) (Run.api p) :=
  (follows_calls (h x hx)).imp fun _ _ _ => trivial

theorem follows_get {k : Watch σ μ → WatchedRun σ μ β} {r : World σ μ → Run σ μ β}
    (h : Follows R d x (k x) (r x.world)) :
    Follows R d x (MonadState.get >>= k) (MonadState.get >>= r) := ⟨h.ends, h.endless⟩

theorem follows_done (p : Run σ μ α) : Follows (fun _ _ => True) d x (plain p) p :=
  (follows_plain p).imp fun _ _ _ => trivial

theorem follows_runRaw (p : Program σ μ (Outcome Nat)) :
    Follows (fun _ _ => True) d x (runRaw p c) (World.runRaw p c) := by
  unfold runRaw World.runRaw
  refine (follows_done p.perform).bind fun r y _ => ?_
  cases r with
  | done count =>
    refine follows_get ?_
    dsimp only
    split
    · exact follows_done _
    · exact follows_raiseHost _
  | failed e => exact follows_raiseHost _
  | panicked p => exact follows_raisePanic p

theorem follows_runList (p : List Value → Program σ μ (Outcome (List Value))) :
    Follows (fun _ _ => True) d x (runList p c) (World.runList p c) := by
  unfold runList World.runList
  refine follows_get ?_
  refine (follows_traces (Watched.attends_readBatch (P := fun _ => True) _ _).traces trivial).bind
    fun r y _ => ?_
  cases r with
  | error e => exact follows_raiseHost _
  | ok args =>
    refine (follows_done (p args).perform).bind fun r z _ => ?_
    cases r with
    | done results =>
      refine (follows_traces (Watched.traces_pushAll (P := fun _ => True) results) trivial).bind
        fun pushed u _ => (follows_change _).bind fun _ _ _ => ?_
      cases pushed with
      | error e => exact follows_raiseHost _
      | ok _ => exact follows_done _
    | failed e => exact follows_raiseHost _
    | panicked p => exact follows_raisePanic p

theorem follows_runHost (code : HostCode σ μ) (id : Option Nat) :
    Follows (fun _ _ => True) d x (runHost code c id) (World.runHost code c id) := by
  unfold runHost World.runHost
  refine follows_get ?_
  dsimp only
  generalize (id.bind fun id => (x.world.functions.get? id).map fun f => (id, f.object)) = found
  rcases found with _ | ⟨f, shape, s⟩
  · exact follows_raiseHost _
  · dsimp only
    have hlast : ∀ (next : Next) (y : Watch σ μ), Follows (fun _ _ => True) d y
        (change (·.release (.function shape f)) >>= fun _ => pure next)
        (Run.update (·.release (.function shape f)) >>= fun _ => pure next) := fun next y =>
      (follows_change _).bind fun _ _ _ => follows_pure trivial
    refine (follows_change _).bind fun _ y _ => ?_
    cases shape with
    | raw => exact (follows_runRaw _).bind fun next z _ => hlast next z
    | list => exact (follows_runList _).bind fun next z _ => hlast next z

end WatchedRun

/-- Everything is as it was, and there is no less room. -/
structure Watch.Spares (x y : Watch σ μ) : Prop where
  retains : x.Retains y
  alike : x.world.Alike y.world
  history : y.world.history = x.world.history

namespace WatchedAct

open WatchedRun (Follows)

variable {Q : α → Watch σ μ → Prop} {R : β → Watch σ μ → Prop} {d : Drive σ μ} {x : Watch σ μ}
  {a : WatchedAct σ μ α} {p : Act σ μ α} {k : α → WatchedAct σ μ β} {r : α → Act σ μ β}

/-- If it succeeds, this holds afterwards. -/
def Leads (Q : α → Watch σ μ → Prop) (d : Drive σ μ) (x : Watch σ μ) (a : WatchedAct σ μ α)
    (p : Act σ μ α) : Prop :=
  Follows (α := Except Error α) (fun o y => ∀ v, o = .ok v → Q v y) d x a p

theorem Leads.bind (h : Leads Q d x a p) (hk : ∀ v y, Q v y → Leads R d y (k v) (r v)) :
    Leads R d x (a >>= k) (p >>= r) := by
  refine WatchedRun.Follows.bind h fun o y hq => ?_
  cases o with
  | ok v => exact hk v y (hq v rfl)
  | error e => exact WatchedRun.follows_pure nofun

theorem leads_pure {v : α} (h : Q v x) : Leads Q d x (pure v) (pure v) :=
  .of_some rfl rfl rfl id fun _ hv => by cases hv; exact h

theorem leads_mk {o : Except Error α} (h : ∀ v, o = .ok v → Q v x) :
    Leads Q d x (ExceptT.mk (pure o)) (ExceptT.mk (pure o)) :=
  .of_some rfl rfl rfl id h

theorem leads_throw (e : Error) : Leads Q d x (throw e : WatchedAct σ μ α) (throw e) :=
  .of_some rfl rfl rfl id nofun

theorem leads_lift {a : WatchedRun σ μ α} {p : Run σ μ α} (h : Follows Q d x a p) :
    Leads Q d x (ExceptT.lift a) (ExceptT.lift p) := by
  refine WatchedRun.Follows.bind h fun v y hq => WatchedRun.follows_pure fun _ hv => ?_
  cases hv
  exact hq

theorem leads_calls {P : Watch σ μ → Prop} {a : Watched σ μ α} {p : Api σ μ α}
    (h : Watched.Comes P x a p) :
    Leads (fun _ y => x.Minds (p x.world).2 y ∧ P y) d x (calls a) (Act.api p) :=
  (WatchedRun.follows_calls h).imp fun _ _ hy v hv => ⟨hy.1, hy.2 v hv⟩

theorem leads_traces {P : Watch σ μ → Prop} {a : Watched σ μ α} {p : Api σ μ α}
    (h : Watched.Traces P a p) (hx : P x) : Leads (fun _ _ => True) d x (calls a) (Act.api p) :=
  (WatchedRun.follows_calls (h x hx)).imp fun _ _ _ _ _ => trivial

theorem leads_lift_calls {P : Watch σ μ → Prop} {a : Watched σ μ α} {p : Api σ μ α}
    (h : Watched.Traces P a p) (hx : P x) :
    Leads (fun _ _ => True) d x (ExceptT.lift (WatchedRun.calls a)) (ExceptT.lift (Run.api p)) :=
  leads_lift ((WatchedRun.follows_calls (h x hx)).imp fun _ _ _ => trivial)

theorem leads_top_bind {c : Context} {k : Int → WatchedAct σ μ β} {r : Int → Act σ μ β}
    (h : Leads R d x (k (x.world.depth c)) (r (x.world.depth c))) :
    Leads R d x (calls (Watched.plain c.top) >>= k) (Act.api c.top >>= r) := ⟨h.ends, h.endless⟩

theorem leads_change_bind {f : World σ μ → World σ μ} {k : Unit → WatchedAct σ μ β}
    {r : Unit → Act σ μ β} (h : Leads R d { x with world := f x.world } (k ()) (r ())) :
    Leads R d x (change f >>= k) (Act.update f >>= r) := ⟨h.ends, h.endless⟩

theorem bind_ok {v : α} {y : Watch σ μ} (ha : a d x = some (.ok v, y)) :
    (a >>= k) d x = k v d y := by
  change (a d x).bind _ = _
  rw [ha]
  rfl

/-- Calls that leave everything as it is. -/
theorem leads_idle_bind {v : α} {q : Act σ μ β} (ha : a d x = some (.ok v, x))
    (h : Leads R d x (k v) q) : Leads R d x (a >>= k) q :=
  ⟨fun r w hq => bind_ok ha ▸ h.ends r w hq, fun hq => (bind_ok ha).trans (h.endless hq)⟩

/-- Calls that leave everything as it is, where they are made at all. -/
theorem leads_idle_ite {A : Prop} [Decidable A] {v : α} {b : WatchedAct σ μ β} {q : Act σ μ β}
    (ha : A → a d x = some (.ok v, x)) (hk : k v = b) (h : Leads R d x b q) :
    Leads R d x (if A then a >>= k else b) q := by
  split
  next hA => exact leads_idle_bind (ha hA) (hk ▸ h)
  next => exact h

/-- Calls that do nothing else than what they come to. -/
theorem leads_exact_bind {v : α} {a : Watched σ μ α} {p : Api σ μ α} {k : α → WatchedAct σ μ β}
    {r : α → Act σ μ β} (ha : a x = (.ok v, { x with world := (p x.world).2 }))
    (hp : (p x.world).1 = .ok v) (h : Leads R d { x with world := (p x.world).2 } (k v) (r v)) :
    Leads R d x (calls a >>= k) (Act.api p >>= r) := by
  have hcalls : calls a d x = some (.ok v, { x with world := (p x.world).2 }) := congrArg some ha
  have hrun : (Act.api p >>= r) d x.world = r v d (p x.world).2 := by
    have happ : p x.world = (.ok v, (p x.world).2) := Prod.ext hp rfl
    change (some (p x.world)).bind (fun q => ExceptT.bindCont r q.1 d q.2) = _
    rw [happ]
    rfl
  refine ⟨fun u w hu => ?_, fun hu => (bind_ok hcalls).trans (h.endless (hrun.symm.trans hu))⟩
  obtain ⟨y, hy, hrest⟩ := h.ends u w (hrun.symm.trans hu)
  exact ⟨y, (bind_ok hcalls).trans hy, hrest⟩

/-- Calls that come together to one change of the world. -/
theorem leads_changed_bind {f : World σ μ → World σ μ} {a : Watched σ μ Unit}
    {k : Unit → WatchedAct σ μ β} {r : Unit → Act σ μ β}
    (ha : a x = (.ok (), { x with world := f x.world }))
    (h : Leads R d { x with world := f x.world } (k ()) (r ())) :
    Leads R d x (calls a >>= k) (Act.update f >>= r) :=
  leads_exact_bind (p := Api.modify f) ha rfl h

theorem leads_get_bind {k : Watch σ μ → WatchedAct σ μ β} {r : World σ μ → Act σ μ β}
    (h : Leads R d x (k x) (r x.world)) :
    Leads R d x (MonadState.get >>= k) (MonadState.get >>= r) := ⟨h.ends, h.endless⟩

/-- What becomes of the result does not matter. -/
theorem Leads.discard (h : Leads Q d x a p) :
    Leads (fun _ _ => True) d x (Functor.discard a) (Functor.discard p) := by
  have hcalls : Functor.discard a = (a >>= fun _ => pure ()) := by
    simp [Functor.discard, Functor.mapConst]
    rfl
  have hrun : Functor.discard p = (p >>= fun _ => pure ()) := by
    simp [Functor.discard, Functor.mapConst]
    rfl
  rw [hcalls, hrun]
  exact h.bind fun _ _ _ => leads_pure trivial

theorem leads_popErrorText (c : Context) :
    Leads (fun _ _ => True) d x (calls (Watched.popErrorText c))
      (ExceptT.lift (Run.onWorld fun w => w.popErrorText c)) := by
  obtain ⟨y, hy, hw, hs⟩ := Watched.popErrorText_sound x c
  exact .of_some rfl (congrArg some hy) hw hs fun _ _ => trivial

/-- What a thread failed with is left on its stack, and described there. -/
theorem leads_popFailure (c : Context) (v : Val) :
    Leads (fun _ _ => True) d x
      (calls do
        Watched.change (·.push c v)
        Watched.popErrorText c)
      (ExceptT.lift (Run.onWorld fun w => (w.push c v).popErrorText c)) := by
  obtain ⟨y, hy, hw, hs⟩ := Watched.popErrorText_sound { x with world := x.world.push c v } c
  have hcalls : (Watched.change (·.push c v) >>= fun _ => Watched.popErrorText c) x = _ :=
    (Watched.bind_ok rfl).trans hy
  exact .of_some rfl (congrArg some hcalls) hw hs fun _ _ => trivial

variable {c : Context}

/-- What is left of a call that failed. -/
theorem leads_failed (base : Nat) (status : ErrorStatus) :
    Leads Q d x
      (calls (Watched.popErrorText c) >>= fun text =>
        calls (Watched.plain (c.cut base)) >>= fun _ =>
        change (·.log .debug "protected call failed"
          [("message", text), ("status", toString status.code)]) >>= fun _ => throw (.call text))
      (ExceptT.lift (Run.onWorld fun w => w.popErrorText c) >>= fun text =>
        Act.api (c.cut base) >>= fun _ =>
        Act.update (·.log .debug "protected call failed"
          [("message", text), ("status", toString status.code)]) >>= fun _ => throw (.call text)) :=
  (leads_popErrorText c).bind fun _ _ _ =>
    (leads_traces (Watched.traces_plain _) (P := fun _ => True) trivial).bind fun _ _ _ =>
      leads_change_bind (leads_throw _)

/-- The window of a call is reserved before it is made. -/
theorem leads_protectedCall {Q : Watch σ μ → Prop} (nargs : Nat) (rc : ResultCount) (base : Nat)
    (h : ∀ y, x.Spares y →
      Follows (fun o z => o = none → Q z) d y (WatchedRun.plain (c.protect nargs rc.want))
        (c.protect nargs rc.want)) :
    Leads (fun _ => Q) d x (protectedCall c nargs rc base) (c.protectedCall nargs rc base) := by
  rw [Context.protectedCall_eq]
  unfold protectedCall
  dsimp only
  refine (leads_calls (Watched.require_comes c (rc.room nargs) x)).bind fun _ y hy => ?_
  obtain ⟨hm, hretains, hcovers⟩ := hy
  refine leads_change_bind ?_
  let z : Watch σ μ :=
    { y with world :=
        y.world.log .trace "protected call" [("nargs", toString nargs), ("results", rc.describe)] }
  have hz : y.Retains z := Watch.retains_of_thread? (fun _ => rfl) rfl
  have halike : x.world.Alike y.world := hm.world ▸ c.steady_checkStack (rc.room nargs) x.world
  have hhistory : y.world.history = x.world.history :=
    hm.world ▸ (c.quiet_checkStack (A := fun _ => True) (rc.room nargs) x.world).history
  have hspares : x.Spares z := ⟨hretains.trans hz, halike.trans (alike_log _ _ _ _), hhistory⟩
  refine leads_idle_ite (fun hpos => congrArg some (Watched.grow_eq (hz c _ (hcovers hpos)) _)) rfl ?_
  refine (leads_lift (h z hspares)).bind fun o u hu => ?_
  cases o with
  | none => exact leads_top_bind (leads_pure (hu rfl))
  | some status => exact leads_failed base status

theorem Leads.ite {A : Prop} [Decidable A] {b : WatchedAct σ μ α} {q : Act σ μ α}
    (ha : A → Leads Q d x a p) (hb : ¬ A → Leads Q d x b q) :
    Leads Q d x (if A then a else b) (if A then p else q) := by
  split
  next h => exact ha h
  next h => exact hb h

theorem leads_throw_bind (e : Error) (k : α → WatchedAct σ μ β) (r : α → Act σ μ β) :
    Leads R d x (throw e >>= k) (throw e >>= r) :=
  (leads_throw (Q := fun _ _ => False) e).bind fun _ _ h => h.elim

theorem leads_plain (a : Api σ μ α) :
    Leads (fun _ _ => True) d x (calls (Watched.plain a)) (Act.api a) :=
  leads_traces (Watched.traces_plain a) (P := fun _ => True) trivial

/-- A call of something goes as it does, whatever that is. -/
theorem leads_called (nargs : Nat) (rc : ResultCount) (base : Nat) :
    Leads (fun _ _ => True) d x (protectedCall c nargs rc base) (c.protectedCall nargs rc base) :=
  leads_protectedCall (Q := fun _ => True) nargs rc base fun _ _ =>
    (WatchedRun.follows_plain _).imp fun _ _ _ _ => trivial

theorem leads_callInPlace (args : List Value) (rc : ResultCount) :
    Leads (fun _ _ => True) d x (callInPlace c args rc) (c.callInPlace args rc) := by
  unfold callInPlace Context.callInPlace
  refine leads_top_bind (Leads.ite (fun _ => leads_throw_bind _ _ _) fun _ => ?_)
  refine Leads.ite (fun _ => leads_throw_bind _ _ _) fun _ => ?_
  refine (leads_lift_calls (Watched.traces_pushAll (P := fun _ => True) args) trivial).bind fun o y _ => ?_
  cases o with
  | error e => exact (leads_plain _).bind fun _ _ _ => leads_throw e
  | ok _ => exact leads_called _ _ _

theorem leads_callWith (args : List Value) (rc : ResultCount) :
    Leads (fun _ _ => True) d x (callWith c args rc) (c.callWith args rc) := by
  unfold callWith Context.callWith
  refine (leads_callInPlace args rc).bind fun produced y _ => leads_top_bind ?_
  refine (leads_lift_calls (Watched.attends_readBatch (P := fun _ => True) _ _).traces trivial).bind
    fun vs z _ => (leads_plain _).bind fun _ _ _ => leads_mk fun _ _ => trivial

/-- Something is put on a stack and then what stands in a slot of it. -/
theorem put_slot_eq (hx : x.Covers c 2) (v : Val) (pos : Int) :
    (Watched.world >>= fun w => Watched.put c v >>= fun _ => Watched.put c (w.at_ c pos)) x =
      (.ok (), { x with world := (x.world.push c v).push c (x.world.at_ c pos) }) := by
  rw [Watched.bind_ok (show Watched.world x = (.ok x.world, x) from rfl),
    Watched.bind_ok (Watched.put_eq (hx.less (by decide)) _), Watched.put_eq (hx.push _)]

theorem leads_len (i : Int) : Leads (fun _ _ => True) d x (len c i) (c.len i) := by
  unfold len Context.len
  refine (leads_plain _).bind fun pos y _ => ?_
  refine (leads_calls (Watched.require_comes c 2 y)).bind fun _ z hz => leads_top_bind ?_
  have hputs := put_slot_eq (hz.2.2 (by decide)) (.builtin .lengthOfFirst) pos
  refine leads_changed_bind hputs ?_
  refine (leads_called _ _ _).discard.bind fun _ _ _ => ?_
  exact (leads_lift_calls (Watched.attends_read (P := fun _ => True) (-1)).traces trivial).bind
    fun v _ _ => (leads_plain _).bind fun _ _ _ => leads_mk fun _ _ => trivial

theorem leads_goOn (source co : Context) (args : List Value) :
    Leads (fun _ _ => True) d x (goOn source co args) (World.goOn source co args) := by
  unfold goOn World.goOn
  refine leads_top_bind (Leads.ite (fun _ => leads_throw_bind _ _ _) fun _ => ?_)
  refine (leads_lift_calls (Watched.traces_pushAll (P := fun _ => True) args) trivial).bind fun o y _ => ?_
  cases o with
  | error e => exact (leads_plain _).bind fun _ _ _ => leads_throw_bind e _ _
  | ok _ =>
    refine (leads_lift (WatchedRun.follows_plain _)).bind fun e z _ => ?_
    cases e with
    | returned n | yielded n =>
      exact (leads_traces (Watched.traces_popValues n) (P := fun _ => True) trivial).bind fun _ _ _ =>
        leads_pure trivial
    | failed v =>
      exact (leads_popFailure co v).bind fun text _ _ => leads_throw _

theorem leads_resume (h : ThreadHandle) (source : Context) (args : List Value) :
    Leads (fun _ _ => True) d x (resume h source args) (h.resume source args) := by
  unfold resume ThreadHandle.resume
  refine (leads_traces (Watched.attends_owns h).traces (P := fun _ => True) trivial).bind fun own y _ => ?_
  refine Leads.ite (fun _ => leads_throw_bind _ _ _) fun _ => ?_
  refine (leads_plain _).bind fun st z _ => ?_
  cases st with
  | suspended =>
    refine (leads_plain _).bind fun v z _ => ?_
    refine (leads_lift (leads_goOn source v.stack args)).bind fun r u _ => ?_
    exact (leads_lift (WatchedRun.follows_plain _)).bind fun _ _ _ => leads_mk fun _ _ => trivial
  | _ => exact leads_throw_bind _ _ _

end WatchedAct

end LuaEmbed
