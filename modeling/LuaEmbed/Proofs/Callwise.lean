import LuaEmbed.Proofs.Identity
import LuaEmbed.Proofs.Passing
import LuaEmbed.Proofs.Watching
import LuaEmbed.Watch.Run

/-!
The operations on one stack, call by call.
-/
namespace LuaEmbed

open Engine World

variable {σ μ α : Type}

/-- Whether what the interpreter leaves of a failed load becomes a failure of the operation. -/
def StackOp.converts : StackOp α → Bool
  | .load _ | .loadNamed _ _ _ => true
  | _ => false

namespace Watched

/-! ### They come to what they are -/

variable {c : Context} {P Q : Watch σ μ → Prop} {x : Watch σ μ} {a : Watched σ μ α} {p : Api σ μ α}

theorem attends_shared : Attends P (shared c) c.shared := by
  unfold shared Context.shared
  refine attends_require_bind (by decide) fun x hx => ?_
  refine comes_world (comes_get (comes_get (comes_glance hx _ ?_)))
  cases (x.world.heap c.vm).rawGet (x.world.heap c.vm).registryTable recordKey with
  | light p =>
    dsimp only
    split
    · exact comes_throw _
    · exact comes_retains_pure _
  | _ => exact comes_throw _

theorem outcome_comes (h : Comes Q x a p) :
    ∃ y, outcome a x = (.ok (p x.world).1, y) ∧ x.Minds (p x.world).2 y := by
  obtain ⟨y, ha, hy, -⟩ := h
  refine ⟨y, ?_, hy⟩
  unfold outcome
  rw [ha]

theorem traces_sameVm (other : Context) : Traces P (sameVm c other) (c.sameVm other) := by
  intro x hx
  obtain ⟨y, ha, hy⟩ := outcome_comes (attends_shared (c := c) x hx)
  obtain ⟨z, hb, hz⟩ := outcome_comes (attends_shared (c := other) (P := fun _ => True) y trivial)
  rw [hy.world] at hb hz
  unfold Comes sameVm Context.sameVm
  rw [bind_ok ha, bind_ok hb]
  rcases hc : c.shared x.world with ⟨_ | m, w₁⟩
  · rw [hc] at hb hz
    exact ⟨z, rfl, hy.trans hz, fun _ _ => trivial⟩
  · rw [hc] at hb hz
    dsimp only at hb hz ⊢
    rcases hd : other.shared w₁ with ⟨_ | m', w₂⟩
    · rw [hd] at hz
      exact ⟨z, rfl, hy.trans hz, fun _ _ => trivial⟩
    · rw [hd] at hz
      exact ⟨z, rfl, hy.trans hz, fun _ _ => trivial⟩

theorem attends_capture (pos : Int) : Attends P (capture c pos) (c.capture pos) := by
  unfold capture Context.capture
  refine Attends.weaken (attends_shared.attends_bind kept_true fun vm => ?_) fun _ _ => trivial
  refine attends_require_bind (by decide) fun x hx => comes_world (comes_get ?_)
  cases x.world.at_ c pos with
  | thread t =>
    exact comes_glance hx _ (attends_plain (P := fun _ => True) (fun w d => thread?_anchor w d _)
      (fun w => TouchesIn.history (.single (.handle (.made w _)))) x trivial)
  | _ => exact comes_throw _

theorem fetchName_eq (h : x.Covers c 1) (v : Val) : fetchName c v x = (.ok (), x) := by
  unfold fetchName
  rw [bind_ok (show world x = (.ok x.world, x) from rfl)]
  cases x.world.declaredName? c v with
  | none => rfl
  | some name => exact glance_eq h name

theorem comes_fetchName {k : Unit → Watched σ μ α} (h : x.Covers c 1) (v : Val)
    (hk : Comes Q x (k ()) p) : Comes Q x (fetchName c v >>= k) p := by
  unfold Comes
  rwa [bind_ok (fetchName_eq h v)]

theorem attends_read (i : Int) : Attends P (read c i) (c.read i) := by
  unfold read Context.read
  refine Attends.weaken ((attends_resolve c i).attends_bind kept_true fun pos => ?_) fun _ _ => trivial
  refine attends_require_bind (by decide) fun x hx => comes_world (comes_get ?_)
  cases x.world.at_ c pos with
  | nil | bool | int | float | str => exact comes_retains_pure _
  | thread => exact (attends_capture pos).attends_bind kept_true (fun _ _ _ => comes_retains_pure _) x trivial
  | _ => exact comes_fetchName (hx.less (by decide)) _ (comes_retains_pure _)

theorem attends_readFrom (n : Nat) (pos : Int) (acc : List Value) :
    Attends P (readFrom c pos n acc) (c.readFrom pos n acc) := by
  induction n generalizing P pos acc with
  | zero => exact fun x _ => comes_retains_pure _
  | succ n ih =>
    intro x hx
    obtain ⟨y, ha, hy, hkeep⟩ := attends_read (c := c) pos x hx
    unfold Comes readFrom Context.readFrom
    rw [ha]
    rcases hr : c.read pos x.world with ⟨e | v, w⟩
    · rw [hr] at hy
      refine ⟨_, rfl, ⟨?_, hy.overrun, hy.unheeded⟩, fun v hv => by cases hv⟩
      exact congrArg (World.releaseAll · acc) hy.world
    · rw [hr] at hy hkeep
      obtain ⟨z, hz, hm, hkeep'⟩ := ih (P := fun _ => True) (pos + 1) (v :: acc) y trivial
      rw [hy.world] at hz hm hkeep'
      exact ⟨z, hz, hy.trans hm, fun v' hv' => (hkeep v rfl).trans (hkeep' v' hv')⟩

theorem attends_readBatch (n : Int) (start : Option Int) :
    Attends P (readBatch c n start) (c.readBatch n start) := by
  unfold readBatch Context.readBatch
  refine Attends.weaken (P := fun _ => True) ?_ fun _ _ => trivial
  refine Attends.ite (fun _ x _ => comes_retains_pure _) fun _ => ?_
  refine (attends_top c).attends_bind kept_true fun depth => ?_
  exact (attends_check _).attends_bind kept_true fun first => attends_readFrom _ _ _

theorem attends_validate (h : Handle) : Attends P (validate c h) (c.validate h) := by
  unfold validate Context.validate
  refine Attends.weaken (P := fun _ => True) ?_ fun _ _ => trivial
  refine (attends_top c).attends_bind kept_true fun depth => ?_
  refine Attends.ite (fun _ => ?_) fun _ => attends_check _
  refine attends_require_bind (by decide) fun x hx => comes_world (comes_get ?_)
  exact comes_fetchName (hx.less (by decide)) _ (attends_check (P := fun _ => True) _ x trivial)

theorem attends_owns (h : ThreadHandle) : Attends P (owns c h) (c.owns h) := by
  unfold owns Context.owns
  intro x hx
  refine comes_world (comes_get ?_)
  cases x.world.instance? h.thread.vm with
  | none => exact comes_retains_pure _
  | some i =>
    dsimp only
    split
    · exact comes_retains_pure _
    · exact attends_shared.attends_bind kept_true (fun _ _ _ => comes_retains_pure _) x trivial

theorem thread?_pushUserdata (w : World σ μ) (p : Payload) (m : String) (b : Builtin) (d : Context) :
    (w.pushUserdata c p m b).2.thread? d = w.thread? d := by
  unfold World.pushUserdata
  rw [onVm_world]
  exact thread?_objects w c.vm d _ fun _ => rfl

/-- A userdata takes three slots on the way, and one in the end. -/
theorem pushUserdata_eq (h : x.Covers c 3) (p : Payload) (m : String) (b : Builtin) :
    let r := x.world.pushUserdata c p m b
    pushUserdata c p m b x = (.ok r.1, { x with world := r.2.push c r.1 }) := by
  intro r
  have hcovers : ({ x with world := r.2 } : Watch σ μ).Covers c 3 :=
    Watch.retains_of_thread? (thread?_pushUserdata x.world p m b)
      (touches_pushUserdata (A := fun _ => True) x.world c p m b).history c 3 h
  unfold pushUserdata
  rw [bind_ok (show world x = (.ok x.world, x) from rfl)]
  dsimp only
  rw [bind_ok (grow_eq (h.less (by omega)) _), bind_ok (beneath_eq (hcovers.push r.1) _ fun y hy => ?_)]
  · rfl
  · split
    · rw [bind_ok (glance_eq hy _), glance_eq hy]
    · rfl

theorem pushFunction_eq (hx : x.Covers c 3) (shape : FunctionShape) (id : Nat) :
    pushFunction c shape id x = (.ok (), { x with world := x.world.pushFunction c shape id }) := by
  have hcovers : ({ x with world := x.world.retain (.function shape id) } : Watch σ μ).Covers c 3 :=
    Watch.retains_of_thread? (fun _ => rfl) rfl c 3 hx
  have hclose : ∀ (w : World σ μ) (u : Val), enclose c shape u { x with world := w.push c u } =
      let r := w.onVm c.vm fun vm =>
        ({ vm with heap := (vm.heap.newClosure (.native (World.entry shape) #[u])).2 },
          (vm.heap.newClosure (.native (World.entry shape) #[u])).1)
      (.ok (), { x with world := r.2.push c r.1 }) := by
    intro w u
    unfold enclose change plain Api.modify
    dsimp only
    rw [drop_push]
  unfold pushFunction
  rw [bind_ok (show change _ x = (.ok (), _) from rfl)]
  cases shape with
  | raw | list => exact (bind_ok (pushUserdata_eq hcovers _ _ _)).trans (hclose _ _)

theorem traces_pushFunction (shape : FunctionShape) (id : Nat) :
    Traces (·.Covers c 3) (pushFunction c shape id : Watched σ μ Unit)
      (Api.modify (·.pushFunction c shape id)) :=
  fun _ hx => ⟨_, pushFunction_eq hx shape id, ⟨rfl, rfl, rfl⟩, fun _ _ => trivial⟩

theorem traces_pushForeign (id : Nat) :
    Traces (·.Covers c 3) (pushForeign c id : Watched σ μ Unit) (Api.modify (·.pushForeign c id)) := by
  intro x hx
  have hcovers : ({ x with world := x.world.retain (.foreign id) } : Watch σ μ).Covers c 3 :=
    Watch.retains_of_thread? (fun _ => rfl) rfl c 3 hx
  refine ⟨{ x with world := x.world.pushForeign c id }, ?_, ⟨rfl, rfl, rfl⟩, fun _ _ => trivial⟩
  unfold pushForeign
  rw [bind_ok (show change _ x = (.ok (), _) from rfl), bind_ok (pushUserdata_eq hcovers _ _ _)]
  rfl

theorem traces_put (v : Val) :
    Traces (·.Covers c 1) (put c v : Watched σ μ Unit) (Api.modify (·.push c v)) :=
  traces_grow c 1 _

theorem traces_pushThread (h : ThreadHandle) :
    Traces (·.Covers c 3) (pushThread c h : Watched σ μ Unit) (c.pushThread h) := by
  unfold pushThread Context.pushThread
  refine (attends_owns h).bind (kept_covers c 3) fun owned => ?_
  have hput : Traces (·.Covers c 3) (put c (.thread h.thread.thread) : Watched σ μ Unit)
      (Api.modify (·.push c (.thread h.thread.thread))) :=
    (traces_put _).weaken fun _ h => h.less (by omega)
  cases owned with
  | false => exact fun x _ => comes_throw_bind _ _ _
  | true =>
    change Traces _
      (if h.thread ≠ c then require h.thread 1 >>= fun _ =>
          glance h.thread (.thread h.thread.thread) >>= fun _ => put c (.thread h.thread.thread)
        else put c (.thread h.thread.thread))
      (if h.thread ≠ c then Context.checkStack h.thread 1 >>= fun _ =>
          Api.modify (·.push c (.thread h.thread.thread))
        else Api.modify (·.push c (.thread h.thread.thread)))
    refine Traces.ite (fun _ x hx => ?_) fun _ => hput
    refine (require_comes h.thread 1 x).bind fun _ y hy => ?_
    exact comes_glance (hy.2 (by decide)) _ (hput y (hy.1 c 3 hx))

theorem attends_requireFor (n : Nat) : Attends P (requireFor c n) (c.checkStackFor n) := by
  unfold requireFor Context.checkStackFor
  intro x hx
  dsimp only
  split
  · exact comes_throw_bind _ _ _
  · exact attends_require c n x hx

theorem traces_push (v : Value) : Traces P (push c v) (c.push v) := by
  unfold push Context.push
  refine traces_require (by decide) ?_
  have hput : ∀ u, Traces (·.Covers c 3) (put c u : Watched σ μ Unit) (Api.modify (·.push c u)) :=
    fun u => (traces_put u).weaken fun _ h => h.less (by omega)
  cases v with
  | nil | bool | int | float | text => exact hput _
  | function shape id => exact traces_pushFunction shape id
  | thread h => exact traces_pushThread h
  | foreign id => exact traces_pushForeign id
  | handle h =>
    refine (attends_validate h).bind (kept_covers c 3) fun _ x hx => comes_world ?_
    exact (hput _ x hx).modify_congr rfl

theorem traces_pushEach (vs : List Value) : Traces P (pushEach c vs) (c.pushEach vs) := by
  induction vs generalizing P with
  | nil => exact fun x _ => comes_pure trivial _
  | cons v vs ih => exact (traces_push v).bind fun _ => ih

theorem traces_pushAll (vs : List Value) : Traces P (pushAll c vs) (c.pushAll vs) := by
  unfold pushAll Context.pushAll
  exact (attends_requireFor _).traces.bind fun _ => traces_pushEach vs

theorem traces_duplicate (i : Int) : Traces P (duplicate c i) (c.duplicate i) := by
  unfold duplicate Context.duplicate
  refine ((attends_resolve c i).bind kept_true fun pos => ?_).weaken fun _ _ => trivial
  refine traces_require (by decide) fun x hx => comes_world ?_
  exact (traces_put _ x hx).modify_congr rfl

theorem attends_readForeign (i : Int) : Attends P (readForeign c i) (c.readForeign i) := by
  unfold readForeign Context.readForeign
  refine ((attends_resolve c i).attends_bind kept_true fun pos => ?_).weaken fun _ _ => trivial
  refine attends_require_bind (by decide) (attends_plain (fun w d => ?_) fun w => ?_) <;>
    cases w.foreignOf? c (w.at_ c pos) <;> rfl

theorem traces_popValues (n : Int) : Traces P (popValues c n) (c.popValues n) := by
  unfold popValues Context.popValues
  refine (attends_readBatch n none).traces.bind fun vs => (traces_plain _).bind fun _ => ?_
  exact fun x _ => comes_pure trivial _

theorem traces_setTop (n : Int) : Traces P (setTop c n) (c.setTop n) := by
  unfold setTop Context.setTop
  have hreach : ∀ target : Int, Traces P
      (plain c.top >>= fun depth =>
        if depth < target then
          require c (target - depth) >>= fun _ => grow c (target - depth).toNat (c.cut target.toNat)
        else plain (c.cut target.toNat))
      (c.top >>= fun depth =>
        if depth < target then c.checkStack (target - depth) >>= fun _ => c.cut target.toNat
        else c.cut target.toNat) := by
    intro target x _
    refine comes_plain_bind rfl fun depth _ => Traces.ite (P := fun _ => True) (fun h => ?_)
      (fun _ => traces_plain _) x trivial
    exact traces_require (by omega) (traces_grow c _ _)
  refine Traces.ite (fun _ x hx => ?_) fun _ => hreach n
  exact comes_plain_bind rfl fun target _ => hreach target x hx

theorem put_eq {y : Watch σ μ} (h : y.Covers c 1) (v : Val) :
    put c v y = (.ok (), { y with world := y.world.push c v }) := grow_eq h _

/-- A field that was fetched takes the place of its name and then of its table. -/
theorem supplant_both (w : World σ μ) (c : Context) (t n v : Val) :
    ((((w.push c t).push c n).modifySlots c fun s => (s.shrink (s.size - 1)).push v).modifySlots c
      fun s => (s.shrink (s.size - 2)).push v) = w.push c v := by
  unfold World.push
  rw [modifySlots_modifySlots, modifySlots_modifySlots, modifySlots_modifySlots]
  refine modifySlots_congr fun s _ => ?_
  simp

theorem traces_getGlobal (name : Bytes) : Traces P (getGlobal c name) (c.getGlobal name) := by
  unfold getGlobal Context.getGlobal
  refine traces_require (by decide) fun x hx => comes_world ?_
  dsimp only
  generalize hv : (x.world.heap c.vm).rawGet (x.world.heap c.vm).globals (.str name) = v
  have hread : Comes (fun _ => True) { x with world := x.world.push c v } (read c (-1)) (c.read (-1)) :=
    (attends_read (-1)).traces (P := fun _ => True) _ trivial
  refine hread.of_eq ?_ ?_
  · rw [bind_ok (put_eq (hx.less (by decide)) _),
      bind_ok (put_eq ((hx.less (by decide) : x.Covers c 2).push _) _)]
    unfold supplant
    rw [bind_ok (show change _ _ = (.ok (), _) from rfl), bind_ok (show change _ _ = (.ok (), _) from rfl)]
    dsimp only
    rw [supplant_both]
  · subst hv
    rfl

/-- A field that is set is taken off with its name, and then its table and the value itself. -/
theorem drop_stored (w : World σ μ) (c : Context) (t n v : Val) (f : Heap → Heap) :
    (((((((w.push c t).push c n).push c v).modifyHeap c.vm f).modifySlots c
      fun s => s.shrink (s.size - 2))).modifySlots c fun s => s.shrink (s.size - 2)) =
      (w.modifyHeap c.vm f).modifySlots c (·.pop) := by
  unfold World.push
  rw [modifyHeap_modifySlots, modifyHeap_modifySlots, modifyHeap_modifySlots, modifySlots_modifySlots,
    modifySlots_modifySlots, modifySlots_modifySlots, modifySlots_modifySlots]
  refine modifySlots_congr fun s _ => Array.ext' ?_
  simp

theorem traces_setGlobal (name : Bytes) : Traces P (setGlobal c name) (c.setGlobal name) := by
  unfold setGlobal Context.setGlobal
  intro x hx
  refine comes_plain_bind rfl fun pos _ => ?_
  refine traces_require (P := fun _ => True) (by decide) (fun x hx => comes_world ?_) x trivial
  dsimp only
  have hroom : x.Covers c 3 := hx
  refine ⟨{ x with world := _ }, ?_, ⟨rfl, rfl, rfl⟩, fun _ _ => trivial⟩
  rw [bind_ok (put_eq (hroom.less (by omega)) _),
    bind_ok (put_eq ((hroom.less (by omega) : x.Covers c 2).push _) _),
    bind_ok (put_eq ((hroom.push _).push _) _)]
  unfold drop
  rw [bind_ok (show change _ _ = (.ok (), _) from rfl), bind_ok (show change _ _ = (.ok (), _) from rfl)]
  unfold change plain Api.modify
  dsimp only
  rw [drop_stored]

theorem traces_transfer (target : Context) (n : Int) :
    Traces P (transfer c target n) (c.transfer target n) := by
  unfold transfer Context.transfer
  refine Traces.ite (fun _ x _ => comes_pure trivial _) fun h0 x _ => ?_
  refine comes_plain_bind rfl fun depth _ => ?_
  rw [Api.discard_eq, bind_assoc]
  refine comes_plain_bind rfl fun first hfirst => ?_
  have hcount : 0 < n := by
    obtain ⟨h, -⟩ := Index.resolveWindow_low hfirst
    omega
  refine (traces_sameVm target).bind (P := fun _ => True) (fun same => ?_) x trivial
  cases same with
  | false => exact fun x _ => comes_throw_bind _ _ _
  | true =>
    refine Traces.ite (fun h => absurd h (by decide)) fun _ => ?_
    exact Traces.ite (fun _ x _ => comes_pure trivial _) fun _ =>
      traces_require hcount (traces_grow target _ _)

theorem attends_configuredName : Attends P (configuredName c) c.configuredName :=
  Attends.weaken (attends_shared.attends_bind kept_true fun _ _ _ => comes_retains_pure _)
    fun _ _ => trivial

theorem traces_tryLoadWith (chunk name : Bytes) (mode : LoadMode) :
    Traces P (tryLoadWith c chunk name mode) (c.tryLoadWith chunk name mode) := by
  unfold tryLoadWith Context.tryLoadWith
  exact traces_require (by decide) (traces_grow c 1 _)

theorem traces_tryLoad (chunk : Bytes) : Traces P (tryLoad c chunk) (c.tryLoad chunk) :=
  attends_configuredName.traces.bind fun _ => traces_tryLoadWith _ _ _

theorem traces_captureTop {v : World σ μ → Val × World σ μ} :
    Traces P (captureTop c v) (c.captureTop v) := by
  unfold captureTop Context.captureTop
  refine traces_require (by decide) fun x hx => ?_
  have hgrow : grow c 1 (Api.modify fun w => (v w).2.push c (v w).1) x =
      (.ok (), { x with world := (v x.world).2.push c (v x.world).1 }) := grow_eq (hx.less (by decide)) _
  have hrest : ∀ y : Watch σ μ, Comes (fun _ => True) y
      (plain c.top >>= fun top => outcome (capture c top) >>= fun h =>
        change (·.truncate c (top - 1).toNat) >>= fun _ => ExceptT.mk (pure h))
      (c.top >>= fun top => fun w =>
        ((c.capture top w).1, (c.capture top w).2.truncate c (top - 1).toNat)) := by
    intro y
    refine comes_plain_bind rfl fun top _ => ?_
    obtain ⟨z, hz, hm⟩ := outcome_comes (attends_capture (P := fun _ => True) top y trivial)
    unfold Comes
    rw [bind_ok hz]
    refine ⟨{ z with world := z.world.truncate c (top - 1).toNat }, rfl, ⟨?_, hm.overrun, hm.unheeded⟩,
      fun _ _ => trivial⟩
    dsimp only
    rw [hm.world]
  exact (hrest _).of_eq (bind_ok hgrow) rfl

theorem traces_newThread : Traces P (newThread c) c.newThread := traces_captureTop

theorem traces_currentThread : Traces P (currentThread c) c.currentThread := traces_captureTop

/-- Of a text on top of a stack, the type is seen, and nothing else has that type. -/
theorem back_of_typeOf {w w' : World σ μ} (hd : w.depth c ≤ Word32.greatest)
    (h : c.typeOf (-1) w = (.ok .string, w')) : ∃ s, (w.slots c).back? = some (.str s) := by
  obtain ⟨pos, w₁, hpos, htag⟩ := Api.bind_eq_ok h
  obtain ⟨rfl, hlow, hhigh, -⟩ := Context.resolve_ok hpos
  have hlast : pos = w₁.depth c := by
    have hr : Index.resolve (-1) (w₁.depth c) = .ok pos := congrArg Prod.fst hpos
    rw [Index.resolve_last (by omega) hd] at hr
    exact (Except.ok.inj hr).symm
  have hstr : ∃ s, w₁.at_ c pos = .str s := by
    have htag' : (w₁.at_ c pos).tag = .string := Except.ok.inj (congrArg Prod.fst htag)
    cases hv : w₁.at_ c pos with
    | str s => exact ⟨s, rfl⟩
    | _ => rw [hv] at htag'; cases htag'
  obtain ⟨s, hs⟩ := hstr
  refine ⟨s, ?_⟩
  have hslot : (w₁.slots c)[(pos - 1).toNat]? = some (.str s) := by
    unfold at_ at hs
    rw [Array.getD_eq_getD_getElem?] at hs
    cases hg : (w₁.slots c)[(pos - 1).toNat]? with
    | none => rw [hg] at hs; cases hs
    | some v => rw [hg] at hs; exact congrArg some hs
  rw [Array.back?_eq_getElem?, ← depth_of_shown (shown_of_slot w₁ hslot), ← hslot]
  congr 1
  omega

theorem drop_one (w : World σ μ) (c : Context) :
    (w.modifySlots c fun s => s.shrink (s.size - 1)) = w.modifySlots c (·.pop) :=
  modifySlots_congr fun s _ => Array.ext' (by simp)

/-- An error value is described and taken off. -/
theorem taken_eq (x : Watch σ μ) (c : Context) (v : Val) :
    (world >>= fun w => drop c 1 >>= fun _ => pure (w.errorText c v) : Watched σ μ String) x =
      (.ok (x.world.errorText c v), { x with world := x.world.modifySlots c (·.pop) }) := by
  rw [bind_ok (show world x = (.ok x.world, x) from rfl),
    bind_ok (show drop c 1 x = (.ok (), _) from rfl)]
  dsimp only
  rw [drop_one]
  rfl

/-- The text of an error that is a text is taken without asking for room. -/
theorem popErrorText_string {s : Bytes} (h : (x.world.slots c).back? = some (.str s)) :
    popErrorText c x = (.ok (x.world.popErrorText c).1,
      { x with world := (x.world.popErrorText c).2 }) := by
  unfold popErrorText World.popErrorText
  rw [bind_ok (show world x = (.ok x.world, x) from rfl), h]
  exact taken_eq x c (.str s)

/-- What room is asked for finds it, unless a refusal is passed over. -/
theorem presumed_sound (x : Watch σ μ) (c : Context) (n : Nat) {a : Watched σ μ Unit}
    (hroom : ∀ y : Watch σ μ, y.Covers c n → a y = (.ok (), y))
    (hany : ∀ y : Watch σ μ, ∃ o, a y = (.ok (), { y with overrun := o })) :
    ∃ y, (presume c n >>= fun _ => a) x = (.ok (), y) ∧ y.world = (x.world.reserve c n).2 ∧
      (x.Sound → y.Sound) := by
  cases h : (x.world.reserve c n).1 with
  | true =>
    let y : Watch σ μ :=
      { x with world := (x.world.reserve c n).2, refused := x.refused.filter (· ≠ c) }
    have hpresume : presume c n x = (.ok (), y) := bind_ok (ask_granted h)
    exact ⟨y, (bind_ok hpresume).trans (hroom y (granted h).2), rfl, id⟩
  | false =>
    let y : Watch σ μ :=
      { x with world := (x.world.reserve c n).2, refused := c :: x.refused, unheeded := true }
    have hpresume : presume c n x = (.ok (), y) := bind_ok (ask_refused h)
    obtain ⟨o, ha⟩ := hany y
    exact ⟨_, (bind_ok hpresume).trans ha, rfl, fun _ _ => rfl⟩

/-- The object on top of the stack is described, in the room that was asked for if it was granted. -/
theorem describe_sound (x : Watch σ μ) (c : Context) (v : Val) :
    ∃ y, (presume c 2 >>= fun _ => fetchName c v : Watched σ μ Unit) x = (.ok (), y) ∧
      y.world = (x.world.reserve c 2).2 ∧ (x.Sound → y.Sound) := by
  refine presumed_sound x c 2 (fun y hy => fetchName_eq (hy.less (by decide)) v) fun y => ?_
  unfold fetchName
  rw [bind_ok (show world y = (.ok y.world, y) from rfl)]
  cases y.world.declaredName? c v with
  | none => exact ⟨y.overrun, rfl⟩
  | some name => exact ⟨_, glance_anyway y c name⟩

/-- The text of a failure is put on a stack where room was asked for, and taken off by whom it is raised
to. -/
theorem putFailure_sound (x : Watch σ μ) (c : Context) (message : String) :
    ∃ y, putFailure c message x = (.ok (), y) ∧ y.world = (x.world.reserve c 1).2 ∧
      (x.Sound → y.Sound) := by
  refine presumed_sound x c 1 (fun y hy => ?_) fun y => ?_
  · rw [bind_ok (show world y = (.ok y.world, y) from rfl)]
    split
    · rfl
    · exact glance_eq hy _
  · rw [bind_ok (show world y = (.ok y.world, y) from rfl)]
    split
    · exact ⟨y.overrun, rfl⟩
    · exact ⟨_, glance_anyway y c _⟩

/-- An error is described within the room that there is, unless a refusal is passed over. -/
theorem popErrorText_sound (x : Watch σ μ) (c : Context) :
    ∃ y, popErrorText c x = (.ok (x.world.popErrorText c).1, y) ∧ y.world = (x.world.popErrorText c).2 ∧
      (x.Sound → y.Sound) := by
  unfold popErrorText World.popErrorText
  rw [bind_ok (show world x = (.ok x.world, x) from rfl)]
  cases (x.world.slots c).back? with
  | none => exact ⟨x, rfl, rfl, id⟩
  | some v =>
    obtain ⟨y, hy, hw, hsound⟩ := describe_sound x c v
    have hobject := (bind_ok (k := fun _ => world >>= fun w => drop c 1 >>= fun _ =>
      pure (w.errorText c v)) hy).trans (taken_eq y c v)
    rw [bind_assoc, hw] at hobject
    cases v with
    | str | int | float | nil | bool => exact ⟨_, taken_eq x c _, rfl, id⟩
    | _ => exact ⟨_, hobject, rfl, hsound⟩

/-- What is left of a load that failed. -/
theorem comes_unloaded (base : Int) (text : Option String) :
    Comes (fun _ => True) x
      (plain (c.cut base.toNat) >>= fun _ =>
        change (·.log .debug "chunk failed to load" [("error", (Error.ofDescription text).message)])
          >>= fun _ => throw (Error.ofDescription text) : Watched σ μ Unit)
      (c.cut base.toNat >>= fun _ =>
        Api.modify (·.log .debug "chunk failed to load" [("error", (Error.ofDescription text).message)])
          >>= fun _ => throw (Error.ofDescription text)) :=
  (traces_plain _).bind (P := fun _ => True) (fun _ =>
    (traces_plain _).bind fun _ _ _ => comes_throw _) x trivial

theorem traces_loadWith (chunk name : Bytes) (mode : LoadMode) :
    Traces (fun x => (x.world.depth c : Int) < Word32.greatest)
      (loadWith c chunk name mode : Watched σ μ Unit) (c.loadWith chunk name mode) := by
  unfold loadWith Context.loadWith
  intro x hx
  refine comes_plain_bind rfl fun base hbase => ?_
  obtain rfl := Except.ok.inj (show (.ok (x.world.depth c : Int) : Except Error Int) = .ok base from hbase)
  refine (traces_tryLoadWith chunk name mode).bind (P := fun _ => True) (fun o => ?_) x trivial
  refine Traces.ite (fun _ x _ => comes_pure trivial _) fun _ y _ => ?_
  refine comes_plain_bind rfl fun top htop => ?_
  refine comes_plain_bind (Context.typeOf_world rfl) fun tag htag => ?_
  dsimp only
  split
  next hdesc =>
    obtain ⟨rfl, rfl⟩ := hdesc
    have hdepth : (y.world.depth c : Int) = x.world.depth c + 1 := Except.ok.inj htop
    obtain ⟨s, hs⟩ := back_of_typeOf (by omega) (Prod.ext htag rfl)
    exact (comes_unloaded _ (some (y.world.popErrorText c).1)).of_eq (bind_ok (popErrorText_string hs)) rfl
  next => exact comes_unloaded _ none

theorem depth_configuredName (w : World σ μ) (d : Context) :
    (c.configuredName w).2.depth d = w.depth d := by
  have hworld : (c.configuredName w).2 = (c.shared w).2 := by
    unfold Context.configuredName
    rcases h : c.shared w with ⟨_ | vm, w₁⟩
    · rw [Api.bind_error h]
    · rw [Api.bind_ok h]
      rfl
  rw [hworld, Context.shared_world, depth_reserve]

theorem traces_load (chunk : Bytes) :
    Traces (fun x => (x.world.depth c : Int) < Word32.greatest) (load c chunk : Watched σ μ Unit)
      (c.load chunk) := by
  intro x hx
  obtain ⟨y, hy, hm, -⟩ := attends_configuredName (c := c) (P := fun _ => True) x trivial
  have hname : Comes (fun y => (y.world.depth c : Int) < Word32.greatest) x (configuredName c)
      c.configuredName := by
    refine ⟨y, hy, hm, fun _ _ => ?_⟩
    dsimp only
    rwa [hm.world, depth_configuredName]
  exact hname.bind fun name y hy => traces_loadWith chunk name .any y hy

theorem traces_loadNamed (chunk : Bytes) (name : String) (mode : LoadMode) :
    Traces (fun x => (x.world.depth c : Int) < Word32.greatest)
      (loadNamed c chunk name mode : Watched σ μ Unit) (c.loadNamed chunk name mode) :=
  fun x hx => comes_plain_bind rfl fun name _ => traces_loadWith chunk name mode x hx

/-- Whatever an operation on a stack puts there, on the way or in the end, finds room that it has
reserved, and no refusal is passed over. -/
theorem traces_onStack (c : Context) (o : StackOp α) :
    Traces (fun x => o.converts = true → (x.world.depth c : Int) < Word32.greatest)
      (onStack c o : Watched σ μ α) (o.perform c) := by
  cases o with
  | setTop => exact traces_setTop _
  | checkStack => exact (attends_require _ _).traces
  | duplicate => exact traces_duplicate _
  | push => exact traces_push _
  | pushAll => exact traces_pushAll _
  | read => exact (attends_read _).traces
  | readBatch => exact (attends_readBatch _ _).traces
  | popValues => exact traces_popValues _
  | validate => exact (attends_validate _).traces
  | readForeign => exact (attends_readForeign _).traces
  | getGlobal => exact traces_getGlobal _
  | setGlobal => exact traces_setGlobal _
  | transfer => exact traces_transfer _ _
  | sameVm => exact traces_sameVm _
  | load => exact (traces_load _).weaken fun _ h => h rfl
  | loadNamed => exact (traces_loadNamed _ _ _).weaken fun _ h => h rfl
  | tryLoad => exact traces_tryLoad _
  | newThread => exact traces_newThread
  | currentThread => exact traces_currentThread
  | belongs => exact (attends_owns _).traces
  | top => exact traces_plain c.top
  | resolve i => exact traces_plain (c.resolve i)
  | pop n => exact traces_plain (c.pop n)
  | remove i => exact traces_plain (c.remove i)
  | replace i => exact traces_plain (c.replace i)
  | rotate i n => exact traces_plain (c.rotate i n)
  | copy i j => exact traces_plain (c.copy i j)
  | typeOf i => exact traces_plain (c.typeOf i)
  | rawLen i => exact traces_plain (c.rawLen i)
  | status h => exact traces_plain (h.status c)
  | fault => exact traces_plain (World.fault c)

end Watched
end LuaEmbed
