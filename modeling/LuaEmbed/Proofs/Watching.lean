import LuaEmbed.Proofs.Granting
import LuaEmbed.Proofs.Succession
import LuaEmbed.Watch.Stack

/-!
An operation that is watched call by call comes to what it is as a whole, and whatever it puts on a stack
finds room there. What there was room for is left to what comes after it, unless the operation takes it up.
-/
namespace LuaEmbed

open Engine World

variable {σ μ α β : Type}

namespace Watch

/-- Whatever there was room for, there still is. -/
def Retains (x y : Watch σ μ) : Prop := ∀ c n, x.Covers c n → y.Covers c n

/-- Whatever was put on a stack found room there, unless a refusal was passed over. -/
def Sound (x : Watch σ μ) : Prop := x.overrun = true → x.unheeded = true

/-- Another world, and nothing else noticed than the refusals that stand. -/
structure Minds (x : Watch σ μ) (w : World σ μ) (y : Watch σ μ) : Prop where
  world : y.world = w
  overrun : y.overrun = x.overrun
  unheeded : y.unheeded = x.unheeded

end Watch

namespace Watched

/-! ### Coming to what an operation is -/

/-- Call by call, an operation comes from here to what it is as a whole, everything that it puts on a
stack finds room there, and if it succeeds, this holds afterwards. -/
def Comes (Q : Watch σ μ → Prop) (x : Watch σ μ) (a : Watched σ μ α) (p : Api σ μ α) : Prop :=
  ∃ y, a x = ((p x.world).1, y) ∧ x.Minds (p x.world).2 y ∧ ∀ v, (p x.world).1 = .ok v → Q y

def Traces (P : Watch σ μ → Prop) (a : Watched σ μ α) (p : Api σ μ α) : Prop :=
  ∀ x, P x → Comes (fun _ => True) x a p

/-- It leaves what room there was to what comes after it. -/
def Attends (P : Watch σ μ → Prop) (a : Watched σ μ α) (p : Api σ μ α) : Prop :=
  ∀ x, P x → Comes x.Retains x a p

/-- It still holds where there is no less room. -/
def Kept (P : Watch σ μ → Prop) : Prop := ∀ x y : Watch σ μ, x.Retains y → P x → P y

end Watched

namespace Watch

variable {x y z : Watch σ μ} {w w' : World σ μ} {c : Context} {m n : Nat}

theorem Covers.less (h : x.Covers c n) (hm : m ≤ n) : x.Covers c m :=
  ⟨h.1, fun hc t ht => Nat.le_trans (Nat.add_le_add_left hm _) (h.2 hc t ht)⟩

theorem Retains.refl (x : Watch σ μ) : x.Retains x := fun _ _ h => h

theorem Retains.trans (h : x.Retains y) (k : y.Retains z) : x.Retains z :=
  fun c n hc => k c n (h c n hc)

theorem Minds.refl (x : Watch σ μ) : x.Minds x.world x := ⟨rfl, rfl, rfl⟩

theorem Minds.sound (h : x.Minds w y) (hx : x.Sound) : y.Sound :=
  fun ho => h.unheeded ▸ hx (h.overrun ▸ ho)

theorem Minds.trans (h : x.Minds w y) (k : y.Minds w' z) : x.Minds w' z :=
  ⟨k.world, k.overrun.trans h.overrun, k.unheeded.trans h.unheeded⟩

/-- What leaves the threads alone leaves the room on them. -/
theorem retains_of_thread? (h : ∀ c, w.thread? c = x.world.thread? c)
    (hh : w.history = x.world.history) : x.Retains { x with world := w } :=
  fun c _ hc => ⟨hc.1, fun hopen t ht => hc.2 (hh ▸ hopen) t (h c ▸ ht)⟩

/-- Slots that are put on a stack take up room there. -/
theorem Covers.modifySlots (h : x.Covers c n) {f : Array Val → Array Val}
    (hf : ∀ s, (f s).size + m ≤ s.size + n) (hm : m ≤ n) :
    ({ x with world := x.world.modifySlots c f }).Covers c m := by
  refine ⟨h.1, fun hopen t ht => ?_⟩
  rw [modifySlots_eq, thread?_modifyThread_self] at ht
  obtain ⟨t, ht', rfl⟩ := Option.map_eq_some_iff.mp ht
  have hroom := h.2 hopen t ht'
  have hbase : (t.top.mapSlots f).base = t.top.base := Frame.base_mapSlots f t.top
  have hlimit : (t.top.mapSlots f).limit = t.top.limit := by
    unfold Frame.mapSlots
    split <;> rfl
  have hcount : (t.top.mapSlots f).count + m ≤ t.top.count + n := by
    rcases t.top with ⟨s | a, _, _, _, _, _, _, _⟩
    · exact hf s
    · exact Nat.add_le_add_left hm _
  unfold Thread.used Frame.used at hroom ⊢
  rw [Thread.top_modifyTop, hbase, hlimit]
  omega

theorem Covers.push (h : x.Covers c (n + 1)) (v : Val) :
    ({ x with world := x.world.push c v }).Covers c n :=
  h.modifySlots (fun s => by rw [Array.size_push]; omega) (Nat.le_succ n)

theorem limit_reserve {t : Thread} {starved : Bool} {n : Nat} (h : (t.reserve starved n).1 = true) :
    (t.reserve starved n).2.top.limit = max t.top.limit (t.used + n) := by
  obtain ⟨size, -, -, he⟩ := Thread.reserve_ok h
  rw [he, Thread.top_modifyTop]
  rfl

end Watch

namespace Watched

variable {P Q R : Watch σ μ → Prop} {a b : Watched σ μ α} {p q : Api σ μ α} {k : α → Watched σ μ β}
  {r : α → Api σ μ β} {x y : Watch σ μ} {c : Context} {n : Nat}

theorem bind_ok {v : α} (h : a x = (.ok v, y)) : (a >>= k) x = k v y := by
  simp only [Bind.bind, ExceptT.bind, ExceptT.mk, StateT.bind, h]
  rfl

theorem bind_error {e : Error} (h : a x = (.error e, y)) : (a >>= k) x = (.error e, y) := by
  simp only [Bind.bind, ExceptT.bind, ExceptT.mk, StateT.bind, h]
  rfl

theorem Comes.imp (h : Comes Q x a p) (hQ : ∀ y, Q y → R y) : Comes R x a p :=
  let ⟨y, ha, hy, hq⟩ := h
  ⟨y, ha, hy, fun v hv => hQ y (hq v hv)⟩

/-- It is enough that it comes from another world to what is then to be done. -/
theorem Comes.of_eq {b : Watched σ μ α} {w : World σ μ}
    (h : Comes Q { x with world := w } b q) (ha : a x = b { x with world := w })
    (hp : p x.world = q w) : Comes Q x a p := by
  obtain ⟨y, hy, hm, hq⟩ := h
  refine ⟨y, ?_, ⟨?_, hm.overrun, hm.unheeded⟩, fun v hv => hq v ?_⟩
  · rw [ha, hp, hy]
  · rw [hp, hm.world]
  · rw [← hp, hv]

/-- One thing after the other. -/
theorem Comes.bind (h : Comes Q x a p) (hk : ∀ v y, Q y → Comes R y (k v) (r v)) :
    Comes R x (a >>= k) (p >>= r) := by
  obtain ⟨y, ha, hy, hq⟩ := h
  unfold Comes
  cases hp : (p x.world).1 with
  | error e =>
    rw [hp] at ha
    rw [bind_error ha, Api.bind_error (Prod.ext hp rfl)]
    exact ⟨y, rfl, hy, nofun⟩
  | ok v =>
    rw [hp] at ha
    rw [bind_ok ha, Api.bind_ok (Prod.ext hp rfl)]
    obtain ⟨z, hz, hm, hr⟩ := hk v y (hq v hp)
    rw [hy.world] at hz hm hr
    exact ⟨z, hz, hy.trans hm, hr⟩

theorem Attends.traces (h : Attends P a p) : Traces P a p :=
  fun x hx => (h x hx).imp fun _ _ => trivial

theorem Traces.weaken (h : Traces P a p) (hQ : ∀ x, Q x → P x) : Traces Q a p :=
  fun x hx => h x (hQ x hx)

theorem Attends.weaken (h : Attends P a p) (hQ : ∀ x, Q x → P x) : Attends Q a p :=
  fun x hx => h x (hQ x hx)

theorem kept_true : Kept fun _ : Watch σ μ => True := fun _ _ _ _ => trivial

theorem kept_covers (c : Context) (n : Nat) : Kept fun x : Watch σ μ => x.Covers c n :=
  fun _ _ h => h c n

theorem comes_pure (h : Q x) (v : α) : Comes Q x (pure v) (pure v) :=
  ⟨x, rfl, .refl x, fun _ _ => h⟩

theorem comes_throw (e : Error) : Comes Q x (throw e : Watched σ μ α) (throw e) :=
  ⟨x, rfl, .refl x, nofun⟩

theorem comes_throw_bind (e : Error) (k : α → Watched σ μ β) (r : α → Api σ μ β) :
    Comes Q x (throw e >>= k) (throw e >>= r) :=
  (comes_throw (Q := fun _ => False) e).bind fun _ _ h => h.elim

theorem comes_retains_pure (v : α) : Comes x.Retains x (pure v) (pure v) :=
  comes_pure (.refl x) v

theorem traces_plain (a : Api σ μ α) : Traces P (plain a) a :=
  fun _ _ => ⟨_, rfl, ⟨rfl, rfl, rfl⟩, fun _ _ => trivial⟩

theorem attends_plain {a : Api σ μ α} (h : ∀ w c, (a w).2.thread? c = w.thread? c)
    (hh : ∀ w, (a w).2.history = w.history) : Attends P (plain a) a :=
  fun x _ =>
    ⟨_, rfl, ⟨rfl, rfl, rfl⟩, fun _ _ => Watch.retains_of_thread? (h x.world) (hh x.world)⟩

theorem attends_top (c : Context) : Attends P (plain c.top) c.top :=
  attends_plain (fun _ _ => rfl) fun _ => rfl

theorem attends_resolve (c : Context) (i : Int) : Attends P (plain (c.resolve i)) (c.resolve i) :=
  attends_plain (fun _ _ => rfl) fun _ => rfl

theorem attends_check (r : Except Error α) : Attends P (plain (Api.check r)) (Api.check r) :=
  attends_plain (fun _ _ => rfl) fun _ => rfl

/-- A look at the world, and what comes after it. -/
theorem comes_plain_bind {o : Api σ μ α} (hw : (o x.world).2 = x.world)
    (h : ∀ v, (o x.world).1 = .ok v → Comes R x (k v) (r v)) :
    Comes R x (plain o >>= k) (o >>= r) := by
  have hplain : plain o x = ((o x.world).1, x) := by
    unfold plain
    rw [show o x.world = ((o x.world).1, x.world) from Prod.ext rfl hw]
  unfold Comes
  cases hv : (o x.world).1 with
  | error e =>
    rw [bind_error (hplain.trans (congrArg (·, x) hv)), Api.bind_error (Prod.ext hv hw)]
    exact ⟨x, rfl, .refl x, nofun⟩
  | ok v =>
    rw [bind_ok (hplain.trans (congrArg (·, x) hv)), Api.bind_ok (Prod.ext hv hw)]
    exact h v hv

theorem comes_world {k : World σ μ → Watched σ μ β} {q : Api σ μ β}
    (h : Comes Q x (k x.world) q) : Comes Q x (world >>= k) q := h

theorem comes_get {r : World σ μ → Api σ μ β} {b : Watched σ μ β}
    (h : Comes Q x b (r x.world)) : Comes Q x b (MonadState.get >>= r) := h

theorem Comes.modify_congr {f g : World σ μ → World σ μ} {b : Watched σ μ Unit}
    (h : Comes Q x b (Api.modify f)) (hfg : f x.world = g x.world) : Comes Q x b (Api.modify g) := by
  unfold Comes Api.modify at h ⊢
  rwa [hfg] at h

/-- An operation, and what comes after it without need of the room there was. -/
theorem Traces.bind (h : Traces P a p) (hk : ∀ v, Traces (fun _ => True) (k v) (r v)) :
    Traces P (a >>= k) (p >>= r) := fun x hx => (h x hx).bind fun v y _ => hk v y trivial

/-- An operation, and what comes after it in the room there was. -/
theorem Attends.bind (h : Attends P a p) (hP : Kept P) (hk : ∀ v, Traces P (k v) (r v)) :
    Traces P (a >>= k) (p >>= r) :=
  fun x hx => (h x hx).bind fun v y hxy => hk v y (hP x y hxy hx)

theorem Attends.attends_bind (h : Attends P a p) (hP : Kept P) (hk : ∀ v, Attends P (k v) (r v)) :
    Attends P (a >>= k) (p >>= r) := fun x hx =>
  (h x hx).bind fun v y hxy => (hk v y (hP x y hxy hx)).imp fun _ hyz => hxy.trans hyz

theorem Traces.ite {A : Prop} [Decidable A] (ha : A → Traces P a p) (hb : ¬ A → Traces P b q) :
    Traces P (if A then a else b) (if A then p else q) := by
  split
  next h => exact ha h
  next h => exact hb h

theorem Attends.ite {A : Prop} [Decidable A] (ha : A → Attends P a p) (hb : ¬ A → Attends P b q) :
    Attends P (if A then a else b) (if A then p else q) := by
  split
  next h => exact ha h
  next h => exact hb h

/-! ### Reservations -/

theorem ask_refused (h : (x.world.reserve c n).1 = false) :
    ask c n x = (.ok false, { x with world := (x.world.reserve c n).2, refused := c :: x.refused }) := by
  unfold ask
  rw [show x.world.reserve c n = (false, (x.world.reserve c n).2) from Prod.ext h rfl]
  rfl

theorem ask_granted (h : (x.world.reserve c n).1 = true) :
    ask c n x = (.ok true,
      { x with world := (x.world.reserve c n).2, refused := x.refused.filter (· ≠ c) }) := by
  unfold ask
  rw [show x.world.reserve c n = (true, (x.world.reserve c n).2) from Prod.ext h rfl]
  rfl

/-- What is granted adds to the room there was. -/
theorem granted (h : (x.world.reserve c n).1 = true) :
    let y : Watch σ μ :=
      { x with world := (x.world.reserve c n).2, refused := x.refused.filter (· ≠ c) }
    x.Retains y ∧ y.Covers c n := by
  have hthread : ∀ t ∈ x.world.thread? c,
      (t.reserve (x.world.heap c.vm).starved n).1 = true := by
    intro t ht
    obtain ⟨i, hi, -⟩ := Option.bind_eq_some_iff.mp ht
    rw [reserve_answer _ _ _ hi, thread_eq, ht] at h
    exact h
  have hnext : ∀ t' ∈ (x.world.reserve c n).2.thread? c, ∃ t ∈ x.world.thread? c,
      t'.used = t.used ∧ t'.top.limit = max t.top.limit (t.used + n) := by
    intro t' ht'
    rw [reserve_world, thread?_modifyThread_self] at ht'
    obtain ⟨t, ht, rfl⟩ := Option.map_eq_some_iff.mp ht'
    exact ⟨t, ht, Thread.used_reserve (hthread t ht), Watch.limit_reserve (hthread t ht)⟩
  have hfree : c ∉ x.refused.filter (· ≠ c) := by simp
  have hopen : ∀ d : Context, .closed d.vm ∉ (x.world.reserve c n).2.history →
      .closed d.vm ∉ x.world.history := fun d hd => by rwa [reserve_world] at hd
  refine ⟨fun d m hd => ⟨fun hmem => hd.1 (List.mem_of_mem_filter hmem), fun hd' t' ht' => ?_⟩, hfree,
    fun _ t' ht' => ?_⟩
  · by_cases hcd : c = d
    · subst hcd
      obtain ⟨t, ht, hu, hl⟩ := hnext t' ht'
      have := hd.2 (hopen c hd') t ht
      omega
    · rw [reserve_world, thread?_modifyThread, if_neg hcd] at ht'
      exact hd.2 (hopen d hd') t' ht'
  · obtain ⟨t, ht, hu, hl⟩ := hnext t' ht'
    omega

theorem checkStack_eq {w : World σ μ} {n : Int} (hn : 0 < n) :
    c.checkStack n w = (if (w.reserve c n.toNat).1 then .ok () else .error (.stackOverflow n),
      (w.reserve c n.toNat).2) := by
  unfold Context.checkStack
  rw [if_neg (by omega)]
  split
  next w' h => rw [h]; rfl
  next w' h => rw [h]; rfl

theorem require_refused {n : Int} (hn : 0 < n) (h : (x.world.reserve c n.toNat).1 = false) :
    require c n x = (.error (.stackOverflow n),
      { x with world := (x.world.reserve c n.toNat).2, refused := c :: x.refused }) := by
  unfold require
  rw [if_neg (by omega)]
  exact bind_ok (ask_refused h)

theorem require_granted {n : Int} (hn : 0 < n) (h : (x.world.reserve c n.toNat).1 = true) :
    require c n x = (.ok (),
      { x with world := (x.world.reserve c n.toNat).2, refused := x.refused.filter (· ≠ c) }) := by
  unfold require
  rw [if_neg (by omega)]
  exact bind_ok (ask_granted h)

/-- Room that is asked for is there afterwards, beside what there was. -/
theorem require_comes (c : Context) (n : Int) (x : Watch σ μ) :
    Comes (fun y => x.Retains y ∧ (0 < n → y.Covers c n.toNat)) x (require c n) (c.checkStack n) := by
  by_cases hn : n ≤ 0
  · unfold Comes require Context.checkStack
    rw [if_pos hn, if_pos hn]
    exact ⟨x, rfl, .refl x, fun _ _ => ⟨.refl x, fun hpos => absurd hpos (by omega)⟩⟩
  · unfold Comes
    rw [checkStack_eq (by omega)]
    cases h : (x.world.reserve c n.toNat).1 with
    | false =>
      rw [require_refused (by omega) h]
      exact ⟨_, rfl, ⟨rfl, rfl, rfl⟩, nofun⟩
    | true =>
      rw [require_granted (by omega) h]
      exact ⟨_, rfl, ⟨rfl, rfl, rfl⟩, fun _ _ => ⟨(granted h).1, fun _ => (granted h).2⟩⟩

theorem attends_require (c : Context) (n : Int) : Attends P (require c n) (c.checkStack n) :=
  fun x _ => (require_comes c n x).imp fun _ h => h.1

/-- What comes after a reservation finds the room that was reserved. -/
theorem traces_require {n : Int} {k : Unit → Watched σ μ β} {r : Unit → Api σ μ β} (hn : 0 < n)
    (hk : Traces (·.Covers c n.toNat) (k ()) (r ())) :
    Traces P (require c n >>= k) (c.checkStack n >>= r) :=
  fun x _ => (require_comes c n x).bind fun _ y h => hk y (h.2 hn)

theorem attends_require_bind {n : Int} {k : Unit → Watched σ μ β} {r : Unit → Api σ μ β}
    (hn : 0 < n) (hk : Attends (·.Covers c n.toNat) (k ()) (r ())) :
    Attends P (require c n >>= k) (c.checkStack n >>= r) := fun x _ =>
  (require_comes c n x).bind fun _ y h => (hk y (h.2 hn)).imp fun _ hyz => h.1.trans hyz

/-! ### What is put on a stack -/

theorem grow_eq (h : x.Covers c n) (a : Api σ μ α) : grow c n a x = plain a x := by
  unfold grow
  rw [decide_eq_true h, Bool.not_true, Bool.or_false]

theorem traces_grow (c : Context) (n : Nat) (a : Api σ μ α) :
    Traces (·.Covers c n) (grow c n a) a := by
  intro x hx
  unfold Comes
  rw [grow_eq hx]
  exact ⟨_, rfl, ⟨rfl, rfl, rfl⟩, fun _ _ => trivial⟩

theorem shrink_push (s : Array Val) (v : Val) : (s.push v).shrink ((s.push v).size - 1) = s := by
  simp

/-- What is put on a stack and taken off again leaves no trace there. -/
theorem drop_push (w : World σ μ) (c : Context) (v : Val) :
    ((w.push c v).modifySlots c fun s => s.shrink (s.size - 1)) = w := by
  unfold World.push
  rw [modifySlots_modifySlots]
  exact modifySlots_of_fixed fun s _ => shrink_push s v

theorem beneath_eq {a : Watched σ μ Unit} (h : x.Covers c (n + 1)) (v : Val)
    (ha : ∀ y : Watch σ μ, y.Covers c n → a y = (.ok (), y)) : beneath c v a x = (.ok (), x) := by
  have hput : put c v x = (.ok (), { x with world := x.world.push c v }) :=
    grow_eq (h.less (by omega)) _
  unfold beneath
  rw [bind_ok hput, bind_ok (ha _ (h.push v))]
  unfold drop change plain Api.modify
  dsimp only
  rw [drop_push]

/-- A glance for which there is no room leaves everything else as it is. -/
theorem glance_anyway (x : Watch σ μ) (c : Context) (v : Val) :
    glance c v x = (.ok (), { x with overrun := x.overrun || !decide (x.Covers c 1) }) := by
  have hdrop := drop_push x.world c v
  unfold glance beneath
  rw [bind_ok (show put c v x = (.ok (), _) from rfl),
    bind_ok (show (pure () : Watched σ μ Unit) _ = (.ok (), _) from rfl)]
  unfold drop change plain Api.modify
  dsimp only
  rw [hdrop]

theorem glance_eq (h : x.Covers c 1) (v : Val) : glance c v x = (.ok (), x) :=
  beneath_eq h v fun _ _ => rfl

/-- A glance, and what comes after it. -/
theorem comes_glance {k : Unit → Watched σ μ α} (h : x.Covers c 1) (v : Val)
    (hk : Comes Q x (k ()) p) : Comes Q x (glance c v >>= k) p := by
  unfold Comes
  rwa [bind_ok (glance_eq h v)]

end Watched
end LuaEmbed
