import LuaEmbed.Proofs.CallLaws
import LuaEmbed.Proofs.Callwise
import LuaEmbed.Proofs.Collecting

/-!
Operations that only look. Some of them put what they look at on a stack for a moment, or something
else that they need; whether they succeed or fail, afterwards every stack is as it was, and all but
one of them are done without any code being run. But where one of them has the engine make an object, for
a new thread or to ask a userdata for its name, the collector may take its turn before.
-/
namespace LuaEmbed

open Engine World

variable {σ μ α : Type} {c : Context} {w w' w₁ : World σ μ}

/-- The operations that look at stacks. -/
def StackOp.observes : StackOp α → Bool
  | .top | .resolve _ | .checkStack _ | .typeOf _ | .rawLen _ | .read _ | .readBatch _ _ | .validate _
  | .readForeign _ | .newThread | .currentThread | .sameVm _ | .belongs _ | .status _ => true
  | _ => false

/-- The one of them that makes something. -/
def StackOp.spawns : StackOp α → Bool
  | .newThread => true
  | _ => false

theorem Act.discard_some {m : Act σ μ α} {d : Drive σ μ} {r : Except Error Unit}
    (h : Functor.discard m d w = some (r, w')) :
    ∃ p, m d w = some (p, w') ∧ r = p.map fun _ => () := by
  have hd : Functor.discard m = (m >>= fun _ => Pure.pure ()) := by
    simp [Functor.discard, Functor.mapConst]
    rfl
  rw [hd] at h
  rcases Act.bind_some.mp h with ⟨a, w₁, hm, he⟩ | ⟨e, hm, rfl⟩
  · obtain ⟨rfl, rfl⟩ := Prod.mk.inj (Option.some.inj he)
    exact ⟨.ok a, hm, rfl⟩
  · exact ⟨.error e, hm, rfl⟩

namespace World

/-- Every object is as it was. -/
def SameObjects (w w' : World σ μ) : Prop := ∀ i, w'.heap i = w.heap i

instance : IsPreorder (World σ μ) SameObjects where
  refl _ _ := rfl
  trans _ _ _ h k i := (k i).trans (h i)

/-- Every thread that there was is as it was, with every slot that it shows, and every object. -/
structure LeftAlone (w w' : World σ μ) : Prop where
  threads : w.Unmoved w'
  objects : w.SameObjects w'

theorem leftAlone_of_steady {a : Api σ μ α} (hq : a.QuietIn fun _ => False) (hs : a.Steady)
    (w : World σ μ) : w.LeftAlone (a w).2 :=
  ⟨unmoved_touches (hq w), (hs w).heap⟩

end World

namespace Context

theorem steady_rawLen (c : Context) (i : Int) : Api.Steady (c.rawLen i : Api σ μ Nat) :=
  (c.steady_resolve i).bind fun _ => .get

theorem steady_readForeign (c : Context) (i : Int) :
    Api.Steady (c.readForeign i : Api σ μ (Option Value)) := by
  unfold readForeign
  refine (c.steady_resolve i).bind fun pos => (c.steady_checkStack 2).bind fun _ w => ?_
  cases w.foreignOf? c (w.at_ c pos) with
  | none => exact .refl w
  | some id => exact alike_retain w (.foreign id)

theorem steady_status (c : Context) (h : ThreadHandle) :
    Api.Steady (h.status c : Api σ μ CoroutineStatus) := by
  intro w
  unfold ThreadHandle.status
  split
  · exact .refl w
  · split <;> exact .refl w

theorem objects_captureTop {v : World σ μ → Val × World σ μ} (hv : ∀ w, SameObjects w (v w).2) :
    Api.Keeps SameObjects (c.captureTop v) := by
  unfold captureTop
  have hcheck : Api.Keeps SameObjects (c.checkStack 2 : Api σ μ Unit) :=
    fun w => (c.steady_checkStack 2 w).heap
  refine hcheck.bind fun _ => Api.Keeps.bind (.modify fun w i => ?_) fun _ =>
    Api.Keeps.bind (fun w i => rfl) fun top w i => ?_
  · exact (heap_push _ c i _).trans (hv w i)
  · exact (heap_modifySlots _ c i _).trans ((c.steady_capture top w).heap i)

/-- The thread that was put on the stack to be captured is gone from it, captured or not. -/
theorem leftAlone_captureTop {v : World σ μ → Val × World σ μ}
    (hv : ∀ {A : Context → Prop} w, TouchesIn A w (v w).2) (hh : ∀ w, SameObjects w (v w).2)
    (w : World σ μ) : w.LeftAlone (c.captureTop v w).2 := by
  refine ⟨unmoved_restored (quiet_captureTop (A := (· = c)) c rfl hv w) fun st s hs => ?_,
    objects_captureTop hh w⟩
  rcases hroom : c.checkStack 2 w with ⟨e | _, w₁⟩
  · unfold captureTop
    rw [Api.bind_error hroom]
    exact ((c.steady_checkStack 2).related hroom).stands hs |>.shown
  · have hpushed : ((v w₁).2.push c (v w₁).1).StandsAs st c (s.push (v w₁).1) :=
      ((unmoved_touches (hv w₁)).stands (((c.steady_checkStack 2).related hroom).stands hs)).push _
    unfold captureTop
    rw [Api.bind_ok hroom, Api.bind_ok (show Api.modify _ w₁ = (.ok (), (v w₁).2.push c (v w₁).1) from rfl),
      Api.bind_ok (show c.top _ = (.ok _, _) from rfl), hpushed.depth]
    have hcaptured := (c.steady_capture (s.push (v w₁).1).size _).stands hpushed
    generalize c.capture (s.push (v w₁).1).size _ = p at hcaptured ⊢
    obtain ⟨r, w₂⟩ := p
    unfold World.truncate
    rw [shown_modifySlots_self, hcaptured.shown]
    simp

theorem leftAlone_newThread (w : World σ μ) : w.LeftAlone (c.newThread w).2 := by
  refine leftAlone_captureTop (fun w => ?_) (fun w i => ?_) w
  · rw [onVm_world]
    exact .single (.spawn w c.vm _)
  · rw [onVm_world]
    unfold World.heap World.vm modifyVm
    rw [instances_modifyInstance]
    split
    · cases w.instances[i]? <;> rfl
    · rfl

theorem leftAlone_currentThread (w : World σ μ) : w.LeftAlone (c.currentThread w).2 :=
  leftAlone_captureTop (fun _ => .refl) (fun _ _ => rfl) w

/-- Whatever becomes of the metamethod that a length may take, the stack is as it was. -/
theorem stands_len {d : Drive σ μ} {s : Array Val} {i : Int} {r : Except Error Value}
    (S : Sound .ready c d) (hs : w.Stands c s) (h : c.len i d w = some (r, w'))
    (hc : Unclosed c.vm w w') : w'.Stands c s := by
  unfold len at h
  rcases Act.bind_some.mp h with ⟨pos, w₁, hpos, h₁⟩ | ⟨e, hpos, rfl⟩
  case inr => exact ((c.steady_resolve i).related (Act.api_eq_some.mp hpos)).stands hs
  replace hs := ((c.steady_resolve i).related (Act.api_eq_some.mp hpos)).stands hs
  have hresolved : Touches w w₁ := Api.Keeps.related (c.quiet_resolve i) (Act.api_eq_some.mp hpos)
  rcases Act.bind_some.mp h₁ with ⟨_, w₂, hroom, h₂⟩ | ⟨e, hroom, rfl⟩
  case inr => exact ((c.steady_checkStack 2).related (Act.api_eq_some.mp hroom)).stands hs
  replace hs := ((c.steady_checkStack 2).related (Act.api_eq_some.mp hroom)).stands hs
  have hchecked : Touches w₁ w₂ := Api.Keeps.related (c.quiet_checkStack 2) (Act.api_eq_some.mp hroom)
  rw [Act.top_bind, Act.update_bind, hs.depth] at h₂
  -- The function and the value stand on the stack, and the call takes them off.
  have hs₃ : ((w₂.push c (.builtin .lengthOfFirst)).push c (w₂.at_ c pos)).Stands c
      (s.push (.builtin .lengthOfFirst) ++ [w₂.at_ c pos].toArray) := (hs.push _).push _
  have hcalled : ∀ {o : Except Error Int} {w₄ : World σ μ},
      c.protectedCall 1 (.fixed 1) s.size d ((w₂.push c (.builtin .lengthOfFirst)).push c (w₂.at_ c pos)) =
        some (o, w₄) → Unclosed c.vm w w₄ →
      (∀ e, o = .error e → w₄.Stands c s) ∧
        ∀ k, o = .ok k → ∃ t, w₄.Stands c (s ++ t) := by
    intro o w₄ hcall hc₄
    have hbefore := hchecked.history.trans hresolved.history
    have hends : Applied _ _ _ _ [w₂.at_ c pos] _ _ _ _ :=
      protectedCall_cases S hs₃ hcall (hc₄.of_history hbefore rfl)
    cases hends with
    | refused e hroom _ => exact absurd hroom nofun
    | raised e _ hs₄ => exact ⟨fun _ _ => hs₄, nofun⟩
    | returned rs _ _ _ _ hs₄ => exact ⟨nofun, fun _ _ => ⟨_, hs₄⟩⟩
  rcases Act.bind_some.mp h₂ with ⟨_, w₄, hcall, h₃⟩ | ⟨e, hcall, rfl⟩
  · obtain ⟨p, hcall, hp⟩ := Act.discard_some hcall
    obtain ⟨o, w₅, hread, h₄⟩ := Act.lift_bind_some.mp h₃
    obtain ⟨-, rfl⟩ := Prod.mk.inj (Option.some.inj h₄)
    have hread : c.read (-1) w₄ = (o, w₅) := Option.some.inj hread
    have hquiet : Touches w₄ w₅ := Api.Keeps.related (c.quiet_read (-1)) hread
    cases p with
    | error e => cases hp
    | ok k =>
      obtain ⟨t, hs₄⟩ := (hcalled hcall (hc.of_history rfl hquiet.history.symm)).2 k rfl
      exact stands_cut (((c.steady_read (-1)).related hread).stands hs₄)
  · obtain ⟨p, hcall, hp⟩ := Act.discard_some hcall
    cases p with
    | error e => exact (hcalled hcall hc).1 e rfl
    | ok k => cases hp

end Context

namespace StackOp

/-- An operation that looks leaves everything as it was. -/
theorem leftAlone {o : StackOp α} (ho : o.observes = true) (c : Context) (w : World σ μ) :
    w.LeftAlone (o.perform c w).2 := by
  cases o with
  | top => exact leftAlone_of_steady (c.quiet_top) (c.steady_top) w
  | resolve i => exact leftAlone_of_steady (c.quiet_resolve i) (c.steady_resolve i) w
  | checkStack n => exact leftAlone_of_steady (c.quiet_checkStack n) (c.steady_checkStack n) w
  | typeOf i => exact leftAlone_of_steady (c.quiet_typeOf i) (c.steady_typeOf i) w
  | rawLen i => exact leftAlone_of_steady (c.quiet_rawLen i) (c.steady_rawLen i) w
  | read i => exact leftAlone_of_steady (c.quiet_read i) (c.steady_read i) w
  | readBatch n i => exact leftAlone_of_steady (c.quiet_readBatch n i) (c.steady_readBatch n i) w
  | validate h => exact leftAlone_of_steady (c.quiet_validate h) (c.steady_validate h) w
  | readForeign i => exact leftAlone_of_steady (c.quiet_readForeign i) (c.steady_readForeign i) w
  | sameVm d => exact leftAlone_of_steady (c.quiet_sameVm d) (c.steady_sameVm d) w
  | belongs h => exact leftAlone_of_steady (c.quiet_owns h) (c.steady_owns h) w
  | status h => exact leftAlone_of_steady (c.quiet_status h) (c.steady_status h) w
  | newThread => exact c.leftAlone_newThread w
  | currentThread => exact c.leftAlone_currentThread w
  | _ => cases ho

/-- What an operation that looks puts on a stack for a moment finds room there, and is gone again in
the end. -/
theorem observes_traced {o : StackOp α} (ho : o.observes = true) (c : Context) (x : Watch σ μ) :
    ∃ y, Watched.onStack c o x = ((o.perform c x.world).1, y) ∧ x.Minds (o.perform c x.world).2 y ∧
      x.world.LeftAlone y.world := by
  have hplain : o.converts = false := by
    cases o with
    | load | loadNamed => cases ho
    | _ => rfl
  obtain ⟨y, hy, hm, -⟩ := Watched.traces_onStack c o x fun h => by rw [hplain] at h; cases h
  exact ⟨y, hy, hm, hm.world ▸ leftAlone ho c x.world⟩

end StackOp

namespace ThreadHandle

/-- A view that is opened is noted in the books alone. -/
theorem leftAlone_view (h : ThreadHandle) (held : Bool) (w : World σ μ) :
    w.LeftAlone (h.view held w).2 := by
  unfold view
  split
  · exact ⟨.refl w, fun _ => rfl⟩
  · exact ⟨unmoved_of_thread? fun d => thread?_modifyInstance w _ d _ fun _ => rfl,
      (alike_modifyInstance w h.thread.vm (f := fun x => { x with views := x.views + 1 }) fun _ => rfl).heap⟩

end ThreadHandle

/-- An operation without a run has no thread run. -/
theorem World.not_asks_api (a : Api σ μ α) (d : Drive σ μ) (w : World σ μ) (m : Moment σ μ) :
    ¬ (Run.api a).Asks d w m :=
  fun h => nomatch h _ (Run.lays_onWorld a w)

namespace StackOp

/-- The engine makes a text for each name of a userdata that is looked at, and nothing else. -/
theorem maker?_none {o : StackOp α} (ho : o.observes = true) (hnew : o.spawns = false)
    (hnames : ∀ v ∈ o.looksAt w c, w.asksName c v = false) :
    (Op.stack c o : Op σ μ _).maker? w = none := by
  have hany : (o.looksAt w c).any (w.asksName c) = false :=
    List.any_eq_false.mpr fun v hv => by rw [hnames v hv]; exact Bool.false_ne_true
  have hmakes : o.makes w c = false := by
    unfold makes
    cases o with
    | newThread => cases hnew
    | push | pushAll | getGlobal | setGlobal | load | loadNamed | tryLoad => cases ho
    | _ => exact Bool.and_eq_false_iff.mpr (.inr hany)
  unfold Op.maker?
  exact if_neg (by rw [hmakes]; exact Bool.false_ne_true)

/-- An operation that only looks. What it puts on a stack for a moment is taken off again on every way that
it can go, and afterwards every thread is as it was, with its slots, and every object. It runs nothing
itself. Unless it makes a thread or looks at a userdata that may have a name, nothing is run at all;
otherwise the collector may take its turn before, on the same stack: only the finalizers of objects that
nobody can reach are called, and the stack stays as it was. -/
structure LooksOnly (code : HostCode σ μ) (fuel : Nat) (c : Context) (o : StackOp α) : Prop where
  traced : ∀ x : Watch σ μ, ∃ y, Watched.onStack c o x = ((o.perform c x.world).1, y) ∧
    x.Minds (o.perform c x.world).2 y ∧ x.world.LeftAlone y.world
  inert : ∀ d w m, ¬ (Op.stack c o : Op σ μ _).perform.Asks d w m
  quiet : o.spawns = false → ∀ w : World σ μ, (∀ v ∈ o.looksAt w c, w.asksName c v = false) →
    ∀ d, (Op.stack c o).turn d w = some ((), w) ∧ ∀ m, ¬ (Op.stack c o).turn.Asks d w m
  pauses : ∀ d w m, (Op.stack c o : Op σ μ _).turn.Asks d w m → m = ⟨c, .need .pause, w⟩
  finalizes : ∀ d w m, (meet code c .pause).Asks d w m →
    w.takesTurn c = true ∧ ∃ v ∈ w.lostTo c, FinalizerOf c v m
  leaves : ∀ {st s r} {w w' : World σ μ}, w.StandsAs st c s →
    (st ≠ .ready → Throughout code (Unharmed st c) ⟨c, .need .pause, w⟩) →
    (Program.ask (Op.stack c o)).perform (drive code fuel) w = some (r, w') → Unclosed c.vm w w' →
    w'.StandsAs st c s

theorem asks_pause (code : HostCode σ μ) (c : Context) (d : Drive σ μ) (w : World σ μ) :
    (meet code c .pause).AsksAt (fun m => w.takesTurn c = true ∧ ∃ v ∈ w.lostTo c, FinalizerOf c v m) d w :=
  Run.asksAt_bind_mute (asks_turn c w) fun _ _ => Run.asksAt_pure _

theorem looksOnly {o : StackOp α} (ho : o.observes = true) (code : HostCode σ μ) (fuel : Nat)
    (c : Context) : o.LooksOnly code fuel c where
  traced := observes_traced ho c
  inert := not_asks_api _
  quiet hnew _ hnames d := ⟨Op.turn_idle (maker?_none ho hnew hnames) d,
    Op.not_asks_turn (maker?_none ho hnew hnames)⟩
  pauses d w _ h := (Op.asks_turn_stack o d w).holds h
  finalizes d w _ h := (asks_pause code c d w).holds h
  leaves {st s r w w'} hs hP h hc := by
    obtain ⟨_, w₁, hturn, h₁⟩ := Run.bind_some.mp h
    obtain ⟨a, w₂, hop, hend⟩ := Run.bind_some.mp h₁
    obtain ⟨-, rfl⟩ := Prod.mk.inj (Option.some.inj hend)
    obtain rfl : (o.perform c w₁).2 = w₂ := (Prod.mk.inj (Option.some.inj hop)).2
    have halone := (leftAlone ho c w₁).threads
    have hhistory : (o.perform c w₁).2.history = w₁.history :=
      TouchesIn.history (StackOp.quiet (A := fun _ => True) c o trivial (fun _ _ => trivial) w₁)
    refine halone.stands ?_
    rcases Op.turn_stack hturn with rfl | ⟨e, hd⟩
    · exact hs
    · exact hs.paused hP hd (hc.of_history rfl hhistory.symm)

end StackOp

namespace World

/-- A userdata on a stack, under a metatable whose name is a number and whose length fails. The collector
takes its turn whenever it can. -/
def nameless : World Unit Unit where
  instances :=
    let (_, h) := (freshVm 0).heap.newTable {}
    let h := (h.rawSetText (.table 2) "__name" (.int 5)).rawSetText (.table 2) "__len"
      (.builtin (.refusing "no"))
    let (u, h) := h.newUserdata ⟨.blob, 16, some 2⟩
    #[{ vm := { heap := h, threads := #[{ ground := { level := .native #[.int 1, u] } }] }
        chunkName := .empty }]
  memory := ()
  subscriber _ m := m
  due _ _ := true

/-- A userdata on a stack, under a metatable without a name, and a table that nobody can reach any more. Its
finalizer is a script that keeps the table in a variable. -/
def bereft : World Unit Unit where
  instances :=
    let script := Proto.mk #[.getLocal 0, .setUpvalue 0, .ret 0] #[1, 1, 1] #[] #[⟨"kept", false, 0⟩] 1 false
      2 none ⟨.empty, .empty, 0⟩
    let (kept, h) := (freshVm 0).heap.newCell .nil
    let (f, h) := h.newClosure (.script script #[kept])
    let (m, h) := h.newTable {}
    let h := h.rawSetText m "__gc" f
    let (u, h) := h.newUserdata ⟨.blob, 16, some 2⟩
    let (lost, h) := h.newTable {}
    #[{ vm :=
          { heap := h.setMetatable lost (some 2)
            threads := #[{ ground := { level := .native #[u] } }] }
        chunkName := .empty }]
  memory := ()
  subscriber _ m := m
  due _ _ := true

end World
end LuaEmbed
