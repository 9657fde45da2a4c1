import LuaEmbed.Proofs.Listing
import LuaEmbed.Proofs.Resumer

/-!
What a resume hands back. When the thread yields, its stack shows what it yielded and nothing else.
When it returns, what it returned lies on its base, above whatever was below the function that it
was started with; and everything on the base is handed back.
-/
namespace LuaEmbed

open Engine World

variable {σ μ α : Type} {co source c : Context} {w w' w₁ : World σ μ} {l : List Val}
  {vs : List Value}

/-! ### A whole stack -/

namespace Context

/-- Whatever is read from the top down to the bottom is the whole stack. -/
theorem readBatch_whole (hs : w.shown c = some l.toArray)
    (h : c.readBatch l.length none w = (.ok vs, w')) : w.ShowsAll c 1 l vs := by
  unfold readBatch at h
  by_cases h0 : (l.length : Int) = 0
  · rw [if_pos h0] at h
    obtain rfl := Except.ok.inj (Prod.mk.inj h).1
    obtain rfl := List.length_eq_zero_iff.mp (Int.ofNat_eq_zero.mp h0)
    exact .nil 1
  · rw [if_neg h0, Api.bind_ok (top_listed hs)] at h
    obtain ⟨first, w₁, hfirst, h⟩ := Api.bind_eq_ok h
    obtain ⟨hwindow, rfl⟩ := Prod.mk.inj hfirst
    obtain rfl : first = 1 := by
      have hstart : ∀ k, (none : Option Int) = some k → k ≤ Word32.greatest := nofun
      have hfits := Index.resolveWindow_fits hstart hwindow
      omega
    have hall : (w.slots c).toList.drop ((1 : Int) - 1).toNat = l ++ [] := by
      rw [slots_of_shown hs]
      simp
    obtain ⟨new, rfl, hnew⟩ := readFrom_ok (Int.le_refl 1) hall h
    exact hnew

/-- Whatever is popped down to the bottom has been the whole stack. -/
theorem popValues_whole (hs : w.shown c = some l.toArray)
    (h : c.popValues l.length w = (.ok vs, w')) :
    w.ShowsAll c 1 l vs ∧ w'.shown c = some #[] := by
  unfold popValues at h
  obtain ⟨vs', w₁, hread, h⟩ := Api.bind_eq_ok h
  obtain ⟨_, w₂, hpop, h⟩ := Api.bind_eq_ok h
  obtain ⟨hvs, rfl⟩ := Prod.mk.inj h
  obtain rfl := Except.ok.inj hvs
  refine ⟨readBatch_whole hs hread, ?_⟩
  have hs₁ := (((c.steady_readBatch _ _).related hread).shown c).trans hs
  unfold pop at hpop
  by_cases h0 : (l.length : Int) = 0
  · rw [if_pos h0] at hpop
    obtain ⟨-, rfl⟩ := Prod.mk.inj hpop
    rwa [List.length_eq_zero_iff.mp (Int.ofNat_eq_zero.mp h0)] at hs₁
  · rw [if_neg h0, Api.bind_ok (top_listed hs₁), Api.discard_eq, bind_assoc] at hpop
    obtain ⟨first, w₃, hfirst, hcut⟩ := Api.bind_eq_ok hpop
    obtain ⟨-, rfl⟩ := Prod.mk.inj hfirst
    obtain ⟨-, rfl⟩ := Prod.mk.inj hcut
    have hcut := cut_listed hs₁ ((l.length : Int) - l.length).toNat
    refine hcut.trans ?_
    rw [show ((l.length : Int) - l.length).toNat = 0 by omega, List.take_zero, Nat.zero_sub,
      List.replicate_zero, List.append_nil]

/-- What can be read can be popped down to the bottom. -/
theorem exists_popValues_whole (hs : w.shown c = some l.toArray)
    (hl : (l.length : Int) ≤ Word32.greatest)
    (hu : (StackOp.popValues l.length).Unhindered w c) :
    ∃ vs w', c.popValues l.length w = (.ok vs, w') := by
  have hcount : (StackOp.popValues l.length).IsListed := by
    refine ⟨?_, hl⟩
    unfold Word32.least
    omega
  have hagrees := StackOp.agrees_popValues hs hl hcount hu
  have hlist : ∃ l', (StackOp.popValues l.length).onList l = some l' := by
    unfold StackOp.onList
    dsimp only
    by_cases h0 : (l.length : Int) = 0
    · exact ⟨l, if_pos h0⟩
    · refine ⟨l.take 0, ?_⟩
      have hwindow : Index.window? l.length none l.length = some 0 := by
        unfold Index.window? Index.place?
        rw [if_neg (by omega), Option.getD_none, if_neg (by omega), if_pos (by omega),
          Option.filter_eq_some_iff]
        exact ⟨by congr 1; omega, decide_eq_true (by omega)⟩
      rw [if_neg h0, hwindow, Option.map_some]
  obtain ⟨l', hlist⟩ := hlist
  unfold StackOp.Agrees at hagrees
  rw [hlist] at hagrees
  obtain ⟨-, vs, hvs, -⟩ := hagrees
  exact ⟨vs, _, Prod.ext hvs rfl⟩

end Context

/-! ### Yields -/

namespace Engine

/-- The run of a thread does not stop at a yield. -/
def Next.Stays : Next → Prop
  | .exit (.yielded _) => False
  | _ => True

theorem Next.stays_or_yields (n : Next) : n.Stays ∨ ∃ ys, n = .exit (.yielded ys) := by
  cases n with
  | exit e =>
    cases e with
    | yielded ys => exact .inr ⟨ys, rfl⟩
    | _ => exact .inl trivial
  | _ => exact .inl trivial

namespace Vm

variable (vm : Vm) (t : Nat)

theorem stays_enterScript (f : Val) (p : Proto) (cells : Array Nat) (args : List Val)
    (frame : Frame) : (vm.enterScript t f p cells args frame).2.Stays := by
  unfold enterScript
  dsimp only
  split <;> exact trivial

theorem stays_enter (f : Val) (args : List Val) (m : Manner) : (vm.enter t f args m).2.Stays := by
  have hnative : ∀ f b up args frame, (vm.enterNative t f b up args frame).2.Stays := by
    intro f b up args frame
    unfold enterNative
    dsimp only
    split
    · exact trivial
    · split <;> exact trivial
  unfold enter
  dsimp only
  generalize (if m.nests = true then _ else _) = depth
  split
  · exact trivial
  · split
    · exact trivial
    · split
      · exact trivial
      · split
        · exact hnative _ _ _ _ _
        · split
          · exact stays_enterScript _ _ _ _ _ _ _
          · exact hnative _ _ _ _ _
          · exact trivial
        · exact trivial

theorem stays_closeOrDeliver (rest : List Val) (error : Option (ErrorStatus × Val)) (back : Await) :
    (vm.closeOrDeliver t rest error back).2.Stays := by
  unfold closeOrDeliver
  cases rest with
  | cons v rest => exact stays_enter _ _ _ _ _
  | nil =>
    dsimp only
    split <;> exact trivial

theorem stays_deliver (vs : List Val) : (vm.deliver t vs).2.Stays := by
  unfold deliver
  dsimp only
  split
  all_goals first | exact trivial | exact stays_closeOrDeliver _ _ _ _ _

theorem stays_settle (status : ErrorStatus) (v : Val) : (vm.settle t status v).2.Stays := by
  unfold settle
  dsimp only
  split
  · exact trivial
  · split <;> exact stays_closeOrDeliver _ _ _ _ _

theorem stays_raise (status : ErrorStatus) (v : Val) (handled : Bool) :
    (vm.raise t status v handled).2.Stays := by
  unfold raise
  dsimp only
  split
  · exact stays_settle _ _ _ _
  · split
    · exact stays_settle _ _ _ _
    · exact stays_enter _ _ _ _ _

theorem stays_runScript : (vm.runScript t).2.Stays := by
  unfold runScript
  dsimp only
  split
  · split
    · exact trivial
    · exact trivial
    · exact trivial
    · exact trivial
    · exact stays_enter _ _ _ _ _
    · split
      · split
        · exact stays_enterScript _ _ _ _ _ _ _
        · exact stays_enter _ _ _ _ _
      · exact stays_enter _ _ _ _ _
  · exact trivial

/-- What a thread yields is all that its stack shows. -/
theorem step_yielded {s : Signal} {ys : List Val} (h : (vm.step t s).2 = .exit (.yielded ys)) :
    ∃ th, (vm.step t s).1.thread? t = some th ∧ th.top.shown = some ys.toArray := by
  have hstays : ∀ {n : Next}, n.Stays → n ≠ .exit (.yielded ys) := by
    rintro n hn rfl
    exact hn
  cases s with
  | run => exact absurd h (hstays (stays_runScript vm t))
  | results vs => exact absurd h (hstays (stays_deliver vm t vs))
  | raise status v handled => exact absurd h (hstays (stays_raise vm t status v handled))
  | act a =>
    change (vm.act t a).2 = _ at h
    change ∃ th, (vm.act t a).1.thread? t = _ ∧ _
    cases a with
    | yield vs =>
      unfold act at h ⊢
      dsimp only at h ⊢
      split at h
      next hcan =>
        rw [if_pos hcan]
        obtain rfl := Exit.yielded.inj (Next.exit.inj h)
        -- There is such a thread, since one that is not there cannot yield.
        cases ht : vm.thread? t with
        | none =>
          rw [thread_eq, ht] at hcan
          cases hcan
        | some th =>
          refine ⟨_, thread?_modify ht _, ?_⟩
          have htop := Thread.top_modifyTop th fun f =>
            { f with level := .native vs.toArray, await := .yielded }
          exact (congrArg Frame.shown htop :)
      next => cases h
    | call => exact absurd h (hstays (stays_enter _ _ _ _ _))
    | protect => exact absurd h (hstays (stays_enter _ _ _ _ _))
    | _ => cases h

end Vm
end Engine

namespace World

variable {code : HostCode σ μ} {fuel : Nat} {ys : List Val}

theorem stays_meet {demand : Demand} {next : Next}
    (h : meet code c demand (drive code fuel) w = some (next, w')) : next.Stays := by
  have H : Meeting (fun _ _ => True) c fun m : Run σ μ Next =>
      ∀ w next w', m (drive code fuel) w = some (next, w') → next.Stays :=
    { after := fun _ hk _ _ _ h => by
        obtain ⟨a, w₁, -, h⟩ := Run.bind_some.mp h
        exact hk a _ _ _ h
      endHost := fun n w _ _ h => by
        obtain ⟨rfl, -⟩ := Run.onVm_some.mp h
        rw [onVm_eq]
        split <;> exact trivial
      raiseHost := fun text w _ _ h => by
        rw [raiseHost_eq] at h
        obtain ⟨rfl, -⟩ := Prod.mk.inj (Option.some.inj h)
        exact trivial
      unwind := fun _ _ _ h => by cases h
      released := fun shape id hm w _ _ h => by
        obtain ⟨_, w₁, h₁, h⟩ := Run.bind_some.mp h
        obtain ⟨rfl, -⟩ := Prod.mk.inj (Option.some.inj h)
        exact hm _ _ _ h₁ }
  have T : Traversal (fun _ => True) (TouchesIn fun _ => True) fun (α : Type) (_ : Run σ μ α) => True := by
    constructor
    case effects => exact effects_touches _
    all_goals intros; trivial
  have hanswer : ∀ f w next w', answer c f (drive code fuel) w = some (next, w') → next.Stays := by
    intro f w _ _ h
    obtain ⟨rfl, -⟩ := Run.onVm_some.mp h
    rw [onVm_eq]
    split <;> exact trivial
  have hturn : ∀ next, demand.afterTurn? = some next → ∀ w next' w',
      (Pure.pure next : Run σ μ Next) (drive code fuel) w = some (next', w') → next'.Stays := by
    rintro next hnext w _ _ ⟨⟩
    cases demand <;> cases hnext <;> exact trivial
  exact H.meet T code demand hanswer hturn (fun _ _ _ _ => trivial) (fun _ => trivial) _ _ _ h

theorem shown_of_step_yields {s : Signal}
    (h : (w.onVm c.vm fun vm => vm.step c.thread s).1 = .exit (.yielded ys)) :
    (w.onVm c.vm fun vm => vm.step c.thread s).2.shown c = some ys.toArray := by
  cases hx : w.instances[c.vm]? with
  | none =>
    rw [onVm_eq, hx] at h
    cases h
  | some x =>
    rw [onVm_answer w c.vm _ hx] at h
    obtain ⟨th, ht, hs⟩ := Vm.step_yielded x.vm c.thread h
    have hthread : (w.onVm c.vm fun vm => vm.step c.thread s).2.thread? c = some th := by
      rw [onVm_world, thread?_modifyVm, if_pos rfl, hx]
      exact ht
    unfold World.shown
    rw [hthread]
    exact hs

/-- Whenever the run of a thread stops at a yield, the stack shows what is yielded. -/
theorem shown_of_yields {next : Next} (hn : next.Stays)
    (hd : drive code fuel c next w = some (.yielded ys, w')) : w'.shown c = some ys.toArray := by
  induction fuel generalizing next w with
  | zero => cases hd
  | succ fuel ih =>
    cases next with
    | exit e =>
      obtain ⟨rfl, -⟩ := Prod.mk.inj (Option.some.inj hd)
      exact hn.elim
    | need demand =>
      obtain ⟨next, w₁, hm, hd⟩ := drive_need hd
      exact ih (stays_meet hm) hd
    | go s =>
      let r := w.onVm c.vm fun vm => vm.step c.thread s
      have hd' : drive code fuel c r.1 r.2 = some (.yielded ys, w') := hd
      rcases Next.stays_or_yields r.1 with hstays | ⟨zs, hzs⟩
      · exact ih hstays hd'
      · have hshown := shown_of_step_yields hzs
        rw [hzs] at hd'
        cases fuel with
        | zero => cases hd'
        | succ fuel =>
          obtain ⟨he, rfl⟩ := Prod.mk.inj (Option.some.inj hd')
          rwa [← Exit.yielded.inj he]

end World

/-! ### The beginning of a run -/

namespace Engine

/-- The base of a thread once its function, which was on top of these slots, has been started from a
place nested so deeply. -/
def Frame.starting (g : Frame) (s : Array Val) (depth : Nat) : Frame :=
  { g with level := .native s, await := .started, depth := depth + 1, canYield := true }

namespace Vm

variable {vm : Vm} {t size depth : Nat} {ground : Frame} {s : Array Val} {f : Val} {vals : List Val}

theorem modifyThread_congr {th : Thread} {g k : Thread → Thread} (h : vm.thread? t = some th)
    (he : g th = k th) : vm.modifyThread t g = vm.modifyThread t k := by
  rw [← setThread_thread, ← setThread_thread, thread_of_some h, he]

/-- A thread begins by applying the function on top of its stack to the arguments above it. -/
theorem beginResume_new (depth : Nat) (h : vm.thread? t = some ⟨[], ground, .ready, size⟩)
    (hg : ground.shown = some (s.push f ++ vals.toArray)) :
    vm.beginResume t vals.length depth =
      (vm.modifyThread t fun _ => ⟨[], ground.starting s depth, .ready, size⟩).enter t f vals
        { nests := false, canYield := true } := by
  have hcut : (s.push f ++ vals.toArray).size - vals.length = s.size + 1 := by
    simp
    omega
  have hslots : ground.slots = s.push f ++ vals.toArray := by
    rw [Frame.slots_eq_shown, hg]
    rfl
  have hvals : (s.push f ++ vals.toArray).toList.drop (s.size + 1) = vals := by
    rw [Array.toList_append, List.drop_left' (by simp)]
  have hf : (s.push f ++ vals.toArray).getD s.size .nil = f := by simp
  have hbelow : (s.push f ++ vals.toArray).shrink s.size = s := by
    apply Array.ext'
    simp
  have hthread : vm.modifyThread t (·.modifyTop fun g =>
      { g with
        level := .native (g.slots.shrink (g.slots.size - vals.length - 1)), await := .started
        depth := depth + 1, canYield := true }) =
      vm.modifyThread t fun _ => ⟨[], ground.starting s depth, .ready, size⟩ := by
    refine modifyThread_congr h ?_
    simp only [Thread.modifyTop, Frame.starting, hslots, hcut, Nat.add_sub_cancel, hbelow]
  unfold beginResume
  dsimp only
  rw [thread_of_some h]
  dsimp only
  rw [hthread, show Thread.slots ⟨[], ground, .ready, size⟩ = _ from hslots, hcut, hvals,
    Nat.add_sub_cancel, hf]

end Vm
end Engine

namespace ThreadHandle

variable {h : ThreadHandle} {args : List Value} {s : Array Val} {f : Val}

theorem turn_stays (h : ThreadHandle) (source : Context) (args : List Value) (w : World σ μ) :
    (h.turn source args w).next.Stays := by
  unfold turn
  dsimp only
  generalize h.loaded source args w = wl
  cases hx : wl.instances[h.thread.vm]? with
  | none =>
    rw [onVm_eq, hx]
    exact trivial
  | some x =>
    rw [onVm_answer wl h.thread.vm _ hx]
    unfold Vm.beginResume
    dsimp only
    split
    · exact trivial
    · exact Vm.stays_enter _ _ _ _ _

theorem Goes.alike_entered (G : h.Goes source args w) : w.Alike (h.entered source w) := by
  rw [G.entered]
  refine ((source.steady_owns h) w).trans ?_
  have hbooks := alike_modifyInstance (source.owns h w).2 h.thread.vm
    (f := fun x => { x with views := x.views + 1 }) fun _ => rfl
  exact hbooks.trans (alike_of_instances rfl)

/-- The arguments are pushed above what is on the stack of the thread. -/
theorem Goes.loaded_stands {st : ThreadStatus} (G : h.Goes source args w)
    (hs : w.StandsAs st h.thread s) :
    ∃ vals, (h.loaded source args w).StandsAs st h.thread (s ++ vals.toArray) ∧
      args.Forall₂ (Denotes ((h.loaded source args w).heap h.thread.vm) h.thread
        (s ++ vals.toArray)) vals := by
  have hpush : Context.pushAll h.thread args (h.entered source w) =
      (.ok (), h.loaded source args w) := pair_eq G.pushed
  cases pushAll_cases (G.alike_entered.stands hs) hpush with
  | done vals hs' _ hd => exact ⟨vals, hs', hd⟩

/-- A thread that has not been started begins by applying the function on top of its stack to the
arguments, above what is below it. -/
theorem Goes.applies (G : h.Goes source args w) (hs : w.Stands h.thread (s.push f)) :
    ∃ (vals : List Val) (v : World σ μ) (ground : Frame) (depth size : Nat),
      args.Forall₂ (Denotes ((h.loaded source args w).heap h.thread.vm) h.thread
        (s.push f ++ vals.toArray)) vals ∧
      v.thread? h.thread = some ⟨[], ground.starting s depth, .ready, size⟩ ∧
      ((h.turn source args w).next, (h.turn source args w).world) =
        v.onVm h.thread.vm fun vm =>
          vm.enter h.thread.thread f vals { nests := false, canYield := true } := by
  obtain ⟨vals, hl, hd⟩ := G.loaded_stands hs
  have hlength := hd.length_eq
  have hgranted := G.granted
  unfold turn
  dsimp only
  generalize (h.loaded source args w).heap h.thread.vm = heap at hd ⊢
  generalize h.loaded source args w = wl at hl hgranted ⊢
  obtain ⟨th, ht, hshown⟩ := Option.bind_eq_some_iff.mp hl.shown
  have hready : th.status = .ready := by
    have hr := hl.state
    unfold status? at hr
    rw [ht] at hr
    exact Option.some.inj hr
  generalize (wl.thread source).top.depth = depth at hgranted ⊢
  have hbase : th.above = [] := by
    unfold Vm.refusal? at hgranted
    dsimp only at hgranted
    rw [show (wl.vm h.thread.vm).thread h.thread.thread = th from thread_of_some ht, hready] at hgranted
    dsimp only at hgranted
    split at hgranted
    · cases hgranted
    next hempty => simpa using hempty
  obtain ⟨above, ground, status, size⟩ := th
  obtain rfl : above = [] := hbase
  obtain rfl : status = .ready := hready
  obtain ⟨x, hx, hvm⟩ := Option.bind_eq_some_iff.mp ht
  refine ⟨vals, wl.modifyThread h.thread fun _ => ⟨[], ground.starting s depth, .ready, size⟩,
    ground, depth, size, hd, ?_, ?_⟩
  · rw [thread?_modifyThread_self, ht]
    rfl
  · have hbegin := Vm.beginResume_new depth hvm hshown
    rw [← hlength] at hbegin
    unfold modifyThread
    rw [onVm_modifyVm]
    exact wl.onVm_congr (f := fun vm => vm.beginResume h.thread.thread args.length depth)
      h.thread.vm hx hbegin

/-- The body of a thread that has not been started runs above what is below its function. -/
theorem Goes.begins (G : h.Goes source args w) (hs : w.Stands h.thread (s.push f)) :
    ∃ g th, g.shown = some s ∧ (h.turn source args w).world.thread? h.thread = some th ∧
      th.InRun true .ready g [] (h.turn source args w).next := by
  obtain ⟨vals, v, ground, depth, size, -, hv, hm⟩ := G.applies hs
  obtain ⟨vm, hvm, hnext, hworld⟩ := onVm_thread hv fun vm =>
    vm.enter h.thread.thread f vals { nests := false, canYield := true }
  rw [← hm] at hnext hworld
  have hsuspended : Thread.Suspended true .ready (ground.starting s depth) []
      ⟨[], ground.starting s depth, .ready, size⟩ := ⟨rfl, .ground .started rfl fun _ => rfl⟩
  obtain ⟨th, ht, hr⟩ := Vm.enter_inRun hvm hsuspended
    (m := { nests := false, canYield := true }) (fun _ => rfl) f vals
  dsimp only at hnext hworld
  rw [hnext, hworld]
  exact ⟨_, th, rfl, ht, hr⟩

/-! ### The end of a run -/

/-- The world in which what the thread hands back lies on its stack. -/
def stopped (co : Context) (e : Exit) (w : World σ μ) : World σ μ :=
  w.modifyVm co.vm (·.endResume co.thread e)

/-- Values that are all that a stack shows are handed back: what is given is what the host sees of
them, something is given if they can be read, and then nothing is left on the stack of an
interpreter that has its owner. -/
structure HandsBack (w : World σ μ) (co : Context) (kind : List Value → Resumed) (l : List Val)
    (r : Except Error Resumed) (w' : World σ μ) : Prop where
  shown : w.shown co = some l.toArray
  whole : ∀ a, r = .ok a → ∃ vs, a = kind vs ∧ w.ShowsAll co 1 l vs
  legible : (l.length : Int) ≤ Word32.greatest → (StackOp.popValues l.length).Unhindered w co →
    ∃ a, r = .ok a
  emptied : (w.instances[co.vm]?).map (·.closed) = some false → ∀ a, r = .ok a →
    w'.shown co = some #[]

theorem handsBack_popValues {kind : List Value → Resumed} {r : Except Error Resumed}
    (hs : w.shown co = some l.toArray)
    (h : (co.popValues l.length >>= fun vs => pure (kind vs)) w = (r, w₁))
    (hw : (w.instances[co.vm]?).map (·.closed) = some false → w'.shown co = w₁.shown co) :
    HandsBack w co kind l r w' := by
  have hpopped : ∀ a, r = .ok a →
      (∃ vs, a = kind vs ∧ w.ShowsAll co 1 l vs) ∧ w₁.shown co = some #[] := by
    rintro a rfl
    obtain ⟨vs, w₂, hpop, h⟩ := Api.bind_eq_ok h
    obtain ⟨ha, rfl⟩ := Prod.mk.inj h
    obtain ⟨hshows, hempty⟩ := Context.popValues_whole hs hpop
    exact ⟨⟨vs, (Except.ok.inj ha).symm, hshows⟩, hempty⟩
  refine ⟨hs, fun a ha => (hpopped a ha).1, fun hl hu => ?_, fun ho a ha =>
    (hw ho).trans (hpopped a ha).2⟩
  obtain ⟨vs, w₂, hpop⟩ := Context.exists_popValues_whole hs hl hu
  rw [Api.bind_ok hpop] at h
  exact ⟨kind vs, (Prod.mk.inj h).1.symm⟩

theorem shown_stopped_yielded (co : Context) (ys : List Val) (w : World σ μ) :
    (stopped co (.yielded ys) w).shown co = w.shown co := by
  unfold stopped World.shown
  rw [thread?_modifyVm, if_pos rfl]
  rfl

theorem shown_stopped_returned {s : Array Val} (hs : w.shown co = some s) (rs : List Val) :
    (stopped co (.returned rs) w).shown co = some (s ++ rs.toArray) := by
  obtain ⟨th, ht, hshown⟩ := Option.bind_eq_some_iff.mp hs
  have hslots : th.top.slots = s := by
    rw [Frame.slots_eq_shown, hshown]
    rfl
  have hthread : (stopped co (.returned rs) w).thread? co =
      some (th.modifyTop fun f => f.setSlots (f.slots ++ rs.toArray)) := by
    unfold stopped
    rw [thread?_modifyVm, if_pos rfl]
    obtain ⟨x, hx, hth⟩ := Option.bind_eq_some_iff.mp ht
    rw [hx]
    exact Vm.thread?_modify hth _
  unfold World.shown
  rw [hthread, Option.bind_some, Thread.top_modifyTop, hslots]
  rfl

/-- What the thread has left of its base is still there when it returns. -/
theorem Goes.base_kept {code : HostCode σ μ} {fuel : Nat} {rs : List Val}
    (G : h.Goes source args w) (hs : w.Stands h.thread (s.push f))
    (hd : (World.drive code fuel).from (h.turn source args w) = some (.returned rs, w₁))
    (hc : Unclosed h.thread.vm w w₁) : w₁.Stands h.thread s := by
  obtain ⟨g, th, hg, ht, hr⟩ := G.begins hs
  have hran : Unclosed h.thread.vm (h.turn source args w).world w₁ :=
    hc.after (grows_turn G) (path_drive code fuel _ _ _ _ _ hd).grows
  obtain ⟨th', ht', ⟨hstatus, hframes⟩, -⟩ := (sound_drive code fuel).returns hd hran ht hr
  change w₁.thread? h.thread = some th' at ht'
  have htop : th'.top = { g with await := .idle } :=
    (List.cons.inj ((th'.frames_eq).symm.trans hframes)).1
  refine ⟨?_, ?_⟩
  · unfold World.shown
    rw [ht', Option.bind_some, htop]
    exact hg
  · unfold status?
    rw [ht', Option.map_some, hstatus]

/-- The answer of a resume is what is made of the thread's exit; and so is what its stack shows
afterwards, as long as the interpreter has its owner. -/
theorem Goes.answer {code : HostCode σ μ} {fuel : Nat} {e : Exit} {r : Except Error Resumed}
    (G : h.Goes source args w)
    (hd : (World.drive code fuel).from (h.turn source args w) = some (e, w₁))
    (hr : h.resume source args (World.drive code fuel) w = some (r, w')) :
    handBack h.thread e w₁ = (r, (handBack h.thread e w₁).2) ∧
    ((w₁.instances[h.thread.vm]?).map (·.closed) = some false →
      ∀ c, w'.shown c = (handBack h.thread e w₁).2.shown c) := by
  rw [G.resume, hd, Option.bind_some] at hr
  dsimp only at hr
  obtain ⟨⟨_, w₂⟩, hdrop, hr⟩ := Option.map_eq_some_iff.mp hr
  obtain ⟨rfl, rfl⟩ := Prod.mk.inj hr
  refine ⟨rfl, fun ho c => ?_⟩
  rw [dropView_of_owned (G.view_open hd) ((closed_handBack h.thread e w₁ _).trans ho)] at hdrop
  obtain rfl := (Prod.mk.inj (Option.some.inj hdrop)).2
  exact shown_modifyInstance _ c _ (fun x => { x with views := x.views - 1 }) fun _ => rfl

/-- Whenever a thread stops at a yield, a resume hands back what it yielded. When a thread that has
just been started returns, a resume hands back everything on its base: what was below the function,
and above it what the function returned. -/
theorem resume_hands_back (code : HostCode σ μ) (fuel : Nat) {e : Exit}
    {r : Except Error Resumed} (G : h.Goes source args w)
    (hd : (World.drive code fuel).from (h.turn source args w) = some (e, w₁))
    (hr : h.resume source args (World.drive code fuel) w = some (r, w')) :
    (∀ ys, e = .yielded ys → HandsBack (stopped h.thread e w₁) h.thread .yielded ys r w') ∧
    ∀ s f rs, e = .returned rs → w.Stands h.thread (s.push f) →
      Unclosed h.thread.vm w w₁ →
      HandsBack (stopped h.thread e w₁) h.thread .returned (s.toList ++ rs) r w' ∧
      ∀ vs, r = .ok (.returned vs) → (vs.length = rs.length ↔ s = #[]) := by
  obtain ⟨hback, hafter⟩ := G.answer hd hr
  have hclosed : (((stopped h.thread e w₁).instances[h.thread.vm]?).map (·.closed)) =
      (w₁.instances[h.thread.vm]?).map (·.closed) := by
    unfold stopped modifyVm
    rw [instances_modifyInstance_self, Option.map_map]
    rfl
  rw [← hclosed] at hafter
  refine ⟨?_, ?_⟩
  · rintro ys rfl
    have hshown := World.shown_of_yields (turn_stays h source args w) hd
    exact handsBack_popValues ((shown_stopped_yielded h.thread ys w₁).trans hshown) hback
      fun ho => hafter ho h.thread
  · rintro s f rs rfl hs hc
    have hshown := shown_stopped_returned (G.base_kept hs hd hc).shown rs
    rw [show s ++ rs.toArray = (s.toList ++ rs).toArray by simp] at hshown
    have hdepth : (stopped h.thread (.returned rs) w₁).depth h.thread = (s.toList ++ rs).length := by
      rw [depth_of_shown hshown, List.size_toArray]
    unfold handBack at hback
    have H : HandsBack (stopped h.thread (.returned rs) w₁) h.thread .returned (s.toList ++ rs) r w' :=
      handsBack_popValues hshown (hdepth ▸ hback) fun ho => hafter ho h.thread
    refine ⟨H, fun vs hvs => ?_⟩
    obtain ⟨vs', he, hall⟩ := H.whole _ hvs
    obtain rfl := Resumed.returned.inj he
    rw [← hall.length_eq, List.length_append, ← Array.size_eq_zero_iff, Array.length_toList]
    omega

end ThreadHandle

/-! ### A coroutine with something below its function -/

/-- What a thread returned, if it did. -/
def Engine.Exit.returned? : Exit → Option (List Val)
  | .returned vs => some vs
  | _ => none

theorem Engine.Exit.eq_of_returned? {e : Exit} {rs : List Val} (h : e.returned? = some rs) :
    e = .returned rs := by
  cases e with
  | returned vs => exact congrArg _ (Option.some.inj h)
  | _ => cases h

namespace World

/-- A new interpreter with a coroutine that has not been started. -/
def stocked (s : Array Val) : World Unit Unit where
  instances :=
    #[{ vm := { freshVm 0 with threads := #[{}, .new s] }
        chunkName := .empty }]
  memory := ()
  subscriber _ m := m

/-- The coroutine's function gives back what it is given. -/
theorem stocked_goes :
    paired.coroutine.Goes ⟨0, 0⟩ [.int 7] (stocked #[.int 1, .builtin .echoing]) ∧
    (stocked #[.int 1, .builtin .echoing]).Stands ⟨0, 1⟩ (#[.int 1].push (.builtin .echoing)) ∧
    ∃ w₁, (World.drive HostCode.silent 5).from
        (paired.coroutine.turn ⟨0, 0⟩ [.int 7] (stocked #[.int 1, .builtin .echoing])) =
          some (.returned [.int 7], w₁) ∧ w₁.history = [.opened ⟨⟨0, 1⟩, 0⟩] := by
  refine ⟨⟨by decide +kernel, by decide +kernel, by decide, by decide +kernel, by decide +kernel⟩,
    ⟨by decide +kernel, by decide +kernel⟩, ?_⟩
  have h : ((World.drive HostCode.silent 5).from
      (paired.coroutine.turn ⟨0, 0⟩ [.int 7] (stocked #[.int 1, .builtin .echoing]))).map
        (fun p => (p.1.returned?, p.2.history)) =
          some (some [.int 7], [.opened ⟨⟨0, 1⟩, 0⟩]) := by
    decide +kernel
  obtain ⟨⟨e, w₁⟩, hd, he⟩ := Option.map_eq_some_iff.mp h
  obtain ⟨he, hh⟩ := Prod.mk.inj he
  obtain rfl := Exit.eq_of_returned? he
  exact ⟨w₁, hd, hh⟩

end World

/-- The numbers that a resume gives when a thread has returned. -/
def Resumed.returned? : Resumed → Option (List (Option Int64))
  | .returned vs => some (vs.map Value.asInt?)
  | .yielded _ => none

namespace ThreadHandle

theorem resume_hands_back_echoing :
    ∃ r w₁ w', paired.coroutine.resume ⟨0, 0⟩ [.int 7] (World.drive HostCode.silent 5)
        (stocked #[.int 1, .builtin .echoing]) = some (r, w') ∧
      HandsBack w₁ ⟨0, 1⟩ .returned [.int 1, .int 7] r w' := by
  obtain ⟨hgoes, hstands, w₁, hd, hh⟩ := stocked_goes
  have h : (paired.coroutine.resume ⟨0, 0⟩ [.int 7] (World.drive HostCode.silent 5)
      (stocked #[.int 1, .builtin .echoing])).isSome = true := by
    decide +kernel
  obtain ⟨⟨r, w'⟩, hr⟩ := Option.isSome_iff_exists.mp h
  have hopen : Unclosed 0 (stocked #[.int 1, .builtin .echoing]) w₁ :=
    unclosed_of_not_mem List.nil_suffix (by rw [hh]; decide)
  exact ⟨r, _, w', hr, ((resume_hands_back HostCode.silent 5 hgoes hd hr).2 #[.int 1] _ _ rfl
    hstands hopen).1⟩

/-- What is below the function is handed back as if the function had returned it, and is gone from
the stack. -/
theorem base_handed_back :
    paired.coroutine.Goes ⟨0, 0⟩ [.int 7] (stocked #[.int 1, .builtin .echoing]) ∧
    (stocked #[.int 1, .builtin .echoing]).Stands ⟨0, 1⟩ (#[.int 1].push (.builtin .echoing)) ∧
    (∃ w₁, (World.drive HostCode.silent 5).from
        (paired.coroutine.turn ⟨0, 0⟩ [.int 7] (stocked #[.int 1, .builtin .echoing])) =
          some (.returned [.int 7], w₁)) ∧
    ∃ vs w', paired.coroutine.resume ⟨0, 0⟩ [.int 7] (World.drive HostCode.silent 5)
        (stocked #[.int 1, .builtin .echoing]) = some (.ok (.returned vs), w') ∧
      vs.map Value.asInt? = [some 1, some 7] ∧ w'.shown ⟨0, 1⟩ = some #[] := by
  obtain ⟨hgoes, hstands, w₁, hd, -⟩ := stocked_goes
  refine ⟨hgoes, hstands, ⟨w₁, hd⟩, ?_⟩
  have h : (paired.coroutine.resume ⟨0, 0⟩ [.int 7] (World.drive HostCode.silent 5)
      (stocked #[.int 1, .builtin .echoing])).map
        (fun p => (p.1.toOption.bind Resumed.returned?, p.2.shown ⟨0, 1⟩)) =
          some (some [some 1, some 7], some #[]) := by
    decide +kernel
  obtain ⟨⟨r, w'⟩, hr, he⟩ := Option.map_eq_some_iff.mp h
  obtain ⟨he, hs⟩ := Prod.mk.inj he
  cases r with
  | error e => cases he
  | ok a =>
    cases a with
    | yielded vs => cases he
    | returned vs => exact ⟨vs, w', hr, Option.some.inj he, hs⟩

end ThreadHandle
end LuaEmbed
