import LuaEmbed.Proofs.Applying
import LuaEmbed.Proofs.Serving

/-!
The protocol of host functions. A function gets what it is called with and hands on what it leaves;
so for a list function that maps primitive values to primitive values, pushing and calling it is
applying it.
-/
namespace LuaEmbed

open Engine World

/-- A value that is copied between a host and a stack, and refers to nothing. -/
def Value.IsPrimitive : Value → Bool
  | .nil | .bool _ | .int _ | .float _ | .text _ => true
  | _ => false

variable {σ μ : Type} {c : Context} {w w' w₁ : World σ μ} {st : Array Val} {u : Val} {v : Value}
  {shape : FunctionShape} {id k n : Nat} {s : σ}

namespace World

theorem shows_primitive {h : Heap} {stack : Array Val} {pos : Int} {v' : Value}
    (hv : v.IsPrimitive = true) (hd : Denotes h c stack v u) (hs : w.Shows c pos u v') : v' = v := by
  cases v with
  | nil | bool | int | float | text =>
    obtain rfl := hd
    exact hs
  | _ => cases hv

theorem showsAll_primitives {h : Heap} {stack : Array Val} {pos : Int} {vs vs' : List Value}
    {us : List Val} (hv : ∀ v ∈ vs, v.IsPrimitive = true) (hd : vs.Forall₂ (Denotes h c stack) us)
    (hs : w.ShowsAll c pos us vs') : vs' = vs := by
  induction hd generalizing pos vs' with
  | nil =>
    cases hs
    rfl
  | cons h _ ih =>
    cases hs with
    | cons h' hs =>
      rw [shows_primitive (hv _ (List.mem_cons_self ..)) h h',
        ih (fun v hmem => hv v (List.mem_cons_of_mem _ hmem)) hs]

theorem not_thread_of_primitive {h : Heap} {stack : Array Val} {vs : List Value} {us : List Val}
    (hv : ∀ v ∈ vs, v.IsPrimitive = true) (hd : vs.Forall₂ (Denotes h c stack) us) (t : Nat) :
    .thread t ∉ us := by
  intro hmem
  induction hd with
  | nil => cases hmem
  | @cons v u _ _ h _ ih =>
    rcases List.mem_cons.mp hmem with rfl | hmem
    · have hp := hv v (List.mem_cons_self ..)
      cases v with
      | nil | bool | int | float | text => exact Val.noConfusion (show Val.thread t = _ from h)
      | _ => cases hp
    · exact ih (fun v hv' => hv v (List.mem_cons_of_mem _ hv')) hmem

end World

namespace Context

/-! ### Pushing -/

theorem functions_checkStack (k : Int) : (c.checkStack k w).2.functions = w.functions := by
  unfold checkStack
  split
  · rfl
  · have hsame : (w.reserve c k.toNat).2.functions = w.functions := by
      rw [reserve_world]
      rfl
    cases hr : w.reserve c k.toNat with
    | mk ok w' =>
      rw [hr] at hsame
      cases ok <;> exact hsame

theorem push_primitive (hv : v.IsPrimitive = true) (h : w.Grants c 3) :
    ∃ w₁, c.push v w = (.ok (), w₁) ∧ w₁.functions = w.functions ∧
      ∀ k, w.Grants c (k + 1) → w₁.Grants c k := by
  obtain ⟨w₁, hroom, hi⟩ := checkStack_intact h (show (3 : Int) ≤ (3 : Nat) by decide)
  have hf : w₁.functions = w.functions := by
    have hsame := functions_checkStack (c := c) (w := w) 3
    rwa [hroom] at hsame
  have hpush : ∀ u, (w₁.push c u).functions = w.functions ∧
      ∀ k, w.Grants c (k + 1) → (w₁.push c u).Grants c k := fun u =>
    ⟨hf, fun k hk => (hi.grants c _ hk).push u⟩
  unfold push
  rw [Api.bind_ok hroom]
  cases v with
  | nil | bool | int | float | text => exact ⟨_, rfl, hpush _⟩
  | _ => cases hv

theorem pushEach_primitives {vs : List Value} (hv : ∀ v ∈ vs, v.IsPrimitive = true)
    (h : w.Grants c (vs.length + 2)) :
    ∃ w₁, c.pushEach vs w = (.ok (), w₁) ∧ w₁.functions = w.functions ∧
      ∀ k, w.Grants c (vs.length + k) → w₁.Grants c k := by
  induction vs generalizing w with
  | nil => exact ⟨w, rfl, rfl, fun k hk => by rwa [List.length_nil, Nat.zero_add] at hk⟩
  | cons v vs ih =>
    rw [List.length_cons] at h
    obtain ⟨w₁, hpush, hf, hg⟩ := push_primitive (hv v (List.mem_cons_self ..)) (h.less (by omega))
    obtain ⟨w₂, hrest, hf₂, hg₂⟩ := ih (fun v hmem => hv v (List.mem_cons_of_mem _ hmem))
      (hg _ (by rwa [Nat.add_right_comm] at h))
    refine ⟨w₂, (Api.bind_ok hpush).trans hrest, hf₂.trans hf, fun k hk => hg₂ k (hg _ ?_)⟩
    rwa [List.length_cons, Nat.add_right_comm] at hk

theorem pushAll_primitives {vs : List Value} (hv : ∀ v ∈ vs, v.IsPrimitive = true)
    (hshort : vs.length ≤ Word32.greatest) (h : w.Grants c (vs.length + 2)) :
    ∃ w₁, c.pushAll vs w = (.ok (), w₁) ∧ w₁.functions = w.functions ∧
      ∀ k, w.Grants c (vs.length + k) → w₁.Grants c k := by
  obtain ⟨w₁, hroom, hi⟩ := checkStack_intact h (show (vs.length : Int) ≤ (vs.length + 2 : Nat) by omega)
  have hf : w₁.functions = w.functions := by
    have hsame := functions_checkStack (c := c) (w := w) vs.length
    rwa [hroom] at hsame
  have hfor : c.checkStackFor vs.length w = (.ok (), w₁) := by
    unfold checkStackFor
    rw [if_neg (Int.not_lt.mpr hshort)]
    exact hroom
  obtain ⟨w₂, hpush, hf₂, hg⟩ := pushEach_primitives hv (hi.grants c _ h)
  exact ⟨w₂, (Api.bind_ok hfor).trans hpush, hf₂.trans hf, fun k hk => hg k (hi.grants c _ hk)⟩

theorem get?_retain (shape' : FunctionShape) (hf : w.functions.get? id = some ⟨(shape, s), n⟩) :
    (w.retain (.function shape' id)).functions.get? id = some ⟨(shape, s), n + 1⟩ := by
  unfold Pool.get? at hf
  unfold retain recount Pool.get?
  rw [Array.getElem?_modify, if_pos rfl]
  cases hx : w.functions.items[id]? with
  | none =>
    rw [hx] at hf
    cases hf
  | some x =>
    rw [hx, Option.join_some] at hf
    rw [hf]
    rfl

theorem functions_closureOf (w : World σ μ) (c : Context) (shape : FunctionShape) (id : Nat) :
    (w.closureOf c shape id).2.functions = (w.retain (.function shape id)).functions := by
  have hobjects : ∀ (w : World σ μ) (f : Vm → Vm × Val), (w.onVm c.vm f).2.functions = w.functions := by
    intro w f
    rw [onVm_world]
    rfl
  unfold closureOf
  cases shape with
  | raw | list =>
    dsimp only
    rw [hobjects]
    exact hobjects _ _

/-- A function that is pushed is kept alive, and stands on top of the stack. -/
theorem push_host (hs : w.Stands c st) (h : w.Grants c 3)
    (hf : w.functions.get? id = some ⟨(shape, s), n⟩) :
    ∃ u w₁, c.push (.function shape id) w = (.ok (), w₁) ∧ w₁.Stands c (st.push u) ∧
      w₁.Backs c u shape id s ∧ ∀ k, w.Grants c (k + 1) → w₁.Grants c k := by
  obtain ⟨w₁, hroom, hi⟩ := checkStack_intact h (show (3 : Int) ≤ (3 : Nat) by decide)
  have hsame := functions_checkStack (c := c) (w := w) 3
  rw [hroom] at hsame
  obtain ⟨u, hu, hext, hd⟩ := (hi.stands hs).pushFunction shape id
  refine ⟨u, w₁.pushFunction c shape id, ?_, hu, ⟨hd, n + 1, ?_⟩, fun k hk => ?_⟩
  · unfold push
    rw [Api.bind_ok hroom]
    rfl
  · change (w₁.closureOf c shape id).2.functions.get? id = _
    rw [functions_closureOf]
    exact get?_retain shape (hsame ▸ hf)
  · have hthread := thread?_closureOf w₁ c shape id
    have hgrants : (w₁.closureOf c shape id).2.Grants c (k + 1) := by
      refine (hi.grants c _ hk).same hthread ?_ fun x hx => ?_
      · rw [← hext.starved]
        exact congrArg Heap.starved (heap_push _ c c.vm _).symm
      · obtain ⟨th, hth, -⟩ := Option.bind_eq_some_iff.mp (hi.stands hs).shown
        obtain ⟨y, hy, -⟩ := Option.bind_eq_some_iff.mp (hthread.trans hth)
        exact ⟨y, hy⟩
    exact hgrants.push _

/-! ### Calling -/

/-- The frame that a call is made from waits behind a guard. -/
def guarded (c : Context) (w : World σ μ) : World σ μ := w.modifyThread c (·.setAwait .guarded)

theorem calling_eq (f : Val) (args : List Val) :
    c.calling f args w =
      let r := (c.guarded w).onVm c.vm fun vm =>
        vm.enter c.thread f args { nests := true, canYield := false }
      ⟨c, r.1, r.2⟩ := by
  unfold calling guarded modifyThread
  rw [onVm_modifyVm]

variable {th : Thread} {args results : List Value} {vals : List Val} {code : HostCode σ μ}

/-- Calls that the host makes from here are not nested too deeply. -/
def Shallow (c : Context) (w : World σ μ) : Prop :=
  (w.thread c).top.depth + 1 ≠ Vm.maxNesting ∧ (w.thread c).top.depth + 1 < Vm.maxHandling

theorem guarded_frames {st : Array Val} (hs : w.Stands c st) :
    ∃ th, w.thread? c = some th ∧ th.top.shown = some st ∧ th.status = .ready ∧
      (c.guarded w).thread? c = some (th.setAwait .guarded) ∧
      (c.guarded w).Frames c ({ th.top with await := .guarded } :: th.frames.tail) := by
  obtain ⟨th, hth, hshown⟩ := Option.bind_eq_some_iff.mp hs.shown
  have hready := hs.state
  unfold status? at hready
  rw [hth, Option.map_some] at hready
  have hguarded : (c.guarded w).thread? c = some (th.setAwait .guarded) := by
    unfold guarded
    rw [thread?_modifyThread_self, hth]
    rfl
  exact ⟨th, hth, hshown, Option.some.inj hready, hguarded, _, hguarded,
    (th.status_setAwait _).trans (Option.some.inj hready), th.frames_setAwait _⟩

/-- Values that arrive behind a guard end the run. -/
theorem step_guarded {us : List Val} (h : w.thread? c = some th) (ha : th.top.await = .guarded) :
    (w.onVm c.vm fun vm => vm.step c.thread (.results us)) =
      (.exit (.returned us), w.modifyThread c (·.setAwait .idle)) := by
  obtain ⟨x, hx, hth⟩ := Option.bind_eq_some_iff.mp h
  have hstep : x.vm.step c.thread (.results us) =
      (x.vm.modifyThread c.thread (·.setAwait .idle), .exit (.returned us)) := by
    unfold Vm.step Vm.deliver
    dsimp only
    rw [Vm.thread_of_some hth, ha]
  rw [onVm_congr (g := fun vm => (vm.modifyThread c.thread (·.setAwait .idle), .exit (.returned us)))
    w c.vm hx hstep, onVm_eq, hx]
  rfl

/-- A host function may be called from behind the guard. -/
theorem guarded_enters (hs : w.Stands c st) (hshallow : c.Shallow w) {l : Nat}
    (hl : (w.thread c).Reaches (w.heap c.vm).starved l)
    (hroom : (w.thread c).used + 1 + n + Thread.minRoom ≤ l) :
    ((c.guarded w).vm c.vm).Enters c.thread n { nests := true, canYield := false } := by
  obtain ⟨th, hth, -, -, hguarded, -⟩ := guarded_frames hs
  have hthread : ((c.guarded w).vm c.vm).thread c.thread = th.setAwait .guarded :=
    thread_of_some hguarded
  obtain ⟨x, hx, hxth⟩ := Option.bind_eq_some_iff.mp hguarded
  unfold Shallow at hshallow
  rw [thread_of_some hth] at hl hroom hshallow
  have hused : (th.setAwait .guarded).used = th.used := th.used_modifyTop rfl
  have hheap : ((c.guarded w).vm c.vm).heap = w.heap c.vm := heap_modifyThread w c c.vm _
  refine ⟨fun _ => ?_, ?_⟩
  · rw [hthread, Thread.setAwait, Thread.top_modifyTop]
    exact hshallow
  · rw [hthread, hused]
    have hth' : ((c.guarded w).vm c.vm).thread? c.thread = some (th.setAwait .guarded) := by
      rw [vm_eq _ _ hx]
      exact hxth
    have hl' : (th.setAwait .guarded).Reaches ((c.guarded w).vm c.vm).heap.starved l := by
      rw [hheap]
      exact hl.same (th.size_modifyTop _)
    exact Vm.makeRoom_granted hth' hl' hroom (by omega)

theorem releaseAll_primitives {vs : List Value} (hv : ∀ v ∈ vs, v.IsPrimitive = true)
    (w : World σ μ) : w.releaseAll vs = w := by
  induction vs generalizing w with
  | nil => rfl
  | cons v vs ih =>
    have hsame : w.release v = w := by
      have hp := hv v (List.mem_cons_self ..)
      cases v with
      | nil | bool | int | float | text => rfl
      | _ => cases hp
    change (w.release v).releaseAll vs = w
    rw [hsame, ih fun v hmem => hv v (List.mem_cons_of_mem _ hmem)]

/-- A list function that answers with primitive values leaves them on top of its frame. -/
theorem answers {fs : List Frame} {g w₂ : World σ μ} (he : g.Entered c fs vals w₁)
    (hf : w₁.functions.get? id = some ⟨(.list, s), n⟩)
    (hread : c.readBatch vals.length (some 1) (w₁.retain (.function .list id)) = (.ok args, w₂))
    (hi : w₁.Intact w₂) (ht : Touches w₁ w₂) (hcode : code.list s c args = .pure (.done results))
    (hresults : ∀ v ∈ results, v.IsPrimitive = true) (hshort : results.length ≤ Word32.greatest)
    (hg : w₁.Grants c (results.length + 2)) :
    ∃ (us : List Val) (w₃ : World σ μ) (f : Frame),
      results.Forall₂ (Denotes (w₃.heap c.vm) c (vals.toArray ++ us.toArray)) us ∧
      w₃.Frames c (f :: fs) ∧ f.base = (g.thread c).used + 1 ∧
      w₃.shown c = some (vals.toArray ++ us.toArray) ∧ w₃.Grants c 2 ∧
      World.meet code c (.host true (some id)) (drive code 0) w₁ = some (.go (.results us),
        (w₃.modifyThread c (·.popFrame)).release (.function .list id)) := by
  obtain ⟨f₁, hframes₁, hbase₁⟩ := he.frames
  obtain ⟨f₂, t₂, hframes₂, hs₂, hbase₂⟩ := hframes₁.kept he.shown fun th hth => ht.sameBelow hth
  obtain rfl := Option.some.inj (hs₂.shown.symm.trans ((hi.shown c).trans he.shown))
  obtain ⟨w₃, hpush, -, hg₃⟩ := pushAll_primitives hresults hshort (hi.grants c _ hg)
  have hpushed := pushAll_cases hs₂ hpush
  generalize hr : Except.ok () = r at hpushed
  cases hpushed with
  | refused e => cases hr
  | @done w₃ us hs₃ _ hd₃ =>
    have hquiet : Touches w₂ _ := c.quiet_pushAll results trivial w₂
    rw [hpush] at hquiet
    obtain ⟨f₃, t₃, hframes₃, hs₃', hbase₃⟩ := hframes₂.kept hs₂.shown fun th hth =>
      TouchesIn.sameBelow hquiet hth
    refine ⟨us, w₃, f₃, hd₃, hframes₃, hbase₃.trans (hbase₂.trans hbase₁), hs₃.shown,
      hg₃ 2 (hi.grants c _ hg), ?_⟩
    have hdepth : (w₁.retain (.function .list id)).depth c = vals.length := depth_of_shown he.shown
    have hperform : (code.list s c args).perform (drive code 0) w₂ = some (.done results, w₂) := by
      rw [hcode]
      rfl
    have hrun := runList_results (d := drive code 0) (p := code.list s c) (by rwa [hdepth]) hperform
      hpush hs₃ hd₃.length_eq
    rw [releaseAll_primitives hresults] at hrun
    exact meet_list hf hrun true

/-- What arrives behind the guard is what the call gives, and the frame is as it was. -/
theorem guarded_returns (us : List Val) {f : Frame} (hshown : th.top.shown = some st)
    (hf : w.Frames c (f :: { th.top with await := .guarded } :: th.frames.tail)) :
    ∃ w', Exits code
        ⟨c, .go (.results us), (w.modifyThread c (·.popFrame)).release (.function shape id)⟩
        (.returned us) w' ∧ w'.Stands c st ∧ (w'.thread c).used = th.used ∧
      (w'.thread c).size = (w.thread c).size ∧ w'.heap c.vm = w.heap c.vm := by
  have hth₀ := hf
  obtain ⟨th₀, hth₀, -⟩ := hth₀
  generalize hw : (w.modifyThread c (·.popFrame)).release (.function shape id) = w₁
  have hsame : w₁.thread? c = (w.modifyThread c (·.popFrame)).thread? c := by
    rw [← hw]
    rfl
  have hpop : w₁.thread? c = some th₀.popFrame := by
    rw [hsame, thread?_modifyThread_self, hth₀]
    rfl
  obtain ⟨th₁, hth₁, hready, hframes⟩ := (hf.pop (List.cons_ne_nil _ _)).same hsame
  obtain rfl := Option.some.inj (hth₁.symm.trans hpop)
  obtain ⟨htop, -⟩ := List.cons.inj (th₀.popFrame.frames_eq.symm.trans hframes)
  have htop' : (th₀.popFrame.setAwait .idle).top = { th.top with await := .idle } := by
    rw [Thread.setAwait, Thread.top_modifyTop, htop]
  have hthread : (w₁.modifyThread c (·.setAwait .idle)).thread? c =
      some (th₀.popFrame.setAwait .idle) := by
    rw [thread?_modifyThread_self, hpop]
    rfl
  refine ⟨w₁.modifyThread c (·.setAwait .idle), exits_step ?_, ⟨?_, ?_⟩, ?_, ?_, ?_⟩
  · rw [step_guarded hpop (by rw [htop])]
    exact exits_exit
  · unfold shown
    rw [hthread, Option.bind_some, htop']
    exact hshown
  · unfold status?
    rw [hthread, Option.map_some, Thread.status_setAwait, hready]
  · rw [thread_of_some hthread]
    unfold Thread.used
    rw [htop']
    rfl
  · rw [thread_of_some hthread, thread_of_some hth₀]
    exact Thread.size_modifyTop _ _
  · rw [heap_modifyThread, ← hw]
    exact heap_modifyThread w c c.vm _

/-- A list function that is called on primitive values hands on what it makes of them. -/
theorem calling_list (hs : w.Stands c st) (hb : w.Backs c u .list id s) (hshallow : c.Shallow w)
    (hargs : ∀ v ∈ args, v.IsPrimitive = true) {h : Heap} {stack : Array Val}
    (hd : args.Forall₂ (Denotes h c stack) vals)
    (hcode : code.list s c args = .pure (.done results))
    (hresults : ∀ v ∈ results, v.IsPrimitive = true)
    (hshort : args.length ≤ Word32.greatest) (hshort' : results.length ≤ Word32.greatest) {l : Nat}
    (hl : (w.thread c).Reaches (w.heap c.vm).starved l)
    (hroom : (w.thread c).used + 1 + args.length + Thread.minRoom ≤ l)
    (hroom' : (w.thread c).used + 1 + args.length + (results.length + 2) ≤ l) :
    ∃ us w' h' stack', Exits code (c.calling u vals w) (.returned us) w' ∧ w'.Stands c st ∧
      results.Forall₂ (Denotes h' c stack') us ∧ (w'.thread c).used = (w.thread c).used ∧
      ∃ l', (w'.thread c).Reaches (w'.heap c.vm).starved l' ∧
        (w'.thread c).used + us.length + 2 ≤ l' := by
  rw [hd.length_eq] at hshort hroom hroom'
  obtain ⟨th, hth, hshown, -, hguarded, hframes⟩ := guarded_frames hs
  have hheap : (c.guarded w).heap c.vm = w.heap c.vm := heap_modifyThread w c c.vm _
  have hused : ((c.guarded w).thread c).used = (w.thread c).used := by
    rw [thread_of_some hguarded, thread_of_some hth]
    exact th.used_modifyTop rfl
  have hreach : ((c.guarded w).thread c).Reaches ((c.guarded w).heap c.vm).starved l := by
    rw [hheap, thread_of_some hguarded]
    rw [thread_of_some hth] at hl
    exact hl.same (th.size_modifyTop _)
  -- the function begins above the guard, and gets its arguments
  obtain ⟨w₁, henter, he⟩ := enter_host hframes ⟨hheap.symm ▸ hb.value, hb.code⟩
    (guarded_enters hs hshallow hl hroom)
  obtain ⟨given, w₂, hread, hgiven, hi, htouches⟩ := he.listens id hshort fun t hmem =>
    absurd hmem (not_thread_of_primitive hargs hd t)
  obtain rfl := showsAll_primitives hargs hd hgiven
  obtain ⟨n, hf⟩ := hb.code
  -- its answer arrives at the guard
  obtain ⟨us, w₃, f, hd₃, hframes₃, hbase₃, hshown₃, hg₃, hmeet⟩ := answers he
    (he.functions ▸ hf) hread hi htouches hcode hresults hshort'
    (he.grants hreach (by rwa [hused]))
  have hused₃ := hframes₃.used hshown₃
  rw [hbase₃, hused, Array.size_append, List.size_toArray, List.size_toArray] at hused₃
  have hreach₃ := (World.grants_iff.mp hg₃).2.reaches
  rw [hused₃] at hreach₃
  obtain ⟨w', hexits, hs', hused', hsize', hheap'⟩ :=
    guarded_returns us hshown hframes₃
  rw [← thread_of_some hth] at hused'
  refine ⟨us, w', _, _, ?_, hs', hd₃, hused',
    (w.thread c).used + 1 + (vals.length + us.length) + 2, ?_, ?_⟩
  · rw [calling_eq]
    dsimp only
    rw [henter]
    exact exits_met hmeet hexits
  · rw [hheap']
    exact hreach₃.same hsize'
  · rw [hused']
    omega

/-! ### Pushing and calling -/

/-- What a call leaves in place is read and removed. -/
theorem callWith_of_inPlace {rc : ResultCount} {d : Drive σ μ} {us : List Val}
    (hcall : c.callInPlace args rc d w = some (.ok (us.length : Int), w₁))
    (hs : w₁.Stands c (st ++ us.toArray)) (hsize : ((st ++ us.toArray).size : Int) ≤ Word32.greatest)
    (hg : w₁.Grants c 2) (hus : ∀ t, .thread t ∈ us → (w₁.heap c.vm).owner? ≠ none) :
    ∃ vs w', c.callWith args rc d w = some (.ok vs, w') ∧ w'.Stands c st ∧
      w₁.ShowsAll c (st.size + 1) us vs := by
  have hdrop : (st ++ us.toArray).toList.drop (st.size + 1 - 1 : Int).toNat = us ++ [] := by
    rw [Array.toList_append, List.drop_left' (by simp)]
    simp
  have hfirst : (1 : Int) ≤ st.size + 1 := by omega
  obtain ⟨vs, w₂, hread, -, hshows⟩ := readBatch_intact hg hfirst hs.shown hdrop hsize hus
  have hdepth : (w₁.depth c : Int) - us.length = st.size := by
    rw [hs.depth, Array.size_append]
    simp only [List.size_toArray]
    omega
  have hcut : c.cut (w₁.depth c - us.length : Int).toNat w₂ = (.ok (), _) := rfl
  have hread' : c.readBatch us.length (some (w₁.depth c - us.length + 1)) w₁ = (.ok vs, w₂) := by
    rwa [hdepth]
  refine ⟨vs, _, ?_, (stands_readBatch hs hread' hcut).1, hshows⟩
  unfold callWith
  refine Act.bind_some.mpr (.inl ⟨_, w₁, hcall, ?_⟩)
  rw [Act.top_bind]
  exact Act.lift_bind_some.mpr ⟨_, w₂, congrArg some hread', rfl⟩

theorem used_of_stands (hs : w.Stands c st) :
    (w.thread c).used = (w.thread c).top.base + st.size := by
  obtain ⟨th, hth, hshown⟩ := Option.bind_eq_some_iff.mp hs.shown
  rw [thread_of_some hth, ← Frame.count_of_shown hshown]
  rfl

theorem size_modifySlots (w : World σ μ) (c : Context) (f : Array Val → Array Val) :
    ((w.modifySlots c f).thread c).size = (w.thread c).size := by
  rw [modifySlots_eq, World.thread_eq, World.thread_eq w, thread?_modifyThread_self]
  cases w.thread? c with
  | none => rfl
  | some th => exact th.size_modifyTop _

theorem top_of_touches (hs : w.Stands c st) (h : Touches w w') :
    (w'.thread c).top.base = (w.thread c).top.base ∧
      (w'.thread c).top.depth = (w.thread c).top.depth := by
  obtain ⟨th, hth, -⟩ := Option.bind_eq_some_iff.mp hs.shown
  obtain ⟨th', hth', hb⟩ := h.sameBelow hth
  rw [thread_of_some hth, thread_of_some hth']
  exact ⟨hb.base, hb.depth⟩

/-- Primitive arguments are pushed, and the function is called on what they stand for. -/
theorem begun_primitives (hs : w.Stands c (st.push u)) (hb : w.Backs c u shape id s)
    (hargs : ∀ v ∈ args, v.IsPrimitive = true) (hshort : args.length ≤ Word32.greatest)
    (hg : w.Grants c (args.length + 2)) :
    c.Applies args .all w ∧ ∃ vals w₁, c.begun args .all w = c.calling u vals w₁ ∧
      w₁.Stands c st ∧ w₁.Backs c u shape id s ∧ Touches w w₁ ∧
      args.Forall₂ (Denotes (w₁.heap c.vm) c (st.push u ++ vals.toArray)) vals ∧
      ∀ k, w.Grants c (args.length + k) →
        (w₁.thread c).Reaches (w₁.heap c.vm).starved ((w₁.thread c).used + 1 + args.length + k) := by
  obtain ⟨w₁, hpush, hfunctions, hg₁⟩ := pushAll_primitives hargs hshort hg
  have hpushed := pushAll_cases hs hpush
  generalize hr : Except.ok () = r at hpushed
  cases hpushed with
  | refused e => cases hr
  | @done w₁ vals hs₁ hext hd =>
    have hsnd : (c.pushAll args w).2 = w₁ := by rw [hpush]
    have hpushing : Touches w w₁ := by
      have hquiet : Touches w _ := c.quiet_pushAll args trivial w
      rwa [hpush] at hquiet
    have ha : w₁.Alike (c.announced args.length w₁ .all) := alike_log _ _ _ _
    have happlied := applied_calling (ha.stands hs₁)
    have hstands := (ha.stands hs₁).modifySlots (·.shrink st.size)
    have hannounced : Touches w₁ (c.announced args.length w₁ .all) := touches_notify _ _
    have hcut := hannounced.trans (touches_modifySlots _ c (·.shrink st.size) trivial)
    have hheap : ((c.announced args.length w₁ .all).modifySlots c (·.shrink st.size)).heap c.vm =
        w₁.heap c.vm := (heap_modifySlots _ c c.vm _).trans (ha.heap c.vm)
    rw [← hd.length_eq] at happlied
    rw [shrink_call] at hstands
    refine ⟨⟨⟨st, u, hs⟩, hshort, by rw [hpush], by rw [hsnd]; rfl⟩, vals,
      (c.announced args.length w₁ .all).modifySlots c (·.shrink st.size), ?_, hstands, ⟨?_, ?_⟩,
      hpushing.trans hcut, ?_, fun k hk => ?_⟩
    · unfold begun
      rw [hsnd]
      exact happlied
    · rw [hheap]
      exact (hb.value.extend hext #[]).anywhere
    · change ∃ n, w₁.functions.get? id = _
      rw [hfunctions]
      exact hb.code
    · rwa [hheap]
    · have hreach := (World.grants_iff.mp (hg₁ k hk)).2.reaches
      have hused := used_of_stands hs₁
      have hused' := used_of_stands hstands
      rw [(top_of_touches hs₁ hcut).1] at hused'
      have hsizes : (st.push u ++ vals.toArray).size = st.size + 1 + args.length := by
        rw [hd.length_eq]
        simp
        omega
      rw [hheap, hused']
      rw [hused, hsizes] at hreach
      refine (hreach.same ?_).less (by omega)
      exact size_modifySlots (c.announced args.length w₁ .all) c _

/-- Pushing a list function that maps primitive values to primitive values, and calling it, applies
it: the list of its values is given, and the stack is as it was. -/
theorem call_pushed {code : HostCode σ μ} (hs : w.Stands c st) (hshallow : c.Shallow w)
    (hf : w.functions.get? id = some ⟨(.list, s), n⟩)
    (hargs : ∀ v ∈ args, v.IsPrimitive = true) (hcode : code.list s c args = .pure (.done results))
    (hresults : ∀ v ∈ results, v.IsPrimitive = true) (hshort : args.length ≤ Word32.greatest)
    (hsize : (st.size : Int) + results.length ≤ Word32.greatest)
    (hg : w.Grants c (args.length + max (Thread.minRoom + 1) (results.length + 3))) :
    ∃ w₁ w', c.push (.function .list id) w = (.ok (), w₁) ∧
      (c.callWith args .all).Ends code w₁ (.ok results, w') ∧ w'.Stands c st ∧
      w'.depth c + 1 = w₁.depth c := by
  generalize hk : max (Thread.minRoom + 1) (results.length + 3) = k at hg
  obtain ⟨j, rfl⟩ : ∃ j, k = j + 1 := ⟨k - 1, by omega⟩
  obtain ⟨u, w₁, hpush, hs₁, hb₁, hg₁⟩ := push_host hs (hg.less (by omega)) hf
  have hpushing : Touches w _ := c.quiet_push (.function .list id) trivial w
  rw [hpush] at hpushing
  obtain ⟨hap, vals, w₂, hbegun, hs₂, hb₂, hcalling, hd, hreach⟩ :=
    begun_primitives hs₁ hb₁ hargs hshort (hg₁ _ (hg.less (by omega)))
  have hshallow₂ : c.Shallow w₂ := by
    unfold Shallow
    rw [(top_of_touches hs (hpushing.trans hcalling)).2]
    exact hshallow
  obtain ⟨us, w₃, h', stack', hexits, hs₃, hd₃, -, l', hreach₃, hl'⟩ :=
    calling_list hs₂ hb₂ hshallow₂ hargs hd hcode hresults hshort (by omega) (hreach j (hg₁ _ hg))
      (by omega) (by omega)
  obtain ⟨fuel, hrun⟩ := hexits
  have hdepth₁ : w₁.depth c = st.size + 1 := by rw [hs₁.depth, Array.size_push]
  have hs₄ := hs₃.modifySlots (· ++ us.toArray)
  have hsizes : (st ++ us.toArray).size = st.size + us.length := by simp
  have hinPlace : c.callInPlace args .all (drive code fuel) w₁ =
      some (.ok (us.length : Int), w₃.modifySlots c (· ++ us.toArray)) := by
    rw [hap.callInPlace, hbegun, hrun, hdepth₁, Option.map_some]
    change some (Except.ok (((w₃.modifySlots c (· ++ us.toArray)).depth c : Int) -
      ((st.size + 1 - 1 : Nat) : Int)), w₃.modifySlots c (· ++ us.toArray)) = _
    rw [hs₄.depth, hsizes, show ((st.size + us.length : Nat) : Int) - ((st.size + 1 - 1 : Nat) : Int) =
      us.length by omega]
  obtain ⟨th₃, hth₃, -⟩ := Option.bind_eq_some_iff.mp hs₄.shown
  obtain ⟨x₃, hx₃, -⟩ := Option.bind_eq_some_iff.mp hth₃
  have hg₄ : (w₃.modifySlots c (· ++ us.toArray)).Grants c 2 := by
    rw [World.grants_iff, heap_modifySlots]
    refine ⟨⟨x₃, hx₃⟩, (hreach₃.same (size_modifySlots w₃ c _)).grants ?_ (.inr (by decide))⟩
    rw [used_of_stands hs₄, (top_of_touches hs₃ (touches_modifySlots w₃ c _ trivial)).1, hsizes]
    rw [used_of_stands hs₃] at hl'
    omega
  obtain ⟨vs, w', hcall, hs', hshows⟩ := callWith_of_inPlace hinPlace hs₄ (by
    rw [hsizes, ← hd₃.length_eq]
    omega) hg₄ fun t hmem => absurd hmem (not_thread_of_primitive hresults hd₃ t)
  obtain rfl := showsAll_primitives hresults hd₃ hshows
  exact ⟨w₁, w', hpush, ⟨fuel, hcall⟩, hs', by rw [hs'.depth, hdepth₁]⟩

/-- The protocol of host functions. A function that is called, from whatever frame on whatever thread,
begins in a frame of its own on that thread, which shows its arguments and nothing else; its caller
gets what it leaves in that frame, or an error if it claims to have left more; and the caller of a list
function gets what its results stand for. So pushing a list function that maps primitive values to
primitive values, and calling it, applies it.

Its holder must not have been finalized, calls must not be nested too deeply, and a list function is
given a thread only by an interpreter that has its record. -/
theorem host_protocol (code : HostCode σ μ) :
    (∀ {c : Context} {w : World σ μ} {fs : List Frame} {u : Val} {shape : FunctionShape} {id : Nat}
        {s : σ} {args : List Val} {m : Manner},
      w.Frames c fs → w.Backs c u shape id s → (w.vm c.vm).Enters c.thread args.length m →
      ∃ w₁, (w.onVm c.vm fun vm => vm.enter c.thread u args m) =
          (.need (.host (shape = .list) (some id)), w₁) ∧
        w₁.shown c = some args.toArray ∧ (∃ f, w₁.Frames c (f :: fs)) ∧
        (shape = .raw → RawProtocol code c id s fs w₁) ∧
        (shape = .list → args.length ≤ Word32.greatest →
          (∀ t, .thread t ∈ args → (w.heap c.vm).owner? ≠ none) →
          ListProtocol code c id s fs args w₁)) ∧
    ∀ {c : Context} {w : World σ μ} {st : Array Val} {id n : Nat} {s : σ} {args : List Value}
        (F : List Value → List Value),
      (∀ vs : List Value, (∀ v ∈ vs, v.IsPrimitive = true) →
        code.list s c vs = .pure (.done (F vs)) ∧ ∀ v ∈ F vs, v.IsPrimitive = true) →
      w.Stands c st → c.Shallow w → w.functions.get? id = some ⟨(.list, s), n⟩ →
      (∀ v ∈ args, v.IsPrimitive = true) → args.length ≤ Word32.greatest →
      (st.size : Int) + (F args).length ≤ Word32.greatest →
      w.Grants c (args.length + max (Thread.minRoom + 1) ((F args).length + 3)) →
      ∃ w₁ w', c.push (.function .list id) w = (.ok (), w₁) ∧
        (c.callWith args .all).Ends code w₁ (.ok (F args), w') ∧ w'.Stands c st ∧
        w'.depth c + 1 = w₁.depth c := by
  refine ⟨fun {c w fs u shape id s args m} hf hb he => ?_,
    fun {c w st id n s args} F hF hs hshallow hf hargs hshort hsize hg => ?_⟩
  · obtain ⟨w₁, henter, hentered⟩ := enter_host hf hb he
    obtain ⟨n, hcode⟩ := hb.code
    rw [← hentered.functions] at hcode
    obtain ⟨f, hframes, -⟩ := hentered.frames
    refine ⟨w₁, henter, hentered.shown, ⟨f, hframes⟩, ?_, ?_⟩
    · rintro rfl
      exact hentered.raw hf.ne_nil hcode
    · rintro rfl hshort ht
      exact hentered.list hf.ne_nil hcode hshort ht
  · obtain ⟨hcode, hresults⟩ := hF args hargs
    exact call_pushed hs hshallow hf hargs hcode hresults hshort hsize hg

/-- Raw functions that leave as many results as they are written down with, and list functions that
turn their arguments round. -/
def turning : HostCode Nat Unit where
  raw k _ := .pure (.done k)
  list _ _ vs := .pure (.done vs.reverse)

/-- An interpreter with a value for one of two host functions. -/
def serving (shape : FunctionShape) (holder : Option Nat) (depth : Nat) : World Nat Unit where
  instances := #[{
    vm :=
      { heap :=
          { closures := { items := #[some (.native (entry shape) #[.userdata 0])] }
            userdata := { items := #[some ⟨.function (shape = .list) holder, 16, none⟩] } }
        threads := #[{ ground := { level := .native #[], depth } }] }
    chunkName := .empty }]
  functions := { items := #[some ⟨(.raw, 2), 1⟩, some ⟨(.raw, 3000000000), 1⟩, some ⟨(.list, 0), 1⟩] }
  memory := ()
  subscriber _ m := m

theorem serving_frames (shape : FunctionShape) (holder : Option Nat) :
    (serving shape holder 0).Frames ⟨0, 0⟩ [{ level := .native #[] }] :=
  ⟨_, rfl, rfl, rfl⟩

theorem serving_backs {shape : FunctionShape} {id s n depth : Nat}
    (h : (serving shape (some id) depth).functions.get? id = some ⟨(shape, s), n⟩) :
    (serving shape (some id) depth).Backs ⟨0, 0⟩ (.closure 0) shape id s :=
  ⟨⟨0, 0, _, rfl, rfl, rfl, rfl⟩, n, h⟩

/-- A function is asked for two of its three arguments and for more results than fit a signed number,
and one is pushed and called. -/
theorem host_protocol_turning :
    (∃ w₁ w₂, ((serving .raw (some 0) 0).onVm 0 fun vm =>
        vm.enter 0 (.closure 0) [.int 5, .int 6, .int 7] { nests := true, canYield := false }) =
          (.need (.host false (some 0)), w₁) ∧
      w₁.shown ⟨0, 0⟩ = some #[.int 5, .int 6, .int 7] ∧
      Attained turning ⟨⟨0, 0⟩, .go (.results [.int 6, .int 7]), w₂⟩
        ⟨⟨0, 0⟩, .need (.host false (some 0)), w₁⟩) ∧
    (∃ w₁ w₂, ((serving .raw (some 1) 0).onVm 0 fun vm =>
        vm.enter 0 (.closure 0) [.int 5] { nests := true, canYield := false }) =
          (.need (.host false (some 1)), w₁) ∧
      Attained turning
        ⟨⟨0, 0⟩, .go (.raise .runtime (.text (overstated 3000000000 1).message) false), w₂⟩
        ⟨⟨0, 0⟩, .need (.host false (some 1)), w₁⟩) ∧
    ∃ w₁ w', push ⟨0, 0⟩ (.function .list 2) (serving .raw (some 0) 0) = (.ok (), w₁) ∧
      (callWith ⟨0, 0⟩ [.int 5, .nil] .all).Ends turning w₁ (.ok [.nil, .int 5], w') ∧
      w'.depth ⟨0, 0⟩ + 1 = w₁.depth ⟨0, 0⟩ := by
  obtain ⟨hcalled, happlied⟩ := host_protocol turning
  refine ⟨?_, ?_, ?_⟩
  · obtain ⟨w₁, henter, hshown, -, hraw, -⟩ := @hcalled ⟨0, 0⟩
      (serving .raw (some 0) 0) _ (.closure 0) .raw 0 2 [.int 5, .int 6, .int 7]
      { nests := true, canYield := false } (serving_frames .raw (some 0)) (serving_backs (n := 1) rfl)
      ⟨fun _ => by decide, by decide +kernel⟩
    have hdepth : w₁.depth ⟨0, 0⟩ = 3 := depth_of_shown hshown
    have hperform : (turning.raw 2 ⟨0, 0⟩).perform (drive turning 0) (w₁.retain (.function .raw 0)) =
        some (.done 2, w₁.retain (.function .raw 0)) := rfl
    obtain ⟨w₂, -, hattained⟩ := (hraw rfl).results hperform (unclosed_of_history rfl)
      (show 2 ≤ w₁.depth ⟨0, 0⟩ by rw [hdepth]; decide)
    refine ⟨w₁, w₂, henter, hshown, ?_⟩
    change Attained turning ⟨_, .go (.results ((w₁.slots ⟨0, 0⟩).toList.drop (w₁.depth ⟨0, 0⟩ - 2))), _⟩
      _ at hattained
    rwa [hdepth, slots_of_shown hshown] at hattained
  · obtain ⟨w₁, henter, hshown, -, hraw, -⟩ := @hcalled ⟨0, 0⟩
      (serving .raw (some 1) 0) _ (.closure 0) .raw 1 3000000000 [.int 5]
      { nests := true, canYield := false } (serving_frames .raw (some 1)) (serving_backs (n := 1) rfl)
      ⟨fun _ => by decide, by decide +kernel⟩
    have hdepth : w₁.depth ⟨0, 0⟩ = 1 := depth_of_shown hshown
    have hperform : (turning.raw 3000000000 ⟨0, 0⟩).perform (drive turning 0)
        (w₁.retain (.function .raw 1)) = some (.done 3000000000, w₁.retain (.function .raw 1)) := rfl
    obtain ⟨w₂, f, -, hattained⟩ := (hraw rfl).excess hperform (unclosed_of_history rfl)
      (show w₁.depth ⟨0, 0⟩ < 3000000000 by rw [hdepth]; decide)
    refine ⟨w₁, w₂, henter, ?_⟩
    have hfed : (w₁.heap 0).starved = false := by
      obtain rfl : w₁ = _ := (congrArg Prod.snd henter).symm
      decide +kernel
    change Attained turning
      ⟨_, .go (failing (w₁.heap 0) (overstated 3000000000 (w₁.depth ⟨0, 0⟩)).message), _⟩ _ at hattained
    rwa [hdepth, failing, hfed] at hattained
  · obtain ⟨w₁, w', hpush, hcall, -, hdepth⟩ := @happlied ⟨0, 0⟩
      (serving .raw (some 0) 0) #[] 2 1 0 [.int 5, .nil] List.reverse
      (fun vs hvs => ⟨rfl, fun v hv => hvs v (List.mem_reverse.mp hv)⟩) ⟨rfl, rfl⟩
      ⟨by decide, by decide⟩ rfl (by decide) (by decide) (by decide) (by decide +kernel)
    exact ⟨w₁, w', hpush, hcall, hdepth⟩

/-- Calls that are nested too deeply are refused although there is room; a function that has been
finalized is called in vain; and one that is given a thread by an interpreter without a record is not
run. -/
theorem host_refused :
    ((serving .raw (some 0) 199).Backs ⟨0, 0⟩ (.closure 0) .raw 0 2 ∧
      (((serving .raw (some 0) 199).vm 0).makeRoom 0 1 Thread.minRoom).2 = none ∧
      ((serving .raw (some 0) 199).onVm 0 fun vm =>
        vm.enter 0 (.closure 0) [] { nests := true, canYield := false }).1 =
          .go (.raise .runtime (.text "C stack overflow") false)) ∧
    (∃ w₁, ((serving .raw none 0).onVm 0 fun vm =>
        vm.enter 0 (.closure 0) [] { nests := true, canYield := false }) =
          (.need (.host false none), w₁) ∧
      ∃ w₂, World.meet turning ⟨0, 0⟩ (.host false none) (drive turning 0) w₁ =
        some (.go (.raise .runtime (.text alreadyCollected.message) false), w₂)) ∧
    ∃ w₁, ((serving .list (some 2) 0).onVm 0 fun vm =>
        vm.enter 0 (.closure 0) [.thread 0] { nests := true, canYield := false }) =
          (.need (.host true (some 2)), w₁) ∧
      ∃ w₂, World.meet turning ⟨0, 0⟩ (.host true (some 2)) (drive turning 0) w₁ =
        some (.go (.raise .runtime (.text unrecorded.message) false), w₂) :=
  ⟨⟨serving_backs (n := 1) rfl, by decide +kernel, rfl⟩,
    ⟨_, rfl, _, rfl⟩, _, rfl, _, rfl⟩

end Context
end LuaEmbed
