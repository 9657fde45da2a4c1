import LuaEmbed.Proofs.Openers
import LuaEmbed.Proofs.Raising
import LuaEmbed.Proofs.Registration

/-!
Opening standard libraries. Their openers run without anything from outside, so what a list of
libraries comes to is known in full: the opener of each runs once, unless the library is loaded
already, and the stack is left as it was.
-/
namespace LuaEmbed

open Engine World

namespace Engine.Thread

/-- The second thread is the first one once it waits for nothing at its top. It may have grown. -/
structure Eased (s t : Thread) : Prop where
  status : t.status = s.status
  frames : t.frames = { s.top with await := .idle } :: s.frames.tail
  size : s.Grown t

variable {s t : Thread}

theorem Eased.of_setAwait {a : Await} (h : (s.setAwait a).Eased t) : s.Eased t where
  status := h.status.trans (s.status_setAwait a)
  frames := by
    rw [h.frames, frames_setAwait, setAwait, top_modifyTop]
    rfl
  size := Grown.trans (.of_size (s.size_modifyTop _)) h.size

theorem Eased.inRun (h : s.Eased t) (vs : List Val) :
    t.InRun false s.status s.top s.frames.tail (.exit (.returned vs)) :=
  ⟨h.status, h.frames⟩

theorem Eased.sustains (h : s.Eased t) : s.Sustains t := by
  have htop := (h.inRun []).top_eq.1
  exact ⟨by rw [htop], by rw [htop], h.size.1⟩

end Engine.Thread

namespace Engine.Vm

variable {names : List String} {t : Nat} {vm : Vm} {th : Thread} {fs rest : List Frame} {g : Frame}

/-- The run of a thread ends, and nothing from outside is needed for it. -/
inductive Runs (t : Nat) : Vm × Next → Vm × Exit → Prop where
  | exit (vm : Vm) (e : Exit) : Runs t (vm, .exit e) (vm, e)
  | step {vm : Vm} {s : Signal} {r : Vm × Exit} (h : Runs t (vm.step t s) r) :
    Runs t (vm, .go s) r

/-- An error that nothing catches leaves a call, if there is nothing to close. -/
theorem runs_raise (ht : vm.thread? t = some th) (hf : th.frames = fs ++ g :: rest)
    (hfs : ∀ f ∈ fs, f.await = .idle ∧ f.isScript = false) (hg : g.await = .guarded)
    (status : ErrorStatus) (v : Val) (handled : Bool) :
    ∃ vm', Runs t (vm, .go (.raise status v handled)) (vm', .raised status v) := by
  have hnone : ∀ f ∈ fs, handlerOf f.await = none := fun f hf => by
    rw [(hfs f hf).1]
    rfl
  have hclosers : fs.flatMap (closersOf vm.heap) = [] := by
    rw [List.flatMap_eq_nil_iff]
    intro f hf
    have hscript := (hfs f hf).2
    unfold closersOf
    unfold Frame.isScript at hscript
    split
    next heq => simp [heq] at hscript
    next => rfl
  have hstep : vm.step t (.raise status v handled) =
      (vm.modifyThread t ({ · with above := (g :: rest).dropLast })).closeOrDeliver t []
        (some (status, v)) .guarded := by
    have hguards : g.await.Guards [] := by
      rw [hg]
      exact .call
    have hsettle : vm.settle t status v = _ := settle_guarded ht hf hnone hguards
    rw [hclosers] at hsettle
    exact (raise_eq_settle ht hf hnone hguards.handler handled).trans hsettle
  generalize vm.modifyThread t ({ · with above := (g :: rest).dropLast }) = vm₁ at hstep
  refine ⟨vm₁.modifyThread t fun th => (th.setAwait .idle).shrink, .step ?_⟩
  rw [hstep]
  exact .exit _ _

/-- A run gives a table and enriches these objects, and the thread is where it was; or it fails, and
there is such a reason. -/
def GivesTable (names : List String) (t : Nat) (h : Heap) (th : Thread) (reason : Prop)
    (r : Vm × Next) : Prop :=
  (reason ∧ ∃ vm status v, Runs t r (vm, .raised status v)) ∨
    ∃ vm i th', Runs t r (vm, .returned [.table i]) ∧ h.Enriched names vm.heap ∧
      vm.thread? t = some th' ∧ th.Eased th'

variable {h : Heap} {reason : Prop}

theorem GivesTable.imp {other : Prop} {r : Vm × Next} (k : GivesTable names t h th reason r)
    (hr : reason → other) : GivesTable names t h th other r :=
  Or.imp_left (fun ⟨hreason, hraised⟩ => ⟨hr hreason, hraised⟩) k

theorem givesTable_raise {th₀ : Thread} (hr : reason) (ht : vm.thread? t = some th)
    (hf : th.frames = fs ++ g :: rest) (hfs : ∀ f ∈ fs, f.await = .idle ∧ f.isScript = false)
    (hg : g.await = .guarded) (status : ErrorStatus) (v : Val) (handled : Bool) :
    GivesTable names t h th₀ reason (vm, .go (.raise status v handled)) := by
  obtain ⟨vm', hrun⟩ := runs_raise ht hf hfs hg status v handled
  exact .inl ⟨hr, vm', status, v, hrun⟩

/-- The request of a native function that has built a table. -/
theorem givesTable_act (th₀ : Thread) {f : Frame} {m : Native (List Val)}
    (ht : vm.thread? t = some th) (hf : th.frames = f :: th₀.frames) (hs : th.status = th₀.status)
    (hsize : th₀.Grown th) (hidle : f.await = .idle) (hscript : f.isScript = false)
    (hg : th₀.top.await = .guarded) (he : h.Enriched names vm.heap)
    (hm : m.Builds names h (∃ i, · = [.table i])) :
    GivesTable names t h th₀ (h.starved = true) (vm.onHeap m.start) := by
  have hstart : vm.onHeap m.start =
      (⟨(m.start vm.heap).1, vm.threads⟩, .go (.act (m.start vm.heap).2)) := rfl
  rw [hstart]
  rcases hm vm.heap he fun vs h => (h, .ret vs) with
    ⟨hstarved, h', hrun⟩ | ⟨vs, h', he', ⟨i, rfl⟩, hrun⟩
  · have hrun : m.start vm.heap = (h', .raiseMemory) := hrun
    rw [hrun]
    have hth : (⟨h', vm.threads⟩ : Vm).thread? t = some th := ht
    have hframes : th.frames = [f] ++ th₀.top :: th₀.frames.tail := by
      rw [hf, ← th₀.frames_eq]
      rfl
    obtain ⟨vm', hraised⟩ := runs_raise hth hframes (by simp [hidle, hscript]) hg .memory
      (.str Chunk.memoryMessage) true
    exact .inl ⟨hstarved, vm', _, _, .step hraised⟩
  · have hrun : m.start vm.heap = (h', .ret [.table i]) := hrun
    rw [hrun]
    have hpop : th.popFrame.frames = th₀.frames := by
      have htail : th.frames.tail = th₀.frames := congrArg List.tail hf
      rw [← htail]
      exact Thread.frames_popFrame (by rw [htail, th₀.frames_eq]; exact List.cons_ne_nil _ _)
    obtain ⟨htop, htail⟩ : th.popFrame.top = th₀.top ∧ th.popFrame.frames.tail = th₀.frames.tail := by
      rw [th.popFrame.frames_eq, th₀.frames_eq] at hpop
      exact List.cons.inj hpop
    let vm₁ : Vm := Vm.modifyThread ⟨h', vm.threads⟩ t (·.popFrame)
    have hth : vm₁.thread? t = some th.popFrame := thread?_modify ht _
    have hdeliver : vm₁.step t (.results [.table i]) =
        (vm₁.modifyThread t (·.setAwait .idle), .exit (.returned [.table i])) := by
      change vm₁.deliver t _ = _
      unfold deliver
      rw [thread_of_some hth, htop, hg]
    refine .inr ⟨vm₁.modifyThread t (·.setAwait .idle), i, th.popFrame.setAwait .idle,
      .step (.step ?_), he', thread?_modify hth _, ?_, ?_, ?_⟩
    · change Runs t (vm₁.step t (.results [.table i])) _
      rw [hdeliver]
      exact .exit _ _
    · exact (Thread.status_setAwait _ _).trans hs
    · rw [Thread.frames_setAwait, htop, htail]
    · exact hsize.trans (.of_size (Thread.size_modifyTop _ _))

theorem enterNative_opener {vm₁ : Vm} {args : List Val} {frame : Frame}
    (hroom : vm.makeRoom t (frame.base + args.length) Thread.minRoom = (vm₁, none)) (f : Val)
    (lib : StdLib) (up : Array Val) :
    vm.enterNative t f lib.opener up args frame =
      (vm₁.modifyThread t (·.pushFrame { frame with
        level := .native args.toArray, fn := f
        limit := frame.base + args.length + Thread.minRoom })).onHeap
        (Library.apply lib.opener up args).start := by
  unfold enterNative
  rw [hroom]
  cases lib <;> rfl

/-- Where there is room already, making it succeeds. -/
theorem makeRoom_spacious (ht : vm.thread? t = some th) (used need : Nat) (hroom : used + need < th.size) :
    (vm.makeRoom t used need).2 = none := by
  have hsize : Thread.grownSize th.size used need = .ok th.size := by
    unfold Thread.grownSize
    rw [if_pos (by omega)]
  unfold makeRoom
  rw [thread_of_some ht]
  dsimp only
  rw [hsize]
  simp

theorem givesTable_enterNative {frame : Frame} (ht : vm.thread? t = some th)
    (hidle : frame.await = .idle) (hg : th.top.await = .guarded)
    (hr : vm.heap.Has vm.heap.registryTable) (hglobals : vm.heap.Has vm.heap.globals)
    (f : Val) (lib : StdLib) (up : Array Val) (args : List Val) :
    GivesTable lib.others t vm.heap th
      (vm.heap.starved = true ∨ ¬ frame.base + args.length + Thread.minRoom < th.size)
      (vm.enterNative t f lib.opener up args frame) := by
  obtain ⟨n, hth, hroom⟩ := makeRoom_cases ht (frame.base + args.length) Thread.minRoom
  have hheap := vm.heap_makeRoom t (frame.base + args.length) Thread.minRoom
  have hgrown : th.Grown { th with size := n } := by
    obtain ⟨th₁, ht₁, hgrown⟩ := grows_makeRoom vm t (frame.base + args.length) Thread.minRoom th ht
    obtain rfl := Option.some.inj (ht₁.symm.trans hth)
    exact hgrown
  have hgranted := mt (makeRoom_spacious ht (frame.base + args.length) Thread.minRoom)
  rcases hmade : vm.makeRoom t (frame.base + args.length) Thread.minRoom with ⟨vm₁, e⟩
  rw [hmade] at hth hroom hheap hgranted
  rcases hroom with rfl | ⟨status, v, handled, rfl⟩
  · rw [enterNative_opener hmade]
    refine (givesTable_act th (thread?_modify hth _) rfl rfl hgrown ?_ rfl hg ?_
      (StdLib.builds_opener hr hglobals lib up args)).imp .inl
    · exact hidle
    · exact hheap ▸ .refl _
  · unfold enterNative
    rw [hmade]
    have hframes : ({ th with size := n } : Thread).frames =
        [] ++ ({ th with size := n } : Thread).top :: ({ th with size := n } : Thread).frames.tail :=
      Thread.frames_eq _
    exact givesTable_raise (.inr (hgranted (Option.some_ne_none _))) hth hframes
      (List.forall_mem_nil _) hg _ _ _

/-- Nothing hinders a native function from being called with so many arguments. -/
structure Unhindered (vm : Vm) (th : Thread) (nargs : Nat) : Prop where
  fed : vm.heap.starved = false
  depth : th.top.depth + 1 < maxNesting
  room : th.used + 1 + nargs + Thread.minRoom < th.size

/-- The opener of a standard library gives a table, unless something hinders it. -/
theorem givesTable_opener (ht : vm.thread? t = some th) (hg : th.top.await = .guarded)
    (hr : vm.heap.Has vm.heap.registryTable) (hglobals : vm.heap.Has vm.heap.globals)
    (lib : StdLib) (args : List Val) :
    GivesTable lib.others t vm.heap th (¬ vm.Unhindered th args.length)
      (vm.enter t (.builtin lib.opener) args { nests := true, canYield := false }) := by
  have hframes : th.frames = [] ++ th.top :: th.frames.tail := th.frames_eq
  have hcallee : callee? vm.heap maxChain (.builtin lib.opener) args
      = .ok (.builtin lib.opener, args) := by
    unfold callee?
    rfl
  have hraise : ¬ vm.Unhindered th args.length → ∀ status v handled,
      GivesTable lib.others t vm.heap th (¬ vm.Unhindered th args.length)
        (vm, .go (.raise status v handled)) := fun hn =>
    givesTable_raise hn ht hframes (List.forall_mem_nil _) hg
  unfold enter
  rw [thread_of_some ht, hcallee]
  dsimp only
  rw [if_pos rfl]
  split
  next hdeep =>
    unfold fail
    refine hraise (fun hu => ?_) _ _ _
    have hdepth := hu.depth
    have heq : th.top.depth + 1 = maxNesting := by simpa using hdeep
    omega
  split
  next hdeep =>
    refine hraise (fun hu => ?_) _ _ _
    have hdepth := hu.depth
    have hle : maxHandling ≤ th.top.depth + 1 := by simpa using hdeep
    have hmax : maxNesting ≤ maxHandling := by decide
    omega
  next =>
    refine (givesTable_enterNative ht rfl hg hr hglobals _ lib _ args).imp fun hreason hu => ?_
    rcases hreason with hstarved | hroom
    · rw [hu.fed] at hstarved
      cases hstarved
    · exact hroom hu.room

end Engine.Vm

variable {σ μ : Type} {code : HostCode σ μ} {c : Context} {w w' : World σ μ} {s : Array Val} {t : Val}
  {libs ran : List StdLib} {lib : StdLib} {n : Nat}

namespace World

/-- A run that needs nothing ends, and leaves its interpreter as it says. -/
theorem exits_runs {r : Vm × Next} {q : Vm × Exit} (h : Vm.Runs c.thread r q) {x : Instance}
    (hx : w.instances[c.vm]? = some x) :
    Exits code ⟨c, r.2, w.modifyVm c.vm fun _ => r.1⟩ q.2 (w.modifyVm c.vm fun _ => q.1) := by
  induction h with
  | exit vm e => exact exits_exit
  | @step vm s r _ ih =>
    refine exits_step ?_
    have hstep : ((w.modifyVm c.vm fun _ => vm).onVm c.vm fun vm => vm.step c.thread s) =
        ((vm.step c.thread s).2, w.modifyVm c.vm fun _ => (vm.step c.thread s).1) := by
      rw [onVm_modifyVm, onVm_eq, hx]
    rw [hstep]
    exact ih

end World

namespace Context

open Engine.Heap

/-- Nothing hinders the opener of a library from being called above so many slots of a stack and the
table of loaded modules. -/
structure Unhindered (c : Context) (k : Nat) (w : World σ μ) : Prop where
  fed : (w.heap c.vm).starved = false
  thread : ∃ th, w.thread? c = some th ∧ th.top.depth + 1 < Vm.maxNesting ∧
    th.top.base + k + 3 + Thread.minRoom < th.size

/-- The moment in which a call enters what it calls. -/
theorem calling_entered (f : Val) (args : List Val) {u : World σ μ} {x : Instance}
    (hx : u.instances[c.vm]? = some x) :
    c.calling f args u =
      let r := (x.vm.modifyThread c.thread (·.setAwait .guarded)).enter c.thread f args
        { nests := true, canYield := false }
      ⟨c, r.2, u.modifyVm c.vm fun _ => r.1⟩ := by
  unfold calling
  dsimp only
  have hcongr := onVm_congr u c.vm
    (f := fun vm => (vm.modifyThread c.thread (·.setAwait .guarded)).enter c.thread f args
      { nests := true, canYield := false })
    (g := fun _ => (x.vm.modifyThread c.thread (·.setAwait .guarded)).enter c.thread f args
      { nests := true, canYield := false }) hx rfl
  rw [hcongr, onVm_eq, hx]

/-- Then nothing hinders the machine either. -/
theorem Unhindered.entering {u : World σ μ} {x : Instance} {th : Thread} {k : Nat}
    (h : c.Unhindered s.size u) (hu : u.Poised c (s.push t) k) (hx : u.instances[c.vm]? = some x)
    (ht : u.thread? c = some th) (v : Val) :
    (x.vm.modifyThread c.thread (·.setAwait .guarded)).Unhindered (th.setAwait .guarded) [v].length := by
  obtain ⟨hfed, th₁, ht₁, hdepth, hroom⟩ := h
  obtain rfl := Option.some.inj (ht₁.symm.trans ht)
  have hcount : th₁.top.count = (s.push t).size := by
    have hd := hu.stands.depth
    unfold World.depth at hd
    rwa [thread_of_some ht] at hd
  have hused : (th₁.setAwait .guarded).used = th₁.top.base + s.size + 1 := by
    rw [Array.size_push] at hcount
    unfold Thread.used Frame.used
    rw [Thread.setAwait, Thread.top_modifyTop]
    change th₁.top.base + th₁.top.count = _
    omega
  refine ⟨?_, ?_, ?_⟩
  · unfold World.heap at hfed
    rw [vm_eq u c.vm hx] at hfed
    exact hfed
  · rw [Thread.setAwait, Thread.top_modifyTop]
    exact hdepth
  · rw [hused, Thread.setAwait, Thread.size_modifyTop, List.length_singleton]
    omega

/-- What the opener of a standard library comes to: a table, or an error if something hinders it. -/
theorem Readied.gives (code : HostCode σ μ) (name : Bytes) {f : Val} {h : Heap} {u : World σ μ}
    (hm : c.Readied s (.native lib.opener) t h f u) (hr : h.Has h.registryTable)
    (hg : h.Has h.globals) :
    ∃ e u', Exits code (c.calling f [.str name] u) e u' ∧ u'.history = u.history ∧
      ((∃ status v, e = .raised status v ∧ ¬ c.Unhindered s.size u) ∨
        ∃ i, e = .returned [.table i] ∧ h.Enriched lib.others (u'.heap c.vm) ∧
          u'.Poised c (s.push t) 4 ∧ Sustains c u u') := by
  obtain ⟨hf, hu, hheap⟩ := hm
  obtain rfl : f = .builtin lib.opener := hf
  obtain ⟨th, ht, -⟩ := hu.roomy
  obtain ⟨x, hx, hth⟩ := Option.bind_eq_some_iff.mp ht
  have hobjects : (x.vm.modifyThread c.thread (·.setAwait .guarded)).heap = h := by
    rw [← hheap _ rfl]
    unfold World.heap
    rw [vm_eq u c.vm hx]
    rfl
  have hgives := Vm.givesTable_opener (Vm.thread?_modify hth (·.setAwait .guarded))
    (by rw [Thread.setAwait, Thread.top_modifyTop]) (hobjects ▸ hr) (hobjects ▸ hg) lib [.str name]
  rw [calling_entered _ _ hx]
  rcases hgives with ⟨hhindered, vm', status, v, hrun⟩ | ⟨vm', i, th', hrun, he, ht', heased⟩
  · exact ⟨_, _, exits_runs hrun hx, rfl, .inl ⟨status, v, rfl, fun hfree =>
      hhindered (hfree.entering hu hx ht _)⟩⟩
  · have hinstance : (u.modifyVm c.vm fun _ => vm').instances[c.vm]? = some { x with vm := vm' } := by
      unfold modifyVm
      rw [instances_modifyInstance_self, hx]
      rfl
    have hafter : (u.modifyVm c.vm fun _ => vm').heap c.vm = vm'.heap := by
      unfold World.heap
      rw [vm_eq _ c.vm hinstance]
    have hth' : (u.modifyVm c.vm fun _ => vm').thread? c = some th' := by
      unfold World.thread?
      rw [hinstance]
      exact ht'
    have heased := heased.of_setAwait
    refine ⟨_, _, exits_runs hrun hx, rfl, .inr ⟨i, rfl, ?_, ?_, ?_⟩⟩
    · rw [hafter]
      exact hobjects ▸ he
    · have hback := heased.inRun [.table i]
      rw [hu.stands.ready ht] at hback
      exact hu.back ht hth' hback heased.size.roomFor
    · refine sustains_silent rfl rfl rfl rfl fun th₁ ht₁ => ⟨th', hth', ?_⟩
      obtain rfl := Option.some.inj (ht₁.symm.trans ht)
      exact heased.sustains

/-! ### Opening libraries -/

/-- A library is among the loaded modules. -/
def Loaded (c : Context) (w : World σ μ) (lib : StdLib) : Prop :=
  ((w.heap c.vm).loadedEntry (Bytes.ofString lib.moduleName)).truthy = true

theorem loaded_not_other (lib : StdLib) : "_LOADED" ∉ lib.others := by
  cases lib <;> decide

/-- Loaded modules are recorded in a table of their own, and stay loaded. -/
theorem loaded_enriched {h h' : Heap} (hr : h.Has h.registryTable)
    (e : h.withLoaded.Enriched lib.others h') :
    h'.loadedTable = h.loadedTable ∧ h'.withLoaded = h' := by
  have hold : ∃ i, h.loadedTable = .table i ∧
      h.withLoaded.rawGet h.withLoaded.registryTable (.text "_LOADED") = .table i := by
    unfold loadedTable withLoaded subtable
    split
    next i hi => exact ⟨i, rfl, hi⟩
    next hnone =>
      refine ⟨_, rfl, ?_⟩
      exact rawGet_rawSet_self (hr.newTable {}) _ _
  obtain ⟨i, htable, hentry⟩ := hold
  have hentry' : h'.rawGet h'.registryTable (.text "_LOADED") = .table i := by
    rw [e.registryTable]
    exact e.loaded i hentry
  rw [htable]
  unfold loadedTable withLoaded subtable
  rw [hentry']
  exact ⟨rfl, rfl⟩

theorem truthy_enriched {h h' : Heap} {name : Bytes} (hr : h.Has h.registryTable)
    (e : h.withLoaded.Enriched lib.others h') (hx : (h.loadedEntry name).truthy = true) :
    (h'.loadedEntry name).truthy = true := by
  obtain ⟨htable, hsame⟩ := loaded_enriched hr e
  unfold loadedEntry at hx ⊢
  rw [htable, hsame]
  exact e.truthy _ _ hx

/-- A library that is opened loads no other one. -/
theorem entry_enriched {h h' : Heap} (hr : h.Has h.registryTable)
    (e : h.withLoaded.Enriched lib.others h') {other : StdLib} (hne : other ≠ lib) :
    h'.loadedEntry (Bytes.ofString other.moduleName) =
      h.loadedEntry (Bytes.ofString other.moduleName) := by
  have hmem : other.moduleName ∈ lib.others := by
    refine List.mem_map.mpr ⟨other, List.mem_filter.mpr ⟨?_, by simpa using hne⟩, rfl⟩
    cases other <;> decide
  obtain ⟨htable, hsame⟩ := loaded_enriched hr e
  unfold loadedEntry
  rw [htable, hsame]
  exact e.spared _ _ hmem

theorem poised_release (h : w.Poised c s n) (v : Value) : (w.release v).Poised c s n :=
  h.of_thread? (thread?_release w c v)

variable {d : Drive σ μ} {x : Val} {r : Except Error Unit × World σ μ} {e : Error}

/-- A library that has been registered is let go of: its value is recorded and published, and leaves
the stack. -/
theorem openLib_registered {v : Value} {w₁ : World σ μ} (h : w₁.Poised c (s.push x) 4)
    (hreg : c.registerModule (Bytes.ofString lib.moduleName) (.native lib.opener) true d w =
      some (.ok v, w₁)) :
    c.openLib lib d w = some (.ok (), (c.cut s.size (w₁.release v)).2) := by
  have hpop : c.pop 1 (w₁.release v) = c.cut s.size (w₁.release v) := by
    have hdepth : ((w₁.release v).depth c : Int) = s.size + 1 := by
      rw [(poised_release h v).stands.depth, Array.size_push]
      rfl
    unfold pop
    rw [if_neg (by decide), Api.bind_ok (show c.top _ = (.ok ((w₁.release v).depth c : Int), _) from rfl)]
    rw [hdepth, show ((s.size : Int) + 1 - 1).toNat = s.size by omega]
    have hsize := h.size_le
    rw [Array.size_push] at hsize
    have hgreatest : (Thread.errorSize : Int) ≤ Word32.greatest := by decide
    have hwindow := Index.resolveWindow_last (show 1 ≤ (s.size : Int) + 1 by omega) (by omega)
    rw [hwindow]
    rfl
  unfold openLib
  refine Act.bind_some.mpr (.inl ⟨v, w₁, hreg, ?_⟩)
  change some (c.pop 1 (w₁.release v)) = _
  rw [hpop]
  rfl

theorem openLib_failed
    (hreg : c.registerModule (Bytes.ofString lib.moduleName) (.native lib.opener) true d w =
      some (.error e, w')) : c.openLib lib d w = some (.error e, w') :=
  Act.bind_some.mpr (.inr ⟨e, hreg, rfl⟩)

/-- What comes of opening a library, and which openers are called for it. -/
inductive Opened (code : HostCode σ μ) (c : Context) (s : Array Val) (lib : StdLib) (w : World σ μ) :
    List StdLib → Except Error Unit × World σ μ → Prop where
  /-- It is loaded already, and nothing runs. -/
  | before {p : Except Error Unit × World σ μ} (hl : c.Loaded w lib)
    (h : ∀ d, c.openLib lib d w = some p) : Opened code c s lib w [] p
  /-- Its opener is called. -/
  | now {m : Moment σ μ} {e : Exit} {u : World σ μ} {p : Except Error Unit × World σ μ}
    (hl : ¬ c.Loaded w lib)
    (hm : c.Opens s (Bytes.ofString lib.moduleName) (.native lib.opener) (w.heap c.vm).loadedTable
      (w.heap c.vm).withLoaded m) (he : Exits code m e u)
    (h : ∀ d : Drive σ μ, d.from m = some (e, u) → c.openLib lib d w = some p) :
    Opened code c s lib w [lib] p

theorem Opened.ends (h : Opened code c s lib w ran r) : Run.Ends code (c.openLib lib) w r := by
  cases h with
  | before _ h => exact ⟨0, h _⟩
  | now _ _ he h =>
    obtain ⟨fuel, he⟩ := he
    exact ⟨fuel, h _ he⟩

/-- The registry and the tables that modules go to are there. -/
structure Equipped (h : Heap) : Prop where
  registry : h.Has h.registryTable
  globals : h.Has h.globals
  loaded : h.withLoaded.Has h.loadedTable

theorem Equipped.enriched {h h' : Heap} (he : Equipped h)
    (e : h.withLoaded.Enriched lib.others h') : Equipped h' := by
  have hall := (enriched_subtable h (loaded_not_other lib)).1.trans e
  obtain ⟨htable, hsame⟩ := loaded_enriched he.registry e
  refine ⟨hall.registryTable ▸ hall.has _ he.registry, hall.globals ▸ hall.has _ he.globals, ?_⟩
  rw [htable, hsame]
  exact e.has _ he.loaded

/-- A value that passes a test is recorded, or published, under the name of a library. -/
theorem enriched_name {h : Heap} (t : Val) (hx : x.truthy = true) :
    h.Enriched lib.others (h.rawSet t (.str (Bytes.ofString lib.moduleName)) x) := by
  have hname : lib.moduleName ∉ "_LOADED" :: lib.others := by cases lib <;> decide
  exact enriched_rawSetText t hx hname

/-- A library whose value is stored is left loaded, with its value off the stack. -/
theorem opened_settled {p : Except Error Value × World σ μ} {h : Heap}
    (hp : Settles c s t (Bytes.ofString lib.moduleName) true x h p) (hx : x.truthy = true)
    (hread : ¬ h.Unreadable x) :
    ∃ w', (∀ d w, c.registerModule (Bytes.ofString lib.moduleName) (.native lib.opener) true d w =
        some p → c.openLib lib d w = some (.ok (), w')) ∧
      w'.Poised c s 5 ∧ h.Enriched lib.others (w'.heap c.vm) ∧ Sustains c p.2 w' ∧
      (w'.heap c.vm).rawGet t (.str (Bytes.ofString lib.moduleName)) = x := by
  cases hp with
  | unread hx' => exact absurd hx' hread
  | @read v w₁ _ hw =>
    obtain ⟨hstored, -, -⟩ := hw
    have hheap : (c.cut s.size (w₁.release v)).2.heap c.vm = w₁.heap c.vm :=
      (heap_modifySlots _ c c.vm _).trans ((alike_release w₁ v).heap c.vm)
    refine ⟨_, fun d w hreg => openLib_registered hstored.stack hreg,
      cut_poised (poised_release hstored.stack v), ?_, ?_, ?_⟩
    · rw [hheap, hstored.objects]
      exact enriched_name _ hx
    · exact (sustains_release w₁ v).trans
        ((works_sustains (fun _ => True) c).keeps_cut c s.size trivial _)
    · rw [hheap]
      exact hstored.entry

/-- An entry of a library that passes a test shows that it is loaded. -/
theorem loaded_of_entry {h : Heap} (he : Equipped h)
    (e : h.withLoaded.Enriched lib.others (w'.heap c.vm)) (hx : x.truthy = true)
    (hentry : (w'.heap c.vm).rawGet h.loadedTable (.str (Bytes.ofString lib.moduleName)) = x) :
    c.Loaded w' lib := by
  obtain ⟨htable, hsame⟩ := loaded_enriched he.registry e
  unfold Loaded loadedEntry
  rw [htable, hsame, hentry]
  exact hx

theorem not_unreadable_table (h : Heap) (i : Nat) : ¬ h.Unreadable (.table i) := by
  rintro ⟨⟨j, hj⟩, -⟩
  cases hj

theorem Unhindered.sustained {k : Nat} (h : c.Unhindered k w) (hs : Sustains c w w')
    (hf : (w'.heap c.vm).starved = (w.heap c.vm).starved) : c.Unhindered k w' := by
  obtain ⟨hfed, th, ht, hdepth, hroom⟩ := h
  obtain ⟨th', ht', hth⟩ := hs.thread th ht
  refine ⟨hf.trans hfed, th', ht', by rw [hth.depth]; exact hdepth, ?_⟩
  rw [hth.base]
  exact Nat.lt_of_lt_of_le hroom hth.size

/-- How the opening of a library ends. It is loaded, and so are those that were loaded before; or
something has hindered it, and the stack is as it was, or what is recorded under its name cannot be
read. -/
def Ended (c : Context) (s : Array Val) (lib : StdLib) (w : World σ μ) :
    Except Error Unit × World σ μ → Prop
  | (.ok (), w') => w'.Poised c s 5 ∧
    (w.heap c.vm).withLoaded.Enriched lib.others (w'.heap c.vm) ∧ c.Loaded w' lib ∧ Sustains c w w'
  | (.error _, w') => (¬ c.Unhindered s.size w ∧ w'.Stands c s) ∨
    (w.heap c.vm).Unreadable ((w.heap c.vm).loadedEntry (Bytes.ofString lib.moduleName))

/-- A library that is loaded is let be. -/
theorem opened_before (code : HostCode σ μ) (h : c.Admits s w) (he : Equipped (w.heap c.vm))
    (hl : c.Loaded w lib) :
    ∃ p, Opened code c s lib w [] p ∧ p.2.history = w.history ∧ c.Ended s lib w p := by
  obtain ⟨⟨r, w₁⟩, hreg, hsustains, hp⟩ :=
    registerModule_loaded h hl fun _ => he.globals
  by_cases hread : (w.heap c.vm).withLoaded.Unreadable ((w.heap c.vm).loadedEntry
      (Bytes.ofString lib.moduleName))
  · cases hp with
    | read hx => exact absurd hread hx
    | unread =>
      exact ⟨(_, w₁), .before hl fun d => openLib_failed (hreg _ d), hsustains.history,
        .inr ⟨hread.1, mt (recorded_withLoaded _).mpr hread.2⟩⟩
  · obtain ⟨w', hopen, hpoised, henriched, hlast, hentry⟩ := opened_settled hp hl hread
    have hall := hsustains.trans hlast
    exact ⟨(.ok (), w'), .before hl fun d => hopen d w (hreg _ d), hall.history, hpoised, henriched,
      loaded_of_entry he henriched hl hentry, hall⟩

/-- A library that is not loaded is opened, once. -/
theorem opened_now (code : HostCode σ μ) (h : c.Admits s w) (he : Equipped (w.heap c.vm))
    (hl : ¬ c.Loaded w lib) :
    ∃ p, Opened code c s lib w [lib] p ∧ p.2.history = w.history ∧ c.Ended s lib w p := by
  obtain ⟨f, u, hreadied, hlaunching, hreg⟩ := registerModule_fresh h (Bool.eq_false_iff.mpr hl)
    (.native lib.opener) true
  have hloading : (w.heap c.vm).Enriched lib.others (w.heap c.vm).withLoaded :=
    (enriched_subtable (w.heap c.vm) (loaded_not_other lib)).1
  have hregistry : (w.heap c.vm).withLoaded.Has (w.heap c.vm).withLoaded.registryTable := by
    rw [hloading.registryTable]
    exact hloading.has _ he.registry
  have hglobals : (w.heap c.vm).withLoaded.Has (w.heap c.vm).withLoaded.globals := by
    rw [hloading.globals]
    exact hloading.has _ he.globals
  obtain ⟨e, u', hexits, hsame, hout⟩ := hreadied.gives code (Bytes.ofString lib.moduleName)
    hregistry hglobals
  have hcompleted : ∀ d : Drive σ μ,
      d.from (c.calling f [.str (Bytes.ofString lib.moduleName)] u) = some (e, u') →
      c.registerModule (Bytes.ofString lib.moduleName) (.native lib.opener) true d w =
        some (c.completed s.size (Bytes.ofString lib.moduleName) true e u') := fun d hd => by
    rw [hreg, hd]
    rfl
  have hcompleting : Sustains c u' (c.completed s.size (Bytes.ofString lib.moduleName) true e u').2 :=
    sustains_completed true e u'
  have hkept := hcompleting.history.trans (hsame.trans hlaunching.history)
  rcases hout with ⟨status, v, rfl, hhindered⟩ | ⟨i, rfl, henriched, hpoised, hrunning⟩
  · obtain ⟨e, w', hfailed⟩ : ∃ e w', c.completed s.size (Bytes.ofString lib.moduleName) true
        (.raised status v) u' = (.error e, w') := ⟨_, _, rfl⟩
    rw [hfailed] at hcompleted hkept
    refine ⟨(.error e, w'), .now hl hreadied.opens hexits fun d hd => openLib_failed (hcompleted d hd),
      hkept, .inl ⟨fun hfree => hhindered (hfree.sustained hlaunching ?_), ?_⟩⟩
    · rw [hreadied.objects _ rfl]
      exact hloading.starved
    · obtain ⟨hback, -⟩ := hreadied.opens.exit hexits.choose_spec
        (unclosed_of_history (hsame.trans (history_calling ..).symm))
      obtain ⟨e₁, w₁, hfailed₁, hs, -⟩ := completed_raised hback.stands
        (Bytes.ofString lib.moduleName) true status v
      obtain ⟨-, rfl⟩ := Prod.mk.inj (hfailed.symm.trans hfailed₁)
      exact hs
  · have hhas : (u'.heap c.vm).Has (u'.heap c.vm).globals := by
      rw [henriched.globals]
      exact henriched.has _ hglobals
    have hsettles : Settles c s (w.heap c.vm).loadedTable (Bytes.ofString lib.moduleName) true
        (.table i) _ _ :=
      completed_returned hpoised [.table i] (henriched.has _ he.loaded) fun _ => hhas
    generalize c.completed s.size (Bytes.ofString lib.moduleName) true _ u' = p at *
    obtain ⟨w', hopened, hpoised', henriched', hlast, hentry⟩ :=
      opened_settled hsettles rfl (not_unreadable_table _ i)
    have hall := henriched.trans ((enriched_name _ rfl).trans henriched')
    exact ⟨(.ok (), w'), .now hl hreadied.opens hexits fun d hd => hopened d w (hcompleted d hd),
      hlast.history.trans hkept, hpoised', hall, loaded_of_entry he hall rfl hentry,
      hlaunching.trans (hrunning.trans (hcompleting.trans hlast))⟩

/-- A library is opened, unless it is loaded. -/
theorem opened_library (code : HostCode σ μ) (h : c.Admits s w) (he : Equipped (w.heap c.vm))
    (lib : StdLib) :
    ∃ ran p, Opened code c s lib w ran p ∧ p.2.history = w.history ∧ c.Ended s lib w p ∧
      (ran = [] ∧ c.Loaded w lib ∨ ran = [lib] ∧ ¬ c.Loaded w lib) := by
  by_cases hl : c.Loaded w lib
  · obtain ⟨p, hopened, hhistory, hended⟩ := opened_before code h he hl
    exact ⟨[], p, hopened, hhistory, hended, .inl ⟨rfl, hl⟩⟩
  · obtain ⟨p, hopened, hhistory, hended⟩ := opened_now code h he hl
    exact ⟨[lib], p, hopened, hhistory, hended, .inr ⟨rfl, hl⟩⟩

/-! ### A list of libraries -/

/-- What comes of opening a list of libraries, and which openers are called in turn. -/
inductive AllOpened (code : HostCode σ μ) (c : Context) (s : Array Val) :
    List StdLib → World σ μ → List StdLib → Except Error Unit × World σ μ → Prop where
  | nil (w : World σ μ) : AllOpened code c s [] w [] (.ok (), w)
  | cons {lib : StdLib} {libs ran ran' : List StdLib} {w w₁ : World σ μ}
    {p : Except Error Unit × World σ μ} (h : Opened code c s lib w ran (.ok (), w₁))
    (hs : AllOpened code c s libs w₁ ran' p) : AllOpened code c s (lib :: libs) w (ran ++ ran') p
  /-- The rest is not opened. -/
  | failed {lib : StdLib} {libs ran : List StdLib} {w w₁ : World σ μ} {e : Error}
    (h : Opened code c s lib w ran (.error e, w₁)) :
    AllOpened code c s (lib :: libs) w ran (.error e, w₁)

theorem AllOpened.ends (h : AllOpened code c s libs w ran r) :
    Run.Ends code (c.openLibs libs) w r := by
  induction h with
  | nil w => exact ⟨0, rfl⟩
  | @cons lib libs ran ran' w w₁ p h _ ih =>
    obtain ⟨n, h⟩ := h.ends
    obtain ⟨n', h'⟩ := ih
    have hfirst := (Run.laid.traversal.openLib c lib trivial).mono
      (below_drive code (Nat.le_max_left n n')) h
    have hrest := (Run.laid.traversal.openLibs c libs trivial).mono
      (below_drive code (Nat.le_max_right n n')) h'
    exact ⟨max n n', Act.bind_some.mpr (.inl ⟨(), w₁, hfirst, hrest⟩)⟩
  | failed h =>
    obtain ⟨fuel, h⟩ := h.ends
    exact ⟨fuel, Act.bind_some.mpr (.inr ⟨_, h, rfl⟩)⟩

/-- Every library of a list is opened once, unless it was loaded before, and the stack is left as it
was. -/
theorem openLibs_once (code : HostCode σ μ) (h : c.Admits s w) (hs : w.Stands c s)
    (he : Equipped (w.heap c.vm)) (libs : List StdLib) :
    ∃ ran r, AllOpened code c s libs w ran r ∧ ran.Nodup ∧
      (∀ lib ∈ ran, lib ∈ libs ∧ ¬ c.Loaded w lib) ∧
      (r.1 = .ok () → ∀ lib ∈ libs, c.Loaded w lib ∨ lib ∈ ran) ∧
      (r.1 = .ok () ∨ (w.heap c.vm).Recorded → r.2.Stands c s) := by
  induction libs generalizing w with
  | nil => exact ⟨[], (.ok (), w), .nil w, .nil, nofun, fun _ => nofun, fun _ => hs⟩
  | cons lib libs ih =>
    obtain ⟨ran, ⟨r, w₁⟩, hopened, -, hended, hran⟩ := opened_library code h he lib
    have hmem : ∀ lib' ∈ ran, lib' = lib ∧ ¬ c.Loaded w lib := by
      rintro lib' hlib
      rcases hran with ⟨rfl, -⟩ | ⟨rfl, hl⟩
      · cases hlib
      · exact ⟨List.mem_singleton.mp hlib, hl⟩
    cases r with
    | error e =>
      refine ⟨ran, (.error e, w₁), .failed hopened, ?_, fun lib' hlib => ?_, nofun, ?_⟩
      · rcases hran with ⟨rfl, -⟩ | ⟨rfl, -⟩ <;> simp
      · obtain ⟨rfl, hl⟩ := hmem lib' hlib
        exact ⟨List.mem_cons_self .., hl⟩
      · rintro (hok | hrecorded)
        · cases hok
        · exact (hended.resolve_right fun hn => hn.2 hrecorded).2
    | ok _ =>
      obtain ⟨hpoised, henriched, hloaded, -⟩ := hended
      obtain ⟨ran', r, hall, hnodup, hin, hcover, hstands⟩ := ih (admits_poised hpoised)
        hpoised.stands (he.enriched henriched)
      have hkeeps : ∀ lib', c.Loaded w lib' → c.Loaded w₁ lib' := fun lib' hl =>
        truthy_enriched he.registry henriched hl
      refine ⟨ran ++ ran', r, .cons hopened hall, ?_, fun lib' hlib => ?_,
        fun hok lib' hlib => ?_, fun hok => hstands (hok.imp_right fun hr => ?_)⟩
      · refine List.nodup_append.mpr ⟨?_, hnodup, fun lib₁ h₁ lib₂ h₂ he => ?_⟩
        · rcases hran with ⟨rfl, -⟩ | ⟨rfl, -⟩ <;> simp
        · obtain ⟨rfl, -⟩ := hmem lib₁ h₁
          exact (hin lib₂ h₂).2 (he ▸ hloaded)
      · rcases List.mem_append.mp hlib with hlib | hlib
        · obtain ⟨rfl, hl⟩ := hmem lib' hlib
          exact ⟨List.mem_cons_self .., hl⟩
        · obtain ⟨hin, hl⟩ := hin lib' hlib
          exact ⟨List.mem_cons_of_mem _ hin, mt (hkeeps lib') hl⟩
      · by_cases hsame : lib' = lib
        · subst hsame
          rcases hran with ⟨-, hl⟩ | ⟨rfl, -⟩
          · exact .inl hl
          · exact .inr (List.mem_cons_self ..)
        · refine (hcover hok lib' ((List.mem_cons.mp hlib).resolve_left hsame)).imp (fun hl => ?_)
            (List.mem_append_right ran)
          unfold Loaded at hl ⊢
          rwa [← entry_enriched he.registry henriched hsame]
      · exact henriched.recorded.mpr ((recorded_withLoaded _).mpr hr)

/-- In an interpreter that has its record, the libraries of a list are all opened if nothing hinders
that. -/
theorem openLibs_unhindered (code : HostCode σ μ) (h : c.Admits s w) (he : Equipped (w.heap c.vm))
    (hr : (w.heap c.vm).Recorded) (hfree : c.Unhindered s.size w) (libs : List StdLib) :
    ∃ ran w', AllOpened code c s libs w ran (.ok (), w') ∧ Sustains c w w' := by
  induction libs generalizing w with
  | nil => exact ⟨[], w, .nil w, .refl w⟩
  | cons lib libs ih =>
    obtain ⟨ran, ⟨r, w₁⟩, hopened, -, hended, -⟩ := opened_library code h he lib
    cases r with
    | error e => exact (hended.elim (fun hn => hn.1 hfree) fun hn => hn.2 hr).elim
    | ok _ =>
      obtain ⟨hpoised, henriched, -, hsustains⟩ := hended
      have hall := (enriched_subtable (w.heap c.vm) (loaded_not_other lib)).1.trans henriched
      obtain ⟨ran', w', hrest, hsustains'⟩ := ih (admits_poised hpoised) (he.enriched henriched)
        (hall.recorded.mpr hr) (hfree.sustained hsustains hall.starved)
      exact ⟨ran ++ ran', w', .cons hopened hrest, hsustains.trans hsustains'⟩

end Context
end LuaEmbed
