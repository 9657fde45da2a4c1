import LuaEmbed.Proofs.Closing
import LuaEmbed.Proofs.Reading
import LuaEmbed.Proofs.Upkeep

/-!
Whatever a host does, references to host objects are accounted for: every userdata that a push created is
finalized once, and its reference released then and not before, or it is still there, or it has been freed
when its finalizer was not to come any more.
-/
namespace LuaEmbed

open Engine Owning

variable {σ μ α : Type} {w w' : World σ μ} {c : Context} {d : Drive σ μ}

/-- Nothing is owed, and userdata are left alone. -/
def Engine.Next.Calm (next : Next) : Prop := next.debt = none ∧ ∀ h, next.Tame h

namespace World

theorem vm_birth (w : World σ μ) (vm : Vm) (name : Bytes) (hook : HookRegister) (i : Nat) :
    (World.vm { w with instances := w.instances.push { vm, chunkName := name }, hook } i) =
      if i = w.instances.size then vm else w.vm i := by
  unfold World.vm
  dsimp only
  rw [Array.getElem?_push]
  split <;> rfl

/-- A new interpreter has no userdata. -/
theorem abides_birth (w : World σ μ) (n : Nat) (name : Bytes) (hook : HookRegister) :
    w.Abides { w with instances := w.instances.push { vm := freshVm n, chunkName := name }, hook } := by
  have hnew : w.vm w.instances.size = default := by
    unfold World.vm
    rw [Array.getElem?_eq_none (Nat.le_refl _)]
    rfl
  refine Bears.abides ⟨fun i => ?_, rfl, rfl, fun _ => Iff.rfl⟩ fun hw i => ?_
  · rw [heap, heap, vm_birth]
    split
    next hi =>
      subst hi
      rw [hnew]
      exact Heap.carries_of_userdata rfl rfl rfl rfl
    next => exact .refl _
  · rw [vm_birth]
    split
    · intro t th ht
      have hmain : th = {} := by
        have hin := Array.mem_of_getElem? ht
        exact List.mem_singleton.mp (Array.mem_def.mp hin)
      rw [hmain]
      exact Thread.tame_ground trivial
    · exact hw i

theorem calm_failing (h : Heap) (text : String) : (Next.go (failing h text)).Calm := by
  unfold failing
  split <;> exact ⟨rfl, fun _ => trivial⟩

theorem Noted.keeps {f : World σ μ → α × World σ μ} (h : ∀ w, Noted w (f w).2) :
    (Run.onWorld f).Keeps Abides d :=
  Run.keeps_onWorld fun w => (h w).abides

section

variable (hd : d.Discharges)

include hd

theorem abides_housekeeping : Housekeeping fun (α : Type) (m : Run σ μ α) => m.Keeps Abides d where
  bind := Abides.bind
  noted := Noted.keeps
  shutDown := abides_shutDown hd

/-- Every operation keeps the account right. -/
theorem abides_traversal :
    Traversal (fun _ => True) Abides fun (α : Type) (m : Run σ μ α) => m.Keeps Abides d where
  bind := Abides.bind
  effects := effects_abides _
  quiet := Run.keeps_onWorld
  invoke c f args _ := abides_invoke hd c f args
  resumeWith source co n _ := abides_resumeWith hd source co n
  finalize c v _ := abides_finalize hd c v
  pause c _ w e w' h hw :=
    have hready : w.Ready c (.need .pause) := ⟨hw, trivial, fun hne => absurd rfl hne⟩
    hd c _ w e w' hready h hw
  birth vm name hook := Run.keeps_update fun w => abides_birth w vm name (hook w)
  dropOwner := (abides_housekeeping hd).dropOwner
  view h := (abides_housekeeping hd).view h true
  dropView v := (abides_housekeeping hd).dropView v true
  withView h _ _ _ ha := (abides_housekeeping hd).withView h fun c => ha c trivial

/-- A host function runs, and the thread goes on calmly. -/
theorem abides_runHost (code : HostCode σ μ) (id : Option Nat) {next : Next}
    (h : runHost code c id d w = some (next, w')) : w.Abides w' ∧ next.Calm := by
  have H : Meeting (fun _ m => m.Keeps Abides d) c fun m : Run σ μ Next =>
      ∀ w next w', m d w = some (next, w') → w.Abides w' ∧ next.Calm :=
    { after := fun hm hk _ _ _ h => by
        obtain ⟨a, w₁, ha, hb⟩ := Run.bind_some.mp h
        obtain ⟨hrest, hcalm⟩ := hk a _ _ _ hb
        exact ⟨(hm _ _ _ ha).trans hrest, hcalm⟩
      endHost := fun n w _ _ h => by
        obtain ⟨rfl, rfl⟩ := Run.onVm_some.mp h
        refine ⟨?_, ?_⟩
        · rw [onVm_world]
          exact abides_modifyThread c fun _ => Thread.tame_popFrame
        · rw [onVm_eq]
          split <;> exact ⟨rfl, fun _ => trivial⟩
      raiseHost := fun text w _ _ h => by
        obtain ⟨_, w₁, hr, h⟩ := Run.bind_some.mp h
        obtain ⟨-, rfl⟩ := Prod.mk.inj (Option.some.inj hr)
        obtain ⟨_, _, hget, h⟩ := Run.bind_some.mp h
        obtain ⟨rfl, rfl⟩ := Prod.mk.inj (Option.some.inj hget)
        obtain ⟨rfl, rfl⟩ := Prod.mk.inj (Option.some.inj h)
        exact ⟨(effects_abides fun _ => True).reserve w c 1, calm_failing _ _⟩
      unwind := fun _ _ _ h => by cases h
      released := fun shape id hm w _ _ h => by
        obtain ⟨_, w₁, h₁, h⟩ := Run.bind_some.mp h
        obtain ⟨_, w₂, hr, h⟩ := Run.bind_some.mp h
        obtain ⟨-, rfl⟩ := Prod.mk.inj (Option.some.inj hr)
        obtain ⟨rfl, rfl⟩ := Prod.mk.inj (Option.some.inj h)
        obtain ⟨hrest, hcalm⟩ := hm _ _ _ h₁
        exact ⟨hrest.trans (abides_release w₁ _), hcalm⟩ }
  exact H.runHost (abides_traversal hd) code id _ _ _ h

omit hd in
/-- A native function goes on. -/
theorem abides_answer {f : Heap → Heap × Action} (hf : ∀ g, Goes g (f g)) {next : Next} (hw : w.Tame)
    (h : answer c f d w = some (next, w')) : w'.Ready c next ∧ w.Abides (w'.discharged next) := by
  obtain ⟨rfl, rfl⟩ := Run.onVm_some.mp h
  exact ready_onVm hw (f := fun vm => vm.onHeap f)
    (fun hvm => Vm.leads_onHeap hvm (.refl _) (hf _)) c.thread

/-- What is demanded is met, what was owed is let go of, and the thread can go on. -/
theorem abides_meet (code : HostCode σ μ) {demand : Demand} {next : Next} (hr : w.Ready c (.need demand))
    (h : meet code c demand d w = some (next, w')) :
    w'.Ready c next ∧ (w.discharged (.need demand)).Abides (w'.discharged next) := by
  have T := abides_traversal hd
  have hafter : ∀ {β : Type} {m : Run σ μ β} {f : β → Heap → Heap × Action} {w : World σ μ}, w.Tame →
      (∀ b w₁, m d w = some (b, w₁) → w.Abides w₁) → (∀ b g, Goes g (f b g)) →
      (m >>= fun b => answer c (f b)) d w = some (next, w') →
      w'.Ready c next ∧ w.Abides (w'.discharged next) := by
    intro β m f w hw hm hf h
    obtain ⟨b, w₁, hb, ha⟩ := Run.bind_some.mp h
    have hfirst := hm b w₁ hb
    obtain ⟨hready, hrest⟩ := abides_answer (hf b) (hfirst hw).1 ha
    exact ⟨hready, hfirst.trans hrest⟩
  have htame := hr.tame
  cases demand with
  | host isList id =>
    obtain ⟨habides, hdebt, hcalm⟩ := abides_runHost hd code id h
    have hsame : w'.discharged next = w' := by rw [discharged, hdebt]
    rw [hsame]
    exact ⟨⟨(habides hr.threads).1, hcalm _, fun hne => absurd hdebt hne⟩, habides⟩
  | resume thread args k =>
    exact hafter hr.threads (fun _ _ => T.resumeFor c thread args trivial _ _ _) htame h
  | close thread onlyFailed k =>
    exact hafter hr.threads (fun _ _ => abides_closeFor hd c thread onlyFailed _ _ _) htame h
  | collect k =>
    -- The demand is made by an interpreter that is not collecting.
    exact hafter (f := fun _ => k) hr.threads (fun _ _ => abides_collect hd htame.1) (fun _ => htame.2) h
  | turn | pause =>
    obtain ⟨_, w₁, hturn, hnext⟩ := Run.bind_some.mp h
    obtain ⟨rfl, rfl⟩ := Prod.mk.inj (Option.some.inj hnext)
    have habides := abides_turn hd c _ _ _ hturn
    exact ⟨⟨(habides hr.threads).1, trivial, fun hne => absurd rfl hne⟩, habides⟩
  | release p k =>
    obtain ⟨_, w₁, hb, ha⟩ := Run.bind_some.mp h
    obtain ⟨-, rfl⟩ := Prod.mk.inj (Option.some.inj hb)
    exact abides_answer htame (tame_congr (instances_releasePayload p).1 hr.threads) ha

end

/-- Work on an interpreter that changes nothing. -/
theorem onVm_same {i : Nat} {β : Type} [Inhabited β] {f : Vm → Vm × β} (h : (f (w.vm i)).1 = w.vm i) :
    (w.onVm i f).2 = w := by
  rw [onVm_eq]
  cases hx : w.instances[i]? with
  | none => rfl
  | some x =>
    rw [vm_eq w i hx] at h
    have hinst : w.instances.modify i (fun y => { y with vm := (f y.vm).1 }) = w.instances := by
      apply Array.ext_getElem?
      intro j
      rw [Array.getElem?_modify]
      split
      next hj =>
        subst hj
        rw [hx, Option.map_some, h]
      next => rfl
    dsimp only
    rw [modifyVm, modifyInstance, hinst]

/-- However long it runs, a thread lets go of what it owes and keeps the account right. -/
theorem discharges_drive (code : HostCode σ μ) (fuel : Nat) : (drive code fuel).Discharges := by
  induction fuel with
  | zero => rintro c next w e w' - ⟨⟩
  | succ fuel ih =>
    intro c next w e w' hr h
    cases next with
    | exit e =>
      obtain ⟨-, rfl⟩ := Prod.mk.inj (Option.some.inj h)
      exact .refl w
    | need demand =>
      obtain ⟨next, w₁, hmet, hgo⟩ := drive_need h
      obtain ⟨hready, habides⟩ := abides_meet ih code hr hmet
      exact habides.trans (ih _ _ _ _ _ hready hgo)
    | go s =>
      let f := fun vm : Vm => vm.step c.thread s
      have hgo : drive code fuel c (w.onVm c.vm f).1 (w.onVm c.vm f).2 = some (e, w') := h
      obtain ⟨hthreads, hnext, hheap⟩ := Vm.leads_step (hr.threads c.vm) c.thread hr.tame
      cases hdebt : Next.debt (.go s) with
      | none =>
        rw [hdebt] at hheap
        have hsame : w.discharged (.go s) = w := by rw [discharged, hdebt]
        rw [hsame]
        obtain ⟨hready, habides⟩ :=
          ready_onVm hr.threads (f := f) (fun _ => ⟨hthreads, hnext, hheap⟩) c.thread
        exact habides.trans (ih _ _ _ _ _ hready hgo)
      | some p =>
        -- The step only asks for what is owed to be let go of, and changes nothing.
        rw [hdebt] at hheap
        obtain ⟨hdebt', hvm⟩ := hheap
        obtain ⟨x, hx⟩ := Option.ne_none_iff_exists'.mp (hr.there (by rw [hdebt]; nofun))
        rw [onVm_same (f := f) hvm, onVm_answer w c.vm f hx, ← vm_eq w c.vm hx] at hgo
        rw [hvm] at hnext
        have hready : w.Ready c (f (w.vm c.vm)).2 := ⟨hr.threads, hnext, fun _ => by rw [hx]; nofun⟩
        have hsame : w.discharged (.go s) = w.discharged (f (w.vm c.vm)).2 := by
          rw [discharged, discharged, hdebt, hdebt']
        rw [hsame]
        exact ih _ _ _ _ _ hready hgo

/-- Every host program keeps the account right. -/
theorem abides_run (code : HostCode σ μ) (fuel : Nat) (p : Program σ μ α) {a : α}
    (h : p.run code fuel w = some (a, w')) : w.Abides w' :=
  (abides_traversal (discharges_drive code fuel)).program p _ _ _ h

/-! ### What is there -/

/-- The metatable of a userdata is the one that is registered for foreign objects. -/
def Badged (w : World σ μ) (i n : Nat) : Prop :=
  ∃ m, (w.heap i).rawGet (w.heap i).registryTable (.text foreignMeta) = .table m ∧
    (w.heap i).metatable? (.userdata n) = some m

/-- The foreign object that a value is found to carry. -/
theorem foreignOf?_iff (w : World σ μ) (c : Context) (v : Val) (id : Nat) :
    w.foreignOf? c v = some id ↔
      ∃ n, v = .userdata n ∧ (w.heap c.vm).carried? n = some (.foreign id) ∧ w.Badged c.vm n := by
  cases v with
  | userdata n =>
    unfold foreignOf? Heap.carried? Badged Heap.metatable?
    dsimp only
    cases hu : (w.heap c.vm).userdata.get? n with
    | none => simp [hu]
    | some u =>
      obtain ⟨payload, size, meta_⟩ := u
      cases hreg : (w.heap c.vm).rawGet (w.heap c.vm).registryTable (.text foreignMeta) <;>
        cases payload <;> simp [hu, Payload.asset?, and_comm]
  | _ => simp [foreignOf?]

/-- The function that a host closure finds in its carrier. -/
theorem hostFunction?_iff (h : Heap) (n id : Nat) :
    Vm.hostFunction? h #[.userdata n] = some id ↔ h.carried? n = some (.function id) := by
  have hfirst : (#[Val.userdata n])[0]? = some (.userdata n) := rfl
  unfold Vm.hostFunction? Heap.carried?
  rw [hfirst]
  dsimp only
  cases hu : h.userdata.get? n with
  | none => simp
  | some u =>
    obtain ⟨payload, size, meta_⟩ := u
    cases payload <;> simp [Payload.asset?]

/-- A call that comes to ask for a host function asks for the one in the carrier. -/
theorem hostFunction_of_enter {vm vm' : Vm} {t i : Nat} {b : Builtin} {up : Array Val} {args : List Val}
    {m : Manner} {isList : Bool} {id : Option Nat} (hf : vm.heap.closures.get? i = some (.native b up))
    (h : vm.enter t (.closure i) args m = (vm', .need (.host isList id))) :
    id = Vm.hostFunction? vm.heap up := by
  have hcallee : Vm.callee? vm.heap Vm.maxChain (.closure i) args = .ok (.closure i, args) := rfl
  unfold Vm.enter at h
  dsimp only at h
  generalize (if m.nests = true then _ else _) = depth at h
  split at h
  · cases h
  split at h
  · cases h
  rw [hcallee] at h
  simp only [hf] at h
  unfold Vm.enterNative at h
  split at h
  · cases h
  next vm₁ hroom =>
    have hheap : vm₁.heap = vm.heap := by
      rw [← vm.heap_makeRoom t _ _, hroom]
    dsimp only at h
    split at h
    · cases h
      exact congrArg (Vm.hostFunction? · up) hheap
    · cases h
      exact congrArg (Vm.hostFunction? · up) hheap
    · cases h

end World

/-- What there is to say about userdata and references in a world with this account. -/
structure World.Releases (w : World σ μ) (es : List Owning) : Prop where
  /-- Each time that it was pushed, a userdata has been finalized once, or freed without that, or it is still
  there. -/
  once : ∀ k, pushes es k = es.count (.finalized k) + es.count (.lost k) + (standing es).count k
  /-- It is there until then, with its reference. -/
  present : ∀ k, k ∈ standing es ↔ (w.heap k.vm).carried? k.userdata = some k.asset
  /-- The references are those of the owners on the host's side and of the userdata that have not been
  finalized. -/
  counted : Honest es → ∀ x, w.strong x = owners es x + unfinalized es x
  /-- If all userdata were to be finalized from the beginning and none missed its turn, none has gone without
  that, and an interpreter that is being closed has none but those whose turn is still to come. -/
  served : Served es → stranded es = [] ∧ ∀ k ∈ standing es, .closed k.vm ∈ w.history → k ∈ waiting es
  /-- A slot is read as a foreign object exactly if it holds a userdata that was pushed for that object and
  has not been finalized. -/
  read : ∀ c i r w', c.readForeign i w = (.ok r, w') → ∃ pos, c.resolve i w = (.ok pos, w) ∧
    ∀ v, r = some v ↔ ∃ id n, v = .foreign id ∧ w.at_ c pos = .userdata n ∧
      ⟨.foreign id, c.vm, n⟩ ∈ standing es ∧ w.Badged c.vm n
  /-- A call of a host closure asks for the function whose carrier has not been finalized, and which is still
  there for that reason. -/
  asks : ∀ (c : Context) i b n args m isList id w',
    (w.heap c.vm).closures.get? i = some (.native b #[.userdata n]) →
    w.onVm c.vm (fun vm => vm.enter c.thread (.closure i) args m) = (.need (.host isList id), w') →
    (∀ f, id = some f ↔ ⟨.function f, c.vm, n⟩ ∈ standing es) ∧
    (Honest es → ∀ f, id = some f → ∃ x, w.functions.get? f = some x)
  /-- And without one the call fails, with this text if there is memory for it. -/
  refuses : ∀ code (c : Context) isList d, meet code c (.host isList none) d w =
    some (.go (failing ((w.reserve c 1).2.heap c.vm) "host function was already collected"),
      (w.reserve c 1).2)

namespace Account.Accounted

variable {es : List Owning}

theorem served (ha : Accounted ⟨w, es⟩) (hs : Served es) :
    stranded es = [] ∧ ∀ k ∈ standing es, .closed k.vm ∈ w.history → k ∈ waiting es := by
  obtain ⟨hexempt, hstranded⟩ := ha.orderly.served hs
  refine ⟨hstranded, fun k hk hc => (ha.closed k hk hc).resolve_left fun hx => ?_⟩
  dsimp only at hx
  rw [hexempt] at hx
  cases hx

theorem read (ha : Accounted ⟨w, es⟩) {i : Int} {r : Option Value}
    (h : c.readForeign i w = (.ok r, w')) : ∃ pos, c.resolve i w = (.ok pos, w) ∧ ∀ v, r = some v ↔
      ∃ id n, v = .foreign id ∧ w.at_ c pos = .userdata n ∧ ⟨.foreign id, c.vm, n⟩ ∈ standing es ∧
        w.Badged c.vm n := by
  unfold Context.readForeign at h
  obtain ⟨pos, w₁, hpos, hrest⟩ := Api.bind_eq_ok h
  obtain ⟨rfl, -⟩ := Context.resolve_ok hpos
  obtain ⟨_, w₂, hroom, hread⟩ := Api.bind_eq_ok hrest
  have halike := (c.steady_checkStack 2).related hroom
  refine ⟨pos, hpos, fun v => ?_⟩
  have hfound : ∀ id, w₂.foreignOf? c (w₂.at_ c pos) = some id ↔
      ∃ n, w₁.at_ c pos = .userdata n ∧ ⟨.foreign id, c.vm, n⟩ ∈ standing es ∧ w₁.Badged c.vm n := by
    intro id
    rw [World.foreignOf?_iff, halike.at_ c pos, halike.heap c.vm]
    unfold World.Badged
    rw [halike.heap c.vm]
    simp only [ha.carried]
  split at hread
  next id hid =>
    obtain ⟨n, hn⟩ := (hfound id).mp hid
    obtain rfl := Except.ok.inj (Prod.mk.inj hread).1
    constructor
    · intro hv
      exact ⟨id, n, (Option.some.inj hv).symm, hn⟩
    · rintro ⟨id', n', rfl, hn'⟩
      have hid' := (hfound id').mpr ⟨n', hn'⟩
      rw [hid] at hid'
      rw [Option.some.inj hid']
  next hnone =>
    obtain rfl := Except.ok.inj (Prod.mk.inj hread).1
    refine ⟨fun hv => absurd hv.symm (Option.some_ne_none v), ?_⟩
    rintro ⟨id, n, -, hn⟩
    rw [(hfound id).mpr ⟨n, hn⟩] at hnone
    cases hnone

theorem asks (ha : Accounted ⟨w, es⟩) {i n : Nat} {b : Builtin} {args : List Val} {m : Manner}
    {isList : Bool} {id : Option Nat}
    (hf : (w.heap c.vm).closures.get? i = some (.native b #[.userdata n]))
    (h : w.onVm c.vm (fun vm => vm.enter c.thread (.closure i) args m) = (.need (.host isList id), w')) :
    (∀ f, id = some f ↔ ⟨.function f, c.vm, n⟩ ∈ standing es) ∧
      (Honest es → ∀ f, id = some f → ∃ x, w.functions.get? f = some x) := by
  have hasked : id = Vm.hostFunction? (w.heap c.vm) #[.userdata n] := by
    cases hx : w.instances[c.vm]? with
    | none =>
      rw [World.onVm_eq, hx] at h
      cases h
    | some x =>
      rw [World.onVm_eq, hx] at h
      rw [World.heap, World.vm_eq w c.vm hx] at hf ⊢
      exact World.hostFunction_of_enter hf (Prod.ext rfl (Prod.mk.inj h).1)
  have hiff : ∀ f, id = some f ↔ ⟨.function f, c.vm, n⟩ ∈ standing es := fun f => by
    rw [hasked, World.hostFunction?_iff, ha.carried]
  refine ⟨hiff, fun hh f hid => ?_⟩
  have hcount := ha.counted hh (.function f)
  have hpos : 0 < unfinalized es (.function f) := by
    have hstands : 0 < (standing es).countP (·.asset = .function f) :=
      List.countP_pos_iff.mpr ⟨_, (hiff f).mp hid, decide_eq_true rfl⟩
    exact Nat.lt_of_lt_of_le hstands (Nat.le_add_right _ _)
  cases hget : w.functions.get? f with
  | some x => exact ⟨x, rfl⟩
  | none =>
    simp only [World.strong, hget, claims] at hcount
    simp at hcount
    omega

theorem releases (ha : Accounted ⟨w, es⟩) : w.Releases es where
  once := ha.orderly.once
  present := ha.carried
  counted := ha.counted
  served := ha.served
  read _ _ _ _ := ha.read
  asks _ _ _ _ _ _ _ _ _ := ha.asks
  refuses _ _ _ _ := rfl

end Account.Accounted

namespace World

theorem accounts_start (m : μ) (f : Notice → μ → μ) (due : Nat → Vm → Bool) :
    Account.Accounted ⟨(start m f due : World σ μ), []⟩ := by
  have hvm : ∀ i, (start m f due : World σ μ).vm i = default := fun i => by simp [World.vm, start]
  have hheap : ∀ i, (start m f due : World σ μ).heap i = default := fun i => congrArg Vm.heap (hvm i)
  refine ⟨.start, fun k => ?_, fun _ x => ?_, fun k hk => absurd hk List.not_mem_nil,
    fun k hk => absurd hk List.not_mem_nil, fun k hk => absurd hk List.not_mem_nil, fun i hi => ?_⟩
  · rw [hheap]
    exact iff_of_false List.not_mem_nil (Option.some_ne_none _).symm
  · cases x <;> rfl
  · rw [hheap] at hi
    cases hi

theorem tame_start (m : μ) (f : Notice → μ → μ) (due : Nat → Vm → Bool) :
    (start m f due : World σ μ).Tame := fun i => by
  have hvm : (start m f due : World σ μ).vm i = {} := by simp [World.vm, start]; rfl
  rw [hvm]
  exact Vm.tame_empty

/-- Wherever a run of a host program leads, and at every moment on the way, references to host objects are
accounted for: what userdata carry is let go of when they are finalized for the first time, and not before.
When the run is over, no finalizer is left to come. A userdata has gone without it only for one of a few
reasons; where none of them came up and all interpreters have been closed, the owners on the host's side have
all the references. -/
theorem run_released (code : HostCode σ μ) (fuel : Nat) (p : Program σ μ α) (m : μ)
    (f : Notice → μ → μ) (due : Nat → Vm → Bool) {a : α}
    (h : p.run code fuel (start m f due) = some (a, w)) :
    (∃ es, Chronicle ⟨start m f due, []⟩ ⟨w, es⟩ ∧ waiting es = []) ∧
    (∀ (u : World σ μ) es, Chronicle ⟨start m f due, []⟩ ⟨u, es⟩ → Orderly es ∧ u.Releases es ∧
      (¬ Served es → ∃ x y k, Chronicle ⟨start m f due, []⟩ x ∧ Entry x y ∧ Chronicle y ⟨u, es⟩ ∧
        x.world.Excuses y.world k)) ∧
    ∀ es, Chronicle ⟨start m f due, []⟩ ⟨w, es⟩ → waiting es = [] → Served es → Honest es →
      (∀ i < w.instances.size, .closed i ∈ w.history) → ∀ x, w.strong x = owners es x := by
  obtain ⟨-, habides⟩ := abides_run code fuel p h (tame_start m f due)
  have hstart := accounts_start (σ := σ) m f due
  refine ⟨?_, fun u es hu => ?_, fun es hw hwait hs hh hall x => ?_⟩
  · obtain ⟨fs, hfs, hwait⟩ := habides [] hstart
    rw [List.append_nil] at hfs hwait
    refine ⟨fs, hfs, List.eq_nil_iff_forall_not_mem.mpr fun k hk => ?_⟩
    cases (hwait k hk).1
  · have ha := hu.accounted hstart
    exact ⟨ha.orderly, ha.releases, hu.excused hstart fun k => ⟨nofun, nofun⟩⟩
  · have ha := hw.accounted hstart
    obtain ⟨hstranded, hclosed⟩ := ha.served hs
    -- A userdata that stands would be in an interpreter, which has been closed, and would wait.
    have hnone : standing es = [] := by
      refine List.eq_nil_iff_forall_not_mem.mpr fun k hk => ?_
      obtain ⟨y, hy⟩ := Option.ne_none_iff_exists'.mp (ha.vm_of_standing hk)
      have hin := hclosed k hk (hall _ (Array.getElem?_eq_some_iff.mp hy).1)
      rw [hwait] at hin
      cases hin
    have hcount := ha.counted hh x
    simpa [claims, unfinalized, hnone, hstranded] using hcount

/-- Pushes a foreign object, reads it and has it finalized by closing the interpreter. -/
def lending : Program Unit Unit Unit := do
  discard (Program.ask (.newInstance { openStdLibs := false }))
  let v ← Program.ask (.newForeign "lent")
  discard (Program.ask (.stack ⟨0, 0⟩ (.push v)))
  discard (Program.ask (.stack ⟨0, 0⟩ (.readForeign (-1))))
  Program.ask (.dropOwner 0)

/-- Those that are left are the reference that it was made with, and the one that it was read as. -/
theorem run_released_lending :
    ∃ w es, lending.run HostCode.silent 5 (start () (fun _ m => m) fun _ _ => true) = some ((), w) ∧
      Chronicle ⟨start () (fun _ m => m) fun _ _ => true, []⟩ ⟨w, es⟩ ∧ waiting es = [] ∧ Orderly es ∧
      w.Releases es ∧ w.strong (.foreign 0) = 2 := by
  have hrun : (lending.run HostCode.silent 5 (start () (fun _ m => m) fun _ _ => true)).map
      (·.2.strong (.foreign 0)) = some 2 := by decide +kernel
  obtain ⟨⟨_, w⟩, hw, hstrong⟩ := Option.map_eq_some_iff.mp hrun
  obtain ⟨⟨es, hes, hwait⟩, hall, -⟩ :=
    run_released HostCode.silent 5 lending () (fun _ m => m) (fun _ _ => true) hw
  obtain ⟨horderly, hreleases, -⟩ := hall w es hes
  exact ⟨w, es, hw, hes, hwait, horderly, hreleases, hstrong⟩

/-- Every host function pushes the first foreign object. -/
def HostCode.pushing : HostCode Unit Unit where
  raw _ c := do
    discard (Program.ask (.stack c (.push (.foreign 0))))
    return .done 0
  list _ _ _ := .pure (.done [])

/-- Makes a foreign object, lets a script have a host function under the name f, and closes the
interpreter. -/
def parting (script : Bytes) : Program Unit Unit Unit := do
  discard (Program.ask (.newInstance { openStdLibs := false, libs := [.base] }))
  discard (Program.ask (.newForeign "kept"))
  let f ← Program.ask (.newFunction .raw ())
  discard (Program.ask (.stack ⟨0, 0⟩ (.push f)))
  discard (Program.ask (.stack ⟨0, 0⟩ (.setGlobal "f")))
  discard (Program.ask (.stack ⟨0, 0⟩ (.load script)))
  discard (Program.ask (.run ⟨0, 0⟩ (.call [] .all)))
  Program.ask (.dropOwner 0)

/-- The world before any interpreter is made, with a collector that takes no turn of its own. -/
def idle : World Unit Unit := start () (fun _ m => m) fun _ _ => false

/-- If the script calls the function, the reference that is pushed is let go of when the interpreter is
closed, and the one that the program has is left. If a finalizer calls it meanwhile, both are, although the
interpreter has gone with all its userdata. -/
theorem pushed_late :
    (∃ w, (parting "f()").run HostCode.pushing 30 idle = some ((), w) ∧
      w.history = [.closed 0, .disowned 0] ∧ (w.heap 0).userdata.items = #[] ∧ w.strong (.foreign 0) = 1) ∧
    ∃ w, (parting "setmetatable(\x7b\x7d, \x7b__gc = f\x7d)").run HostCode.pushing 30 idle =
        some ((), w) ∧
      w.history = [.closed 0, .disowned 0] ∧ (w.heap 0).userdata.items = #[] ∧ w.strong (.foreign 0) = 2 := by
  have hruns : ∀ s n, ((parting s).run HostCode.pushing 30 idle).map (fun r =>
      (r.2.history, (r.2.heap 0).userdata.items.size, r.2.strong (.foreign 0))) =
        some ([.closed 0, .disowned 0], 0, n) →
      ∃ w, (parting s).run HostCode.pushing 30 idle = some ((), w) ∧
        w.history = [.closed 0, .disowned 0] ∧ (w.heap 0).userdata.items = #[] ∧
          w.strong (.foreign 0) = n := by
    intro s n h
    obtain ⟨⟨_, w⟩, hw, he⟩ := Option.map_eq_some_iff.mp h
    exact ⟨w, hw, congrArg Prod.fst he, Array.eq_empty_of_size_eq_zero (congrArg (·.2.1) he),
      congrArg (·.2.2) he⟩
  exact ⟨hruns "f()" 1 (by decide +kernel), hruns _ 2 (by decide +kernel)⟩

end World
end LuaEmbed
