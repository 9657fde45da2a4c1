import LuaEmbed.Proofs.Bookkeeping
import LuaEmbed.Proofs.Keeping

/-!
Runs keep the account right: a thread that runs lets go of what it owes, a finalizer empties the userdata
that it is called for unless its turn passes, and after a collection, or the closing of an interpreter, no
more userdata wait to be finalized than before.
-/
namespace LuaEmbed

open Engine Owning

variable {σ μ α : Type}

namespace Engine.Vm

variable (vm : Vm) (t : Nat)

/-- What waits on a frame does not bear on whether there is room above it. -/
theorem makeRoom_setAwait (a : Await) (used need : Nat) :
    ((vm.modifyThread t (·.setAwait a)).makeRoom t used need).2 = none ↔
      (vm.makeRoom t used need).2 = none := by
  have hsize : ((vm.modifyThread t (·.setAwait a)).thread t).size = (vm.thread t).size := by
    rw [thread_eq, thread_eq, thread?_modifyThread, if_pos rfl]
    cases vm.thread? t with
    | none => rfl
    | some th => exact Thread.size_modifyTop th _
  unfold makeRoom
  dsimp only
  rw [hsize]
  have hheap : (vm.modifyThread t (·.setAwait a)).heap = vm.heap := rfl
  rw [hheap]
  split
  · split <;> simp
  · split <;> simp

theorem top_setAwait (a : Await) :
    ((vm.modifyThread t (·.setAwait a)).thread t).top.depth = (vm.thread t).top.depth ∧
      ((vm.modifyThread t (·.setAwait a)).thread t).top.used = (vm.thread t).top.used := by
  rw [thread_eq, thread_eq, thread?_modifyThread, if_pos rfl]
  cases vm.thread? t with
  | none => exact ⟨rfl, rfl⟩
  | some th =>
    have htop : (th.setAwait a).top = { th.top with await := a } := Thread.top_modifyTop th _
    dsimp only [Option.map_some, Option.getD_some]
    rw [htop]
    exact ⟨rfl, rfl⟩

theorem carried_collect {args : List Val} {n : Nat} (ha : Args.at_ args 1 = .userdata n) :
    (vm.onHeap (Library.collect args).start).1.heap.carried? n = none := by
  unfold onHeap
  dsimp only
  cases hu : vm.heap.userdata.get? n with
  | none =>
    rw [start_collect_idle fun i hi => by rw [ha] at hi; cases hi; exact hu]
    rw [Heap.carried?, hu]
    rfl
  | some u =>
    obtain ⟨p, hp, hstart⟩ := start_collect ha hu
    rw [hstart]
    exact ((empties_modify hu hp).carried n).trans (if_pos rfl)

/-- A call of a collector empties the userdata it is for, unless the engine refuses it. -/
theorem carried_enter {b : Builtin} (hb : b ∈ [Builtin.collectRaw, .collectList, .collectForeign]) {n : Nat}
    {m : Manner} (hm : m.nests = true) (hdepth : (vm.thread t).top.depth + 1 ≠ maxNesting)
    (hhandling : (vm.thread t).top.depth + 1 < maxHandling)
    (hroom : (vm.makeRoom t ((vm.thread t).top.used + 2) Thread.minRoom).2 = none) :
    (vm.enter t (.builtin b) [.userdata n] m).1.heap.carried? n = none := by
  unfold enter
  dsimp only
  rw [if_pos hm, if_neg (by simp [hdepth]), if_neg (by simp [hhandling])]
  have hcallee : callee? vm.heap maxChain (.builtin b) [.userdata n] = .ok (.builtin b, [.userdata n]) := rfl
  rw [hcallee]
  dsimp only
  unfold enterNative
  dsimp only [List.length_cons, List.length_nil]
  rw [Nat.add_assoc, Nat.zero_add]
  generalize vm.makeRoom t ((vm.thread t).top.used + 2) Thread.minRoom = r at hroom
  obtain ⟨vm', s⟩ := r
  obtain rfl : s = none := hroom
  dsimp only
  rw [apply_collector hb]
  split
  · simp at hb
  · simp at hb
  · exact carried_collect _ rfl

end Engine.Vm

namespace World

variable {w w' w₁ : World σ μ} {c : Context}

/-- After what is owed has been let go of. A collector takes the reference out of a userdata one step before
it is let go of, so that the account is right in between only for this world. -/
def discharged (w : World σ μ) (next : Next) : World σ μ :=
  match next.debt with
  | some p => w.releasePayload p
  | none => w

/-- A thread can go on in this way: it will leave userdata alone, and what it owes came out of an interpreter
that is there. -/
structure Ready (w : World σ μ) (c : Context) (next : Next) : Prop where
  threads : w.Tame
  tame : next.Tame (w.heap c.vm)
  there : next.debt ≠ none → w.instances[c.vm]? ≠ none

/-- Work of the machine on an interpreter keeps the account right, once what it owes has been let go of. -/
theorem ready_onVm (hw : w.Tame) {i : Nat} {f : Vm → Vm × Next}
    (hf : (w.vm i).Tame → Vm.Leads (w.heap i) (f (w.vm i))) (t : Nat) :
    (w.onVm i f).2.Ready ⟨i, t⟩ (w.onVm i f).1 ∧
      w.Abides ((w.onVm i f).2.discharged (w.onVm i f).1) := by
  cases hx : w.instances[i]? with
  | none =>
    rw [onVm_eq, hx]
    exact ⟨⟨hw, trivial, fun h => absurd rfl h⟩, .refl w⟩
  | some x =>
    have hleads := hf (hw i)
    rw [onVm_world, onVm_answer w i f hx, ← vm_eq w i hx]
    let w' := w.modifyVm i fun vm => (f vm).1
    have hvm : w'.vm i = (f (w.vm i)).1 := vm_modifyVm_self _ hx
    have hheap : w'.heap i = (f (w.vm i)).1.heap := congrArg Vm.heap hvm
    have htame : w'.Tame := hw.modifyVm hleads.threads
    refine ⟨⟨htame, hheap ▸ hleads.next, fun _ => ?_⟩, ?_⟩
    · rw [modifyVm, instances_modifyInstance_self, hx]
      exact Option.some_ne_none _
    have howes := hleads.heap
    unfold Next.Owes at howes
    unfold discharged
    cases hd : (f (w.vm i)).2.debt with
    | none =>
      rw [hd] at howes
      exact (bears_modifyVm howes).abides fun _ => htame
    | some p =>
      rw [hd] at howes
      obtain ⟨n, hn⟩ := howes
      dsimp only
      have hinst := (instances_releasePayload (w := w') p).1
      cases hp : p.asset? with
      | none =>
        have hsame : w'.releasePayload p = w' := by
          unfold releasePayload
          split
          · cases hp
          · cases hp
          · rfl
        rw [hsame]
        exact (bears_modifyVm (hn.carries hp)).abides fun _ => htame
      | some y =>
        let k : Carrier := ⟨y, i, n⟩
        exact abides_entry (fun _ => tame_congr hinst htame) fun es _ =>
          ⟨[.finalized k], .finalized (k := k) hp (confines_modifyVm _) (hheap.symm ▸ hn), fun j hj =>
            (mem_waiting_finalized.mp hj).1⟩

end World

/-- The run of a thread that can go on lets go of what is owed, and keeps the account right. -/
def Drive.Discharges (d : Drive σ μ) : Prop := ∀ c next w e w', World.Ready w c next →
  d c next w = some (e, w') → (w.discharged next).Abides w'

namespace World

variable {w w' w₁ : World σ μ} {c : Context} {d : Drive σ μ}

theorem Abides.bind {β : Type} {m : Run σ μ α} {k : α → Run σ μ β} (hm : m.Keeps Abides d)
    (hk : ∀ a, (k a).Keeps Abides d) : (m >>= k).Keeps Abides d := by
  intro w b w' h
  obtain ⟨a, w₁, ha, hb⟩ := Run.bind_some.mp h
  exact (hm _ _ _ ha).trans (hk _ _ _ _ hb)

theorem Abides.pure (x : α) : (Pure.pure x : Run σ μ α).Keeps Abides d := by
  rintro w _ _ ⟨⟩
  exact .refl w

theorem Abides.get : Run.Keeps Abides d (MonadState.get : Run σ μ (World σ μ)) := by
  rintro w _ _ ⟨⟩
  exact .refl w

section

variable (hd : d.Discharges)

include hd

/-- What the machine begins on a thread is run to its end. -/
theorem abides_begin {f : Vm → Vm × Next} (hf : ∀ vm : Vm, vm.Tame → Vm.Leads vm.heap (f vm)) :
    (Run.onVm c.vm f >>= Run.drive c : Run σ μ Exit).Keeps Abides d := by
  intro w e w' h hw
  obtain ⟨next, w₁, h₁, h⟩ := Run.bind_some.mp h
  obtain ⟨rfl, rfl⟩ := Run.onVm_some.mp h₁
  obtain ⟨hready, ha⟩ := ready_onVm hw (hf _) c.thread
  exact (ha.trans (hd _ _ _ _ _ hready h)) hw

theorem abides_begin_bind {f : Vm → Vm × Next} (hf : ∀ vm : Vm, vm.Tame → Vm.Leads vm.heap (f vm))
    {k : Exit → Run σ μ α} (hk : ∀ e, (k e).Keeps Abides d) :
    (Run.onVm c.vm f >>= fun next => Run.drive c next >>= k).Keeps Abides d := by
  rw [← bind_assoc]
  exact Abides.bind (abides_begin hd hf) hk

theorem abides_invoke (c : Context) (f : Val) (args : List Val) : (c.invoke f args).Keeps Abides d :=
  abides_begin hd fun _ hvm => Vm.leads_enter (hvm.setAwait (a := .guarded) trivial) c.thread f args _

theorem abides_resumeWith (source co : Context) (n : Nat) : (resumeWith source co n).Keeps Abides d := by
  unfold World.resumeWith
  refine Abides.bind Abides.get fun _ => Abides.bind Abides.get fun w => ?_
  split
  · exact Abides.bind (Run.keeps_update fun w => (effects_abides fun _ => True).slots w co _ trivial)
      fun _ => Abides.pure _
  · refine abides_begin_bind hd (fun _ hvm => Vm.leads_beginResume hvm _ _ _) fun e => ?_
    have hend : (Run.update (·.modifyVm co.vm (·.endResume co.thread e)) : Run σ μ Unit).Keeps Abides d :=
      Run.keeps_update fun w => (bears_modifyVm (by cases e <;> exact .refl _)).abides fun hw =>
        hw.modifyVm ((hw co.vm).endResume co.thread e)
    refine Abides.bind hend fun _ => ?_
    cases e with
    | returned vs => exact Abides.bind Abides.get fun _ => Abides.pure _
    | _ => exact Abides.pure _

theorem abides_closeFor (c : Context) (thread : Nat) (onlyFailed : Bool) :
    (closeFor c thread onlyFailed).Keeps Abides d := by
  unfold World.closeFor
  refine Abides.bind Abides.get fun w => .ite (Abides.pure _) ?_
  refine Abides.bind Abides.get fun w => ?_
  dsimp only
  refine abides_begin_bind (c := ⟨c.vm, thread⟩) hd
    (fun _ hvm => Vm.leads_beginClose hvm thread (w.thread c).top.depth) fun e => ?_
  cases e <;> exact Abides.pure _

end

/-! ### Finalizers -/

/-- The userdata at a place. -/
def At (i n : Nat) (k : Carrier) : Prop := k.vm = i ∧ k.userdata = n

/-- What has been emptied does not wait to be finalized. -/
theorem settles_of_emptied {i n : Nat} (h : w.Abides w') (he : (w'.heap i).carried? n = none) :
    w.Settles (At i n) w' := by
  intro hw
  obtain ⟨hw', h⟩ := h hw
  refine ⟨hw', fun es ha => ?_⟩
  obtain ⟨fs, hfs, hwait⟩ := h es ha
  refine ⟨fs, hfs, fun k hk => ⟨(hwait k hk).1, ?_⟩⟩
  rintro ⟨rfl, rfl⟩
  have ha' := hfs.accounted ha
  have hcarried := (ha'.carried k).mp (ha'.orderly.standing_of_waiting hk)
  dsimp only at hcarried
  rw [he] at hcarried
  cases hcarried

/-- The turn of a userdata passes. -/
theorem settles_of_balks {n : Nat} (h : w.Balks c n) : w.Settles (At c.vm n) w := by
  refine fun hw => ⟨hw, fun es ha => ?_⟩
  by_cases hex : ∃ k ∈ waiting es, At c.vm n k
  · obtain ⟨k, hk, hvm, rfl⟩ := hex
    refine ⟨[.missed k], .single (.missed hk hvm.symm h), fun j hj => ?_⟩
    obtain ⟨hj, hjk⟩ := List.mem_filter.mp hj
    refine ⟨hj, fun hat => of_decide_eq_true hjk ?_⟩
    have hplace : j.vm = k.vm := hat.1.trans hvm.symm
    have hcarried := (ha.carried j).mp (ha.orderly.standing_of_waiting hj)
    rw [hplace, hat.2, (ha.carried k).mp (ha.orderly.standing_of_waiting hk)] at hcarried
    exact Carrier.ext (Option.some.inj hcarried).symm hplace hat.2
  · exact ⟨[], .refl, fun k hk => ⟨hk, fun hat => hex ⟨k, hk, hat⟩⟩⟩

/-- How a finalizer is called. -/
def entersFinalizer (c : Context) (f v : Val) (vm : Vm) : Vm × Next :=
  (vm.modifyThread c.thread (·.setAwait .guarded)).enter c.thread f [v]
    { nests := true, canYield := false, name := some ⟨"metamethod", "__gc"⟩ }

/-- The world once a finalizer has been entered. -/
def entered (w : World σ μ) (c : Context) (f v : Val) : World σ μ :=
  (w.onVm c.vm (entersFinalizer c f v)).2.discharged (w.onVm c.vm (entersFinalizer c f v)).1

theorem callFinalizer_some {f v : Val} {u : Unit} (hw : w.Tame)
    (h : callFinalizer c f v d w = some (u, w')) : ∃ (a : Await) (e : Exit) (w₂ : World σ μ), a.Tame ∧
      d c (w.onVm c.vm (entersFinalizer c f v)).1 (w.onVm c.vm (entersFinalizer c f v)).2 = some (e, w₂) ∧
      w' = w₂.modifyThread c (·.setAwait a) := by
  obtain ⟨a, w₁, ha, h⟩ := Run.bind_some.mp h
  obtain ⟨next, w₂, hnext, h⟩ := Run.bind_some.mp h
  obtain ⟨_, w₃, hrun, h⟩ := Run.bind_some.mp h
  obtain ⟨e, hrun⟩ := Run.discard_some.mp hrun
  obtain ⟨-, rfl⟩ := Prod.mk.inj (Option.some.inj h)
  obtain ⟨rfl, rfl⟩ := Run.onVm_some.mp ha
  obtain ⟨rfl, rfl⟩ := Run.onVm_some.mp hnext
  refine ⟨_, e, w₃, ?_, ?_, rfl⟩
  · rw [onVm_eq]
    cases hx : w.instances[c.vm]? with
    | none => exact trivial
    | some x =>
      have htop := Thread.tame_top ((hw c.vm).thread c.thread)
      rw [vm_eq w c.vm hx] at htop
      exact htop
  · rw [onVm_world, onVm_modifyVm] at hrun
    exact hrun

theorem leads_entersFinalizer (c : Context) (f v : Val) (vm : Vm) (hvm : vm.Tame) :
    Vm.Leads vm.heap (entersFinalizer c f v vm) :=
  Vm.leads_enter (hvm.setAwait (a := .guarded) trivial) c.thread f [v] _

/-- Letting go of a reference leaves the interpreter as it is. -/
theorem heap_entered (w : World σ μ) (c : Context) (f v : Val) (i : Nat) :
    (w.entered c f v).heap i = (w.onVm c.vm (entersFinalizer c f v)).2.heap i := by
  unfold entered discharged
  split
  next p _ => exact heap_congr (instances_releasePayload p).1 i
  next => rfl

/-- A finalizer empties the userdata that it is called for, unless its turn passes. -/
theorem carried_entersFinalizer {n : Nat} {x : Instance} (hx : w.instances[c.vm]? = some x)
    (hb : ¬ w.Balks c n) :
    ((w.entered c ((w.heap c.vm).metafield (.userdata n) "__gc") (.userdata n)).heap c.vm).carried? n =
      none := by
  have hcollector : ∃ b ∈ [Builtin.collectRaw, .collectList, .collectForeign],
      (w.heap c.vm).metafield (.userdata n) "__gc" = .builtin b := by
    by_contra hno
    exact hb (.replaced fun b hmem he => hno ⟨b, hmem, he⟩)
  obtain ⟨b, hmem, hgc⟩ := hcollector
  have hnested := fun h => hb (.nested h)
  have hroom : ((w.vm c.vm).makeRoom c.thread ((w.thread c).top.used + 2) Thread.minRoom).2 = none := by
    by_contra hno
    exact hb (.cramped hno)
  obtain ⟨hdepth, hused⟩ := (w.vm c.vm).top_setAwait c.thread .guarded
  rw [heap_entered, hgc, onVm_world, heap, vm_modifyVm_self _ hx]
  refine Vm.carried_enter _ c.thread hmem rfl ?_ ?_ ?_
  · rw [hdepth]
    exact fun h => hnested (.inl h)
  · rw [hdepth]
    exact Nat.lt_of_not_le fun h => hnested (.inr h)
  · rw [hused, Vm.makeRoom_setAwait]
    exact hroom

section

variable (hd : d.Discharges)

include hd

/-- A finalizer is entered, and runs to its end. -/
theorem abides_entered {f v : Val} {u : Unit} (hw : w.Tame)
    (h : callFinalizer c f v d w = some (u, w')) :
    w.Abides (w.entered c f v) ∧ (w.entered c f v).Abides w' := by
  obtain ⟨a, e, w₂, ha, hrun, rfl⟩ := callFinalizer_some hw h
  obtain ⟨hready, hbegin⟩ := ready_onVm hw (leads_entersFinalizer c f v _) c.thread
  have hend := abides_modifyThread (w := w₂) c fun th hth => Thread.tame_setAwait hth ha
  exact ⟨hbegin, (hd _ _ _ _ _ hready hrun).trans hend⟩

theorem abides_callFinalizer (c : Context) (f v : Val) : (callFinalizer c f v).Keeps Abides d := by
  intro w u w' h hw
  obtain ⟨hbegin, hrest⟩ := abides_entered hd hw h
  exact hbegin.trans hrest hw

theorem abides_finalize (c : Context) (v : Val) : (finalize c v).Keeps Abides d := by
  unfold World.finalize
  refine Abides.bind Abides.get fun w => ?_
  split
  · exact Abides.pure ()
  · exact abides_callFinalizer hd c _ v

/-- Once a userdata has had its turn it does not wait to be finalized any more. -/
theorem finalize_settles {n : Nat} {u : Unit} (h : finalize c (.userdata n) d w = some (u, w')) :
    w.Settles (At c.vm n) w' := by
  have habides := abides_finalize hd c _ _ _ _ h
  by_cases hb : w.Balks c n
  · exact (settles_of_balks hb).after habides
  cases hx : w.instances[c.vm]? with
  | none =>
    -- Without an interpreter there are no userdata.
    refine (settles_of_emptied (.refl w) ?_).after habides
    rw [heap, vm, hx]
    rfl
  | some x =>
    intro hw
    unfold World.finalize at h
    obtain ⟨_, _, hget, h⟩ := Run.bind_some.mp h
    obtain ⟨rfl, rfl⟩ := Prod.mk.inj (Option.some.inj hget)
    have hcarried := carried_entersFinalizer hx hb
    generalize hgc : (w.heap c.vm).metafield (.userdata n) "__gc" = f at h hcarried
    have hcall : callFinalizer c f (.userdata n) d w = some (u, w') := by
      split at h
      · refine absurd (.replaced fun b _ he => ?_) hb
        rw [hgc] at he
        cases he
      · exact h
    obtain ⟨hbegin, hrest⟩ := abides_entered hd hw hcall
    exact ((settles_of_emptied hbegin hcarried).after hrest) hw

theorem finalizeAll_settles {vs : List Val} {u : Unit} (h : finalizeAll c vs d w = some (u, w')) :
    w.Settles (fun k => k.vm = c.vm ∧ .userdata k.userdata ∈ vs) w' := by
  induction vs generalizing w with
  | nil =>
    obtain ⟨-, rfl⟩ := Prod.mk.inj (Option.some.inj h)
    exact (Abides.refl w).mono fun k hk => absurd hk.2 List.not_mem_nil
  | cons v vs ih =>
    obtain ⟨_, w₁, hfirst, hrest⟩ := Run.bind_some.mp h
    have hfirst' : w.Settles (fun k => k.vm = c.vm ∧ .userdata k.userdata = v) w₁ := by
      -- Tables and closures are finalized too, and no carrier is one of these.
      by_cases hv : ∃ n, v = .userdata n
      · obtain ⟨n, rfl⟩ := hv
        exact (finalize_settles hd hfirst).mono fun k hk => ⟨hk.1, Val.userdata.inj hk.2⟩
      · exact (abides_finalize hd c v _ _ _ hfirst).mono fun k hk => hv ⟨k.userdata, hk.2.symm⟩
    exact (Settles.trans hfirst' (ih hrest)).mono fun k hk => (List.mem_cons.mp hk.2).imp
      (fun hv => ⟨hk.1, hv⟩) fun hv => ⟨hk.1, hv⟩

end

/-! ### Collecting and closing -/

variable {i : Nat} {es : List Owning}

/-- What is still handed out after an event has been, or was waiting before. -/
def HandedOut (lost : List Val) (i : Nat) (es fs : List Owning) : Prop :=
  ∀ k ∈ waiting (fs ++ es), k ∈ waiting es ∨ (k.vm = i ∧ .userdata k.userdata ∈ lost)

/-- A collection begins. -/
theorem entry_swept {x : Instance} (hx : w.instances[i]? = some x) (hidle : (w.heap i).collecting = false)
    {f : Vm → Vm} {lost : List Val} (hf : (w.heap i).Sweeps lost (f (w.vm i)).heap)
    (ha : Account.Accounted ⟨w, es⟩) :
    ∃ fs, Entry ⟨w, es⟩ ⟨(w.modifyVm i f).modifyHeap i ({ · with collecting := true }), fs ++ es⟩ ∧
      HandedOut lost i es fs := by
  let w₂ := (w.modifyVm i f).modifyHeap i ({ · with collecting := true })
  have hheap : w₂.heap i = { (f (w.vm i)).heap with collecting := true } := by
    have hx₁ : (w.modifyVm i f).instances[i]? = some { x with vm := f x.vm } := by
      rw [modifyVm, instances_modifyInstance_self, hx]
      rfl
    have hvm := vm_modifyVm_self (fun m : Vm => { m with heap := { m.heap with collecting := true } }) hx₁
    rw [vm_modifyVm_self f hx] at hvm
    exact congrArg Vm.heap hvm
  have hconfined : w.Confines i w₂ := (confines_modifyVm f).trans (confines_modifyVm _)
  have hswept : (w.heap i).Sweeps lost (w₂.heap i) := by
    rw [hheap]
    exact ⟨hf.carried, hf.spared, hf.listed, hf.handed, hf.closing⟩
  let dues := (standing es).filter fun k => k.vm = i ∧ .userdata k.userdata ∈ lost
  let losts := (standing es).filter fun k => k.vm = i ∧ (w₂.heap i).carried? k.userdata = none
  refine ⟨losts.map .lost ++ dues.map .due, ?_, fun k hk => ?_⟩
  · rw [List.append_assoc]
    exact .swept hconfined hswept hidle (by rw [hheap]) (fun k => by simp [dues])
      (fun k => by simp [losts, w₂])
      (ha.orderly.nodup.filter _)
  · rw [List.append_assoc, mem_waiting_swept] at hk
    exact hk.1.symm.imp_right fun hdue : k ∈ dues => of_decide_eq_true (List.mem_filter.mp hdue).2

/-- A collection ends. -/
theorem entry_settled (hw : ∀ k ∈ waiting es, k.vm ≠ i) :
    Entry ⟨w, es⟩ ⟨w.modifyHeap i ({ · with collecting := false }), es⟩ := by
  have hsame := vm_modifyVm_all (w := w) (i := i)
    (P := fun vm vm' => (∀ n, vm'.heap.carried? n = vm.heap.carried? n) ∧
      vm.heap.finalizable ⊆ vm'.heap.finalizable ∧ vm'.heap.closing = vm.heap.closing)
    (fun _ => ⟨fun _ => rfl, List.Subset.refl _, rfl⟩)
    (f := fun vm => { vm with heap := { vm.heap with collecting := false } })
    ⟨fun _ => rfl, List.Subset.refl _, rfl⟩ i
  exact .settled (confines_modifyVm _) hsame.1 hsame.2.1 hsame.2.2 hw

/-- How an interpreter begins to close: its main stack is emptied, and all that is to be finalized is handed
out. -/
def beginShutDown (m : Vm) : Vm × List Val :=
  (({ m with heap := { m.heap with collecting := true, closing := true, finalizable := [] } }).setThread 0
    { size := (m.thread 0).size }, m.heap.finalizable)

theorem entry_closing (i : Nat) (ha : Account.Accounted ⟨w, es⟩) :
    ∃ fs, Entry ⟨w, es⟩ ⟨((w.happened (.closed i)).onVm i beginShutDown).2, fs ++ es⟩ ∧
      ∀ k ∈ waiting (fs ++ es), (k ∈ waiting es ∧ k.vm ≠ i) ∨
        (k.vm = i ∧ .userdata k.userdata ∈ ((w.happened (.closed i)).onVm i beginShutDown).1) := by
  let w₁ := w.happened (.closed i)
  let dues := (standing es).filter fun k => k.vm = i ∧ .userdata k.userdata ∈ (w.heap i).finalizable
  let misses := ((waiting es).filter fun k => k.vm = i).dedup
  have hthere : ∀ k ∈ standing es, k.vm = i → ∃ x, w.instances[i]? = some x := fun k hk hvm =>
    Option.ne_none_iff_exists'.mp (hvm ▸ ha.vm_of_standing hk)
  refine ⟨dues.map .due ++ misses.map .missed, ?_, fun k hk => ?_⟩
  · rw [List.append_assoc, onVm_world]
    refine .closing (i := i) (fun j hj => ?_) rfl rfl (fun j => ?_) ?_ (fun k hk hvm => ?_)
      (fun k => by simp [dues]) (fun k => by simp [misses]) (List.nodup_dedup _)
    · exact (confines_modifyVm (w := w₁) _).heaps j hj
    · exact List.mem_cons.trans (or_congr_left ⟨fun h => Happening.closed.inj h, congrArg _⟩)
    · exact vm_modifyVm_all (w := w₁) (i := i) (P := fun vm vm' => ∀ n, vm'.heap.carried? n = vm.heap.carried? n)
        (fun _ _ => rfl) (f := fun m => (beginShutDown m).1) (fun _ => rfl) i
    · obtain ⟨x, hx⟩ := hthere k hk hvm
      rw [heap, vm_modifyVm_self (w := w₁) (fun m => (beginShutDown m).1) hx]
      rfl
  · rw [List.append_assoc, waiting_due, List.mem_append, mem_waiting_missed] at hk
    rcases hk with hdue | ⟨hk, hnot⟩
    · obtain ⟨hstand, hin⟩ := List.mem_filter.mp hdue
      obtain ⟨hvm, hin⟩ := of_decide_eq_true hin
      obtain ⟨x, hx⟩ := hthere k hstand hvm
      rw [onVm_answer w₁ i _ hx]
      refine .inr ⟨hvm, ?_⟩
      rwa [heap, vm_eq w i hx] at hin
    · exact .inl ⟨hk, fun hvm => hnot (by simp [misses, hk, hvm])⟩

/-- An interpreter is freed. -/
theorem entry_freed (ha : Account.Accounted ⟨w, es⟩) (hh : .closed i ∈ w.history)
    (hw : ∀ k ∈ waiting es, k.vm ≠ i) : ∃ fs, Entry ⟨w, es⟩ ⟨w.modifyVm i fun _ => {}, fs ++ es⟩ ∧
      waiting (fs ++ es) ⊆ waiting es := by
  let losts := (standing es).filter fun k => k.vm = i
  refine ⟨losts.map .lost, .freed (confines_modifyVm _) (fun n => ?_) hh hw (fun k => by simp [losts])
    (ha.orderly.nodup.filter _), fun k hk => ((mem_waiting_lost losts).mp hk).1⟩
  cases hx : w.instances[i]? with
  | none =>
    rw [modifyVm_none _ hx, heap, vm, hx]
    rfl
  | some x =>
    rw [heap, vm_modifyVm_self _ hx]
    rfl

theorem modifyHeap_none (f : Heap → Heap) (hx : w.instances[i]? = none) : w.modifyHeap i f = w :=
  modifyVm_none _ hx

theorem tame_modifyHeap (hw : w.Tame) (i : Nat) (f : Heap → Heap) : (w.modifyHeap i f).Tame :=
  hw.modifyVm (Vm.tame_of_threads (hw i) rfl)

/-- What a collection consists of. -/
theorem collect_some {u : Unit} (h : collect c d w = some (u, w')) : ∃ threads w₃,
    finalizeAll c (w.onVm c.vm fun vm => Collector.collect vm threads).1 d
      ((w.onVm c.vm fun vm => Collector.collect vm threads).2.modifyHeap c.vm
        ({ · with collecting := true })) = some ((), w₃) ∧
      w' = w₃.modifyHeap c.vm ({ · with collecting := false }) := by
  obtain ⟨_, _, hget, h⟩ := Run.bind_some.mp h
  obtain ⟨rfl, rfl⟩ := Prod.mk.inj (Option.some.inj hget)
  obtain ⟨lost, w₁, hlost, h⟩ := Run.bind_some.mp h
  obtain ⟨rfl, rfl⟩ := Run.onVm_some.mp hlost
  obtain ⟨_, w₂, hflag, h⟩ := Run.bind_some.mp h
  obtain ⟨-, rfl⟩ := Prod.mk.inj (Option.some.inj hflag)
  obtain ⟨_, w₃, hall, h⟩ := Run.bind_some.mp h
  obtain ⟨-, rfl⟩ := Prod.mk.inj (Option.some.inj h)
  exact ⟨_, w₃, hall, rfl⟩

/-- What closing an interpreter consists of. -/
theorem shutDown_some {u : Unit} (h : shutDown i d w = some (u, w')) : ∃ w₃,
    finalizeAll ⟨i, 0⟩ ((w.happened (.closed i)).onVm i beginShutDown).1 d
      ((w.happened (.closed i)).onVm i beginShutDown).2 = some ((), w₃) ∧
      w' = (w₃.modifyVm i fun _ => {}).log .debug "state closed" [] := by
  unfold World.shutDown at h
  obtain ⟨_, _, hevent, h⟩ := Run.bind_some.mp h
  obtain ⟨-, rfl⟩ := Prod.mk.inj (Option.some.inj hevent)
  obtain ⟨lost, w₂, hlost, h⟩ := Run.bind_some.mp h
  have hlost' : (w.happened (.closed i)).onVm i beginShutDown = (lost, w₂) := Option.some.inj hlost
  obtain ⟨_, w₃, hall, h⟩ := Run.bind_some.mp h
  obtain ⟨_, w₄, hfree, h⟩ := Run.bind_some.mp h
  obtain ⟨-, rfl⟩ := Prod.mk.inj (Option.some.inj hfree)
  obtain ⟨-, rfl⟩ := Prod.mk.inj (Option.some.inj h)
  rw [hlost']
  exact ⟨w₃, hall, rfl⟩

theorem tame_beginShutDown (hw : w.Tame) (i : Nat) :
    ((w.happened (.closed i)).onVm i beginShutDown).2.Tame := by
  have hw₁ : (w.happened (.closed i)).Tame := hw
  rw [onVm_world]
  exact hw₁.modifyVm (f := fun vm => (beginShutDown vm).1)
    (Vm.Tame.setThread (Vm.tame_of_threads (hw i) rfl) (Thread.tame_ground trivial))

section

variable (hd : d.Discharges)

include hd

/-- After a collection no more userdata wait to be finalized than before. -/
theorem abides_collect {u : Unit} (hidle : (w.heap c.vm).collecting = false)
    (h : collect c d w = some (u, w')) : w.Abides w' := by
  intro hw
  obtain ⟨threads, w₃, hall, rfl⟩ := collect_some h
  cases hx : w.instances[c.vm]? with
  | none =>
    rw [onVm_eq, hx] at hall
    dsimp only at hall
    rw [modifyHeap_none _ hx] at hall
    obtain ⟨-, rfl⟩ := Prod.mk.inj (Option.some.inj hall)
    rw [modifyHeap_none _ hx]
    exact Abides.refl w hw
  | some x =>
    have hsweeps := Collector.sweeps_collect (w.vm c.vm) threads
    have htame := (hw c.vm).collect threads
    rw [onVm_answer _ _ _ hx, onVm_world, ← vm_eq w c.vm hx] at hall
    have hw₁ : (w.modifyVm c.vm fun vm => (Collector.collect vm threads).1).Tame :=
      hw.modifyVm (f := fun vm => (Collector.collect vm threads).1) htame
    obtain ⟨hw₃, hsettles⟩ := finalizeAll_settles hd hall (tame_modifyHeap hw₁ c.vm _)
    refine ⟨tame_modifyHeap hw₃ c.vm _, fun es ha => ?_⟩
    obtain ⟨fs, hswept, hhands⟩ :=
      entry_swept hx hidle (f := fun vm => (Collector.collect vm threads).1) hsweeps ha
    obtain ⟨gs, hgs, hwait⟩ := hsettles _ (hswept.accounted ha)
    have hout : ∀ k ∈ waiting (gs ++ (fs ++ es)), k ∈ waiting es ∧ k.vm ≠ c.vm := by
      intro k hk
      obtain ⟨hk, hnot⟩ := hwait k hk
      have hold := (hhands k hk).resolve_right hnot
      refine ⟨hold, fun hvm => ?_⟩
      -- It would have waited while the interpreter was not collecting.
      have hbusy := ha.collecting k hold
      rw [hvm, hidle] at hbusy
      cases hbusy
    refine ⟨gs ++ fs, ?_, fun k hk => ⟨(hout k (List.append_assoc gs fs es ▸ hk)).1, id⟩⟩
    rw [List.append_assoc]
    exact (Relation.ReflTransGen.head hswept hgs).tail (entry_settled fun k hk => (hout k hk).2)

/-- The collector's turn is a collection, and never comes while there is one already. -/
theorem abides_turn (c : Context) : (turn c).Keeps Abides d := by
  intro w u w' h
  unfold World.turn at h
  obtain ⟨_, w₁, hget, h⟩ := Run.bind_some.mp h
  obtain ⟨rfl, rfl⟩ := Prod.mk.inj (Option.some.inj hget)
  split at h
  next htakes =>
    have hidle : (w.heap c.vm).collecting = false := by
      unfold takesTurn at htakes
      simp only [Bool.and_eq_true, Bool.not_eq_true'] at htakes
      exact htakes.1.1
    exact abides_collect hd hidle h
  next =>
    obtain ⟨-, rfl⟩ := Prod.mk.inj (Option.some.inj h)
    exact .refl w

/-- After an interpreter has been closed no more userdata wait to be finalized than before. -/
theorem abides_shutDown (i : Nat) : (shutDown i).Keeps Abides d := by
  intro w u w' h hw
  obtain ⟨w₃, hall, rfl⟩ := shutDown_some h
  obtain ⟨hw₃, hsettles⟩ := finalizeAll_settles hd hall (tame_beginShutDown hw i)
  have hrest : w.Abides (w₃.modifyVm i fun _ => {}) := by
    refine fun _ => ⟨hw₃.modifyVm Vm.tame_empty, fun es ha => ?_⟩
    obtain ⟨fs, hclosing, hhands⟩ := entry_closing i ha
    obtain ⟨gs, hgs, hwait⟩ := hsettles _ (hclosing.accounted ha)
    have hout : ∀ k ∈ waiting (gs ++ (fs ++ es)), k ∈ waiting es ∧ k.vm ≠ i := fun k hk =>
      (hhands k (hwait k hk).1).resolve_right (hwait k hk).2
    have hchronicle : Chronicle _ _ := Relation.ReflTransGen.head hclosing hgs
    have hclosed : .closed i ∈ ((w.happened (.closed i)).onVm i beginShutDown).2.history := by
      rw [onVm_world]
      exact List.mem_cons_self ..
    obtain ⟨ls, hfreed, hsub⟩ := entry_freed (hchronicle.accounted ha) (hgs.closed hclosed) fun k hk =>
      (hout k hk).2
    refine ⟨ls ++ (gs ++ fs), ?_, fun k hk => ⟨(hout k (hsub ?_)).1, id⟩⟩
    · simpa only [List.append_assoc] using hchronicle.tail hfreed
    · simpa only [List.append_assoc] using hk
  exact hrest.trans (abides_congr rfl rfl rfl rfl) hw

end

end World
end LuaEmbed
