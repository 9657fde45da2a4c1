import LuaEmbed.Proofs.Accounting
import LuaEmbed.Proofs.Traversal

/-!
How the account fares while a host works. The relation between worlds says that entries lead from the one
to the other, and that no more userdata are left waiting to be finalized than before; what the host does
without a run keeps it, and so does every step of the machine, up to what the step still owes.
-/
namespace LuaEmbed

open Engine Owning

variable {σ μ α : Type}

namespace Engine

theorem Thread.tame_reserve {th : Thread} (h : th.Tame) (starved : Bool) (n : Nat) :
    (th.reserve starved n).2.Tame := by
  have hsized : ∀ size, Thread.Tame { th with size } := fun _ => h
  unfold reserve
  split
  next size _ =>
    split
    · exact h
    · exact tame_modifyTop (hsized size) (f := fun f => { f with limit := _ }) (tame_top (hsized size))
  · split <;> exact h

theorem Thread.tame_mapSlots {th : Thread} (h : th.Tame) (f : Array Val → Array Val) :
    (th.modifyTop (·.mapSlots f)).Tame :=
  tame_modifyTop h (by rw [Frame.await_mapSlots]; exact tame_top h)

theorem Vm.tame_empty : ({} : Vm).Tame := by
  intro t th h
  have hnone : ({} : Vm).thread? t = none := by simp [thread?]
  rw [hnone] at h
  cases h

end Engine

namespace World

variable {w w' w₁ : World σ μ} {i j : Nat}

theorem vm_modifyVm_of_ne (f : Vm → Vm) (h : j ≠ i) : (w.modifyVm i f).vm j = w.vm j := by
  rw [vm, vm, modifyVm, instances_modifyInstance, if_neg (Ne.symm h)]

theorem vm_modifyVm_self (f : Vm → Vm) {x : Instance} (h : w.instances[i]? = some x) :
    (w.modifyVm i f).vm i = f (w.vm i) := by
  rw [vm, vm, modifyVm, instances_modifyInstance_self, h]
  rfl

/-- Without an interpreter nothing is changed. -/
theorem modifyVm_none (f : Vm → Vm) (h : w.instances[i]? = none) : w.modifyVm i f = w := by
  have honVm := onVm_world w i fun vm => (f vm, ())
  rw [onVm_eq, h] at honVm
  exact honVm.symm

/-- A property of an interpreter that its change keeps is one of all. -/
theorem vm_modifyVm_all {P : Vm → Vm → Prop} (hrefl : ∀ vm, P vm vm) {f : Vm → Vm}
    (hf : P (w.vm i) (f (w.vm i))) (j : Nat) : P (w.vm j) ((w.modifyVm i f).vm j) := by
  cases hx : w.instances[i]? with
  | none =>
    rw [modifyVm_none f hx]
    exact hrefl _
  | some x =>
    by_cases hj : j = i
    · rw [hj, vm_modifyVm_self f hx]
      exact hf
    · rw [vm_modifyVm_of_ne f hj]
      exact hrefl _

/-- Whatever waits on a thread of one of the interpreters leaves userdata alone. -/
def Tame (w : World σ μ) : Prop := ∀ i, (w.vm i).Tame

theorem tame_congr (hi : w'.instances = w.instances) (h : w.Tame) : w'.Tame := fun i => by
  rw [vm, hi]
  exact h i

theorem Tame.modifyVm (h : w.Tame) {f : Vm → Vm} (hf : (f (w.vm i)).Tame) : (w.modifyVm i f).Tame :=
  fun j => vm_modifyVm_all (P := fun vm vm' => vm.Tame → vm'.Tame) (fun _ => id) (fun _ => hf) j (h j)

theorem Tame.modifyThread (h : w.Tame) (c : Context) {f : Thread → Thread}
    (hf : ∀ th : Thread, th.Tame → (f th).Tame) : (w.modifyThread c f).Tame :=
  h.modifyVm ((h c.vm).modifyThread hf)

theorem bears_congr (hi : w'.instances = w.instances) (hf : w'.functions = w.functions)
    (ho : w'.foreigns = w.foreigns) (hh : w'.history = w.history) : w.Bears w' :=
  ⟨fun i => by rw [heap_congr hi]; exact .refl _, hf, ho, fun i => by rw [hh]⟩

theorem bears_modifyVm {f : Vm → Vm} (hf : (w.heap i).Carries (f (w.vm i)).heap) :
    w.Bears (w.modifyVm i f) :=
  ⟨vm_modifyVm_all (P := fun vm vm' => vm.heap.Carries vm'.heap) (fun _ => .refl _) hf, rfl, rfl,
    fun _ => Iff.rfl⟩

theorem confines_modifyVm (f : Vm → Vm) : w.Confines i (w.modifyVm i f) :=
  ⟨fun j hj => by rw [heap, heap, vm_modifyVm_of_ne f hj]; exact .refl _, rfl, rfl, fun _ => Iff.rfl⟩

theorem bears_modifyThread (c : Context) (f : Thread → Thread) : w.Bears (w.modifyThread c f) :=
  bears_modifyVm (.refl _)

theorem Noted.bears (h : w.Noted w') : w.Bears w' := by
  refine ⟨fun i => ?_, h.functions, h.foreigns, fun i => ⟨h.closed i, fun hc => h.history.subset hc⟩⟩
  rw [heap, heap, vm, vm, h.vms]
  exact .refl _

theorem Noted.tame (h : w.Noted w') (hw : w.Tame) : w'.Tame := fun i => by
  rw [vm, h.vms]
  exact hw i

/-- Entries lead from a world to the other. After them no more userdata wait to be finalized than before,
and none of these any more. -/
def Settles (P : Carrier → Prop) (w w' : World σ μ) : Prop :=
  w.Tame → w'.Tame ∧ ∀ es, Account.Accounted ⟨w, es⟩ →
    ∃ fs, Chronicle ⟨w, es⟩ ⟨w', fs ++ es⟩ ∧ ∀ k ∈ waiting (fs ++ es), k ∈ waiting es ∧ ¬ P k

/-- Entries lead from a world to the other, and leave no more userdata waiting. -/
abbrev Abides (w w' : World σ μ) : Prop := w.Settles (fun _ => False) w'

variable {P Q : Carrier → Prop}

theorem Settles.trans (h : w.Settles P w₁) (k : w₁.Settles Q w') :
    w.Settles (fun x => P x ∨ Q x) w' := by
  intro hw
  obtain ⟨hw₁, h⟩ := h hw
  obtain ⟨hw', k⟩ := k hw₁
  refine ⟨hw', fun es ha => ?_⟩
  obtain ⟨fs, hfs, hwait⟩ := h es ha
  obtain ⟨gs, hgs, hwait'⟩ := k _ (hfs.accounted ha)
  refine ⟨gs ++ fs, List.append_assoc gs fs es ▸ hfs.trans hgs, fun x hx => ?_⟩
  obtain ⟨hx, hq⟩ := hwait' x (List.append_assoc gs fs es ▸ hx)
  exact ⟨(hwait x hx).1, fun hpq => hpq.elim (hwait x hx).2 hq⟩

theorem Settles.mono (h : w.Settles P w') (hp : ∀ k, Q k → P k) : w.Settles Q w' := by
  intro hw
  obtain ⟨hw', h⟩ := h hw
  refine ⟨hw', fun es ha => ?_⟩
  obtain ⟨fs, hfs, hwait⟩ := h es ha
  exact ⟨fs, hfs, fun k hk => ⟨(hwait k hk).1, fun hq => (hwait k hk).2 (hp k hq)⟩⟩

theorem Settles.before (h : w.Abides w₁) (k : w₁.Settles P w') : w.Settles P w' :=
  (Settles.trans h k).mono fun _ => .inr

theorem Settles.after (h : w.Settles P w₁) (k : w₁.Abides w') : w.Settles P w' :=
  (Settles.trans h k).mono fun _ => .inl

theorem Settles.abides (h : w.Settles P w') : w.Abides w' := h.mono fun _ => False.elim

theorem Abides.trans (h : w.Abides w₁) (k : w₁.Abides w') : w.Abides w' := Settles.after h k

/-- One entry, with an event or none. -/
theorem abides_entry (hs : w.Tame → w'.Tame) (ht : ∀ es, Account.Accounted ⟨w, es⟩ →
    ∃ fs, Entry ⟨w, es⟩ ⟨w', fs ++ es⟩ ∧ waiting (fs ++ es) ⊆ waiting es) : w.Abides w' := by
  refine fun hw => ⟨hs hw, fun es ha => ?_⟩
  obtain ⟨fs, hfs, hwait⟩ := ht es ha
  exact ⟨fs, .single hfs, fun k hk => ⟨hwait hk, id⟩⟩

/-- Nothing that concerns host objects. -/
theorem Bears.abides (h : w.Bears w') (hs : w.Tame → w'.Tame) : w.Abides w' :=
  abides_entry hs fun _ _ => ⟨[], .still h, List.Subset.refl _⟩

theorem Abides.refl (w : World σ μ) : w.Abides w := (Bears.refl w).abides id

theorem abides_congr (hi : w'.instances = w.instances) (hf : w'.functions = w.functions)
    (ho : w'.foreigns = w.foreigns) (hh : w'.history = w.history) : w.Abides w' :=
  (bears_congr hi hf ho hh).abides (tame_congr hi)

theorem Noted.abides (h : w.Noted w') : w.Abides w' := h.bears.abides h.tame

theorem abides_modifyThread (c : Context) {f : Thread → Thread} (hf : ∀ th : Thread, th.Tame → (f th).Tame) :
    w.Abides (w.modifyThread c f) :=
  (bears_modifyThread c f).abides fun hw => hw.modifyThread c hf

/-! ### Host objects -/

theorem abides_retain (w : World σ μ) (v : Value) : w.Abides (w.retain v) := by
  have hcounted : ∀ x, v.asset? = some x → (w.retain v).instances = w.instances → w.Abides (w.retain v) :=
    fun x hv hi => abides_entry (tame_congr hi) fun _ _ => ⟨[.kept x], .kept hv, List.Subset.refl _⟩
  cases v with
  | function shape id => exact hcounted _ rfl rfl
  | foreign id => exact hcounted _ rfl rfl
  | _ => exact abides_congr rfl rfl rfl rfl

theorem noted_releaseAnchor (w : World σ μ) (id : Nat) : w.Noted (w.releaseAnchor id) := by
  unfold releaseAnchor
  split
  · exact noted_silent rfl rfl rfl rfl
  next a _ =>
    split
    · have herased : w.Noted { w with anchors := w.anchors.erase id } := noted_silent rfl rfl rfl rfl
      exact herased.trans (noted_modifyInstance _ _ fun x => by split <;> rfl)
    · exact noted_silent rfl rfl rfl rfl

theorem abides_release (w : World σ μ) (v : Value) : w.Abides (w.release v) := by
  have hcounted : ∀ x, v.asset? = some x → (w.release v).instances = w.instances → w.Abides (w.release v) :=
    fun x hv hi => abides_entry (tame_congr hi) fun _ _ => ⟨[.dropped x], .dropped hv, List.Subset.refl _⟩
  cases v with
  | function shape id => exact hcounted _ rfl rfl
  | foreign id => exact hcounted _ rfl rfl
  | thread h =>
    unfold release
    dsimp only
    split
    · exact (noted_releaseAnchor w h.anchor).abides
    · exact .refl w
  | _ => exact abides_congr rfl rfl rfl rfl

theorem noted_anchor (w : World σ μ) (t : StackId) : w.Noted (w.anchor t).2 := by
  unfold anchor
  dsimp only
  split
  · have hlisted := noted_modifyInstance w t.vm
      (f := fun x => { x with references := x.references.push t.thread }) fun _ => rfl
    exact hlisted.trans (noted_silent rfl rfl rfl rfl)
  · exact noted_silent rfl rfl rfl rfl

end World

/-! ### Userdata -/

namespace Engine.Heap

variable {h h₁ h' : Heap} {n : Nat} {x : Asset} {p : Payload}

theorem Admits.after (a : Admits n x h₁ h') (k : h.Carries h₁) : Admits n x h h' :=
  ⟨(k.carried n).symm.trans a.fresh, fun m => by rw [a.carried, k.carried],
    List.Subset.trans k.listed a.listed, a.collecting.trans k.collecting, a.closing.trans k.closing, k.closing ▸ a.enrolled⟩

/-- A new userdata without a metatable is not going to be finalized. -/
theorem admits_newUserdata (h : Heap) (hp : p.asset? = some x) (size : Nat) :
    h.Admits h.userdata.next x (h.newUserdata ⟨p, size, none⟩).2 := by
  refine ⟨h.carried_next, fun m => by rw [carried_newUserdata, hp], List.Subset.refl _, rfl, rfl, ?_⟩
  have hmeta : (h.newUserdata ⟨p, size, none⟩).2.metatable? (.userdata h.userdata.next) = none := by
    simp [metatable?, newUserdata, Pool.get?_push]
  exact .inr (.inr (by rw [metafield, hmeta]))

/-- Under a metatable it is, if that has a finalizer. -/
theorem Admits.setMetatable (a : Admits n x h h₁) (i : Nat) :
    Admits n x h (h₁.setMetatable (.userdata n) (some i)) := by
  have hcarries := h₁.carries_setMetatable (.userdata n) (some i)
  refine ⟨a.fresh, fun m => by rw [hcarries.carried, a.carried], List.Subset.trans a.listed hcarries.listed,
    hcarries.collecting.trans a.collecting, hcarries.closing.trans a.closing, ?_⟩
  unfold Heap.setMetatable
  dsimp only
  split
  next hno =>
    simp only [Bool.or_eq_true] at hno
    rcases hno with (hnil | hclosing) | hin
    · refine .inr (.inr ?_)
      unfold Val.isNil at hnil
      split at hnil
      next hv => exact hv
      next => cases hnil
    · exact .inr (.inl (a.closing ▸ hclosing))
    · exact .inl (List.contains_iff_mem.mp hin)
  next => exact .inl (List.mem_cons_self ..)

/-- The carrier of a host object is a userdata that the heap admits. -/
theorem admits_carrier (h : Heap) (hp : p.asset? = some x) (name : String) (collector : Builtin) :
    ∃ n, (World.carrier h p name collector).1 = .userdata n ∧
      h.Admits n x (World.carrier h p name collector).2 := by
  unfold World.carrier
  have hnamed := h.carries_namedMetatable name
  generalize h.namedMetatable name = r at hnamed
  obtain ⟨m, isNew, h₁⟩ := r
  dsimp only at hnamed ⊢
  have hready : h.Carries (if isNew = true then
      (h₁.rawSetText m "__gc" (.builtin collector)).rawSetText m "__metatable" (.bool false) else h₁) := by
    split
    · exact hnamed.trans ((h₁.carries_rawSetText _ _ _).trans (carries_rawSetText _ _ _ _))
    · exact hnamed
  generalize (if isNew = true then _ else h₁) = h₂ at hready
  have hnew := (h₂.admits_newUserdata hp 16).after hready
  cases m with
  | table i => exact ⟨_, rfl, hnew.setMetatable i⟩
  | _ => exact ⟨_, rfl, hnew⟩

end Engine.Heap

namespace World

/-- A reference goes into a new userdata. -/
theorem abides_carry (w : World σ μ) (c : Context) {v : Value} {p : Payload} {x : Asset} (name : String)
    (collector : Builtin) (hv : v.asset? = some x) (hp : p.asset? = some x) :
    w.Abides ((w.retain v).pushUserdata c p name collector).2 := by
  have hret := w.instances_retain v
  unfold pushUserdata
  rw [onVm_world]
  cases hi : w.instances[c.vm]? with
  | none =>
    -- The reference has gone to no userdata, and is never let go of.
    rw [modifyVm_none _ (hret.1 ▸ hi)]
    refine abides_entry (tame_congr hret.1) fun es _ => ?_
    let k : Carrier := ⟨x, c.vm, 0⟩
    exact ⟨[.lost k, .pushed k false], .vain (k := k) hv hi, fun j hj =>
      (mem_waiting_pushed.mp (List.mem_of_mem_filter hj)).1⟩
  | some y =>
    obtain ⟨n, -, hadmits⟩ := ((w.retain v).heap c.vm).admits_carrier hp name collector
    let w' := (w.retain v).modifyVm c.vm fun vm =>
      { vm with heap := (carrier vm.heap p name collector).2 }
    have hself : w'.heap c.vm = (carrier ((w.retain v).heap c.vm) p name collector).2 :=
      congrArg Vm.heap (vm_modifyVm_self _ (hret.1 ▸ hi))
    have hconfined : (w.retain v).Confines c.vm w' := confines_modifyVm _
    rw [← hself] at hadmits
    refine abides_entry (fun hw => ((tame_congr hret.1 hw).modifyVm ?_ : w'.Tame)) fun es _ => ?_
    · exact Vm.tame_of_threads (tame_congr hret.1 hw c.vm) rfl
    let k : Carrier := ⟨x, c.vm, n⟩
    refine ⟨[.pushed k (decide (.userdata n ∈ (w'.heap c.vm).finalizable ∧ .closed c.vm ∉ w.history))],
      .pushed hv hconfined (heap_congr hret.1 c.vm ▸ hadmits) decide_eq_true_iff, fun j hj =>
      (mem_waiting_pushed.mp hj).1⟩

/-- All that the host does without a run. -/
theorem effects_abides (A : Context → Prop) : Effects A (Abides (σ := σ) (μ := μ)) where
  refl := .refl
  trans _ _ _ := .trans
  reserve w c n := by
    rw [reserve_world]
    exact abides_modifyThread c fun th hth => Thread.tame_reserve hth _ n
  anchor w t := (noted_anchor w t).abides
  releaseAll w vs := by
    induction vs generalizing w with
    | nil => exact .refl w
    | cons v vs ih => exact (abides_release w v).trans (ih _)
  slots w c f _ := by
    rw [modifySlots_eq]
    exact abides_modifyThread c fun th hth => Thread.tame_mapSlots hth f
  objects w i f ht hf := (bears_modifyVm (hf _)).abides fun hw =>
    hw.modifyVm (Vm.tame_of_threads (hw i) (ht _))
  spawn w i slots := (bears_modifyVm (.refl _)).abides fun hw => hw.modifyVm ((hw i).spawn slots)
  retain := abides_retain
  carry w c _ _ name collector _ hv hp := abides_carry w c name collector hv hp
  log _ _ _ _ := abides_congr rfl rfl rfl rfl
  host hi hf ho _ _ hh := abides_congr hi hf ho hh
  newForeign w payload := abides_entry (tame_congr rfl) fun _ _ =>
    ⟨[.made (.foreign w.foreigns.next)], .madeForeign payload, List.Subset.refl _⟩
  newFunction w shape code := abides_entry (tame_congr rfl) fun _ _ =>
    ⟨[.made (.function w.functions.next)], .madeFunction shape code, List.Subset.refl _⟩

end World
end LuaEmbed
