import LuaEmbed.Host.Owner
import LuaEmbed.Proofs.Entries
import LuaEmbed.Proofs.Handles
import Mathlib.Tactic.ByContra
import Mathlib.Tactic.Tauto

/-!
Reservations. Whether some slots may be reserved depends on how many are in use; so whoever may
reserve so many may reserve fewer, may do so again, and may fill some of them and reserve the rest.
-/
namespace LuaEmbed

open Engine

namespace Engine.Thread

variable {t u : Thread} {starved : Bool} {l m n : Nat}

/-- So many more slots may be reserved on a stack. -/
def Grants (t : Thread) (starved : Bool) (n : Nat) : Prop := (t.reserve starved n).1 = true

theorem grants_iff : t.Grants starved n ↔
    n < t.size - t.used ∨
      t.size ≤ maxSize ∧ n < maxSize ∧ t.used + n ≤ maxSize ∧
        (starved = true → t.used + n ≤ t.size ∧ (t.size = maxSize ∨ t.size = 0)) := by
  unfold Grants reserve grownSize
  by_cases hn : n < t.size - t.used
  · simp [hn]
  · rw [if_neg hn]
    by_cases hs : maxSize < t.size
    · rw [if_pos hs]
      have hno : ¬ t.size ≤ maxSize := Nat.not_le.mpr hs
      simp [hn, hno]
    · rw [if_neg hs]
      dsimp only
      by_cases hw : n < maxSize ∧ max (min (2 * t.size) maxSize) (t.used + n) ≤ maxSize
      · rw [if_pos hw]
        have hgrow : max (min (2 * t.size) maxSize) (t.used + n) = t.size ↔
            t.used + n ≤ t.size ∧ (t.size = maxSize ∨ t.size = 0) := by omega
        have hfit : t.size ≤ maxSize ∧ n < maxSize ∧ t.used + n ≤ maxSize := by omega
        cases starved with
        | false => simp [hfit]
        | true => by_cases he : max (min (2 * t.size) maxSize) (t.used + n) = t.size <;>
            simp [hn, hfit, he, ← hgrow]
      · rw [if_neg hw]
        have hno : ¬ (n < maxSize ∧ t.used + n ≤ maxSize) := by omega
        dsimp only
        split
        · simp only [Bool.false_eq_true, false_iff]
          tauto
        · simp only [Bool.false_eq_true, false_iff]
          tauto

theorem Grants.less (h : t.Grants starved n) (hm : m ≤ n) : t.Grants starved m := by
  rw [grants_iff] at h ⊢
  rcases h with h | ⟨hs, hn, hu, hst⟩
  · exact .inl (by omega)
  · refine .inr ⟨hs, by omega, by omega, fun hb => ?_⟩
    obtain ⟨hle, hsize⟩ := hst hb
    exact ⟨by omega, hsize⟩

/-- Slots that have been filled need not be reserved any more. -/
theorem Grants.fill (h : t.Grants starved n) (hs : u.size = t.size) (hm : m ≤ n)
    (hu : u.used + m ≤ t.used + n) : u.Grants starved m := by
  rw [grants_iff] at h ⊢
  rw [hs]
  rcases h with h | ⟨hsize, hn, hused, hst⟩
  · exact .inl (by omega)
  · refine .inr ⟨hsize, by omega, by omega, fun hb => ?_⟩
    obtain ⟨hle, hfull⟩ := hst hb
    exact ⟨by omega, hfull⟩

theorem reserve_ok (h : (t.reserve starved n).1 = true) :
    ∃ size, grownSize t.size t.used n = .ok size ∧ (starved = true → size = t.size) ∧
      (t.reserve starved n).2 = { t with size }.modifyTop fun f =>
        { f with limit := max f.limit (t.used + n) } := by
  unfold reserve at h ⊢
  cases hg : grownSize t.size t.used n with
  | error size =>
    simp only [hg] at h
    split at h <;> cases h
  | ok size =>
    simp only [hg] at h ⊢
    split at h
    · cases h
    next hs =>
      refine ⟨size, rfl, fun hst => ?_, by rw [if_neg hs]⟩
      simpa [hst] using hs

theorem used_reserve (h : (t.reserve starved n).1 = true) :
    (t.reserve starved n).2.used = t.used := by
  obtain ⟨size, -, -, he⟩ := reserve_ok h
  rw [he]
  exact used_modifyTop _ rfl

/-- A stack grows if it has to. -/
theorem size_reserve (h : t.Grants starved n) :
    (t.reserve starved n).2.size = t.size ∨
      t.size - t.used ≤ n ∧ (t.reserve starved n).2.size ≤ maxSize ∧
        t.used + n ≤ (t.reserve starved n).2.size ∧
        ((t.reserve starved n).2.size ≠ t.size → starved = false) := by
  obtain ⟨size, hg, hstarved, he⟩ := reserve_ok h
  rw [he, size_modifyTop]
  unfold grownSize at hg
  split at hg
  · obtain rfl := Except.ok.inj hg
    exact .inl rfl
  next hn =>
    split at hg
    · cases hg
    dsimp only at hg
    split at hg
    next hw =>
      obtain rfl := Except.ok.inj hg
      refine .inr ⟨Nat.not_lt.mp hn, hw.2, Nat.le_max_right _ _, fun hne => ?_⟩
      exact Bool.eq_false_iff.mpr fun hs => hne (hstarved hs)
    · cases hg

/-- What may be reserved may still be reserved once a part of it has been. -/
theorem Grants.reserve (h : t.Grants starved n) (hm : m ≤ n) :
    (t.reserve starved m).2.Grants starved n := by
  have hless := h.less hm
  have hused := used_reserve hless
  have hsize := size_reserve hless
  rw [grants_iff] at h hless ⊢
  rw [hused]
  rcases hsize with hsize | ⟨hfull, hmax, hfit, hgrown⟩
  · rwa [hsize]
  · rcases h with h | ⟨hs, hn, hu, hst⟩
    · exact absurd h (by omega)
    · refine .inr ⟨hmax, hn, hu, fun hb => ?_⟩
      have hsame : (t.reserve starved m).2.size = t.size := by
        by_contra he
        simp [hgrown he] at hb
      rw [hsame]
      exact hst hb

theorem grownSize_room {size used n size' : Nat} (h : grownSize size used n = .ok size') :
    used + n ≤ size' := by
  unfold grownSize at h
  split at h
  · obtain rfl := Except.ok.inj h
    omega
  · split at h
    · cases h
    · dsimp only at h
      split at h
      · obtain rfl := Except.ok.inj h
        omega
      · cases h

/-- Slots up to this one can be had: they are there, or the stack may grow so far. -/
def Reaches (t : Thread) (starved : Bool) (l : Nat) : Prop :=
  l < t.size ∨ t.size ≤ maxSize ∧ l ≤ maxSize ∧
    (starved = true → l ≤ t.size ∧ (t.size = maxSize ∨ t.size = 0))

theorem Reaches.less (h : t.Reaches starved l) (hm : m ≤ l) : t.Reaches starved m := by
  unfold Reaches at *
  rcases h with h | ⟨hs, hl, hst⟩
  · exact .inl (by omega)
  · refine .inr ⟨hs, by omega, fun hb => ?_⟩
    obtain ⟨hle, hfull⟩ := hst hb
    exact ⟨by omega, hfull⟩

theorem Reaches.same (h : t.Reaches starved l) (hs : u.size = t.size) : u.Reaches starved l := by
  unfold Reaches
  rwa [hs]

theorem Grants.reaches (h : t.Grants starved n) : t.Reaches starved (t.used + n) := by
  rcases grants_iff.mp h with h | ⟨hs, -, hl, hst⟩
  · exact .inl (by omega)
  · exact .inr ⟨hs, hl, hst⟩

/-- Slots that can be had may be reserved. -/
theorem Reaches.grants (h : t.Reaches starved l) (hl : t.used + n ≤ l)
    (hn : 0 < t.used ∨ n < maxSize) : t.Grants starved n := by
  rw [grants_iff]
  rcases h.less hl with h | ⟨hs, hl, hst⟩
  · exact .inl (by omega)
  · exact .inr ⟨hs, by omega, hl, hst⟩

theorem Reaches.grows {used need : Nat} (h : t.Reaches starved l) (hl : used + need ≤ l)
    (hu : 0 < used) :
    ∃ size, grownSize t.size used need = .ok size ∧ (starved = true → size = t.size) := by
  let v : Thread := { above := [{ level := .native #[], base := used }], size := t.size }
  have hv : v.Grants starved need := (h.same (u := v) rfl).grants hl (.inl hu)
  obtain ⟨size, hg, hst, -⟩ := reserve_ok hv
  exact ⟨size, hg, hst⟩

/-- A stack that has grown reaches as far as it did. -/
theorem Reaches.grown {used need : Nat} (h : t.Reaches starved l)
    (hg : grownSize t.size used need = .ok u.size) (hst : starved = true → u.size = t.size) :
    u.Reaches starved l := by
  by_cases hsame : u.size = t.size
  · exact h.same hsame
  unfold grownSize at hg
  split at hg
  · exact absurd (Except.ok.inj hg).symm hsame
  next hfull =>
    split at hg
    · cases hg
    dsimp only at hg
    split at hg
    next hw =>
      have hsize := Except.ok.inj hg
      rcases h with h | ⟨hmax, hl, -⟩
      · exact .inl (by omega)
      · exact .inr ⟨by omega, hl, fun hs => absurd (hst hs) hsame⟩
    · cases hg

end Engine.Thread

namespace World

variable {σ μ : Type} {w w' : World σ μ} {c d : Context} {m n : Nat}

/-- So many more slots may be reserved on a stack. -/
def Grants (w : World σ μ) (c : Context) (n : Nat) : Prop := (w.reserve c n).1 = true

instance : Decidable (w.Grants c n) := inferInstanceAs (Decidable (_ = true))

theorem grants_iff :
    w.Grants c n ↔ (∃ x, w.instances[c.vm]? = some x) ∧
      (w.thread c).Grants (w.heap c.vm).starved n := by
  unfold Grants Thread.Grants
  cases hx : w.instances[c.vm]? with
  | none =>
    unfold World.reserve
    rw [onVm_eq, hx]
    simp
  | some x =>
    rw [reserve_answer w c n hx]
    simp

theorem Grants.less (h : w.Grants c n) (hm : m ≤ n) : w.Grants c m := by
  rw [grants_iff] at h ⊢
  exact ⟨h.1, h.2.less hm⟩

theorem exists_modifyThread (w : World σ μ) (c d : Context) (f : Thread → Thread) :
    (∃ x, (w.modifyThread d f).instances[c.vm]? = some x) ↔ ∃ x, w.instances[c.vm]? = some x := by
  unfold modifyThread modifyVm
  rw [instances_modifyInstance]
  split
  · cases w.instances[c.vm]? <;> simp
  · rfl

theorem thread_modifyThread (w : World σ μ) (c d : Context) (f : Thread → Thread) :
    (w.modifyThread d f).thread c = w.thread c ∨
      d = c ∧ (w.modifyThread d f).thread c = f (w.thread c) := by
  rw [thread_eq, thread_eq, thread?_modifyThread]
  split
  next hd =>
    cases w.thread? c with
    | none => exact .inl rfl
    | some t => exact .inr ⟨hd, rfl⟩
  next => exact .inl rfl

/-- A change of a thread, as far as reservations go. -/
theorem Grants.modifyThread (h : w.Grants c n) (d : Context) {f : Thread → Thread} (hm : m ≤ n)
    (hf : d = c → (f (w.thread c)).Grants (w.heap c.vm).starved m) :
    (w.modifyThread d f).Grants c m := by
  rw [grants_iff] at h ⊢
  rw [exists_modifyThread, heap_modifyThread]
  refine ⟨h.1, ?_⟩
  rcases thread_modifyThread w c d f with he | ⟨hd, he⟩
  · rw [he]
    exact h.2.less hm
  · rw [he]
    exact hf hd

theorem Grants.reserve (h : w.Grants c n) (d : Context) (hm : d = c → m ≤ n) :
    (w.reserve d m).2.Grants c n := by
  rw [reserve_world]
  refine h.modifyThread d (Nat.le_refl n) fun hd => ?_
  subst hd
  exact (grants_iff.mp h).2.reserve (hm rfl)

theorem Grants.modifySlots (h : w.Grants c n) {f : Array Val → Array Val} (hm : m ≤ n)
    (hf : ∀ s, (f s).size + m ≤ s.size + n) : (w.modifySlots c f).Grants c m := by
  rw [modifySlots_eq]
  refine h.modifyThread c hm fun _ =>
    (grants_iff.mp h).2.fill (Thread.size_modifyTop _ _) hm ?_
  have hframe : ∀ fr : Frame, (fr.mapSlots f).used + m ≤ fr.used + n := by
    intro fr
    unfold Frame.mapSlots Frame.used Frame.count
    cases hl : fr.level with
    | native s =>
      have hs := hf s
      dsimp only
      omega
    | script a =>
      dsimp only
      rw [hl]
      exact Nat.add_le_add_left hm _
  have htop := hframe (w.thread c).top
  unfold Thread.used
  rwa [Thread.top_modifyTop]

theorem Grants.push (h : w.Grants c (n + 1)) (v : Val) : (w.push c v).Grants c n :=
  h.modifySlots (Nat.le_succ n) fun s => by
    rw [Array.size_push]
    omega

/-- Changes that leave a thread alone. -/
theorem Grants.same (h : w.Grants c n) (ht : w'.thread? c = w.thread? c)
    (hh : (w'.heap c.vm).starved = (w.heap c.vm).starved)
    (hi : ∀ x, w.instances[c.vm]? = some x → ∃ y, w'.instances[c.vm]? = some y) :
    w'.Grants c n := by
  rw [grants_iff] at h ⊢
  obtain ⟨⟨x, hx⟩, h⟩ := h
  refine ⟨hi x hx, ?_⟩
  rw [thread_eq, ht, ← thread_eq, hh]
  exact h

/-- Stacks, objects and owners are as they were, and whatever could be reserved still can be. -/
structure Intact (w w' : World σ μ) : Prop extends w.Alike w' where
  grants : ∀ d n, w.Grants d n → w'.Grants d n
  closed : ∀ i : Nat, (w'.instances[i]?).map (·.closed) = (w.instances[i]?).map (·.closed)

theorem Intact.refl (w : World σ μ) : w.Intact w := ⟨.refl w, fun _ _ h => h, fun _ => rfl⟩

theorem Intact.trans {w₁ : World σ μ} (h : w.Intact w₁) (k : w₁.Intact w') : w.Intact w' where
  toAlike := h.toAlike.trans k.toAlike
  grants d n hg := k.grants d n (h.grants d n hg)
  closed i := (k.closed i).trans (h.closed i)

/-- A reservation that is granted takes nothing away from anyone. -/
theorem intact_reserve (h : w.Grants c m) : w.Intact (w.reserve c m).2 where
  toAlike := alike_reserve w c m
  grants d n hg := by
    by_cases hd : c = d
    · subst hd
      rcases Nat.le_total m n with hm | hn
      · exact hg.reserve c fun _ => hm
      · exact (h.reserve c fun _ => Nat.le_refl m).less hn
    · exact hg.reserve c fun he => absurd he hd
  closed := (touches_reserve w c m).closed

/-- A change of the books. -/
theorem intact_modifyInstance (w : World σ μ) (i : Nat) {f : Instance → Instance}
    (hf : ∀ x, (f x).vm = x.vm) (hc : ∀ x, (f x).closed = x.closed) :
    w.Intact (w.modifyInstance i f) where
  toAlike := alike_modifyInstance w i hf
  grants d n hg := by
    refine hg.same (thread?_modifyInstance w i d f hf)
      (congrArg Heap.starved ((alike_modifyInstance w i hf).heap d.vm)) ?_
    intro x hx
    rw [instances_modifyInstance, hx]
    split
    · exact ⟨f x, rfl⟩
    · exact ⟨x, rfl⟩
  closed j := by
    rw [instances_modifyInstance]
    split
    · cases w.instances[j]? with
      | none => rfl
      | some x => exact congrArg some (hc x)
    · rfl

theorem intact_of_instances (h : w'.instances = w.instances) : w.Intact w' where
  toAlike := alike_of_instances h
  grants d n hg := by
    refine hg.same ?_ (congrArg Heap.starved ((alike_of_instances h).heap d.vm))
      fun x hx => ⟨x, by rwa [h]⟩
    unfold World.thread?
    rw [h]
  closed i := by rw [h]

end World

/-! ### Looking at a stack -/

namespace Context

open World

variable {σ μ : Type} {w w' : World σ μ} {c d : Context} {m n : Nat}

theorem checkStack_intact (h : w.Grants c n) {k : Int} (hk : k ≤ n) :
    ∃ w', c.checkStack k w = (.ok (), w') ∧ w.Intact w' := by
  by_cases h0 : 0 < k
  · have hless : w.Grants c k.toNat := h.less (by omega)
    exact ⟨_, checkStack_granted h0 hless, intact_reserve hless⟩
  · refine ⟨w, ?_, .refl w⟩
    unfold checkStack
    rw [if_pos (by omega)]

theorem shared_intact (h : w.Grants c 1) :
    ∃ w', w.Intact w' ∧ (∀ i, (w.heap c.vm).owner? = some i → c.shared w = (.ok i, w')) ∧
      ((w.heap c.vm).owner? = none → c.shared w = (.error unrecorded, w')) := by
  obtain ⟨w', hroom, hi⟩ := checkStack_intact h (show (1 : Int) ≤ (1 : Nat) by decide)
  unfold shared Heap.owner?
  rw [Api.bind_ok hroom, Api.get_bind, Api.get_bind, hi.heap]
  refine ⟨w', hi, ?_⟩
  cases (w.heap c.vm).rawGet (w.heap c.vm).registryTable recordKey with
  | light p =>
    dsimp only
    by_cases h0 : p = 0
    · rw [if_pos h0, if_pos h0]
      exact ⟨nofun, fun _ => rfl⟩
    · rw [if_neg h0, if_neg h0]
      exact ⟨fun i ho => by rw [← Option.some.inj ho]; rfl, nofun⟩
  | _ => exact ⟨nofun, fun _ => rfl⟩

/-- A thread that has been read has a handle of its own. -/
theorem capture_intact {i t : Nat} {pos : Int} (h : w.Grants c 1)
    (ho : (w.heap c.vm).owner? = some i) (hpos : w.at_ c pos = .thread t) :
    ∃ q w', c.capture pos w = (.ok q, w') ∧ w.Intact w' ∧ q.thread = ⟨i, t⟩ := by
  obtain ⟨w₁, hi₁, hshared, -⟩ := shared_intact h
  obtain ⟨w₂, hroom, hi₂⟩ := checkStack_intact (hi₁.grants c 1 h) (show (1 : Int) ≤ (1 : Nat) by decide)
  rw [← (hi₁.trans hi₂).at_ c] at hpos
  obtain ⟨⟨j, f, hj⟩, -⟩ := (HandleTouch.made w₂ ⟨i, t⟩).records
  have hbooks : w₂.Intact (w₂.modifyInstance j fun x => { x with references := f x }) :=
    intact_modifyInstance w₂ j (fun _ => rfl) fun _ => rfl
  unfold capture
  rw [Api.bind_ok (hshared i ho), Api.bind_ok hroom, Api.get_bind, hpos]
  exact ⟨_, _, rfl, ((hi₁.trans hi₂).trans hbooks).trans (intact_of_instances hj), rfl⟩

/-- Where there is room, whatever can be told of a slot is read. -/
theorem read_intact {k pos : Int} (hk : c.resolve k w = (.ok pos, w)) (h : w.Grants c 2)
    (ht : ∀ t, w.at_ c pos = .thread t → (w.heap c.vm).owner? ≠ none) :
    ∃ v w', c.read k w = (.ok v, w') ∧ w.Intact w' ∧
      ∀ q, v = .thread q → (w.heap c.vm).owner? = some q.thread.vm := by
  obtain ⟨w₁, hroom, hi⟩ := checkStack_intact h (show (2 : Int) ≤ (2 : Nat) by decide)
  unfold read
  rw [Api.bind_ok hk, Api.bind_ok hroom, Api.get_bind, hi.at_]
  cases hv : w.at_ c pos with
  | thread t =>
    obtain ⟨i, ho⟩ := Option.ne_none_iff_exists'.mp (ht t hv)
    obtain ⟨q, w₂, hcapture, hi₂, hq⟩ := capture_intact ((hi.grants c 2 h).less (by decide))
      (by rwa [hi.heap]) (by rwa [hi.at_])
    refine ⟨.thread q, w₂, Api.bind_ok hcapture, hi.trans hi₂, fun q' he => ?_⟩
    rw [ho, ← Value.thread.inj he, hq]
  | _ => exact ⟨_, w₁, rfl, hi, nofun⟩

/-- Slots are read one after the other. -/
theorem readFrom_intact {s : Array Val} {us rest : List Val} {pos : Int} (acc : List Value)
    (h : w.Grants c 2) (hp : 1 ≤ pos) (hs : w.shown c = some s)
    (hd : s.toList.drop (pos - 1).toNat = us ++ rest)
    (ht : ∀ t, .thread t ∈ us → (w.heap c.vm).owner? ≠ none) :
    ∃ vs w', c.readFrom pos us.length acc w = (.ok vs, w') ∧ w.Intact w' := by
  induction us generalizing pos acc w with
  | nil => exact ⟨acc.reverse, w, rfl, .refl w⟩
  | cons u us ih =>
    have hlength := congrArg List.length hd
    rw [List.length_drop, Array.length_toList, List.length_append, List.length_cons] at hlength
    have hresolve : c.resolve pos w = (.ok pos, w) := by
      unfold resolve
      rw [Api.bind_ok (show c.top w = (.ok (w.depth c : Int), w) from rfl), depth_of_shown hs,
        Index.resolve_inside hp (by omega)]
      rfl
    have hslots : (w.slots c).toList.drop (pos - 1).toNat = u :: (us ++ rest) := by
      rw [slots_of_shown hs, hd]
      rfl
    have hu := at_of_drop hslots
    obtain ⟨v, w₁, hread, hi, -⟩ := read_intact hresolve h fun t he =>
      ht t (List.mem_cons.mpr (.inl (he.symm.trans hu)))
    have hnext : s.toList.drop (pos + 1 - 1).toNat = us ++ rest := by
      rw [show (pos + 1 - 1).toNat = (pos - 1).toNat + 1 by omega, ← List.drop_drop, hd]
      rfl
    obtain ⟨vs, w₂, hrest, hi₂⟩ := ih (v :: acc) (hi.grants c 2 h) (by omega)
      ((hi.shown c).trans hs) hnext fun t he => by
        rw [hi.heap]
        exact ht t (List.mem_cons_of_mem _ he)
    refine ⟨vs, w₂, ?_, hi.trans hi₂⟩
    rw [List.length_cons]
    unfold readFrom
    simp only [hread]
    exact hrest

/-- Where there is room, whatever can be told of the slots from a position on is read. -/
theorem readBatch_intact {s : Array Val} {us rest : List Val} {pos : Int} (h : w.Grants c 2)
    (hp : 1 ≤ pos) (hs : w.shown c = some s) (hd : s.toList.drop (pos - 1).toNat = us ++ rest)
    (hsize : (s.size : Int) ≤ Word32.greatest)
    (ht : ∀ t, .thread t ∈ us → (w.heap c.vm).owner? ≠ none) :
    ∃ vs w', c.readBatch us.length (some pos) w = (.ok vs, w') ∧ w.Intact w' ∧
      w.ShowsAll c pos us vs := by
  obtain ⟨vs, w', hread, hi⟩ := readFrom_intact [] h hp hs hd ht
  have hbatch : c.readBatch us.length (some pos) w = (.ok vs, w') := by
    unfold readBatch
    by_cases h0 : (us.length : Int) = 0
    · rw [if_pos h0]
      rw [show us.length = 0 by omega] at hread
      exact hread
    · have hlength := congrArg List.length hd
      rw [List.length_drop, Array.length_toList, List.length_append] at hlength
      rw [if_neg h0, Api.bind_ok (show c.top w = (.ok (w.depth c : Int), w) from rfl),
        depth_of_shown hs, Index.resolveWindow_inside (by omega) hp (by omega) hsize]
      exact hread
  exact ⟨vs, w', hbatch, hi, readBatch_ok hp (by rwa [slots_of_shown hs]) hbatch⟩

end Context

/-! ### An interpreter whose record is gone -/

instance decidableEqError {ε α : Type} [DecidableEq ε] (r : Except ε α) (e : ε) :
    Decidable (r = .error e) :=
  match r with
  | .ok _ => isFalse nofun
  | .error e' => decidable_of_iff (e' = e) ⟨congrArg _, Except.error.inj⟩

/-- A new interpreter without its record, with its main thread as a global variable. -/
def World.unmarked (s : Array Val) : World Unit Unit where
  instances :=
    let h := (freshVm 0).heap
    #[{ vm := { heap := (h.rawSet h.registryTable recordKey .nil).rawSetText h.globals "co" (.thread 0)
                threads := #[{ ground := { level := .native s } }] }
        chunkName := .empty }]
  memory := ()
  subscriber _ m := m

end LuaEmbed
