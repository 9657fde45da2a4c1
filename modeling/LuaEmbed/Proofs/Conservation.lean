import LuaEmbed.Proofs.Atomicity
import LuaEmbed.Proofs.Identity
import LuaEmbed.Proofs.Listing
import LuaEmbed.Proofs.Marshalling
import Mathlib.Algebra.BigOperators.Group.Finset.Piecewise
import Mathlib.Algebra.Order.Group.Multiset

/-!
Moving values between stacks. A transfer takes the topmost values off one stack and puts them, in their
order, on another one of the same interpreter, or it leaves every stack as it was. So over any sequence of
transfers, between any stacks, each interpreter keeps the values that are on its stacks.
-/
namespace LuaEmbed

open Engine World

variable {σ μ : Type} {c d : Context} {w w' w₁ w₂ : World σ μ} {n : Int} {i : Nat}

namespace World

/-! ### What is on the stacks of an interpreter -/

def threadCount (w : World σ μ) (i : Nat) : Nat := (w.instances[i]?).elim 0 (·.vm.threads.size)

/-- The values that a stack shows, in no order. -/
def held (w : World σ μ) (c : Context) : Multiset Val := ((w.shown c).getD #[]).toList

/-- The values that the stacks of an interpreter show, all taken together. -/
def holdings (w : World σ μ) (i : Nat) : Multiset Val :=
  ∑ t ∈ Finset.range (w.threadCount i), w.held ⟨i, t⟩

theorem held_of_shown {s : Array Val} (h : w.shown c = some s) : w.held c = (s.toList : Multiset Val) := by
  unfold held
  rw [h]
  rfl

theorem threadCount_modifyThread (w : World σ μ) (d : Context) (f : Thread → Thread) :
    (w.modifyThread d f).threadCount i = w.threadCount i := by
  unfold threadCount modifyThread modifyVm
  rw [instances_modifyInstance]
  split
  · cases w.instances[i]? with
    | none => rfl
    | some x => exact Array.size_modify
  · rfl

/-- There are as many threads as there were. -/
def SameCounts (w w' : World σ μ) : Prop := ∀ i, w'.threadCount i = w.threadCount i

instance : IsPreorder (World σ μ) SameCounts where
  refl _ _ := rfl
  trans _ _ _ h k i := (k i).trans (h i)

theorem sameCounts_reserve (w : World σ μ) (d : Context) (n : Nat) :
    w.SameCounts (w.reserve d n).2 := fun i => by
  rw [reserve_world]
  exact threadCount_modifyThread ..

theorem sameCounts_modifySlots (w : World σ μ) (d : Context) (f : Array Val → Array Val) :
    w.SameCounts (w.modifySlots d f) := fun i => by
  rw [modifySlots_eq]
  exact threadCount_modifyThread ..

theorem lt_threadCount {s : Array Val} (h : w.shown c = some s) : c.thread < w.threadCount c.vm := by
  obtain ⟨th, hth, -⟩ := Option.bind_eq_some_iff.mp h
  obtain ⟨x, hx, hx'⟩ := Option.bind_eq_some_iff.mp hth
  unfold threadCount
  rw [hx]
  exact (Array.getElem?_eq_some_iff.mp hx').1

/-! ### Values that change stacks -/

/-- The topmost values of one stack have been put on another one, and that is all. -/
structure Shifted (c d : Context) (ys : Array Val) (w w' : World σ μ) : Prop where
  source : ∃ xs, w.shown c = some (xs ++ ys) ∧ w'.shown c = some xs
  target : ∃ zs, w.shown d = some zs ∧ w'.shown d = some (zs ++ ys)
  others : ∀ e, e ≠ c → e ≠ d → w'.shown e = w.shown e
  heap : ∀ i, w'.heap i = w.heap i

/-- What goes there and comes back. -/
theorem Shifted.back {xs ys : Array Val} (h : Shifted c d xs w w₁) (k : Shifted d c ys w₁ w₂)
    (hsize : ys.size = xs.size) :
    (∀ e, w₂.shown e = w.shown e) ∧ ∀ i, w₂.heap i = w.heap i := by
  obtain ⟨as, hc, hc₁⟩ := h.source
  obtain ⟨bs, hd, hd₁⟩ := h.target
  obtain ⟨bs', hd₁', hd₂⟩ := k.source
  obtain ⟨as', hc₁', hc₂⟩ := k.target
  obtain rfl : as' = as := Option.some.inj (hc₁'.symm.trans hc₁)
  obtain ⟨rfl, rfl⟩ : bs' = bs ∧ ys = xs :=
    Array.append_inj' (Option.some.inj (hd₁'.symm.trans hd₁)) hsize
  refine ⟨fun e => ?_, fun i => (k.heap i).trans (h.heap i)⟩
  by_cases hec : e = c
  · rw [hec, hc₂, hc]
  by_cases hed : e = d
  · rw [hed, hd₂, hd]
  rw [k.others e hed hec, h.others e hec hed]

/-- What is on one stack and what has left another make up what was there. -/
theorem Shifted.balance {ys : Array Val} (h : Shifted c d ys w w') (hne : c ≠ d) (e : Context) :
    w'.held e + (if e = c then (ys.toList : Multiset Val) else 0) =
      w.held e + if e = d then (ys.toList : Multiset Val) else 0 := by
  by_cases hec : e = c
  · subst hec
    obtain ⟨xs, hs, hs'⟩ := h.source
    rw [if_pos rfl, if_neg hne, held_of_shown hs, held_of_shown hs', Array.toList_append,
      ← Multiset.coe_add, add_zero]
  by_cases hed : e = d
  · subst hed
    obtain ⟨zs, hs, hs'⟩ := h.target
    rw [if_neg hec, if_pos rfl, held_of_shown hs, held_of_shown hs', Array.toList_append,
      ← Multiset.coe_add, add_zero]
  · rw [if_neg hec, if_neg hed]
    unfold held
    rw [h.others e hec hed]

theorem sum_at (e : Context) (ys : Multiset Val) (k : Nat) :
    (∑ t ∈ Finset.range k, if (⟨i, t⟩ : Context) = e then ys else 0) =
      if e.vm = i ∧ e.thread < k then ys else 0 := by
  by_cases hvm : e.vm = i
  · have hiff : ∀ t, (⟨i, t⟩ : Context) = e ↔ t = e.thread := fun t => by
      cases e
      simp_all
    simp only [hiff, Finset.sum_ite_eq', Finset.mem_range, hvm, true_and]
  · rw [if_neg fun h => hvm h.1]
    refine Finset.sum_eq_zero fun t _ => if_neg ?_
    rintro rfl
    exact hvm rfl

/-- Values that change stacks within an interpreter stay among what it holds. -/
theorem Shifted.holdings {ys : Array Val} (h : Shifted c d ys w w') (hne : c ≠ d) (hvm : c.vm = d.vm)
    (hcounts : w.SameCounts w') (i : Nat) : w'.holdings i = w.holdings i := by
  have hc : c.thread < w.threadCount c.vm := lt_threadCount h.source.choose_spec.1
  have hd : d.thread < w.threadCount d.vm := lt_threadCount h.target.choose_spec.1
  have hsum := Finset.sum_congr (rfl : Finset.range (w.threadCount i) = _)
    fun t _ => h.balance hne ⟨i, t⟩
  rw [Finset.sum_add_distrib, Finset.sum_add_distrib, sum_at, sum_at] at hsum
  have hiff : c.vm = i ∧ c.thread < w.threadCount i ↔ d.vm = i ∧ d.thread < w.threadCount i := by
    constructor
    · rintro ⟨rfl, -⟩
      exact ⟨hvm.symm, hvm ▸ hd⟩
    · rintro ⟨rfl, -⟩
      exact ⟨hvm, hvm ▸ hc⟩
  unfold World.holdings
  rw [hcounts i]
  rw [if_congr hiff rfl rfl] at hsum
  exact add_right_cancel hsum

theorem Alike.holdings (h : w.Alike w') (hcounts : w.SameCounts w') (i : Nat) :
    w'.holdings i = w.holdings i := by
  unfold World.holdings held
  rw [hcounts i]
  exact Finset.sum_congr rfl fun t _ => by rw [h.shown]

/-! ### Worlds between operations -/

/-- No record names another interpreter, and no stack is larger than one may be. -/
structure Regular (w : World σ μ) : Prop where
  truthful : ∀ i j, (w.heap i).owner? = some j → j = i
  bounded : ∀ c, w.Bounded c
  short : ∀ c s, w.shown c = some s → (s.size : Int) ≤ Word32.greatest

theorem Regular.same_vm (hw : w.Regular) (h : (c.sameVm d w).1 = .ok true) : c.vm = d.vm := by
  obtain ⟨i, hc, hd⟩ := Context.sameVm_true.mp h
  exact (hw.truthful _ _ hc.2).symm.trans (hw.truthful _ _ hd.2)

end World

namespace Context

/-! ### One transfer -/

theorem keeps_transfer {R : World σ μ → World σ μ → Prop} [IsPreorder (World σ μ) R]
    (hreserve : ∀ w d n, R w (World.reserve w d n).2)
    (hslots : ∀ w d f, R w (World.modifySlots w d f)) (c d : Context) (n : Int) :
    Api.Keeps R (c.transfer d n : Api σ μ Unit) := by
  intro w
  have hsame : R w (c.sameVm d w).2 := by
    rw [sameVm_world]
    exact trans_of R (hreserve _ _ _) (hreserve _ _ _)
  have hroom : ∀ w₁, R w₁ (d.checkStack n w₁).2 := by
    intro w₁
    unfold checkStack
    split
    · exact refl_of R w₁
    · have hr := hreserve w₁ d n.toNat
      cases h : w₁.reserve d n.toNat with
      | mk granted w₂ =>
        rw [h] at hr
        cases granted <;> exact hr
  have hends := transfer_ends c d n w
  generalize c.transfer d n w = p at hends ⊢
  cases hends with
  | nothing | outside => exact refl_of R w
  | strangers _ _ h | onto _ _ h =>
    rw [h] at hsame
    exact hsame
  | @refused _ w₁ _ _ _ h _ h' =>
    have hr := hroom w₁
    rw [h] at hsame
    rw [h'] at hr
    exact trans_of R hsame hr
  | @moved _ w₁ _ _ _ h _ h' =>
    have hr := hroom w₁
    rw [h] at hsame
    rw [h'] at hr
    exact trans_of R (trans_of R hsame hr) (trans_of R (hslots _ _ _) (hslots _ _ _))

/-- How a transfer between two stacks ends: with nothing changed, or with the topmost values moved. -/
inductive Moves (c d : Context) (n : Int) (w : World σ μ) :
    Except Error Unit × World σ μ → Prop where
  | kept {w' : World σ μ} (hn : n = 0 ∨ c = d ∧ 0 < n ∧ n ≤ w.depth c) (h : w.Alike w') :
    Moves c d n w (.ok (), w')
  | carried {w' : World σ μ} {ys : Array Val} (hne : c ≠ d) (hvm : c.vm = d.vm) (hn : 0 < n)
    (hsize : (ys.size : Int) = n) (hroom : (w.depth d : Int) + n ≤ Word32.greatest)
    (h : Shifted c d ys w w') : Moves c d n w (.ok (), w')
  | failed {w' : World σ μ} {e : Error} (hn : n ≠ 0) (h : w.Alike w') : Moves c d n w (.error e, w')

/-- A transfer that cannot be made fails. -/
theorem Moves.wrong {p : Except Error Unit × World σ μ} (h : Moves c d n w p)
    (hwrong : n < 0 ∨ w.depth c < n ∨ n ≠ 0 ∧ c.vm ≠ d.vm) : ∃ e, p.1 = .error e := by
  cases h with
  | failed => exact ⟨_, rfl⟩
  | kept hn =>
    obtain rfl | ⟨rfl, hpos, hsize⟩ := hn
    · omega
    · obtain h | h | h := hwrong
      · omega
      · omega
      · exact absurd rfl h.2
  | carried hne hvm hpos hsize hroom h =>
    obtain ⟨xs, hs, -⟩ := h.source
    rw [depth_of_shown hs, Array.size_append] at hwrong
    obtain h | h | h := hwrong
    · omega
    · omega
    · exact absurd hvm h.2

/-- There and back again. -/
theorem Moves.back (h : Moves c d n w (.ok (), w₁)) (k : Moves d c n w₁ (.ok (), w₂)) :
    (∀ e, w₂.shown e = w.shown e) ∧ ∀ i, w₂.heap i = w.heap i := by
  cases h with
  | kept hn halike =>
    cases k with
    | kept _ halike' => exact ⟨(halike.trans halike').shown, (halike.trans halike').heap⟩
    | carried hne _ hpos =>
      obtain rfl | ⟨rfl, -⟩ := hn
      · omega
      · exact absurd rfl hne
  | carried hne _ hpos hsize _ hcarried =>
    cases k with
    | kept hn =>
      obtain rfl | ⟨rfl, -⟩ := hn
      · omega
      · exact absurd rfl hne
    | carried _ _ _ hsize' _ hcarried' => exact hcarried.back hcarried' (by omega)

variable (hw : w.Regular) {s z : Array Val} (hc : w.shown c = some s) (hd : w.shown d = some z)
  (hn : Word32.InRange n)
include hw hc hn

theorem window_of_transfer {first : Int} (h0 : n ≠ 0)
    (h : Index.resolveWindow n none (w.depth c) = .ok first) :
    ∃ k : Nat, 0 < n ∧ (k : Int) + n = s.size := by
  rw [depth_of_shown hc] at h
  have hsize := hw.short c s hc
  have hnone : Index.window? n none s.size = none →
      ∃ j, Index.resolveWindow n none s.size = .error (.index j s.size) :=
    (Index.resolveWindow_window hn h0 (by nofun) hsize).2
  cases hp : Index.window? n none s.size with
  | none =>
    obtain ⟨j, hj⟩ := hnone hp
    cases hj.symm.trans h
  | some k =>
    have hlast := Index.window?_last hp
    obtain ⟨hpos, -⟩ := Index.window?_le hp
    exact ⟨k, by omega, by omega⟩

omit hc hn in
include hd in
/-- What was granted for the values is within what a stack may have. -/
theorem room_of_checkStack {r : Except Error Bool} (hpos : 0 < n) (hsame : c.sameVm d w = (r, w₁))
    (hroom : d.checkStack n w₁ = (.ok (), w₂)) : (w.depth d : Int) + n ≤ Word32.greatest := by
  obtain ⟨m, rfl⟩ := Int.eq_ofNat_of_zero_le (Int.le_of_lt hpos)
  have hw₁ : w₁ = (c.sameVm d w).2 := congrArg Prod.snd hsame.symm
  have hb₁ : w₁.Bounded d := by
    rw [hw₁, sameVm_world]
    exact keepsBounds_reserve _ _ _ d (keepsBounds_reserve _ _ _ d (hw.bounded d))
  have hb₂ : w₂.Bounded d := by
    have hb := d.keepsBounds_checkStack m w₁ d hb₁
    rwa [hroom] at hb
  have hd₂ : w₂.shown d = some z := by
    have h₁ := (c.steady_sameVm d w).shown d
    have h₂ := (d.steady_checkStack m w₁).shown d
    rw [hroom] at h₂
    rw [h₂, hw₁, h₁, hd]
  obtain ⟨w', hok, -, hgrants⟩ | ⟨w', herr⟩ := d.checkStack_cases w₁ m
  · obtain rfl : w' = w₂ := congrArg Prod.snd (hok.symm.trans hroom)
    have hle := (hgrants (by omega)).depth_le hb₂
    rw [depth_of_shown hd₂] at hle
    rw [depth_of_shown hd]
    unfold Thread.errorSize at hle
    unfold Word32.greatest
    omega
  · cases herr.symm.trans hroom

include hd

theorem transfer_moves : Moves c d n w (c.transfer d n w) := by
  have hatomic := c.atomic_transfer d n w
  have hends := transfer_ends c d n w
  generalize c.transfer d n w = p at hatomic hends ⊢
  cases hends with
  | nothing h0 => exact .kept (.inl h0) (.refl w)
  | outside h0 | strangers h0 | refused h0 => exact .failed h0 (hatomic _ _ rfl)
  | onto h0 hwindow hsame hself =>
    obtain ⟨k, hpos, hk⟩ := window_of_transfer hw hc hn h0 hwindow
    have hsteady := c.steady_sameVm d w
    rw [hsame] at hsteady
    exact .kept (.inr ⟨hself, hpos, by rw [depth_of_shown hc]; omega⟩) hsteady
  | @moved first w₁ w₂ h0 hwindow hsame hother hroom =>
    obtain ⟨k, hpos, hk⟩ := window_of_transfer hw hc hn h0 hwindow
    have halike : w.Alike w₂ := by
      have h₁ := c.steady_sameVm d w
      have h₂ := d.steady_checkStack n w₁
      rw [hsame] at h₁
      rw [hroom] at h₂
      exact h₁.trans h₂
    have hc₂ := (halike.shown c).trans hc
    have hd₂ := (halike.shown d).trans hd
    have hcut : (w.depth c - n).toNat = k := by
      rw [depth_of_shown hc]
      omega
    have hsplit : s = s.extract 0 k ++ s.extract k s.size := by
      rw [Array.extract_append_extract, Nat.zero_min, Nat.max_eq_right (by omega), Array.extract_size]
    have hys : ((w₂.slots c).toList.drop k).toArray = s.extract k s.size := by
      rw [slots_of_shown hc₂]
      apply Array.ext'
      simp
    rw [hcut, hys]
    have hsize : ((s.extract k s.size).size : Int) = n := by
      rw [Array.size_extract]
      omega
    have hbound := room_of_checkStack hw hd hpos hsame hroom
    refine .carried hother (hw.same_vm (congrArg Prod.fst hsame)) hpos hsize hbound
      ⟨?_, ⟨z, hd, ?_⟩, ?_, ?_⟩
    · refine ⟨s.extract 0 k, hc.trans (congrArg some hsplit), ?_⟩
      unfold truncate
      rw [shown_modifySlots_of_ne _ hother, shown_modifySlots_self, hc₂, Option.map_some,
        Array.shrink_eq_take]
    · unfold truncate
      rw [shown_modifySlots_self, shown_modifySlots_of_ne _ hother.symm, hd₂]
      rfl
    · intro e hec hed
      unfold truncate
      rw [shown_modifySlots_of_ne _ hed, shown_modifySlots_of_ne _ hec, halike.shown]
    · intro i
      unfold truncate
      rw [heap_modifySlots, heap_modifySlots, halike.heap]

omit hn hd in
/-- Values that are there, and for which there is room on another stack of the same interpreter, go. -/
theorem transfer_granted {m : Nat} (hpos : 0 < m) (hsize : m ≤ s.size) (hvm : c.vm = d.vm)
    (hr : w.Recorded c.vm) (hgc : w.Grants c 1) (hgd : w.Grants d m) :
    (c.transfer d m w).1 = .ok () := by
  have hshort := hw.short c s hc
  have hsame : (c.sameVm d w).1 = .ok true :=
    (sameVm_recorded_true hr (hvm ▸ hr)).mpr ⟨hvm, hgc, hgd.less hpos⟩
  have hwindow : Index.resolveWindow m none (w.depth c) = .ok (s.size - m + 1 : Nat) := by
    rw [depth_of_shown hc]
    have hlast : Index.window? m none s.size = some (s.size - m) := by
      have htop := window?_top (n := s.size - m) hpos
      rwa [Nat.sub_add_cancel hsize] at htop
    refine (Index.resolveWindow_window ⟨?_, ?_⟩ (by omega) (fun i hi => ?_) hshort).1 _ hlast
    · unfold Word32.least
      omega
    · omega
    · cases hi
  have hends := transfer_ends c d m w
  generalize c.transfer d m w = p at hends ⊢
  cases hends with
  | nothing | onto | moved => rfl
  | outside _ h => cases hwindow.symm.trans h
  | strangers _ _ h =>
    rw [h] at hsame
    cases hsame
  | @refused _ w₁ w₂ _ _ h _ h' =>
    have hw₁ : w₁ = (c.sameVm d w).2 := congrArg Prod.snd h.symm
    have hroom : w₁.Grants d m := by
      have hi := intact_reserve hgc
      rw [hw₁, sameVm_world]
      exact (hi.trans (intact_reserve (hi.grants d 1 (hgd.less hpos)))).grants d m hgd
    rw [checkStack_granted (n := m) (by omega) hroom] at h'
    cases h'

end Context

/-! ### Any number of transfers -/

/-- A number of values to be moved from one stack to another. -/
structure Transfer where
  source : Context
  target : Context
  count : Int
  inRange : Word32.InRange count

namespace World

/-- No stack has come or gone, and what an interpreter has on its stacks is what it had there. -/
structure Conserves (w w' : World σ μ) : Prop where
  regular : w'.Regular
  holdings : ∀ i, w'.holdings i = w.holdings i
  heap : ∀ i, w'.heap i = w.heap i
  live : ∀ c, w'.shown c = none ↔ w.shown c = none

theorem Regular.alike (hw : w.Regular) (h : w.Alike w') (hb : w.KeepsBounds w') : w'.Regular where
  truthful i j := by
    rw [h.heap]
    exact hw.truthful i j
  bounded c := hb c (hw.bounded c)
  short c s hs := hw.short c s (by rwa [h.shown] at hs)

theorem Regular.carried {ys : Array Val} (hw : w.Regular) (h : Shifted c d ys w w')
    (hroom : (w.depth d : Int) + ys.size ≤ Word32.greatest) (hb : w.KeepsBounds w') : w'.Regular where
  truthful i j := by
    rw [h.heap]
    exact hw.truthful i j
  bounded c := hb c (hw.bounded c)
  short e s hs := by
    obtain ⟨xs, hc, hc'⟩ := h.source
    obtain ⟨zs, hd, hd'⟩ := h.target
    by_cases hec : e = c
    · rw [hec, hc'] at hs
      obtain rfl := Option.some.inj hs
      have hle := hw.short c _ hc
      rw [Array.size_append] at hle
      omega
    by_cases hed : e = d
    · rw [hed, hd'] at hs
      obtain rfl := Option.some.inj hs
      rw [depth_of_shown hd] at hroom
      rw [Array.size_append]
      omega
    exact hw.short e s (by rwa [h.others e hec hed] at hs)

end World

namespace Transfer

/-- Both stacks are there. -/
def Between (t : Transfer) (w : World σ μ) : Prop :=
  w.shown t.source ≠ none ∧ w.shown t.target ≠ none

def perform (t : Transfer) (w : World σ μ) : Except Error Unit × World σ μ :=
  t.source.transfer t.target t.count w

/-- The transfers one after the other, whether they succeed or not. -/
def performAll (ts : List Transfer) (w : World σ μ) : World σ μ :=
  ts.foldl (fun w t => (t.perform w).2) w

/-- How a transfer ends, from the stacks there are. -/
theorem perform_moves {t : Transfer} (hw : w.Regular) (ht : t.Between w) :
    Context.Moves t.source t.target t.count w (t.perform w) := by
  obtain ⟨s, hs⟩ := Option.ne_none_iff_exists'.mp ht.1
  obtain ⟨z, hz⟩ := Option.ne_none_iff_exists'.mp ht.2
  exact Context.transfer_moves hw hs hz t.inRange

theorem perform_conserves {t : Transfer} (hw : w.Regular) (ht : t.Between w) :
    w.Conserves (t.perform w).2 := by
  have hcounts : w.SameCounts (t.perform w).2 :=
    Context.keeps_transfer sameCounts_reserve sameCounts_modifySlots _ _ _ w
  have hbounds : w.KeepsBounds (t.perform w).2 :=
    Context.keeps_transfer keepsBounds_reserve keepsBounds_modifySlots _ _ _ w
  have hmoves := perform_moves hw ht
  generalize t.perform w = p at hcounts hbounds hmoves ⊢
  cases hmoves with
  | kept _ h | failed _ h =>
    exact ⟨hw.alike h hbounds, h.holdings hcounts, h.heap, fun c => by rw [h.shown]⟩
  | carried hne hvm hn hsize hroom h =>
    refine ⟨hw.carried h (by rwa [hsize]) hbounds, h.holdings hne hvm hcounts, h.heap, fun e => ?_⟩
    obtain ⟨xs, hc, hc'⟩ := h.source
    obtain ⟨zs, hd, hd'⟩ := h.target
    by_cases hec : e = t.source
    · rw [hec, hc, hc']
      exact iff_of_false nofun nofun
    by_cases hed : e = t.target
    · rw [hed, hd, hd']
      exact iff_of_false nofun nofun
    rw [h.others e hec hed]

theorem Between.conserved {t : Transfer} (ht : t.Between w) (h : w.Conserves w') : t.Between w' :=
  ⟨fun hs => ht.1 ((h.live _).mp hs), fun hs => ht.2 ((h.live _).mp hs)⟩

theorem performAll_conserves {ts : List Transfer} (hw : w.Regular) (hts : ∀ t ∈ ts, t.Between w) :
    w.Conserves (performAll ts w) := by
  induction ts generalizing w with
  | nil => exact ⟨hw, fun _ => rfl, fun _ => rfl, fun _ => Iff.rfl⟩
  | cons t ts ih =>
    have hstep := perform_conserves hw (hts t List.mem_cons_self)
    have hrest := ih hstep.regular fun u hu => (hts u (List.mem_cons_of_mem t hu)).conserved hstep
    exact ⟨hrest.regular, fun i => (hrest.holdings i).trans (hstep.holdings i),
      fun i => (hrest.heap i).trans (hstep.heap i), fun c => (hrest.live c).trans (hstep.live c)⟩

/-- Over any sequence of transfers between stacks, every interpreter keeps the values that it has on its
stacks, and its objects. Each transfer moves the topmost values, or leaves all as it was: always if there
are none to move or the stack is the same, and if it fails. It fails if the count is negative or more than
there is, or if the stacks are of different interpreters; it succeeds if it does not, and room is granted.
What is moved there and back is where it was. -/
theorem conservation {ts : List Transfer} (hw : w.Regular) (hts : ∀ t ∈ ts, t.Between w) :
    let w' := performAll ts w
    (∀ i, w'.holdings i = w.holdings i ∧ w'.heap i = w.heap i) ∧
    ∀ t : Transfer, t.Between w →
      Context.Moves t.source t.target t.count w' (t.perform w') ∧
      (t.count < 0 ∨ w'.depth t.source < t.count ∨ t.count ≠ 0 ∧ t.source.vm ≠ t.target.vm →
        ∃ e, (t.perform w').1 = .error e) ∧
      (∀ m : Nat, t.count = m → m ≤ w'.depth t.source → t.source.vm = t.target.vm →
        w'.Recorded t.source.vm → w'.Grants t.source 1 → w'.Grants t.target m →
          (t.perform w').1 = .ok ()) ∧
      ∀ w₁ w₂, t.perform w' = (.ok (), w₁) → t.target.transfer t.source t.count w₁ = (.ok (), w₂) →
        (∀ c, w₂.shown c = w'.shown c) ∧ ∀ i, w₂.heap i = w'.heap i := by
  have hall := performAll_conserves hw hts
  refine ⟨fun i => ⟨hall.holdings i, hall.heap i⟩, fun t ht => ?_⟩
  have hbetween := ht.conserved hall
  have hregular := hall.regular
  generalize performAll ts w = w' at hbetween hregular ⊢
  have hmoves := perform_moves hregular hbetween
  refine ⟨hmoves, fun hwrong => ?_, fun m hm hsize hvm hr hgc hgd => ?_, fun w₁ w₂ hthere hback => ?_⟩
  · exact hmoves.wrong hwrong
  · obtain ⟨s, hs⟩ := Option.ne_none_iff_exists'.mp hbetween.1
    rw [depth_of_shown hs] at hsize
    unfold perform
    rw [hm]
    rcases Nat.eq_zero_or_pos m with rfl | hpos
    · rfl
    · exact Context.transfer_granted hregular hs hpos hsize hvm hr hgc hgd
  · have hcons := perform_conserves hregular hbetween
    rw [hthere] at hmoves hcons
    have hmoves' := perform_moves (t := ⟨t.target, t.source, t.count, t.inRange⟩) hcons.regular
      ⟨(hbetween.conserved hcons).2, (hbetween.conserved hcons).1⟩
    exact hmoves.back (hback ▸ hmoves')

theorem thread?_spawned {th : Thread} (h : Context.spawned.thread? c = some th) :
    th.size ≤ Thread.errorSize ∧ ∀ s, th.top.shown = some s → s.size = 1 := by
  obtain ⟨x, hx, hx'⟩ := Option.bind_eq_some_iff.mp h
  obtain ⟨i, t⟩ := c
  cases i with
  | zero =>
    obtain rfl := Option.some.inj hx
    match t, hx' with
    | 0, ht | 1, ht =>
      obtain rfl := Option.some.inj ht
      exact ⟨by decide, fun s hs => by
        obtain rfl := Option.some.inj hs
        rfl⟩
  | succ i => cases hx

theorem regular_spawned : Context.spawned.Regular where
  truthful i j h := by
    cases i with
    | zero => exact Option.some.inj (h.symm.trans (by decide +kernel))
    | succ i => cases h.symm.trans (by decide +kernel : (default : Heap).owner? = none)
  bounded c th h := (thread?_spawned h).1
  short c s h := by
    obtain ⟨th, hth, hs⟩ := Option.bind_eq_some_iff.mp h
    rw [(thread?_spawned hth).2 s hs]
    decide

/-- A coroutine is moved onto its own stack, and not back together with one value too many. -/
theorem conservation_spawned :
    let there : Transfer := ⟨⟨0, 0⟩, ⟨0, 1⟩, 1, by decide, by decide⟩
    let beyond : Transfer := ⟨⟨0, 1⟩, ⟨0, 0⟩, 3, by decide, by decide⟩
    Context.spawned.Regular ∧ (∀ t ∈ [there, beyond], t.Between Context.spawned) ∧
      (performAll [there, beyond] Context.spawned).holdings 0 = Context.spawned.holdings 0 ∧
      (performAll [there, beyond] Context.spawned).shown ⟨0, 1⟩ = some #[.int 7, .thread 1] ∧
      ∃ e, (beyond.perform (performAll [there, beyond] Context.spawned)).1 = .error e := by
  intro there beyond
  have hbetween : ∀ t ∈ [there, beyond], t.Between Context.spawned := by
    intro t ht
    rcases List.mem_cons.mp ht with rfl | ht
    · exact ⟨nofun, nofun⟩
    · obtain rfl := List.mem_singleton.mp ht
      exact ⟨nofun, nofun⟩
  have hshown : (performAll [there, beyond] Context.spawned).shown ⟨0, 1⟩ = some #[.int 7, .thread 1] := by
    decide +kernel
  obtain ⟨hkept, hlaw⟩ := conservation regular_spawned hbetween
  refine ⟨regular_spawned, hbetween, (hkept 0).1, hshown,
    (hlaw beyond (hbetween beyond (by simp))).2.1 (.inr (.inl ?_))⟩
  rw [show beyond.source = ⟨0, 1⟩ from rfl, depth_of_shown hshown]
  decide

end Transfer
end LuaEmbed
