import LuaEmbed.Proofs.RoundTrip

/-!
Whether two stacks belong to the same interpreter. The record that tells is looked up on the stacks
themselves, so the answer is right where both can take one more slot; a stack that cannot belongs, by the
answer, to no interpreter at all, not even to its own.
-/
namespace LuaEmbed

open Engine World

variable {σ μ : Type} {a b c d : Context} {w w' w₁ : World σ μ} {n : Nat} {i : Nat}

namespace Index

theorem resolve_error {index depth : Int} {e : Error} (h : resolve index depth = .error e) :
    e = .index index depth := by
  unfold resolve at h
  dsimp only at h
  repeat' split at h
  all_goals cases h
  all_goals rfl

/-- A window that is not there is reported by some index. -/
theorem resolveWindow_error_index {count depth : Int} {start : Option Int} {e : Error}
    (h : resolveWindow count start depth = .error e) : ∃ j, e = .index j depth := by
  unfold resolveWindow at h
  split at h
  · cases h
    exact ⟨_, rfl⟩
  · cases hr : resolve (start.getD (Word32.wrap (-count))) depth with
    | error e' =>
      rw [hr] at h
      cases h
      exact ⟨_, resolve_error hr⟩
    | ok first =>
      rw [hr] at h
      dsimp only [Bind.bind, Except.bind] at h
      repeat' split at h
      all_goals cases h
      all_goals exact ⟨_, rfl⟩

end Index

namespace World

/-- The interpreter is running, and its registry has its record. -/
def Recorded (w : World σ μ) (i : Nat) : Prop := (w.heap i).owner? = some i

/-- The interpreter of a stack can be told: there is room for its record, and this names one. -/
def Tells (w : World σ μ) (c : Context) (i : Nat) : Prop :=
  w.Grants c 1 ∧ (w.heap c.vm).owner? = some i

theorem Recorded.tells_iff (hc : w.Recorded c.vm) : w.Tells c i ↔ w.Grants c 1 ∧ c.vm = i := by
  unfold Tells
  rw [show (w.heap c.vm).owner? = some c.vm from hc, Option.some_inj]

/-- What one stack reserves makes no difference to another. -/
theorem grants_reserve_of_ne {m : Nat} (h : c ≠ d) :
    (w.reserve c m).2.Grants d n ↔ w.Grants d n := by
  have hthread : (w.reserve c m).2.thread? d = w.thread? d := by
    rw [reserve_world, thread?_modifyThread, if_neg h]
  have hexists := exists_modifyThread w d c fun th => (th.reserve (w.heap c.vm).starved m).2
  rw [← reserve_world] at hexists
  have hheap := congrArg Heap.starved (heap_reserve w c d.vm m)
  exact ⟨fun hg => hg.same hthread.symm hheap.symm fun x hx => hexists.mp ⟨x, hx⟩,
    fun hg => hg.same hthread hheap fun x hx => hexists.mpr ⟨x, hx⟩⟩

/-- A stack of the largest size, all of which is in use, while memory can be had. -/
structure Full (w : World σ μ) (c : Context) : Prop where
  crammed : ∃ th, w.thread? c = some th ∧ th.size = Thread.maxSize ∧ th.used = Thread.maxSize
  fed : (w.heap c.vm).starved = false

/-- A full stack is refused one more slot once. The refusal leaves it larger than stacks may be, and from
then on it is granted the slot. -/
theorem Full.refused_once (h : w.Full c) : ¬ w.Grants c 1 ∧ (w.reserve c 1).2.Grants c 1 := by
  obtain ⟨th, hth, hs, hu⟩ := h.crammed
  obtain ⟨x, hx, -⟩ := Option.bind_eq_some_iff.mp hth
  have hreserve : th.reserve false 1 = (false, { th with size := Thread.errorSize }) := by
    unfold Thread.reserve
    rw [hs, hu, show Thread.grownSize Thread.maxSize Thread.maxSize 1 = .error Thread.errorSize from rfl]
    rfl
  have hthread : w.thread c = th := by
    rw [thread_eq, hth]
    rfl
  have hthread' : (w.reserve c 1).2.thread c = { th with size := Thread.errorSize } := by
    rw [reserve_world, h.fed, thread_eq, thread?_modifyThread_self, hth, Option.map_some, hreserve]
    rfl
  constructor
  · rw [grants_iff, hthread, h.fed]
    rintro ⟨-, hg⟩
    exact Bool.false_ne_true ((congrArg Prod.fst hreserve).symm.trans hg)
  · rw [grants_iff, hthread', Thread.grants_iff]
    refine ⟨?_, .inl ?_⟩
    · rw [reserve_world]
      exact (exists_modifyThread w c c _).mpr ⟨x, hx⟩
    · change 1 < Thread.errorSize - th.used
      rw [hu]
      decide

end World

namespace Context

/-! ### One stack -/

/-- Looking for the interpreter's record takes one slot, and that is all it does. -/
theorem shared_world (c : Context) (w : World σ μ) : (c.shared w).2 = (w.reserve c 1).2 := by
  unfold shared
  by_cases hg : w.Grants c 1
  · rw [Api.bind_ok (checkStack_granted (n := 1) (by decide) hg), Api.get_bind, Api.get_bind,
      heap_reserve]
    cases (w.heap c.vm).rawGet (w.heap c.vm).registryTable recordKey with
    | light p =>
      dsimp only
      split <;> rfl
    | _ => rfl
  · rw [Api.bind_error (checkStack_refused (n := 1) (by decide) (eq_false_of_ne_true hg))]
    rfl

theorem shared_answer : (c.shared w).1 = .ok i ↔ w.Tells c i := by
  by_cases hg : w.Grants c 1
  · obtain ⟨w', -, hsome, hnone⟩ := shared_intact hg
    cases ho : (w.heap c.vm).owner? with
    | none =>
      rw [hnone ho]
      exact ⟨nofun, fun h => nomatch ho.symm.trans h.2⟩
    | some j =>
      rw [hsome j ho]
      exact ⟨fun h => ⟨hg, ho.trans (congrArg some (Except.ok.inj h))⟩,
        fun h => congrArg Except.ok (Option.some.inj (ho.symm.trans h.2))⟩
  · unfold shared
    rw [Api.bind_error (checkStack_refused (n := 1) (by decide) (eq_false_of_ne_true hg))]
    exact ⟨nofun, fun h => absurd h.1 hg⟩

/-! ### Two stacks -/

theorem sameVm_world (c d : Context) (w : World σ μ) :
    (c.sameVm d w).2 = ((w.reserve c 1).2.reserve d 1).2 := by
  rw [← shared_world, ← shared_world]
  unfold sameVm
  cases c.shared w with
  | mk r w₁ =>
    cases r with
    | error e => rfl
    | ok i =>
      dsimp only
      cases d.shared w₁ with
      | mk r w₂ => cases r <;> rfl

/-- After the first stack has been looked at, the second one can still be told if it could. -/
theorem tells_after {j : Nat} (h : w.Tells c i) :
    (w.reserve c 1).2.Tells d j ↔ w.Tells d j := by
  unfold Tells
  rw [heap_reserve]
  by_cases hcd : c = d
  · subst hcd
    rw [iff_true_intro h.1, iff_true_intro ((intact_reserve h.1).grants c 1 h.1)]
  · rw [grants_reserve_of_ne hcd]

/-- Two stacks are taken to be of the same interpreter if both can be told, and to be of the same. -/
theorem sameVm_answer (c d : Context) (w : World σ μ) :
    ∃ r, (c.sameVm d w).1 = .ok r ∧ (r = true ↔ ∃ i, w.Tells c i ∧ w.Tells d i) := by
  have hc := @shared_answer σ μ c w
  have hworld := shared_world c w
  unfold sameVm
  cases hsc : c.shared w with
  | mk r w₁ =>
    rw [hsc] at hc hworld
    obtain rfl : w₁ = (w.reserve c 1).2 := hworld
    cases r with
    | error e =>
      refine ⟨false, rfl, nofun, fun ⟨i, hi, _⟩ => ?_⟩
      cases hc.mpr hi
    | ok i =>
      have htells := hc.mp rfl
      have hd := @shared_answer σ μ d (w.reserve c 1).2
      dsimp only
      cases hsd : d.shared (w.reserve c 1).2 with
      | mk r w₂ =>
        rw [hsd] at hd
        cases r with
        | error e =>
          refine ⟨false, rfl, nofun, fun ⟨j, _, hj⟩ => ?_⟩
          cases hd.mpr ((tells_after htells).mpr hj)
        | ok j =>
          refine ⟨decide (i = j), rfl, ?_⟩
          rw [decide_eq_true_iff]
          constructor
          · rintro rfl
            exact ⟨i, htells, (tells_after htells).mp (hd.mp rfl)⟩
          · rintro ⟨k, hk, hk'⟩
            obtain rfl := Except.ok.inj (hc.mpr hk)
            exact (Except.ok.inj (hd.mpr ((tells_after htells).mpr hk'))).symm

theorem sameVm_true : (c.sameVm d w).1 = .ok true ↔ ∃ i, w.Tells c i ∧ w.Tells d i := by
  obtain ⟨r, hr, h⟩ := sameVm_answer c d w
  rw [hr, ← h]
  exact ⟨Except.ok.inj, congrArg Except.ok⟩

/-! ### Moving values -/

theorem checkStack_error {n : Int} {e : Error} (h : c.checkStack n w = (.error e, w')) :
    e = .stackOverflow n := by
  unfold checkStack at h
  split at h
  · cases h
  · cases hr : w.reserve c n.toNat with
    | mk granted w₁ =>
      rw [hr] at h
      cases granted <;> cases h
      rfl

/-- How moving values from one stack to another can end. -/
inductive Transfers (c d : Context) (n : Int) (w : World σ μ) :
    Except Error Unit × World σ μ → Prop where
  | nothing (h0 : n = 0) : Transfers c d n w (.ok (), w)
  | outside {j : Int} (h0 : n ≠ 0)
    (hwindow : Index.resolveWindow n none (w.depth c) = .error (.index j (w.depth c))) :
    Transfers c d n w (.error (.index j (w.depth c)), w)
  | strangers {first : Int} {w₁ : World σ μ} (h0 : n ≠ 0)
    (hwindow : Index.resolveWindow n none (w.depth c) = .ok first)
    (hsame : c.sameVm d w = (.ok false, w₁)) :
    Transfers c d n w
      (.error (.unsupportedValue "cannot move values between independent VM instances"), w₁)
  | onto {first : Int} {w₁ : World σ μ} (h0 : n ≠ 0)
    (hwindow : Index.resolveWindow n none (w.depth c) = .ok first)
    (hsame : c.sameVm d w = (.ok true, w₁)) (hself : c = d) : Transfers c d n w (.ok (), w₁)
  | refused {first : Int} {w₁ w₂ : World σ μ} (h0 : n ≠ 0)
    (hwindow : Index.resolveWindow n none (w.depth c) = .ok first)
    (hsame : c.sameVm d w = (.ok true, w₁)) (hother : c ≠ d)
    (hroom : d.checkStack n w₁ = (.error (.stackOverflow n), w₂)) :
    Transfers c d n w (.error (.stackOverflow n), w₂)
  | moved {first : Int} {w₁ w₂ : World σ μ} (h0 : n ≠ 0)
    (hwindow : Index.resolveWindow n none (w.depth c) = .ok first)
    (hsame : c.sameVm d w = (.ok true, w₁)) (hother : c ≠ d)
    (hroom : d.checkStack n w₁ = (.ok (), w₂)) :
    Transfers c d n w (.ok (), (w₂.truncate c (w.depth c - n).toNat).modifySlots d
      (· ++ ((w₂.slots c).toList.drop (w.depth c - n).toNat).toArray))

theorem transfer_ends (c d : Context) (n : Int) (w : World σ μ) :
    Transfers c d n w (c.transfer d n w) := by
  unfold transfer
  by_cases h0 : n = 0
  · rw [if_pos h0]
    exact .nothing h0
  rw [if_neg h0, Api.bind_ok (rfl : c.top w = (_, w)), Api.discard_eq, bind_assoc]
  cases hwindow : Index.resolveWindow n none (w.depth c) with
  | error e =>
    obtain ⟨j, rfl⟩ := Index.resolveWindow_error_index hwindow
    rw [Api.bind_error (rfl : Api.check (.error (.index j (w.depth c))) w = (_, w))]
    exact .outside h0 hwindow
  | ok first =>
    rw [Api.bind_ok (rfl : Api.check (.ok first) w = (_, w)), pure_bind]
    obtain ⟨same, hsame, -⟩ := sameVm_answer c d w
    obtain ⟨w₁, hw₁⟩ : ∃ w₁, c.sameVm d w = (.ok same, w₁) := ⟨_, Prod.ext hsame rfl⟩
    rw [Api.bind_ok hw₁]
    cases same with
    | false => exact .strangers h0 hwindow hw₁
    | true =>
      by_cases hself : c = d
      · change Transfers c d n w ((if c = d then Pure.pure () else _ : Api σ μ Unit) w₁)
        rw [if_pos hself]
        exact .onto h0 hwindow hw₁ hself
      · change Transfers c d n w ((if c = d then Pure.pure () else _ : Api σ μ Unit) w₁)
        rw [if_neg hself]
        cases hroom : d.checkStack n w₁ with
        | mk r w₂ =>
          cases r with
          | ok u =>
            rw [Api.bind_ok hroom]
            exact .moved h0 hwindow hw₁ hself hroom
          | error e =>
            rw [Api.bind_error hroom]
            obtain rfl := checkStack_error hroom
            exact .refused h0 hwindow hw₁ hself hroom

/-! ### The answer -/

theorem sameVm_recorded (ha : w.Recorded a.vm) (hb : w.Recorded b.vm) :
    (a.sameVm b w).1 = .ok (decide (a.vm = b.vm ∧ w.Grants a 1 ∧ w.Grants b 1)) := by
  obtain ⟨r, hr, htrue⟩ := sameVm_answer a b w
  have hiff : r = true ↔ a.vm = b.vm ∧ w.Grants a 1 ∧ w.Grants b 1 := by
    rw [htrue]
    constructor
    · rintro ⟨i, hi, hi'⟩
      obtain ⟨hga, rfl⟩ := ha.tells_iff.mp hi
      obtain ⟨hgb, hvm⟩ := hb.tells_iff.mp hi'
      exact ⟨hvm.symm, hga, hgb⟩
    · rintro ⟨hvm, hga, hgb⟩
      exact ⟨a.vm, ha.tells_iff.mpr ⟨hga, rfl⟩, hb.tells_iff.mpr ⟨hgb, hvm.symm⟩⟩
  rw [hr, Bool.eq_iff_iff.mpr (hiff.trans decide_eq_true_iff.symm)]

theorem sameVm_recorded_true (ha : w.Recorded a.vm) (hb : w.Recorded b.vm) :
    (a.sameVm b w).1 = .ok true ↔ a.vm = b.vm ∧ w.Grants a 1 ∧ w.Grants b 1 := by
  rw [sameVm_recorded ha hb]
  exact ⟨fun h => of_decide_eq_true (Except.ok.inj h), fun h => congrArg Except.ok (decide_eq_true h)⟩

/-- A yes is given again. -/
theorem sameVm_again (h : (a.sameVm b w).1 = .ok true) : (a.sameVm b (a.sameVm b w).2).1 = .ok true := by
  obtain ⟨i, ⟨hga, hoa⟩, hgb, hob⟩ := sameVm_true.mp h
  have hi₁ := intact_reserve hga
  have hi := hi₁.trans (intact_reserve (hi₁.grants b 1 hgb))
  rw [sameVm_world]
  exact sameVm_true.mpr ⟨i, ⟨hi.grants a 1 hga, by rwa [hi.heap]⟩, hi.grants b 1 hgb, by rwa [hi.heap]⟩

/-- For stacks of running interpreters the answer is that they belong to the same one, if both can take
one more slot, and that they do not if either cannot. So it does not depend on which stack is asked, holds
of a stack and itself if that can take a slot, and is handed on from stack to stack; once it is yes it
stays so; and values are held back as another interpreter's only if it is no. -/
theorem sameVm_law (ha : w.Recorded a.vm) (hb : w.Recorded b.vm) :
    (∃ w', a.sameVm b w = (.ok (decide (a.vm = b.vm ∧ w.Grants a 1 ∧ w.Grants b 1)), w') ∧
      w.Alike w' ∧ ((a.sameVm b w).1 = .ok true → (a.sameVm b w').1 = .ok true)) ∧
    (b.sameVm a w).1 = (a.sameVm b w).1 ∧
    ((a.sameVm a w).1 = .ok true ↔ w.Grants a 1) ∧
    (∀ c : Context, w.Recorded c.vm → (a.sameVm b w).1 = .ok true → (b.sameVm c w).1 = .ok true →
      (a.sameVm c w).1 = .ok true) ∧
    ∀ n text w', a.transfer b n w = (.error (.unsupportedValue text), w') →
      a.vm ≠ b.vm ∨ ¬ w.Grants a 1 ∨ ¬ w.Grants b 1 := by
  refine ⟨⟨_, Prod.ext (sameVm_recorded ha hb) rfl, a.steady_sameVm b w, sameVm_again⟩, ?_, ?_,
    fun c hc hab hbc => ?_, fun n text w' h => ?_⟩
  · rw [sameVm_recorded ha hb, sameVm_recorded hb ha]
    exact congrArg Except.ok (decide_eq_decide.mpr
      ⟨fun ⟨hvm, hgb, hga⟩ => ⟨hvm.symm, hga, hgb⟩, fun ⟨hvm, hga, hgb⟩ => ⟨hvm.symm, hgb, hga⟩⟩)
  · rw [sameVm_recorded_true ha ha]
    exact ⟨fun h => h.2.1, fun h => ⟨rfl, h, h⟩⟩
  · obtain ⟨hvm, hga, -⟩ := (sameVm_recorded_true ha hb).mp hab
    obtain ⟨hvm', -, hgc⟩ := (sameVm_recorded_true hb hc).mp hbc
    exact (sameVm_recorded_true ha hc).mpr ⟨hvm.trans hvm', hga, hgc⟩
  · have hends := transfer_ends a b n w
    rw [h] at hends
    cases hends with
    | strangers h0 hwindow hsame =>
      have hno : (a.sameVm b w).1 ≠ .ok true := by
        rw [hsame]
        exact nofun
      by_contra hyes
      push Not at hyes
      exact hno ((sameVm_recorded_true ha hb).mpr hyes)

theorem sameVm_law_spawned :
    spawned.Recorded 0 ∧ spawned.Grants ⟨0, 0⟩ 1 ∧ spawned.Grants ⟨0, 1⟩ 1 ∧
      ∃ w', sameVm ⟨0, 0⟩ ⟨0, 1⟩ spawned = (.ok true, w') ∧
        (sameVm ⟨0, 0⟩ ⟨0, 1⟩ w').1 = .ok true := by
  have hrecorded : spawned.Recorded 0 := by
    unfold World.Recorded
    decide +kernel
  have hmain : spawned.Grants ⟨0, 0⟩ 1 := by decide +kernel
  have hco : spawned.Grants ⟨0, 1⟩ 1 := by decide +kernel
  obtain ⟨⟨w', hsame, -, hagain⟩, -⟩ := sameVm_law (a := ⟨0, 0⟩) (b := ⟨0, 1⟩) hrecorded hrecorded
  rw [decide_eq_true ⟨rfl, hmain, hco⟩] at hsame
  exact ⟨hrecorded, hmain, hco, w', hsame, hagain (congrArg Prod.fst hsame)⟩

/-! ### A full stack -/

/-- An interpreter of the largest main stack that there can be, and with another thread. -/
def brimful (s : Array Val) : World Unit Unit where
  instances :=
    #[{ vm := { freshVm 0 with threads :=
          #[{ ground := { level := .native s }, size := Thread.maxSize }, .new #[]] }
        chunkName := .empty }]
  memory := ()
  subscriber _ m := m

theorem full_brimful {s : Array Val} (hs : s.size + 1 = Thread.maxSize) : (brimful s).Full ⟨0, 0⟩ :=
  ⟨⟨_, rfl, rfl, (Nat.add_comm 1 s.size).trans hs⟩, rfl⟩

theorem recorded_brimful (s : Array Val) : (brimful s).Recorded 0 := by
  unfold World.Recorded
  exact (by decide +kernel : (freshVm 0).heap.owner? = some 0)

theorem shown_brimful (s : Array Val) :
    (brimful s).shown ⟨0, 0⟩ = some s ∧ (brimful s).shown ⟨0, 1⟩ = some #[] :=
  ⟨rfl, rfl⟩

/-- A full stack that is asked whether it belongs with another one of its interpreter denies it. -/
theorem sameVm_full (hc : w.Full c) (hr : w.Recorded c.vm) (hvm : c.vm = d.vm) :
    (c.sameVm d w).1 = .ok false := by
  rw [sameVm_recorded hr (hvm ▸ hr)]
  exact congrArg Except.ok (decide_eq_false fun h => hc.refused_once.1 h.2.1)

theorem sameVm_full_again (hc : w.Full c) (hr : w.Recorded c.vm) :
    (c.sameVm c (c.sameVm c w).2).1 = .ok true := by
  have hyes := hc.refused_once.2
  have hagain := (intact_reserve hyes).grants c 1 hyes
  rw [sameVm_world]
  refine sameVm_true.mpr ⟨c.vm, ⟨hagain, ?_⟩, hagain, ?_⟩ <;>
  · rw [heap_reserve, heap_reserve]
    exact hr

/-- What is on a full stack is held back from another stack of its interpreter. -/
theorem transfer_full {s : Array Val} (hc : w.Full c) (hr : w.Recorded c.vm) (hvm : c.vm = d.vm)
    (hs : w.shown c = some s) (h1 : 1 ≤ s.size) (hsize : (s.size : Int) ≤ Word32.greatest) :
    ∃ text, (c.transfer d 1 w).1 = .error (.unsupportedValue text) := by
  have hno := sameVm_full hc hr hvm
  have hwindow : Index.resolveWindow 1 none (w.depth c) = .ok (w.depth c) := by
    rw [depth_of_shown hs]
    exact Index.resolveWindow_last (by omega) hsize
  have hends := transfer_ends c d 1 w
  generalize c.transfer d 1 w = p at hends ⊢
  cases hends with
  | nothing h0 => cases h0
  | outside _ h => cases hwindow.symm.trans h
  | strangers => exact ⟨_, rfl⟩
  | onto _ _ hsame | refused _ _ hsame | moved _ _ hsame =>
    rw [hsame] at hno
    cases hno

/-- A full stack does not belong to its own interpreter when it is asked first, and does when it is asked
again; and what is on it is held back from another stack of the same interpreter. -/
theorem sameVm_brimful :
    let w := brimful (Array.replicate 999999 .nil)
    w.Recorded 0 ∧ w.shown ⟨0, 0⟩ = some (Array.replicate 999999 .nil) ∧ w.shown ⟨0, 1⟩ = some #[] ∧
      (sameVm ⟨0, 0⟩ ⟨0, 0⟩ w).1 = .ok false ∧
      (sameVm ⟨0, 0⟩ ⟨0, 0⟩ (sameVm ⟨0, 0⟩ ⟨0, 0⟩ w).2).1 = .ok true ∧
      (sameVm ⟨0, 0⟩ ⟨0, 1⟩ w).1 = .ok false ∧
      ∃ text, (transfer ⟨0, 0⟩ ⟨0, 1⟩ 1 w).1 = .error (.unsupportedValue text) := by
  have hsize : (Array.replicate 999999 Val.nil).size = 999999 := Array.size_replicate
  generalize Array.replicate 999999 Val.nil = s at hsize
  have hlargest : s.size + 1 = Thread.maxSize := by
    unfold Thread.maxSize
    omega
  have hfull := full_brimful hlargest
  have hrecorded := recorded_brimful s
  obtain ⟨hmain, hco⟩ := shown_brimful s
  refine ⟨hrecorded, hmain, hco, sameVm_full hfull hrecorded rfl, sameVm_full_again hfull hrecorded,
    sameVm_full (d := ⟨0, 1⟩) hfull hrecorded rfl,
    transfer_full hfull hrecorded rfl hmain (by omega) ?_⟩
  unfold Word32.greatest
  omega

end Context
end LuaEmbed
