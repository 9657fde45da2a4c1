import LuaEmbed.Proofs.Granting

/-!
Reading a slot and pushing what was read. Where there is room this is duplicating the slot: plain
values are copied, handles still describe their slot, and a thread that the interpreter knows as its
own is pushed by way of its own stack, which shows what it showed.
-/
namespace LuaEmbed

open Engine World

variable {σ μ : Type} {c d : Context} {w w' : World σ μ} {pos : Int} {u : Val} {v : Value}

/-- The registry has an interpreter's record, and the owner has not let go of it. -/
structure World.Known (w : World σ μ) (i : Nat) : Prop where
  record : (w.heap i).owner? = some i
  owned : (w.instances[i]?).map (·.closed) = some false

namespace World

theorem Intact.known (h : w.Intact w') {i : Nat} (k : w.Known i) : w'.Known i :=
  ⟨by rw [h.heap]; exact k.record, (h.closed i).trans k.owned⟩

/-- A handle that a stack can take: whatever it was read as, or a thread of the same interpreter
whose stack has room for it on its way. -/
def Welcome (w : World σ μ) (c : Context) (q : ThreadHandle) : Prop :=
  q.thread.vm = c.vm ∧ w.Known c.vm ∧ (q.thread ≠ c → w.Grants q.thread 1)

theorem Intact.welcome (h : w.Intact w') {q : ThreadHandle} (k : w.Welcome c q) :
    w'.Welcome c q :=
  ⟨k.1, h.known k.2.1, fun hne => h.grants q.thread 1 (k.2.2 hne)⟩

end World

namespace Context

theorem owns_intact {q : ThreadHandle} (h : w.Grants c 1) (hq : q.thread.vm = c.vm)
    (hk : w.Known c.vm) : ∃ w', c.owns q w = (.ok true, w') ∧ w.Intact w' := by
  obtain ⟨w₁, hi, hshared, -⟩ := shared_intact h
  obtain ⟨x, hx, hclosed⟩ := Option.map_eq_some_iff.mp hk.owned
  have hinstance : w.instance? q.thread.vm = some x := by rw [hq]; exact hx
  refine ⟨w₁, ?_, hi⟩
  unfold owns
  rw [Api.get_bind, hinstance]
  dsimp only
  rw [if_neg (by rw [hclosed]; exact Bool.false_ne_true), Api.bind_ok (hshared c.vm hk.record)]
  exact congrArg (fun b => (Except.ok b, w₁)) (decide_eq_true hq.symm)

theorem pushThread_intact {q : ThreadHandle} (h : w.Grants c 1) (hq : w.Welcome c q) :
    ∃ w₁, w.Intact w₁ ∧ c.pushThread q w = (.ok (), w₁.push c (.thread q.thread.thread)) := by
  obtain ⟨w₁, howns, hi⟩ := owns_intact h hq.1 hq.2.1
  unfold pushThread
  rw [Api.bind_ok howns]
  by_cases hself : q.thread = c
  · refine ⟨w₁, hi, ?_⟩
    rw [if_neg (by decide), if_neg (not_not_intro hself)]
    rfl
  · obtain ⟨w₂, hroom, hi₂⟩ := checkStack_intact ((hi.welcome hq).2.2 hself)
      (show (1 : Int) ≤ (1 : Nat) by decide)
    refine ⟨w₂, hi.trans hi₂, ?_⟩
    rw [if_neg (by decide), if_pos hself]
    exact Api.bind_ok hroom

/-- A handle passes its check where the slot it describes still holds what it was read from. -/
theorem validate_intact (h : w.Grants c 2) (hu : u.tag.isOpaqueKind) (hpos : 1 ≤ pos)
    (hslot : (w.slots c)[(pos - 1).toNat]? = some u) :
    ∃ w', c.validate ⟨u.tag, w.displayName c u, pos, c⟩ w = (.ok (), w') ∧ w.Intact w' := by
  obtain ⟨w₁, hroom, hi⟩ := checkStack_intact h (show (2 : Int) ≤ (2 : Nat) by decide)
  have hcheck : Handle.check ⟨u.tag, w.displayName c u, pos, c⟩ c
      (some (w₁.describe c (w₁.at_ c pos))) = .ok () := by
    have hat : w.at_ c pos = u := by
      unfold at_
      rw [Array.getD_eq_getD_getElem?, hslot]
      rfl
    rw [check_ok, describe_congr (hi.heap c.vm), hi.at_, hat, describe_object hu]
    exact ⟨rfl, rfl⟩
  have hd : pos ≤ w.depth c := by
    obtain ⟨hl, -⟩ := Array.getElem?_eq_some_iff.mp hslot
    rw [depth_of_shown (shown_of_slot w hslot)]
    omega
  refine ⟨w₁, ?_, hi⟩
  unfold validate
  rw [Api.bind_ok (show c.top w = (.ok (w.depth c : Int), w) from rfl)]
  dsimp only
  rw [if_pos ⟨hpos, hd⟩, Api.bind_ok hroom, Api.get_bind]
  exact congrArg (·, w₁) hcheck

/-- What was read from a slot is pushed as what the slot holds. -/
theorem push_shows (h : w.Grants c 3) (hpos : 1 ≤ pos)
    (hslot : (w.slots c)[(pos - 1).toNat]? = some u) (hv : w.Shows c pos u v)
    (hq : ∀ q, v = .thread q → w.Welcome c q) :
    ∃ w₁, w.Intact w₁ ∧ c.push v w = (.ok (), w₁.push c u) := by
  obtain ⟨w₁, hroom, hi⟩ := checkStack_intact h (show (3 : Int) ≤ (3 : Nat) by decide)
  have hgrants := hi.grants c 3 h
  have hslot₁ : (w₁.slots c)[(pos - 1).toNat]? = some u := by rwa [hi.slots]
  have hopaque : u.tag.isOpaqueKind → v = .handle ⟨u.tag, w.displayName c u, pos, c⟩ →
      ∃ w₁, w.Intact w₁ ∧ c.push v w = (.ok (), w₁.push c u) := by
    intro hu he
    rw [← displayName_congr (hi.heap c.vm) u] at he
    obtain ⟨w₂, hvalid, hi₂⟩ := validate_intact (hgrants.less (by decide)) hu hpos hslot₁
    have hat : w₂.at_ c pos = u := by
      rw [hi₂.at_]
      unfold at_
      rw [Array.getD_eq_getD_getElem?, hslot₁]
      rfl
    refine ⟨w₂, hi.trans hi₂, ?_⟩
    unfold push
    rw [Api.bind_ok hroom, he]
    dsimp only
    rw [Api.bind_ok hvalid]
    unfold Api.modify
    dsimp only
    rw [hat]
  cases u with
  | nil | bool b | int i | float x | str s =>
    subst hv
    exact ⟨w₁, hi, Api.bind_ok hroom⟩
  | thread t =>
    obtain ⟨q, rfl, rfl⟩ := hv
    obtain ⟨w₂, hi₂, hpush⟩ := pushThread_intact (hgrants.less (by decide))
      (hi.welcome (hq q rfl))
    refine ⟨w₂, hi.trans hi₂, ?_⟩
    unfold push
    rw [Api.bind_ok hroom]
    exact hpush
  | table _ | builtin _ | closure _ | userdata _ | light _ => exact hopaque rfl hv

end Context

namespace World

/-- A value has been put on top of a stack, and nothing else has changed. -/
structure Appended (w : World σ μ) (c : Context) (u : Val) (w' : World σ μ) : Prop where
  stack : w'.shown c = (w.shown c).map (·.push u)
  others : ∀ d, d ≠ c → w'.shown d = w.shown d
  heap : ∀ i, w'.heap i = w.heap i

theorem Alike.appended (h : w.Alike w') (c : Context) (u : Val) : w.Appended c u (w'.push c u) where
  stack := by rw [shown_push, if_pos rfl, h.shown]
  others d hd := by rw [shown_push, if_neg hd.symm, h.shown]
  heap i := (heap_push w' c i u).trans (h.heap i)

end World

namespace Context

theorem duplicate_appends {i : Int} (hi : c.resolve i w = (.ok pos, w)) (h : w.Grants c 1) :
    ∃ w', c.duplicate i w = (.ok (), w') ∧ w.Appended c (w.at_ c pos) w' := by
  obtain ⟨w₁, hroom, hsame⟩ := checkStack_intact h (show (1 : Int) ≤ (1 : Nat) by decide)
  refine ⟨w₁.push c (w₁.at_ c pos), ?_, ?_⟩
  · unfold duplicate
    rw [Api.bind_ok hi, Api.bind_ok hroom]
    rfl
  · rw [hsame.at_]
    exact hsame.toAlike.appended c _

/-- Where nothing is refused, pushing what was read from a slot does what duplicating the slot does;
a thread has to be one of an interpreter that has its owner and its record. -/
theorem push_read {s : Array Val} {i : Int} (hs : w.shown c = some s)
    (hi : c.resolve i w = (.ok pos, w)) (h : w.Grants c 3)
    (ht : ∀ t, w.at_ c pos = .thread t →
      w.Known c.vm ∧ (⟨c.vm, t⟩ ≠ c → w.Grants ⟨c.vm, t⟩ 1)) :
    ∃ u v w₁ w₂ w₃, s[(pos - 1).toNat]? = some u ∧
      c.read i w = (.ok v, w₁) ∧ c.push v w₁ = (.ok (), w₂) ∧ c.duplicate i w = (.ok (), w₃) ∧
      w.Appended c u w₂ ∧ w.Appended c u w₃ := by
  obtain ⟨-, hlow, hhigh, -⟩ := resolve_ok hi
  rw [depth_of_shown hs] at hhigh
  have hslot : (w.slots c)[(pos - 1).toNat]? = some (w.at_ c pos) := by
    unfold at_
    rw [slots_of_shown hs, Array.getD_eq_getD_getElem?,
      Array.getElem?_eq_getElem (by omega : (pos - 1).toNat < s.size)]
    rfl
  obtain ⟨v, w₁, hread, hsame, howner⟩ := read_intact hi (h.less (by decide)) fun t hv => by
    rw [(ht t hv).1.record]
    nofun
  have hshows : w₁.Shows c pos (w.at_ c pos) v := by
    obtain ⟨pos', hi', -, -, -, hv⟩ := read_ok hread
    obtain rfl := Except.ok.inj (Prod.mk.inj (hi'.symm.trans hi)).1
    exact (shows_congr (hsame.heap c.vm)).mpr hv
  obtain ⟨w₂, hsame₂, hpush⟩ := push_shows (hsame.grants c 3 h) hlow
    (by rwa [hsame.slots]) hshows fun q hq => by
      subst hq
      cases hv : w.at_ c pos with
      | thread t =>
        rw [hv] at hshows
        obtain ⟨_, he, rfl⟩ := hshows
        obtain rfl := Value.thread.inj he
        obtain ⟨hknown, hroom⟩ := ht _ hv
        have hvm : q.thread.vm = c.vm :=
          (Option.some.inj (hknown.record.symm.trans (howner q rfl))).symm
        have hthread : (⟨c.vm, q.thread.thread⟩ : Context) = q.thread := by rw [← hvm]
        rw [hthread] at hroom
        exact hsame.welcome ⟨hvm, hknown, hroom⟩
      | _ =>
        rw [hv] at hshows
        cases hshows
  obtain ⟨w₃, hdup, happ⟩ := duplicate_appends hi (h.less (by decide))
  exact ⟨_, v, w₁, _, w₃, (slots_of_shown hs) ▸ hslot, hread, hpush, hdup,
    (hsame.trans hsame₂).toAlike.appended c _, happ⟩

/-- A new interpreter with a coroutine, whose main stack holds that coroutine. -/
def spawned : World Unit Unit where
  instances :=
    #[{ vm := { freshVm 0 with threads :=
          #[{ ground := { level := .native #[.thread 1] } },
            { ground := { level := .native #[.int 7] } }] }
        chunkName := .empty }]
  memory := ()
  subscriber _ m := m

/-- A coroutine goes by way of its own stack. -/
theorem push_read_spawned :
    ∃ v w₁ w₂, read ⟨0, 0⟩ 1 spawned = (.ok v, w₁) ∧ push ⟨0, 0⟩ v w₁ = (.ok (), w₂) ∧
      w₂.shown ⟨0, 0⟩ = some #[.thread 1, .thread 1] ∧ w₂.shown ⟨0, 1⟩ = some #[.int 7] := by
  have hknown : spawned.Known 0 := ⟨by decide +kernel, by decide +kernel⟩
  have hroom : spawned.Grants ⟨0, 0⟩ 3 ∧ spawned.Grants ⟨0, 1⟩ 1 :=
    ⟨by decide +kernel, by decide +kernel⟩
  have hat : spawned.at_ ⟨0, 0⟩ 1 = .thread 1 := by decide +kernel
  have hslots : spawned.shown ⟨0, 0⟩ = some #[.thread 1] := by decide +kernel
  have hfirst : resolve ⟨0, 0⟩ 1 spawned = (.ok 1, spawned) := rfl
  obtain ⟨u, v, w₁, w₂, -, hu, hread, hpush, -, happ, -⟩ := push_read hslots hfirst hroom.1
    fun t ht => by
      obtain rfl := Val.thread.inj (hat.symm.trans ht)
      exact ⟨hknown, fun _ => hroom.2⟩
  obtain rfl := Option.some.inj hu
  refine ⟨v, w₁, w₂, hread, hpush, ?_, ?_⟩
  · rw [happ.stack]
    decide +kernel
  · rw [happ.others _ (by decide)]
    decide +kernel

/-- Without its record, an interpreter does not let its threads be read, however much room there is
and though its owner is there. -/
theorem read_unmarked :
    ∃ w', (unmarked #[.thread 0]).shown ⟨0, 0⟩ = some #[.thread 0] ∧
      (unmarked #[.thread 0]).Grants ⟨0, 0⟩ 3 ∧
      (((unmarked #[.thread 0]).instances[0]?).map (·.closed)) = some false ∧
      read ⟨0, 0⟩ 1 (unmarked #[.thread 0]) = (.error unrecorded, w') ∧
      ∃ w'', duplicate ⟨0, 0⟩ 1 (unmarked #[.thread 0]) = (.ok (), w'') :=
  ⟨_, by decide +kernel, by decide +kernel, by decide +kernel,
    Prod.ext (by decide +kernel) rfl, _, Prod.ext (by decide +kernel) rfl⟩

end Context
end LuaEmbed
