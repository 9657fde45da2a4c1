import LuaEmbed.Proofs.Reading

/-!
A handle stands for the value it was read from: on the stack it came from it is good exactly while
its slot holds that value under the name it had, and on other stacks it never is.
-/
namespace LuaEmbed

open Engine

variable {σ μ α β : Type} {c d : Context} {w w' w₁ : World σ μ}

namespace World

theorem slot_of_at {pos : Int} {v : Val} (h : w.at_ c pos = v) (hv : v ≠ .nil) :
    (w.slots c)[(pos - 1).toNat]? = some v := by
  unfold at_ at h
  rw [Array.getD_eq_getD_getElem?] at h
  cases hs : (w.slots c)[(pos - 1).toNat]? with
  | none =>
    rw [hs] at h
    exact absurd h.symm hv
  | some u =>
    rw [hs] at h
    rw [← h]
    rfl

end World

namespace Context

open World

theorem checkStack_granted {n : Int} (hn : 0 < n) (h : (w.reserve c n.toNat).1 = true) :
    c.checkStack n w = (.ok (), (w.reserve c n.toNat).2) := by
  unfold checkStack
  rw [if_neg (by omega)]
  cases hr : w.reserve c n.toNat with
  | mk ok w₁ =>
    rw [hr] at h
    obtain rfl : ok = true := h
    rfl

theorem checkStack_refused {n : Int} (hn : 0 < n) (h : (w.reserve c n.toNat).1 = false) :
    c.checkStack n w = (.error (.stackOverflow n), (w.reserve c n.toNat).2) := by
  unfold checkStack
  rw [if_neg (by omega)]
  rcases hw : w.reserve c n.toNat with ⟨ok, w₁⟩
  obtain rfl : ok = false := by rw [hw] at h; exact h
  rfl

theorem check_stale {h : Handle} {s : StackId} {current : Option (TypeTag × String)}
    (hn : h.check s current ≠ .ok ()) :
    ∃ found, h.check s current = .error (.stale h.position h.description found) := by
  unfold Handle.check at hn ⊢
  cases current with
  | none => exact ⟨_, rfl⟩
  | some found => by_cases hs : s = h.stack <;> by_cases hf : found = h.description <;> simp_all

/-- How a handle sees a slot. -/
def seen (c : Context) (w : World σ μ) (pos : Int) : Option (TypeTag × String) :=
  if 1 ≤ pos ∧ pos ≤ w.depth c then some (w.describe c (w.at_ c pos)) else none

/-- Reading an opaque value describes the slot that it stands in. -/
theorem read_handle {i : Int} {h : Handle} (hr : c.read i w = (.ok (.handle h), w₁)) :
    c.resolve i w = (.ok h.position, w) ∧ 1 ≤ h.position ∧
    ∃ v, v.tag.isOpaqueKind ∧ (w.slots c)[(h.position - 1).toNat]? = some v ∧
      h = ⟨v.tag, w.displayName c v, h.position, c⟩ := by
  obtain ⟨pos, hpos, hlow, -, -, hshows⟩ := read_ok hr
  have hopaque : ∀ v, w.at_ c pos = v → v.tag.isOpaqueKind →
      Value.handle h = .handle ⟨v.tag, w.displayName c v, pos, c⟩ →
      c.resolve i w = (.ok h.position, w) ∧ 1 ≤ h.position ∧
      ∃ v, v.tag.isOpaqueKind ∧ (w.slots c)[(h.position - 1).toNat]? = some v ∧
        h = ⟨v.tag, w.displayName c v, h.position, c⟩ := by
    intro v hv hk he
    obtain rfl := Value.handle.inj he
    refine ⟨hpos, hlow, v, hk, slot_of_at hv ?_, rfl⟩
    rintro rfl
    cases hk
  cases hv : w.at_ c pos <;> rw [hv] at hshows
  case thread t =>
    obtain ⟨_, he, -⟩ := hshows
    cases he
  case table t => exact hopaque _ hv rfl hshows
  case closure f => exact hopaque _ hv rfl hshows
  case builtin f => exact hopaque _ hv rfl hshows
  case userdata u => exact hopaque _ hv rfl hshows
  case light p => exact hopaque _ hv rfl hshows
  all_goals cases hshows

/-- Validation compares a handle with its slot. -/
theorem validate_eq (h : Handle) (hroom : (w.reserve d 2).1 = true) :
    (d.validate h w).1 = h.check d (d.seen w h.position) := by
  unfold validate
  rw [Api.bind_ok (show d.top w = (.ok (w.depth d : Int), w) from rfl)]
  unfold seen
  by_cases hp : 1 ≤ h.position ∧ h.position ≤ w.depth d
  · rw [if_pos hp, if_pos hp, Api.bind_ok (checkStack_granted (n := 2) (by decide) hroom)]
    rw [← describe_congr (heap_reserve w d d.vm 2), ← at_reserve w d d 2]
    rfl
  · rw [if_neg hp, if_neg hp]
    rfl

/-- Pushing a handle validates it first. -/
theorem push_handle (h : Handle) (hroom : (w.reserve d 3).1 = true) :
    ∃ w₁, w.Alike w₁ ∧ d.push (.handle h) w = match h.check d (d.seen w h.position) with
      | .ok () => (.ok (), w₁.push d (w₁.at_ d h.position))
      | .error e => (.error e, w₁) := by
  unfold push
  rw [Api.bind_ok (checkStack_granted (n := 3) (by decide) hroom)]
  have hv := validate_eq (d := d) h (reserve_again hroom)
  have ha := (alike_reserve w d 3).trans (d.steady_validate h (w.reserve d 3).2)
  have hseen : d.seen (w.reserve d 3).2 h.position = d.seen w h.position := by
    unfold seen
    rw [depth_reserve, at_reserve, describe_congr (heap_reserve w d d.vm 3)]
  rw [hseen] at hv
  refine ⟨_, ha, ?_⟩
  cases hc : h.check d (d.seen w h.position) with
  | ok _ => exact Api.bind_ok (Prod.ext (hv.trans hc) rfl)
  | error e => exact Api.bind_error (Prod.ext (hv.trans hc) rfl)

end Context

namespace World

/-- A stack still holds what a handle was read from, at its place and under its name. -/
structure Holds (w : World σ μ) (d : Context) (h : Handle) (v : Val) : Prop where
  stack : d = h.stack
  slot : (w.slots d)[(h.position - 1).toNat]? = some v
  name : w.displayName d v = h.name

theorem seen_of_slot {pos : Int} {v : Val} (hp : 1 ≤ pos)
    (h : (w.slots c)[(pos - 1).toNat]? = some v) : c.seen w pos = some (w.describe c v) := by
  obtain ⟨hl, hv⟩ := Array.getElem?_eq_some_iff.mp h
  have hd := depth_of_shown (shown_of_slot w h)
  have ha : w.at_ c pos = v := by
    unfold at_
    rw [Array.getD_eq_getD_getElem?, h]
    rfl
  unfold Context.seen
  rw [if_pos (by omega), ha]

theorem slot_of_seen {pos : Int} {x : TypeTag × String} (hx : x.1 ≠ .nil)
    (h : c.seen w pos = some x) :
    ∃ v, (w.slots c)[(pos - 1).toNat]? = some v ∧ w.describe c v = x := by
  unfold Context.seen at h
  split at h
  case isFalse => cases h
  refine ⟨w.at_ c pos, slot_of_at rfl ?_, Option.some.inj h⟩
  intro hv
  rw [hv] at h
  rw [← Option.some.inj h] at hx
  exact hx rfl

theorem describe_object {v : Val} (hk : v.tag.isOpaqueKind) :
    w.describe c v = (v.tag, w.displayName c v) := by
  cases v <;> first | rfl | cases hk

theorem tag_describe (v : Val) : (w.describe c v).1 = v.tag := by
  unfold describe
  split <;> rfl

/-- A handle passes its check exactly where what it was read from still is. -/
theorem check_iff_holds {h : Handle} {v : Val} {w₀ : World σ μ}
    (hk : v.tag.isOpaqueKind) (hh : h = ⟨v.tag, w₀.displayName c v, h.position, c⟩)
    (hp : 1 ≤ h.position) : h.check d (d.seen w h.position) = .ok () ↔ w.Holds d h v := by
  rw [Context.check_ok]
  constructor
  · rintro ⟨hd, hs⟩
    have hdesc : h.description = (v.tag, w₀.displayName c v) := by
      rw [hh]
      rfl
    have hnil : h.description.1 ≠ .nil := by
      rw [hdesc]
      intro ht
      have hv : v.tag = .nil := ht
      rw [hv] at hk
      cases hk
    obtain ⟨u, hu, he⟩ := slot_of_seen hnil hs
    have ht : u.tag = v.tag := by rw [← tag_describe (w := w) (c := d), he, hdesc]
    rw [describe_object (by rw [ht]; exact hk), hdesc] at he
    obtain rfl := eq_of_displayName hk ht (Prod.mk.inj he).2
    refine ⟨hd, hu, ?_⟩
    rw [(Prod.mk.inj he).2, hh]
  · rintro ⟨hd, hu, hn⟩
    refine ⟨hd, ?_⟩
    rw [seen_of_slot hp hu, describe_object hk, hn]
    rw [hh]
    rfl

/-- Only a userdata can have another name while it stays what it is. -/
theorem holds_iff {h : Handle} {v : Val} {w₀ : World σ μ}
    (hh : h = ⟨v.tag, w₀.displayName c v, h.position, c⟩) :
    w.Holds d h v ↔ d = c ∧ (w.slots d)[(h.position - 1).toNat]? = some v ∧
      (v.tag = .userdata → w.kindName d v = w₀.kindName c v) := by
  have hs : h.stack = c := by rw [hh]
  have hn : h.name = w₀.displayName c v := by rw [hh]
  constructor
  · rintro ⟨hd, hslot, hname⟩
    refine ⟨hd.trans hs, hslot, fun _ => ?_⟩
    rw [hn, displayName_eq, displayName_eq] at hname
    exact (name_inj hname).1
  · rintro ⟨hd, hslot, hname⟩
    refine ⟨hd.trans hs.symm, hslot, ?_⟩
    rw [hn, displayName_eq, displayName_eq]
    have hk : w.kindName d v = w₀.kindName c v := by
      cases v with
      | userdata u => exact hname rfl
      | _ => rfl
    rw [hk]

/-- A handle that was read from a slot stands for the value that was in it. On whatever stack and at
whatever later moment it is used, it is accepted if and only if that is the stack it came from and
the slot holds this very value, under the name it had if it is a userdata; pushing it then appends
the value. Otherwise it is refused as stale, and no stack is changed. -/
theorem handle_law {i : Int} {h : Handle} (hr : c.read i w = (.ok (.handle h), w₁)) :
    ∃ v, c.resolve i w = (.ok h.position, w) ∧ (w.slots c)[(h.position - 1).toNat]? = some v ∧
      v.tag.isOpaqueKind ∧
      ∀ (w' : World σ μ) (d : Context), (w'.reserve d 3).1 = true →
        (w'.Holds d h v ↔ d = c ∧ (w'.slots d)[(h.position - 1).toNat]? = some v ∧
          (v.tag = .userdata → w'.kindName d v = w.kindName c v)) ∧
        (w'.Holds d h v →
          (∃ w₂, d.validate h w' = (.ok (), w₂) ∧ ∀ x, w₂.slots x = w'.slots x) ∧
          ∃ w₂, d.push (.handle h) w' = (.ok (), w₂) ∧ w₂.slots d = (w'.slots d).push v ∧
            ∀ x, x ≠ d → w₂.slots x = w'.slots x) ∧
        (¬ w'.Holds d h v → ∃ found,
          (∃ w₂, d.validate h w' = (.error (.stale h.position h.description found), w₂) ∧
            ∀ x, w₂.slots x = w'.slots x) ∧
          ∃ w₂, d.push (.handle h) w' = (.error (.stale h.position h.description found), w₂) ∧
            ∀ x, w₂.slots x = w'.slots x) := by
  obtain ⟨hpos, hlow, v, hk, hslot, hh⟩ := Context.read_handle hr
  refine ⟨v, hpos, hslot, hk, fun w' d hroom => ⟨holds_iff hh, ?_, ?_⟩⟩
  all_goals
    intro hholds
    have hcheck := check_iff_holds (w := w') (d := d) hk hh hlow
    have hval := Context.validate_eq (d := d) h (reserve_less (by decide) hroom)
    have hsame := d.steady_validate h w'
    obtain ⟨w₃, hsame', hpush⟩ := Context.push_handle (d := d) h hroom
  · rw [hcheck.mpr hholds] at hval hpush
    have hat : w₃.at_ d h.position = v := by
      rw [hsame'.at_]
      unfold at_
      rw [Array.getD_eq_getD_getElem?, hholds.slot]
      rfl
    refine ⟨⟨_, Prod.ext hval rfl, hsame.slots⟩, _, hpush, slots_of_shown ?_,
      fun x hx => slots_congr ?_⟩
    · rw [shown_push, if_pos rfl, hsame'.shown, shown_of_slot w' hholds.slot, hat]
      rfl
    · rw [shown_push, if_neg hx.symm, hsame'.shown]
  · obtain ⟨found, hf⟩ := Context.check_stale (mt hcheck.mp hholds)
    rw [hf] at hval hpush
    exact ⟨found, ⟨_, Prod.ext hval rfl, hsame.slots⟩, w₃, hpush, hsame'.slots⟩

/-- An interpreter whose main stack holds a table and nothing else. -/
def oneTable : World Unit Unit where
  instances := #[{ vm := { threads := #[{ ground := { level := .native #[.table 0] } }] },
                   chunkName := .empty }]
  memory := ()
  subscriber _ m := m

theorem handle_law_oneTable :
    ∃ h w₁, Context.read ⟨0, 0⟩ (-1) oneTable = (.ok (.handle h), w₁) ∧
      ∃ w₂, Context.push ⟨0, 0⟩ (.handle h) oneTable = (.ok (), w₂) ∧
        w₂.slots ⟨0, 0⟩ = #[.table 0, .table 0] := by
  obtain ⟨h, w₁, hr⟩ : ∃ h w₁, Context.read ⟨0, 0⟩ (-1) oneTable = (.ok (.handle h), w₁) :=
    ⟨_, _, rfl⟩
  obtain ⟨v, hpos, hslot, -, hlaw⟩ := handle_law hr
  obtain ⟨hiff, hgood, -⟩ := hlaw oneTable ⟨0, 0⟩ rfl
  obtain ⟨-, w₂, hpush, hs, -⟩ := hgood (hiff.mpr ⟨rfl, hslot, fun _ => rfl⟩)
  have hp : 1 = h.position := Except.ok.inj (Prod.mk.inj hpos).1
  rw [← hp] at hslot
  have hv : .table 0 = v := Option.some.inj hslot
  refine ⟨h, w₁, hr, w₂, hpush, ?_⟩
  rw [hs, ← hv]
  rfl

end World
end LuaEmbed
