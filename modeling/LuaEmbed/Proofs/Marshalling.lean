import LuaEmbed.Proofs.Atomicity
import LuaEmbed.Proofs.Listing

/-!
Lists of plain values on a stack. Pushing a list can only fail for want of room; what has been pushed
is read back as it was, value by value and bit by bit, and popping it leaves the stack as it was found.
-/
namespace LuaEmbed

open Engine World

variable {σ μ : Type} {c : Context} {w w' w₁ : World σ μ} {s : Array Val} {v : Value} {vs : List Value}

namespace World

theorem shows_copied (hv : v.IsPrimitive = true) {pos : Int} {v' : Value} :
    w.Shows c pos v.copied v' ↔ v' = v := by
  cases v with
  | nil | bool | int | float | text => exact Iff.rfl
  | _ => cases hv

theorem showsAll_copied (hv : ∀ v ∈ vs, v.IsPrimitive = true) {pos : Int} {vs' : List Value}
    (h : w.ShowsAll c pos (vs.map Value.copied) vs') : vs' = vs := by
  induction vs generalizing pos vs' with
  | nil =>
    cases h
    rfl
  | cons v vs ih =>
    cases h with
    | cons h hs =>
      rw [(shows_copied (hv v (List.mem_cons_self ..))).mp h,
        ih (fun v hmem => hv v (List.mem_cons_of_mem _ hmem)) hs]

theorem tag_copied_ne_thread (v : Value) : v.copied.tag ≠ .thread := by
  cases v <;> exact nofun

/-- Some values have been put on a stack, and nothing else has changed. -/
structure Stacked (c : Context) (us : List Val) (w w' : World σ μ) : Prop extends AlikeBelow c w w' where
  top : w'.shown c = (w.shown c).map (· ++ us.toArray)

theorem Alike.stacked (h : w.Alike w') (c : Context) : Stacked c [] w w' where
  toAlikeBelow := h.below c
  top := by
    rw [h.shown]
    cases w.shown c <;> simp

theorem Stacked.trans {us us' : List Val} (h : Stacked c us w w₁) (k : Stacked c us' w₁ w') :
    Stacked c (us ++ us') w w' where
  others d hd := (k.others d hd).trans (h.others d hd)
  stack := ⟨(us ++ us').toArray, by
    rw [k.top, h.top]
    cases w.shown c <;> simp⟩
  heap i := (k.heap i).trans (h.heap i)
  status d := (k.status d).trans (h.status d)
  top := by
    rw [k.top, h.top]
    cases w.shown c <;> simp

theorem Stacked.nil_alike (h : Stacked c [] w w') : w.Alike w' :=
  h.restore (by
    rw [h.top]
    cases w.shown c <;> simp) (fun _ _ => rfl) (fun _ => rfl) fun _ => rfl

theorem Alike.stacked_push (h : w.Alike w₁) (c : Context) (u : Val) :
    Stacked c [u] w (w₁.push c u) where
  toAlikeBelow := h.push c u
  top := by
    rw [shown_push, if_pos rfl, h.shown]
    cases w.shown c <;> simp

end World

namespace Context

/-! ### Pushing -/

/-- There is room, or the reservation is refused. -/
theorem checkStack_cases (c : Context) (w : World σ μ) (n : Nat) :
    (∃ w₁, c.checkStack n w = (.ok (), w₁) ∧ w.Alike w₁ ∧ (0 < n → w₁.Grants c n)) ∨
      ∃ w₁, c.checkStack n w = (.error (.stackOverflow n), w₁) := by
  rcases Nat.eq_zero_or_pos n with rfl | hn
  · exact .inl ⟨w, rfl, .refl w, fun h => absurd h (Nat.lt_irrefl 0)⟩
  by_cases hg : w.Grants c n
  · obtain ⟨w₁, h, hi⟩ := checkStack_intact hg (Int.le_refl n)
    exact .inl ⟨w₁, h, hi.toAlike, fun _ => hi.grants c n hg⟩
  · exact .inr ⟨_, checkStack_refused (by omega) (eq_false_of_ne_true hg)⟩

theorem push_cases (hv : v.IsPrimitive = true) (w : World σ μ) :
    (∃ w₁, c.push v w = (.ok (), w₁) ∧ Stacked c [v.copied] w w₁ ∧ w₁.Grants c 2) ∨
      ∃ n w₁, c.push v w = (.error (.stackOverflow n), w₁) := by
  unfold push
  rcases checkStack_cases c w 3 with ⟨w₁, hroom, ha, hg⟩ | ⟨w₁, hroom⟩
  · refine .inl ⟨w₁.push c v.copied, ?_, ha.stacked_push c v.copied, (hg (by decide)).push _⟩
    refine (Api.bind_ok hroom).trans ?_
    cases v with
    | nil | bool | int | float | text => rfl
    | _ => cases hv
  · exact .inr ⟨3, w₁, Api.bind_error hroom⟩

theorem pushEach_cases (hv : ∀ v ∈ vs, v.IsPrimitive = true) (w : World σ μ) :
    (∃ w₁, c.pushEach vs w = (.ok (), w₁) ∧ Stacked c (vs.map Value.copied) w w₁ ∧
        (vs ≠ [] → w₁.Grants c 2)) ∨
      ∃ n w₁, c.pushEach vs w = (.error (.stackOverflow n), w₁) := by
  induction vs generalizing w with
  | nil => exact .inl ⟨w, rfl, (Alike.refl w).stacked c, fun h => absurd rfl h⟩
  | cons v vs ih =>
    rcases push_cases (c := c) (hv v (List.mem_cons_self ..)) w with ⟨w₁, hpush, hs, hg⟩ | ⟨n, w₁, hpush⟩
    · rcases ih (fun v hmem => hv v (List.mem_cons_of_mem _ hmem)) w₁ with
        ⟨w₂, hrest, hs₂, hg₂⟩ | ⟨n, w₂, hrest⟩
      · refine .inl ⟨w₂, (Api.bind_ok hpush).trans hrest, hs.trans hs₂, fun _ => ?_⟩
        -- The room for the last value is room enough for reading.
        rcases vs with _ | ⟨v', vs⟩
        · obtain rfl : w₁ = w₂ := (Prod.mk.inj hrest).2
          exact hg
        · exact hg₂ (List.cons_ne_nil _ _)
      · exact .inr ⟨n, w₂, (Api.bind_ok hpush).trans hrest⟩
    · exact .inr ⟨n, w₁, Api.bind_error hpush⟩

/-- Plain values are on the stack, in order, or a reservation has been refused. -/
theorem pushAll_cases (hv : ∀ v ∈ vs, v.IsPrimitive = true) (w : World σ μ) :
    (∃ w₁, c.pushAll vs w = (.ok (), w₁) ∧ Stacked c (vs.map Value.copied) w w₁ ∧
        (vs ≠ [] → w₁.Grants c 2)) ∨
      ∃ n w₁, c.pushAll vs w = (.error (.stackOverflow n), w₁) := by
  unfold pushAll checkStackFor
  by_cases hlong : Word32.greatest < vs.length
  · rw [if_pos hlong]
    exact .inr ⟨_, w, rfl⟩
  · rw [if_neg hlong]
    rcases checkStack_cases c w vs.length with ⟨w₁, hroom, ha, -⟩ | ⟨w₁, hroom⟩
    · rcases pushEach_cases (c := c) hv w₁ with ⟨w₂, hpush, hs, hg⟩ | ⟨n, w₂, hpush⟩
      · exact .inl ⟨w₂, (Api.bind_ok hroom).trans hpush, (ha.stacked c).trans hs, hg⟩
      · exact .inr ⟨n, w₂, (Api.bind_ok hroom).trans hpush⟩
    · exact .inr ⟨_, w₁, Api.bind_error hroom⟩

/-! ### Reading back -/

theorem window?_top {n k : Nat} (h : 0 < k) : Index.window? k none (n + k) = some n := by
  unfold Index.window? Index.place?
  rw [if_neg (by omega), Option.getD_none, if_neg (by omega), if_pos (by omega), Option.filter_some,
    if_pos (decide_eq_true (by omega))]
  exact congrArg some (by omega)

theorem pop_top {us : List Val} (hs : w.shown c = some (s ++ us.toArray))
    (hd : (s.size : Int) + us.length ≤ Word32.greatest) (hpos : 0 < us.length) :
    c.pop us.length w = (.ok (), (c.cut s.size w).2) := by
  have hdepth : c.top w = (.ok ((s.size + us.length : Nat) : Int), w) := by
    unfold top
    rw [depth_of_shown hs, Array.size_append]
    rfl
  have hrange : Word32.InRange us.length := by
    refine ⟨?_, by omega⟩
    unfold Word32.least
    omega
  have hnone : ∀ i : Int, none = some i → Word32.InRange i := nofun
  have hwindow : Index.resolveWindow us.length none (s.size + us.length : Nat) =
      .ok (s.size + 1 : Nat) :=
    (Index.resolveWindow_window hrange (by omega) hnone (by omega)).1 s.size (window?_top hpos)
  unfold pop
  rw [if_neg (by omega), Api.bind_ok hdepth, hwindow, show (((s.size + us.length : Nat) : Int) -
    us.length).toNat = s.size by omega]
  rfl

section

variable (hs : w.shown c = some (s ++ (vs.map Value.copied).toArray))
  (hd : (s.size : Int) + vs.length ≤ Word32.greatest) (hv : ∀ v ∈ vs, v.IsPrimitive = true)
  (hg : vs ≠ [] → w.Grants c 2)

include hs hd hv hg

theorem readBatch_copied : ∃ w', c.readBatch vs.length none w = (.ok vs, w') ∧ w.Alike w' := by
  have hl : w.shown c = some (s.toList ++ vs.map Value.copied).toArray := by
    rw [hs]
    exact congrArg some (Array.ext' (by simp))
  have hlength : (s.toList ++ vs.map Value.copied).length = s.size + vs.length := by simp
  rcases Nat.eq_zero_or_pos vs.length with h0 | hpos
  · obtain rfl := List.eq_nil_of_length_eq_zero h0
    exact ⟨w, rfl, .refl w⟩
  have hdrop : ((s.toList ++ vs.map Value.copied).drop s.size).take (vs.length : Int).toNat =
      vs.map Value.copied := by
    rw [Int.toNat_natCast, List.drop_left' (by simp), List.take_of_length_le (by simp)]
  have hrange : (StackOp.readBatch vs.length none).IsListed := by
    refine ⟨⟨?_, by omega⟩, nofun⟩
    unfold Word32.least
    omega
  obtain ⟨vs', w', hread, hi, hshows⟩ := StackOp.readBatch_window hl (by omega) (by omega) hrange
    (hg (List.length_pos_iff.mp hpos)) (by rw [hlength]; exact window?_top hpos) fun u hmem ht => by
      rw [hdrop] at hmem
      obtain ⟨v, -, rfl⟩ := List.mem_map.mp hmem
      exact absurd ht (tag_copied_ne_thread v)
  rw [hdrop] at hshows
  obtain rfl := showsAll_copied hv hshows
  exact ⟨w', hread, hi.toAlike⟩

end

/-- What has been pushed is popped as it was pushed, and the stack is as it was. -/
theorem popValues_copied (hs : w.shown c = some s) (h : Stacked c (vs.map Value.copied) w w₁)
    (hd : (s.size : Int) + vs.length ≤ Word32.greatest) (hv : ∀ v ∈ vs, v.IsPrimitive = true)
    (hg : vs ≠ [] → w₁.Grants c 2) :
    ∃ w', c.popValues vs.length w₁ = (.ok vs, w') ∧ w.Alike w' := by
  have hs₁ : w₁.shown c = some (s ++ (vs.map Value.copied).toArray) := by
    rw [h.top, hs]
    rfl
  obtain ⟨w₂, hread, ha⟩ := readBatch_copied hs₁ hd hv hg
  unfold popValues
  rcases Nat.eq_zero_or_pos vs.length with h0 | hpos
  · obtain rfl := List.eq_nil_of_length_eq_zero h0
    exact ⟨w₂, (Api.bind_ok hread).trans rfl, h.nil_alike.trans ha⟩
  have hpop := pop_top ((ha.shown c).trans hs₁) (by rwa [List.length_map])
    (by rwa [List.length_map])
  rw [List.length_map] at hpop
  refine ⟨_, (Api.bind_ok hread).trans (Api.bind_ok hpop), ?_⟩
  rw [← depth_of_shown hs]
  exact alike_cut (h.toAlikeBelow.alike ha)

/-- A list of plain values can be pushed if there is room for it and for two slots more, and it is only
for want of room that it cannot. Then the values stand on the stack in order; reading as many as were
pushed gives them back one by one as they were and changes nothing, and popping them gives them back and
leaves everything as it was. -/
theorem push_pop_values (hs : w.shown c = some s) (hv : ∀ v ∈ vs, v.IsPrimitive = true)
    (hd : (s.size : Int) + vs.length ≤ Word32.greatest) :
    ((vs ≠ [] → w.Grants c (vs.length + 2)) → ∃ w₁, c.pushAll vs w = (.ok (), w₁)) ∧
    ((∃ n w₁, c.pushAll vs w = (.error (.stackOverflow n), w₁)) ∨
      ∃ w₁ w₂ w₃, c.pushAll vs w = (.ok (), w₁) ∧
        w₁.shown c = some (s ++ (vs.map Value.copied).toArray) ∧
        c.readBatch vs.length none w₁ = (.ok vs, w₂) ∧ w₁.Alike w₂ ∧
        c.popValues vs.length w₁ = (.ok vs, w₃) ∧ w.Alike w₃) := by
  constructor
  · intro hg
    rcases eq_or_ne vs [] with rfl | hne
    · exact ⟨w, rfl⟩
    · obtain ⟨w₁, hpush, -, -⟩ := pushAll_primitives hv (by omega) (hg hne)
      exact ⟨w₁, hpush⟩
  · rcases pushAll_cases (c := c) hv w with ⟨w₁, hpush, hstacked, hg⟩ | hrefused
    · have hs₁ : w₁.shown c = some (s ++ (vs.map Value.copied).toArray) := by
        rw [hstacked.top, hs]
        rfl
      obtain ⟨w₂, hread, ha⟩ := readBatch_copied hs₁ hd hv hg
      obtain ⟨w₃, hpop, ha₃⟩ := popValues_copied hs hstacked hd hv hg
      exact .inr ⟨w₁, w₂, w₃, hpush, hs₁, hread, ha, hpop, ha₃⟩
    · exact .inl hrefused

/-- A value of each kind: the least integer, the negative zero, a number that is none, and texts with a
null byte and without any byte. -/
theorem push_pop_values_spawned :
    let vs : List Value := [.nil, .bool false, .int Int64.minValue, .float ⟨0x8000000000000000⟩,
      .float ⟨0x7FF8000000000001⟩, .text ⟨#[0, 255]⟩, .text .empty]
    ∃ w₁ w₂ w₃, pushAll ⟨0, 0⟩ vs spawned = (.ok (), w₁) ∧ readBatch ⟨0, 0⟩ 7 none w₁ = (.ok vs, w₂) ∧
      popValues ⟨0, 0⟩ 7 w₁ = (.ok vs, w₃) ∧ w₃.shown ⟨0, 0⟩ = some #[.thread 1] := by
  intro vs
  have hs : spawned.shown ⟨0, 0⟩ = some #[.thread 1] := by decide +kernel
  have hv : ∀ v ∈ vs, v.IsPrimitive = true := by decide
  obtain ⟨hroom, h⟩ := push_pop_values hs hv (by decide)
  obtain ⟨w', hpush⟩ := hroom fun _ => by decide +kernel
  rcases h with ⟨n, w₁, hno⟩ | ⟨w₁, w₂, w₃, hok, -, hread, -, hpop, ha⟩
  · cases hpush.symm.trans hno
  · exact ⟨w₁, w₂, w₃, hok, hread, hpop, (ha.shown _).trans hs⟩

end Context
end LuaEmbed
