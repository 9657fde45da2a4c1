import LuaEmbed.Proofs.Calls

/-!
What the host can rely on when it calls something. A call that succeeds gives what the callee
returned, in the number that was asked for; a call that fails leaves nothing of itself behind. Both
have an exception: numbers of results that do not fit into the interpreter's signed words of 16
bits, and calls that are refused before they begin.
-/
namespace LuaEmbed

open Engine World

namespace ResultCount

variable {rc : ResultCount} {rs : List Val}

/-- What a number of results asks for, of the values that were returned. -/
def taken (rc : ResultCount) (rs : List Val) : List Val :=
  match rc with
  | all => rs
  | fixed n => rs.take n.toNat ++ List.replicate (n.toNat - rs.length) .nil

/-- Whether the interpreter honours a number of results: one that fits is, and the two that it takes
for all results are if the callee happens to return so many. -/
def Honoured (rc : ResultCount) (rs : List Val) : Prop :=
  match rc with
  | all => True
  | fixed n => n.toNat < 0x8000 ∨ 0xFFFE ≤ n.toNat ∧ rs.length = n.toNat

theorem want_fixed (n : UInt16) :
    (fixed n).want =
      if n.toNat < 0x8000 then some n.toNat
      else if n.toNat ≤ 0xFFFD then some (0xFFFD - n.toNat) else none := by
  have hlow : n < 0x8000 ↔ n.toNat < 0x8000 := UInt16.lt_iff_toNat_lt
  have hhigh : n ≤ 0xFFFD ↔ n.toNat ≤ 0xFFFD := UInt16.le_iff_toNat_le
  unfold want
  simp only [hlow, hhigh]
  by_cases h : n.toNat ≤ 0xFFFD
  · have hsub : (0xFFFD - n : UInt16).toNat = 0xFFFD - n.toNat :=
      UInt16.toNat_sub_of_le _ _ (hhigh.mpr h)
    rw [hsub]
  · simp only [h, if_false]

theorem length_adjust (n : Nat) (rs : List Val) : (Activation.adjust (some n) rs).length = n := by
  unfold Activation.adjust
  simp
  omega

theorem adjust_of_honoured (h : rc.Honoured rs) : Activation.adjust rc.want rs = rc.taken rs := by
  cases rc with
  | all => rfl
  | fixed n =>
    rw [want_fixed]
    rcases h with hsmall | ⟨hbig, hlen⟩
    · rw [if_pos hsmall]
      rfl
    · rw [if_neg (by omega), if_neg (by omega)]
      simp [Activation.adjust, taken, ← hlen]

theorem honoured_of_length (h : (Activation.adjust rc.want rs).length = (rc.taken rs).length) :
    rc.Honoured rs := by
  cases rc with
  | all => trivial
  | fixed n =>
    have htaken : ((fixed n).taken rs).length = n.toNat := length_adjust n.toNat rs
    rw [htaken, want_fixed] at h
    split at h
    next hsmall => exact .inl hsmall
    next =>
      split at h
      next =>
        rw [length_adjust] at h
        omega
      next => exact .inr ⟨by omega, h⟩

end ResultCount

namespace Context

variable {σ μ : Type}

/-- A call that has been made: the arguments were pushed, the callable was applied to what they
stand for while the stack showed what is below them, and this is what it returned. -/
inductive Made (d : Drive σ μ) (c : Context) (s : Array Val) (f : Val) (args : List Value)
    (w : World σ μ) (rs : List Val) : Prop where
  | intro {w₁ w₂ w₃ : World σ μ} (vals : List Val) (hpush : c.pushAll args w = (.ok (), w₁))
    (hslots : w₁.slots c = s.push f ++ vals.toArray)
    (hd : args.Forall₂ (Denotes (w₁.heap c.vm) c (w₁.slots c)) vals)
    (hbelow : w₂.slots c = s) (hheap : ∀ i, w₂.heap i = w₁.heap i)
    (hcall : c.invoke f vals d w₂ = some (.returned rs, w₃)) : Made d c s f args w rs

/-- The arguments were pushed, but there is no room for as many results as are asked for. -/
def WindowRefused (c : Context) (args : List Value) (rc : ResultCount) (w : World σ μ) : Prop :=
  ∃ w₁ w₂ e, c.pushAll args w = (.ok (), w₁) ∧
    c.checkStack (rc.room args.length) w₁ = (.error e, w₂)

/-- The two refusals after which the stack is not cut back. -/
def Stranded (c : Context) (args : List Value) (rc : ResultCount) (w : World σ μ) : Prop :=
  Word32.greatest < args.length ∨ WindowRefused c args rc w

variable {c : Context} {w w' : World σ μ} {d : Drive σ μ} {s : Array Val} {f : Val}
  {args : List Value} {rc : ResultCount}

theorem not_windowRefused {w₁ w₂ : World σ μ} (hpush : c.pushAll args w = (.ok (), w₁))
    (hroom : c.checkStack (rc.room args.length) w₁ = (.ok (), w₂)) :
    ¬ WindowRefused c args rc w := by
  rintro ⟨w₃, w₄, e, hpush', hroom'⟩
  obtain ⟨-, rfl⟩ := Prod.mk.inj (hpush.symm.trans hpush')
  cases (Prod.mk.inj (hroom.symm.trans hroom')).1

theorem InPlace.made {k : Int} (h : InPlace d c s f args rc w (.ok k) w') :
    ¬ Stranded c args rc w ∧
    ∃ rs, Made d c s f args w rs ∧ k = (Activation.adjust rc.want rs).length ∧
      w'.Stands c (s ++ (Activation.adjust rc.want rs).toArray) := by
  cases h with
  | applied vals hshort hpush hs hd h =>
    cases h with
    | returned rs hroom hs₂ hh hcall hs' =>
      rw [← hd.length_eq] at hroom
      refine ⟨?_, rs, .intro vals hpush hs.slots ?_ hs₂.slots hh hcall, rfl, hs'⟩
      · rintro (hlong | hw)
        · omega
        · exact not_windowRefused hpush hroom hw
      · rwa [hs.slots]

theorem InPlace.failed {e : Error} (h : InPlace d c s f args rc w (.error e) w') :
    w'.slots c = s ∧ w'.depth c = s.size ↔ ¬ Stranded c args rc w := by
  have hmore : ∀ t : Array Val, w'.slots c = s.push f ++ t → w'.slots c ≠ s := by
    intro t ht hs
    have hsize := congrArg Array.size (ht.symm.trans hs)
    simp at hsize
    omega
  cases h with
  | tooLong _ hlong hs' =>
    exact ⟨fun hs => absurd hs.1 (hmore #[] (by simpa using hs'.slots)),
      fun hn => absurd (.inl hlong) hn⟩
  | unpushed _ hshort hpush hs' =>
    refine ⟨fun _ => ?_, fun _ => ⟨hs'.slots, hs'.depth⟩⟩
    rintro (hlong | ⟨w₁, w₂, e', hpush', -⟩)
    · omega
    · cases (Prod.mk.inj (hpush.symm.trans hpush')).1
  | applied vals hshort hpush hs hd h =>
    have hlen := hd.length_eq
    cases h with
    | refused _ hroom hs' =>
      rw [← hlen] at hroom
      have hw : WindowRefused c args rc w := ⟨_, _, _, hpush, hroom⟩
      exact ⟨fun hs => absurd hs.1 (hmore _ hs'.slots), fun hn => absurd (.inr hw) hn⟩
    | raised _ hroom hs' =>
      rw [← hlen] at hroom
      refine ⟨fun _ => ?_, fun _ => ⟨hs'.slots, hs'.depth⟩⟩
      rintro (hlong | hw)
      · omega
      · exact not_windowRefused hpush hroom hw

/-- An interpreter whose main stack shows a callable with something below it; it may be that nothing
more can be allocated. -/
def callable (f : Val) (starved : Bool) : World Unit Unit where
  instances := #[{ vm := { heap := { starved }
                           threads := #[{ ground := { level := .native #[.int 1, f] } }] }
                   chunkName := .empty }]
  memory := ()
  subscriber _ m := m

theorem not_closed {i : Nat} (h : w.history = []) : .closed i ∉ w.history := by
  rw [h]
  exact List.not_mem_nil

/-- A call that succeeds has given the callee what the arguments stand for, leaves what is below as
it was, and gives what the callee returned: as much of it as was asked for, exactly if the number
that was asked for is honoured. Calls are for threads that are ready, and nobody closes the interpreter
meanwhile. -/
theorem call_success (code : HostCode σ μ) (fuel : Nat) (args : List Value) (rc : ResultCount)
    (hs : w.slots c = s.push f) (hr : (w.thread c).status = .ready) :
    (∀ vs w', c.callWith args rc (World.drive code fuel) w = some (.ok vs, w') →
      Unclosed c.vm w w' →
      ∃ rs, Made (World.drive code fuel) c s f args w rs ∧ w'.slots c = s ∧ w'.depth c = s.size ∧
        (w'.ShowsAll c (s.size + 1) (rc.taken rs) vs ↔ rc.Honoured rs)) ∧
    ∀ k w', c.callInPlace args rc (World.drive code fuel) w = some (.ok k, w') →
      Unclosed c.vm w w' →
      ∃ rs t, Made (World.drive code fuel) c s f args w rs ∧ w'.slots c = s ++ t ∧
        w'.depth c = s.size + t.size ∧ k = t.size ∧
        (t = (rc.taken rs).toArray ↔ rc.Honoured rs) := by
  have S := sound_drive code fuel (T := c)
  have hstands := stands_of_slots hs hr
  refine ⟨fun vs w' h hc => ?_, fun k w' h hc => ?_⟩
  · rcases callWith_some h with ⟨e, -, he⟩ | ⟨k, w₁, w₂, hcall, hread, hcut, hh⟩
    · cases he
    have hc₁ : Unclosed c.vm w w₁ := hc.of_history rfl hh.symm
    obtain ⟨-, rs, hmade, rfl, hs₁⟩ := (callInPlace_cases S hstands hcall hc₁).made
    obtain ⟨hs', hshows⟩ := stands_readBatch hs₁ hread hcut
    refine ⟨rs, hmade, hs'.slots, hs'.depth, fun htaken => ?_, fun hh => ?_⟩
    · exact ResultCount.honoured_of_length ((hshows vs rfl).length_eq.trans htaken.length_eq.symm)
    · rw [← ResultCount.adjust_of_honoured hh]
      exact hshows vs rfl
  · obtain ⟨-, rs, hmade, rfl, hs₁⟩ := (callInPlace_cases S hstands h hc).made
    refine ⟨rs, _, hmade, hs₁.slots, by rw [hs₁.depth, Array.size_append], by simp,
      fun ht => ?_, fun hh => ?_⟩
    · exact ResultCount.honoured_of_length (congrArg Array.size ht)
    · rw [ResultCount.adjust_of_honoured hh]

theorem call_success_echoing :
    ∃ vs w' rs,
      Context.callWith ⟨0, 0⟩ [.int 7, .nil] (.fixed 1) (World.drive HostCode.silent 5)
        (callable (.builtin .echoing) false) = some (.ok vs, w') ∧
      Made (World.drive HostCode.silent 5) ⟨0, 0⟩ #[.int 1] (.builtin .echoing) [.int 7, .nil]
        (callable (.builtin .echoing) false) rs ∧
      w'.slots ⟨0, 0⟩ = #[.int 1] ∧ w'.ShowsAll ⟨0, 0⟩ 2 ((ResultCount.fixed 1).taken rs) vs := by
  have h : (Context.callWith ⟨0, 0⟩ [.int 7, .nil] (.fixed 1) (World.drive HostCode.silent 5)
      (callable (.builtin .echoing) false)).map
        (fun p => (p.1.toOption.map List.length, p.2.history)) = some (some 1, []) := by
    decide +kernel
  obtain ⟨⟨r, w'⟩, hcall, hr⟩ := Option.map_eq_some_iff.mp h
  obtain ⟨hvs, hh⟩ := Prod.mk.inj hr
  cases r with
  | error e => cases hvs
  | ok vs =>
    have hc : Unclosed 0 (callable (.builtin .echoing) false) w' := unclosed_of_history hh
    obtain ⟨rs, hmade, hs, -, hshows⟩ := (call_success HostCode.silent 5 [.int 7, .nil] (.fixed 1)
      (w := callable (.builtin .echoing) false) (s := #[.int 1]) rfl rfl).1 vs w' hcall hc
    exact ⟨vs, w', rs, hcall, hmade, hs, hshows.mpr (.inl (by decide))⟩

/-- So many results are asked for that the interpreter takes their number for another one. -/
theorem fixed_lost :
    (callable (.builtin .echoing) false).slots ⟨0, 0⟩ = #[.int 1].push (.builtin .echoing) ∧
    ((callable (.builtin .echoing) false).thread ⟨0, 0⟩).status = .ready ∧
    ∃ w', Context.callWith ⟨0, 0⟩ [.int 7] (.fixed 65533) (World.drive HostCode.silent 5)
        (callable (.builtin .echoing) false) = some (.ok [], w') ∧ .closed 0 ∉ w'.history ∧
      ∀ rs, ¬ w'.ShowsAll ⟨0, 0⟩ 2 ((ResultCount.fixed 65533).taken rs) [] := by
  refine ⟨rfl, rfl, ?_⟩
  have h : (Context.callWith ⟨0, 0⟩ [.int 7] (.fixed 65533) (World.drive HostCode.silent 5)
      (callable (.builtin .echoing) false)).map
        (fun p => (p.1.toOption.map List.length, p.2.history)) = some (some 0, []) := by
    decide +kernel
  obtain ⟨⟨r, w'⟩, hcall, hr⟩ := Option.map_eq_some_iff.mp h
  obtain ⟨hvs, hh⟩ := Prod.mk.inj hr
  cases r with
  | error e => cases hvs
  | ok vs =>
    obtain rfl := List.length_eq_zero_iff.mp (Option.some.inj hvs)
    refine ⟨w', hcall, not_closed hh, fun rs hshows => ?_⟩
    have hlen := hshows.length_eq
    rw [show ((ResultCount.fixed 65533).taken rs).length = 65533 from
      ResultCount.length_adjust 65533 rs] at hlen
    cases hlen

/-- A call that fails takes callable and arguments off the stack and leaves the rest as it was,
exactly if it is not one of the two refusals after which the stack is not cut back. -/
theorem call_failure (code : HostCode σ μ) (fuel : Nat) (args : List Value) (rc : ResultCount)
    (hs : w.slots c = s.push f) (hr : (w.thread c).status = .ready) :
    (∀ e w', c.callWith args rc (World.drive code fuel) w = some (.error e, w') →
      Unclosed c.vm w w' → (w'.slots c = s ∧ w'.depth c = s.size ↔ ¬ Stranded c args rc w)) ∧
    ∀ e w', c.callInPlace args rc (World.drive code fuel) w = some (.error e, w') →
      Unclosed c.vm w w' →
        (w'.slots c = s ∧ w'.depth c = s.size ↔ ¬ Stranded c args rc w) := by
  have S := sound_drive code fuel (T := c)
  have hstands := stands_of_slots hs hr
  refine ⟨fun e w' h hc => ?_, fun e w' h hc => (callInPlace_cases S hstands h hc).failed⟩
  rcases callWith_some h with ⟨e', hcall, -⟩ | ⟨k, w₁, w₂, hcall, hread, hcut, hh⟩
  · exact (callInPlace_cases S hstands hcall hc).failed
  · -- What was left in place cannot be read.
    have hc₁ : Unclosed c.vm w w₁ := hc.of_history rfl hh.symm
    obtain ⟨hgo, rs, -, rfl, hs₁⟩ := (callInPlace_cases S hstands hcall hc₁).made
    have hs' := (stands_readBatch hs₁ hread hcut).1
    exact iff_of_true ⟨hs'.slots, hs'.depth⟩ hgo

theorem call_failure_refusing :
    ∃ e w',
      Context.callInPlace ⟨0, 0⟩ [.int 7] .all (World.drive HostCode.silent 5)
        (callable (.builtin (.refusing "no")) false) = some (.error e, w') ∧
      w'.slots ⟨0, 0⟩ = #[.int 1] ∧ w'.depth ⟨0, 0⟩ = 1 := by
  have h : (Context.callInPlace ⟨0, 0⟩ [.int 7] .all (World.drive HostCode.silent 5)
      (callable (.builtin (.refusing "no")) false)).map (fun p => (p.1.toOption, p.2.history)) =
        some (none, []) := by
    decide +kernel
  obtain ⟨⟨r, w'⟩, hcall, hr⟩ := Option.map_eq_some_iff.mp h
  obtain ⟨hvs, hh⟩ := Prod.mk.inj hr
  cases r with
  | ok k => cases hvs
  | error e =>
    have hc : Unclosed 0 (callable (.builtin (.refusing "no")) false) w' :=
      unclosed_of_history hh
    have hgo : ¬ Stranded ⟨0, 0⟩ [.int 7] .all (callable (.builtin (.refusing "no")) false) := by
      rintro (hlong | ⟨w₁, w₂, e', -, hroom⟩)
      · revert hlong
        decide
      · cases (Prod.mk.inj hroom).1
    have hlaw := call_failure HostCode.silent 5 [.int 7] .all (c := ⟨0, 0⟩)
      (w := callable (.builtin (.refusing "no")) false) (s := #[.int 1]) rfl rfl
    exact ⟨e, w', hcall, (hlaw.2 e w' hcall hc).mpr hgo⟩

/-- When there is no room for the results that are asked for, the callable stays behind. -/
theorem callable_stranded :
    (callable (.builtin .echoing) true).slots ⟨0, 0⟩ = #[.int 1].push (.builtin .echoing) ∧
    ((callable (.builtin .echoing) true).thread ⟨0, 0⟩).status = .ready ∧
    ∃ e w', Context.callInPlace ⟨0, 0⟩ [] (.fixed 100) (World.drive HostCode.silent 5)
        (callable (.builtin .echoing) true) = some (.error e, w') ∧ .closed 0 ∉ w'.history ∧
      w'.depth ⟨0, 0⟩ = 2 := by
  refine ⟨rfl, rfl, ?_⟩
  have h : (Context.callInPlace ⟨0, 0⟩ [] (.fixed 100) (World.drive HostCode.silent 5)
      (callable (.builtin .echoing) true)).map
        (fun p => (p.1.toOption, p.2.history, p.2.depth ⟨0, 0⟩)) = some (none, [], 2) := by
    decide +kernel
  obtain ⟨⟨r, w'⟩, hcall, hr⟩ := Option.map_eq_some_iff.mp h
  obtain ⟨hvs, hrest⟩ := Prod.mk.inj hr
  obtain ⟨hh, hdepth⟩ := Prod.mk.inj hrest
  cases r with
  | ok k => cases hvs
  | error e =>
    exact ⟨e, w', hcall, not_closed hh, hdepth⟩

end Context
end LuaEmbed
