import LuaEmbed.Proofs.Listing

/-!
The arithmetic of indices. Computed in 32-bit words, partly saturating and partly unchecked, it comes
to what unbounded numbers come to: no unchecked step leaves the range of the words, and saturation
neither lets a wrong index through nor turns a right one away. So a batch of reads goes through the
positions of its window, which are positions of the stack.
-/
namespace LuaEmbed

open Engine World

namespace Word32

theorem checked?_of_inRange {i : Int} (h : InRange i) : checked? i = some i := if_pos h

end Word32

namespace Index

variable {index count depth first : Int} {start : Option Int}

/-- A position is named by an index, over unbounded numbers. -/
structure Names (index depth p : Int) : Prop where
  nonzero : index ≠ 0
  position : p = if 0 < index then index else depth + index + 1
  low : 1 ≤ p
  high : p ≤ depth

/-- The position as saturating words have it; below the range of the words all that counts is that
it is not positive. -/
theorem saturated_position (hd : Word32.InRange depth) (h : index < 0) :
    Word32.saturate (Word32.saturate (depth + index) + 1) = depth + index + 1 ∨
      depth + index + 1 < 1 ∧ Word32.saturate (Word32.saturate (depth + index) + 1) < 1 := by
  unfold Word32.InRange at hd
  unfold Word32.saturate
  have hleast : Word32.least < 0 := by decide
  omega

theorem resolve_iff (hd : Word32.InRange depth) (p : Int) :
    resolve index depth = .ok p ↔ Names index depth p := by
  have hposition : ∀ q : Int, (if index = 0 ∨ q < 1 ∨ depth < q then
      (.error (.index index depth) : Except Error Int) else .ok q) = .ok p ↔
      index ≠ 0 ∧ p = q ∧ 1 ≤ p ∧ p ≤ depth := by
    intro q
    split
    · exact ⟨nofun, fun h => absurd h (by omega)⟩
    · exact ⟨fun h => by obtain rfl := Except.ok.inj h; omega, fun h => by rw [h.2.1]⟩
  unfold resolve
  dsimp only
  rw [hposition]
  by_cases hneg : index < 0
  · rw [if_pos hneg]
    have hsaturated := saturated_position hd hneg
    constructor
    · rintro ⟨h0, hp, hlow, hhigh⟩
      exact ⟨h0, by rw [if_neg (by omega)]; omega, hlow, hhigh⟩
    · rintro ⟨h0, hp, hlow, hhigh⟩
      rw [if_neg (by omega)] at hp
      exact ⟨h0, by omega, hlow, hhigh⟩
  · rw [if_neg hneg]
    constructor
    · rintro ⟨h0, hp, hlow, hhigh⟩
      exact ⟨h0, by rw [if_pos (by omega)]; exact hp, hlow, hhigh⟩
    · rintro ⟨h0, hp, hlow, hhigh⟩
      rw [if_pos (by omega)] at hp
      exact ⟨h0, hp, hlow, hhigh⟩

/-- The start of a window, computed in words of which every unchecked result is required to be
representable; `none` if one is not. -/
def resolveWindow? (count : Int) (start : Option Int) (depth : Int) : Option (Except Error Int) :=
  if count < 0 then some (.error (.index (start.getD count) depth))
  else do
    let back ← Word32.checked? (-count)
    match resolve (start.getD back) depth with
    | .error e => return .error e
    | .ok first =>
      let before ← Word32.checked? (first - 1)
      let outside := Error.index (Word32.saturate (Word32.saturate (first + count) - 1)) depth
      match Word32.checked? (before + count) with
      | some last => return if last ≤ depth then .ok first else .error outside
      | none => return .error outside

theorem inRange_neg (hc : Word32.InRange count) (h : 0 ≤ count) : Word32.InRange (-count) := by
  unfold Word32.InRange Word32.least Word32.greatest at *
  omega

theorem inRange_before (hd : Word32.InRange depth) (hlow : 1 ≤ first) (hhigh : first ≤ depth) :
    Word32.InRange (first - 1) := by
  unfold Word32.InRange Word32.least Word32.greatest at *
  omega

/-- No unchecked step of a window's arithmetic leaves the range of the words. -/
theorem resolveWindow?_eq (hc : Word32.InRange count) (hd : Word32.InRange depth)
    (start : Option Int) :
    resolveWindow? count start depth = some (resolveWindow count start depth) := by
  unfold resolveWindow? resolveWindow
  by_cases hneg : count < 0
  · rw [if_pos hneg, if_pos hneg]
  have hback := inRange_neg hc (by omega)
  rw [if_neg hneg, if_neg hneg, Word32.checked?_of_inRange hback, wrap_of_inRange hback]
  cases hr : resolve (start.getD (-count)) depth with
  | error e => simp only [Bind.bind, Option.bind, hr]; rfl
  | ok first =>
    obtain ⟨hlow, hhigh, -⟩ := resolve_ok hr
    have hbefore := inRange_before hd hlow hhigh
    simp only [Bind.bind, Option.bind, Except.bind, hr, Word32.checked?_of_inRange hbefore,
      wrap_of_inRange hbefore]
    cases Word32.checked? (first - 1 + count) with
    | none => rfl
    | some last => rfl

theorem resolveWindow_iff (hc : Word32.InRange count) (hd : Word32.InRange depth)
    (start : Option Int) (first : Int) :
    resolveWindow count start depth = .ok first ↔
      0 ≤ count ∧ resolve (start.getD (-count)) depth = .ok first ∧ first + count - 1 ≤ depth := by
  unfold resolveWindow
  by_cases hneg : count < 0
  · rw [if_pos hneg]
    exact ⟨nofun, fun h => absurd h.1 (by omega)⟩
  have hback := inRange_neg hc (by omega)
  rw [if_neg hneg, wrap_of_inRange hback]
  cases hr : resolve (start.getD (-count)) depth with
  | error e => exact ⟨nofun, fun h => nomatch h.2.1⟩
  | ok p =>
    obtain ⟨hlow, hhigh, -⟩ := resolve_ok hr
    simp only [Bind.bind, Except.bind, wrap_of_inRange (inRange_before hd hlow hhigh)]
    -- A sum that is not a word lies above every depth.
    by_cases hlast : Word32.InRange (p - 1 + count)
    · rw [Word32.checked?_of_inRange hlast]
      dsimp only
      split
      · exact ⟨fun h => ⟨by omega, h, by obtain rfl := Except.ok.inj h; omega⟩, fun h => h.2.1⟩
      · refine ⟨nofun, fun h => ?_⟩
        obtain rfl := Except.ok.inj h.2.1
        omega
    · rw [show Word32.checked? (p - 1 + count) = none from if_neg hlast]
      refine ⟨nofun, fun h => ?_⟩
      obtain rfl := Except.ok.inj h.2.1
      unfold Word32.InRange Word32.least at hlast
      unfold Word32.InRange at hd
      omega

/-- So many positions from one on. -/
def positions : Int → Nat → List Int
  | _, 0 => []
  | first, n + 1 => first :: positions (first + 1) n

theorem mem_positions {n : Nat} {p : Int} : p ∈ positions first n ↔ first ≤ p ∧ p < first + n := by
  induction n generalizing first with
  | zero => exact ⟨nofun, fun h => absurd h (by omega)⟩
  | succ n ih =>
    rw [positions, List.mem_cons, ih]
    omega

/-- The positions from one up to the end of a window, which is required to be representable. -/
def walk? (first count : Int) : Option (List Int) :=
  (Word32.checked? (first + count)).map fun stop => positions first (stop - first).toNat

/-- The end of a window is representable below the last depth of all. -/
theorem walk?_eq (hlow : 1 ≤ first) (h0 : 0 ≤ count) (hfits : first + count - 1 ≤ depth)
    (hd : depth < Word32.greatest) : walk? first count = some (positions first count.toNat) := by
  have hstop : Word32.InRange (first + count) := by
    unfold Word32.InRange Word32.least
    omega
  rw [walk?, Word32.checked?_of_inRange hstop, Option.map_some,
    show first + count - first = count by omega]

end Index

namespace Context

variable {σ μ : Type} (c : Context)

/-- Reads the slots at some positions, one after the other. -/
def readEach : List Int → List Value → Api σ μ (List Value)
  | [], acc => return acc.reverse
  | p :: ps, acc => fun w =>
    match c.read p w with
    | (.ok v, w) => readEach ps (v :: acc) w
    | (.error e, w) => (.error e, w.releaseAll acc)

theorem readFrom_eq_readEach (first : Int) (n : Nat) (acc : List Value) :
    (c.readFrom first n acc : Api σ μ (List Value)) = c.readEach (Index.positions first n) acc := by
  induction n generalizing first acc with
  | zero => rfl
  | succ n ih =>
    funext w
    unfold readFrom Index.positions readEach
    rcases c.read first w with ⟨_ | v, w₁⟩
    · rfl
    · exact congrFun (ih (first + 1) (v :: acc)) w₁

variable {c} {w : World σ μ} {count first : Int} {start : Option Int}

/-- A batch of reads goes through the positions of its window and no others. -/
theorem readBatch_eq_readEach (h : Index.resolveWindow count start (w.depth c) = .ok first) :
    c.readBatch count start w = c.readEach (Index.positions first count.toNat) [] w := by
  unfold readBatch
  by_cases h0 : count = 0
  · rw [if_pos h0, h0]
    rfl
  · have hwindow : (Api.check (Index.resolveWindow count start (w.depth c)) : Api σ μ Int) w =
        (.ok first, w) := congrArg (·, w) h
    rw [if_neg h0, Api.bind_ok (show c.top w = (.ok (w.depth c : Int), w) from rfl),
      Api.bind_ok hwindow, readFrom_eq_readEach]

end Context

namespace Index

/-- Indices and windows are resolved as over unbounded numbers, no unchecked step on the way leaves the
range of the words, and a batch of reads stays on its stack. -/
theorem arithmetic_exact {count depth : Int} (hc : Word32.InRange count) (hd : Word32.InRange depth)
    (start : Option Int) :
    (∀ index p, resolve index depth = .ok p ↔ Names index depth p) ∧
    (∀ first, resolveWindow count start depth = .ok first ↔
      0 ≤ count ∧ resolve (start.getD (-count)) depth = .ok first ∧ first + count - 1 ≤ depth) ∧
    resolveWindow? count start depth = some (resolveWindow count start depth) ∧
    (depth < Word32.greatest → ∀ first, resolveWindow count start depth = .ok first →
      ∃ ps, walk? first count = some ps ∧ (∀ p ∈ ps, 1 ≤ p ∧ p ≤ depth) ∧
        ∀ {σ μ : Type} (c : Context) (w : World σ μ), w.depth c = depth →
          c.readBatch count start w = c.readEach ps [] w) := by
  refine ⟨fun _ => resolve_iff hd, resolveWindow_iff hc hd start, resolveWindow?_eq hc hd start,
    fun hdepth first h => ?_⟩
  obtain ⟨hcount, hr, hfits⟩ := (resolveWindow_iff hc hd start first).mp h
  obtain ⟨hlow, -, -⟩ := resolve_ok hr
  refine ⟨_, walk?_eq hlow hcount hfits hdepth, fun p hp => ?_, fun c w hw => ?_⟩
  · have := mem_positions.mp hp
    omega
  · exact Context.readBatch_eq_readEach (hw ▸ h)

/-- The largest window there is, named from its far end. -/
theorem arithmetic_exact_whole :
    resolve (-2147483646) 2147483646 = .ok 1 ∧ resolveWindow 2147483646 none 2147483646 = .ok 1 ∧
      ∃ ps, walk? 1 2147483646 = some ps ∧ ∀ p ∈ ps, 1 ≤ p ∧ p ≤ 2147483646 := by
  obtain ⟨hresolve, hwindow, -, hwalk⟩ :=
    arithmetic_exact (show Word32.InRange 2147483646 by decide)
      (show Word32.InRange 2147483646 by decide) none
  have hlast := (hresolve (-2147483646) 1).mpr ⟨by decide, by decide, by decide, by decide⟩
  have hfirst := (hwindow 1).mpr ⟨by decide, hlast, by decide⟩
  obtain ⟨ps, hps, hon, -⟩ := hwalk (by decide) 1 hfirst
  exact ⟨hlast, hfirst, ps, hps, hon⟩

end Index
end LuaEmbed
