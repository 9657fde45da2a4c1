import LuaEmbed.Proofs.Protocol
import LuaEmbed.Proofs.RoundTrip

/-!
A stack as a list. Operations that need no interpreter for what they do are those of an ordinary list,
whose places are named from the bottom up or from the top down, and so are their answers; one that
names a place that is not there fails, and the list stays what it was.
-/
namespace LuaEmbed

open Engine World

/-! ### Places -/

namespace Index

/-- The place, counted from 0, that an index names among so many. -/
def place? (i : Int) (length : Nat) : Option Nat :=
  if 1 ≤ i ∧ i ≤ length then some (i - 1).toNat
  else if i ≤ -1 ∧ -i ≤ length then some (length + i).toNat
  else none

/-- Where a window begins that takes so many places from an index on, or the last ones. -/
def window? (count : Int) (start : Option Int) (length : Nat) : Option Nat :=
  if count < 0 then none
  else (place? (start.getD (-count)) length).filter fun k => k + count.toNat ≤ length

variable {i count : Int} {start : Option Int} {n k : Nat}

theorem place?_lt (h : place? i n = some k) : k < n := by
  unfold place? at h
  split at h
  · obtain rfl := Option.some.inj h
    omega
  · split at h
    · obtain rfl := Option.some.inj h
      omega
    · cases h

theorem window?_le (h : window? count start n = some k) : 0 ≤ count ∧ k + count.toNat ≤ n := by
  unfold window? at h
  split at h
  · cases h
  · obtain ⟨-, hk⟩ := Option.filter_eq_some_iff.mp h
    exact ⟨by omega, of_decide_eq_true hk⟩

/-- The last places end at the end. -/
theorem window?_last (h : window? count none n = some k) : k + count.toNat = n := by
  obtain ⟨hc, -⟩ := window?_le h
  unfold window? at h
  rw [if_neg (by omega), Option.filter_eq_some_iff, Option.getD_none] at h
  obtain ⟨hk, -⟩ := h
  unfold place? at hk
  rw [if_neg (by omega)] at hk
  split at hk
  · obtain rfl := Option.some.inj hk
    omega
  · cases hk

theorem saturate_of_inRange {m : Int} (h : Word32.InRange m) : Word32.saturate m = m := by
  obtain ⟨hlow, hhigh⟩ := h
  unfold Word32.saturate
  rw [if_neg (by omega), if_neg (by omega)]

theorem resolve_place (hi : Word32.InRange i) (hn : (n : Int) ≤ Word32.greatest) :
    resolve i n = match place? i n with
      | some k => .ok (k + 1 : Nat)
      | none => .error (.index i n) := by
  have hleast : Word32.least ≤ 0 := by decide
  obtain ⟨hlow, hhigh⟩ := hi
  unfold resolve place?
  dsimp only
  by_cases hneg : i < 0
  · have hsum : Word32.saturate (n + i) = n + i := saturate_of_inRange ⟨by omega, by omega⟩
    have hnext : Word32.saturate (n + i + 1) = n + i + 1 := saturate_of_inRange ⟨by omega, by omega⟩
    rw [if_pos hneg, hsum, hnext, if_neg (by omega : ¬ (1 ≤ i ∧ i ≤ n))]
    by_cases hin : -i ≤ n
    · rw [if_neg (by omega), if_pos ⟨by omega, hin⟩]
      exact congrArg _ (by omega)
    · rw [if_pos (by omega), if_neg (by omega)]
  · rw [if_neg hneg, if_neg (by omega : ¬ (i ≤ -1 ∧ -i ≤ n))]
    by_cases hin : 1 ≤ i ∧ i ≤ n
    · rw [if_neg (by omega), if_pos hin]
      exact congrArg _ (by omega)
    · rw [if_pos (by omega), if_neg hin]

theorem resolveWindow_error {first : Int} (hcount : ¬ count < 0)
    (hr : resolve (start.getD (Word32.wrap (-count))) n = .ok first) (hlow : 1 ≤ first)
    (hhigh : n < first - 1 + count) (hfirst : first ≤ Word32.greatest) :
    ∃ j, resolveWindow count start n = .error (.index j n) := by
  have hwrap : Word32.wrap (first - 1) = first - 1 := by
    apply wrap_of_inRange
    unfold Word32.InRange Word32.least Word32.greatest
    unfold Word32.greatest at hfirst
    omega
  unfold resolveWindow
  rw [if_neg hcount, hr]
  simp only [Bind.bind, Except.bind, hwrap]
  split
  next last hlast =>
    unfold Word32.checked? at hlast
    split at hlast
    · obtain rfl := Option.some.inj hlast
      rw [if_neg (by omega)]
      exact ⟨_, rfl⟩
    · cases hlast
  next => exact ⟨_, rfl⟩

theorem resolveWindow_window (hc : Word32.InRange count) (h0 : count ≠ 0)
    (hs : ∀ i, start = some i → Word32.InRange i) (hn : (n : Int) ≤ Word32.greatest) :
    (∀ k, window? count start n = some k → resolveWindow count start n = .ok (k + 1 : Nat)) ∧
      (window? count start n = none → ∃ j, resolveWindow count start n = .error (.index j n)) := by
  by_cases hneg : count < 0
  · unfold window? resolveWindow
    rw [if_pos hneg, if_pos hneg]
    exact ⟨nofun, fun _ => ⟨_, rfl⟩⟩
  have hback : Word32.InRange (-count) := by
    unfold Word32.InRange Word32.least Word32.greatest at *
    omega
  have hwrap : start.getD (Word32.wrap (-count)) = start.getD (-count) := by
    rw [wrap_of_inRange hback]
  have hrange : Word32.InRange (start.getD (-count)) := by
    cases start with
    | none => exact hback
    | some i => exact hs i rfl
  have hresolve := resolve_place hrange hn
  rw [← hwrap] at hresolve
  unfold window?
  rw [if_neg hneg, ← hwrap]
  cases hp : place? (start.getD (Word32.wrap (-count))) n with
  | none =>
    rw [hp] at hresolve
    refine ⟨nofun, fun _ => ⟨start.getD (Word32.wrap (-count)), ?_⟩⟩
    unfold resolveWindow
    rw [if_neg hneg, hresolve]
    rfl
  | some k =>
    rw [hp] at hresolve
    have hk := place?_lt hp
    by_cases hfits : k + count.toNat ≤ n
    · rw [Option.filter_some, if_pos (decide_eq_true hfits)]
      refine ⟨fun k' he => ?_, nofun⟩
      obtain rfl := Option.some.inj he
      exact resolveWindow_of_resolve (by omega) hresolve (by omega) (by omega) hn
    · rw [Option.filter_some, if_neg (mt of_decide_eq_true hfits)]
      exact ⟨nofun, fun _ => resolveWindow_error hneg hresolve (by omega) (by omega) (by omega)⟩

end Index

/-! ### Operations -/

/-- What a primitive value is on a stack. -/
def Value.copied : Value → Val
  | .bool b => .bool b
  | .int i => .int i
  | .float x => .float x
  | .text s => .str s
  | _ => .nil

variable {σ μ : Type} {c : Context} {w w' w₁ : World σ μ}

namespace StackOp

variable {α : Type}

/-- The operations that an ordinary list has as well; the numbers they are given are 32-bit ones. -/
def IsListed : StackOp α → Prop
  | .setTop i | .pop i | .remove i | .duplicate i | .replace i | .read i | .popValues i | .typeOf i =>
    Word32.InRange i
  | .copy i j => Word32.InRange i ∧ Word32.InRange j
  | .readBatch count start => Word32.InRange count ∧ ∀ i, start = some i → Word32.InRange i
  | .push v => v.IsPrimitive = true
  | _ => False

/-- What an operation makes of a list; nothing, if it names a place that is not there. -/
def onList : StackOp α → List Val → Option (List Val)
  | .setTop n, s =>
    if 0 ≤ n then some (s.take n.toNat ++ List.replicate (n.toNat - s.length) .nil)
    else (Index.place? n s.length).map fun k => s.take (k + 1)
  | .pop count, s | .popValues count, s =>
    if count = 0 then some s else (Index.window? count none s.length).map s.take
  | .remove i, s => (Index.place? i s.length).map s.eraseIdx
  | .duplicate i, s => (Index.place? i s.length).map fun k => s ++ [s.getD k .nil]
  | .replace i, s => (Index.place? i s.length).map fun k => (s.set k (s.getLastD .nil)).dropLast
  | .copy i j, s =>
    (Index.place? i s.length).bind fun k =>
      (Index.place? j s.length).map fun l => s.set l (s.getD k .nil)
  | .push v, s => some (s ++ [v.copied])
  | .read i, s | .typeOf i, s => (Index.place? i s.length).map fun _ => s
  | .readBatch count start, s =>
    if count = 0 then some s else (Index.window? count start s.length).map fun _ => s
  | _, s => some s

/-! ### What each operation makes of a list -/

section Equations

variable {l : List Val} {i j n : Int} {start : Option Int} {v : Value}

theorem onList_setTop : (setTop n).onList l =
    if 0 ≤ n then some (l.take n.toNat ++ List.replicate (n.toNat - l.length) .nil)
    else (Index.place? n l.length).map fun k => l.take (k + 1) := rfl

theorem onList_pop : (pop n).onList l =
    if n = 0 then some l else (Index.window? n none l.length).map l.take := rfl

theorem onList_popValues : (popValues n).onList l = (pop n).onList l := rfl

theorem onList_remove : (remove i).onList l = (Index.place? i l.length).map l.eraseIdx := rfl

theorem onList_duplicate : (duplicate i).onList l =
    (Index.place? i l.length).map fun k => l ++ [l.getD k .nil] := rfl

theorem onList_replace : (replace i).onList l =
    (Index.place? i l.length).map fun k => (l.set k (l.getLastD .nil)).dropLast := rfl

theorem onList_copy : (copy i j).onList l = (Index.place? i l.length).bind fun k =>
    (Index.place? j l.length).map fun m => l.set m (l.getD k .nil) := rfl

theorem onList_read : (read i).onList l = (Index.place? i l.length).map fun _ => l := rfl

theorem onList_typeOf : (typeOf i).onList l = (Index.place? i l.length).map fun _ => l := rfl

theorem onList_readBatch : (readBatch n start).onList l =
    if n = 0 then some l else (Index.window? n start l.length).map fun _ => l := rfl

end Equations

/-- The values of a list that an operation reads. -/
def seen : StackOp α → List Val → List Val
  | .read i, s => ((Index.place? i s.length).map fun k => s.getD k .nil).toList
  | .readBatch count start, s =>
    ((Index.window? count start s.length).map fun k => (s.drop k).take count.toNat).getD []
  | .popValues count, s => ((Index.window? count none s.length).map s.drop).getD []
  | _, _ => []

/-- The answer is that of the list: the type of a value, or what the host sees of values at their
places. -/
def Answers (w : World σ μ) (c : Context) (s : List Val) : {α : Type} → StackOp α → α → Prop
  | _, .typeOf i, t => ∃ k, Index.place? i s.length = some k ∧ t = (s.getD k .nil).tag
  | _, .read i, v =>
    ∃ k, Index.place? i s.length = some k ∧ w.Shows c (k + 1 : Nat) (s.getD k .nil) v
  | _, .readBatch count start, vs =>
    count = 0 ∧ vs = [] ∨ ∃ k, Index.window? count start s.length = some k ∧
      w.ShowsAll c (k + 1 : Nat) ((s.drop k).take count.toNat) vs
  | _, .popValues count, vs =>
    count = 0 ∧ vs = [] ∨ ∃ k, Index.window? count none s.length = some k ∧
      w.ShowsAll c (k + 1 : Nat) (s.drop k) vs
  | _, _, _ => True

/-- How an operation on a stack ends: as it does on a list, or with a complaint about an index, the
stack being what it was. -/
def Agrees (w : World σ μ) (c : Context) (s : List Val) (o : StackOp α)
    (p : Except Error α × World σ μ) : Prop :=
  match o.onList s with
  | some s' => p.2.shown c = some s'.toArray ∧ ∃ a, p.1 = .ok a ∧ o.Answers w c s a
  | none => p.2.shown c = some s.toArray ∧ ∃ i, p.1 = .error (.index i s.length)

/-- How many slots an operation reserves on a stack that is so deep. -/
def room (depth : Nat) : StackOp α → Nat
  | .setTop n => (n - depth).toNat
  | .duplicate _ => 1
  | .push _ => 3
  | .read _ | .readBatch .. | .popValues _ => 2
  | _ => 0

/-- No reservation is refused, and no thread is read whose interpreter has lost its record. -/
structure Unhindered (w : World σ μ) (c : Context) (o : StackOp α) : Prop where
  granted : 0 < o.room (w.depth c) → w.Grants c (o.room (w.depth c))
  legible : ∀ u ∈ o.seen (w.slots c).toList, u.tag = .thread → (w.heap c.vm).owner? ≠ none

end StackOp

namespace Context

open StackOp

variable {l : List Val} {i : Int} {k : Nat}

/-! ### Each operation -/

theorem top_listed (hs : w.shown c = some l.toArray) : c.top w = (.ok (l.length : Int), w) := by
  unfold top
  rw [depth_of_shown hs, List.size_toArray]

theorem resolve_listed (hs : w.shown c = some l.toArray) (hl : (l.length : Int) ≤ Word32.greatest)
    (hi : Word32.InRange i) :
    c.resolve i w = match Index.place? i l.length with
      | some k => (.ok (k + 1 : Nat), w)
      | none => (.error (.index i l.length), w) := by
  unfold resolve
  rw [Api.bind_ok (top_listed hs), Index.resolve_place hi hl]
  cases Index.place? i l.length <;> rfl

theorem at_listed (hs : w.shown c = some l.toArray) (k : Nat) :
    w.at_ c (k + 1 : Nat) = l.getD k .nil := by
  unfold at_
  rw [slots_of_shown hs, show ((k + 1 : Nat) - 1 : Int).toNat = k by omega, Array.getD_eq_getD_getElem?,
    List.getElem?_toArray, List.getD_eq_getElem?_getD]

theorem cut_listed (hs : w.shown c = some l.toArray) (n : Nat) :
    (c.cut n w).2.shown c = some (l.take n ++ List.replicate (n - l.length) Val.nil).toArray := by
  change (w.modifySlots c _).shown c = _
  rw [shown_modifySlots_self, hs]
  refine congrArg some (Array.ext' ?_)
  simp

end Context

namespace StackOp

open Context

variable {α : Type} {l l' : List Val} {o : StackOp α} {i n : Int}

theorem agrees_ok {a : α} {m : List Val} (h : o.onList l = some m)
    (hw : w'.shown c = some m.toArray)
    (ha : o.Answers w c l a) : o.Agrees w c l (.ok a, w') := by
  unfold Agrees
  rw [h]
  exact ⟨hw, a, rfl, ha⟩

theorem agrees_index (h : o.onList l = none) (hw : w'.shown c = some l.toArray) (i : Int) :
    o.Agrees w c l (.error (.index i l.length), w') := by
  unfold Agrees
  rw [h]
  exact ⟨hw, i, rfl⟩

/-- An operation that begins with an index goes on with the position that this names. -/
theorem agrees_resolve {k : Int → Api σ μ α} (hs : w.shown c = some l.toArray)
    (hl : (l.length : Int) ≤ Word32.greatest) (hi : Word32.InRange i)
    (hnone : Index.place? i l.length = none → o.onList l = none)
    (hsome : ∀ p, Index.place? i l.length = some p → o.Agrees w c l (k (p + 1 : Nat) w)) :
    o.Agrees w c l ((c.resolve i >>= k) w) := by
  have hr := resolve_listed hs hl hi
  cases hp : Index.place? i l.length with
  | none =>
    rw [hp] at hr
    rw [Api.bind_error hr]
    exact agrees_index (hnone hp) hs i
  | some p =>
    rw [hp] at hr
    rw [Api.bind_ok hr]
    exact hsome p hp

/-- An operation that begins with a window goes on with the position where this begins. -/
theorem agrees_window {count : Int} {start : Option Int} {k : Int → Api σ μ α}
    (hs : w.shown c = some l.toArray) (hl : (l.length : Int) ≤ Word32.greatest)
    (hc : Word32.InRange count) (h0 : count ≠ 0) (hi : ∀ i, start = some i → Word32.InRange i)
    (hnone : Index.window? count start l.length = none → o.onList l = none)
    (hsome : ∀ p, Index.window? count start l.length = some p → o.Agrees w c l (k (p + 1 : Nat) w)) :
    o.Agrees w c l ((Api.check (Index.resolveWindow count start l.length) >>= k) w) := by
  obtain ⟨hok, herror⟩ := Index.resolveWindow_window hc h0 hi hl
  cases hp : Index.window? count start l.length with
  | none =>
    obtain ⟨j, hj⟩ := herror hp
    rw [hj, Api.bind_error (rfl : Api.check (.error (.index j l.length)) w = (_, w))]
    exact agrees_index (hnone hp) hs j
  | some p =>
    rw [hok p hp, Api.bind_ok (rfl : Api.check (.ok ((p + 1 : Nat) : Int)) w = (_, w))]
    exact hsome p hp

variable (hs : w.shown c = some l.toArray) (hl : (l.length : Int) ≤ Word32.greatest)

include hs hl

theorem agrees_setTop (ho : (setTop n).IsListed) (hu : (setTop n).Unhindered w c) :
    (setTop n).Agrees w c l (c.setTop n w) := by
  unfold Context.setTop
  by_cases hn : n < 0
  · rw [if_pos hn]
    refine agrees_resolve hs hl ho (fun hp => ?_) fun p hp => ?_
    · simp only [onList_setTop, if_neg (Int.not_le.mpr hn), hp, Option.map_none]
    · have hlow := Index.place?_lt hp
      dsimp only
      rw [Api.bind_ok (top_listed hs), if_neg (by omega)]
      refine agrees_ok (a := ()) ?_ (cut_listed hs (p + 1)) trivial
      simp only [onList_setTop, if_neg (Int.not_le.mpr hn), hp, Option.map_some]
      rw [show p + 1 - l.length = 0 by omega, List.replicate_zero, List.append_nil]
  · have hlist : (setTop n).onList l =
        some (l.take n.toNat ++ List.replicate (n.toNat - l.length) .nil) := by
      simp only [onList_setTop, if_pos (Int.not_lt.mp hn)]
    have hdone : ∀ w₁ : World σ μ, w₁.shown c = some l.toArray →
        (setTop n).Agrees w c l (c.cut n.toNat w₁) := fun w₁ h₁ =>
      agrees_ok (a := ()) hlist (cut_listed h₁ n.toNat) trivial
    rw [if_neg hn]
    change (setTop n).Agrees w c l ((c.top >>= fun depth => do
      if depth < n then c.checkStack (n - depth)
      c.cut n.toNat) w)
    rw [Api.bind_ok (top_listed hs)]
    split
    next hlow =>
      have hroom : (setTop n).room (w.depth c) = (n - l.length).toNat := by
        rw [depth_of_shown hs]
        rfl
      have hg := hu.granted (by rw [hroom]; omega)
      rw [hroom] at hg
      obtain ⟨w₁, hgrown, hi⟩ := checkStack_intact hg (show n - l.length ≤ _ by omega)
      rw [Api.bind_ok hgrown]
      exact hdone w₁ ((hi.shown c).trans hs)
    next => exact hdone w hs

theorem agrees_pop (ho : (pop n).IsListed) : (pop n).Agrees w c l (c.pop n w) := by
  unfold Context.pop
  by_cases h0 : n = 0
  · rw [if_pos h0]
    refine agrees_ok (a := ()) ?_ hs trivial
    simp only [onList_pop, if_pos h0]
  · rw [if_neg h0, Api.bind_ok (top_listed hs), Api.discard_eq, bind_assoc]
    refine agrees_window hs hl ho h0 nofun (fun hp => ?_) fun p hp => ?_
    · simp only [onList_pop, if_neg h0, hp, Option.map_none]
    · have hlast := Index.window?_last hp
      obtain ⟨hcount, -⟩ := Index.window?_le hp
      have hcut := cut_listed hs p
      rw [show p - l.length = 0 by omega, List.replicate_zero, List.append_nil] at hcut
      rw [show ((l.length : Int) - n).toNat = p by omega]
      refine agrees_ok (a := ()) ?_ hcut trivial
      simp only [onList_pop, if_neg h0, hp, Option.map_some]

theorem agrees_remove (ho : (remove i).IsListed) : (remove i).Agrees w c l (c.remove i w) := by
  refine agrees_resolve hs hl ho (fun hp => ?_) fun p hp => ?_
  · simp only [onList_remove, hp, Option.map_none]
  · refine agrees_ok (a := ()) (m := l.eraseIdx p) ?_ ?_ trivial
    · simp only [onList_remove, hp, Option.map_some]
    · rw [shown_modifySlots_self, hs, show ((p + 1 : Nat) - 1 : Int).toNat = p by omega]
      refine congrArg some (Array.ext' ?_)
      simp

theorem agrees_duplicate (ho : (duplicate i).IsListed) (hu : (duplicate i).Unhindered w c) :
    (duplicate i).Agrees w c l (c.duplicate i w) := by
  refine agrees_resolve hs hl ho (fun hp => ?_) fun p hp => ?_
  · simp only [onList_duplicate, hp, Option.map_none]
  · obtain ⟨w₁, hgrown, hi⟩ := checkStack_intact (hu.granted Nat.one_pos)
      (show (1 : Int) ≤ (1 : Nat) by decide)
    rw [Api.bind_ok hgrown]
    refine agrees_ok (a := ()) (m := l ++ [l.getD p .nil]) ?_ ?_ trivial
    · simp only [onList_duplicate, hp, Option.map_some]
    · have h₁ := (hi.shown c).trans hs
      rw [shown_push, if_pos rfl, h₁, at_listed h₁]
      refine congrArg some (Array.ext' ?_)
      simp

theorem agrees_replace (ho : (replace i).IsListed) : (replace i).Agrees w c l (c.replace i w) := by
  refine agrees_resolve hs hl ho (fun hp => ?_) fun p hp => ?_
  · simp only [onList_replace, hp, Option.map_none]
  · refine agrees_ok (a := ()) (m := (l.set p (l.getLastD .nil)).dropLast) ?_ ?_ trivial
    · simp only [onList_replace, hp, Option.map_some]
    · rw [shown_modifySlots_self, hs, show ((p + 1 : Nat) - 1 : Int).toNat = p by omega]
      refine congrArg some (Array.ext' ?_)
      simp [List.getLastD_eq_getLast?]

theorem agrees_copy {j : Int} (ho : (copy i j).IsListed) :
    (copy i j).Agrees w c l (c.copy i j w) := by
  refine agrees_resolve hs hl ho.1 (fun hp => ?_) fun p hp => ?_
  · simp only [onList_copy, hp, Option.bind_none]
  refine agrees_resolve hs hl ho.2 (fun hq => ?_) fun q hq => ?_
  · simp only [onList_copy, hp, hq, Option.bind_some, Option.map_none]
  · refine agrees_ok (a := ()) (m := l.set q (l.getD p .nil)) ?_ ?_ trivial
    · simp only [onList_copy, hp, hq, Option.bind_some, Option.map_some]
    · rw [shown_modifySlots_self, hs, show ((p + 1 : Nat) - 1 : Int).toNat = p by omega,
        show ((q + 1 : Nat) - 1 : Int).toNat = q by omega]
      refine congrArg some (Array.ext' ?_)
      simp

theorem agrees_typeOf (ho : (typeOf i).IsListed) : (typeOf i).Agrees w c l (c.typeOf i w) := by
  refine agrees_resolve hs hl ho (fun hp => ?_) fun p hp => ?_
  · simp only [onList_typeOf, hp, Option.map_none]
  · refine agrees_ok (m := l) ?_ hs ⟨p, hp, congrArg Val.tag (at_listed hs p)⟩
    simp only [onList_typeOf, hp, Option.map_some]

omit hl in
theorem agrees_push {v : Value} (ho : (push v).IsListed) (hu : (push v).Unhindered w c) :
    (push v).Agrees w c l (c.push v w) := by
  obtain ⟨w₁, hgrown, hi⟩ := checkStack_intact (hu.granted (Nat.zero_lt_succ 2))
    (show (3 : Int) ≤ (3 : Nat) by decide)
  have hpush : (w₁.push c v.copied).shown c = some (l ++ [v.copied]).toArray := by
    rw [shown_push, if_pos rfl, hi.shown, hs]
    refine congrArg some (Array.ext' ?_)
    simp
  unfold Context.push
  rw [Api.bind_ok hgrown]
  cases v with
  | nil | bool | int | float | text => exact agrees_ok (a := ()) rfl hpush trivial
  | _ => cases ho

theorem agrees_read (ho : (read i).IsListed) (hu : (read i).Unhindered w c) :
    (read i).Agrees w c l (c.read i w) := by
  have hr := resolve_listed hs hl ho
  cases hp : Index.place? i l.length with
  | none =>
    rw [hp] at hr
    unfold Context.read
    rw [Api.bind_error hr]
    refine agrees_index ?_ hs i
    simp only [onList_read, hp, Option.map_none]
  | some p =>
    rw [hp] at hr
    have hlegible : ∀ t, w.at_ c (p + 1 : Nat) = .thread t → (w.heap c.vm).owner? ≠ none := by
      intro t ht
      rw [at_listed hs] at ht
      refine hu.legible _ ?_ (congrArg Val.tag ht)
      simp only [seen, slots_of_shown hs, hp, Option.map_some, Option.toList_some, List.mem_singleton]
    obtain ⟨v, w₁, hread, hi, -⟩ := read_intact hr (hu.granted (Nat.zero_lt_succ 1)) hlegible
    obtain ⟨pos, hpos, -, -, -, hshows⟩ := read_ok hread
    obtain rfl : ((p + 1 : Nat) : Int) = pos := Except.ok.inj (Prod.mk.inj (hr.symm.trans hpos)).1
    rw [at_listed hs] at hshows
    rw [hread]
    refine agrees_ok ?_ ((hi.shown c).trans hs) ⟨p, hp, hshows⟩
    simp only [onList_read, hp, Option.map_some]

/-- A window on the stack is read. -/
theorem readBatch_window {count : Int} {start : Option Int} {p : Nat} (h0 : count ≠ 0)
    (ho : (readBatch count start).IsListed) (hg : w.Grants c 2)
    (hp : Index.window? count start l.length = some p)
    (ht : ∀ u ∈ (l.drop p).take count.toNat, u.tag = .thread → (w.heap c.vm).owner? ≠ none) :
    ∃ vs w', c.readBatch count start w = (.ok vs, w') ∧ w.Intact w' ∧
      w.ShowsAll c (p + 1 : Nat) ((l.drop p).take count.toNat) vs := by
  obtain ⟨hcount, hfits⟩ := Index.window?_le hp
  have hfirst := (Index.resolveWindow_window ho.1 h0 ho.2 hl).1 p hp
  have hdrop : l.toArray.toList.drop ((p + 1 : Nat) - 1 : Int).toNat =
      (l.drop p).take count.toNat ++ (l.drop p).drop count.toNat := by
    rw [List.take_append_drop, show ((p + 1 : Nat) - 1 : Int).toNat = p by omega]
  have hlength : ((l.drop p).take count.toNat).length = count.toNat := by
    rw [List.length_take, List.length_drop]
    omega
  obtain ⟨vs, w₁, hread, hi⟩ := readFrom_intact [] hg (by omega) hs hdrop fun t hmem =>
    ht _ hmem rfl
  rw [hlength] at hread
  have hbatch : c.readBatch count start w = (.ok vs, w₁) := by
    unfold Context.readBatch
    rw [if_neg h0, Api.bind_ok (top_listed hs), hfirst,
      Api.bind_ok (rfl : Api.check (.ok ((p + 1 : Nat) : Int)) w = (_, w))]
    exact hread
  rw [← hlength] at hread
  obtain ⟨new, rfl, hnew⟩ := readFrom_ok (by omega) (by rwa [slots_of_shown hs]) hread
  exact ⟨_, w₁, hbatch, hi, hnew⟩

theorem readBatch_error {count : Int} {start : Option Int} (h0 : count ≠ 0)
    (ho : (readBatch count start).IsListed) (hp : Index.window? count start l.length = none) :
    ∃ j : Int, c.readBatch count start w = (.error (.index j l.length), w) := by
  obtain ⟨j, hj⟩ := (Index.resolveWindow_window ho.1 h0 ho.2 hl).2 hp
  refine ⟨j, ?_⟩
  unfold Context.readBatch
  rw [if_neg h0, Api.bind_ok (top_listed hs), hj,
    Api.bind_error (rfl : Api.check (.error (.index j l.length)) w = (_, w))]

theorem agrees_readBatch {count : Int} {start : Option Int} (ho : (readBatch count start).IsListed)
    (hu : (readBatch count start).Unhindered w c) :
    (readBatch count start).Agrees w c l (c.readBatch count start w) := by
  by_cases h0 : count = 0
  · unfold Context.readBatch
    rw [if_pos h0]
    refine agrees_ok ?_ hs (.inl ⟨h0, rfl⟩)
    simp only [onList_readBatch, if_pos h0]
  cases hp : Index.window? count start l.length with
  | none =>
    obtain ⟨j, hj⟩ := readBatch_error hs hl h0 ho hp
    rw [hj]
    refine agrees_index ?_ hs j
    simp only [onList_readBatch, if_neg h0, hp, Option.map_none]
  | some p =>
    obtain ⟨vs, w₁, hread, hi, hshows⟩ := readBatch_window hs hl h0 ho
      (hu.granted (Nat.zero_lt_succ 1)) hp fun u hmem => hu.legible u (by
        simpa only [seen, slots_of_shown hs, hp, Option.map_some, Option.getD_some] using hmem)
    rw [hread]
    refine agrees_ok ?_ ((hi.shown c).trans hs) (.inr ⟨p, hp, hshows⟩)
    simp only [onList_readBatch, if_neg h0, hp, Option.map_some]

theorem agrees_popValues (ho : (popValues n).IsListed) (hu : (popValues n).Unhindered w c) :
    (popValues n).Agrees w c l (c.popValues n w) := by
  have ho' : (readBatch n none).IsListed := ⟨ho, nofun⟩
  by_cases h0 : n = 0
  · subst h0
    exact agrees_ok (a := []) (m := l) rfl hs (.inl ⟨rfl, rfl⟩)
  cases hp : Index.window? n none l.length with
  | none =>
    obtain ⟨j, hj⟩ := readBatch_error hs hl h0 ho' hp
    unfold Context.popValues
    rw [Api.bind_error hj]
    refine agrees_index ?_ hs j
    simp only [onList_popValues, onList_pop, if_neg h0, hp, Option.map_none]
  | some p =>
    have hlast : (l.drop p).take n.toNat = l.drop p := by
      have hend := Index.window?_last hp
      rw [List.take_of_length_le (by rw [List.length_drop]; omega)]
    obtain ⟨vs, w₁, hread, hi, hshows⟩ := readBatch_window hs hl h0 ho'
      (hu.granted (Nat.zero_lt_succ 1)) hp fun u hmem => hu.legible u (by
        rw [hlast] at hmem
        simpa only [seen, slots_of_shown hs, hp, Option.map_some, Option.getD_some] using hmem)
    have hpop := agrees_pop (n := n) ((hi.shown c).trans hs) hl ho
    have hlist : (pop n).onList l = some (l.take p) := by
      simp only [onList_pop, if_neg h0, hp, Option.map_some]
    unfold Agrees at hpop
    rw [hlist] at hpop
    obtain ⟨hshown, ⟨⟩, hdone, -⟩ := hpop
    unfold Context.popValues
    rw [Api.bind_ok hread, Api.bind_ok (Prod.ext hdone rfl : c.pop n w₁ = (.ok (), _))]
    rw [hlast] at hshows
    exact agrees_ok hlist hshown (.inr ⟨p, hp, hshows⟩)

/-- An operation that a list has does to a stack what it does to the list. -/
theorem agrees (ho : o.IsListed) (hu : o.Unhindered w c) : o.Agrees w c l (o.perform c w) := by
  cases o
  case setTop n => exact agrees_setTop hs hl ho hu
  case pop n => exact agrees_pop hs hl ho
  case remove i => exact agrees_remove hs hl ho
  case duplicate i => exact agrees_duplicate hs hl ho hu
  case replace i => exact agrees_replace hs hl ho
  case copy i j => exact agrees_copy hs hl ho
  case push v => exact agrees_push hs ho hu
  case read i => exact agrees_read hs hl ho hu
  case readBatch count start => exact agrees_readBatch hs hl ho hu
  case popValues n => exact agrees_popValues hs hl ho hu
  case typeOf i => exact agrees_typeOf hs hl ho
  all_goals exact absurd ho id

end StackOp

/-! ### Depths are 32-bit numbers -/

/-- A stack is not larger than one may be. -/
def World.Bounded (w : World σ μ) (c : Context) : Prop :=
  ∀ th, w.thread? c = some th → th.size ≤ Thread.errorSize

/-- What is bounded stays so. -/
def World.KeepsBounds (w w' : World σ μ) : Prop := ∀ c, w.Bounded c → w'.Bounded c

instance : IsPreorder (World σ μ) World.KeepsBounds where
  refl _ _ h := h
  trans _ _ _ h k c hb := k c (h c hb)

namespace World

theorem keepsBounds_modifyThread (w : World σ μ) (d : Context) {f : Thread → Thread}
    (hf : ∀ t : Thread, (f t).size ≤ max t.size Thread.errorSize) :
    w.KeepsBounds (w.modifyThread d f) := by
  intro c h th ht
  rw [thread?_modifyThread] at ht
  split at ht
  · obtain ⟨t, hw, rfl⟩ := Option.map_eq_some_iff.mp ht
    exact Nat.le_trans (hf t) (Nat.max_le.mpr ⟨h t hw, Nat.le_refl _⟩)
  · exact h th ht

theorem keepsBounds_modifySlots (w : World σ μ) (d : Context) (f : Array Val → Array Val) :
    w.KeepsBounds (w.modifySlots d f) := by
  rw [modifySlots_eq]
  exact keepsBounds_modifyThread w d fun t => by
    rw [Thread.size_modifyTop]
    exact Nat.le_max_left ..

theorem keepsBounds_reserve (w : World σ μ) (d : Context) (n : Nat) :
    w.KeepsBounds (w.reserve d n).2 := by
  rw [reserve_world]
  refine keepsBounds_modifyThread w d fun t => ?_
  unfold Thread.reserve
  split
  next size hg =>
    split
    · exact Nat.le_max_left ..
    · rw [Thread.size_modifyTop]
      exact (Thread.grownSize_grown (.inl hg)).2
  next size hg =>
    split
    · exact Nat.le_max_left ..
    · exact (Thread.grownSize_grown (.inr hg)).2

theorem keepsBounds_of_thread? (h : ∀ c, w'.thread? c = w.thread? c) : w.KeepsBounds w' :=
  fun c hb th ht => hb th ((h c).symm.trans ht)

theorem looks_keepsBounds : Looks (KeepsBounds (σ := σ) (μ := μ)) where
  reserve := keepsBounds_reserve
  anchor w t := keepsBounds_of_thread? fun d => thread?_anchor w d t
  releaseAll w vs := keepsBounds_of_thread? fun d => thread?_releaseAll w d vs

/-- What is reserved lies within the bounds. -/
theorem Grants.depth_le {n : Nat} (h : w.Grants c n) (hb : w.Bounded c) :
    w.depth c + n ≤ Thread.errorSize := by
  have hsize : (w.thread c).size ≤ Thread.errorSize := by
    rw [thread_eq]
    cases ht : w.thread? c with
    | none => decide
    | some th => exact hb th ht
  obtain ⟨size, hg, -, -⟩ := Thread.reserve_ok (grants_iff.mp h).2
  have hroom := Thread.grownSize_room hg
  obtain ⟨-, hgrown⟩ := Thread.grownSize_grown (.inl hg)
  rw [Nat.max_eq_right hsize] at hgrown
  have hused : w.depth c ≤ (w.thread c).used := Nat.le_add_left ..
  omega

end World

namespace Context

open Api

variable (c : Context)

theorem keepsBounds_checkStack (n : Int) : Keeps KeepsBounds (c.checkStack n : Api σ μ Unit) :=
  looks_keepsBounds.keeps_checkStack c n

theorem keepsBounds_resolve (i : Int) : Keeps KeepsBounds (c.resolve i : Api σ μ Int) :=
  looks_keepsBounds.keeps_resolve c i

theorem keepsBounds_slots (f : World σ μ → Array Val → Array Val) :
    Keeps KeepsBounds (Api.modify fun w => w.modifySlots c (f w)) :=
  .modify fun w => keepsBounds_modifySlots w c (f w)

theorem keepsBounds_top : Keeps KeepsBounds (c.top : Api σ μ Int) := looks_keepsBounds.keeps_top c

theorem keepsBounds_cut (n : Nat) : Keeps KeepsBounds (c.cut n : Api σ μ Unit) :=
  c.keepsBounds_slots fun _ => _

theorem keepsBounds_setTop (n : Int) : Keeps KeepsBounds (c.setTop n : Api σ μ Unit) := by
  have hgo : ∀ m : Int, Keeps KeepsBounds (do
      let depth ← c.top
      if depth < m then c.checkStack (m - depth)
      c.cut m.toNat : Api σ μ Unit) := fun m =>
    c.keepsBounds_top.bind fun _ => .ite ((c.keepsBounds_checkStack _).bind fun _ =>
      c.keepsBounds_cut _) (c.keepsBounds_cut _)
  unfold setTop
  exact .ite ((c.keepsBounds_resolve n).bind hgo) ((Keeps.pure n).bind hgo)

theorem keepsBounds_pop (n : Int) : Keeps KeepsBounds (c.pop n : Api σ μ Unit) :=
  looks_keepsBounds.keeps_pop c (fun w f => keepsBounds_modifySlots w c f) n

theorem keepsBounds_read (i : Int) : Keeps KeepsBounds (c.read i : Api σ μ Value) :=
  looks_keepsBounds.keeps_read c i

theorem keepsBounds_readBatch (n : Int) (start : Option Int) :
    Keeps KeepsBounds (c.readBatch n start : Api σ μ (List Value)) :=
  looks_keepsBounds.keeps_readBatch c n start

end Context

namespace StackOp

theorem keepsBounds {α : Type} {o : StackOp α} (ho : o.IsListed) :
    Api.Keeps KeepsBounds (o.perform c : Api σ μ α) := by
  cases o
  case setTop n => exact c.keepsBounds_setTop n
  case pop n => exact c.keepsBounds_pop n
  case remove i => exact (c.keepsBounds_resolve i).bind fun _ => c.keepsBounds_slots _
  case duplicate i =>
    exact (c.keepsBounds_resolve i).bind fun _ => (c.keepsBounds_checkStack 1).bind fun _ =>
      c.keepsBounds_slots _
  case replace i => exact (c.keepsBounds_resolve i).bind fun _ => c.keepsBounds_slots _
  case copy i j =>
    exact (c.keepsBounds_resolve i).bind fun _ => (c.keepsBounds_resolve j).bind fun _ =>
      c.keepsBounds_slots _
  case push v =>
    refine (c.keepsBounds_checkStack 3).bind fun _ => ?_
    cases v with
    | nil | bool | int | float | text => exact c.keepsBounds_slots _
    | _ => cases ho
  case read i => exact c.keepsBounds_read i
  case readBatch count start => exact c.keepsBounds_readBatch count start
  case popValues n =>
    exact (c.keepsBounds_readBatch n none).bind fun _ => (c.keepsBounds_pop n).bind fun _ => .pure _
  case typeOf i => exact (c.keepsBounds_resolve i).bind fun _ => Api.Keeps.get.bind fun _ => .pure _
  all_goals exact absurd ho id

variable {α : Type} {o : StackOp α} {l l' : List Val}

/-- A list gets longer by what there is room for. -/
theorem length_onList (ho : o.IsListed) (h : o.onList l = some l') :
    l'.length ≤ l.length + o.room l.length := by
  have hmap : ∀ {p : Option Nat} {f : Nat → List Val} {n : Nat}, p.map f = some l' →
      (∀ k, (f k).length ≤ n) → l'.length ≤ n := by
    intro p f n hp hf
    obtain ⟨k, -, rfl⟩ := Option.map_eq_some_iff.mp hp
    exact hf k
  have htake : ∀ k, (l.take k).length ≤ l.length := fun _ => List.length_take_le' ..
  cases o
  case setTop n =>
    rw [onList_setTop] at h
    split at h
    · obtain rfl := Option.some.inj h
      simp only [List.length_append, List.length_take, List.length_replicate, room]
      omega
    · exact Nat.le_add_right_of_le (hmap h fun k => htake (k + 1))
  case pop n | popValues n =>
    replace h := (onList_pop (l := l) (n := n)).symm.trans h
    split at h
    · obtain rfl := Option.some.inj h
      exact Nat.le_add_right ..
    · exact Nat.le_add_right_of_le (hmap h htake)
  case remove i => exact hmap h fun k => List.length_eraseIdx_le l k
  case duplicate i => exact hmap h fun k => Nat.le_of_eq List.length_append
  case replace i =>
    refine hmap h fun k => ?_
    rw [List.length_dropLast, List.length_set]
    exact Nat.sub_le ..
  case copy i j =>
    obtain ⟨k, -, h⟩ := Option.bind_eq_some_iff.mp h
    exact hmap h fun m => by rw [List.length_set]; exact Nat.le_add_right ..
  case push v =>
    obtain rfl := Option.some.inj h
    simp [room]
  case read i | typeOf i => exact hmap h fun _ => Nat.le_add_right ..
  case readBatch count start =>
    rw [onList_readBatch] at h
    split at h
    · obtain rfl := Option.some.inj h
      exact Nat.le_add_right ..
    · exact hmap h fun _ => Nat.le_add_right ..
  all_goals exact absurd ho id

theorem length_le (ho : o.IsListed) (hu : o.Unhindered w c) (hb : w.Bounded c)
    (hs : w.shown c = some l.toArray) (hl : (l.length : Int) ≤ Word32.greatest)
    (h : o.onList l = some l') : (l'.length : Int) ≤ Word32.greatest := by
  have hlength := length_onList ho h
  have hdepth : w.depth c = l.length := depth_of_shown hs
  have hgreatest : (Thread.errorSize : Int) ≤ Word32.greatest := by decide
  rcases Nat.eq_zero_or_pos (o.room l.length) with h0 | hroom
  · omega
  · have hg := hu.granted (by rwa [hdepth])
    have hle := hg.depth_le hb
    rw [hdepth] at hle
    omega

/-! ### Any number of operations -/

/-- The operations of a sequence are unhindered, each in the world that the ones before it have
left. -/
def AllUnhindered (c : Context) : List (Σ α, StackOp α) → World σ μ → Prop
  | [], _ => True
  | ⟨_, o⟩ :: os, w => o.Unhindered w c ∧ AllUnhindered c os (o.perform c w).2

/-- A sequence of operations on a stack goes as on a list, answer by answer; what fails is passed
over. -/
inductive AllAgree (c : Context) : List (Σ α, StackOp α) → World σ μ → List Val → Prop where
  | nil {w : World σ μ} {l : List Val} (hs : w.shown c = some l.toArray) : AllAgree c [] w l
  | cons {α : Type} {o : StackOp α} {os : List (Σ α, StackOp α)} {w : World σ μ} {l : List Val}
    (hs : w.shown c = some l.toArray) (h : o.Agrees w c l (o.perform c w))
    (ht : AllAgree c os (o.perform c w).2 ((o.onList l).getD l)) :
    AllAgree c (⟨α, o⟩ :: os) w l

/-- Whatever the operations of a list are given, a stack goes through them as the list does, if no
reservation is refused and no thread is read whose interpreter has lost its record. -/
theorem refines_list {os : List (Σ α, StackOp α)} (ho : ∀ o ∈ os, o.2.IsListed)
    (hb : w.Bounded c) (hs : w.shown c = some l.toArray) (hl : (l.length : Int) ≤ Word32.greatest)
    (hu : AllUnhindered c os w) : AllAgree c os w l := by
  induction os generalizing w l with
  | nil => exact .nil hs
  | cons o os ih =>
    obtain ⟨α, o⟩ := o
    have hlisted := ho _ (List.mem_cons_self ..)
    have hagrees := agrees hs hl hlisted hu.1
    refine .cons hs hagrees (ih (fun o hmem => ho o (List.mem_cons_of_mem _ hmem))
      ((keepsBounds hlisted w) c hb) ?_ ?_ hu.2)
    · unfold Agrees at hagrees
      split at hagrees <;> next h => rw [h]; exact hagrees.1
    · cases h : o.onList l with
      | none => exact hl
      | some l' => exact length_le hlisted hu.1 hb hs hl h

/-- Both ends of the stack, a place that is not there, and the end of what is there. -/
theorem refines_list_spawned :
    AllAgree ⟨0, 0⟩ [⟨_, setTop 3⟩, ⟨_, push (.int 7)⟩, ⟨_, copy (-1) 2⟩, ⟨_, remove 5⟩,
      ⟨_, replace (-1)⟩, ⟨_, readBatch 2 (some 1)⟩, ⟨_, popValues 3⟩, ⟨_, pop 1⟩]
      Context.spawned [.thread 1] := by
  have hnumber : ∀ i : Int, -9 ≤ i → i ≤ 9 → Word32.InRange i := fun i hlow hhigh => by
    unfold Word32.InRange Word32.least Word32.greatest
    omega
  refine refines_list ?_ (fun th ht => ?_) (by decide +kernel) (by decide) ?_
  · simp only [List.forall_mem_cons, IsListed]
    exact ⟨hnumber _ (by decide) (by decide), rfl,
      ⟨hnumber _ (by decide) (by decide), hnumber _ (by decide) (by decide)⟩,
      hnumber _ (by decide) (by decide), hnumber _ (by decide) (by decide),
      ⟨hnumber _ (by decide) (by decide), fun i hi => Option.some.inj hi ▸ hnumber 1 (by decide) (by decide)⟩,
      hnumber _ (by decide) (by decide), hnumber _ (by decide) (by decide), List.forall_mem_nil _⟩
  · obtain rfl := Option.some.inj ht
    decide
  · repeat refine ⟨⟨by decide +kernel, by decide +kernel⟩, ?_⟩
    trivial

/-- A thread is not read once its interpreter has lost its record, though its place is there and
nothing is refused. -/
theorem readBatch_unrecorded :
    ∃ w', (unmarked #[.nil, .thread 0]).shown ⟨0, 0⟩ = some #[.nil, .thread 0] ∧
      (unmarked #[.nil, .thread 0]).Grants ⟨0, 0⟩ 3 ∧ (readBatch 2 none).IsListed ∧
      (readBatch 2 none).onList [.nil, .thread 0] = some [.nil, .thread 0] ∧
      (readBatch 2 none).perform ⟨0, 0⟩ (unmarked #[.nil, .thread 0]) =
        (.error Context.unrecorded, w') :=
  ⟨_, by decide +kernel, by decide +kernel, ⟨by decide, nofun⟩, rfl, Prod.ext (by decide +kernel) rfl⟩

end StackOp
end LuaEmbed
