import Mathlib.Data.List.Rotate
import LuaEmbed.Proofs.Indexing
import LuaEmbed.Proofs.Succession

/-!
Rotating the window from a slot to the top. The amounts act as the integers modulo the size of the
window do: a rotation takes every slot so many places on, around the end, and two of them add up. The
interpreter, which rotates in place by reversing parts of the window, is only ever given an amount that
it accepts.
-/
namespace LuaEmbed

open Engine World

/-! ### Lists -/

namespace Context

variable {vs : List Val} {n m : Int} {j p : Nat}

theorem rotated_eq_rotate (k : Nat) (vs : List Val) :
    rotated k vs = vs.rotate (vs.length - k) :=
  (List.rotate_eq_drop_append_take (Nat.sub_le vs.length k)).symm

/-- A list moved on cyclically, by any number of places. -/
def cycled (n : Int) (vs : List Val) : List Val := rotated (n % vs.length).toNat vs

@[simp] theorem length_cycled (n : Int) (vs : List Val) : (cycled n vs).length = vs.length := by
  rw [cycled, rotated_eq_rotate, List.length_rotate]

theorem emod_toNat_lt (n : Int) (h : 0 < j) : (n % (j : Int)).toNat < j := by
  have hlow := Int.emod_nonneg n (by omega : (j : Int) ≠ 0)
  have hhigh := Int.emod_lt_of_pos n (by omega : (0 : Int) < j)
  omega

/-- What comes to stand at a place is what stood so many places before it, around the beginning. -/
theorem getElem?_cycled (n : Int) (hj : j < vs.length) :
    (cycled n vs)[j]? = vs[((j - n) % vs.length).toNat]? := by
  have hzero : (vs.length : Int) ≠ 0 := by omega
  have hlow := Int.emod_nonneg n hzero
  have hshift := emod_toNat_lt n (show 0 < vs.length by omega)
  rw [cycled, rotated_eq_rotate, List.getElem?_rotate hj]
  refine congrArg (vs[·]?) ?_
  have hsum : ((j + (vs.length - (n % vs.length).toNat) : Nat) : Int) =
      j - n % vs.length + vs.length := by omega
  have hmod : (j - n % vs.length + vs.length) % (vs.length : Int) = (j - n) % vs.length := by
    rw [Int.add_emod_right, Int.sub_emod_emod]
  apply Int.ofNat.inj
  rw [Int.ofNat_eq_natCast, Int.ofNat_eq_natCast, Int.natCast_emod, hsum, hmod,
    Int.toNat_of_nonneg (Int.emod_nonneg _ hzero)]

theorem cycled_congr (h : n % vs.length = m % vs.length) : cycled n vs = cycled m vs := by
  rw [cycled, h, ← cycled]

theorem cycled_of_dvd (h : (vs.length : Int) ∣ n) : cycled n vs = vs := by
  rw [cycled, Int.emod_eq_zero_of_dvd h, rotated_eq_rotate, Int.toNat_zero, Nat.sub_zero,
    List.rotate_length]

/-- Moving on twice adds up. -/
theorem cycled_cycled (n m : Int) (vs : List Val) : cycled m (cycled n vs) = cycled (n + m) vs := by
  apply List.ext_getElem?
  intro j
  by_cases hj : j < vs.length
  · have hplace := emod_toNat_lt (j - m) (show 0 < vs.length by omega)
    have hzero : (vs.length : Int) ≠ 0 := by omega
    rw [getElem?_cycled m (by rwa [length_cycled]), getElem?_cycled (n + m) hj, length_cycled,
      getElem?_cycled n hplace, Int.toNat_of_nonneg (Int.emod_nonneg _ hzero), Int.emod_sub_emod,
      show j - m - n = j - (n + m) by omega]
  · rw [List.getElem?_eq_none (by rw [length_cycled, length_cycled]; omega),
      List.getElem?_eq_none (by rw [length_cycled]; omega)]

/-- What stands at a place goes so many places on, around the end. -/
theorem getElem?_cycled_add (n : Int) (hj : j < vs.length) :
    (cycled n vs)[((j + n) % vs.length).toNat]? = vs[j]? := by
  have hzero : (vs.length : Int) ≠ 0 := by omega
  rw [getElem?_cycled n (emod_toNat_lt (j + n) (by omega)),
    Int.toNat_of_nonneg (Int.emod_nonneg _ hzero), Int.emod_sub_emod, Int.add_sub_cancel, Int.emod_eq_of_lt (by omega) (by omega), Int.toNat_natCast]

/-! ### In place -/

/-- A list with its elements from one place up to another in reverse order. -/
def reverseBetween (i j : Nat) (s : List Val) : List Val :=
  s.take i ++ ((s.drop i).take (j - i)).reverse ++ s.drop j

theorem reverseBetween_append {i j : Nat} {a b d : List Val} (ha : a.length = i)
    (hb : i + b.length = j) : reverseBetween i j (a ++ b ++ d) = a ++ b.reverse ++ d := by
  subst ha hb
  unfold reverseBetween
  rw [← List.length_append, List.drop_left, List.append_assoc a b d, List.take_left, List.drop_left,
    List.length_append, Nat.add_sub_cancel_left, List.take_left]

/-- How the interpreter rotates the window that starts at a place: it reverses its first part, its
second, and all of it. It accepts no amount that is greater than the window. -/
def rotateInPlace? (p : Nat) (n : Int) (s : List Val) : Option (List Val) :=
  if n.natAbs ≤ s.length - p then
    let m := if 0 ≤ n then (s.length - n).toNat else (p - n).toNat
    some (reverseBetween p s.length (reverseBetween m s.length (reverseBetween p m s)))
  else none

theorem reverseBetween_window {s : List Val} {p m : Nat} (hp : p ≤ m) (hm : m ≤ s.length) :
    reverseBetween p s.length (reverseBetween m s.length (reverseBetween p m s)) =
      s.take p ++ (s.drop m ++ (s.drop p).take (m - p)) := by
  generalize ha : s.take p = a
  generalize hb : (s.drop p).take (m - p) = b
  generalize hd : s.drop m = d
  have hla : a.length = p := by rw [← ha, List.length_take]; omega
  have hlb : p + b.length = m := by rw [← hb, List.length_take, List.length_drop]; omega
  have hld : m + d.length = s.length := by rw [← hd, List.length_drop]; omega
  have hparts : s = a ++ b ++ d := by
    rw [← ha, ← hb, ← hd, ← show p + (m - p) = m by omega, ← List.drop_drop, List.append_assoc,
      show p + (m - p) - p = m - p by omega, List.take_append_drop, List.take_append_drop]
  have hfirst : reverseBetween p m s = a ++ b.reverse ++ d := by
    conv_lhs => rw [hparts]
    exact reverseBetween_append hla hlb
  have hsecond : reverseBetween m s.length (a ++ b.reverse ++ d) = a ++ b.reverse ++ d.reverse := by
    rw [← List.append_nil (a ++ b.reverse ++ d),
      reverseBetween_append (by rw [List.length_append, List.length_reverse, hla, hlb]) hld,
      List.append_nil]
  have hthird : reverseBetween p s.length (a ++ (b.reverse ++ d.reverse) ++ []) =
      a ++ (b.reverse ++ d.reverse).reverse ++ [] :=
    reverseBetween_append hla (by rw [List.length_append, List.length_reverse, List.length_reverse]; omega)
  rw [hfirst, hsecond, List.append_assoc, ← List.append_nil (a ++ (b.reverse ++ d.reverse)), hthird,
    List.reverse_append, List.reverse_reverse, List.reverse_reverse, List.append_nil]

/-- Given the amount that is left of any by the size of the window, it comes to moving the window on
cyclically. -/
theorem rotateInPlace?_eq {s : List Val} (hp : p < s.length) (n : Int) :
    rotateInPlace? p (n % (s.length - p : Nat)) s = some (s.take p ++ cycled n (s.drop p)) := by
  have hshift := emod_toNat_lt n (show 0 < s.length - p by omega)
  have hlow := Int.emod_nonneg n (by omega : ((s.length - p : Nat) : Int) ≠ 0)
  unfold rotateInPlace? cycled rotated
  rw [List.length_drop, List.drop_drop]
  generalize n % (s.length - p : Nat) = k at *
  rw [if_pos (by omega), if_pos hlow]
  dsimp only
  rw [reverseBetween_window (by omega) (by omega),
    show p + (s.length - p - k.toNat) = (s.length - k).toNat by omega,
    show (s.length - k).toNat - p = s.length - p - k.toNat by omega]

/-! ### Stacks -/

/-- Slots of which those from a place on are moved on cyclically. -/
def cycledFrom (p : Nat) (n : Int) (s : Array Val) : Array Val :=
  s.shrink p ++ (cycled n (s.toList.drop p)).toArray

variable {s : Array Val}

theorem toList_cycledFrom (p : Nat) (n : Int) (s : Array Val) :
    (cycledFrom p n s).toList = s.toList.take p ++ cycled n (s.toList.drop p) := by
  simp [cycledFrom]

theorem size_cycledFrom (p : Nat) (n : Int) (s : Array Val) : (cycledFrom p n s).size = s.size := by
  rw [← Array.length_toList, toList_cycledFrom, List.length_append, length_cycled,
    ← List.length_append, List.take_append_drop, Array.length_toList]

theorem getElem?_cycledFrom_below (n : Int) (hj : j < p) : (cycledFrom p n s)[j]? = s[j]? := by
  rw [← Array.getElem?_toList, ← Array.getElem?_toList, toList_cycledFrom]
  by_cases hs : j < s.toList.length
  · rw [List.getElem?_append_left (by rw [List.length_take]; omega), List.getElem?_take_of_lt hj]
  · have hlength : (s.toList.take p ++ cycled n (s.toList.drop p)).length = s.toList.length := by
      rw [List.length_append, length_cycled, ← List.length_append, List.take_append_drop]
    rw [List.getElem?_eq_none (by omega), List.getElem?_eq_none (by omega)]

theorem getElem?_cycledFrom (hp : p ≤ s.size) (n : Int) (hj : j < s.size - p) :
    (cycledFrom p n s)[p + ((j + n) % (s.size - p : Nat)).toNat]? = s[p + j]? := by
  have hlength : (s.toList.drop p).length = s.size - p := by simp
  have htake : (s.toList.take p).length = p := by rw [List.length_take, Array.length_toList]; omega
  rw [← Array.getElem?_toList, ← Array.getElem?_toList, toList_cycledFrom,
    List.getElem?_append_right (by omega), htake, Nat.add_sub_cancel_left, ← hlength,
    getElem?_cycled_add n (by omega), List.getElem?_drop]

theorem cycledFrom_congr (h : n % (s.size - p : Nat) = m % (s.size - p : Nat)) :
    cycledFrom p n s = cycledFrom p m s := by
  unfold cycledFrom
  rw [cycled_congr]
  simpa using h

theorem cycledFrom_of_dvd (h : ((s.size - p : Nat) : Int) ∣ n) : cycledFrom p n s = s := by
  apply Array.toList_inj.mp
  rw [toList_cycledFrom, cycled_of_dvd (by simpa using h), List.take_append_drop]

theorem cycledFrom_cycledFrom (hp : p ≤ s.size) (n m : Int) :
    cycledFrom p m (cycledFrom p n s) = cycledFrom p (n + m) s := by
  have htake : (s.toList.take p).length = p := by rw [List.length_take, Array.length_toList]; omega
  apply Array.toList_inj.mp
  rw [toList_cycledFrom, toList_cycledFrom, toList_cycledFrom, ← cycled_cycled,
    List.take_left' htake, List.drop_left' htake]

variable {σ μ : Type} {c : Context} {w w' : World σ μ} {index pos a b : Int}

/-- A rotation of the window from a slot on moves it on cyclically, whatever the amount. -/
theorem rotate_eq (hs : w.shown c = some s) (hpos : Index.resolve index s.size = .ok pos) (n : Int) :
    c.rotate index n w = (.ok (), w.modifySlots c (cycledFrom (pos - 1).toNat n)) := by
  obtain ⟨hlow, hhigh, -⟩ := Index.resolve_ok hpos
  have hwindow : (s.size : Int) - pos + 1 = (s.size - (pos - 1).toNat : Nat) := by omega
  have hdepth : w.depth c = s.size := depth_of_shown hs
  have hresolve : c.resolve index w = (.ok pos, w) := by
    unfold resolve
    rw [Api.bind_ok (show c.top w = (.ok (w.depth c : Int), w) from rfl), hdepth]
    exact congrArg (·, w) hpos
  unfold rotate
  rw [Api.bind_ok hresolve, Api.bind_ok (show c.top w = (.ok (w.depth c : Int), w) from rfl), hdepth,
    hwindow]
  split
  next =>
    refine congrArg (Prod.mk _) (modifySlots_congr fun s' hs' => ?_)
    obtain rfl := Option.some.inj (hs.symm.trans hs')
    unfold cycledFrom cycled
    rw [List.length_drop, Array.length_toList]
  next hzero =>
    -- An amount that comes to nothing changes nothing.
    refine congrArg (Prod.mk _) (modifySlots_of_fixed fun s' hs' => cycledFrom_of_dvd ?_).symm
    obtain rfl := Option.some.inj (hs.symm.trans hs')
    have hleft := Int.emod_nonneg n (by omega : ((s.size - (pos - 1).toNat : Nat) : Int) ≠ 0)
    exact Int.dvd_of_emod_eq_zero (by omega)

/-- The values of a window have been moved on cyclically, and nothing else has changed. -/
structure Cycles (c : Context) (pos window n : Int) (w w' : World σ μ) : Prop where
  moved : ∀ k, 0 ≤ k → k < window → w'.at_ c (pos + (k + n) % window) = w.at_ c (pos + k)
  below : ∀ q, 1 ≤ q → q < pos → w'.at_ c q = w.at_ c q
  depth : w'.depth c = w.depth c
  others : ∀ d, d ≠ c → w'.shown d = w.shown d
  heap : ∀ i, w'.heap i = w.heap i

theorem cycles (hs : w.shown c = some s) (hlow : 1 ≤ pos) (hhigh : pos ≤ s.size) (n : Int) :
    Cycles c pos (s.size - pos + 1) n w (w.modifySlots c (cycledFrom (pos - 1).toNat n)) := by
  have hs' : (w.modifySlots c (cycledFrom (pos - 1).toNat n)).shown c =
      some (cycledFrom (pos - 1).toNat n s) := by
    rw [shown_modifySlots_self, hs, Option.map_some]
  have hwindow : (s.size : Int) - pos + 1 = (s.size - (pos - 1).toNat : Nat) := by omega
  refine ⟨fun k hk hkw => ?_, fun q hq hqp => ?_, ?_, fun d hd => shown_modifySlots_of_ne w hd _,
    fun i => by simp⟩
  · have hplace := Int.emod_nonneg (k + n) (by omega : (s.size : Int) - pos + 1 ≠ 0)
    unfold at_
    rw [slots_of_shown hs', slots_of_shown hs, Array.getD_eq_getD_getElem?, Array.getD_eq_getD_getElem?,
      show (pos + (k + n) % (s.size - pos + 1) - 1).toNat =
        (pos - 1).toNat + ((k + n) % (s.size - pos + 1)).toNat by omega,
      show (pos + k - 1).toNat = (pos - 1).toNat + k.toNat by omega, hwindow]
    have hmoved := getElem?_cycledFrom (show (pos - 1).toNat ≤ s.size by omega) n
      (show k.toNat < s.size - (pos - 1).toNat by omega)
    rw [Int.toNat_of_nonneg hk] at hmoved
    rw [hmoved]
  · unfold at_
    rw [slots_of_shown hs', slots_of_shown hs, Array.getD_eq_getD_getElem?, Array.getD_eq_getD_getElem?,
      getElem?_cycledFrom_below n (by omega)]
  · rw [depth_of_shown hs', depth_of_shown hs, size_cycledFrom]

/-- A rotation for which the interpreter is asked to rotate in place; nothing, if it does not accept the
amount that it is given. -/
def rotateAsking? (c : Context) (index amount : Int) (w : World σ μ) :
    Option (Except Error Unit × World σ μ) :=
  match Index.resolve index (w.depth c) with
  | .error e => some (.error e, w)
  | .ok pos =>
    let shift := amount % (w.depth c - pos + 1)
    if shift = 0 then some (.ok (), w)
    else
      (rotateInPlace? (pos - 1).toNat shift (w.slots c).toList).map fun slots =>
        (.ok (), w.modifySlots c fun _ => slots.toArray)

/-- The interpreter accepts every amount that it is given for a rotation, and does what is wanted. -/
theorem rotateAsking?_eq (hs : w.shown c = some s) (hpos : Index.resolve index s.size = .ok pos)
    (n : Int) : c.rotateAsking? index n w = some (c.rotate index n w) := by
  obtain ⟨hlow, hhigh, -⟩ := Index.resolve_ok hpos
  have hwindow : (s.size : Int) - pos + 1 = (s.size - (pos - 1).toNat : Nat) := by omega
  have hplace : (pos - 1).toNat < s.toList.length := by rw [Array.length_toList]; omega
  rw [rotate_eq hs hpos]
  unfold rotateAsking?
  rw [depth_of_shown hs, hpos]
  dsimp only
  rw [hwindow]
  split
  next hzero =>
    refine congrArg (fun w => some (_, w)) (modifySlots_of_fixed fun s' h => ?_).symm
    obtain rfl := Option.some.inj (hs.symm.trans h)
    exact cycledFrom_of_dvd (Int.dvd_of_emod_eq_zero hzero)
  next =>
    rw [slots_of_shown hs, ← Array.length_toList, rotateInPlace?_eq hplace, Option.map_some]
    refine congrArg (fun w => some (_, w)) (modifySlots_congr fun s' h => ?_)
    obtain rfl := Option.some.inj (hs.symm.trans h)
    rw [← toList_cycledFrom, Array.toArray_toList]

/-- Rotations of a window are the cyclic shifts of its values: one after the other adds up, amounts
that differ by whole windows do the same, and what adds up to whole windows comes to nothing. The
interpreter accepts the amount it is given for any, and what it then does by reversals is that shift. -/
theorem rotate_cyclic (hs : w.shown c = some s) (hpos : Index.resolve index s.size = .ok pos)
    (a b : Int) :
    (∃ w', c.rotate index a w = (.ok (), w') ∧ Cycles c pos (s.size - pos + 1) a w w' ∧
      ∃ w'', c.rotate index b w' = (.ok (), w'') ∧ Cycles c pos (s.size - pos + 1) (a + b) w w'' ∧
        c.rotate index (a + b) w = (.ok (), w'') ∧ ((s.size - pos + 1 : Int) ∣ a + b → w'' = w)) ∧
    (a % (s.size - pos + 1) = b % (s.size - pos + 1) → c.rotate index a w = c.rotate index b w) ∧
    c.rotateAsking? index a w = some (c.rotate index a w) := by
  obtain ⟨hlow, hhigh, -⟩ := Index.resolve_ok hpos
  have hwindow : (s.size : Int) - pos + 1 = (s.size - (pos - 1).toNat : Nat) := by omega
  have hs' : (w.modifySlots c (cycledFrom (pos - 1).toNat a)).shown c =
      some (cycledFrom (pos - 1).toNat a s) := by
    rw [shown_modifySlots_self, hs, Option.map_some]
  have htwice : (w.modifySlots c (cycledFrom (pos - 1).toNat a)).modifySlots c
      (cycledFrom (pos - 1).toNat b) = w.modifySlots c (cycledFrom (pos - 1).toNat (a + b)) := by
    rw [modifySlots_modifySlots]
    refine modifySlots_congr fun s' h => ?_
    obtain rfl := Option.some.inj (hs.symm.trans h)
    exact cycledFrom_cycledFrom (by omega) a b
  refine ⟨⟨_, rotate_eq hs hpos a, cycles hs hlow hhigh a, _,
    rotate_eq hs' (by rw [size_cycledFrom]; exact hpos) b, ?_, ?_, fun hdvd => ?_⟩, fun hab => ?_,
    rotateAsking?_eq hs hpos a⟩
  · rw [htwice]
    exact cycles hs hlow hhigh (a + b)
  · rw [htwice, rotate_eq hs hpos]
  · rw [htwice]
    refine modifySlots_of_fixed fun s' h => ?_
    obtain rfl := Option.some.inj (hs.symm.trans h)
    exact cycledFrom_of_dvd (hwindow ▸ hdvd)
  · rw [rotate_eq hs hpos, rotate_eq hs hpos]
    refine congrArg (Prod.mk _) (modifySlots_congr fun s' h => ?_)
    obtain rfl := Option.some.inj (hs.symm.trans h)
    exact cycledFrom_congr (hwindow ▸ hab)

/-- The least amount of all, and one that undoes it. -/
theorem rotate_cyclic_least :
    ∃ w w', Context.rotate ⟨0, 0⟩ (-3) (-2147483648) (unmarked #[.int 1, .int 2, .int 3]) =
        (.ok (), w) ∧
      (w.slots ⟨0, 0⟩).toList = [.int 3, .int 1, .int 2] ∧
      Context.rotate ⟨0, 0⟩ (-3) (-1) w = (.ok (), w') ∧
      w' = unmarked #[.int 1, .int 2, .int 3] := by
  have hpos : Index.resolve (-3) (#[.int 1, .int 2, .int 3] : Array Val).size = .ok 1 := by decide
  obtain ⟨⟨w, hw, -, w', hw', -, -, hback⟩, -⟩ :=
    rotate_cyclic (c := ⟨0, 0⟩) (w := unmarked #[.int 1, .int 2, .int 3]) rfl hpos (-2147483648) (-1)
  refine ⟨w, w', hw, ?_, hw', hback (by decide)⟩
  obtain rfl := congrArg Prod.snd hw
  rfl

end Context
end LuaEmbed
