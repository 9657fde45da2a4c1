import LuaEmbed.Proofs.Address
import LuaEmbed.Proofs.Steady

/-!
What the host sees of a stack: plain values are copied, threads get handles that keep them alive,
and the other values are described by where they stand, their type and their printed form.
-/
namespace LuaEmbed

open Engine

variable {σ μ : Type} {c : Context} {w w' w₁ : World σ μ}

namespace Index

theorem resolve_ok {i depth pos : Int} (h : resolve i depth = .ok pos) :
    1 ≤ pos ∧ pos ≤ depth ∧ (0 ≤ i → pos = i) := by
  unfold resolve at h
  dsimp only at h
  generalize hp : (if i < 0 then _ else i) = position at h
  split at h
  · cases h
  · obtain rfl := Except.ok.inj h
    refine ⟨by omega, by omega, fun hi => ?_⟩
    rw [if_neg (by omega)] at hp
    exact hp.symm

/-- Of a stack that is not empty, the topmost slot has an index. -/
theorem exists_resolve_last {depth : Int} (h : 1 ≤ depth) : ∃ pos, resolve (-1) depth = .ok pos := by
  have hbelow : Word32.saturate (depth + -1) ≤ depth - 1 := by
    unfold Word32.saturate Word32.least Word32.greatest
    omega
  have hlow : 0 ≤ Word32.saturate (depth + -1) := by
    unfold Word32.saturate Word32.least Word32.greatest
    omega
  unfold resolve
  rw [if_pos (by decide : (-1 : Int) < 0)]
  generalize Word32.saturate (depth + -1) = i at hbelow hlow
  have hpos : 1 ≤ Word32.saturate (i + 1) ∧ Word32.saturate (i + 1) ≤ i + 1 := by
    unfold Word32.saturate Word32.least Word32.greatest
    omega
  exact ⟨_, if_neg (by omega)⟩

/-- It is the topmost one, as long as depths are 32-bit numbers. -/
theorem resolve_last {depth : Int} (h : 1 ≤ depth) (hw : depth ≤ Word32.greatest) :
    resolve (-1) depth = .ok depth := by
  have hsame : ∀ i, 0 ≤ i → i ≤ depth → Word32.saturate i = i := by
    intro i hlow hhigh
    have hleast : Word32.least ≤ 0 := by decide
    unfold Word32.saturate
    rw [if_neg (by omega), if_neg (by omega)]
  have hback : depth + -1 + 1 = depth := by omega
  unfold resolve
  rw [if_pos (by decide : (-1 : Int) < 0), hsame (depth + -1) (by omega) (by omega), hback,
    hsame depth (by omega) (by omega)]
  exact if_neg (by omega)

/-- A window that starts at a position starts there. -/
theorem resolveWindow_ok {count start depth first : Int} (hs : 0 ≤ start)
    (h : resolveWindow count (some start) depth = .ok first) : first = start := by
  unfold resolveWindow at h
  split at h
  · cases h
  · cases hr : resolve start depth with
    | error e =>
      rw [Option.getD_some, hr] at h
      cases h
    | ok pos =>
      rw [Option.getD_some, hr] at h
      obtain rfl := (resolve_ok hr).2.2 hs
      simp only [Bind.bind, Except.bind] at h
      split at h
      · split at h
        · exact (Except.ok.inj h).symm
        · cases h
      · cases h

theorem resolve_inside {k depth : Int} (hlow : 1 ≤ k) (hhigh : k ≤ depth) :
    resolve k depth = .ok k := by
  unfold resolve
  dsimp only
  rw [if_neg (by omega : ¬ k < 0), if_neg (by omega)]

theorem wrap_of_inRange {k : Int} (h : Word32.InRange k) : Word32.wrap k = k := by
  unfold Word32.InRange Word32.least Word32.greatest at h
  unfold Word32.wrap
  apply Int.bmod_eq_of_le <;> omega

theorem wrap_le (k : Int) : Word32.wrap k ≤ Word32.greatest := by
  have h := @Int.bmod_lt k 4294967296 (by decide)
  unfold Word32.wrap Word32.greatest
  omega

theorem resolve_le {k depth pos : Int} (hk : k ≤ Word32.greatest)
    (h : resolve k depth = .ok pos) : pos ≤ Word32.greatest := by
  have hsaturate : ∀ n, Word32.saturate n ≤ Word32.greatest := by
    intro n
    unfold Word32.saturate Word32.least Word32.greatest
    omega
  unfold resolve at h
  dsimp only at h
  generalize hp : (if k < 0 then _ else k) = position at h
  split at h
  · cases h
  · obtain rfl := Except.ok.inj h
    rw [← hp]
    split
    · exact hsaturate _
    · exact hk

theorem resolveWindow_low {count depth first : Int} {start : Option Int}
    (h : resolveWindow count start depth = .ok first) : 0 ≤ count ∧ 1 ≤ first := by
  unfold resolveWindow at h
  split at h
  · cases h
  · cases hr : resolve (start.getD (Word32.wrap (-count))) depth with
    | error e =>
      rw [hr] at h
      cases h
    | ok pos =>
      rw [hr] at h
      simp only [Bind.bind, Except.bind] at h
      have hfirst : pos = first := by
        split at h
        · split at h
          · exact Except.ok.inj h
          · cases h
        · cases h
      exact ⟨by omega, hfirst ▸ (resolve_ok hr).1⟩

/-- A window that ends on the stack starts where its start is. -/
theorem resolveWindow_of_resolve {count depth first : Int} {start : Option Int} (hcount : 1 ≤ count)
    (hr : resolve (start.getD (Word32.wrap (-count))) depth = .ok first) (hlow : 1 ≤ first)
    (hhigh : first + count ≤ depth + 1) (hdepth : depth ≤ Word32.greatest) :
    resolveWindow count start depth = .ok first := by
  unfold Word32.greatest at hdepth
  have hfirst : Word32.wrap (first - 1) = first - 1 := by
    apply wrap_of_inRange
    unfold Word32.InRange Word32.least Word32.greatest
    omega
  have hlast : Word32.checked? (first - 1 + count) = some (first - 1 + count) := by
    refine if_pos ?_
    unfold Word32.InRange Word32.least Word32.greatest
    omega
  unfold resolveWindow
  rw [if_neg (by omega), hr]
  simp only [Bind.bind, Except.bind, hfirst, hlast]
  rw [if_pos (by omega)]

/-- A window on the stack starts where it says. -/
theorem resolveWindow_inside {count depth start : Int} (hcount : 1 ≤ count) (hlow : 1 ≤ start)
    (hhigh : start + count ≤ depth + 1) (hdepth : depth ≤ Word32.greatest) :
    resolveWindow count (some start) depth = .ok start := by
  have hstart : resolve start depth = .ok start := resolve_inside hlow (by omega)
  exact resolveWindow_of_resolve hcount hstart hlow hhigh hdepth

/-- The topmost slot is a window. -/
theorem resolveWindow_last {depth : Int} (h : 1 ≤ depth) (hw : depth ≤ Word32.greatest) :
    resolveWindow 1 none depth = .ok depth :=
  resolveWindow_of_resolve (by omega) (resolve_last h hw) h (by omega) hw

/-- A window that starts at a 32-bit index lies on the stack. -/
theorem resolveWindow_fits {count depth first : Int} {start : Option Int}
    (hs : ∀ k, start = some k → k ≤ Word32.greatest)
    (h : resolveWindow count start depth = .ok first) :
    0 ≤ count ∧ 1 ≤ first ∧ first + count ≤ depth + 1 := by
  unfold resolveWindow at h
  split at h
  · cases h
  next hcount =>
    have hstart : start.getD (Word32.wrap (-count)) ≤ Word32.greatest := by
      cases start with
      | none => exact wrap_le _
      | some k => exact hs k rfl
    generalize start.getD (Word32.wrap (-count)) = k at h hstart
    cases hr : resolve k depth with
    | error e =>
      rw [hr] at h
      cases h
    | ok pos =>
      rw [hr] at h
      obtain ⟨hlow, -, -⟩ := resolve_ok hr
      have hpos := resolve_le hstart hr
      have hwrap : Word32.wrap (pos - 1) = pos - 1 := by
        apply wrap_of_inRange
        unfold Word32.InRange Word32.least Word32.greatest
        unfold Word32.greatest at hpos
        omega
      simp only [Bind.bind, Except.bind, hwrap] at h
      split at h
      next last hlast =>
        unfold Word32.checked? at hlast
        split at hlast
        · obtain rfl := Option.some.inj hlast
          split at h
          · obtain rfl := Except.ok.inj h
            omega
          · cases h
        · cases hlast
      · cases h

end Index

namespace World

theorem displayName_congr (h : w'.heap c.vm = w.heap c.vm) (v : Val) :
    w'.displayName c v = w.displayName c v := by
  cases v <;> simp only [displayName, h]

theorem describe_congr (h : w'.heap c.vm = w.heap c.vm) (v : Val) :
    w'.describe c v = w.describe c v := by
  unfold describe
  rw [displayName_congr h]

theorem at_of_drop {pos : Int} {u : Val} {us : List Val}
    (h : (w.slots c).toList.drop (pos - 1).toNat = u :: us) : w.at_ c pos = u := by
  have hu : (w.slots c).toList[(pos - 1).toNat]? = some u := by
    have hd : ((w.slots c).toList.drop (pos - 1).toNat)[0]? = some u := by
      rw [h, List.getElem?_cons_zero]
    rwa [List.getElem?_drop, Nat.add_zero] at hd
  unfold at_
  rw [Array.getD_eq_getD_getElem?, ← Array.getElem?_toList, hu]
  rfl

/-- What the host sees of a value that stands at a position. -/
def Shows (w : World σ μ) (c : Context) (pos : Int) (u : Val) (v : Value) : Prop :=
  match u with
  | .nil => v = .nil
  | .bool b => v = .bool b
  | .int i => v = .int i
  | .float x => v = .float x
  | .str s => v = .text s
  | .thread t => ∃ h : ThreadHandle, v = .thread h ∧ h.thread.thread = t
  | u => v = .handle ⟨u.tag, w.displayName c u, pos, c⟩

theorem shows_congr (h : w'.heap c.vm = w.heap c.vm) {pos : Int} {u : Val} {v : Value} :
    w'.Shows c pos u v ↔ w.Shows c pos u v := by
  cases u <;> simp only [Shows, displayName_congr h]

/-- What the host sees of values that stand one above the other, from a position up. -/
inductive ShowsAll (w : World σ μ) (c : Context) : Int → List Val → List Value → Prop where
  | nil (pos : Int) : ShowsAll w c pos [] []
  | cons {pos : Int} {u : Val} {v : Value} {us : List Val} {vs : List Value}
    (h : w.Shows c pos u v) (hs : ShowsAll w c (pos + 1) us vs) :
    ShowsAll w c pos (u :: us) (v :: vs)

theorem showsAll_congr (h : w'.heap c.vm = w.heap c.vm) {pos : Int} {us : List Val}
    {vs : List Value} (hs : w'.ShowsAll c pos us vs) : w.ShowsAll c pos us vs := by
  induction hs with
  | nil pos => exact .nil pos
  | cons hv _ ih => exact .cons ((shows_congr h).mp hv) ih

theorem ShowsAll.length_eq {pos : Int} {us : List Val} {vs : List Value}
    (h : w.ShowsAll c pos us vs) :
    us.length = vs.length := by
  induction h with
  | nil => rfl
  | cons _ _ ih => rw [List.length_cons, List.length_cons, ih]

end World

namespace Context

open World

theorem resolve_ok {i pos : Int} (h : c.resolve i w = (.ok pos, w₁)) :
    w₁ = w ∧ 1 ≤ pos ∧ pos ≤ w.depth c ∧ (0 ≤ i → pos = i) := by
  have hi : Index.resolve i (w.depth c) = .ok pos ∧ w = w₁ := Prod.mk.inj h
  obtain ⟨hi, rfl⟩ := hi
  exact ⟨rfl, Index.resolve_ok hi⟩

theorem capture_ok {pos : Int} {h : ThreadHandle} (hr : c.capture pos w = (.ok h, w')) :
    w.at_ c pos = .thread h.thread.thread := by
  unfold capture at hr
  obtain ⟨vm, w₁, hshared, hr₁⟩ := Api.bind_eq_ok hr
  obtain ⟨_, w₂, hroom, hr₂⟩ := Api.bind_eq_ok hr₁
  have ha := (c.steady_shared.related hshared).trans ((c.steady_checkStack 1).related hroom)
  rw [Api.get_bind] at hr₂
  rw [← ha.at_ c pos]
  cases hv : w₂.at_ c pos <;> simp only [hv] at hr₂
  case thread t =>
    have he := Except.ok.inj (Prod.mk.inj hr₂).1
    rw [← he]
    rfl
  all_goals cases hr₂

/-- What is read is what stands at the position that the index names. -/
theorem read_ok {i : Int} {v : Value} (hr : c.read i w = (.ok v, w')) :
    ∃ pos, c.resolve i w = (.ok pos, w) ∧ 1 ≤ pos ∧ pos ≤ w.depth c ∧ (0 ≤ i → pos = i) ∧
      w.Shows c pos (w.at_ c pos) v := by
  unfold read at hr
  obtain ⟨pos, w₁, hpos, hr₁⟩ := Api.bind_eq_ok hr
  obtain ⟨rfl, hlow, hhigh, hsame⟩ := resolve_ok hpos
  obtain ⟨_, w₂, hroom, hr₂⟩ := Api.bind_eq_ok hr₁
  have ha := (c.steady_checkStack 2).related hroom
  refine ⟨pos, hpos, hlow, hhigh, hsame, (shows_congr (ha.heap c.vm)).mp ?_⟩
  rw [← ha.at_ c pos]
  rw [Api.get_bind] at hr₂
  cases hv : w₂.at_ c pos <;> simp only [hv] at hr₂
  case thread t =>
    obtain ⟨h, w₃, hcapture, hr₃⟩ := Api.bind_eq_ok hr₂
    have ht := capture_ok hcapture
    rw [hv] at ht
    exact ⟨h, (Except.ok.inj (Prod.mk.inj hr₃).1).symm, (Val.thread.inj ht).symm⟩
  all_goals exact (Except.ok.inj (Prod.mk.inj hr₂).1).symm

/-- Slots are read one after the other. -/
theorem readFrom_ok {us rest : List Val} {pos : Int} {acc vs : List Value} (hp : 1 ≤ pos)
    (hs : (w.slots c).toList.drop (pos - 1).toNat = us ++ rest)
    (hr : c.readFrom pos us.length acc w = (.ok vs, w')) :
    ∃ new, vs = acc.reverse ++ new ∧ w.ShowsAll c pos us new := by
  induction us generalizing pos acc w with
  | nil =>
    have hv := Except.ok.inj (Prod.mk.inj hr).1
    exact ⟨[], by rw [List.append_nil, hv], .nil pos⟩
  | cons u us ih =>
    rw [List.length_cons] at hr
    unfold readFrom at hr
    cases hread : c.read pos w with
    | mk r w₁ =>
      rw [hread] at hr
      cases r with
      | error e => cases hr
      | ok v =>
        have ha := (c.steady_read pos).related hread
        have hnext : (w₁.slots c).toList.drop (pos + 1 - 1).toNat = us ++ rest := by
          rw [ha.slots c, show (pos + 1 - 1).toNat = (pos - 1).toNat + 1 by omega,
            ← List.drop_drop, hs]
          rfl
        obtain ⟨new, rfl, hnew⟩ := ih (by omega) hnext hr
        obtain ⟨pos', hpos, -, -, hsame, hv⟩ := read_ok hread
        obtain rfl := hsame (by omega)
        refine ⟨v :: new, by simp, .cons ?_ (showsAll_congr (ha.heap c.vm) hnew)⟩
        rwa [at_of_drop hs] at hv

/-- A batch that starts at a position is what stands from there on. -/
theorem readBatch_ok {us rest : List Val} {pos : Int} {vs : List Value} (hp : 1 ≤ pos)
    (hs : (w.slots c).toList.drop (pos - 1).toNat = us ++ rest)
    (hr : c.readBatch us.length (some pos) w = (.ok vs, w')) : w.ShowsAll c pos us vs := by
  unfold readBatch at hr
  cases us with
  | nil =>
    rw [← Except.ok.inj (Prod.mk.inj hr).1]
    exact .nil pos
  | cons u us =>
    rw [if_neg (by rw [List.length_cons]; omega)] at hr
    obtain ⟨depth, w₁, htop, hr₁⟩ := Api.bind_eq_ok hr
    obtain ⟨first, w₂, hfirst, hr₂⟩ := Api.bind_eq_ok hr₁
    obtain ⟨hwindow, rfl⟩ := Prod.mk.inj hfirst
    obtain ⟨-, rfl⟩ := Prod.mk.inj htop
    obtain rfl := Index.resolveWindow_ok (by omega) hwindow
    obtain ⟨new, rfl, hnew⟩ := readFrom_ok hp hs hr₂
    exact hnew

/-! ### Validation -/

theorem check_ok {h : Handle} {s : StackId} {current : Option (TypeTag × String)} :
    h.check s current = .ok () ↔ s = h.stack ∧ current = some h.description := by
  unfold Handle.check
  cases current with
  | none => simp
  | some found =>
    by_cases hs : s = h.stack <;> by_cases hf : found = h.description <;> simp [hs, hf]

/-- A handle that is accepted names a slot of the stack. -/
theorem validate_ok {h : Handle} {a : Unit} (hv : c.validate h w = (.ok a, w')) :
    c = h.stack ∧ 1 ≤ h.position ∧ h.position ≤ w.depth c := by
  unfold validate at hv
  obtain ⟨depth, w₁, htop, hv₁⟩ := Api.bind_eq_ok hv
  obtain ⟨hdepth, rfl⟩ := Prod.mk.inj htop
  obtain rfl := Except.ok.inj hdepth
  split at hv₁
  next hp =>
    obtain ⟨_, w₂, -, hv₂⟩ := Api.bind_eq_ok hv₁
    rw [Api.get_bind] at hv₂
    exact ⟨(check_ok.mp (Prod.mk.inj hv₂).1).1, hp⟩
  next =>
    have hc := (Prod.mk.inj hv₁).1
    cases hc

end Context
end LuaEmbed
