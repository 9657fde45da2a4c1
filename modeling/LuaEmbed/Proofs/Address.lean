import LuaEmbed.Host.Marshal
import Mathlib.Data.List.Basic

/-!
Addresses tell values apart. Two values of one type that stay inside the interpreter have different
addresses, and the printed name ends in the address, whatever name a userdata declares.
-/
namespace LuaEmbed

open Engine

theorem Engine.Constant.code_inj {a b : Engine.Constant} (h : a.code = b.code) : a = b := by
  cases a with
  | int i =>
    cases b with
    | int j =>
      have hu : i.toUInt64.toNat = j.toUInt64.toNat := by
        simp only [Engine.Constant.code] at h
        omega
      have hi : i.toUInt64 = j.toUInt64 := UInt64.toNat_inj.mp hu
      obtain ⟨x⟩ := i
      obtain ⟨y⟩ := j
      exact congrArg (fun u => Engine.Constant.int ⟨u⟩) hi
    | _ => simp only [Engine.Constant.code] at h; omega
  | bool x =>
    cases b with
    | bool y => cases x <;> cases y <;> simp_all [Engine.Constant.code]
    | _ => simp only [Engine.Constant.code] at h; omega
  | light p =>
    cases b with
    | light q =>
      simp only [Engine.Constant.code] at h
      rw [show p = q by omega]
    | _ => simp only [Engine.Constant.code] at h; omega

namespace Engine.Builtin

theorem pow_odd_inj {a b m n : Nat} (h : (2 * a + 1) * 2 ^ m = (2 * b + 1) * 2 ^ n) :
    a = b ∧ m = n := by
  induction m generalizing n with
  | zero =>
    cases n with
    | zero => exact ⟨by omega, rfl⟩
    | succ n =>
      rw [Nat.pow_succ, ← Nat.mul_assoc] at h
      omega
  | succ m ih =>
    cases n with
    | zero =>
      rw [Nat.pow_succ, ← Nat.mul_assoc] at h
      omega
    | succ n =>
      rw [Nat.pow_succ, Nat.pow_succ, ← Nat.mul_assoc, ← Nat.mul_assoc] at h
      obtain ⟨hab, hmn⟩ := ih (Nat.eq_of_mul_eq_mul_right (by decide) h)
      exact ⟨hab, by rw [hmn]⟩

theorem joined_eq (a b : Nat) :
    joined a b = (2 * (a * 2 ^ (b.log2 + 1) + b) + 1) * 2 ^ (b.log2 + 1) := by
  unfold joined
  rw [Nat.shiftLeft_eq, Nat.shiftLeft_eq]

theorem joined_inj {a b c d : Nat} (h : joined a b = joined c d) : a = c ∧ b = d := by
  rw [joined_eq, joined_eq] at h
  obtain ⟨hs, hw⟩ := pow_odd_inj h
  have hb : b < 2 ^ (b.log2 + 1) := Nat.lt_log2_self
  have hd : d < 2 ^ (d.log2 + 1) := Nat.lt_log2_self
  rw [← hw] at hs hd
  have hq := congrArg (· / 2 ^ (b.log2 + 1)) hs
  have hr := congrArg (· % 2 ^ (b.log2 + 1)) hs
  have hpos : 0 < 2 ^ (b.log2 + 1) := Nat.two_pow_pos _
  simp only [Nat.mul_comm _ (2 ^ (b.log2 + 1)), Nat.mul_add_div hpos, Nat.mul_add_mod,
    Nat.mod_eq_of_lt hb, Nat.mod_eq_of_lt hd, Nat.div_eq_of_lt hb, Nat.div_eq_of_lt hd] at hq hr
  exact ⟨hq, hr⟩

theorem joined_pos (a b : Nat) : 0 < joined a b := by
  rw [joined_eq]
  exact Nat.mul_pos (Nat.succ_pos _) (Nat.two_pow_pos _)

theorem encode_inj {as bs : List Nat} (h : encode as = encode bs) : as = bs := by
  induction as generalizing bs with
  | nil =>
    cases bs with
    | nil => rfl
    | cons b bs => exact absurd h.symm (Nat.ne_of_gt (joined_pos _ _))
  | cons a as ih =>
    cases bs with
    | nil => exact absurd h (Nat.ne_of_gt (joined_pos _ _))
    | cons b bs =>
      obtain ⟨hs, rfl⟩ := joined_inj h
      rw [ih hs]

theorem ctorIdx_lt (f : Builtin) : f.ctorIdx < 1024 := by
  cases f <;> exact Nat.le_of_ble_eq_true rfl

/-- Functions of one kind with the same content are the same. -/
theorem eq_of_content {f g : Builtin} (hi : f.ctorIdx = g.ctorIdx) (hc : f.content = g.content) :
    f = g := by
  cases f with
  | giving r =>
    refine Builtin.ctorElim
      (motive := fun g => (giving r).content = g.content → giving r = g) _ g hi
      ⟨fun s hs => ?_⟩ hc
    rw [List.map_injective_iff.mpr (fun _ _ => Constant.code_inj) hs]
  | refusing m =>
    refine Builtin.ctorElim
      (motive := fun g => (refusing m).content = g.content → refusing m = g) _ g hi
      ⟨fun s hs => ?_⟩ hc
    have hl := List.map_injective_iff.mpr (fun _ _ => Char.toNat_inj.mp) hs
    rw [String.toList_inj.mp hl]
  | allocating n =>
    refine Builtin.ctorElim
      (motive := fun g => (allocating n).content = g.content → allocating n = g) _ g hi
      ⟨fun s hs => ?_⟩ hc
    rw [List.singleton_inj.mp hs]
  | _ => exact Builtin.ctorElim (motive := fun g => _ = g) _ g hi ⟨rfl⟩

theorem address_inj {f g : Builtin} (h : f.address = g.address) : f = g := by
  have hf := ctorIdx_lt f
  have hg := ctorIdx_lt g
  unfold address at h
  exact eq_of_content (by omega) (encode_inj (by omega))

end Engine.Builtin

/-- Values of one type that are read as handles are the same if their addresses are. -/
theorem Engine.Val.eq_of_address {u v : Val} (hk : v.tag.isOpaqueKind) (ht : u.tag = v.tag)
    (ha : u.address = v.address) : u = v := by
  cases v with
  | table i =>
    cases u <;> simp only [Val.tag, reduceCtorEq] at ht
    case table j =>
      simp only [Val.address] at ha
      rw [show j = i by omega]
  | userdata i =>
    cases u <;> simp only [Val.tag, reduceCtorEq] at ht
    case userdata j =>
      simp only [Val.address] at ha
      rw [show j = i by omega]
  | light p =>
    cases u <;> simp only [Val.tag, reduceCtorEq] at ht
    case light q => rw [show q = p from ha]
  | builtin f =>
    cases u <;> simp only [Val.tag, reduceCtorEq] at ht
    case builtin g =>
      simp only [Val.address] at ha
      rw [Builtin.address_inj (show g.address = f.address by omega)]
    case closure j =>
      simp only [Val.address] at ha
      omega
  | closure i =>
    cases u <;> simp only [Val.tag, reduceCtorEq] at ht
    case builtin g =>
      simp only [Val.address] at ha
      omega
    case closure j =>
      simp only [Val.address] at ha
      rw [show j = i by omega]
  | _ => cases hk

/-! ### The printed form -/

theorem hexDigit_inj :
    ∀ m < 16, ∀ n < 16, Nat.digitChar m = Nat.digitChar n → m = n := by
  decide

theorem hexDigits_inj {m n : Nat} (h : Nat.toDigits 16 m = Nat.toDigits 16 n) : m = n := by
  induction m using Nat.strongRecOn generalizing n with
  | ind m ih =>
    rw [Nat.toDigits_eq_if (by decide), Nat.toDigits_eq_if (n := n) (by decide)] at h
    have hlong : ∀ k c d, [c] ≠ Nat.toDigits 16 k ++ [d] := by
      intro k c d he
      have hl := congrArg List.length he
      have hp : 0 < (Nat.toDigits 16 k).length := Nat.length_toDigits_pos
      simp only [List.length_singleton, List.length_append] at hl
      omega
    split at h
    next hm =>
      split at h
      next hn => exact hexDigit_inj _ hm _ hn (List.singleton_inj.mp h)
      next => exact absurd h (hlong _ _ _)
    next hm =>
      split at h
      next => exact absurd h.symm (hlong _ _ _)
      next =>
        obtain ⟨hd, hc⟩ := List.append_inj' h rfl
        have hq := ih (m / 16) (by omega) hd
        have hr := hexDigit_inj _ (Nat.mod_lt m (by decide)) _ (Nat.mod_lt n (by decide))
          (List.singleton_inj.mp hc)
        omega

theorem x_not_mem_hexDigits (n : Nat) : 'x' ∉ Nat.toDigits 16 n := by
  induction n using Nat.strongRecOn with
  | ind n ih =>
    rw [Nat.toDigits_eq_if (by decide)]
    split
    · simp
    · simpa using ih (n / 16) (by omega)

/-- What follows the last of some marks is known. -/
theorem append_cons_inj {α : Type} {a : α} {s t u v : List α} (ht : a ∉ t) (hv : a ∉ v)
    (h : s ++ a :: t = u ++ a :: v) : s = u ∧ t = v := by
  rcases List.append_eq_append_iff.mp h with ⟨r, hu, hr⟩ | ⟨r, hs, hr⟩
  · cases r with
    | nil => simp_all
    | cons b r =>
      obtain ⟨rfl, rfl⟩ := List.cons.inj hr
      simp at ht
  · cases r with
    | nil => simp_all
    | cons b r =>
      obtain ⟨rfl, rfl⟩ := List.cons.inj hr
      simp at hv

/-- A printed name determines the kind and the address, whatever text the kind is. -/
theorem name_inj {k l : String} {u v : Val}
    (h : k ++ ": " ++ addressText u = l ++ ": " ++ addressText v) :
    k = l ∧ u.address = v.address := by
  have hl := congrArg String.toList h
  have hp : ∀ (k : String) (v : Val), (k ++ ": " ++ addressText v).toList
      = (k.toList ++ [':', ' ', '0']) ++ 'x' :: Nat.toDigits 16 v.address := by
    intro k v
    simp [addressText]
  rw [hp, hp] at hl
  obtain ⟨hk, ha⟩ := append_cons_inj (x_not_mem_hexDigits _) (x_not_mem_hexDigits _) hl
  exact ⟨String.toList_inj.mp (List.append_cancel_right hk), hexDigits_inj ha⟩

namespace World

variable {σ μ : Type}

/-- What stands before the address in a value's printed form. -/
def kindName (w : World σ μ) (c : Context) (v : Val) : String :=
  match v with
  | .userdata _ =>
    match (w.heap c.vm).metafield v "__name" with
    | .str s => s.toStringLossy
    | _ => v.tag.name
  | _ => v.tag.name

theorem displayName_eq (w : World σ μ) (c : Context) (v : Val) :
    w.displayName c v = w.kindName c v ++ ": " ++ addressText v := by
  cases v <;> rfl

/-- Values of one type are the same if their printed forms are, whatever the names of userdata. -/
theorem eq_of_displayName {w w' : World σ μ} {c d : Context} {u v : Val}
    (hk : v.tag.isOpaqueKind) (ht : u.tag = v.tag) (h : w'.displayName d u = w.displayName c v) :
    u = v := by
  rw [displayName_eq, displayName_eq] at h
  exact Val.eq_of_address hk ht (name_inj h).2

end World
end LuaEmbed
