import LuaEmbed.Host.Marshal
import LuaEmbed.Proofs.Lookup

/-!
What tables hold. The keys of a table are in a strict order, and a store changes the entry under its
own key and no other, whatever becomes of the table's two parts.
-/
namespace LuaEmbed.Engine

namespace Val

/-- What sets a key apart among integers, and among texts. -/
def intPart : Val → Int64
  | int i => i
  | _ => 0

def textPart : Val → Array UInt8
  | str s => s.data
  | _ => #[]

/-- Keys are ordered by their type first. -/
theorem order_eq_lex : order = compareLex (compareOn rank)
    (compareLex (compareOn intPart) (compareLex (compareOn textPart) (compareOn serial))) := by
  funext a b
  cases a <;> cases b <;> first
    | rfl
    | simp [order, compareLex, compareOn, rank, intPart, textPart, serial, Bytes.order,
        Std.ReflCmp.compare_self]

instance : Std.TransCmp order := by
  rw [order_eq_lex]
  infer_instance

theorem order_text {s : Bytes} {k : Val} : order (.str s) k = .eq ↔ k = .str s := by
  cases k with
  | str t =>
    have hdata : compare s.data t.data = .eq ↔ s.data = t.data := Std.LawfulEqOrd.compare_eq_iff_eq
    have hlift : s.data = t.data ↔ t = s := by
      cases s
      cases t
      simp [eq_comm]
    simpa [order, Bytes.order] using hdata.trans hlift
  | _ => simp [order, rank, compare, compareOfLessAndEq]

end Val

namespace Table

variable (t : Table)

/-- Removed entries make no difference to what is found. -/
theorem find_resize (array hash : Nat) (k : Val) : (t.resize array hash).find k = t.find k := by
  unfold find resize
  dsimp only
  rw [Std.TreeMap.getD_filter, Std.TreeMap.getD_eq_getD_getElem?]
  cases t.entries[k]? with
  | none => rfl
  | some v => cases v <;> rfl

theorem find_put (k v k' : Val) :
    (t.put k v).find k' = if Val.order k k' = .eq then v else t.find k' := by
  have hstore : ∀ (u : Table), (∀ x, u.find x = t.find x) → ∀ used : Nat,
      ({ u with entries := u.entries.insert k v, hashUsed := used } : Table).find k' =
        if Val.order k k' = .eq then v else t.find k' := by
    intro u hu used
    rw [← hu]
    exact Std.TreeMap.getD_insert
  unfold put
  split
  · exact hstore t (fun _ => rfl) t.hashUsed
  next habsent =>
    split
    next hnil =>
      -- There is nothing to remove.
      split
      next hk =>
        have hv : v = .nil := by cases v <;> first | rfl | cases hnil
        have hc : t.entries.contains k' = false := by
          rw [Bool.not_eq_true, Bool.or_eq_false_iff] at habsent
          rw [← Std.TreeMap.contains_congr hk]
          exact habsent.1
        rw [hv]
        exact Std.TreeMap.getD_eq_fallback_of_contains_eq_false hc
      next => rfl
    next =>
      dsimp only
      split
      · exact hstore _ (fun x => t.find_resize _ _ x) _
      · exact hstore t (fun _ => rfl) _

theorem get_set_text (s : Bytes) (v k : Val) :
    (t.set (.str s) v).get k = if k.normalKey = .str s then v else t.get k := by
  unfold set get
  rw [show Val.normalKey (.str s) = .str s from rfl, find_put]
  simp only [Val.order_text]

end Table

namespace Heap

variable (h : Heap)

theorem table_modifyTable (i j : Nat) (f : Table → Table) :
    (h.modifyTable i f).table j =
      if i = j then ((h.tables.get? j).map f).getD {} else h.table j := by
  unfold table modifyTable
  rw [Pool.get?_modify]
  split <;> rfl

/-- A value is a table that has not been freed. -/
def Has (t : Val) : Prop := ∃ i x, t = .table i ∧ h.tables.get? i = some x

variable {h}

theorem rawGet_rawSet_key {t : Val} (ht : h.Has t) (k v : Val) : (h.rawSet t k v).rawGet t k = v := by
  obtain ⟨i, x, rfl, hx⟩ := ht
  change ((h.modifyTable i _).table i).get _ = v
  rw [table_modifyTable, if_pos rfl, hx]
  exact (x.find_put k.normalKey v k.normalKey).trans (if_pos Std.ReflCmp.compare_self)

theorem rawGet_rawSet_self {t : Val} (ht : h.Has t) (s : Bytes) (v : Val) :
    (h.rawSet t (.str s) v).rawGet t (.str s) = v := rawGet_rawSet_key ht _ v

/-- The entry under another key, or in another table. -/
theorem rawGet_rawSet_of_ne {t u k : Val} {s : Bytes} (hne : t ≠ u ∨ k.normalKey ≠ .str s)
    (v : Val) : (h.rawSet t (.str s) v).rawGet u k = h.rawGet u k := by
  cases t with
  | table i =>
    cases u with
    | table j =>
      change ((h.modifyTable i _).table j).get k = (h.table j).get k
      rw [table_modifyTable]
      split
      next hij =>
        subst hij
        have hk := hne.resolve_left fun hn => hn rfl
        unfold table
        cases h.tables.get? i with
        | none => rfl
        | some x => exact (x.get_set_text s v k).trans (if_neg hk)
      next => rfl
    | _ => rfl
  | _ => rfl

/-- A store in a table shows in that table alone, under its own key, as the value that is stored. -/
theorem rawGet_rawSet_cases (t k v u k' : Val) :
    (h.rawSet t k v).rawGet u k' = h.rawGet u k' ∨
      t = u ∧ Val.order k.normalKey k'.normalKey = .eq ∧ (h.rawSet t k v).rawGet u k' = v := by
  cases t with
  | table i =>
    cases u with
    | table j =>
      change ((h.modifyTable i (·.set k v)).table j).get k' = (h.table j).get k' ∨
        _ ∧ _ ∧ ((h.modifyTable i (·.set k v)).table j).get k' = v
      rw [table_modifyTable]
      split
      next hij =>
        subst hij
        unfold table
        cases h.tables.get? i with
        | none => exact .inl rfl
        | some x =>
          change (x.put k.normalKey v).find k'.normalKey = x.find k'.normalKey ∨
            _ ∧ _ ∧ (x.put k.normalKey v).find k'.normalKey = v
          rw [x.find_put]
          split
          next hk => exact .inr ⟨rfl, hk, rfl⟩
          next => exact .inl rfl
      next => exact .inl rfl
    | _ => exact .inl rfl
  | _ => exact .inl rfl

theorem Has.rawSet {t : Val} (ht : h.Has t) (u k v : Val) : (h.rawSet u k v).Has t := by
  obtain ⟨i, x, rfl, hx⟩ := ht
  cases u with
  | table j =>
    refine ⟨i, if j = i then x.set k v else x, rfl, ?_⟩
    change ((h.tables.modify j (·.set k v)).get? i) = _
    rw [Pool.get?_modify, hx]
    split <;> rfl
  | _ => exact ⟨i, x, rfl, hx⟩

theorem has_newTable (h : Heap) (x : Table) : (h.newTable x).2.Has (h.newTable x).1 :=
  ⟨_, x, rfl, by unfold newTable; rw [Pool.get?_push, if_pos rfl]⟩

theorem get?_newTable {i : Nat} {y : Table} (hi : h.tables.get? i = some y) (x : Table) :
    (h.newTable x).2.tables.get? i = some y := by
  have hlt : i < h.tables.next := by
    have hitem : h.tables.items[i]? = some (some y) := Option.join_eq_some_iff.mp hi
    exact (Array.getElem?_eq_some_iff.mp hitem).1
  unfold newTable
  rw [Pool.get?_push, if_neg (Nat.ne_of_lt hlt), hi]

theorem Has.newTable {t : Val} (ht : h.Has t) (x : Table) : (h.newTable x).2.Has t := by
  obtain ⟨i, y, rfl, hi⟩ := ht
  exact ⟨i, y, rfl, get?_newTable hi x⟩

/-- An empty table shows nothing that was not there before. -/
theorem rawGet_newTable (t k : Val) : (h.newTable {}).2.rawGet t k = h.rawGet t k := by
  cases t with
  | table i =>
    change (((h.tables.push {}).get? i).getD {}).get k = ((h.tables.get? i).getD {}).get k
    rw [Pool.get?_push]
    split
    next hi =>
      have hnone : h.tables.get? i = none := by
        unfold Pool.get?
        rw [hi, Array.getElem?_eq_none (Nat.le_refl h.tables.next)]
        rfl
      rw [hnone]
      rfl
    next => rfl
  | _ => rfl

/-! ### The registry -/

variable (h)

/-- The table of loaded modules, and the objects once there is one. -/
def loadedTable : Val := (h.subtable h.registryTable "_LOADED").1

def withLoaded : Heap := (h.subtable h.registryTable "_LOADED").2

/-- What is loaded under a name. -/
def loadedEntry (name : Bytes) : Val := h.withLoaded.rawGet h.loadedTable (.str name)

/-- The registry has the record of the interpreter. -/
def Recorded : Prop := ∃ p, p ≠ 0 ∧ h.rawGet h.registryTable recordKey = .light p

/-- The number of the interpreter, by its record. -/
def owner? : Option Nat :=
  match h.rawGet h.registryTable recordKey with
  | .light p => if p = 0 then none else some ((p - 0x7F10000000) / 0x100)
  | _ => none

theorem recorded_iff : h.Recorded ↔ h.owner? ≠ none := by
  unfold Recorded owner?
  constructor
  · rintro ⟨p, h0, hp⟩
    rw [hp]
    simp [h0]
  · intro ho
    split at ho
    next p hp => exact ⟨p, fun h0 => ho (if_pos h0), hp⟩
    next => exact absurd rfl ho

theorem registryTable_rawSet (t k v : Val) : (h.rawSet t k v).registryTable = h.registryTable := by
  cases t <;> rfl

theorem globals_rawSet (t : Val) (s : Bytes) (v : Val) :
    (h.rawSet t (.str s) v).globals = h.globals := by
  unfold globals
  rw [registryTable_rawSet]
  exact rawGet_rawSet_of_ne (.inr (by simp [Val.normalKey])) v

theorem recorded_rawSet (t : Val) (s : Bytes) (v : Val) :
    (h.rawSet t (.str s) v).Recorded ↔ h.Recorded := by
  unfold Recorded
  rw [registryTable_rawSet, rawGet_rawSet_of_ne (.inr (by simp [recordKey, Val.normalKey]))]

theorem rawGet_withLoaded {k : Val} (hk : k.normalKey ≠ .text "_LOADED") :
    h.withLoaded.rawGet h.withLoaded.registryTable k = h.rawGet h.registryTable k := by
  unfold withLoaded subtable
  split
  · rfl
  · change ((h.newTable {}).2.rawSet h.registryTable (.text "_LOADED") _).rawGet h.registryTable k = _
    exact (rawGet_rawSet_of_ne (.inr hk) _).trans (rawGet_newTable _ _)

theorem globals_withLoaded : h.withLoaded.globals = h.globals := h.rawGet_withLoaded (by decide)

theorem recorded_withLoaded : h.withLoaded.Recorded ↔ h.Recorded := by
  unfold Recorded
  rw [rawGet_withLoaded h (by simp [recordKey, Val.normalKey, Val.text])]

theorem Has.withLoaded {t : Val} (ht : h.Has t) : h.withLoaded.Has t := by
  unfold Heap.withLoaded subtable
  split
  · exact ht
  · exact (ht.newTable {}).rawSet _ _ _

end Heap
end LuaEmbed.Engine
