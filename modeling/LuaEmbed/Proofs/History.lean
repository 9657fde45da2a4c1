import LuaEmbed.Host.World
import Mathlib.Data.List.Basic

/-!
Histories of interpreters and their views, the latest event first. In an orderly one an interpreter
is closed at the moment when it has lost its owner and its last view, whichever comes second, and at
no other moment.
-/
namespace LuaEmbed.History

/-- The views that are open at the end. -/
def live : List Happening → List View
  | [] => []
  | .opened v :: es => v :: live es
  | .dropped v :: es => (live es).erase v
  | _ :: es => live es

/-- The open views of one interpreter. -/
def liveOf (es : List Happening) (i : Nat) : List View := (live es).filter (·.stack.vm = i)

/-- An interpreter without owner and views has not been closed yet. -/
def Due (es : List Happening) (i : Nat) : Prop :=
  .disowned i ∈ es ∧ liveOf es i = [] ∧ .closed i ∉ es

/-- Whenever an interpreter is due to be closed, that comes next, and it is not closed otherwise.
Views are opened of interpreters with an owner, and only open views are dropped. -/
inductive Orderly : List Happening → Prop where
  | start : Orderly []
  | opened {es v} (h : Orderly es) (hd : ∀ i, ¬ Due es i) (hv : v ∉ live es)
    (ho : .disowned v.stack.vm ∉ es) : Orderly (.opened v :: es)
  | dropped {es v} (h : Orderly es) (hd : ∀ i, ¬ Due es i) (hv : v ∈ live es) :
    Orderly (.dropped v :: es)
  | disowned {es i} (h : Orderly es) (hd : ∀ i, ¬ Due es i) (ho : .disowned i ∉ es) :
    Orderly (.disowned i :: es)
  | closed {es i} (h : Orderly es) (hd : Due es i) : Orderly (.closed i :: es)

variable {es fs : List Happening} {v : View} {i j : Nat}

theorem liveOf_opened :
    liveOf (.opened v :: es) i = if v.stack.vm = i then v :: liveOf es i else liveOf es i := by
  simp [liveOf, live, List.filter_cons]

theorem liveOf_dropped : liveOf (.dropped v :: es) i = (liveOf es i).erase v :=
  List.erase_filter.symm

theorem mem_liveOf : v ∈ liveOf es i ↔ v ∈ live es ∧ v.stack.vm = i := by
  simp [liveOf]

/-- No view is open twice. -/
theorem Orderly.nodup (h : Orderly es) : (live es).Nodup := by
  induction h with
  | start => exact List.nodup_nil
  | opened _ _ hv _ ih => exact List.nodup_cons.mpr ⟨hv, ih⟩
  | dropped _ _ _ ih => exact ih.erase _
  | disowned _ _ _ ih => exact ih
  | closed _ _ ih => exact ih

/-- How many views of an interpreter are left when one is dropped. -/
theorem length_liveOf_dropped (hv : v ∈ live es) :
    (liveOf (.dropped v :: es) i).length
      = (liveOf es i).length - if v.stack.vm = i then 1 else 0 := by
  rw [liveOf_dropped]
  split
  next h => exact List.length_erase_of_mem (mem_liveOf.mpr ⟨hv, h⟩)
  next h => rw [List.erase_of_not_mem fun hm => h (mem_liveOf.mp hm).2, Nat.sub_zero]

/-- An interpreter is closed once at most. -/
theorem Orderly.closed_once (h : Orderly es) (i : Nat) : es.count (.closed i) ≤ 1 := by
  induction h with
  | start => simp
  | @closed es j _ hd ih =>
    by_cases hj : j = i
    · subst hj
      simp [List.count_eq_zero.mpr hd.2.2]
    · simpa [List.count_cons, hj] using ih
  | _ => simpa [List.count_cons] using by assumption

/-- An interpreter that has been closed has no owner and no view, from then on. -/
theorem Orderly.of_closed (h : Orderly es) (hc : .closed i ∈ es) :
    .disowned i ∈ es ∧ liveOf es i = [] := by
  induction h with
  | start => cases hc
  | @opened es v _ _ _ ho ih =>
    obtain ⟨hd, hl⟩ := ih (by simpa using hc)
    have hv : v.stack.vm ≠ i := fun hv => ho (hv ▸ hd)
    exact ⟨List.mem_cons_of_mem _ hd, by rw [liveOf_opened, if_neg hv, hl]⟩
  | @dropped es v _ _ hv ih =>
    obtain ⟨hd, hl⟩ := ih (by simpa using hc)
    exact ⟨List.mem_cons_of_mem _ hd, by rw [liveOf_dropped, hl, List.erase_nil]⟩
  | @disowned es j _ _ _ ih =>
    obtain ⟨hd, hl⟩ := ih (by simpa using hc)
    exact ⟨List.mem_cons_of_mem _ hd, hl⟩
  | @closed es j _ hd ih =>
    by_cases hj : j = i
    · subst hj
      exact ⟨List.mem_cons_of_mem _ hd.1, hd.2.1⟩
    · obtain ⟨hd, hl⟩ := ih (by simpa [Ne.symm hj] using hc)
      exact ⟨List.mem_cons_of_mem _ hd, hl⟩

/-! ### Which event makes an interpreter due -/

theorem due_opened (h : Due (.opened v :: es) i) : Due es i := by
  obtain ⟨ho, hl, hc⟩ := h
  rw [liveOf_opened] at hl
  split at hl
  · cases hl
  · exact ⟨by simpa using ho, hl, by simpa using hc⟩

theorem due_dropped (hv : v.stack.vm ≠ i) (h : Due (.dropped v :: es) i) : Due es i := by
  obtain ⟨ho, hl, hc⟩ := h
  rw [liveOf_dropped, List.erase_of_not_mem fun hm => hv (mem_liveOf.mp hm).2] at hl
  exact ⟨by simpa using ho, hl, by simpa using hc⟩

theorem due_disowned (hj : j ≠ i) (h : Due (.disowned j :: es) i) : Due es i := by
  obtain ⟨ho, hl, hc⟩ := h
  exact ⟨by simpa [Ne.symm hj] using ho, hl, by simpa using hc⟩

theorem due_closed (h : Due (.closed j :: es) i) : Due es i := by
  obtain ⟨ho, hl, hc⟩ := h
  exact ⟨by simpa using ho, hl, fun hm => hc (List.mem_cons_of_mem _ hm)⟩

end LuaEmbed.History
