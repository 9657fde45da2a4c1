import LuaEmbed.Host.World
import Mathlib.Data.List.Basic

/-!
Histories of handles to threads, the latest event first. A handle takes a reference when it is made, and
all its clones share it. In an orderly history the reference is released when the last clone goes, once
and at no other moment, and it is not released at all when the owner of the interpreter has gone before.
-/
namespace LuaEmbed

/-- What happens to handles, by their numbers, and to the references that they hold. -/
inductive Holding where
  /-- A handle to a thread is made, which takes a reference. -/
  | taken (id : Nat) (thread : StackId) (reference : Nat)
  | cloned (id : Nat)
  /-- A clone goes, and it is not the last one. -/
  | dropped (id : Nat)
  /-- The last clone goes, and the reference with it. -/
  | released (id : Nat)
  /-- The last clone goes, and the reference stays where nobody owns it any more. -/
  | left (id : Nat)
  /-- The owner of an interpreter has let go of it. -/
  | disowned (vm : Nat)
  deriving DecidableEq

namespace Holding

/-- How many clones there are of a handle. -/
def clones : List Holding → Nat → Nat
  | [], _ => 0
  | .taken j _ _ :: es, id | .cloned j :: es, id => clones es id + if j = id then 1 else 0
  | .dropped j :: es, id | .released j :: es, id | .left j :: es, id =>
    clones es id - if j = id then 1 else 0
  | .disowned _ :: es, id => clones es id

/-- Every handle is new, and so is its reference; only what is there is cloned and goes; the last clone
takes the reference with it, as long as there is an owner. -/
inductive Orderly : List Holding → Prop where
  | start : Orderly []
  | taken {es id t r} (h : Orderly es) (hid : ∀ t r, .taken id t r ∉ es)
    (hr : ∀ id t', t'.vm = t.vm → .taken id t' r ∉ es) : Orderly (.taken id t r :: es)
  | cloned {es id} (h : Orderly es) (hc : 0 < clones es id) : Orderly (.cloned id :: es)
  | dropped {es id} (h : Orderly es) (hc : 1 < clones es id) : Orderly (.dropped id :: es)
  | released {es id t r} (h : Orderly es) (hc : clones es id = 1) (ht : .taken id t r ∈ es)
    (ho : .disowned t.vm ∉ es) : Orderly (.released id :: es)
  | left {es id t r} (h : Orderly es) (hc : clones es id = 1) (ht : .taken id t r ∈ es)
    (ho : .disowned t.vm ∈ es) : Orderly (.left id :: es)
  | disowned {es i} (h : Orderly es) (ho : .disowned i ∉ es) : Orderly (.disowned i :: es)

variable {es fs : List Holding} {id id' i r r' : Nat} {t t' : StackId}

theorem clones_eq_zero (h : Orderly es) (hid : ∀ t r, .taken id t r ∉ es) : clones es id = 0 := by
  have hrest : ∀ {e es}, (∀ t r, .taken id t r ∉ e :: es) → ∀ t r, Holding.taken id t r ∉ es :=
    fun h t r hm => h t r (List.mem_cons_of_mem _ hm)
  induction h with
  | start => rfl
  | @taken es j t r _ _ _ ih =>
    rw [clones, ih (hrest hid), if_neg]
    rintro rfl
    exact hid t r List.mem_cons_self
  | @cloned es j _ hc ih =>
    rw [clones, ih (hrest hid), if_neg]
    rintro rfl
    rw [ih (hrest hid)] at hc
    exact absurd hc (Nat.lt_irrefl 0)
  | dropped _ _ ih | released _ _ _ _ ih | left _ _ _ _ ih =>
    rw [clones, ih (hrest hid), Nat.zero_sub]
  | disowned _ _ ih => exact ih (hrest hid)

/-- Whatever there are clones of has been made. -/
theorem taken_of_clones (h : Orderly es) (hc : 0 < clones es id) : ∃ t r, .taken id t r ∈ es := by
  by_contra hn
  push Not at hn
  rw [clones_eq_zero h hn] at hc
  exact absurd hc (Nat.lt_irrefl 0)

namespace Orderly

/-- A handle is made once, to one thread and with one reference. -/
theorem taken_once (h : Orderly es) (ht : .taken id t r ∈ es) (ht' : .taken id t' r' ∈ es) :
    t = t' ∧ r = r' := by
  induction h with
  | start => cases ht
  | taken _ hid _ ih =>
    rcases List.mem_cons.mp ht with he | hm <;> rcases List.mem_cons.mp ht' with he' | hm'
    · cases he
      cases he'
      exact ⟨rfl, rfl⟩
    · cases he
      exact absurd hm' (hid _ _)
    · cases he'
      exact absurd hm (hid _ _)
    · exact ih hm hm'
  | cloned _ _ ih | dropped _ _ ih | released _ _ _ _ ih | left _ _ _ _ ih | disowned _ _ ih =>
    exact ih (by simpa using ht) (by simpa using ht')

/-- No two handles hold the same reference. -/
theorem reference_once (h : Orderly es) (ht : .taken id t r ∈ es) (ht' : .taken id' t' r ∈ es)
    (hvm : t.vm = t'.vm) : id = id' := by
  induction h with
  | start => cases ht
  | taken _ _ hr ih =>
    rcases List.mem_cons.mp ht with he | hm <;> rcases List.mem_cons.mp ht' with he' | hm'
    · cases he
      cases he'
      rfl
    · cases he
      exact absurd hm' (hr _ _ hvm.symm)
    · cases he'
      exact absurd hm (hr _ _ hvm)
    · exact ih hm hm'
  | cloned _ _ ih | dropped _ _ ih | released _ _ _ _ ih | left _ _ _ _ ih | disowned _ _ ih =>
    exact ih (by simpa using ht) (by simpa using ht')

/-- What has been released is a handle that has gone for good. -/
theorem gone_of_released (h : Orderly es) (hr : .released id ∈ es) :
    clones es id = 0 ∧ ∃ t r, .taken id t r ∈ es := by
  have hcons : ∀ e es, (∃ t r, Holding.taken id t r ∈ es) → ∃ t r, Holding.taken id t r ∈ e :: es :=
    fun e es ⟨t, r, hm⟩ => ⟨t, r, List.mem_cons_of_mem e hm⟩
  induction h with
  | start => cases hr
  | @taken es j t r _ hid _ ih =>
    obtain ⟨hc, t', r', hm⟩ := ih (by simpa using hr)
    refine ⟨?_, hcons _ _ ⟨t', r', hm⟩⟩
    rw [clones, hc, if_neg]
    rintro rfl
    exact hid _ _ hm
  | @cloned es j _ hpos ih =>
    obtain ⟨hc, hm⟩ := ih (by simpa using hr)
    refine ⟨?_, hcons _ _ hm⟩
    rw [clones, hc, if_neg]
    rintro rfl
    omega
  | dropped _ _ ih | left _ _ _ _ ih =>
    obtain ⟨hc, hm⟩ := ih (by simpa using hr)
    exact ⟨by rw [clones, hc, Nat.zero_sub], hcons _ _ hm⟩
  | @released es j t r _ hone ht _ ih =>
    rcases List.mem_cons.mp hr with he | hr
    · cases he
      exact ⟨by rw [clones, hone, if_pos rfl], t, r, List.mem_cons_of_mem _ ht⟩
    · obtain ⟨hc, hm⟩ := ih hr
      exact ⟨by rw [clones, hc, Nat.zero_sub], hcons _ _ hm⟩
  | disowned _ _ ih =>
    obtain ⟨hc, hm⟩ := ih (by simpa using hr)
    exact ⟨hc, hcons _ _ hm⟩

/-- No reference is released twice. -/
theorem released_once (h : Orderly es) (id : Nat) : es.count (.released id) ≤ 1 := by
  induction h with
  | start => exact Nat.zero_le 1
  | @released es j t r h hone _ _ ih =>
    by_cases hj : j = id
    · subst hj
      have hnot : .released j ∉ es := fun hm => by
        rw [(h.gone_of_released hm).1] at hone
        cases hone
      exact Nat.le_of_eq (by rw [List.count_cons_self, List.count_eq_zero.mpr hnot])
    · rw [List.count_cons_of_ne (by simpa using hj)]
      exact ih
  | taken _ _ _ ih | cloned _ _ ih | dropped _ _ ih | left _ _ _ _ ih | disowned _ _ ih =>
    rw [List.count_cons_of_ne (by simp)]
    exact ih

/-- A handle that has gone has released its reference, unless its interpreter had lost its owner. -/
theorem released_of_gone (h : Orderly es) (ht : .taken id t r ∈ es) (hc : clones es id = 0)
    (ho : .disowned t.vm ∉ es) : .released id ∈ es := by
  have hrest : ∀ {e : Holding} {es}, .disowned t.vm ∉ e :: es → .disowned t.vm ∉ es :=
    fun h hm => h (List.mem_cons_of_mem _ hm)
  induction h with
  | start => cases ht
  | @taken es j t' r' _ _ _ ih =>
    rw [clones] at hc
    have hj : j ≠ id := by
      rintro rfl
      rw [if_pos rfl] at hc
      cases hc
    rw [if_neg hj] at hc
    rcases List.mem_cons.mp ht with he | hm
    · cases he
      exact absurd rfl hj
    · exact List.mem_cons_of_mem _ (ih hm hc (hrest ho))
  | cloned _ _ ih =>
    rw [clones] at hc
    exact List.mem_cons_of_mem _ (ih (by simpa using ht) (by omega) (hrest ho))
  | @dropped es j _ hmore ih =>
    have hj : j ≠ id := by
      rintro rfl
      rw [clones, if_pos rfl] at hc
      omega
    rw [clones, if_neg hj] at hc
    exact List.mem_cons_of_mem _ (ih (by simpa using ht) hc (hrest ho))
  | @released es j t' r' _ _ _ _ ih =>
    by_cases hj : j = id
    · subst hj
      exact List.mem_cons_self
    · rw [clones, if_neg hj] at hc
      exact List.mem_cons_of_mem _ (ih (by simpa using ht) hc (hrest ho))
  | @left es j t' r' h _ ht' ho' ih =>
    have hm : .taken id t r ∈ es := by simpa using ht
    have hj : j ≠ id := by
      rintro rfl
      obtain ⟨rfl, -⟩ := h.taken_once ht' hm
      exact hrest ho ho'
    rw [clones, if_neg hj] at hc
    exact List.mem_cons_of_mem _ (ih hm hc (hrest ho))
  | disowned _ _ ih => exact List.mem_cons_of_mem _ (ih (by simpa using ht) hc (hrest ho))

/-- As long as there is an owner, a reference has been released once if its handle has gone, and
otherwise not. -/
theorem count_released (h : Orderly es) (ht : .taken id t r ∈ es) (ho : .disowned t.vm ∉ es) :
    es.count (.released id) = if clones es id = 0 then 1 else 0 := by
  split
  next hc =>
    have hpos := List.count_pos_iff.mpr (h.released_of_gone ht hc ho)
    have hle := h.released_once id
    omega
  next hc => exact List.count_eq_zero.mpr fun hm => hc (h.gone_of_released hm).1

theorem tail (h : Orderly (e :: es)) : Orderly es := by
  cases h <;> assumption

/-- From the moment when an interpreter has lost its owner, none of its references is released. -/
theorem kept_after_disowned (h : Orderly (fs ++ .disowned i :: es))
    (ht : .taken id t r ∈ fs ++ .disowned i :: es) (hvm : t.vm = i) : .released id ∉ fs := by
  induction fs with
  | nil => exact List.not_mem_nil
  | cons e fs ih =>
    have htail := Orderly.tail h
    intro hm
    rcases List.mem_cons.mp hm with rfl | hm
    · cases h with
      | released _ _ ht' ho =>
        have htaken : .taken id t r ∈ fs ++ .disowned i :: es := by simpa using ht
        obtain ⟨rfl, -⟩ := htail.taken_once ht' htaken
        exact ho (by simp [hvm])
    · obtain ⟨-, t', r', ht'⟩ := htail.gone_of_released (List.mem_append_left _ hm)
      obtain ⟨rfl, rfl⟩ := h.taken_once ht (List.mem_cons_of_mem e ht')
      exact ih htail ht' hm

end Orderly
end Holding
end LuaEmbed
