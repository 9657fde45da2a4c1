import Mathlib.Data.List.Basic
import Mathlib.Data.List.Nodup

/-!
Histories of host objects, the latest event first. Owners on the host's side come and go, and userdata
that carry a reference are pushed and finalized. In an orderly history each of these is finalized at most
once after it was pushed, and is freed without having been finalized only if no finalizer of it was to
come any more.
-/
namespace LuaEmbed

/-- A host object whose references are counted. -/
inductive Asset where
  | function (id : Nat)
  | foreign (id : Nat)
  deriving DecidableEq

/-- A userdata of an interpreter that carries a reference to a host object. -/
@[ext]
structure Carrier where
  asset : Asset
  vm : Nat
  userdata : Nat
  deriving DecidableEq

/-- What happens to host objects and to what carries them. -/
inductive Owning where
  /-- The program makes an object and owns it. -/
  | made (x : Asset)
  /-- Someone on the host's side, its program or a call in progress, becomes another owner. -/
  | kept (x : Asset)
  | dropped (x : Asset)
  /-- A userdata with a reference is pushed; whether the engine is going to finalize it. -/
  | pushed (k : Carrier) (enlisted : Bool)
  /-- The engine has decided to finalize it, and will come to it. -/
  | due (k : Carrier)
  /-- Its turn passes without it having been finalized. -/
  | missed (k : Carrier)
  /-- It is finalized for the first time, and its reference released. -/
  | finalized (k : Carrier)
  /-- It is freed with its reference. -/
  | lost (k : Carrier)
  deriving DecidableEq

namespace Owning

/-- How many owners an object has on the host's side. -/
def owners : List Owning → Asset → Nat
  | [], _ => 0
  | .made y :: es, x | .kept y :: es, x => owners es x + if y = x then 1 else 0
  | .dropped y :: es, x => owners es x - if y = x then 1 else 0
  | _ :: es, x => owners es x

/-- The userdata that have not been finalized and are there. -/
def standing : List Owning → List Carrier
  | [] => []
  | .pushed k _ :: es => k :: standing es
  | .finalized k :: es | .lost k :: es => (standing es).erase k
  | _ :: es => standing es

/-- Those that have gone without having been finalized. -/
def stranded : List Owning → List Carrier
  | [] => []
  | .lost k :: es => k :: stranded es
  | _ :: es => stranded es

/-- Those that the engine has decided to finalize and has not come to. -/
def waiting : List Owning → List Carrier
  | [] => []
  | .due k :: es => k :: waiting es
  | .pushed k _ :: es | .missed k :: es | .finalized k :: es | .lost k :: es =>
    (waiting es).filter (· ≠ k)
  | _ :: es => waiting es

/-- Those that the engine is not going to finalize: it was not to from the beginning, or their turn has
passed. -/
def exempt : List Owning → List Carrier
  | [] => []
  | .pushed k enlisted :: es =>
    if enlisted then (exempt es).filter (· ≠ k) else k :: exempt es
  | .missed k :: es => k :: exempt es
  | _ :: es => exempt es

/-- How many userdata with a reference to an object have not been finalized. -/
def unfinalized (es : List Owning) (x : Asset) : Nat :=
  (standing es).countP (·.asset = x) + (stranded es).countP (·.asset = x)

/-- How many references there are to an object. -/
def claims (es : List Owning) (x : Asset) : Nat := owners es x + unfinalized es x

/-- The host's side clones and pushes only what is there, and drops only what it owns. -/
def Honest : List Owning → Prop
  | [] => True
  | .kept x :: es => 0 < claims es x ∧ Honest es
  | .dropped x :: es => 0 < owners es x ∧ Honest es
  | .pushed k _ :: es => 0 < claims es k.asset ∧ Honest es
  | _ :: es => Honest es

/-- There is one userdata at a time in each place; only what has not been finalized is finalized or
freed, and it is freed only if no finalizer of it is to come any more. -/
inductive Orderly : List Owning → Prop where
  | start : Orderly []
  | made {es x} (h : Orderly es) : Orderly (.made x :: es)
  | kept {es x} (h : Orderly es) : Orderly (.kept x :: es)
  | dropped {es x} (h : Orderly es) : Orderly (.dropped x :: es)
  | pushed {es k b} (h : Orderly es)
    (hk : ∀ j ∈ standing es, (j.vm, j.userdata) ≠ (k.vm, k.userdata)) : Orderly (.pushed k b :: es)
  | due {es k} (h : Orderly es) (hk : k ∈ standing es) : Orderly (.due k :: es)
  | missed {es k} (h : Orderly es) (hk : k ∈ waiting es) : Orderly (.missed k :: es)
  | finalized {es k} (h : Orderly es) (hk : k ∈ standing es) : Orderly (.finalized k :: es)
  | lost {es k} (h : Orderly es) (hk : k ∈ standing es) (he : k ∈ exempt es) :
    Orderly (.lost k :: es)

variable {es : List Owning} {k : Carrier} {x : Asset}

namespace Orderly

theorem nodup (h : Orderly es) : (standing es).Nodup := by
  induction h with
  | start => exact List.nodup_nil
  | pushed _ hk ih => exact List.nodup_cons.mpr ⟨fun hm => hk _ hm rfl, ih⟩
  | finalized _ _ ih | lost _ _ _ ih => exact ih.erase _
  | _ => assumption

/-- Whatever the engine is going to come to is there. -/
theorem standing_of_waiting (h : Orderly es) (hk : k ∈ waiting es) : k ∈ standing es := by
  induction h with
  | start => cases hk
  | pushed _ _ ih => exact List.mem_cons_of_mem _ (ih (List.mem_of_mem_filter hk))
  | due _ hd ih =>
    rcases List.mem_cons.mp hk with rfl | hk
    · exact hd
    · exact ih hk
  | missed _ _ ih => exact ih (List.mem_of_mem_filter hk)
  | finalized h _ ih | lost h _ _ ih =>
    obtain ⟨hw, hne⟩ := List.mem_filter.mp hk
    exact h.nodup.mem_erase_iff.mpr ⟨of_decide_eq_true hne, ih hw⟩
  | _ => exact ‹k ∈ waiting _ → _› hk

end Orderly

/-- How often a userdata has been pushed. -/
def pushes (es : List Owning) (k : Carrier) : Nat :=
  es.count (.pushed k true) + es.count (.pushed k false)

/-- Each time that it is pushed, a userdata is finalized once, freed once without that, or is still
there. -/
theorem Orderly.once (h : Orderly es) (k : Carrier) :
    pushes es k = es.count (.finalized k) + es.count (.lost k) + (standing es).count k := by
  induction h with
  | start => rfl
  | @pushed es j b h hj ih =>
    unfold pushes at ih ⊢
    -- Nothing stands in the place that is pushed to.
    have hfree : k = j → (standing es).count k = 0 := by
      rintro rfl
      exact List.count_eq_zero.mpr fun hm => hj _ hm rfl
    by_cases he : j = k
    · subst he
      have := hfree rfl
      cases b <;> simp [standing] <;> omega
    · cases b <;> simp [standing, he] <;> omega
  | @finalized es j h hj ih | @lost es j h hj _ ih =>
    have hcount : (standing es).count k = ((standing es).erase j).count k + if j = k then 1 else 0 := by
      by_cases he : j = k
      · subst he
        have hpos := List.count_pos_iff.mpr hj
        rw [List.count_erase_self, if_pos rfl]
        omega
      · rw [List.count_erase_of_ne (Ne.symm he), if_neg he, Nat.add_zero]
    unfold pushes at ih ⊢
    by_cases he : j = k <;> simp [standing, he] at hcount ⊢ <;> omega
  | _ => simpa [pushes, standing] using ‹_›

/-- Every userdata was to be finalized from the beginning, and none missed its turn. -/
def Served (es : List Owning) : Prop := ∀ k, .pushed k false ∉ es ∧ .missed k ∉ es

/-- Then none has gone without having been finalized. -/
theorem Orderly.served (h : Orderly es) (hs : Served es) : exempt es = [] ∧ stranded es = [] := by
  have htail : ∀ {e es}, Served (e :: es) → Served es := fun hs k =>
    ⟨fun hp => (hs k).1 (List.mem_cons_of_mem _ hp), fun hm => (hs k).2 (List.mem_cons_of_mem _ hm)⟩
  induction h with
  | start => exact ⟨rfl, rfl⟩
  | @pushed es k b _ _ ih =>
    obtain ⟨hexempt, hstranded⟩ := ih (htail hs)
    cases b with
    | true => exact ⟨by simp [exempt, hexempt], hstranded⟩
    | false => exact absurd (List.mem_cons_self ..) (hs k).1
  | missed => exact absurd (List.mem_cons_self ..) (hs _).2
  | lost _ _ he ih =>
    rw [(ih (htail hs)).1] at he
    cases he
  | _ => exact ‹Served _ → _› (htail hs)

/-! ### Several userdata at a time -/

section

variable (ks : List Carrier)

@[simp] theorem standing_due : standing (ks.map .due ++ es) = standing es := by
  induction ks with
  | nil => rfl
  | cons k ks ih => exact ih

@[simp] theorem standing_missed : standing (ks.map .missed ++ es) = standing es := by
  induction ks with
  | nil => rfl
  | cons k ks ih => exact ih

@[simp] theorem waiting_due : waiting (ks.map .due ++ es) = ks ++ waiting es := by
  induction ks with
  | nil => rfl
  | cons k ks ih => exact congrArg (k :: ·) ih

@[simp] theorem exempt_due : exempt (ks.map .due ++ es) = exempt es := by
  induction ks with
  | nil => rfl
  | cons k ks ih => exact ih

@[simp] theorem exempt_lost : exempt (ks.map .lost ++ es) = exempt es := by
  induction ks with
  | nil => rfl
  | cons k ks ih => exact ih

theorem mem_waiting_pushed {j : Carrier} {enlisted : Bool} :
    k ∈ waiting (.pushed j enlisted :: es) ↔ k ∈ waiting es ∧ k ≠ j := by
  simp [waiting]

theorem mem_waiting_finalized {j : Carrier} :
    k ∈ waiting (.finalized j :: es) ↔ k ∈ waiting es ∧ k ≠ j := by
  simp [waiting]

theorem mem_exempt_pushed {j : Carrier} {enlisted : Bool} (h : k ≠ j) :
    k ∈ exempt (.pushed j enlisted :: es) ↔ k ∈ exempt es := by
  cases enlisted <;> simp [exempt, h]

theorem mem_waiting_missed : k ∈ waiting (ks.map .missed ++ es) ↔ k ∈ waiting es ∧ k ∉ ks := by
  induction ks with
  | nil => simp
  | cons j ks ih =>
    have hcons : waiting ((j :: ks).map .missed ++ es) = (waiting (ks.map .missed ++ es)).filter (· ≠ j) :=
      rfl
    simp only [hcons, List.mem_filter, ih, decide_eq_true_eq, List.mem_cons, not_or]
    tauto

theorem mem_waiting_lost : k ∈ waiting (ks.map .lost ++ es) ↔ k ∈ waiting es ∧ k ∉ ks := by
  induction ks with
  | nil => simp
  | cons j ks ih =>
    have hcons : waiting ((j :: ks).map .lost ++ es) = (waiting (ks.map .lost ++ es)).filter (· ≠ j) :=
      rfl
    simp only [hcons, List.mem_filter, ih, decide_eq_true_eq, List.mem_cons, not_or]
    tauto

theorem mem_standing_lost (h : (standing es).Nodup) :
    (standing (ks.map .lost ++ es)).Nodup ∧
      ∀ k, k ∈ standing (ks.map .lost ++ es) ↔ k ∈ standing es ∧ k ∉ ks := by
  induction ks with
  | nil => simpa using h
  | cons j ks ih =>
    have hcons : standing ((j :: ks).map .lost ++ es) = (standing (ks.map .lost ++ es)).erase j := rfl
    refine ⟨hcons ▸ ih.1.erase j, fun k => ?_⟩
    rw [hcons, ih.1.mem_erase_iff, ih.2]
    simp only [List.mem_cons, not_or]
    tauto

variable {ks}

theorem Orderly.dues (h : Orderly es) (hk : ∀ k ∈ ks, k ∈ standing es) :
    Orderly (ks.map .due ++ es) := by
  induction ks with
  | nil => exact h
  | cons k ks ih =>
    obtain ⟨hfirst, hrest⟩ := List.forall_mem_cons.mp hk
    exact .due (ih hrest) ((standing_due ks).symm ▸ hfirst)

theorem Orderly.losses (h : Orderly es) (hn : ks.Nodup)
    (hk : ∀ k ∈ ks, k ∈ standing es ∧ k ∈ exempt es) : Orderly (ks.map .lost ++ es) := by
  induction ks with
  | nil => exact h
  | cons k ks ih =>
    obtain ⟨hnew, hn⟩ := List.nodup_cons.mp hn
    obtain ⟨hfirst, hrest⟩ := List.forall_mem_cons.mp hk
    exact .lost (ih hn hrest) (((mem_standing_lost ks h.nodup).2 k).mpr ⟨hfirst.1, hnew⟩)
      ((exempt_lost ks).symm ▸ hfirst.2)

/-! Some become due and others are lost. -/

variable {ls : List Carrier}

theorem mem_standing_swept (h : Orderly (ks.map .due ++ es)) :
    k ∈ standing (ls.map .lost ++ (ks.map .due ++ es)) ↔ k ∈ standing es ∧ k ∉ ls := by
  rw [(mem_standing_lost ls h.nodup).2, standing_due]

theorem mem_waiting_swept : k ∈ waiting (ls.map .lost ++ (ks.map .due ++ es)) ↔
    (k ∈ ks ∨ k ∈ waiting es) ∧ k ∉ ls := by
  rw [mem_waiting_lost, waiting_due, List.mem_append]

end

/-! ### How many references there are -/

theorem countP_standing (hk : k ∈ standing es) : (standing es).countP (·.asset = x) =
    ((standing es).erase k).countP (·.asset = x) + if k.asset = x then 1 else 0 := by
  rw [(List.perm_cons_erase hk).countP_eq, List.countP_cons]
  simp

theorem unfinalized_finalized (hk : k ∈ standing es) :
    unfinalized es x = unfinalized (.finalized k :: es) x + if k.asset = x then 1 else 0 := by
  have hcount := countP_standing (x := x) hk
  unfold unfinalized
  simp only [standing, stranded]
  omega

theorem unfinalized_lost (hk : k ∈ standing es) :
    unfinalized (.lost k :: es) x = unfinalized es x := by
  -- The reference has only moved: it was one of a userdata that stands, and is one of a stranded.
  have hcount := countP_standing (x := x) hk
  unfold unfinalized
  simp only [standing, stranded, List.countP_cons, decide_eq_true_eq]
  omega

theorem claims_made (x y : Asset) :
    claims (.made x :: es) y = claims es y + if x = y then 1 else 0 := by
  unfold claims unfinalized
  simp only [owners, standing, stranded]
  omega

theorem claims_kept (x y : Asset) :
    claims (.kept x :: es) y = claims es y + if x = y then 1 else 0 := by
  unfold claims unfinalized
  simp only [owners, standing, stranded]
  omega

theorem claims_dropped (h : 0 < owners es x) (y : Asset) :
    claims es y = claims (.dropped x :: es) y + if x = y then 1 else 0 := by
  unfold claims unfinalized
  simp only [owners, standing, stranded]
  by_cases hy : x = y
  · subst hy
    simp only [if_true]
    omega
  · simp only [if_neg hy]
    omega

theorem claims_pushed (k : Carrier) (enlisted : Bool) (y : Asset) :
    claims (.pushed k enlisted :: es) y = claims es y + if k.asset = y then 1 else 0 := by
  unfold claims unfinalized
  simp only [owners, standing, stranded, List.countP_cons, decide_eq_true_eq]
  omega

theorem claims_finalized (hk : k ∈ standing es) (y : Asset) :
    claims es y = claims (.finalized k :: es) y + if k.asset = y then 1 else 0 := by
  unfold claims
  rw [unfinalized_finalized hk, Nat.add_assoc]
  rfl

/-- An event by which a userdata is neither pushed nor finalized, and that concerns no owner. -/
def IsAside : Owning → Prop
  | .due _ | .missed _ | .lost _ => True
  | _ => False

/-- Such events do not count as references. -/
theorem Orderly.aside (fs : List Owning) (h : Orderly (fs ++ es)) (hf : ∀ e ∈ fs, e.IsAside) :
    (Honest (fs ++ es) ↔ Honest es) ∧ ∀ x, claims (fs ++ es) x = claims es x := by
  induction fs with
  | nil => simp
  | cons e fs ih =>
    obtain ⟨he, hrest⟩ := List.forall_mem_cons.mp hf
    cases h with
    | due h _ | missed h _ => exact ih h hrest
    | lost h hk _ =>
      obtain ⟨hhonest, hclaims⟩ := ih h hrest
      exact ⟨hhonest, fun x => (congrArg (owners _ x + ·) (unfinalized_lost hk)).trans (hclaims x)⟩
    | _ => exact he.elim

end Owning
end LuaEmbed
