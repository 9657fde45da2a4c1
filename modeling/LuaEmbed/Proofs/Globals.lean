import LuaEmbed.Proofs.Leaving
import LuaEmbed.Proofs.Observing
import LuaEmbed.Proofs.RoundTrip

/-!
Global variables. An interpreter's are the texts under which its table of globals has entries: what is
stored under a name through one stack is there for every stack, what there is under other names stays,
and no metamethod is asked. What the host sees of a value is another matter where it depends on more
than the value: a thread is known by its interpreter's record, and a userdata shows a name that its
metatable declares.
-/
namespace LuaEmbed

open Engine World

namespace Engine.Heap

variable {h : Heap} {t v : Val} {s : Bytes}

theorem starved_rawSet (t k v : Val) : (h.rawSet t k v).starved = h.starved := by
  cases t <;> rfl

theorem metatable?_userdata (t k v : Val) (j : Nat) :
    (h.rawSet t k v).metatable? (.userdata j) = h.metatable? (.userdata j) := by
  cases t <;> rfl

/-- What a metatable has under a name changes where that name is stored in that table. -/
theorem metafield_rawSet (t : Val) (s : Bytes) (v : Val) (j : Nat) (event : String) :
    (h.rawSet t (.str s) v).metafield (.userdata j) event = h.metafield (.userdata j) event ∨
      s = Bytes.ofString event ∧ ∃ i, t = .table i ∧ h.metatable? (.userdata j) = some i := by
  unfold metafield
  rw [metatable?_userdata]
  cases hm : h.metatable? (.userdata j) with
  | none => exact .inl rfl
  | some i =>
    by_cases hkey : t ≠ .table i ∨ (Val.text event).normalKey ≠ .str s
    · exact .inl (rawGet_rawSet_of_ne hkey v)
    · obtain ⟨ht, hs⟩ := not_or.mp hkey
      exact .inr ⟨(Val.str.inj (not_not.mp hs)).symm, i, not_not.mp ht, rfl⟩

theorem owner?_rawSet (h : Heap) (t : Val) (s : Bytes) (v : Val) :
    (h.rawSet t (.str s) v).owner? = h.owner? := by
  unfold owner?
  rw [registryTable_rawSet, rawGet_rawSet_of_ne (.inr (by simp [recordKey, Val.normalKey]))]

end Engine.Heap

variable {σ μ : Type} {c d : Context} {w w' w₁ : World σ μ} {s t : Array Val} {u v : Val}
  {a b name : Bytes} {n : Nat} {r : Value}

namespace World

/-- What a global variable holds. -/
def global (w : World σ μ) (i : Nat) (name : Bytes) : Val :=
  (w.heap i).rawGet (w.heap i).globals (.str name)

/-- A stack that is asked for a global variable is given a value: it has been put on top of what was
there, the host sees it as what stands there, and nothing else has changed. -/
structure Presents (w : World σ μ) (d : Context) (name : Bytes) (u : Val) (r : Value) (w' : World σ μ) :
    Prop where
  answer : d.getGlobal name w = (.ok r, w')
  pushed : ∃ t, w.shown d = some t ∧ w.Leaves d (t.push u) (w.heap d.vm) w' ∧ w'.Shows d (t.size + 1) u r
  owner : ∀ q, r = .thread q → w.Recorded d.vm → q.thread.vm = d.vm

/-- In two worlds a stack that asks for a global variable is given one value, or is refused alike. -/
def Concur (w w₁ : World σ μ) (d : Context) (name : Bytes) : Prop :=
  (∃ u r w' r₁ w₁', w.Presents d name u r w' ∧ w₁.Presents d name u r₁ w₁') ∨
    ∃ e, (d.getGlobal name w).1 = .error e ∧ (d.getGlobal name w₁).1 = .error e

/-- Storing a value changes the names of those userdata alone that take them from the globals. -/
theorem displayName_rawSet {g : Val} (hh : w'.heap c.vm = (w.heap c.vm).rawSet g (.str a) v) (u : Val) :
    w'.displayName c u = w.displayName c u ∨
      a = "__name" ∧ ∃ i j, u = .userdata j ∧ g = .table i ∧
        (w.heap c.vm).metatable? (.userdata j) = some i := by
  cases u with
  | userdata j =>
    rcases Heap.metafield_rawSet g a v j "__name" with hsame | ⟨ha, i, hg, hm⟩
    · refine .inl ?_
      unfold displayName
      dsimp only
      rw [hh, hsame]
    · exact .inr ⟨ha, i, j, rfl, hg, hm⟩
  | _ => exact .inl rfl

theorem Grants.pop (h : w.Grants d n) (c : Context) : (w.modifySlots c (·.pop)).Grants d n := by
  by_cases hc : c = d
  · subst hc
    exact h.modifySlots (Nat.le_refl n) fun s => by
      rw [Array.size_pop]
      omega
  · rw [modifySlots_eq]
    exact h.modifyThread c (Nat.le_refl n) fun he => absurd he hc

theorem Grants.store (h : w.Grants d n) {x : Instance} (hx : w.instances[c.vm]? = some x) (k v : Val) :
    (w.modifyHeap c.vm fun h => h.rawSet h.globals k v).Grants d n := by
  refine h.same (thread?_objects w c.vm d _ fun _ => rfl) ?_ fun y hy => ?_
  · rw [heap_modifyHeap_cases w c.vm d.vm _ hx]
    split
    next hd => rw [Heap.starved_rawSet, hd]
    next => rfl
  · unfold modifyHeap modifyVm
    rw [instances_modifyInstance, hy]
    split <;> exact ⟨_, rfl⟩

end World

namespace Context

/-- A value that can be told is given. -/
theorem getGlobal_gives (hs : w.shown d = some t) (hd : (t.size : Int) < Word32.greatest)
    (hroom : w.Grants d 3) (name : Bytes)
    (hu : ∀ i, w.global d.vm name = .thread i → (w.heap d.vm).owner? ≠ none) :
    ∃ r w', w.Presents d name (w.global d.vm name) r w' := by
  obtain ⟨w₁, hchecked, hi⟩ := checkStack_intact hroom (show (3 : Int) ≤ (3 : Nat) by decide)
  have hleft := (hi.toAlike.leaves hs).push (w.global d.vm name)
  obtain ⟨r, w₂, hread, hi₂, howner⟩ :=
    read_intact (resolve_shown hleft.stack hd) ((hi.grants d 3 hroom).push _) (by
      rw [at_shown hleft.stack, hleft.objects]
      exact hu)
  obtain ⟨pos, hpos, -, -, -, hshows⟩ := read_ok hread
  obtain rfl := Except.ok.inj (Prod.mk.inj (hpos.symm.trans (resolve_shown hleft.stack hd))).1
  rw [at_shown hleft.stack] at hshows
  refine ⟨r, w₂, ?_, ⟨t, hs, hleft.trans_alike hi₂.toAlike, (shows_congr (hi₂.heap d.vm)).mpr hshows⟩,
    fun q hq hr => ?_⟩
  · unfold getGlobal
    rw [Api.bind_ok hchecked, ← hread]
    unfold World.global
    rw [← hi.heap]
    rfl
  · have ho := howner q hq
    rw [hleft.objects] at ho
    exact (Option.some.inj (hr.symm.trans ho)).symm

/-- A thread cannot be told without the record. -/
theorem getGlobal_refused (hs : w.shown d = some t) (hd : (t.size : Int) < Word32.greatest)
    (hroom : w.Grants d 3) (hu : w.Unreadable d.vm name) :
    (d.getGlobal name w).1 = .error unrecorded := by
  obtain ⟨ho, i, hi⟩ := hu
  obtain ⟨w₁, hchecked, hsame⟩ := checkStack_intact hroom (show (3 : Int) ≤ (3 : Nat) by decide)
  have hleft := (hsame.toAlike.leaves hs).push (.thread i)
  have hroom₁ := (hsame.grants d 3 hroom).push (.thread i)
  obtain ⟨w₂, hagain, hsame₂⟩ := checkStack_intact hroom₁ (show (2 : Int) ≤ (2 : Nat) by decide)
  obtain ⟨w₃, -, -, hshared⟩ := shared_intact ((hsame₂.grants d 2 hroom₁).less (by decide : 1 ≤ 2))
  have hread : d.read (-1) (w₁.push d (.thread i)) = (.error unrecorded, w₃) := by
    unfold read
    rw [Api.bind_ok (resolve_shown hleft.stack hd), Api.bind_ok hagain, Api.get_bind, hsame₂.at_,
      at_shown hleft.stack]
    refine Api.bind_error (Api.bind_error (hshared ?_))
    rwa [hsame₂.heap, hleft.objects]
  unfold getGlobal
  rw [Api.bind_ok hchecked]
  change (d.read (-1) (w₁.push d ((w₁.heap d.vm).rawGet (w₁.heap d.vm).globals (.str name)))).1 = _
  rw [hsame.heap, hi, hread]

/-- The topmost value goes into a global variable. -/
theorem setGlobal_stores (hs : w.shown c = some (s.push v)) (hd : (s.size : Int) < Word32.greatest)
    (hroom : w.Grants c 3) (a : Bytes) :
    ∃ w₁, c.setGlobal a w = (.ok (), w₁) ∧
      w.Leaves c s ((w.heap c.vm).rawSet (w.heap c.vm).globals (.str a) v) w₁ ∧
      ∀ d n, w.Grants d n → w₁.Grants d n := by
  obtain ⟨w₁, hchecked, hi⟩ := checkStack_intact hroom (show (3 : Int) ≤ (3 : Nat) by decide)
  have hleft := hi.toAlike.leaves hs
  have hstored := (hleft.modifyHeap fun h => h.rawSet h.globals (.str a) v).modifySlots (·.pop)
  rw [Array.pop_push] at hstored
  obtain ⟨x, hx⟩ := (grants_iff.mp (hi.grants c 3 hroom)).1
  refine ⟨_, ?_, hstored, fun d n hg => ((hi.grants d n hg).store hx _ _).pop c⟩
  unfold setGlobal
  rw [Api.bind_ok (resolve_shown hs hd), Api.bind_ok hchecked]
  unfold Api.modify
  dsimp only
  rw [at_shown hleft.stack]

/-- What has been stored does not matter to another name. -/
theorem concur_stored (hs : w.shown d = some t) (hd : (t.size : Int) < Word32.greatest)
    (hroom : w.Grants d 3) {t₁ : Array Val} (hs₁ : w₁.shown d = some t₁)
    (hd₁ : (t₁.size : Int) < Word32.greatest) (hroom₁ : w₁.Grants d 3)
    (hh : w₁.heap d.vm = (w.heap d.vm).rawSet (w.heap d.vm).globals (.str a) v) (hb : b ≠ a) :
    w.Concur w₁ d b := by
  have howner : (w₁.heap d.vm).owner? = (w.heap d.vm).owner? := by
    rw [hh]
    exact Heap.owner?_rawSet _ _ _ _
  have hsame : w₁.global d.vm b = w.global d.vm b := by
    unfold World.global
    rw [hh, Heap.globals_rawSet]
    have hkey : (Val.str b).normalKey ≠ .str a := fun he => hb (Val.str.inj he)
    exact Heap.rawGet_rawSet_of_ne (.inr hkey) v
  by_cases hu : w.Unreadable d.vm b
  · refine .inr ⟨unrecorded, getGlobal_refused hs hd hroom hu, getGlobal_refused hs₁ hd₁ hroom₁ ?_⟩
    obtain ⟨ho, i, hi⟩ := hu
    exact ⟨howner.trans ho, i, hsame.trans hi⟩
  · have htold : ∀ i, w.global d.vm b = .thread i → (w.heap d.vm).owner? ≠ none :=
      fun i hi ho => hu ⟨ho, i, hi⟩
    obtain ⟨r, w', hgives⟩ := getGlobal_gives hs hd hroom b htold
    obtain ⟨r₁, w₁', hgives₁⟩ := getGlobal_gives hs₁ hd₁ hroom₁ b (by rwa [hsame, howner])
    rw [hsame] at hgives₁
    exact .inl ⟨_, r, w', r₁, w₁', hgives, hgives₁⟩

/-- Storing the topmost value under a name takes it off the stack, and no other slot of any stack
changes. From then on every stack of the interpreter that asks for the name is given that value, and
for another name it is given what it would have been given before, or refused as before. A userdata
shows another name than before only where its metatable is the table of globals and the name stored is
the one that metatables declare. Neither operation has any code run, so no metamethod has a say. -/
theorem globals_law (a : Bytes) (hs : w.shown c = some (s.push v))
    (hc : (s.size : Int) < Word32.greatest) (hroom : w.Grants c 3)
    (hg : (w.heap c.vm).Has (w.heap c.vm).globals) :
    (∃ w₁, c.setGlobal a w = (.ok (), w₁) ∧
      w.Leaves c s ((w.heap c.vm).rawSet (w.heap c.vm).globals (.str a) v) w₁ ∧
      (∀ d t, d.vm = c.vm → w.shown d = some t → (t.size : Int) < Word32.greatest → w.Grants d 3 →
        ((∀ i, v = .thread i → w.Recorded c.vm) → ∃ r w', w₁.Presents d a v r w') ∧
        ∀ b, b ≠ a → w.Concur w₁ d b) ∧
      ∀ u, w₁.displayName c u = w.displayName c u ∨
        a = "__name" ∧ ∃ i j, u = .userdata j ∧ (w.heap c.vm).globals = .table i ∧
          (w.heap c.vm).metatable? (.userdata j) = some i) ∧
    ∀ (e : Context) (name : Bytes) (d : Drive σ μ) (x : World σ μ) m,
      ¬ (Op.stack e (.setGlobal name) : Op σ μ _).perform.Asks d x m ∧
        ¬ (Op.stack e (.getGlobal name) : Op σ μ _).perform.Asks d x m := by
  obtain ⟨w₁, hset, hleft, hgrants⟩ := setGlobal_stores hs hc hroom a
  refine ⟨⟨w₁, hset, hleft, fun d t hvm ht hd hroomd => ?_, displayName_rawSet hleft.objects⟩,
    fun e name d x m => ⟨not_asks_api _ d x m, not_asks_api _ d x m⟩⟩
  have hh := hleft.objects
  rw [← hvm] at hh hg ⊢
  obtain ⟨t₁, ht₁, hd₁⟩ : ∃ t₁, w₁.shown d = some t₁ ∧ (t₁.size : Int) < Word32.greatest := by
    rw [hleft.shown]
    by_cases hdc : d = c
    · exact ⟨s, if_pos hdc, hc⟩
    · exact ⟨t, (if_neg hdc).trans ht, hd⟩
  refine ⟨fun hv => ?_, fun b hb => concur_stored ht hd hroomd ht₁ hd₁ (hgrants d 3 hroomd) hh hb⟩
  have hstored : w₁.global d.vm a = v := by
    unfold World.global
    rw [hh, Heap.globals_rawSet]
    exact Heap.rawGet_rawSet_self hg a v
  have htold : ∀ i, w₁.global d.vm a = .thread i → (w₁.heap d.vm).owner? ≠ none := by
    rw [hstored, hh, Heap.owner?_rawSet]
    intro i hi ho
    exact nomatch (hv i hi).symm.trans ho
  obtain ⟨r, w', hgives⟩ := getGlobal_gives ht₁ hd₁ (hgrants d 3 hroomd) a htold
  rw [hstored] at hgives
  exact ⟨r, w', hgives⟩

/-- A new interpreter with a coroutine on its main stack, whose table of globals is its own metatable. -/
def circular : World Unit Unit := spawned.modifyHeap 0 fun h => h.setMetatable h.globals (some 1)

/-- The coroutine is stored by the one stack and told to the other, its own. -/
theorem globals_circular :
    (circular.heap 0).metatable? (circular.heap 0).globals = some 1 ∧
      circular.shown ⟨0, 0⟩ = some #[.thread 1] ∧ circular.shown ⟨0, 1⟩ = some #[.int 7] ∧
      ∃ w₁ q w', setGlobal ⟨0, 0⟩ "co" circular = (.ok (), w₁) ∧ w₁.shown ⟨0, 0⟩ = some #[] ∧
        w₁.Presents ⟨0, 1⟩ "co" (.thread 1) (.thread q) w' ∧ q.thread = ⟨0, 1⟩ ∧
        w'.shown ⟨0, 1⟩ = some #[.int 7, .thread 1] ∧ circular.Concur w₁ ⟨0, 1⟩ "__index" := by
  have hmeta : (circular.heap 0).metatable? (circular.heap 0).globals = some 1 := by decide +kernel
  obtain ⟨x, hx⟩ : ∃ x, (circular.heap 0).tables.get? 1 = some x :=
    Option.isSome_iff_exists.mp (by decide +kernel)
  have hg : (circular.heap 0).Has (circular.heap 0).globals := ⟨1, x, by decide +kernel, hx⟩
  have hs : circular.shown ⟨0, 0⟩ = some #[.thread 1] := by decide +kernel
  have hs' : circular.shown ⟨0, 1⟩ = some #[.int 7] := by decide +kernel
  have hr : circular.Recorded 0 := by
    unfold World.Recorded
    decide +kernel
  obtain ⟨⟨w₁, hset, hleft, hgot, -⟩, -⟩ := globals_law (c := ⟨0, 0⟩) (s := #[]) (v := .thread 1) "co" hs
    (by decide) (by decide +kernel) hg
  obtain ⟨htold, hothers⟩ := hgot ⟨0, 1⟩ #[.int 7] rfl hs' (by decide) (by decide +kernel)
  obtain ⟨r, w', hgives⟩ := htold fun _ _ => hr
  obtain ⟨t, ht, hleft', q, rfl, hq⟩ := hgives.pushed
  have hrest : w₁.shown ⟨0, 1⟩ = some #[.int 7] := (hleft.shown ⟨0, 1⟩).trans hs'
  obtain rfl := Option.some.inj (ht.symm.trans hrest)
  have hr₁ : w₁.Recorded 0 := by
    unfold World.Recorded
    rw [hleft.objects, Heap.owner?_rawSet]
    exact hr
  have hthread : q.thread = ⟨0, 1⟩ :=
    congrArg₂ StackId.mk (hgives.owner q rfl hr₁) hq
  exact ⟨hmeta, hs, hs', w₁, q, w', hset, hleft.stack, hgives, hthread, hleft'.stack,
    hothers "__index" (by decide +kernel)⟩

deriving instance DecidableEq for Value

instance decidableEqOk (r : Except Error Value) (v : Value) : Decidable (r = .ok v) :=
  match r with
  | .ok u => decidable_of_iff (u = v) ⟨congrArg _, Except.ok.inj⟩
  | .error _ => isFalse nofun

/-- An interpreter without its record, and a userdata that has the table of globals as its metatable. -/
def declaring (s : Array Val) : World Unit Unit :=
  (unmarked s).modifyHeap 0 fun h =>
    let (u, h) := h.newUserdata ⟨.blob, 16, some 1⟩
    h.rawSetText h.globals "u" u

/-- A thread that has been stored is not told without the record; and a userdata is told by another name
once its metatable, the table of globals, has got one. -/
theorem globals_declaring :
    (∃ w₁ w₂, setGlobal ⟨0, 0⟩ "x" (declaring #[.thread 0]) = (.ok (), w₁) ∧
      getGlobal ⟨0, 0⟩ "x" w₁ = (.error unrecorded, w₂)) ∧
    ∃ q q' w₁ w₂ w₃, getGlobal ⟨0, 0⟩ "u" (declaring #[.text "Foo"]) = (.ok (.handle q), w₁) ∧
      setGlobal ⟨0, 0⟩ "__name" (declaring #[.text "Foo"]) = (.ok (), w₂) ∧
      getGlobal ⟨0, 0⟩ "u" w₂ = (.ok (.handle q'), w₃) ∧ q.name ≠ q'.name := by
  refine ⟨⟨_, _, Prod.ext (by decide +kernel) rfl, Prod.ext (by decide +kernel) rfl⟩,
    ⟨.userdata, "userdata: " ++ addressText (.userdata 0), 2, ⟨0, 0⟩⟩,
    ⟨.userdata, "Foo: " ++ addressText (.userdata 0), 1, ⟨0, 0⟩⟩, _, _, _,
    Prod.ext (by decide +kernel) rfl, Prod.ext (by decide +kernel) rfl,
    Prod.ext (by decide +kernel) rfl, by decide +kernel⟩

end Context
end LuaEmbed
