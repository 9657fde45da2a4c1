import LuaEmbed.Proofs.Entries
import LuaEmbed.Proofs.Granting
import LuaEmbed.Proofs.Handles

/-!
Operations that change a stack either do what they say or leave everything as it was. There is one
exception: a global variable that holds a thread is pushed before it is read, and it stays on the
stack if it cannot be read.
-/
namespace LuaEmbed

open Engine World

variable {σ μ α β : Type} {c d : Context} {w w' w₁ : World σ μ}

/-- Whenever it fails, stacks and objects are as they were. -/
def Api.Atomic (a : Api σ μ α) : Prop := ∀ w e w', a w = (.error e, w') → w.Alike w'

namespace Api

theorem Steady.atomic {a : Api σ μ α} (h : a.Steady) : a.Atomic := fun _ _ _ he => h.related he

namespace Atomic

theorem modify (f : World σ μ → World σ μ) : (Api.modify f).Atomic := by
  intro w e w' h
  cases h

/-- What looks first may fail at any time. -/
theorem after {a : Api σ μ α} {k : α → Api σ μ β} (ha : a.Steady) (hk : ∀ x, (k x).Atomic) :
    (a >>= k).Atomic := by
  intro w e w' h
  rcases bind_cases h with ⟨x, w₁, hx, hkx⟩ | ⟨e', he, -⟩
  · exact (ha.related hx).trans (hk x w₁ e w' hkx)
  · exact ha.related he

theorem ite {p : Prop} [Decidable p] {a b : Api σ μ α} (ha : a.Atomic) (hb : b.Atomic) :
    (if p then a else b).Atomic := by
  split
  · exact ha
  · exact hb

end Atomic
end Api

open Api

namespace Context

variable (c : Context)

theorem atomic_cut (n : Nat) : Atomic (c.cut n : Api σ μ Unit) := .modify _

theorem atomic_setTop (n : Int) : Atomic (c.setTop n : Api σ μ Unit) := by
  unfold setTop
  have hk : ∀ target : Int, Atomic (do
      let depth ← c.top
      if depth < target then c.checkStack (target - depth)
      c.cut target.toNat : Api σ μ Unit) := fun _ =>
    .after c.steady_top fun _ =>
      .ite (.after (c.steady_checkStack _) fun _ => c.atomic_cut _) (c.atomic_cut _)
  exact .ite (.after (c.steady_resolve n) hk) (.after (.pure n) hk)

theorem atomic_pop (n : Int) : Atomic (c.pop n : Api σ μ Unit) := by
  unfold pop
  exact .ite (Steady.atomic (.pure ())) (.after c.steady_top fun _ =>
    .after (Keeps.check _).discard fun _ => c.atomic_cut _)

theorem atomic_remove (i : Int) : Atomic (c.remove i : Api σ μ Unit) :=
  .after (c.steady_resolve i) fun _ => .modify _

theorem atomic_duplicate (i : Int) : Atomic (c.duplicate i : Api σ μ Unit) :=
  .after (c.steady_resolve i) fun _ => .after (c.steady_checkStack 1) fun _ => .modify _

theorem atomic_replace (i : Int) : Atomic (c.replace i : Api σ μ Unit) :=
  .after (c.steady_resolve i) fun _ => .modify _

theorem atomic_rotate (i n : Int) : Atomic (c.rotate i n : Api σ μ Unit) := by
  unfold rotate
  exact .after (c.steady_resolve i) fun _ => .after c.steady_top fun _ =>
    .ite (.modify _) (Steady.atomic (.pure ()))

theorem atomic_copy (i j : Int) : Atomic (c.copy i j : Api σ μ Unit) :=
  .after (c.steady_resolve i) fun _ => .after (c.steady_resolve j) fun _ => .modify _

theorem atomic_pushThread (h : ThreadHandle) : Atomic (c.pushThread h : Api σ μ Unit) := by
  unfold pushThread
  have hk : Atomic (do
      if h.thread ≠ c then Context.checkStack h.thread 1
      Api.modify (·.push c (.thread h.thread.thread)) : Api σ μ Unit) :=
    .ite (.after (steady_checkStack _ 1) fun _ => .modify _) (.modify _)
  exact .after (c.steady_owns h) fun _ => .ite (.after (.throw _) fun _ => hk) hk

theorem atomic_push (v : Value) : Atomic (c.push v : Api σ μ Unit) := by
  unfold push
  refine .after (c.steady_checkStack 3) fun _ => ?_
  cases v with
  | thread h => exact c.atomic_pushThread h
  | handle h => exact .after (c.steady_validate h) fun _ => .modify _
  | _ => exact .modify _

theorem atomic_popValues (n : Int) : Atomic (c.popValues n : Api σ μ (List Value)) := by
  refine .after (c.steady_readBatch n none) fun vs => ?_
  intro w e w' h
  rcases bind_cases h with ⟨u, w₁, -, hvs⟩ | ⟨e', he, -⟩
  · cases hvs
  · exact c.atomic_pop n w e' w' he

theorem atomic_setGlobal (name : Bytes) : Atomic (c.setGlobal name : Api σ μ Unit) :=
  .after (c.steady_resolve (-1)) fun _ => .after (c.steady_checkStack 3) fun _ => .modify _

theorem atomic_transfer (d : Context) (n : Int) : Atomic (c.transfer d n : Api σ μ Unit) := by
  unfold transfer
  refine .ite (Steady.atomic (.pure ())) (.after c.steady_top fun depth =>
    .after (Keeps.check _).discard fun _ => .after (c.steady_sameVm d) fun _ => ?_)
  have hk : Atomic (do
      if c = d then return
      d.checkStack n
      Api.modify fun w =>
        let moved := (w.slots c).toList.drop (depth - n).toNat
        (w.truncate c (depth - n).toNat).modifySlots d (· ++ moved.toArray) : Api σ μ Unit) :=
    .ite (Steady.atomic (.pure ())) (.after (d.steady_checkStack n) fun _ => .modify _)
  exact .ite (.after (.throw _) fun _ => hk) hk

end Context

/-! ### Loading -/

namespace World

theorem modifyVm_id (w : World σ μ) (i : Nat) : (w.modifyVm i fun vm => vm) = w := by
  unfold modifyVm modifyInstance
  have hi : (w.instances.modify i fun x => { x with vm := x.vm }) = w.instances := by
    apply Array.ext_getElem?
    intro j
    rw [Array.getElem?_modify]
    split
    · cases w.instances[j]? <;> rfl
    · rfl
  rw [hi]

/-- Everything is as it was, but for what has been put on one stack. -/
structure AlikeBelow (c : Context) (w w' : World σ μ) : Prop where
  others : ∀ d, d ≠ c → w'.shown d = w.shown d
  stack : ∃ t : Array Val, w'.shown c = (w.shown c).map (· ++ t)
  heap : ∀ i, w'.heap i = w.heap i
  status : ∀ d, w'.status? d = w.status? d

theorem Alike.below (h : w.Alike w') (c : Context) : AlikeBelow c w w' where
  others d _ := h.shown d
  stack := ⟨#[], by
    rw [h.shown]
    cases w.shown c <;> simp⟩
  heap := h.heap
  status := h.status

/-- Putting back what was on a stack. -/
theorem AlikeBelow.restore (h : AlikeBelow c w w₁)
    (hc : w'.shown c = w.shown c) (hd : ∀ d, d ≠ c → w'.shown d = w₁.shown d)
    (hh : ∀ i, w'.heap i = w₁.heap i) (hs : ∀ d, w'.status? d = w₁.status? d) : w.Alike w' where
  shown d := by
    by_cases he : d = c
    · rw [he, hc]
    · rw [hd d he, h.others d he]
  heap i := (hh i).trans (h.heap i)
  status d := (hs d).trans (h.status d)

theorem shown_modifySlots_of_ne (w : World σ μ) {c d : Context} (h : d ≠ c)
    (f : Array Val → Array Val) : (w.modifySlots c f).shown d = w.shown d := by
  rw [shown_modifySlots, if_neg (Ne.symm h)]

theorem Alike.shown_pushed (h : w.Alike w₁) {s : Array Val} (hs : w.shown c = some s) (v : Val) :
    (w₁.push c v).shown c = some (s.push v) := by
  rw [World.shown_push, if_pos rfl, h.shown, hs]
  rfl

theorem Alike.push (h : w.Alike w₁) (c : Context) (v : Val) : AlikeBelow c w (w₁.push c v) where
  others d hd := (w₁.shown_modifySlots_of_ne hd _).trans (h.shown d)
  stack := ⟨#[v], by
    unfold World.push
    rw [shown_modifySlots_self, h.shown]
    cases w.shown c <;> simp⟩
  heap i := (heap_push w₁ c i v).trans (h.heap i)
  status d := (status?_modifySlots w₁ c d _).trans (h.status d)

theorem AlikeBelow.alike (h : AlikeBelow c w w₁) (k : w₁.Alike w') : AlikeBelow c w w' where
  others d hd := (k.shown d).trans (h.others d hd)
  stack := by rw [k.shown]; exact h.stack
  heap i := (k.heap i).trans (h.heap i)
  status d := (k.status d).trans (h.status d)

/-- On a stack that shows nothing, nothing can be put. -/
theorem AlikeBelow.unshown (h : AlikeBelow c w w') (hn : w.shown c = none) : w.Alike w' := by
  obtain ⟨t, ht⟩ := h.stack
  exact h.restore (by rw [ht, hn]; rfl) (fun _ _ => rfl) (fun _ => rfl) fun _ => rfl

/-- An error value that was pushed has been popped. -/
theorem Alike.popErrorText (h : w.Alike w₁) (v : Val) :
    w.Alike ((w₁.push c v).popErrorText c).2 := by
  have hbelow := h.push c v
  unfold World.popErrorText
  cases hs : w.shown c with
  | none =>
    have hslots : (w₁.push c v).slots c = #[] := by
      obtain ⟨t, ht⟩ := hbelow.stack
      rw [slots_eq_shown, ht, hs]
      rfl
    rw [hslots]
    exact hbelow.unshown hs
  | some s =>
    have hpushed := h.shown_pushed hs v
    rw [slots_of_shown hpushed, Array.back?_push]
    have hpop : ∀ w₂ : World σ μ, (w₁.push c v).Alike w₂ → w.Alike (w₂.modifySlots c (·.pop)) := by
      intro w₂ h₂
      have hb := hbelow.alike h₂
      refine hb.restore ?_ (fun d hd => w₂.shown_modifySlots_of_ne hd _)
        (fun i => heap_modifySlots w₂ c i _) fun d => status?_modifySlots w₂ c d _
      rw [shown_modifySlots_self, h₂.shown, hpushed, hs, Option.map_some, Array.pop_push]
    cases v with
    | table _ | builtin _ | closure _ | userdata _ | light _ | thread _ =>
      exact hpop _ (alike_reserve _ c 2)
    | _ => exact hpop _ (.refl _)

end World

namespace Context

theorem cut_append (s t : Array Val) :
    (s ++ t).shrink s.size ++ Array.replicate (s.size - (s ++ t).size) .nil = s := by
  apply Array.ext'
  simp

/-- Cutting a stack back to where it was takes away what has been put on it. -/
theorem alike_cut (h : AlikeBelow c w w₁) : w.Alike (c.cut (w.depth c) w₁).2 := by
  refine h.restore ?_ (fun d hd => w₁.shown_modifySlots_of_ne hd _)
    (fun i => heap_modifySlots w₁ c i _) fun d => status?_modifySlots w₁ c d _
  obtain ⟨t, ht⟩ := h.stack
  change (w₁.modifySlots c _).shown c = _
  rw [shown_modifySlots_self, ht]
  cases hs : w.shown c with
  | none => rfl
  | some s =>
    rw [depth_of_shown hs]
    exact congrArg some (cut_append s t)

/-- What the interpreter makes of a chunk: an outcome, and what it leaves on the stack. -/
def compiled (chunk name : Bytes) (mode : LoadMode) (depth : Nat) (vm : Vm) :
    Vm × (LoadOutcome × Val) :=
  match Chunk.load chunk name mode.letters depth vm.heap with
  | .ok (f, h) => ({ vm with heap := h }, (LoadOutcome.ok, f))
  | .error e => (vm, (.ofStatus e.status, .str e.message))

theorem tryLoadWith_eq (chunk name : Bytes) (mode : LoadMode) :
    (c.tryLoadWith chunk name mode : Api σ μ LoadOutcome) = (do
      c.checkStack 1
      fun w =>
        let p := w.onVm c.vm (compiled chunk name mode (w.thread c).top.depth)
        (.ok p.1.1, p.2.push c p.1.2)) := rfl

/-- A chunk that does not compile makes nothing. -/
theorem onVm_compiled (w : World σ μ) (i : Nat) (chunk name : Bytes) (mode : LoadMode)
    (depth : Nat) :
    (w.onVm i (compiled chunk name mode depth)).1.1 = .ok ∨
      (w.onVm i (compiled chunk name mode depth)).2 = w := by
  cases hx : w.instances[i]? with
  | none =>
    rw [onVm_eq, hx]
    exact .inl rfl
  | some x =>
    cases hload : Chunk.load chunk name mode.letters depth x.vm.heap with
    | ok f =>
      rw [onVm_answer w i _ hx]
      unfold compiled
      rw [hload]
      exact .inl rfl
    | error e =>
      let g : Vm → Vm × (LoadOutcome × Val) := fun vm =>
        (vm, (LoadOutcome.ofStatus e.status, Val.str e.message))
      have hsame : compiled chunk name mode depth x.vm = g x.vm := by
        unfold compiled
        rw [hload]
      rw [onVm_congr (g := g) w i hx hsame, onVm_world]
      exact .inr (modifyVm_id w i)

/-- How compiling a chunk ends: it is refused, the function is on the stack, or an error is. -/
theorem tryLoadWith_cases {chunk name : Bytes} {mode : LoadMode} {r : Except Error LoadOutcome}
    (h : c.tryLoadWith chunk name mode w = (r, w')) :
    (∃ e, r = .error e ∧ w.Alike w') ∨ r = .ok .ok ∨
      ∃ o v w₁, r = .ok o ∧ w.Alike w₁ ∧ w' = w₁.push c v := by
  rw [tryLoadWith_eq] at h
  rcases Api.bind_cases h with ⟨_, w₁, hroom, h⟩ | ⟨e, he, rfl⟩
  · have ha := (c.steady_checkStack 1).related hroom
    have hc := onVm_compiled w₁ c.vm chunk name mode (w₁.thread c).top.depth
    dsimp only at h
    generalize w₁.onVm c.vm (compiled chunk name mode (w₁.thread c).top.depth) = p at h hc
    obtain ⟨rfl, rfl⟩ := Prod.mk.inj h
    rcases hc with hok | hsame
    · exact .inr (.inl (congrArg _ hok))
    · exact .inr (.inr ⟨_, _, w₁, rfl, ha, by rw [hsame]⟩)
  · exact .inl ⟨e, rfl, (c.steady_checkStack 1).related he⟩

theorem atomic_tryLoad (c : Context) (chunk : Bytes) :
    Atomic (c.tryLoad chunk : Api σ μ LoadOutcome) := by
  refine .after c.steady_configuredName fun name => ?_
  intro w e w' h
  rcases tryLoadWith_cases h with ⟨_, -, ha⟩ | hr | ⟨_, _, _, hr, -⟩
  · exact ha
  · cases hr
  · cases hr

/-- A stack that has a slot has a topmost one. -/
theorem typeOf_top {s : Array Val} {v : Val} (h : w.shown c = some (s.push v)) :
    ∃ k, c.typeOf (-1) w = (.ok k, w) := by
  have hd : (1 : Int) ≤ w.depth c := by
    rw [depth_of_shown h, Array.size_push]
    omega
  obtain ⟨pos, hpos⟩ := Index.exists_resolve_last hd
  exact ⟨_, Api.bind_ok (show c.resolve (-1) w = (.ok pos, w) from congrArg (·, w) hpos)⟩

theorem typeOf_world {i : Int} {r : Except Error TypeTag} (h : c.typeOf i w = (r, w')) :
    w' = w := by
  rcases Api.bind_cases h with ⟨_, _, hi, h⟩ | ⟨_, hi, -⟩
  · exact (congrArg Prod.snd h).symm.trans (congrArg Prod.snd hi).symm
  · exact (congrArg Prod.snd hi).symm

theorem atomic_loadWith (c : Context) (chunk name : Bytes) (mode : LoadMode) :
    Atomic (c.loadWith chunk name mode : Api σ μ Unit) := by
  intro w e w' h
  unfold loadWith at h
  rw [Api.bind_ok (show c.top w = (.ok (w.depth c : Int), w) from rfl)] at h
  rcases Api.bind_cases h with ⟨o, w₁, hload, h⟩ | ⟨_, hload, -⟩
  case inr =>
    rcases tryLoadWith_cases hload with ⟨_, -, ha⟩ | hr | ⟨_, _, _, hr, -⟩
    · exact ha
    · cases hr
    · cases hr
  by_cases ho : o = .ok
  case pos =>
    rw [if_pos ho] at h
    cases h
  rw [if_neg ho] at h
  rcases tryLoadWith_cases hload with ⟨_, hr, -⟩ | hr | ⟨_, v, w₂, -, ha, rfl⟩
  case inl => cases hr
  case inr.inl => exact absurd (Except.ok.inj hr) ho
  rw [Api.bind_ok (show c.top _ = (.ok _, _) from rfl)] at h
  rcases Api.bind_cases h with ⟨_, w₃, htype, h⟩ | ⟨_, htype, -⟩
  · obtain rfl := typeOf_world htype
    -- Whether or not its text is popped, the message goes.
    dsimp only at h
    split at h
    · rw [← show _ = w' from congrArg Prod.snd h]
      exact (alike_cut ((ha.popErrorText v).below c)).trans (alike_log _ _ _ _)
    · rw [← show _ = w' from congrArg Prod.snd h]
      exact (alike_cut (ha.push c v)).trans (alike_log _ _ _ _)
  · obtain rfl := typeOf_world htype
    refine (ha.push c v).unshown ?_
    cases hs : w.shown c with
    | none => rfl
    | some s =>
      obtain ⟨_, hk⟩ := typeOf_top (ha.shown_pushed hs v)
      rw [hk] at htype
      cases htype

theorem atomic_load (c : Context) (chunk : Bytes) : Atomic (c.load chunk : Api σ μ Unit) :=
  .after c.steady_configuredName fun _ => c.atomic_loadWith chunk _ .any

theorem atomic_loadNamed (c : Context) (chunk : Bytes) (name : String) (mode : LoadMode) :
    Atomic (c.loadNamed chunk name mode : Api σ μ Unit) :=
  .after (.check _) fun _ => c.atomic_loadWith chunk _ mode

end Context

/-! ### Global variables -/

namespace World

/-- A global variable holds a thread, and the interpreter's record is gone. -/
def Unreadable (w : World σ μ) (i : Nat) (name : Bytes) : Prop :=
  (w.heap i).owner? = none ∧ ∃ t, (w.heap i).rawGet (w.heap i).globals (.str name) = .thread t

/-- Such a variable is pushed, if there is room for it, and cannot be read. -/
def Strands (w : World σ μ) (c : Context) (name : Bytes) : Prop :=
  w.Grants c 3 ∧ w.shown c ≠ none ∧ w.Unreadable c.vm name

end World

namespace Context

/-- A global variable that could not be read is on the stack, or nothing has changed. -/
theorem getGlobal_alike (hw : w.depth c < Word32.greatest) {name : Bytes} {e : Error}
    (h : c.getGlobal name w = (.error e, w')) : w.Alike w' ↔ ¬ w.Strands c name := by
  by_cases hroom : w.Grants c 3
  case neg =>
    have hno : c.checkStack 3 w = (.error (.stackOverflow 3), _) :=
      checkStack_refused (by decide) (Bool.eq_false_iff.mpr hroom)
    unfold getGlobal at h
    rw [Api.bind_error hno] at h
    rw [← show _ = w' from congrArg Prod.snd h]
    exact iff_of_true (alike_reserve w c 3) fun hs => hroom hs.1
  obtain ⟨w₁, hchecked, hi⟩ := checkStack_intact hroom (show (3 : Int) ≤ (3 : Nat) by decide)
  unfold getGlobal at h
  rw [Api.bind_ok hchecked] at h
  replace h : c.read (-1)
    (w₁.push c ((w₁.heap c.vm).rawGet (w₁.heap c.vm).globals (.str name))) = (.error e, w') := h
  rw [hi.heap] at h
  unfold World.Strands World.Unreadable
  generalize hv : (w.heap c.vm).rawGet (w.heap c.vm).globals (.str name) = v at h ⊢
  have hread := (c.steady_read (-1)).related h
  cases hs : w.shown c with
  | none =>
    exact iff_of_true (((hi.toAlike.push c v).alike hread).unshown hs) fun hx => hx.2.1 rfl
  | some s =>
    have hpushed := hi.toAlike.shown_pushed hs v
    have hdepth : ((w₁.push c v).depth c : Int) = s.size + 1 := by
      rw [depth_of_shown hpushed, Array.size_push]
      rfl
    rw [depth_of_shown hs] at hw
    have hpos : c.resolve (-1) (w₁.push c v) = (.ok (s.size + 1 : Int), w₁.push c v) := by
      unfold resolve
      rw [Api.bind_ok (show c.top _ = (.ok _, _) from rfl), hdepth,
        Index.resolve_last (by omega) (by omega)]
      rfl
    have hat : (w₁.push c v).at_ c (s.size + 1 : Int) = v := by
      unfold at_
      rw [slots_of_shown hpushed]
      simp
    have hchanged : ¬ w.Alike w' := by
      intro ha
      have he := ha.shown c
      rw [hread.shown, hpushed, hs] at he
      have hsize := congrArg Array.size (Option.some.inj he)
      rw [Array.size_push] at hsize
      omega
    refine iff_of_false hchanged fun hno => ?_
    obtain ⟨x, w₂, hok, -⟩ := read_intact hpos ((hi.grants c 3 hroom).push v) fun t ht ho => by
      rw [heap_push, hi.heap] at ho
      exact hno ⟨hroom, nofun, ho, t, by rwa [hat] at ht⟩
    rw [hok] at h
    cases h

end Context

/-! ### All of them -/

namespace StackOp

/-- The operations that change a stack. -/
def mutates : StackOp α → Bool
  | .setTop _ | .pop _ | .remove _ | .duplicate _ | .replace _ | .rotate _ _ | .copy _ _ | .push _
  | .popValues _ | .getGlobal _ | .setGlobal _ | .load _ | .loadNamed _ _ _ | .tryLoad _
  | .transfer _ _ => true
  | _ => false

/-- Asking for a global variable that cannot be read leaves it on the stack. -/
def Strands (c : Context) (w : World σ μ) : StackOp α → Prop
  | .getGlobal name => w.Strands c name
  | _ => False

/-- An operation that changes a stack and fails leaves all stacks and all objects as they were, with
the one exception. -/
theorem failure_atomic {o : StackOp α} {e : Error} (ho : o.mutates) (hw : w.depth c < Word32.greatest)
    (h : o.perform c w = (.error e, w')) : w.Alike w' ↔ ¬ o.Strands c w := by
  cases o
  case getGlobal name => exact c.getGlobal_alike hw h
  case setTop n => exact iff_of_true (c.atomic_setTop n w e w' h) id
  case pop n => exact iff_of_true (c.atomic_pop n w e w' h) id
  case remove i => exact iff_of_true (c.atomic_remove i w e w' h) id
  case duplicate i => exact iff_of_true (c.atomic_duplicate i w e w' h) id
  case replace i => exact iff_of_true (c.atomic_replace i w e w' h) id
  case rotate i n => exact iff_of_true (c.atomic_rotate i n w e w' h) id
  case copy i j => exact iff_of_true (c.atomic_copy i j w e w' h) id
  case push v => exact iff_of_true (c.atomic_push v w e w' h) id
  case popValues n => exact iff_of_true (c.atomic_popValues n w e w' h) id
  case setGlobal name => exact iff_of_true (c.atomic_setGlobal name w e w' h) id
  case load chunk => exact iff_of_true (c.atomic_load chunk w e w' h) id
  case loadNamed chunk name mode => exact iff_of_true (c.atomic_loadNamed chunk name mode w e w' h) id
  case tryLoad chunk => exact iff_of_true (c.atomic_tryLoad chunk w e w' h) id
  case transfer d n => exact iff_of_true (c.atomic_transfer d n w e w' h) id
  all_goals cases ho

/-- Taking off values the last of which cannot be read takes off none. -/
theorem failure_atomic_popValues :
    ∃ w', (popValues 2).perform ⟨0, 0⟩ (unmarked #[.nil, .thread 0]) = (.error Context.unrecorded, w') ∧
      (unmarked #[.nil, .thread 0]).Alike w' := by
  have h : (popValues 2).perform ⟨0, 0⟩ (unmarked #[.nil, .thread 0]) =
      (.error Context.unrecorded, _) := Prod.ext (by decide +kernel) rfl
  exact ⟨_, h, (failure_atomic (o := popValues 2) rfl (by decide +kernel) h).mpr id⟩

/-- A global variable that cannot be read stays on the stack. -/
theorem getGlobal_strands :
    ∃ w', (getGlobal "co").perform ⟨0, 0⟩ (unmarked #[]) = (.error Context.unrecorded, w') ∧
      (unmarked #[]).shown ⟨0, 0⟩ = some #[] ∧ w'.shown ⟨0, 0⟩ = some #[.thread 0] :=
  ⟨_, Prod.ext (by decide +kernel) rfl, by decide +kernel, by decide +kernel⟩

end StackOp
end LuaEmbed
