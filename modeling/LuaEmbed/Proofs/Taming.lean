import LuaEmbed.Engine.Action
import LuaEmbed.Proofs.Payloads

/-!
Native functions that leave alone what userdata carry. Such a function is put together from requests and
from changes of objects; whenever it goes on, with whatever answer, it leaves in place what userdata
carry by then, and what it requests next is again such a request. So it never lets go of a host object,
and it asks for a collection only where none is in progress.
-/
namespace LuaEmbed.Engine

/-- However a native function goes on, it leaves in place what userdata carry. -/
def Leaves {α : Type} (k : α → Heap → Heap × Action) : Prop := ∀ a (g : Heap), g.Carries (k a g).1

/-- A request after which, however it is answered, userdata are left alone. -/
inductive Action.Tame : Heap → Action → Prop where
  | ret {h vs} : Tame h (.ret vs)
  | raise {h v} : Tame h (.raise v)
  | raiseMemory {h} : Tame h .raiseMemory
  | fail {h level message} : Tame h (.fail level message)
  | badArgument {h arg message} : Tame h (.badArgument arg message)
  | call {h f args keep canYield k} (hc : Leaves k)
    (ht : ∀ vs g, Tame (k vs g).1 (k vs g).2) : Tame h (.call f args keep canYield k)
  | protect {h f args handler k} (hc : Leaves k) (ht : ∀ r g, Tame (k r g).1 (k r g).2) :
    Tame h (.protect f args handler k)
  | yield {h vs} : Tame h (.yield vs)
  | resume {h thread args k} (hc : Leaves k) (ht : ∀ r g, Tame (k r g).1 (k r g).2) :
    Tame h (.resume thread args k)
  | close {h thread onlyFailed k} (hc : Leaves k) (ht : ∀ r g, Tame (k r g).1 (k r g).2) :
    Tame h (.close thread onlyFailed k)
  | status {h thread k} (hc : Leaves k) (ht : ∀ r g, Tame (k r g).1 (k r g).2) :
    Tame h (.status thread k)
  | situation {h k} (hc : Leaves k) (ht : ∀ r g, Tame (k r g).1 (k r g).2) :
    Tame h (.situation k)
  | position {h level k} (hc : Leaves k) (ht : ∀ r g, Tame (k r g).1 (k r g).2) :
    Tame h (.position level k)
  | newThread {h f k} (hc : Leaves k) (ht : ∀ r g, Tame (k r g).1 (k r g).2) :
    Tame h (.newThread f k)
  | collect {h k} (hh : h.collecting = false) (hc : ∀ g : Heap, g.Carries (k g).1)
    (ht : ∀ g, Tame (k g).1 (k g).2) : Tame h (.collect k)

/-- A native function goes on to such a request, with the userdata left alone. -/
def Goes (g : Heap) (r : Heap × Action) : Prop := g.Carries r.1 ∧ r.2.Tame r.1

/-- It does so with every answer, whenever it gets it. -/
def Resumes {α : Type} (k : α → Heap → Heap × Action) : Prop := ∀ a g, Goes g (k a g)

variable {α β : Type}

theorem Goes.after {g g' : Heap} {r : Heap × Action} (h : g.Carries g') (hr : Goes g' r) : Goes g r :=
  ⟨h.trans hr.1, hr.2⟩

/-- From these objects on, a native function leaves userdata alone if what follows it does. -/
def Native.TameAt (g : Heap) (m : Native α) : Prop :=
  ∀ k : α → Heap → Heap × Action, Resumes k → Goes g (m k g)

/-- A native function leaves userdata alone. -/
class Native.Tame (m : Native α) : Prop where
  at_ : ∀ g, m.TameAt g

namespace Native

instance tame_pure (a : α) : (Pure.pure a : Native α).Tame := ⟨fun g _ hk => hk a g⟩

instance tame_bind (m : Native α) (f : α → Native β) [hm : m.Tame] [hf : ∀ a, (f a).Tame] :
    (m >>= f).Tame := ⟨fun g k hk => hm.at_ g _ fun a g => (hf a).at_ g k hk⟩

theorem Tame.bind {m : Native α} {f : α → Native β} [m.Tame] (hf : ∀ a, (f a).Tame) :
    (m >>= f).Tame := tame_bind m f

instance tame_ite {p : Prop} [Decidable p] (a b : Native α) [ha : a.Tame] [hb : b.Tame] :
    (if p then a else b).Tame := by
  split <;> assumption

instance tame_discard (m : Native α) [m.Tame] : (Functor.discard m).Tame :=
  inferInstanceAs (m >>= fun _ => Pure.pure ()).Tame

instance tame_heap : Native.heap.Tame := ⟨fun g _ hk => hk g g⟩

/-- What follows a look at the objects may depend on what they are at that moment. -/
theorem tame_heap_bind {f : Heap → Native β} (hf : ∀ g, TameAt g (f g)) :
    (Native.heap >>= f).Tame := ⟨fun g => hf g⟩

theorem tame_modifyHeap {f : Heap → Heap} (hf : ∀ h : Heap, h.Carries (f h)) : (modifyHeap f).Tame :=
  ⟨fun g _ hk => (hk () (f g)).after (hf g)⟩

theorem tameAt_modifyHeap {f : Heap → Heap} {g : Heap} (hf : g.Carries (f g)) :
    TameAt g (modifyHeap f) := fun _ hk => (hk () (f g)).after hf

theorem tameAt_modifyHeap_bind {f : Heap → Heap} {m : Unit → Native β} {g : Heap}
    (hf : g.Carries (f g)) (hm : TameAt (f g) (m ())) : TameAt g (Native.modifyHeap f >>= m) :=
  fun k hk => (hm k hk).after hf

theorem tame_onHeap {f : Heap → α × Heap} (hf : ∀ h : Heap, h.Carries (f h).2) : (onHeap f).Tame :=
  ⟨fun g _ hk => (hk (f g).1 (f g).2).after (hf g)⟩

theorem tameAt_collect_bind {m : Unit → Native β} {g : Heap} (hg : g.collecting = false)
    [hm : ∀ a, (m a).Tame] : TameAt g (Native.collect >>= m) := fun k hk =>
  ⟨.refl g, .collect hg (fun g => ((hm ()).at_ g k hk).1) fun g => ((hm ()).at_ g k hk).2⟩

instance tame_raise (v : Val) : (raise v : Native α).Tame := ⟨fun g _ _ => ⟨.refl g, .raise⟩⟩

instance tame_raiseMemory : (raiseMemory : Native α).Tame := ⟨fun g _ _ => ⟨.refl g, .raiseMemory⟩⟩

instance tame_fail (message : Bytes) : (Native.fail message : Native α).Tame :=
  ⟨fun g _ _ => ⟨.refl g, .fail⟩⟩

instance tame_failHere (message : Bytes) : (failHere message : Native α).Tame :=
  ⟨fun g _ _ => ⟨.refl g, .raise⟩⟩

instance tame_badArgument (arg : Nat) (message : Bytes) : (badArgument arg message : Native α).Tame :=
  ⟨fun g _ _ => ⟨.refl g, .badArgument⟩⟩

instance tame_fail_bind (message : Bytes) (f : α → Native β) : (Native.fail message >>= f).Tame :=
  ⟨fun g _ _ => ⟨.refl g, .fail⟩⟩

instance tame_badArgument_bind (arg : Nat) (message : Bytes) (f : α → Native β) :
    (badArgument arg message >>= f).Tame := ⟨fun g _ _ => ⟨.refl g, .badArgument⟩⟩

instance tame_yield (vs : List Val) : (yield vs : Native α).Tame := ⟨fun g _ _ => ⟨.refl g, .yield⟩⟩

instance tame_call (f : Val) (args keep : List Val) : (call f args keep).Tame :=
  ⟨fun g _ hk => ⟨.refl g, .call (fun r g => (hk r g).1) fun r g => (hk r g).2⟩⟩

instance tame_callYieldable (f : Val) (args keep : List Val) : (callYieldable f args keep).Tame :=
  ⟨fun g _ hk => ⟨.refl g, .call (fun r g => (hk r g).1) fun r g => (hk r g).2⟩⟩

instance tame_protect (f : Val) (args : List Val) (handler : Option Val) :
    (protect f args handler).Tame :=
  ⟨fun g _ hk => ⟨.refl g, .protect (fun r g => (hk r g).1) fun r g => (hk r g).2⟩⟩

instance tame_resume (thread : Nat) (args : List Val) : (resume thread args).Tame :=
  ⟨fun g _ hk => ⟨.refl g, .resume (fun r g => (hk r g).1) fun r g => (hk r g).2⟩⟩

instance tame_close (thread : Nat) : (close thread).Tame :=
  ⟨fun g _ hk => ⟨.refl g, .close (fun r g => (hk r g).1) fun r g => (hk r g).2⟩⟩

instance tame_closeFailed (thread : Nat) : (closeFailed thread).Tame :=
  ⟨fun g _ hk => ⟨.refl g, .close (fun r g => (hk r g).1) fun r g => (hk r g).2⟩⟩

instance tame_status (thread : Nat) : (status thread).Tame :=
  ⟨fun g _ hk => ⟨.refl g, .status (fun r g => (hk r g).1) fun r g => (hk r g).2⟩⟩

instance tame_situation : situation.Tame :=
  ⟨fun g _ hk => ⟨.refl g, .situation (fun r g => (hk r g).1) fun r g => (hk r g).2⟩⟩

instance tame_position (level : Nat) : (position level).Tame :=
  ⟨fun g _ hk => ⟨.refl g, .position (fun r g => (hk r g).1) fun r g => (hk r g).2⟩⟩

instance tame_newThread (f : Val) : (newThread f).Tame :=
  ⟨fun g _ hk => ⟨.refl g, .newThread (fun r g => (hk r g).1) fun r g => (hk r g).2⟩⟩

instance tame_rawSet (t k v : Val) : (modifyHeap fun h => h.rawSet t k v).Tame :=
  tame_modifyHeap fun h => h.carries_rawSet t k v

instance tame_rawSetText (t : Val) (k : String) (v : Val) :
    (modifyHeap fun h => h.rawSetText t k v).Tame :=
  tame_modifyHeap fun h => h.carries_rawSetText t k v

instance tame_setMetatable (v : Val) (m : Option Nat) : (modifyHeap fun h => h.setMetatable v m).Tame :=
  tame_modifyHeap fun h => h.carries_setMetatable v m

instance tame_setCell (i : Nat) (v : Val) : (modifyHeap fun h => h.setCell i v).Tame :=
  tame_modifyHeap fun h => h.carries_setCell i v

instance tame_allocate : allocate.Tame := by
  unfold allocate
  infer_instance

instance tame_newTable (t : Table) : (newTable t).Tame := by
  have hnew : (onHeap (·.newTable t)).Tame := tame_onHeap fun h => h.carries_newTable t
  unfold newTable
  infer_instance

instance tame_newClosure (c : Closure) : (newClosure c).Tame := by
  have hnew : (onHeap (·.newClosure c)).Tame := tame_onHeap fun h => h.carries_newClosure c
  unfold newClosure
  infer_instance

instance tame_text (b : Bytes) : (text b).Tame := by
  unfold text
  infer_instance

instance tame_settle (keep : List Val) (o : Outcome Val) : (settle keep o).Tame := by
  cases o <;> unfold settle <;> infer_instance

instance tame_index (o k : Val) (keep : List Val) : (index o k keep).Tame := by
  unfold index
  infer_instance

instance tame_setIndex (o k v : Val) (keep : List Val) : (setIndex o k v keep).Tame := by
  unfold setIndex
  refine tame_heap_bind fun g => ?_
  split
  next h hs => exact tameAt_modifyHeap (Heap.carries_setIndex hs)
  next => exact Tame.at_ g
  next => exact Tame.at_ g

instance tame_lessThan (a b : Val) (keep : List Val) : (lessThan a b keep).Tame := by
  unfold lessThan
  refine .bind fun h => ?_
  dsimp only
  split <;> infer_instance

instance tame_forIn {ρ : Type} (l : List ρ) (f : ρ → PUnit → Native (ForInStep PUnit))
    [hf : ∀ a b, (f a b).Tame] : (ForIn.forIn l PUnit.unit f).Tame := by
  induction l with
  | nil => exact tame_pure _
  | cons a l ih =>
    rw [List.forIn_cons]
    refine .bind fun s => ?_
    split
    · exact tame_pure _
    · exact ih

instance tame_mapM (l : List α) (f : α → Native β) [hf : ∀ a, (f a).Tame] : (l.mapM f).Tame := by
  have hloop : ∀ acc, (List.mapM.loop f l acc).Tame := by
    induction l with
    | nil =>
      intro acc
      exact tame_pure _
    | cons a l ih =>
      intro acc
      exact .bind fun b => ih (b :: acc)
  exact hloop []

end Native

namespace Args

open Native

variable (args : Args) (i : Nat)

instance tame_wrongType (expected : Bytes) : (args.wrongType i expected : Native α).Tame := by
  unfold wrongType
  infer_instance

instance tame_any : (args.any i).Tame := by
  unfold any
  split <;> infer_instance

instance tame_table : (args.table i).Tame := by
  unfold table
  split <;> infer_instance

instance tame_text : (args.text i).Tame := by
  unfold text
  split <;> infer_instance

instance tame_integer : (args.integer i).Tame := by
  unfold integer
  split
  · split <;> infer_instance
  · infer_instance

instance tame_number : (args.number i).Tame := by
  unfold number
  split <;> infer_instance

instance tame_float : (args.float i).Tame := by
  unfold float
  infer_instance

instance tame_integerOr (default : Int) : (args.integerOr i default).Tame := by
  unfold integerOr
  infer_instance

instance tame_textOr (default : Bytes) : (args.textOr i default).Tame := by
  unfold textOr
  infer_instance

instance tame_function : (args.function i).Tame := by
  unfold function
  split <;> infer_instance

instance tame_thread : (args.thread i).Tame := by
  unfold thread
  split <;> infer_instance

end Args
end LuaEmbed.Engine
