import LuaEmbed.Proofs.Lookup

/-!
A step of a thread works on that thread and on objects: every other thread stays as it is, and at
most a new one is made.
-/
namespace LuaEmbed.Engine.Vm

/-- All threads but one are still there as they were. -/
def Apart (t : Nat) (vm vm' : Vm) : Prop :=
  ∀ u, u ≠ t → ∀ th, vm.thread? u = some th → vm'.thread? u = some th

variable {t : Nat} {vm vm' : Vm}

theorem Apart.refl (t : Nat) (vm : Vm) : Apart t vm vm := fun _ _ _ h => h

theorem Apart.trans {a b c : Vm} (h : Apart t a b) (k : Apart t b c) : Apart t a c :=
  fun u hu th ht => k u hu th (h u hu th ht)

theorem apart_modifyThread (vm : Vm) (t : Nat) (f : Thread → Thread) :
    Apart t vm (vm.modifyThread t f) := by
  intro u hu th h
  rwa [thread?_modifyThread_of_ne vm t u f hu.symm]

theorem apart_setThread (vm : Vm) (t : Nat) (th : Thread) : Apart t vm (vm.setThread t th) := by
  intro u hu th' h
  rwa [thread?_setThread, if_neg hu.symm]

theorem apart_heap (t : Nat) (vm : Vm) (h : Heap) : Apart t vm { vm with heap := h } :=
  fun _ _ _ h => h

theorem apart_onHeap (t : Nat) (vm : Vm) (f : Heap → Heap × Action) : Apart t vm (vm.onHeap f).1 :=
  fun _ _ _ h => h

theorem apart_spawn (t : Nat) (vm : Vm) (th : Thread) :
    Apart t vm { vm with threads := vm.threads.push th } := fun _ _ _ h => thread?_spawn h th

/-! ### Calls -/

theorem apart_makeRoom (vm : Vm) (t used need : Nat) : Apart t vm (vm.makeRoom t used need).1 := by
  unfold makeRoom
  dsimp only
  split
  · split
    · exact .refl t vm
    · exact apart_modifyThread vm t _
  · split
    · exact .refl t vm
    · exact apart_modifyThread vm t _

theorem apart_enterScript (vm : Vm) (t : Nat) (f : Val) (p : Proto) (cells : Array Nat)
    (args : List Val) (frame : Frame) : Apart t vm (vm.enterScript t f p cells args frame).1 := by
  unfold enterScript
  dsimp only
  split <;> rename_i hm <;> have hroom := congrArg Prod.fst hm
  · exact hroom ▸ apart_makeRoom vm t _ _
  · exact (hroom ▸ apart_makeRoom vm t _ _).trans (apart_modifyThread _ t _)

theorem apart_enterNative (vm : Vm) (t : Nat) (f : Val) (b : Builtin) (up : Array Val)
    (args : List Val) (frame : Frame) : Apart t vm (vm.enterNative t f b up args frame).1 := by
  unfold enterNative
  dsimp only
  split <;> rename_i hm <;> have hroom := congrArg Prod.fst hm
  · exact hroom ▸ apart_makeRoom vm t _ _
  · have hframe := hroom ▸ apart_makeRoom vm t _ _
    split
    · exact hframe.trans (apart_modifyThread _ t _)
    · exact hframe.trans (apart_modifyThread _ t _)
    · exact (hframe.trans (apart_modifyThread _ t _)).trans (apart_onHeap t _ _)

theorem apart_enter (vm : Vm) (t : Nat) (f : Val) (args : List Val) (m : Manner) :
    Apart t vm (vm.enter t f args m).1 := by
  unfold enter
  dsimp only
  generalize (if m.nests = true then _ else _) = depth
  split
  · exact .refl t vm
  · split
    · exact .refl t vm
    · split
      · exact .refl t vm
      · split
        · exact apart_enterNative vm t _ _ _ _ _
        · split
          · exact apart_enterScript vm t _ _ _ _ _
          · exact apart_enterNative vm t _ _ _ _ _
          · exact .refl t vm
        · exact .refl t vm

theorem apart_closeOrDeliver (vm : Vm) (t : Nat) (rest : List Val)
    (error : Option (ErrorStatus × Val)) (back : Await) :
    Apart t vm (vm.closeOrDeliver t rest error back).1 := by
  unfold closeOrDeliver
  split
  · exact (apart_modifyThread vm t _).trans (apart_enter _ t _ _ _)
  · dsimp only
    split
    · exact (apart_modifyThread vm t _).trans (apart_onHeap t _ _)
    · exact apart_modifyThread vm t _
    · exact apart_modifyThread vm t _

/-! ### Steps -/

theorem apart_act (vm : Vm) (t : Nat) (a : Action) : Apart t vm (vm.act t a).1 := by
  cases a with
  | ret | resume | close => exact apart_modifyThread vm t _
  | raise | raiseMemory | fail | badArgument | collect | release => exact .refl t vm
  | call | protect => exact (apart_modifyThread vm t _).trans (apart_enter _ t _ _ _)
  | yield vs =>
    unfold act
    dsimp only
    split
    · exact apart_modifyThread vm t _
    · exact .refl t vm
  | status | situation | position => exact apart_onHeap t vm _
  | newThread => exact (apart_spawn t vm _).trans (apart_onHeap t _ _)

theorem apart_deliver (vm : Vm) (t : Nat) (vs : List Val) : Apart t vm (vm.deliver t vs).1 := by
  unfold deliver
  dsimp only
  split
  case h_4 | h_5 => exact (apart_modifyThread vm t _).trans (apart_onHeap t _ _)
  case h_12 => exact apart_closeOrDeliver vm t _ _ _
  all_goals first | exact .refl t vm | exact apart_modifyThread vm t _

theorem apart_settle (vm : Vm) (t : Nat) (status : ErrorStatus) (v : Val) :
    Apart t vm (vm.settle t status v).1 := by
  unfold settle
  dsimp only
  split
  · exact apart_modifyThread vm t _
  · split <;> exact (apart_modifyThread vm t _).trans (apart_closeOrDeliver _ t _ _ _)

theorem apart_raise (vm : Vm) (t : Nat) (status : ErrorStatus) (v : Val) (handled : Bool) :
    Apart t vm (vm.raise t status v handled).1 := by
  unfold raise
  dsimp only
  split
  · exact apart_settle vm t status v
  · split
    · exact apart_settle vm t status v
    · exact (apart_modifyThread vm t _).trans (apart_enter _ t _ _ _)

theorem apart_runScript (vm : Vm) (t : Nat) : Apart t vm (vm.runScript t).1 := by
  unfold runScript take
  dsimp only
  split
  · have hput : ∀ h th, Apart t vm (Vm.setThread ⟨h, (vm.setThread t default).threads⟩ t th) :=
      fun h th => ((apart_setThread vm t _).trans (apart_heap t _ h)).trans (apart_setThread _ t th)
    split
    · exact hput _ _
    · exact hput _ _
    · exact hput _ _
    · exact hput _ _
    · exact (hput _ _).trans (apart_enter _ t _ _ _)
    · split
      · split
        · exact (hput _ _).trans (apart_enterScript _ t _ _ _ _ _)
        · exact (hput _ _).trans (apart_enter _ t _ _ _)
      · exact (hput _ _).trans (apart_enter _ t _ _ _)
  · exact (apart_setThread vm t _).trans (apart_setThread _ t _)

theorem apart_step (vm : Vm) (t : Nat) (s : Signal) : Apart t vm (vm.step t s).1 := by
  cases s with
  | run => exact apart_runScript vm t
  | act a => exact apart_act vm t a
  | results vs => exact apart_deliver vm t vs
  | raise status v handled => exact apart_raise vm t status v handled

/-! ### Resuming and closing -/

theorem apart_beginResume (vm : Vm) (t count depth : Nat) :
    Apart t vm (vm.beginResume t count depth).1 := by
  unfold beginResume
  dsimp only
  split
  · exact apart_modifyThread vm t _
  · exact (apart_modifyThread vm t _).trans (apart_enter _ t _ _ _)

theorem apart_endResume (vm : Vm) (t : Nat) (e : Exit) : Apart t vm (vm.endResume t e) := by
  cases e with
  | returned vs => exact apart_modifyThread vm t _
  | _ => exact .refl t vm

theorem apart_beginClose (vm : Vm) (t depth : Nat) : Apart t vm (vm.beginClose t depth).1 :=
  (apart_setThread vm t _).trans (apart_closeOrDeliver _ t _ _ _)

end LuaEmbed.Engine.Vm
