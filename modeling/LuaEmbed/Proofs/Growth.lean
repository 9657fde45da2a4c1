import LuaEmbed.Proofs.Lookup

/-!
The sizes of stacks. A step of a thread makes its stack larger, or gives room back that none of its
frames has reserved; so what a frame has reserved stays there as long as the frame does.
-/
namespace LuaEmbed.Engine

/-- Some of the frames has reserved so many slots of the stack. -/
def Reserved (fs : List Frame) (n : Nat) : Prop := ∃ f ∈ fs, n ≤ f.limit

namespace Thread

/-- A stack holds so many slots without having to grow: there is one to spare, or it is as large as it
may get. -/
def Ample (t : Thread) (n : Nat) : Prop :=
  t.size ≤ errorSize ∧ (n < t.size ∨ n = t.size ∧ t.size = maxSize)

/-- Whatever these frames have reserved, there is room for it afterwards if there was before. -/
def RoomFor (fs : List Frame) (s t : Thread) : Prop := ∀ n, Reserved fs n → s.Ample n → t.Ample n

/-- A stack has grown, unless it was too large before. -/
def Grown (s t : Thread) : Prop := s.size ≤ t.size ∧ t.size ≤ max s.size errorSize

variable {s t u : Thread} {fs : List Frame} {n : Nat}

theorem Ample.less {m : Nat} (h : t.Ample n) (hm : m ≤ n) : t.Ample m := by
  unfold Ample at *
  omega

theorem RoomFor.refl : RoomFor fs t t := fun _ _ h => h

theorem RoomFor.trans (h : RoomFor fs s t) (k : RoomFor fs t u) : RoomFor fs s u :=
  fun n hn hs => k n hn (h n hn hs)

theorem Grown.of_size (h : t.size = s.size) : s.Grown t := by
  unfold Grown
  omega

theorem Grown.trans (h : s.Grown t) (k : t.Grown u) : s.Grown u := by
  unfold Grown at *
  omega

theorem Grown.ample (h : s.Grown t) (hs : s.Ample n) : t.Ample n := by
  unfold Grown at h
  unfold Ample at *
  have hmax : maxSize ≤ errorSize := by decide
  omega

theorem Grown.roomFor (h : s.Grown t) : RoomFor fs s t := fun _ _ hs => h.ample hs

theorem grownSize_grown {size used n m : Nat}
    (h : grownSize size used n = .ok m ∨ grownSize size used n = .error m) :
    size ≤ m ∧ m ≤ max size errorSize := by
  have hmax : maxSize ≤ errorSize := by decide
  unfold grownSize at h
  split at h
  · rcases h with h | h <;> cases h
    omega
  · split at h
    · rcases h with h | h <;> cases h
      omega
    · dsimp only at h
      split at h
      · rcases h with h | h <;> cases h
        omega
      · rcases h with h | h <;> cases h
        omega

theorem frames_eq (t : Thread) : t.frames = t.top :: t.frames.tail := by
  obtain ⟨above, ground, status, size⟩ := t
  cases above <;> rfl

@[simp] theorem frames_modifyTop (t : Thread) (g : Frame → Frame) :
    (t.modifyTop g).frames = g t.top :: t.frames.tail := by
  obtain ⟨above, ground, status, size⟩ := t
  cases above <;> rfl

@[simp] theorem top_modifyTop (t : Thread) (g : Frame → Frame) :
    (t.modifyTop g).top = g t.top := by
  obtain ⟨above, ground, status, size⟩ := t
  cases above <;> rfl

@[simp] theorem status_modifyTop (t : Thread) (g : Frame → Frame) :
    (t.modifyTop g).status = t.status := by
  obtain ⟨above, ground, status, size⟩ := t
  cases above <;> rfl

@[simp] theorem size_modifyTop (t : Thread) (g : Frame → Frame) : (t.modifyTop g).size = t.size := by
  obtain ⟨above, ground, status, size⟩ := t
  cases above <;> rfl

theorem shrink_eq (th : Thread) : ∃ n, th.shrink = { th with size := n } := by
  unfold shrink
  dsimp only
  generalize (if maxSize / 3 < th.inUse then maxSize else 3 * th.inUse) = bound
  split
  · exact ⟨_, rfl⟩
  · exact ⟨th.size, rfl⟩

theorem frames_shrink (th : Thread) : th.shrink.frames = th.frames := by
  obtain ⟨n, hn⟩ := th.shrink_eq
  rw [hn]
  rfl

theorem limit_lt_inUse {f : Frame} (h : f ∈ t.frames) : f.limit < t.inUse := by
  have hfold : ∀ (fs : List Frame) (k : Nat), k ≤ fs.foldl (fun n f => max n f.limit) k ∧
      ∀ f ∈ fs, f.limit ≤ fs.foldl (fun n f => max n f.limit) k := by
    intro fs
    induction fs with
    | nil => simp
    | cons g fs ih =>
      intro k
      obtain ⟨hk, hfs⟩ := ih (max k g.limit)
      rw [List.foldl_cons]
      refine ⟨by omega, fun f hf => ?_⟩
      rcases List.mem_cons.mp hf with rfl | hf
      · omega
      · exact hfs f hf
  have hlimit := (hfold t.frames t.used).2 f h
  unfold inUse
  omega

/-- What is given back has not been reserved. -/
theorem roomFor_shrink (t : Thread) : RoomFor t.frames t t.shrink := by
  rintro n ⟨f, hf, hn⟩ ht
  have huse := limit_lt_inUse hf
  unfold shrink
  dsimp only
  generalize (if maxSize / 3 < t.inUse then maxSize else 3 * t.inUse) = bound
  split
  next h =>
    have hmax : maxSize ≤ errorSize := by decide
    unfold Ample
    dsimp only
    split <;> omega
  next => exact ht

/-- A stack after a step. -/
inductive Resized (s : Thread) : Thread → Prop where
  | grown {t : Thread} (h : s.Grown t) : Resized s t
  | shrunk {t : Thread} (h : s.Grown t) : Resized s t.shrink

theorem Resized.roomFor (h : s.Resized t) : RoomFor t.frames s t := by
  cases h with
  | grown h => exact h.roomFor
  | shrunk h =>
    rw [frames_shrink]
    exact h.roomFor.trans (roomFor_shrink _)

theorem Grown.resized (h : s.Grown t) (k : t.Resized u) : s.Resized u := by
  cases k with
  | grown k => exact .grown (h.trans k)
  | shrunk k => exact .shrunk (h.trans k)

end Thread

namespace Vm

/-- A thread is still there, and its stack has grown. -/
def Grows (t : Nat) (vm vm' : Vm) : Prop :=
  ∀ th, vm.thread? t = some th → ∃ th', vm'.thread? t = some th' ∧ th.Grown th'

/-- A thread is still there, and of a size that it can have after a step. -/
def Resizes (t : Nat) (vm vm' : Vm) : Prop :=
  ∀ th, vm.thread? t = some th → ∃ th', vm'.thread? t = some th' ∧ th.Resized th'

variable {t : Nat} {vm vm' vm'' : Vm}

theorem Grows.trans (h : Grows t vm vm') (k : Grows t vm' vm'') : Grows t vm vm'' := by
  intro th ht
  obtain ⟨th₁, ht₁, h₁⟩ := h th ht
  obtain ⟨th₂, ht₂, h₂⟩ := k th₁ ht₁
  exact ⟨th₂, ht₂, h₁.trans h₂⟩

theorem Grows.resizes (h : Grows t vm vm') : Resizes t vm vm' := by
  intro th ht
  obtain ⟨th', ht', h'⟩ := h th ht
  exact ⟨th', ht', .grown h'⟩

theorem Grows.then (h : Grows t vm vm') (k : Resizes t vm' vm'') : Resizes t vm vm'' := by
  intro th ht
  obtain ⟨th₁, ht₁, h₁⟩ := h th ht
  obtain ⟨th₂, ht₂, h₂⟩ := k th₁ ht₁
  exact ⟨th₂, ht₂, h₁.resized h₂⟩

theorem grows_same (ht : ∀ th, vm.thread? t = some th → vm'.thread? t = some th) :
    Grows t vm vm' := fun th h => ⟨th, ht th h, .of_size rfl⟩

theorem grows_modifyThread (vm : Vm) (t : Nat) {f : Thread → Thread}
    (hf : ∀ th, (f th).size = th.size) : Grows t vm (vm.modifyThread t f) := by
  intro th h
  refine ⟨f th, ?_, .of_size (hf th)⟩
  rw [thread?_modifyThread_self, h]
  rfl

theorem heap_makeRoom (vm : Vm) (t used need : Nat) :
    (vm.makeRoom t used need).1.heap = vm.heap := by
  unfold makeRoom
  dsimp only
  split
  · split <;> rfl
  · split <;> rfl

theorem grows_makeRoom (vm : Vm) (t used need : Nat) : Grows t vm (vm.makeRoom t used need).1 := by
  have hgrow : ∀ size, Thread.grownSize (vm.thread t).size used need = .ok size ∨
      Thread.grownSize (vm.thread t).size used need = .error size →
      Grows t vm (vm.modifyThread t ({ · with size })) := by
    intro size hs th h
    refine ⟨{ th with size }, by rw [thread?_modifyThread_self, h]; rfl, ?_⟩
    rw [thread_eq, h] at hs
    exact Thread.grownSize_grown hs
  unfold makeRoom
  dsimp only
  cases hg : Thread.grownSize (vm.thread t).size used need with
  | ok size =>
    dsimp only
    split
    · exact grows_same fun _ h => h
    · exact hgrow size (.inl hg)
  | error size =>
    dsimp only
    split
    · exact grows_same fun _ h => h
    · exact hgrow size (.inr hg)

theorem grows_enterScript (vm : Vm) (t : Nat) (f : Val) (p : Proto) (cells : Array Nat)
    (args : List Val) (frame : Frame) : Grows t vm (vm.enterScript t f p cells args frame).1 := by
  unfold enterScript
  dsimp only
  split <;> rename_i hm <;> have hroom := congrArg Prod.fst hm
  · exact hroom ▸ grows_makeRoom vm t _ _
  · exact (hroom ▸ grows_makeRoom vm t _ _).trans (grows_modifyThread _ t fun _ => rfl)

theorem grows_enterNative (vm : Vm) (t : Nat) (f : Val) (b : Builtin) (up : Array Val)
    (args : List Val) (frame : Frame) : Grows t vm (vm.enterNative t f b up args frame).1 := by
  unfold enterNative
  dsimp only
  split <;> rename_i hm <;> have hroom := congrArg Prod.fst hm
  · exact hroom ▸ grows_makeRoom vm t _ _
  · have hframe : Grows t vm _ := hroom ▸ grows_makeRoom vm t _ _
    split <;> exact hframe.trans (grows_modifyThread _ t fun _ => rfl)

theorem grows_enter (vm : Vm) (t : Nat) (f : Val) (args : List Val) (m : Manner) :
    Grows t vm (vm.enter t f args m).1 := by
  have hsame : Grows t vm vm := grows_same fun _ h => h
  unfold enter
  dsimp only
  generalize (if m.nests = true then _ else _) = depth
  split
  · exact hsame
  · split
    · exact hsame
    · split
      · exact hsame
      · split
        · exact grows_enterNative vm t _ _ _ _ _
        · split
          · exact grows_enterScript vm t _ _ _ _ _
          · exact grows_enterNative vm t _ _ _ _ _
          · exact hsame
        · exact hsame

theorem roomFor_enter {th th' : Thread} {fs : List Frame} {f : Val} {args : List Val} {m : Manner}
    (h : vm.thread? t = some th) (h' : (vm.enter t f args m).1.thread? t = some th') :
    Thread.RoomFor fs th th' := by
  obtain ⟨th₁, ht₁, hsize⟩ := grows_enter vm t f args m th h
  obtain rfl := Option.some.inj (ht₁.symm.trans h')
  exact hsize.roomFor

theorem resizes_closeOrDeliver (vm : Vm) (t : Nat) (rest : List Val)
    (error : Option (ErrorStatus × Val)) (back : Await) :
    Resizes t vm (vm.closeOrDeliver t rest error back).1 := by
  unfold closeOrDeliver
  split
  · exact ((grows_modifyThread vm t fun th => th.size_modifyTop _).trans
      (grows_enter _ t _ _ _)).resizes
  · have hshrunk : Resizes t vm (vm.modifyThread t fun th => (th.setAwait .idle).shrink) := by
      intro th h
      exact ⟨_, by rw [thread?_modifyThread_self, h]; rfl, .shrunk (.of_size (th.size_modifyTop _))⟩
    dsimp only
    split <;> exact hshrunk

theorem grows_act (vm : Vm) (t : Nat) (a : Action) : Grows t vm (vm.act t a).1 := by
  have hsame : Grows t vm vm := grows_same fun _ h => h
  have htop : ∀ f : Frame → Frame, Grows t vm (vm.modifyThread t (·.modifyTop f)) := fun f =>
    grows_modifyThread vm t fun th => th.size_modifyTop f
  cases a with
  | ret => exact grows_modifyThread vm t fun _ => rfl
  | resume | close => exact htop _
  | raise | raiseMemory | fail | badArgument | collect | release => exact hsame
  | call | protect => exact (htop _).trans (grows_enter _ t _ _ _)
  | yield vs =>
    unfold act
    dsimp only
    split
    · exact grows_modifyThread vm t fun th => th.size_modifyTop _
    · exact hsame
  | status | situation | position => exact hsame
  | newThread => exact grows_same fun _ h => thread?_spawn h _

theorem resizes_deliver (vm : Vm) (t : Nat) (vs : List Val) : Resizes t vm (vm.deliver t vs).1 := by
  have hsame : Grows t vm vm := grows_same fun _ h => h
  have htop : ∀ f : Frame → Frame, Grows t vm (vm.modifyThread t (·.modifyTop f)) := fun f =>
    grows_modifyThread vm t fun th => th.size_modifyTop f
  have hpop : Grows t vm (vm.modifyThread t (·.popFrame)) := grows_modifyThread vm t fun _ => rfl
  unfold deliver
  dsimp only
  split
  case h_12 => exact resizes_closeOrDeliver vm t _ _ _
  all_goals first
    | exact hsame.resizes
    | exact hpop.resizes
    | exact (htop _).resizes

theorem resizes_settle (vm : Vm) (t : Nat) (status : ErrorStatus) (v : Val) :
    Resizes t vm (vm.settle t status v).1 := by
  unfold settle
  dsimp only
  split
  · have hfailed : ∀ th, (failed vm.heap status v th).size = th.size := fun th =>
      Thread.size_modifyTop _ _
    exact (grows_modifyThread vm t hfailed).resizes
  · have habove : ∀ above, Grows t vm (vm.modifyThread t ({ · with above })) := fun above =>
      grows_modifyThread vm t fun _ => rfl
    split <;> exact (habove _).then (resizes_closeOrDeliver _ t _ _ _)

theorem resizes_raise (vm : Vm) (t : Nat) (status : ErrorStatus) (v : Val) (handled : Bool) :
    Resizes t vm (vm.raise t status v handled).1 := by
  unfold raise
  dsimp only
  split
  · exact resizes_settle vm t status v
  · split
    · exact resizes_settle vm t status v
    · refine ((grows_modifyThread vm t fun th => ?_).trans (grows_enter _ t _ _ _)).resizes
      split
      · exact th.size_modifyTop _
      · rfl

theorem grows_runScript (vm : Vm) (t : Nat) : Grows t vm (vm.runScript t).1 := by
  unfold runScript take
  dsimp only
  have hput : ∀ h th, th.size = (vm.thread t).size →
      Grows t vm (Vm.setThread ⟨h, (vm.setThread t default).threads⟩ t th) := by
    intro h th hsize th₀ h₀
    refine ⟨th, ?_, .of_size (by rw [hsize, thread_eq, h₀]; rfl)⟩
    rw [thread?_setThread, if_pos rfl]
    change ((vm.setThread t default).thread? t).map _ = _
    rw [thread?_setThread, if_pos rfl, h₀]
    rfl
  split
  next a aw fn name base limit depth cy rest ground status size hth =>
    have hsize : size = (vm.thread t).size := by rw [hth]
    split
    · exact hput _ _ hsize
    · exact hput _ _ hsize
    · exact hput _ _ hsize
    · exact hput _ _ hsize
    · exact (hput _ _ hsize).trans (grows_enter _ t _ _ _)
    · split
      · split
        · exact (hput _ _ hsize).trans (grows_enterScript _ t _ _ _ _ _)
        · exact (hput _ _ hsize).trans (grows_enter _ t _ _ _)
      · exact (hput _ _ hsize).trans (grows_enter _ t _ _ _)
  next => exact hput _ _ rfl

theorem resizes_step (vm : Vm) (t : Nat) (s : Signal) : Resizes t vm (vm.step t s).1 := by
  cases s with
  | run => exact (grows_runScript vm t).resizes
  | act a => exact (grows_act vm t a).resizes
  | results vs => exact resizes_deliver vm t vs
  | raise status v handled => exact resizes_raise vm t status v handled

end Vm
end LuaEmbed.Engine
