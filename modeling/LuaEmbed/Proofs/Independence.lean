import LuaEmbed.Proofs.Dialogue

/-!
Coroutines that have no data in common. What such a coroutine says in a conversation depends on what
it is told, and not on when the others are resumed.
-/
namespace LuaEmbed

open Engine World

variable {σ μ δ : Type} {w w' u v : World σ μ} {source : Context} {code : HostCode σ μ}
  {c : ThreadHandle} {cs : List ThreadHandle} {st : ThreadStatus} {s : Array Val}
  {xs ys : List (Exchange σ μ)} {x y : Exchange σ μ}

/-- In two conversations a part of what is in a world is a coroutine's own. It does not include the
stacks on which values are handed over. The others leave it as it is; and where it is the same and so
is the coroutine's stack, the coroutine does the same when it is told the same. -/
structure Separate (part : World σ μ → δ) (c : ThreadHandle) (cs : List ThreadHandle)
    (xs ys : List (Exchange σ μ)) : Prop where
  inner : ∀ d ∈ cs, ∀ w w', w.SameBut d.thread w' → part w' = part w
  others : ∀ x ∈ xs ++ ys, x.speaker ≠ c → part x.stopped = part x.before
  own : ∀ x ∈ xs, ∀ y ∈ ys, x.speaker = c → y.speaker = c → x.args = y.args →
    x.before.shown c.thread = y.before.shown c.thread → part x.before = part y.before →
    x.exit = y.exit ∧ part x.stopped = part y.stopped

/-- The exchanges of one coroutine follow upon each other as if there were no others: each begins with
the part of the world that the last one has left, and with an empty stack. -/
def Linked (part : World σ μ → δ) (c : ThreadHandle) :
    δ → Option (Array Val) → List (Exchange σ μ) → Prop
  | _, _, [] => True
  | d, s, x :: xs => part x.before = d ∧ x.before.shown c.thread = s ∧
      Linked part c (part x.stopped) (some #[]) xs

/-- After a resume of another coroutine, a coroutine finds its part of the world and its stack as they
were; after a resume of its own, it finds the part that it has left and an empty stack. -/
theorem Exchange.Happens.part_after {part : World σ μ → δ} (H : x.Happens code source cs)
    (C : Circle source cs) (R : Ready source st s cs x.before (x :: xs)) (hc : c ∈ cs)
    (hi : ∀ d ∈ cs, ∀ w w', w.SameBut d.thread w' → part w' = part w)
    (ho : x.speaker ≠ c → part x.stopped = part x.before) :
    (x.speaker = c → part (x.after source) = part x.stopped ∧
      (x.after source).shown c.thread = some #[]) ∧
    (x.speaker ≠ c → exchangesOf c xs ≠ [] → part (x.after source) = part x.before ∧
      (x.after source).shown c.thread = x.before.shown c.thread) := by
  obtain ⟨hanswered, -, hothers⟩ := H.ready C R
  have hpart : part (x.after source) = part x.stopped := hi _ H.speaker _ _ hanswered.data
  refine ⟨?_, fun hne hsome => ⟨hpart.trans (ho hne), hothers c hc hne ?_⟩⟩
  · rintro rfl
    exact ⟨hpart, hanswered.emptied⟩
  · exact fun hsaid => hsome (List.map_eq_nil_iff.mp hsaid)

/-- In a conversation, the exchanges of a coroutine whose part of the world the others leave alone are
linked. -/
theorem Converse.linked {part : World σ μ → δ} (h : Converse code source cs w xs w')
    (C : Circle source cs) (R : Ready source st s cs w xs) (hc : c ∈ cs)
    (hi : ∀ d ∈ cs, ∀ w w', w.SameBut d.thread w' → part w' = part w)
    (ho : ∀ x ∈ xs, x.speaker ≠ c → part x.stopped = part x.before) :
    Linked part c (part w) (w.shown c.thread) (exchangesOf c xs) := by
  induction h with
  | ended w => exact trivial
  | @resumed x xs w' H _ ih =>
    obtain ⟨hx, hxs⟩ := List.forall_mem_cons.mp ho
    obtain ⟨hown, hothers⟩ := H.part_after C R hc hi hx
    have hrest := ih (H.ready C R).2.1 hxs
    rw [exchangesOf_cons]
    by_cases hself : x.speaker = c
    · obtain ⟨hpart, hshown⟩ := hown hself
      rw [hpart, hshown] at hrest
      rw [if_pos hself]
      exact ⟨rfl, rfl, hrest⟩
    · rw [if_neg hself]
      by_cases hnone : exchangesOf c xs = []
      · rw [hnone]
        exact trivial
      · obtain ⟨hpart, hshown⟩ := hothers hself hnone
        rwa [hpart, hshown] at hrest

/-- Two chains of exchanges that begin alike and in which the coroutine is told the same say the
same, if what it does is determined in this way. -/
theorem Linked.said_eq {part : World σ μ → δ} {d : δ} {shown : Option (Array Val)}
    (hx : Linked part c d shown xs) (hy : Linked part c d shown ys)
    (hown : ∀ x ∈ xs, ∀ y ∈ ys, x.args = y.args →
      x.before.shown c.thread = y.before.shown c.thread → part x.before = part y.before →
      x.exit = y.exit ∧ part x.stopped = part y.stopped)
    (htold : xs.map (·.args) = ys.map (·.args)) : xs.map (·.exit) = ys.map (·.exit) := by
  induction xs generalizing ys d shown with
  | nil =>
    obtain rfl := List.map_eq_nil_iff.mp htold.symm
    rfl
  | cons x xs ih =>
    cases ys with
    | nil => cases htold
    | cons y ys =>
      obtain ⟨hpx, hsx, hxs⟩ := hx
      obtain ⟨hpy, hsy, hys⟩ := hy
      obtain ⟨hargs, hrest⟩ := List.cons.inj htold
      obtain ⟨hexit, hpart⟩ := hown x (List.mem_cons_self ..) y (List.mem_cons_self ..) hargs
        (hsx.trans hsy.symm) (hpx.trans hpy.symm)
      rw [← hpart] at hys
      have hsaid := ih hxs hys (fun x hx y hy =>
        hown x (List.mem_cons_of_mem _ hx) y (List.mem_cons_of_mem _ hy)) hrest
      rw [List.map_cons, List.map_cons, hexit, hsaid]

/-- In whatever order coroutines are resumed, a coroutine that has its part of the world for itself
says the same when it is told the same. -/
theorem Converse.said_eq {part : World σ μ → δ} (h : Converse code source cs w xs u)
    (k : Converse code source cs w ys v) (C : Circle source cs) (Rx : Ready source st s cs w xs)
    (Ry : Ready source st s cs w ys) (hc : c ∈ cs) (S : Separate part c cs xs ys)
    (htold : toldTo c xs = toldTo c ys) : saidBy c xs = saidBy c ys := by
  have hx := h.linked C Rx hc S.inner fun x hx => S.others x (List.mem_append_left _ hx)
  have hy := k.linked C Ry hc S.inner fun y hy => S.others y (List.mem_append_right _ hy)
  refine hx.said_eq hy (fun x hx y hy => ?_) htold
  obtain ⟨hx, hxc⟩ := List.mem_filter.mp hx
  obtain ⟨hy, hyc⟩ := List.mem_filter.mp hy
  exact S.own x hx y hy (of_decide_eq_true hxc) (of_decide_eq_true hyc)

/-! ### The law of conversations -/

/-- Every resume of a conversation is answered with what the coroutine yields or returns, which is what
it does with what it is told; and in whatever order coroutines are resumed that have no data in common,
each says the same when it is told the same. -/
theorem World.conversation_law (code : HostCode σ μ) (source : Context) (cs : List ThreadHandle)
    (C : Circle source cs) (w : World σ μ) (st : ThreadStatus) (s : Array Val) :
    (∀ xs w', Converse code source cs w xs w' → Ready source st s cs w xs →
      ∀ x ∈ xs, x.IsAnswered code source s) ∧
    ∀ xs u ys v, Converse code source cs w xs u → Converse code source cs w ys v →
      Ready source st s cs w xs → Ready source st s cs w ys →
      ∀ c ∈ cs, ∀ part : World σ μ → δ, Separate part c cs xs ys →
        toldTo c xs = toldTo c ys → saidBy c xs = saidBy c ys :=
  ⟨fun _ _ h R => h.answered C R, fun _ _ _ _ h k Rx Ry _ hc _ S => h.said_eq k C Rx Ry hc S⟩

/-! ### Conversations that can be computed -/

/-- The resumes of a plan, one after the other, if the runs of the bodies end. -/
def converse (code : HostCode σ μ) (fuel : Nat) (source : Context) :
    List (ThreadHandle × List Value) → World σ μ → Option (List (Exchange σ μ))
  | [], _ => some []
  | (h, args) :: plan, w => do
    let (e, w₁) ← (World.drive code fuel).from (h.turn source args w)
    let x : Exchange σ μ := ⟨h, args, fuel, w, e, w₁⟩
    let xs ← converse code fuel source plan (x.after source)
    return x :: xs

/-- All that is to be checked of a resume whose run needs nothing from outside. -/
def Exchange.Passes (x : Exchange σ μ) (source : Context) (cs : List ThreadHandle) : Prop :=
  let co := x.speaker.thread
  (x.speaker ∈ cs ∧ source ≠ co ∧
    (x.before.instances[co.vm]?).map (·.closed) = some false ∧
    (x.before.heap co.vm).owner? = some co.vm ∧ x.before.Grants source 1) ∧
  ((∀ v ∈ x.args, v.IsPrimitive = true) ∧ x.args.length ≤ Word32.greatest ∧
    (Context.pushAll co x.args (x.speaker.entered source x.before)).1 = .ok () ∧
    (x.before.thread source).top.depth < Vm.maxNesting) ∧
  World.selfContained x.fuel (x.speaker.turn source x.args x.before) = true ∧
  (x.stopped.instances[co.vm]?).map (·.closed) = some false ∧ .closed co.vm ∉ x.stopped.history ∧
  (x.exit.values.length : Int) ≤ Word32.greatest ∧
  (ThreadHandle.stopped co x.exit x.stopped).Grants co 2 ∧ (x.stopped.heap co.vm).owner? ≠ none

instance (x : Exchange σ μ) (source : Context) (cs : List ThreadHandle) :
    Decidable (x.Passes source cs) :=
  inferInstanceAs (Decidable ((_ ∧ _ ∧ _ ∧ _ ∧ _) ∧ (_ ∧ _ ∧ _ ∧ _) ∧ _ ∧ _ ∧ _ ∧ _ ∧ _ ∧ _))

/-- A run that needs nothing from outside leaves every other thread alone. -/
theorem World.untroubled_of_selfContained {n : Nat} {m : Moment σ μ} {T : Context}
    (h : selfContained n m = true) (hne : m.context ≠ T) : Untroubled code T w m :=
  throughout_of_selfContained h fun _ _ hnext =>
    ⟨fun _ _ _ he => absurd he (hnext _), fun _ => hne, fun _ hc =>
      let ⟨_, he⟩ := hc.need
      absurd he (hnext _)⟩

theorem Exchange.Passes.happens (h : x.Passes source cs) (C : Circle source cs)
    (hd : (World.drive code x.fuel).from (x.speaker.turn source x.args x.before) =
      some (x.exit, x.stopped)) : x.Happens code source cs := by
  obtain ⟨⟨hin, hother, howned, hrecorded, hasks⟩, ⟨hplain, hshort, hpushes, hshallow⟩, halone, hleft,
    hopen, hlength, hroom, howner⟩ := h
  have hvm := C.sameVm _ hin
  refine ⟨hin, ⟨howned, hvm.symm, hother, hvm ▸ hrecorded, hasks, hplain, hshort, fun n => ?_, hshallow⟩,
    hd, ⟨hleft, hopen, hlength, fun _ => hroom, fun _ _ => howner⟩,
    untroubled_of_selfContained halone hother.symm, fun c hc hne => ?_⟩
  · rw [hpushes]
    exact nofun
  · exact untroubled_of_selfContained halone fun he => hne (C.distinct _ hc _ hin he.symm)

/-- A plan is carried out if everything passes. -/
theorem converse_of_passes {fuel : Nat} {plan : List (ThreadHandle × List Value)}
    (C : Circle source cs) (h : converse code fuel source plan w = some xs)
    (hx : ∀ x ∈ xs, x.Passes source cs) : ∃ w', Converse code source cs w xs w' := by
  induction plan generalizing w xs with
  | nil =>
    obtain rfl := Option.some.inj h
    exact ⟨w, .ended w⟩
  | cons p plan ih =>
    obtain ⟨⟨e, w₁⟩, hd, h⟩ := Option.bind_eq_some_iff.mp h
    obtain ⟨rest, hrest, h⟩ := Option.bind_eq_some_iff.mp h
    obtain rfl := Option.some.inj h
    obtain ⟨hfirst, hothers⟩ := List.forall_mem_cons.mp hx
    obtain ⟨w', hw'⟩ := ih hrest hothers
    exact ⟨w', .resumed (hfirst.happens C hd) hw'⟩

/-- An interpreter with two coroutines that run a script. Each has a variable of its own to which it
adds what it is told; it yields the sum, and when it is resumed again it returns it. -/
def World.tallying : World Unit Unit where
  instances :=
    let script := Proto.mk #[.getUpvalue 1, .getLocal 0, .arith .add none none, .setUpvalue 1,
      .getUpvalue 0, .getUpvalue 1, .call 1 (some 1) none, .getUpvalue 1, .arith .add none none,
      .setUpvalue 1, .getUpvalue 1, .ret 1] (Array.replicate 12 1) #[]
      #[⟨"yield", false, 0⟩, ⟨"sum", false, 1⟩] 1 false 4 none ⟨.empty, .empty, 0⟩
    #[{
      vm :=
        { freshVm 0 with
          heap :=
            { (freshVm 0).heap with
              closures := { items := #[some (.script script #[0, 1]), some (.script script #[0, 2])] }
              cells := { items := #[some (.builtin .coroutineYield), some (.int 0), some (.int 0)] } }
          threads := #[.new #[.nil], .new #[.closure 0], .new #[.closure 1]] }
      chunkName := .empty }]
  memory := ()
  subscriber _ m := m

namespace World.tallying

def one : ThreadHandle := ⟨⟨0, 1⟩, 0⟩

def two : ThreadHandle := ⟨⟨0, 2⟩, 1⟩

/-- The variable of a coroutine. -/
def sum (c : ThreadHandle) (w : World Unit Unit) : Option Val := (w.heap 0).cells.get? c.thread.thread

/-- What is to be computed of two conversations with the two coroutines: nothing is refused, none of
them changes the other's variable, each yields and returns the same sums, and it does so for the
variable that it finds. -/
abbrev Tallied (xs ys : List (Exchange Unit Unit)) : Prop :=
  (∀ x ∈ xs ++ ys, x.Passes ⟨0, 0⟩ [one, two]) ∧
  ∀ c ∈ [one, two], (∀ x ∈ xs ++ ys, x.speaker ≠ c → sum c x.stopped = sum c x.before) ∧
    ∀ x ∈ xs, ∀ y ∈ ys, x.speaker = c → y.speaker = c →
      x.args.map Value.asInt? = y.args.map Value.asInt? →
      x.before.shown c.thread = y.before.shown c.thread → sum c x.before = sum c y.before →
      x.exit = y.exit ∧ sum c x.stopped = sum c y.stopped

/-- The two are resumed in turn, or one after the other. -/
def inTurn : List (ThreadHandle × List Value) :=
  [(one, [.int 1]), (two, [.int 10]), (one, [.int 2]), (two, [.int 20])]

def inSequence : List (ThreadHandle × List Value) :=
  [(two, [.int 10]), (two, [.int 20]), (one, [.int 1]), (one, [.int 2])]

theorem tallied : ((converse HostCode.silent 40 ⟨0, 0⟩ inTurn tallying).bind fun xs =>
      (converse HostCode.silent 40 ⟨0, 0⟩ inSequence tallying).map fun ys =>
          (decide (Tallied xs ys), saidBy one xs, saidBy two xs, saidBy one ys, saidBy two ys)) =
    some (true, [.yielded [.int 1], .returned [.int 3]], [.yielded [.int 10], .returned [.int 30]],
      [.yielded [.int 1], .returned [.int 3]], [.yielded [.int 10], .returned [.int 30]]) := by
  decide +kernel

theorem circle : Circle ⟨0, 0⟩ [one, two] where
  sameVm := by decide
  distinct := by decide

theorem poised {c : ThreadHandle} (hc : c ∈ [one, two]) : c.Poised tallying := by
  simp only [List.mem_cons, List.not_mem_nil, or_false] at hc
  rcases hc with rfl | rfl
  · exact .fresh (.closure 0) (.new #[.closure 0]) rfl rfl rfl rfl
  · exact .fresh (.closure 1) (.new #[.closure 1]) rfl rfl rfl rfl

theorem ready {xs : List (Exchange Unit Unit)} (hone : Exit.Speech (saidBy one xs))
    (htwo : Exit.Speech (saidBy two xs)) : Ready ⟨0, 0⟩ .ready #[.nil] [one, two] tallying xs where
  resumer := ⟨rfl, rfl⟩
  speech := List.forall_mem_cons.mpr ⟨hone, List.forall_mem_cons.mpr ⟨htwo, nofun⟩⟩
  poised _ hc _ := poised hc

end World.tallying

/-- Who is told what is as planned. -/
theorem converse_plan {fuel : Nat} {plan : List (ThreadHandle × List Value)}
    (h : converse code fuel source plan w = some xs) : xs.map (fun x => (x.speaker, x.args)) = plan := by
  induction plan generalizing w xs with
  | nil =>
    obtain rfl := Option.some.inj h
    rfl
  | cons p plan ih =>
    obtain ⟨⟨e, w₁⟩, -, h⟩ := Option.bind_eq_some_iff.mp h
    obtain ⟨rest, hrest, h⟩ := Option.bind_eq_some_iff.mp h
    obtain rfl := Option.some.inj h
    rw [List.map_cons, ih hrest]

theorem toldTo_planned {plan : List (ThreadHandle × List Value)}
    (h : xs.map (fun x => (x.speaker, x.args)) = plan) (c : ThreadHandle) :
    toldTo c xs = (plan.filter (·.1 = c)).map (·.2) := by
  rw [← h, List.filter_map, List.map_map]
  rfl

open World.tallying in
/-- Two coroutines are resumed in turn or one after the other, and say the same. -/
theorem World.conversation_law_tallying : ∃ xs u ys v,
    Converse HostCode.silent ⟨0, 0⟩ [one, two] tallying xs u ∧
    Converse HostCode.silent ⟨0, 0⟩ [one, two] tallying ys v ∧
    xs.map (fun x => (x.speaker, x.args)) = inTurn ∧ ys.map (fun y => (y.speaker, y.args)) = inSequence ∧
    (∀ x ∈ xs ++ ys, x.IsAnswered HostCode.silent ⟨0, 0⟩ #[.nil]) ∧
    saidBy one xs = [.yielded [.int 1], .returned [.int 3]] ∧
    saidBy two xs = [.yielded [.int 10], .returned [.int 30]] ∧
    saidBy one xs = saidBy one ys ∧ saidBy two xs = saidBy two ys := by
  obtain ⟨xs, hxs, h⟩ := Option.bind_eq_some_iff.mp tallied
  obtain ⟨ys, hys, h⟩ := Option.map_eq_some_iff.mp h
  obtain ⟨htallied, h⟩ := Prod.mk.inj h
  obtain ⟨hone, h⟩ := Prod.mk.inj h
  obtain ⟨htwo, h⟩ := Prod.mk.inj h
  obtain ⟨hone', htwo'⟩ := Prod.mk.inj h
  obtain ⟨hpasses, hparts⟩ := of_decide_eq_true htallied
  obtain ⟨u, hu⟩ := converse_of_passes circle hxs fun x hx => hpasses x (List.mem_append_left _ hx)
  obtain ⟨v, hv⟩ := converse_of_passes circle hys fun y hy => hpasses y (List.mem_append_right _ hy)
  have hspeech : ∀ a b : Val, Exit.Speech [.yielded [a], .returned [b]] := fun _ _ => rfl
  have Rx : Ready ⟨0, 0⟩ .ready #[.nil] [one, two] tallying xs :=
    ready (hone ▸ hspeech _ _) (htwo ▸ hspeech _ _)
  have Ry : Ready ⟨0, 0⟩ .ready #[.nil] [one, two] tallying ys :=
    ready (hone' ▸ hspeech _ _) (htwo' ▸ hspeech _ _)
  obtain ⟨hanswered, hsame⟩ := World.conversation_law (δ := Option Val) HostCode.silent ⟨0, 0⟩
    [one, two] circle tallying .ready #[.nil]
  have hseparate : ∀ c ∈ [one, two], Separate (sum c) c [one, two] xs ys := fun c hc =>
    { inner := fun d _ w w' hw => congrArg (fun h : Heap => h.cells.get? c.thread.thread) (hw.heap 0)
      others := (hparts c hc).1
      own := fun x hx y hy hxc hyc hargs => (hparts c hc).2 x hx y hy hxc hyc (by rw [hargs]) }
  have hplan := converse_plan hxs
  have hplan' := converse_plan hys
  have htold : ∀ c ∈ [one, two], toldTo c xs = toldTo c ys := by
    intro c hc
    rw [toldTo_planned hplan, toldTo_planned hplan']
    simp only [List.mem_cons, List.not_mem_nil, or_false] at hc
    rcases hc with rfl | rfl <;> rfl
  have hsaid : ∀ c ∈ [one, two], saidBy c xs = saidBy c ys := fun c hc =>
    hsame xs u ys v hu hv Rx Ry c hc (sum c) (hseparate c hc) (htold c hc)
  exact ⟨xs, u, ys, v, hu, hv, hplan, hplan',
    List.forall_mem_append.mpr ⟨hanswered xs u hu Rx, hanswered ys v hv Ry⟩, hone, htwo,
    hsaid one (List.mem_cons_self ..), hsaid two (by decide)⟩

/-- The coroutines of an interpreter without its record. -/
def World.unwitnessed : World Unit Unit :=
  tallying.modifyHeap 0 fun h => h.rawSet h.registryTable recordKey .nil

/-- The coroutines where native calls are nested as deeply as they can be. -/
def World.exhausted : World Unit Unit :=
  tallying.modifyThread ⟨0, 0⟩ (·.modifyTop ({ · with depth := Vm.maxNesting }))

open World.tallying in
/-- Without its record an interpreter does not let its coroutines be resumed, whose functions are alone
on their stacks; and no coroutine is resumed where native calls cannot be nested any deeper. -/
theorem World.conversation_refused :
    (∃ w', one.Poised unwitnessed ∧ one.isClosed unwitnessed = false ∧ unwitnessed.Grants ⟨0, 0⟩ 3 ∧
      unwitnessed.Grants one.thread 3 ∧
      one.resume ⟨0, 0⟩ [.int 1] (drive HostCode.silent 0) unwitnessed =
        some (.error Context.unrecorded, w')) ∧
    ∃ w', one.Poised exhausted ∧ one.isClosed exhausted = false ∧ exhausted.Grants ⟨0, 0⟩ 3 ∧
      exhausted.Grants one.thread 3 ∧
      one.resume ⟨0, 0⟩ [.int 1] (drive HostCode.silent 0) exhausted =
        some (.error (.call "C stack overflow"), w') := by
  have hfails : ∀ {e : Error} {w : World Unit Unit},
      ((one.resume ⟨0, 0⟩ [.int 1] (drive HostCode.silent 0) w).map fun p => decide (p.1 = .error e)) =
        some true →
      ∃ w', one.resume ⟨0, 0⟩ [.int 1] (drive HostCode.silent 0) w = some (.error e, w') := by
    intro e w h
    obtain ⟨⟨r, w'⟩, hrun, he⟩ := Option.map_eq_some_iff.mp h
    obtain rfl := of_decide_eq_true he
    exact ⟨w', hrun⟩
  obtain ⟨w₁, hunwitnessed⟩ := hfails (e := Context.unrecorded) (w := unwitnessed) (by decide +kernel)
  obtain ⟨w₂, hexhausted⟩ := hfails (e := .call "C stack overflow") (w := exhausted) (by decide +kernel)
  exact ⟨⟨w₁, .fresh (.closure 0) (.new #[.closure 0]) rfl rfl rfl rfl, by decide +kernel,
      by decide +kernel, by decide +kernel, hunwitnessed⟩,
    w₂, .fresh (.closure 0) (.new #[.closure 0]) rfl rfl rfl rfl, by decide +kernel,
      by decide +kernel, by decide +kernel, hexhausted⟩

end LuaEmbed
