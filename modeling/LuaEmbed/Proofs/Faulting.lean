import LuaEmbed.Proofs.Making

/-!
The register of the fatal hook, which all interpreters share. Hooks are put in force and taken away,
interpreters are made, with hooks of their own or without, and stacks report faults, in any order: who
hears of a fault is always the hook that these steps have left in force.
-/
namespace LuaEmbed

open Engine World

variable {σ μ : Type} {w w' : World σ μ}

/-! ### What hooks do -/

/-- A panic does not come of dropping what it carries itself. -/
theorem Panic.ne_of_dropping {p q : Panic} (h : p.dropping = some q) : q ≠ p := by
  rintro rfl
  cases q with
  | text s => cases h
  | other d =>
    have hsize : sizeOf d < sizeOf (Panic.other d) := by
      rw [Panic.other.sizeOf_spec]
      omega
    change d = some (.other d) at h
    have hself := congrArg sizeOf h
    rw [Option.some.sizeOf_spec] at hself
    omega

/-- How a hook's program ends on a register, and what it leaves there. Each exchange leaves what it puts
there and tells what it has found. -/
def HookProgram.outcome : HookProgram → HookRegister → Option Panic × HookRegister
  | done p, r => (p, r)
  | exchange hook next, r => (next (r.map FatalHook.name)).outcome hook

/-- Where nobody has the lock, a hook's program runs to its end, and nobody has the lock then. -/
theorem HookProgram.run_free : ∀ (p : HookProgram) (r : HookRegister),
    p.run (.free r) = some ((p.outcome r).1, .free (p.outcome r).2)
  | done _, _ => rfl
  | exchange hook next, r => run_free (next (r.map FatalHook.name)) hook

namespace HookRegister

/-- What comes of the run of the hook in force with a message, if there is one. -/
def ran (r : HookRegister) (message : String) : Option Panic × HookRegister :=
  match r with
  | none => (none, none)
  | some h => (h.receive message).outcome (some h)

/-- What becomes known of a fault. The hook in force hears of it, once, and if it panics the log says so,
unless dropping what the panic carries comes to another panic; without a hook the log has the fault,
once. -/
def deliveries (r : HookRegister) (message : String) : List Notice :=
  match r with
  | none => [unheard message]
  | some h =>
    .fault h.name message ::
      match (r.ran message).1 with
      | some p => if p.dropping.isNone then [failed message] else []
      | none => []

/-- How the report of a fault ends. It does not wait for a lock, and the hook's own panic does not leave
it; another one does that, if there is one, that dropping what the hook's panic carries comes to. -/
def Ends (r : HookRegister) (message : String) : FaultEnd → Prop
  | .returned => ∀ p, (r.ran message).1 = some p → p.dropping = none
  | .unwound q => ∃ p, (r.ran message).1 = some p ∧ q ≠ p ∧ p.dropping = some q
  | .blocked => False

/-- A report finds the lock free and leaves it so. -/
theorem report_free (r : HookRegister) (message : String) :
    ∃ e, report message (.free r) = some ((r.deliveries message, e), .free (r.ran message).2) ∧
      r.Ends message e := by
  cases r with
  | none => exact ⟨.returned, rfl, nofun⟩
  | some h =>
    have hran := HookProgram.run_free (h.receive message) (some h)
    have hreport : report message (.free (some h)) =
        ((h.receive message).run (.free (some h))).bind _ := rfl
    rw [hreport, hran, Option.bind_some]
    unfold deliveries Ends ran
    dsimp only
    generalize (h.receive message).outcome (some h) = o
    obtain ⟨panic, r'⟩ := o
    cases panic with
    | none => exact ⟨.returned, rfl, nofun⟩
    | some p =>
      dsimp only
      cases hp : p.dropping with
      | none => exact ⟨.returned, rfl, fun _ h => Option.some.inj h ▸ hp⟩
      | some p' => exact ⟨.unwound p', rfl, p, rfl, Panic.ne_of_dropping hp, hp⟩

theorem ofFault_deliveries (r : HookRegister) (message : String) :
    (r.deliveries message).filter Notice.ofFault = r.deliveries message := by
  have hlog : ∀ record : LogRecord, record.target = "selune::fatal" →
      (Notice.log record).ofFault = true := fun _ h => decide_eq_true h
  rw [List.filter_eq_self]
  intro n hn
  cases r with
  | none =>
    rw [List.mem_singleton.mp hn]
    exact hlog _ rfl
  | some h =>
    rcases List.mem_cons.mp hn with rfl | hn
    · rfl
    · split at hn
      · split at hn
        · rw [List.mem_singleton.mp hn]
          exact hlog _ rfl
        · cases hn
      · cases hn

end HookRegister

/-! ### Faults -/

theorem World.notices_eq (ns : List Notice) (w : World σ μ) :
    ns.foldl notify w = { w with memory := (ns.foldl notify w).memory } := by
  induction ns generalizing w with
  | nil => rfl
  | cons n ns ih => exact ih (w.notify n)

/-- Nothing but the register and the memory of the host shows a fault. -/
theorem World.fault_eq (c : Context) (w : World σ μ) :
    ∃ e, World.fault c w = (.ok e, (w.hook.deliveries (w.faultText c)).foldl notify
      { w with hook := (w.hook.ran (w.faultText c)).2 }) ∧ w.hook.Ends (w.faultText c) e := by
  obtain ⟨e, hreport, he⟩ := w.hook.report_free (w.faultText c)
  refine ⟨e, ?_, he⟩
  unfold fault
  rw [hreport]
  rfl

/-! ### Sequences of steps -/

/-- A step of a host: it puts a hook in force or takes it away, makes an interpreter, reports a fault on a
stack, or does other work there without running code. -/
inductive RegisterStep : Type 1 where
  | install (h : FatalHook)
  | reset
  | create (config : Config)
  | fault (c : Context)
  | work {α : Type} (c : Context) (o : StackOp α) (ho : o.isFault = false)

namespace RegisterStep

abbrev Answer : RegisterStep → Type
  | install _ | reset => Option FatalHook
  | create _ => Except Error Nat
  | fault _ => Except Error FaultEnd
  | @work α _ _ _ => Except Error α

def op : (s : RegisterStep) → Op σ μ s.Answer
  | install h => .installHook h
  | reset => .resetHook
  | create config => .newInstance config
  | fault c => .stack c .fault
  | work c o _ => .stack c o

/-- The register after a step. -/
def follow (w : World σ μ) : RegisterStep → HookRegister
  | install h => some h
  | reset => none
  | create config => if config.Rejected then w.hook else config.hook.or w.hook
  | fault c => (w.hook.ran (w.faultText c)).2
  | work .. => w.hook

/-- What becomes known of faults during a step. -/
def reports (w : World σ μ) : RegisterStep → List Notice
  | fault c => w.hook.deliveries (w.faultText c)
  | _ => []

/-- What a step answers, and what it leaves as it was. A fault changes no stack. -/
def Answers (w : World σ μ) : (s : RegisterStep) → s.Answer → World σ μ → Prop
  | install h, r, w' => r = w.hook ∧ w' = { w with hook := some h }
  | reset, r, w' => r = w.hook ∧ w' = { w with hook := none }
  | create config, r, w' =>
    if config.Rejected then (∃ why, r = .error (.unsupportedValue why)) ∧ w' = w
    else r = .ok w.instances.size
  | fault c, r, w' =>
    (∃ e, r = .ok e ∧ w.hook.Ends (w.faultText c) e) ∧
      w' = { w with hook := w'.hook, memory := w'.memory }
  | work .., _, _ => True

/-- A step comes to one end, and always to this one: the register is what follows from it, all that is
heard of faults is what it reports, and it answers as it should. -/
structure Passes (code : HostCode σ μ) (s : RegisterStep) (w : World σ μ) (r : s.Answer)
    (w' : World σ μ) : Prop where
  ends : Run.Ends code s.op.perform w (r, w')
  only : ∀ fuel q, s.op.perform (World.drive code fuel) w = some q → q = (r, w')
  hook : w'.hook = s.follow w
  heard : ∃ ns, w.Issues ns w' ∧ ns.filter Notice.ofFault = s.reports w
  answer : s.Answers w r w'

variable (code : HostCode σ μ) (w : World σ μ)

theorem laid_perform (s : RegisterStep) : (s.op : Op σ μ s.Answer).perform.Laid :=
  Run.laid.traversal.op _ (Op.within_all _)

variable {code w} in
/-- A step that comes to an end comes to no other one. -/
theorem Passes.of_ends {s : RegisterStep} {r : s.Answer} (h : Run.Ends code s.op.perform w (r, w'))
    (hook : w'.hook = s.follow w)
    (heard : ∃ ns, w.Issues ns w' ∧ ns.filter Notice.ofFault = s.reports w)
    (answer : s.Answers w r w') : s.Passes code w r w' :=
  ⟨h, fun _ _ hq => h.agree s.laid_perform hq, hook, heard, answer⟩

variable {w} in
/-- What is heard during a step that reports nothing. -/
theorem Sustains.heard {c : Context} (h : World.Sustains c w w') :
    ∃ ns, w.Issues ns w' ∧ ns.filter Notice.ofFault = [] := by
  obtain ⟨ns, hns, hn⟩ := h.unheard
  exact ⟨ns, hns, List.filter_eq_nil_iff.mpr fun n hm => by rw [hn n hm]; decide⟩

theorem passes_create (config : Config) :
    ∃ r w', (create config).Passes code w r w' := by
  rcases config.chunkName?_eq with ⟨hbad, why, hname⟩ | ⟨hgood, hname⟩
  · refine ⟨.error (.unsupportedValue why), w,
      .of_ends ⟨0, newInstance_rejected hname _⟩ ?_ ⟨[], issues_nil rfl rfl, rfl⟩ ?_⟩
    · exact (if_pos hbad).symm
    · exact (if_pos hbad).mpr ⟨⟨why, rfl⟩, rfl⟩
  · obtain ⟨w', hends, hsustains⟩ := newInstance_ends code w hname
    obtain ⟨ns, hns, hn⟩ := Sustains.heard hsustains
    refine ⟨.ok w.instances.size, w', .of_ends hends ?_ ⟨ns, ⟨hns.subscriber, hns.memory⟩, hn⟩ ?_⟩
    · rw [hsustains.hook, hook_born]
      exact (if_neg hgood).symm
    · exact (if_neg hgood).mpr rfl

theorem passes_fault (c : Context) : ∃ r w', (fault c).Passes code w r w' := by
  obtain ⟨e, hfault, he⟩ := World.fault_eq c w
  have hsame := notices_eq (w.hook.deliveries (w.faultText c))
    { w with hook := (w.hook.ran (w.faultText c)).2 }
  have hissues := issues_notices (w.hook.deliveries (w.faultText c))
    { w with hook := (w.hook.ran (w.faultText c)).2 }
  refine ⟨.ok e, _, .of_ends ⟨0, congrArg some hfault⟩ ?_
    ⟨_, ⟨hissues.subscriber, hissues.memory⟩, HookRegister.ofFault_deliveries _ _⟩ ⟨⟨e, rfl, he⟩, ?_⟩⟩
  · rw [hsame]
    rfl
  · rw [hsame]

/-- Other work on a stack. -/
theorem passes_work {α : Type} (c : Context) {o : StackOp α} (ho : o.isFault = false) :
    ∃ r w', (work c o ho).Passes code w r w' := by
  have hkeeps : World.Sustains c w (o.perform c w).2 :=
    o.keeps (works_sustains (fun _ => True) c) c trivial (fun _ _ => trivial)
      (fun hfault => by rw [ho] at hfault; cases hfault) w
  obtain ⟨ns, hns, hn⟩ := Sustains.heard hkeeps
  exact ⟨(o.perform c w).1, (o.perform c w).2,
    .of_ends ⟨0, rfl⟩ hkeeps.hook ⟨ns, hns, hn⟩ trivial⟩

/-- Every step passes, from whatever world. -/
theorem passes (s : RegisterStep) : ∃ r w', s.Passes code w r w' := by
  cases s with
  | install h =>
    exact ⟨w.hook, { w with hook := some h },
      .of_ends ⟨0, rfl⟩ rfl ⟨[], issues_nil rfl rfl, rfl⟩ ⟨rfl, rfl⟩⟩
  | reset =>
    exact ⟨w.hook, { w with hook := none },
      .of_ends ⟨0, rfl⟩ rfl ⟨[], issues_nil rfl rfl, rfl⟩ ⟨rfl, rfl⟩⟩
  | create config => exact passes_create code w config
  | fault c => exact passes_fault code w c
  | work c o ho => exact passes_work code w c ho

/-- Some steps, one after the other. -/
def performAll : List RegisterStep → Run σ μ Unit
  | [] => return
  | s :: steps => do
    let _ ← s.op.perform
    performAll steps

theorem laid_performAll (steps : List RegisterStep) : (performAll steps : Run σ μ Unit).Laid := by
  induction steps with
  | nil => exact Run.laid.traversal.pure ()
  | cons s steps ih => exact Run.laid.bind s.laid_perform fun _ => ih

/-- Steps pass one after the other, each in the world that the last one has left. -/
inductive PassAll (code : HostCode σ μ) : List RegisterStep → World σ μ → World σ μ → Prop where
  | nil (w : World σ μ) : PassAll code [] w w
  | cons {s : RegisterStep} {steps : List RegisterStep} {w w₁ w' : World σ μ} {r : s.Answer}
    (h : s.Passes code w r w₁) (hs : PassAll code steps w₁ w') : PassAll code (s :: steps) w w'

theorem PassAll.ends {steps : List RegisterStep} {w w' : World σ μ} (h : PassAll code steps w w') :
    Run.Ends code (performAll steps) w ((), w') := by
  induction h with
  | nil w => exact ⟨0, rfl⟩
  | @cons s steps _ _ _ _ h _ ih => exact .bind s.laid_perform (fun _ => laid_performAll steps) h.ends ih

theorem exists_passAll (steps : List RegisterStep) : ∃ w', PassAll code steps w w' := by
  induction steps generalizing w with
  | nil => exact ⟨w, .nil w⟩
  | cons s steps ih =>
    obtain ⟨r, w₁, h⟩ := passes code w s
    obtain ⟨w', hs⟩ := ih w₁
    exact ⟨w', .cons h hs⟩

end RegisterStep

end LuaEmbed
