import LuaEmbed.Proofs.CallLaws
import LuaEmbed.Proofs.Identity
import LuaEmbed.Proofs.Stocking

/-!
Room for whatever is put on a stack. Every operation, and every end of a host function, puts something
on a stack only where it has reserved room for it, as long as no refusal is passed over. One is passed
over where a failure is raised: its text is put on the stack all the same.
-/
namespace LuaEmbed

open Engine World

variable {σ μ α : Type} {c : Context} {x : Watch σ μ} {d : Drive σ μ}

/-- Whether it opens modules. -/
def CallOp.registers : CallOp α → Bool
  | .registerModule .. | .openLib _ | .openStdLibs => true
  | _ => false

theorem WatchedAct.leads_onRun (S : Sound .ready c d) (o : CallOp α)
    (hx : o.registers = true → x.Standing c) :
    Leads (fun _ _ => True) d x (onRun c o) (o.perform c) := by
  cases o with
  | call args n => exact leads_callWith args n
  | callInPlace args n => exact leads_callInPlace args n
  | len i => exact leads_len i
  | resume h args => exact leads_resume h c args
  | registerModule name o publish =>
    exact (leads_registerModule S (hx rfl) name o publish).imp fun _ _ _ _ _ => trivial
  | openLib lib => exact (leads_openLib S (hx rfl) lib).imp fun _ _ _ _ _ => trivial
  | openStdLibs => exact (leads_openLibs S (hx rfl) StdLib.all).imp fun _ _ _ _ _ => trivial

/-- Watched call by call, every operation, whatever it comes to, and every end of a host function comes
to what it is, and whatever it puts on a stack finds room that was reserved there, by itself or with the
frame: an operation on a stack without exception, and the others unless they have passed over a refusal. -/
theorem World.reserving_law (code : HostCode σ μ) (fuel : Nat) (c : Context) (x : Watch σ μ) :
    (∀ {α : Type} (o : StackOp α),
      (o.converts = true → (x.world.depth c : Int) < Word32.greatest) →
      ∃ y, Watched.onStack c o x = ((o.perform c x.world).1, y) ∧
        x.Minds (o.perform c x.world).2 y) ∧
    (∀ {α : Type} (o : CallOp α), (o.registers = true → x.Standing c) →
      ∀ r w, o.perform c (drive code fuel) x.world = some (r, w) →
      ∃ y, WatchedAct.onRun c o (drive code fuel) x = some (r, y) ∧ y.world = w ∧
        (x.Sound → y.Sound)) ∧
    ∀ id next w, runHost code c id (drive code fuel) x.world = some (next, w) →
      ∃ y, WatchedRun.runHost code c id (drive code fuel) x = some (next, y) ∧ y.world = w ∧
        (x.Sound → y.Sound) := by
  refine ⟨fun o hd => ?_, fun o hx r w h => ?_, fun id next w h => ?_⟩
  · obtain ⟨y, hy, hm, -⟩ := Watched.traces_onStack c o x hd
    exact ⟨y, hy, hm⟩
  · obtain ⟨y, hy, hw, hs, -⟩ := (WatchedAct.leads_onRun (sound_drive code fuel) o hx).ends r w h
    exact ⟨y, hy, hw, hs⟩
  · obtain ⟨y, hy, hw, hs, -⟩ := (WatchedRun.follows_runHost code id).ends next w h
    exact ⟨y, hy, hw, hs⟩

/-- A chunk that does not compile is loaded, and a module is opened that is its own name. -/
theorem World.reserving_law_callable :
    let w := Context.callable (.builtin .echoing) false
    (∃ y, Watched.onStack ⟨0, 0⟩ (.loadNamed (.ofString "(") "chunk" .any) { world := w } =
        ((Context.loadNamed ⟨0, 0⟩ (.ofString "(") "chunk" .any w).1, y) ∧ y.overrun = false) ∧
    ∃ r w' y, Context.registerModule ⟨0, 0⟩ (.ofString "m") (.native .echoing) true
        (drive HostCode.silent 5) w = some (r, w') ∧
      WatchedAct.registerModule ⟨0, 0⟩ (.ofString "m") (.native .echoing) true
        (drive HostCode.silent 5) { world := w } = some (r, y) ∧ y.world = w' ∧ y.Sound := by
  intro w
  obtain ⟨hstack, hrun, -⟩ := reserving_law HostCode.silent 5 ⟨0, 0⟩ { world := w }
  obtain ⟨y, hy, hm⟩ := hstack (.loadNamed (.ofString "(") "chunk" .any) fun _ => by decide
  refine ⟨⟨y, hy, hm.overrun⟩, ?_⟩
  have hends : (Context.registerModule ⟨0, 0⟩ (.ofString "m") (.native .echoing) true
      (drive HostCode.silent 5) w).isSome := by
    decide +kernel
  obtain ⟨⟨r, w'⟩, h⟩ := Option.isSome_iff_exists.mp hends
  obtain ⟨y, hy, hw, hs⟩ := hrun (.registerModule (.ofString "m") (.native .echoing) true)
    (fun _ _ => ⟨#[.int 1, .builtin .echoing], rfl, rfl⟩) r w' h
  exact ⟨r, w', y, h, hy, hw, hs nofun⟩

namespace WatchedRun

/-- A failure whose text there is memory for, but no room, goes beyond what was reserved. -/
theorem raiseHost_refused (h : (x.world.reserve c 1).1 = false)
    (hfed : (x.world.heap c.vm).starved = false) (message : String) (d : Drive σ μ) :
    ∃ y, raiseHost c message d x = some (.go (.raise .runtime (.text message) false), y) ∧
      y.overrun = true := by
  let y : Watch σ μ :=
    { x with world := (x.world.reserve c 1).2, refused := c :: x.refused, unheeded := true }
  have hfed' : ¬ (y.world.heap c.vm).starved = true := by
    rw [show y.world.heap c.vm = x.world.heap c.vm from heap_reserve x.world c c.vm 1, hfed]
    exact Bool.false_ne_true
  have hpresume : Watched.presume c 1 x = (.ok (), y) := Watched.bind_ok (Watched.ask_refused h)
  have hput : Watched.putFailure c message x = Watched.glance c (.text message) y := by
    unfold Watched.putFailure
    rw [Watched.bind_ok hpresume, Watched.bind_ok (show Watched.world y = (.ok y.world, y) from rfl),
      if_neg hfed']
  have hrun : raiseHost c message d x = (some (Watched.putFailure c message x)).bind fun q =>
      some (.go (failing (q.2.world.heap c.vm) message), q.2) := rfl
  rw [hput, Watched.glance_anyway y c (.text message), Option.bind_some,
    show failing (y.world.heap c.vm) message = .raise .runtime (.text message) false from if_neg hfed']
    at hrun
  refine ⟨_, hrun, ?_⟩
  have hno : ¬ y.Covers c 1 := fun hc => hc.1 (List.mem_cons_self ..)
  dsimp only
  rw [decide_eq_false hno, Bool.not_false, Bool.or_true]

end WatchedRun

/-- A host function that fails at once. -/
def HostCode.failing : HostCode Unit Unit where
  raw _ _ := .pure (.failed (.runtime "boom"))
  list _ _ _ := .pure (.failed (.runtime "boom"))

/-- A host function runs on a stack that it has filled. -/
def World.filled (s : Array Val) : World Unit Unit :=
  { Context.brimful s with functions := ({} : Pool (Counted (FunctionShape × Unit))).push ⟨(.raw, ()), 1⟩ }

theorem World.full_filled {s : Array Val} (hs : s.size + 1 = Thread.maxSize) :
    ((filled s).retain (.function .raw 0)).Full ⟨0, 0⟩ :=
  ⟨⟨_, rfl, rfl, (Nat.add_comm 1 s.size).trans hs⟩, rfl⟩

theorem WatchedRun.runHost_filled {s : Array Val} (hs : s.size + 1 = Thread.maxSize)
    (d : Drive Unit Unit) :
    ∃ y, runHost HostCode.failing ⟨0, 0⟩ (some 0) d { world := World.filled s } =
        some (.go (.raise .runtime (.text "boom") false), y) ∧ y.overrun = true := by
  let x : Watch Unit Unit := { world := (World.filled s).retain (.function .raw 0) }
  have hrefused : (x.world.reserve ⟨0, 0⟩ 1).1 = false :=
    Bool.eq_false_iff.mpr (World.full_filled hs).refused_once.1
  obtain ⟨y, hy, ho⟩ := raiseHost_refused hrefused rfl "boom" d
  have hrun : runHost HostCode.failing ⟨0, 0⟩ (some 0) d { world := World.filled s } =
      (raiseHost ⟨0, 0⟩ "boom" d x).bind fun q =>
        some (q.1, { q.2 with world := q.2.world.release (.function .raw 0) }) := rfl
  rw [hy] at hrun
  exact ⟨_, hrun, ho⟩

/-- A host function that has filled its stack fails: room for the text of its failure is refused, and the
text is put there. -/
theorem World.failure_overruns :
    ∃ y, WatchedRun.runHost HostCode.failing ⟨0, 0⟩ (some 0) (drive HostCode.failing 1)
        { world := filled (Array.replicate 999999 .nil) } =
      some (.go (.raise .runtime (.text "boom") false), y) ∧ y.overrun = true := by
  refine WatchedRun.runHost_filled ?_ _
  rw [Array.size_replicate]
  rfl

end LuaEmbed
