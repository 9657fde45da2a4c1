import LuaEmbed.Scenario.Expression

/-!
How a step gets hold of the stack it works on, and lets go of it. A state or view stays in use as
long as the step that works on it lasts; a thread is worked on through a view of its own.
-/
namespace LuaEmbed.Scenario

/-- What was taken to get at a stack. -/
inductive Hold where
  | none
  | state (id : Int)
  | view (name : String)
  | thread (v : View)

/-- Gives back what was taken. -/
def Hold.release : Hold → Play Unit
  | .none => return
  | .state id => alter fun m => { m with busyStates := m.busyStates.erase id }
  | .view name => alter fun m => { m with busyViews := m.busyViews.erase name }
  | .thread v => ask (.dropView v)

/-- The interpreter of a state that is not in use. -/
def freeState (id : Int) : Attempt Nat := do
  if ← remembered (·.busyStates.contains id) then Attempt.refuse .busy
  match ← remembered (·.states.lookup id) with
  | some vm => return vm
  | none => Attempt.refuse (.noState id)

/-- The thread in a register. -/
def threadIn (name : String) : Attempt ThreadHandle := do
  match ← register name with
  | .thread h => return h
  | _ => Attempt.refuse (.notThread name)

namespace Place

def reachState (id : Int) : Attempt (Context × Hold) := do
  let vm ← freeState id
  alter fun m => { m with busyStates := id :: m.busyStates }
  return (⟨vm, 0⟩, .state id)

/-- A stack by name: that of a view, or else that of the thread in a register. -/
def reachNamed (name : String) : Attempt (Context × Hold) := do
  match ← remembered (·.views.lookup name) with
  | some v => do
    if ← remembered (·.busyViews.contains name) then Attempt.refuse .busy
    alter fun m => { m with busyViews := name :: m.busyViews }
    return (v.stack, .view name)
  | none => do
    let h ← threadIn name
    match ← ask (.view h) with
    | .ok v => return (v.stack, .thread v)
    | .error e => Attempt.fail (.unreached e)

def reach : Place → Attempt (Context × Hold)
  | .state id => reachState id
  | .named name => reachNamed name

end Place

/-- The stack of a step: the one it names, or the one at hand, or that of state 0. -/
def Frame.reach (f : Frame) : Option Place → Attempt (Context × Hold)
  | some p => p.reach
  | none =>
    match f.home with
    | some c => return (c, .none)
    | none => Place.reachState 0

/-- Works on a second stack. -/
def withPlace {α : Type} (p : Place) (a : Context → Attempt α) : Attempt α := do
  let (c, hold) ← p.reach
  (a c).thenAlways hold.release

end LuaEmbed.Scenario
