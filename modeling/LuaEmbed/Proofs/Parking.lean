import LuaEmbed.Proofs.HandingBack
import LuaEmbed.Proofs.Refusal

/-!
Threads that wait to be resumed. One that has not been started shows its function on its base; one
that has yielded is parked in the middle of its body, at the native function that yielded. Resuming
either lets the body run, above the base, and whenever the body stops without having ended the thread
is parked again.
-/
namespace LuaEmbed

open Engine World

variable {σ μ : Type} {w w' w₁ : World σ μ} {c : Context} {s : Array Val}

namespace Engine

/-- A frame whose native calls are nested so deeply. -/
def Frame.nested (depth : Nat) (f : Frame) : Frame := { f with depth }

theorem Hanging.nested {co : Bool} {g : Frame} {lower fs : List Frame} (depth : Nat)
    (h : Hanging co g lower fs) :
    Hanging co (g.nested depth) (lower.map (Frame.nested depth)) (fs.map (Frame.nested depth)) := by
  induction h with
  | ground a ha hl => exact .ground a ha fun hco => by rw [hl hco]; rfl
  | upon hw _ ih => exact .upon ⟨hw.await, hw.canYield, hw.script⟩ ih

namespace Thread

variable {th th' : Thread} {worked : Prop}

/-- A thread that has yielded: the native function on top has, and the body waits for it. -/
structure Parked (g : Frame) (th : Thread) : Prop where
  status : th.status = .yielded
  await : th.top.await = .yielded
  native : th.top.isScript = false
  frames : Hanging true g [] th.frames.tail

/-- A thread that can be resumed: it has not been started, or it has yielded. -/
inductive Waits (th : Thread) : Prop where
  | fresh (hs : th.status = .ready) (ha : th.above = []) (hn : th.ground.isScript = false)
  | parked (g : Frame) (hp : th.Parked g)

theorem tail_frames_eq_nil : th.frames.tail = [] ↔ th.above = [] := by
  obtain ⟨above, ground, status, size⟩ := th
  cases above with
  | nil => simp [frames]
  | cons f rest => simp [frames]

theorem top_of_base (h : th.above = []) : th.top = th.ground := by
  unfold top
  rw [h]
  rfl

theorem Parked.rested {g : Frame} (h : th.Parked g) (hr : th.Rested worked th') : th'.Parked g where
  status := hr.status.trans h.status
  await := hr.waits.trans h.await
  native := hr.script.trans h.native
  frames := by
    rw [hr.below]
    exact h.frames

theorem Waits.rested (h : th.Waits) (hr : th.Rested worked th') : th'.Waits := by
  cases h with
  | fresh hs ha hn =>
    have habove := tail_frames_eq_nil.mp (hr.below.trans (tail_frames_eq_nil.mpr ha))
    refine .fresh (hr.status.trans hs) habove ?_
    have hscript := hr.script
    rwa [top_of_base habove, top_of_base ha, hn] at hscript
  | parked g hp => exact .parked g (hp.rested hr)

theorem Waits.native (h : th.Waits) : th.top.isScript = false := by
  cases h with
  | fresh _ ha hn => rwa [top_of_base ha]
  | parked g hp => exact hp.native

/-- A body that has stopped at a yield is parked. -/
theorem InRun.parked {g : Frame} {vs : List Val} (h : th.InRun true .ready g [] (.exit (.yielded vs))) :
    th.Parked g ∧ th.top.slots = vs.toArray := by
  obtain ⟨-, hs, hl, ha, hf⟩ := h
  refine ⟨⟨hs, ha, ?_, hf⟩, ?_⟩
  · unfold Frame.isScript
    rw [hl]
  · unfold Frame.slots
    rw [hl]

end Thread

namespace Vm

variable {vm : Vm} {t : Nat} {th : Thread} {g : Frame}

/-- A parked thread goes on with what its yield returns. -/
theorem beginResume_parked (h : vm.thread? t = some th) (hp : th.Parked g) (count depth : Nat) :
    ∃ vm' th', vm.beginResume t count depth =
        (vm', .go (.results (th.top.slots.toList.drop (th.top.slots.size - count)))) ∧
      vm'.thread? t = some th' ∧ th'.Suspended true .ready (g.nested (depth + 1)) [] := by
  obtain ⟨above, ground, status, size⟩ := th
  obtain rfl : status = .yielded := hp.status
  cases above with
  | nil => exact absurd rfl hp.frames.ne_nil
  | cons f rest =>
  have hframes : Hanging true g [] (rest ++ [ground]) := hp.frames
  have hnested := hframes.nested (depth + 1)
  rw [List.map_append] at hnested
  unfold beginResume
  dsimp only
  rw [thread_of_some h]
  exact ⟨_, _, rfl, Vm.thread?_modify h _, rfl, hnested⟩

end Vm
end Engine

namespace ThreadHandle

variable {h : ThreadHandle} {source : Context} {args : List Value}

/-- A thread that is to be started has something on its stack. -/
theorem Goes.function (G : h.Goes source args w) (hs : w.Stands h.thread s) :
    ∃ t f, s = Array.push t f := by
  have howned : w.Unmoved (source.owns h w).2 := unmoved_touches (source.quiet_owns h w)
  obtain ⟨th, ht, hready, hn, rfl⟩ := (howned.stands hs).thread
  have hne : th.top.slots ≠ #[] := by
    rcases seen_suspended ht G.status with hy | ⟨-, ha, hcount⟩
    · rw [hready] at hy
      cases hy
    · rw [Thread.top_of_base ha] at hn ⊢
      intro hempty
      apply hcount
      unfold Frame.isScript at hn
      unfold Frame.slots at hempty
      unfold Frame.count
      cases hl : th.ground.level with
      | native t => simp_all
      | script a => simp [hl] at hn
  exact Array.exists_push_of_ne_empty hne

/-- A thread that has yielded goes on with the arguments as what its yield returns. -/
theorem Goes.goesOn {th : Thread} {g : Frame} (G : h.Goes source args w)
    (ht : w.thread? h.thread = some th) (hp : th.Parked g) :
    ∃ vals depth th', (h.turn source args w).next = .go (.results vals) ∧
      args.Forall₂ (Denotes ((h.loaded source args w).heap h.thread.vm) h.thread
        (th.top.slots ++ vals.toArray)) vals ∧
      (h.turn source args w).world.thread? h.thread = some th' ∧
      th'.Suspended true .ready (g.nested depth) [] := by
  have hstands : w.StandsAs .yielded h.thread th.top.slots := by
    have hs := stands_of_thread ht hp.native
    rwa [hp.status] at hs
  obtain ⟨vals, hl, hd⟩ := G.loaded_stands hstands
  have hentered : w.Unmoved (h.entered source w) := by
    rw [G.entered]
    have howned : w.Unmoved (source.owns h w).2 := unmoved_touches (source.quiet_owns h w)
    exact howned.trans (unmoved_noted (noted_addView _ _))
  obtain ⟨th₁, ht₁, hr₁⟩ := hentered _ _ ht
  obtain ⟨th₂, ht₂, hr₂⟩ := TouchesIn.rested (A := fun _ => True)
    (Context.quiet_pushAll h.thread args trivial (h.entered source w)) ht₁
  have hslots : th₂.top.slots = th.top.slots ++ vals.toArray := by
    have hs := hl.slots
    unfold World.slots at hs
    rwa [show (h.loaded source args w).thread h.thread = th₂ from thread_of_some ht₂] at hs
  generalize ((h.loaded source args w).thread source).top.depth = depth
  unfold turn
  dsimp only
  generalize ((h.loaded source args w).thread source).top.depth = depth
  obtain ⟨vm, hvm, hnext, hw₁⟩ := onVm_thread ht₂ fun vm =>
    vm.beginResume h.thread.thread args.length depth
  obtain ⟨vm', th', hbegin, ht', hs'⟩ :=
    Vm.beginResume_parked hvm ((hp.rested hr₁).rested hr₂) args.length depth
  refine ⟨vals, depth + 1, th', ?_, hd, ?_, hs'⟩
  · refine hnext.trans ?_
    rw [hbegin, hslots, hd.length_eq]
    simp
  · refine hw₁.trans ?_
    rw [hbegin]
    exact ht'

/-- Once a thread that waits has been resumed, its body runs. -/
theorem Goes.inRun {th : Thread} (G : h.Goes source args w) (ht : w.thread? h.thread = some th)
    (hw : th.Waits) : ∃ g th', (h.turn source args w).world.thread? h.thread = some th' ∧
      th'.InRun true .ready g [] (h.turn source args w).next := by
  cases hw with
  | fresh hs ha hn =>
    have hstands := stands_of_thread ht (by rwa [Thread.top_of_base ha])
    rw [hs] at hstands
    obtain ⟨t, f, hf⟩ := G.function hstands
    rw [hf] at hstands
    obtain ⟨g, th', -, ht', hr⟩ := G.begins hstands
    exact ⟨g, th', ht', hr⟩
  | parked g hp =>
    obtain ⟨vals, depth, th', hnext, -, ht', hs'⟩ := G.goesOn ht hp
    exact ⟨g.nested depth, th', ht', by rw [hnext]; exact hs'⟩

end ThreadHandle
end LuaEmbed
