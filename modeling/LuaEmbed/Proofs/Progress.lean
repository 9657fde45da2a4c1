import LuaEmbed.Proofs.Interaction

/-!
Runs that come to an end. A thread's own run goes from moment to moment, and what runs inside it is
passed over; where such a moment leads to an exit, so does every moment before it. How many steps
it takes does not matter, and however many are allowed, the end is the same.
-/
namespace LuaEmbed

open Engine

variable {σ μ α β : Type} {code : HostCode σ μ} {c : Context} {w w' w₁ : World σ μ}
  {m x : Moment σ μ} {e : Exit}

namespace World

/-- A moment is attained by a thread's own run from another one on. -/
inductive Attained (code : HostCode σ μ) (x : Moment σ μ) : Moment σ μ → Prop where
  | here : Attained code x x
  | step {c s w} (h : Attained code x ⟨c, (w.onVm c.vm fun vm => vm.step c.thread s).1,
      (w.onVm c.vm fun vm => vm.step c.thread s).2⟩) : Attained code x ⟨c, .go s, w⟩
  | met {c demand w next w'} (fuel : Nat)
      (hm : World.meet code c demand (drive code fuel) w = some (next, w'))
      (h : Attained code x ⟨c, next, w'⟩) : Attained code x ⟨c, .need demand, w⟩

/-- The run of a thread ends. -/
def Exits (code : HostCode σ μ) (m : Moment σ μ) (e : Exit) (w' : World σ μ) : Prop :=
  ∃ fuel, (drive code fuel).from m = some (e, w')

theorem exits_exit : Exits code ⟨c, .exit e, w⟩ e w := ⟨1, rfl⟩

theorem exits_step {s : Signal}
    (h : Exits code ⟨c, (w.onVm c.vm fun vm => vm.step c.thread s).1,
      (w.onVm c.vm fun vm => vm.step c.thread s).2⟩ e w') : Exits code ⟨c, .go s, w⟩ e w' := by
  obtain ⟨fuel, h⟩ := h
  exact ⟨fuel + 1, h⟩

theorem exits_met {demand : Demand} {next : Next} {fuel : Nat}
    (hm : World.meet code c demand (drive code fuel) w = some (next, w₁))
    (h : Exits code ⟨c, next, w₁⟩ e w') : Exits code ⟨c, .need demand, w⟩ e w' := by
  obtain ⟨n, h⟩ := h
  refine ⟨max fuel n + 1, ?_⟩
  have hmet := (Run.laid.meet code c demand).mono (below_drive code (Nat.le_max_left fuel n)) hm
  have hgo : drive code (max fuel n) c next w₁ = some (e, w') :=
    below_drive code (Nat.le_max_right fuel n) ⟨c, next, w₁⟩ _ h
  change drive code (max fuel n + 1) c (.need demand) w = _
  unfold drive
  simp only [hmet, hgo]

theorem Attained.exits (h : Attained code x m) (hx : Exits code x e w') : Exits code m e w' := by
  induction h with
  | here => exact hx
  | step _ ih => exact exits_step ih
  | met fuel hm _ ih => exact exits_met hm ih

theorem Attained.trans {y : Moment σ μ} (h : Attained code x m) (k : Attained code y x) :
    Attained code y m := by
  induction h with
  | here => exact k
  | step _ ih => exact .step ih
  | met fuel hm _ ih => exact .met fuel hm ih

/-- Runs that end, end alike. -/
theorem drive_agree {n n' : Nat} {r r' : Exit × World σ μ}
    (h : (drive code n).from m = some r) (h' : (drive code n').from m = some r') : r = r' := by
  have hn := below_drive code (Nat.le_max_left n n') m r h
  have hn' := below_drive code (Nat.le_max_right n n') m r' h'
  exact Option.some.inj (hn.symm.trans hn')

end World

open World

/-- An operation comes to its end. -/
def Run.Ends (code : HostCode σ μ) (p : Run σ μ α) (w : World σ μ) (r : α × World σ μ) : Prop :=
  ∃ fuel, p (World.drive code fuel) w = some r

namespace Run.Ends

variable {p : Run σ μ α} {r : α × World σ μ}

theorem bind {k : α → Run σ μ β} {s : β × World σ μ} (hp : p.Laid) (hk : ∀ a, (k a).Laid)
    (h : p.Ends code w r) (h' : (k r.1).Ends code r.2 s) : (p >>= k).Ends code w s := by
  obtain ⟨n, h⟩ := h
  obtain ⟨n', h'⟩ := h'
  refine ⟨max n n', Run.bind_some.mpr ⟨r.1, r.2, ?_, ?_⟩⟩
  · exact hp.mono (below_drive code (Nat.le_max_left n n')) h
  · exact (hk r.1).mono (below_drive code (Nat.le_max_right n n')) h'

theorem agree (hp : p.Laid) {fuel : Nat} {s : α × World σ μ} (h : p.Ends code w r)
    (h' : p (World.drive code fuel) w = some s) : s = r := by
  obtain ⟨n, h⟩ := h
  have hn := hp.mono (below_drive code (Nat.le_max_left n fuel)) h
  have hn' := hp.mono (below_drive code (Nat.le_max_right n fuel)) h'
  exact Option.some.inj (hn'.symm.trans hn)

/-- What is not to come to an end after it does not come to an end with it. -/
theorem bind_none {k : α → Run σ μ β} {fuel : Nat} (hp : p.Laid) (h : p.Ends code w r)
    (hk : k r.1 (World.drive code fuel) r.2 = none) : (p >>= k) (World.drive code fuel) w = none := by
  refine Option.eq_none_iff_forall_ne_some.mpr fun s hs => ?_
  obtain ⟨a, w₁, hr, hs⟩ := Run.bind_some.mp hs
  rw [← h.agree hp hr] at hk
  cases hk.symm.trans hs

end Run.Ends
end LuaEmbed
