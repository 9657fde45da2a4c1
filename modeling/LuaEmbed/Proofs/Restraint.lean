import LuaEmbed.Proofs.Moments

/-!
Runs that are let go from some moments only. Whatever happens in a run whose moments all have a
property also happens when no run is let go from any other moment. So what is proved of runs that keep
to such moments holds of every run which happens to keep to them.
-/
namespace LuaEmbed

open Engine World

variable {σ μ α : Type} {P Q : Moment σ μ → Prop} {d : Drive σ μ} {x : Moment σ μ} {w w' : World σ μ}

namespace Drive

open Classical in
/-- Threads run from such moments only. -/
noncomputable def only (P : Moment σ μ → Prop) (d : Drive σ μ) : Drive σ μ := fun c next w =>
  if P ⟨c, next, w⟩ then d c next w else none

theorem only_some {c : Context} {next : Next} {r : Exit × World σ μ} :
    d.only P c next w = some r ↔ P ⟨c, next, w⟩ ∧ d c next w = some r := by
  unfold only
  split
  next h => exact ⟨fun hr => ⟨h, hr⟩, fun hr => hr.2⟩
  next h => exact ⟨nofun, fun hr => absurd hr.1 h⟩

theorem only_below (P : Moment σ μ → Prop) (d : Drive σ μ) : (d.only P).Below d :=
  fun _ _ h => (only_some.mp h).2

theorem only_of_all (h : ∀ x, P x) (d : Drive σ μ) : d.only P = d := by
  funext c next w
  exact if_pos (h _)

theorem Keeps.only {R : World σ μ → World σ μ → Prop} (h : d.Keeps R) (P : Moment σ μ → Prop) :
    (d.only P).Keeps R := fun c next _ _ _ hr => h c next _ _ _ (only_some.mp hr).2

end Drive

namespace Tree

variable {t : Tree σ μ α}

theorem run_only {r : α × World σ μ} (h : t.run d = some r) (hP : ∀ x, t.Asks d x → P x) :
    t.run (d.only P) = some r := by
  induction t with
  | done a w => exact h
  | gone => cases h
  | ask m k ih =>
    obtain ⟨s, hs, hk⟩ := Option.bind_eq_some_iff.mp h
    have hm : (d.only P).from m = some s := Drive.only_some.mpr ⟨hP m (.now k), hs⟩
    unfold run
    rw [hm]
    exact ih s hk fun x hx => hP x (.later hs hx)

/-- It asks for the same moments when threads run from no others. -/
theorem asks_only (h : t.Asks d x) (hP : ∀ y, t.Asks d y → P y) : t.Asks (d.only P) x := by
  induction h with
  | now k => exact .now k
  | @later m r k hr _ ih =>
    exact .later (Drive.only_some.mpr ⟨hP m (.now k), hr⟩) (ih fun y hy => hP y (.later hr hy))

/-- What asks for a moment comes to no end without the end of that run. -/
theorem run_none {d' : Drive σ μ} (h : t.Asks d x) (hne : ∀ m, m ≠ x → d'.from m = d.from m)
    (hx : d'.from x = none) : t.run d' = none := by
  induction h with
  | now k =>
    unfold run
    rw [hx]
    rfl
  | @later m r k hr _ ih =>
    unfold run
    by_cases hm : m = x
    · rw [hm, hx]
      rfl
    · rw [hne m hm, hr]
      exact ih

end Tree

namespace Run

theorem Lays.asks {m : Run σ μ α} {t : Tree σ μ α} (ht : m.Lays w t)
    {r : α × World σ μ} (hr : m d w = some r) (h : t.Asks d x) : m.Asks d w x := fun _ hu =>
  Tree.asks_of_none ((hu d).symm.trans hr) fun d' hne hx =>
    (hu d').symm.trans ((ht d').trans (Tree.run_none h hne hx))

/-- An operation that asks for such moments only ends as it does when threads run from no others. -/
theorem Laid.run_only {m : Run σ μ α} (hm : m.Laid) {r : α × World σ μ} (hr : m d w = some r)
    (hP : ∀ x, m.Asks d w x → P x) : m (d.only P) w = some r := by
  obtain ⟨t, ht⟩ := hm w
  rw [ht]
  exact Tree.run_only ((ht d).symm.trans hr) fun x hx => hP x (ht.asks hr hx)

end Run

namespace World

variable {code : HostCode σ μ} {fuel : Nat} {c : Context} {e : Exit}

/-- A moment may be come to in the run from another one, or inside it: as it is reached, in whatever
order what is asked for inside is laid out. -/
inductive Visited (code : HostCode σ μ) (m : Moment σ μ) : Moment σ μ → Prop where
  | here : Visited code m m
  | step {c s w} (h : Visited code m ⟨c, (w.onVm c.vm fun vm => vm.step c.thread s).1,
      (w.onVm c.vm fun vm => vm.step c.thread s).2⟩) : Visited code m ⟨c, .go s, w⟩
  | inside {c demand w x t} (fuel : Nat) (ht : (World.meet code c demand).Lays w t)
      (ha : t.Asks (World.drive code fuel) x) (h : Visited code m x) :
      Visited code m ⟨c, .need demand, w⟩
  | met {c demand w next w'} (fuel : Nat)
      (hm : World.meet code c demand (World.drive code fuel) w = some (next, w'))
      (h : Visited code m ⟨c, next, w'⟩) : Visited code m ⟨c, .need demand, w⟩

/-- At every moment that the run from one comes to, in it or inside it. -/
def Throughout (code : HostCode σ μ) (Q : Moment σ μ → Prop) (x : Moment σ μ) : Prop :=
  ∀ m, Visited code m x → Q m

theorem throughout_step {s : Signal} (h : Throughout code Q ⟨c, .go s, w⟩) :
    Throughout code Q ⟨c, (w.onVm c.vm fun vm => vm.step c.thread s).1,
      (w.onVm c.vm fun vm => vm.step c.thread s).2⟩ := fun m hm => h m (.step hm)

theorem throughout_laid {demand : Demand} {t : Tree σ μ Next}
    (h : Throughout code Q ⟨c, .need demand, w⟩) (ht : (meet code c demand).Lays w t)
    (hx : t.Asks (World.drive code fuel) x) : Throughout code Q x :=
  fun m hm => h m (.inside fuel ht hx hm)

theorem throughout_asked {demand : Demand} (h : Throughout code Q ⟨c, .need demand, w⟩)
    (hx : (meet code c demand).Asks (World.drive code fuel) w x) : Throughout code Q x := by
  obtain ⟨t, ht⟩ := Run.laid.meet code c demand w
  exact throughout_laid h ht (hx t ht)

theorem throughout_met {demand : Demand} {next : Next} (h : Throughout code Q ⟨c, .need demand, w⟩)
    (hm : meet code c demand (World.drive code fuel) w = some (next, w')) :
    Throughout code Q ⟨c, next, w'⟩ := fun m hr => h m (.met fuel hm hr)

/-- Within so many steps the run from a moment comes to its end, and needs nothing from outside. -/
def selfContained : Nat → Moment σ μ → Bool
  | _, ⟨_, .exit _, _⟩ => true
  | n + 1, ⟨c, .go s, w⟩ =>
    let r := w.onVm c.vm fun vm => vm.step c.thread s
    selfContained n ⟨c, r.1, r.2⟩
  | _, _ => false

/-- Such a run comes to no other thread's moment. -/
theorem throughout_of_selfContained {n : Nat} (h : selfContained n x = true)
    (hQ : ∀ next w, (∀ demand, next ≠ .need demand) → Q ⟨x.context, next, w⟩) :
    Throughout code Q x := by
  induction n generalizing x with
  | zero =>
    obtain ⟨c, next, w⟩ := x
    cases next with
    | exit e =>
      rintro m ⟨⟩
      exact hQ _ _ nofun
    | _ => cases h
  | succ n ih =>
    obtain ⟨c, next, w⟩ := x
    cases next with
    | exit e =>
      rintro m ⟨⟩
      exact hQ _ _ nofun
    | go s =>
      intro m hm
      cases hm with
      | here => exact hQ _ _ nofun
      | step hm => exact ih h (fun next w => hQ next w) m hm
    | need demand => cases h

/-- Runs all of whose moments, and of those inside them, have a property. -/
noncomputable def driveOnly (code : HostCode σ μ) (Q : Moment σ μ → Prop) (fuel : Nat) : Drive σ μ :=
  (World.drive code fuel).only (Throughout code Q)

theorem driveOnly_zero {next : Next} : driveOnly code Q 0 c next w = none := by
  unfold driveOnly Drive.only
  split <;> rfl

theorem driveOnly_exit {e' : Exit} (h : driveOnly code Q (fuel + 1) c (.exit e) w = some (e', w')) :
    e' = e ∧ w' = w := by
  obtain ⟨rfl, rfl⟩ := Prod.mk.inj (Option.some.inj (Drive.only_some.mp h).2)
  exact ⟨rfl, rfl⟩

theorem driveOnly_go {s : Signal} (h : driveOnly code Q (fuel + 1) c (.go s) w = some (e, w')) :
    driveOnly code Q fuel c (w.onVm c.vm fun vm => vm.step c.thread s).1
      (w.onVm c.vm fun vm => vm.step c.thread s).2 = some (e, w') := by
  obtain ⟨hx, hd⟩ := Drive.only_some.mp h
  exact Drive.only_some.mpr ⟨throughout_step hx, hd⟩

theorem driveOnly_need {demand : Demand}
    (h : driveOnly code Q (fuel + 1) c (.need demand) w = some (e, w')) :
    Q ⟨c, .need demand, w⟩ ∧ ∃ next w₁, meet code c demand (driveOnly code Q fuel) w = some (next, w₁) ∧
      driveOnly code Q fuel c next w₁ = some (e, w') := by
  obtain ⟨hx, hd⟩ := Drive.only_some.mp h
  obtain ⟨next, w₁, hm, hd⟩ := drive_need hd
  refine ⟨hx _ .here, next, w₁, ?_, Drive.only_some.mpr ⟨throughout_met hx hm, hd⟩⟩
  exact (Run.laid.meet code c demand).run_only hm fun _ => throughout_asked hx

/-- What is asked for at such a moment is asked for by runs that keep to such moments, if it is
known of these what they ask for. -/
theorem asked_only {demand : Demand} {P : Moment σ μ → Prop}
    (h : Throughout code Q ⟨c, .need demand, w⟩)
    (hP : (meet code c demand).AsksAt P (driveOnly code Q fuel) w)
    (hx : (meet code c demand).Asks (World.drive code fuel) w x) : P x := by
  obtain ⟨t, ht, hP⟩ := hP
  exact hP x (Tree.asks_only (hx t ht) fun _ => throughout_laid h ht)

end World
end LuaEmbed
