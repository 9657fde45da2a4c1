import Mathlib.Data.List.Forall2
import LuaEmbed.Proofs.Isolation
import LuaEmbed.Proofs.Passing

/-!
What a call that the host makes does to the stack it is made on. The callee gets what the arguments
stand for, and what it returns is what the host is given; the callable and the arguments are gone
afterwards, unless the call is refused before it begins because there is no room for it.
-/
namespace LuaEmbed

open Engine World

variable {σ μ α : Type} {c : Context} {w w' w₁ : World σ μ} {d : Drive σ μ}

namespace Act

variable {β : Type}

theorem update_bind (f : World σ μ → World σ μ) (k : Unit → Act σ μ β) :
    (Act.update f >>= k) d w = k () d (f w) := rfl

theorem top_bind (k : Int → Act σ μ β) :
    (Act.api c.top >>= k) d w = k (w.depth c) d w := rfl

end Act

namespace World

/-- The thread of a stack that has something on it. -/
theorem stands_of_slots {s : Array Val} {f : Val} (hs : w.slots c = s.push f)
    (hr : (w.thread c).status = .ready) : w.Stands c (s.push f) := by
  have hshown := shown_of_slots w hs
  refine ⟨hshown, ?_⟩
  obtain ⟨th, ht, -⟩ := Option.bind_eq_some_iff.mp hshown
  unfold status?
  rw [ht, Option.map_some, ← hr, thread_of_some ht]

theorem StandsAs.ready {s : Array Val} {th : Thread} (hs : w.Stands c s) (ht : w.thread? c = some th) :
    th.status = .ready := by
  have hr := hs.state
  unfold status? at hr
  rw [ht] at hr
  exact Option.some.inj hr

theorem StandsAs.carried {st : ThreadStatus} {s : Array Val} {th th' : Thread} (hs : w.StandsAs st c s)
    (ht : w.thread? c = some th) (ht' : w'.thread? c = some th') (htop : th'.top.shown = th.top.shown)
    (hstatus : th'.status = th.status) : w'.StandsAs st c s := by
  have hshown := hs.shown
  have hstate := hs.state
  unfold World.shown at hshown
  unfold status? at hstate
  rw [ht] at hshown hstate
  refine ⟨?_, ?_⟩
  · unfold World.shown
    rw [ht']
    exact htop.trans hshown
  · unfold status?
    rw [ht']
    exact (congrArg some hstatus).trans hstate

/-- A thread that comes back from a call shows what it showed when the call was made. -/
theorem StandsAs.back {s : Array Val} {th th' : Thread} {e : Exit} (hs : w.Stands c s)
    (ht : w.thread? c = some th) (ht' : w'.thread? c = some th')
    (hr : th'.InRun false .ready th.top th.frames.tail (.exit e)) : w'.Stands c s :=
  hs.carried ht ht' (by rw [hr.top_eq.1]; rfl) (hr.back.1.trans (hs.ready ht).symm)

/-- A call leaves the stack that it was made on as it was without callable and arguments. -/
theorem StandsAs.invoke {s : Array Val} {f : Val} {args : List Val} {e : Exit} (S : Sound .ready c d)
    (hs : w.Stands c s) (h : c.invoke f args d w = some (e, w')) (hc : Unclosed c.vm w w') :
    w'.Stands c s ∧ ∀ vs, e ≠ .yielded vs := by
  obtain ⟨th, ht, -⟩ := Option.bind_eq_some_iff.mp hs.shown
  obtain ⟨th', ht', hr', -⟩ := S.invoke h hc ht (hs.ready ht)
  exact ⟨hs.back ht ht' hr', fun vs he => by subst he; exact absurd hr'.1 Bool.false_ne_true⟩

end World

namespace Context

/-- The callable and its arguments are taken off the stack. -/
theorem takeCall_some {s : Array Val} {f : Val} {vals : List Val} {p : Val × List Val}
    (hs : w.Stands c (s.push f ++ vals.toArray)) (h : c.takeCall vals.length d w = some (p, w')) :
    p = (f, vals) ∧ w'.Stands c s ∧ (∀ i, w'.heap i = w.heap i) ∧ w'.history = w.history := by
  have hp : w' = w.modifySlots c (·.shrink ((w.slots c).size - vals.length - 1)) ∧
      p = ((w.slots c).getD ((w.slots c).size - vals.length - 1) .nil,
        (w.slots c).toList.drop ((w.slots c).size - vals.length)) := by
    unfold takeCall at h
    obtain ⟨_, w₁, h₁, h₂⟩ := Run.bind_some.mp h
    obtain ⟨rfl, rfl⟩ := Prod.mk.inj (Option.some.inj h₁)
    obtain ⟨_, w₂, h₃, h₄⟩ := Run.bind_some.mp h₂
    obtain ⟨-, rfl⟩ := Prod.mk.inj (Option.some.inj h₃)
    obtain ⟨rfl, rfl⟩ := Prod.mk.inj (Option.some.inj h₄)
    exact ⟨rfl, rfl⟩
  obtain ⟨rfl, rfl⟩ := hp
  have hsize : (s.push f ++ vals.toArray).size = s.size + 1 + vals.length := by
    simp
    omega
  rw [hs.slots, hsize, Nat.sub_sub, Nat.add_sub_cancel]
  rw [show s.size + 1 + vals.length - (vals.length + 1) = s.size by omega]
  refine ⟨?_, ?_, fun i => heap_modifySlots w c i _, rfl⟩
  · have hargs : (s.push f ++ vals.toArray).toList.drop (s.size + 1) = vals := by
      rw [Array.toList_append, List.drop_left' (by simp)]
    rw [hargs]
    simp
  · have hcut := hs.modifySlots (·.shrink s.size)
    have he : (s.push f ++ vals.toArray).shrink s.size = s := by
      apply Array.ext'
      simp
    rwa [he] at hcut

/-- How a protected call ends. -/
inductive Protected (d : Drive σ μ) (c : Context) (s : Array Val) (f : Val) (vals : List Val)
    (want : Option Nat) (w : World σ μ) : Option ErrorStatus → World σ μ → Prop where
  | returned {w₁ w₂ w' : World σ μ} (rs : List Val) (hs : w₁.Stands c s)
    (hh : ∀ i, w₁.heap i = w.heap i)
    (hcall : c.invoke f vals d w₁ = some (.returned rs, w₂))
    (hs' : w'.Stands c (s ++ (Activation.adjust want rs).toArray)) :
    Protected d c s f vals want w none w'
  | raised {w' : World σ μ} (status : ErrorStatus) (v : Val)
    (hs' : w'.Stands c (s.push v)) : Protected d c s f vals want w (some status) w'

theorem protect_cases {s : Array Val} {f : Val} {vals : List Val} {want : Option Nat}
    {r : Option ErrorStatus} (S : Sound .ready c d) (hs : w.Stands c (s.push f ++ vals.toArray))
    (h : c.protect vals.length want d w = some (r, w')) (hc : Unclosed c.vm w w') :
    Protected d c s f vals want w r w' := by
  unfold protect at h
  obtain ⟨p, w₁, htake, h₁⟩ := Run.bind_some.mp h
  obtain ⟨rfl, hs₁, hh, htaken⟩ := takeCall_some hs htake
  obtain ⟨e, w₂, hcall, h₂⟩ := Run.bind_some.mp h₁
  cases e with
  | yielded vs =>
    obtain ⟨_, w₃, h₃, h₄⟩ := Run.bind_some.mp h₂
    obtain ⟨-, rfl⟩ := Prod.mk.inj (Option.some.inj h₃)
    obtain ⟨-, rfl⟩ := Prod.mk.inj (Option.some.inj h₄)
    exact absurd rfl ((hs₁.invoke S hcall (hc.of_history htaken rfl)).2 vs)
  | returned rs =>
    obtain ⟨_, w₃, h₃, h₄⟩ := Run.bind_some.mp h₂
    obtain ⟨-, rfl⟩ := Prod.mk.inj (Option.some.inj h₃)
    obtain ⟨rfl, rfl⟩ := Prod.mk.inj (Option.some.inj h₄)
    exact .returned rs hs₁ hh hcall ((hs₁.invoke S hcall (hc.of_history htaken rfl)).1.modifySlots _)
  | raised status v =>
    obtain ⟨_, w₃, h₃, h₄⟩ := Run.bind_some.mp h₂
    obtain ⟨-, rfl⟩ := Prod.mk.inj (Option.some.inj h₃)
    obtain ⟨rfl, rfl⟩ := Prod.mk.inj (Option.some.inj h₄)
    exact .raised status v ((hs₁.invoke S hcall (hc.of_history htaken rfl)).1.push v)

theorem stands_cut {st : ThreadStatus} {s t : Array Val} (hs : w.StandsAs st c (s ++ t)) :
    (w.modifySlots c fun u => u.shrink s.size ++ Array.replicate (s.size - u.size) .nil).StandsAs
      st c s := by
  have hcut := hs.modifySlots fun u => u.shrink s.size ++ Array.replicate (s.size - u.size) .nil
  have he : (s ++ t).shrink s.size ++ Array.replicate (s.size - (s ++ t).size) .nil = s := by
    apply Array.ext'
    simp
  rwa [he] at hcut

/-- How applying a callable to what stands above it ends. -/
inductive Applied (d : Drive σ μ) (c : Context) (s : Array Val) (f : Val) (vals : List Val)
    (rc : ResultCount) (w : World σ μ) : Except Error Int → World σ μ → Prop where
  | refused {w₁ w' : World σ μ} (e : Error)
    (hroom : c.checkStack (rc.room vals.length) w = (.error e, w₁))
    (hs' : w'.Stands c (s.push f ++ vals.toArray)) : Applied d c s f vals rc w (.error e) w'
  | raised {w₁ w' : World σ μ} (e : Error)
    (hroom : c.checkStack (rc.room vals.length) w = (.ok (), w₁))
    (hs' : w'.Stands c s) : Applied d c s f vals rc w (.error e) w'
  | returned {w₁ w₂ w₃ w' : World σ μ} (rs : List Val)
    (hroom : c.checkStack (rc.room vals.length) w = (.ok (), w₁))
    (hs : w₂.Stands c s) (hh : ∀ i, w₂.heap i = w.heap i)
    (hcall : c.invoke f vals d w₂ = some (.returned rs, w₃))
    (hs' : w'.Stands c (s ++ (Activation.adjust rc.want rs).toArray)) :
    Applied d c s f vals rc w (.ok (Activation.adjust rc.want rs).length) w'

/-- Room is made for the results first, where their number is known. -/
theorem protectedCall_eq (nargs : Nat) (rc : ResultCount) (base : Nat) :
    (c.protectedCall nargs rc base : Act σ μ Int) = (do
      Act.api (c.checkStack (rc.room nargs))
      Act.update (·.log .trace "protected call"
        [("nargs", toString nargs), ("results", rc.describe)])
      match ← ExceptT.lift (c.protect nargs rc.want) with
      | none => return (← Act.api c.top) - base
      | some status =>
        let text ← ExceptT.lift (Run.onWorld fun w => w.popErrorText c)
        Act.api (c.cut base)
        Act.update (·.log .debug "protected call failed"
          [("message", text), ("status", toString status.code)])
        throw (.call text)) := by
  cases rc with
  | all => rfl
  | fixed n => rfl

theorem stands_popErrorText {st : ThreadStatus} {s : Array Val} {v : Val}
    (hs : w.StandsAs st c (s.push v)) : (w.popErrorText c).2.StandsAs st c s := by
  have hpop : ∀ {w₁ : World σ μ}, w₁.StandsAs st c (s.push v) →
      (w₁.modifySlots c (·.pop)).StandsAs st c s := by
    intro w₁ hs₁
    have h := hs₁.modifySlots (·.pop)
    rwa [Array.pop_push] at h
  unfold popErrorText
  rw [hs.slots, Array.back?_push]
  cases v
  case str | int | float | nil | bool => exact hpop hs
  all_goals exact hpop ((alike_reserve w c 2).stands hs)

theorem protectedCall_cases {s : Array Val} {f : Val} {vals : List Val} {rc : ResultCount}
    {r : Except Error Int} (S : Sound .ready c d) (hs : w.Stands c (s.push f ++ vals.toArray))
    (h : c.protectedCall vals.length rc s.size d w = some (r, w'))
    (hc : Unclosed c.vm w w') :
    Applied d c s f vals rc w r w' := by
  rw [protectedCall_eq] at h
  rcases Act.bind_some.mp h with ⟨_, w₁, hroom, h₁⟩ | ⟨e, hroom, rfl⟩
  case inr =>
    have hroom₁ := Act.api_eq_some.mp hroom
    exact .refused e hroom₁ (((c.steady_checkStack _).related hroom₁).stands hs)
  have hroom₁ := Act.api_eq_some.mp hroom
  rw [Act.update_bind] at h₁
  obtain ⟨o, w₂, hprotect, h₂⟩ := Act.lift_bind_some.mp h₁
  have ha := ((c.steady_checkStack _).related hroom₁).trans (alike_log w₁ .trace "protected call"
    [("nargs", toString vals.length), ("results", rc.describe)])
  have hchecked : w₁.history = w.history :=
    TouchesIn.history (Api.Keeps.related (c.quiet_checkStack _) hroom₁)
  cases o with
  | none =>
    obtain ⟨rfl, rfl⟩ := Prod.mk.inj (Option.some.inj h₂)
    cases protect_cases S (ha.stands hs) hprotect (hc.of_history hchecked rfl) with
    | returned rs hs₁ hh hcall hs' =>
      have hk : (w₂.depth c : Int) - s.size = (Activation.adjust rc.want rs).length := by
        rw [hs'.depth, Array.size_append]
        simp only [List.size_toArray]
        omega
      rw [hk]
      exact .returned rs hroom₁ hs₁ (fun i => (hh i).trans (ha.heap i)) hcall hs'
  | some status =>
    obtain ⟨text, w₃, htext, h₃⟩ := Act.lift_bind_some.mp h₂
    obtain ⟨rfl, rfl⟩ := Prod.mk.inj (Option.some.inj htext)
    obtain ⟨rfl, rfl⟩ := Prod.mk.inj (Option.some.inj h₃)
    have hc₂ : Unclosed c.vm w w₂ := hc.of_history rfl (touches_popErrorText w₂ c trivial).history.symm
    cases protect_cases S (ha.stands hs) hprotect (hc₂.of_history hchecked rfl) with
    | raised _ v hs₂ =>
      refine .raised _ hroom₁ ((alike_notify _ _).stands ?_)
      exact stands_cut (t := #[]) (stands_popErrorText hs₂)

/-- How a call in place ends: with an argument list that is too long, with an argument that cannot
be pushed, or as applying the callable to what the arguments stand for ends. -/
inductive InPlace (d : Drive σ μ) (c : Context) (s : Array Val) (f : Val) (args : List Value)
    (rc : ResultCount) (w : World σ μ) : Except Error Int → World σ μ → Prop where
  | tooLong {w' : World σ μ} (e : Error) (hlong : Word32.greatest < args.length)
    (hs' : w'.Stands c (s.push f)) : InPlace d c s f args rc w (.error e) w'
  | unpushed {w₁ w' : World σ μ} (e : Error) (hshort : args.length ≤ Word32.greatest)
    (hpush : c.pushAll args w = (.error e, w₁)) (hs' : w'.Stands c s) :
    InPlace d c s f args rc w (.error e) w'
  | applied {w₁ w' : World σ μ} {r : Except Error Int} (vals : List Val)
    (hshort : args.length ≤ Word32.greatest) (hpush : c.pushAll args w = (.ok (), w₁))
    (hs : w₁.Stands c (s.push f ++ vals.toArray))
    (hd : args.Forall₂ (Denotes (w₁.heap c.vm) c (s.push f ++ vals.toArray)) vals)
    (h : Applied d c s f vals rc w₁ r w') : InPlace d c s f args rc w r w'

theorem callInPlace_cases {s : Array Val} {f : Val} {args : List Value} {rc : ResultCount}
    {r : Except Error Int} (S : Sound .ready c d) (hs : w.Stands c (s.push f))
    (h : c.callInPlace args rc d w = some (r, w')) (hc : Unclosed c.vm w w') :
    InPlace d c s f args rc w r w' := by
  unfold callInPlace at h
  rw [Act.top_bind, hs.depth, Array.size_push] at h
  have hbase : ((s.size + 1 : Nat) - 1 : Int).toNat = s.size := by omega
  rw [if_neg (by omega), hbase] at h
  by_cases hlong : Word32.greatest < args.length
  · rw [if_pos hlong] at h
    obtain ⟨rfl, rfl⟩ := Prod.mk.inj (Option.some.inj h)
    exact .tooLong _ hlong hs
  rw [if_neg hlong] at h
  obtain ⟨o, w₁, hpush, h₁⟩ := Act.lift_bind_some.mp h
  have hpush₁ : c.pushAll args w = (o, w₁) := Option.some.inj hpush
  have hpushed : w₁.history = w.history :=
    TouchesIn.history (Api.Keeps.related (c.quiet_pushAll args trivial) hpush₁)
  cases pushAll_cases hs hpush₁ with
  | done vals hs₁ _ hd =>
    have hlen : args.length = vals.length := hd.length_eq
    have h₂ : c.protectedCall args.length rc s.size d w₁ = some (r, w') := h₁
    rw [hlen] at h₂
    exact .applied vals (Int.not_lt.mp hlong) hpush₁ hs₁ hd (protectedCall_cases S hs₁ h₂ (hc.of_history hpushed rfl))
  | refused e vals hs₁ =>
    obtain ⟨rfl, rfl⟩ := Prod.mk.inj (Option.some.inj h₁)
    have he : s.push f ++ vals.toArray = s ++ (#[f] ++ vals.toArray) := by
      rw [← Array.append_assoc, Array.append_singleton]
    rw [he] at hs₁
    exact .unpushed e (Int.not_lt.mp hlong) hpush₁ (stands_cut hs₁)

/-- What a call leaves in place is read and removed, even if it cannot be read. -/
theorem callWith_some {args : List Value} {rc : ResultCount} {r : Except Error (List Value)}
    (h : c.callWith args rc d w = some (r, w')) :
    (∃ e, c.callInPlace args rc d w = some (.error e, w') ∧ r = .error e) ∨
    ∃ k w₁ w₂, c.callInPlace args rc d w = some (.ok k, w₁) ∧
      c.readBatch k (some (w₁.depth c - k + 1)) w₁ = (r, w₂) ∧
      c.cut (w₁.depth c - k : Int).toNat w₂ = (.ok (), w') ∧ w'.history = w₁.history := by
  unfold callWith at h
  rcases Act.bind_some.mp h with ⟨k, w₁, hcall, h₁⟩ | ⟨e, hcall, rfl⟩
  · rw [Act.top_bind] at h₁
    obtain ⟨o, w₂, hread, h₂⟩ := Act.lift_bind_some.mp h₁
    obtain ⟨rfl, rfl⟩ := Prod.mk.inj (Option.some.inj h₂)
    have hread₁ : c.readBatch _ _ w₁ = (o, w₂) := Option.some.inj hread
    have hread₂ : Touches w₁ w₂ := Api.Keeps.related (c.quiet_readBatch _ _) hread₁
    have hcut : Touches w₂ _ := c.quiet_cut (w₁.depth c - k : Int).toNat trivial w₂
    exact .inr ⟨k, w₁, w₂, hcall, hread₁, rfl, hcut.history.trans hread₂.history⟩
  · exact .inl ⟨e, hcall, rfl⟩

theorem stands_readBatch {s : Array Val} {us : List Val} {r : Except Error (List Value)}
    {w₂ : World σ μ} (hs : w₁.Stands c (s ++ us.toArray))
    (hread : c.readBatch us.length (some (w₁.depth c - us.length + 1)) w₁ = (r, w₂))
    (hcut : c.cut (w₁.depth c - us.length : Int).toNat w₂ = (.ok (), w')) :
    w'.Stands c s ∧ ∀ vs, r = .ok vs → w'.ShowsAll c (s.size + 1) us vs := by
  have hdepth : (w₁.depth c : Int) - us.length = s.size := by
    rw [hs.depth, Array.size_append]
    simp only [List.size_toArray]
    omega
  rw [hdepth] at hread hcut
  have ha := (c.steady_readBatch _ _).related hread
  obtain ⟨-, rfl⟩ := Prod.mk.inj hcut
  refine ⟨stands_cut (ha.stands hs), ?_⟩
  rintro vs rfl
  have hdrop : (w₁.slots c).toList.drop (s.size + 1 - 1 : Int).toNat = us ++ [] := by
    rw [hs.slots, Array.toList_append, List.drop_left' (by simp)]
    simp
  have hall := readBatch_ok (by omega) hdrop hread
  refine showsAll_congr ?_ hall
  rw [heap_modifySlots, ha.heap]

end Context
end LuaEmbed
