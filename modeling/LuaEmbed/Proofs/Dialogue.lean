import LuaEmbed.Proofs.Conversing

/-!
Conversations: successive resumes of coroutines from one stack, in any order. Whatever else is resumed
in between, each coroutine is answered for what it yields and returns, one resume after the other; and
if coroutines have no data in common, the order makes no difference to what they say.
-/
namespace LuaEmbed

open Engine World

variable {σ μ δ : Type} {w w' v : World σ μ} {source : Context} {code : HostCode σ μ}
  {c : ThreadHandle} {cs : List ThreadHandle} {st : ThreadStatus} {s : Array Val}

/-- One resume in a conversation: whom it resumes and with what, in which world, and how and in which
world the run of the body ends. -/
structure Exchange (σ μ : Type) where
  speaker : ThreadHandle
  args : List Value
  fuel : Nat
  before : World σ μ
  exit : Exit
  stopped : World σ μ

namespace World

/-- During the run from a moment, nobody else works on a thread; and unless it is inside a frame in a
world, nobody resumes it and no collection frees it. -/
def Untroubled (code : HostCode σ μ) (T : Context) (w : World σ μ) (m : Moment σ μ) : Prop :=
  Throughout code (Spared code (¬ (w.thread T).isRunning) T) m

theorem Untroubled.rests {T : Context} {h : ThreadHandle} {args : List Value} {fuel : Nat} {e : Exit}
    {w₁ : World σ μ} {th : Thread} (hl : Untroubled code T w (h.turn source args w))
    (G : h.Goes source args w) (hne : T ≠ h.thread)
    (hd : (World.drive code fuel).from (h.turn source args w) = some (e, w₁))
    (hc : Unclosed T.vm w w₁) (ht : w.thread? T = some th) :
    ∃ th', w₁.thread? T = some th' ∧ th.Rested False th' := by
  refine (G.rests hne hl hd).kept hc th ht ?_
  rw [thread_of_some ht]
  exact (Classical.em _).symm

end World

namespace Exchange

variable (x : Exchange σ μ)

/-- The world after the resume. -/
def after (source : Context) : World σ μ := x.speaker.left source x.before x.exit x.stopped

/-- The resume takes place: nothing is refused to it, what is handed over can be read, and the run
leaves the resumer and the other coroutines alone. -/
structure Happens (code : HostCode σ μ) (source : Context) (cs : List ThreadHandle) : Prop where
  speaker : x.speaker ∈ cs
  welcome : x.speaker.Welcome source x.args x.before
  run : (World.drive code x.fuel).from (x.speaker.turn source x.args x.before) =
    some (x.exit, x.stopped)
  legible : ThreadHandle.Legible x.speaker.thread x.exit x.stopped
  resumer : Untroubled code source x.before (x.speaker.turn source x.args x.before)
  others : ∀ c ∈ cs, c ≠ x.speaker →
    Untroubled code c.thread x.before (x.speaker.turn source x.args x.before)

/-- The resume is answered, and the resumer's stack shows what it did. -/
structure IsAnswered (code : HostCode σ μ) (source : Context) (s : Array Val) : Prop extends
    ThreadHandle.Answers code x.fuel x.speaker source x.args x.before x.exit x.stopped where
  resumer : (x.after source).shown source = some s

end Exchange

/-- The exchanges in which a coroutine is resumed. -/
def exchangesOf (c : ThreadHandle) (xs : List (Exchange σ μ)) : List (Exchange σ μ) :=
  xs.filter (·.speaker = c)

/-- What a coroutine says in a conversation. -/
def saidBy (c : ThreadHandle) (xs : List (Exchange σ μ)) : List Exit :=
  (exchangesOf c xs).map (·.exit)

/-- What a coroutine is told. -/
def toldTo (c : ThreadHandle) (xs : List (Exchange σ μ)) : List (List Value) :=
  (exchangesOf c xs).map (·.args)

/-- A body yields any number of times, and then, if it comes to that, it returns. -/
def Engine.Exit.Speech : List Exit → Prop
  | [] => True
  | .yielded _ :: es => Speech es
  | .returned _ :: es => es = []
  | .raised .. :: _ => False

/-- Resumes follow upon each other, each in the world that the last one has left. -/
inductive Converse (code : HostCode σ μ) (source : Context) (cs : List ThreadHandle) :
    World σ μ → List (Exchange σ μ) → World σ μ → Prop where
  | ended (w : World σ μ) : Converse code source cs w [] w
  | resumed {x : Exchange σ μ} {xs : List (Exchange σ μ)} {w' : World σ μ}
    (h : x.Happens code source cs) (rest : Converse code source cs (x.after source) xs w') :
    Converse code source cs x.before (x :: xs) w'

namespace Engine.Exit

variable {e : Exit} {es : List Exit}

theorem Speech.not_raised (h : Speech (e :: es)) (status : ErrorStatus) (v : Val) :
    e ≠ .raised status v := by
  rintro rfl
  exact h

theorem Speech.tail (h : Speech (e :: es)) : Speech es := by
  cases e with
  | yielded vs => exact h
  | returned vs =>
    obtain rfl : es = [] := h
    exact trivial
  | raised status v => exact h.elim

/-- Nothing is said after a return. -/
theorem Speech.after_return {vs : List Val} (h : Speech (.returned vs :: es)) : es = [] := h

end Engine.Exit

namespace Exchange

variable {x : Exchange σ μ} {xs : List (Exchange σ μ)}

/-- One resume of a conversation. -/
theorem Happens.step (H : x.Happens code source cs) (hs : x.before.StandsAs st source s)
    (P : x.speaker.Poised x.before) (he : ∀ status v, x.exit ≠ .raised status v) :
    x.IsAnswered code source s ∧ (x.after source).StandsAs st source s ∧
    ∀ c ∈ cs, c.thread.vm = source.vm → c.thread ≠ x.speaker.thread →
      ∀ th, x.before.thread? c.thread = some th →
        ∃ th', (x.after source).thread? c.thread = some th' ∧ th.Rested False th' := by
  have G := H.welcome.goes P hs
  have hclosed : Unclosed x.speaker.thread.vm x.before x.stopped :=
    unclosed_of_not_mem ((grows_turn G).trans (path_drive code x.fuel _ _ _ _ _ H.run).grows)
      H.legible.unclosed
  have hrested : ∀ T, T ≠ x.speaker.thread → T.vm = x.speaker.thread.vm →
      Untroubled code T x.before (x.speaker.turn source x.args x.before) →
      ∀ th, x.before.thread? T = some th →
        ∃ th', (x.after source).thread? T = some th' ∧ th.Rested False th' := by
    intro T hne hvm hl th ht
    obtain ⟨th₁, ht₁, hr₁⟩ := hl.rests G hne H.run (hvm ▸ hclosed) ht
    obtain ⟨th₂, ht₂, hr₂⟩ := ThreadHandle.unmoved_left source x.before hne he ht₁
    exact ⟨th₂, ht₂, hr₁.trans hr₂⟩
  have hafter : (x.after source).StandsAs st source s := by
    obtain ⟨th, ht, hstatus, hn, hslots⟩ := hs.thread
    obtain ⟨th', ht', hr⟩ := hrested source H.welcome.other H.welcome.sameVm H.resumer th ht
    have hs' := stands_of_thread ht' (hr.script.trans hn)
    rwa [hr.status, hstatus, hr.slots.resolve_left id, hslots] at hs'
  refine ⟨⟨P.answers H.welcome hs H.run he H.legible, hafter.shown⟩, hafter, fun c hc hvm hne => ?_⟩
  exact hrested c.thread hne (hvm.trans H.welcome.sameVm)
    (H.others c hc fun heq => hne (congrArg _ heq))

end Exchange

/-! ### A whole conversation -/

/-- Coroutines of the resumer's interpreter, each of which is named once. -/
structure Circle (source : Context) (cs : List ThreadHandle) : Prop where
  sameVm : ∀ c ∈ cs, c.thread.vm = source.vm
  distinct : ∀ c ∈ cs, ∀ d ∈ cs, c.thread = d.thread → c = d

/-- Before a resume of a conversation the resumer's stack shows what it did, and whoever has yet to
say something is poised. -/
structure Ready (source : Context) (st : ThreadStatus) (s : Array Val) (cs : List ThreadHandle)
    (w : World σ μ) (xs : List (Exchange σ μ)) : Prop where
  resumer : w.StandsAs st source s
  speech : ∀ c ∈ cs, Exit.Speech (saidBy c xs)
  poised : ∀ c ∈ cs, saidBy c xs ≠ [] → c.Poised w

variable {xs ys : List (Exchange σ μ)} {x : Exchange σ μ}

theorem exchangesOf_cons (c : ThreadHandle) (x : Exchange σ μ) (xs : List (Exchange σ μ)) :
    exchangesOf c (x :: xs) =
      if x.speaker = c then x :: exchangesOf c xs else exchangesOf c xs := by
  unfold exchangesOf
  rw [List.filter_cons]
  by_cases h : x.speaker = c <;> simp [h]

theorem saidBy_cons (c : ThreadHandle) (x : Exchange σ μ) (xs : List (Exchange σ μ)) :
    saidBy c (x :: xs) = if x.speaker = c then x.exit :: saidBy c xs else saidBy c xs := by
  unfold saidBy
  rw [exchangesOf_cons]
  split <;> rfl

/-- A resume is answered, and everyone is ready for the next one. -/
theorem Exchange.Happens.ready (H : x.Happens code source cs) (C : Circle source cs)
    (R : Ready source st s cs x.before (x :: xs)) :
    x.IsAnswered code source s ∧ Ready source st s cs (x.after source) xs ∧
    ∀ c ∈ cs, x.speaker ≠ c → saidBy c xs ≠ [] →
      (x.after source).shown c.thread = x.before.shown c.thread := by
  have hsaid := saidBy_cons x.speaker x xs
  rw [if_pos rfl] at hsaid
  have hown := R.speech _ H.speaker
  rw [hsaid] at hown
  have P := R.poised _ H.speaker (by rw [hsaid]; exact List.cons_ne_nil _ _)
  obtain ⟨hanswered, hafter, hothers⟩ := H.step R.resumer P hown.not_raised
  have hpoised : ∀ c ∈ cs, x.speaker ≠ c → saidBy c xs ≠ [] → c.Poised x.before := by
    intro c hc hother hne
    refine R.poised c hc ?_
    rwa [saidBy_cons, if_neg hother]
  have hrested : ∀ c ∈ cs, x.speaker ≠ c → ∀ th, x.before.thread? c.thread = some th →
      ∃ th', (x.after source).thread? c.thread = some th' ∧ th.Rested False th' := fun c hc hother =>
    hothers c hc (C.sameVm c hc) fun ht => hother (C.distinct _ H.speaker c hc ht.symm)
  refine ⟨hanswered, ⟨hafter, fun c hc => ?_, fun c hc hne => ?_⟩, fun c hc hother hne => ?_⟩
  · have hall := R.speech c hc
    rw [saidBy_cons] at hall
    split at hall
    · exact hall.tail
    · exact hall
  · by_cases hself : x.speaker = c
    · subst hself
      have hsettled := hanswered.settled
      unfold Exchange.after
      cases he : x.exit with
      | yielded vs =>
        rw [he] at hsettled
        exact hsettled
      | returned vs =>
        rw [he] at hown
        exact absurd hown.after_return hne
      | raised status v =>
        rw [he] at hown
        exact hown.elim
    · exact (hpoised c hc hself hne).rested (hrested c hc hself)
  · obtain ⟨_, _, hst⟩ := (hpoised c hc hother hne).stands
    obtain ⟨th, ht, -⟩ := hst.thread
    obtain ⟨th', ht', hr⟩ := hrested c hc hother th ht
    exact shown_of_rested ht ht' hr

/-- Every resume of a conversation is answered. -/
theorem Converse.answered (h : Converse code source cs w xs w') (C : Circle source cs)
    (R : Ready source st s cs w xs) : ∀ x ∈ xs, x.IsAnswered code source s := by
  induction h with
  | ended w => exact fun _ h => absurd h List.not_mem_nil
  | resumed H _ ih =>
    obtain ⟨hanswered, hready, -⟩ := H.ready C R
    exact List.forall_mem_cons.mpr ⟨hanswered, ih hready⟩

end LuaEmbed
