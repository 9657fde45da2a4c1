import LuaEmbed.Proofs.Anchoring
import LuaEmbed.Proofs.Identity

/-!
The balance of handles and references in runs. Whatever a host program does, and whatever runs inside it,
is a trail of events in the life of handles; so at every moment the references that have been taken and not
released are those of the handles that are there. What fails to give a handle leaves no reference behind.
-/
namespace LuaEmbed

open Engine Holding

variable {σ μ α β : Type}

/-- The handle that a value is, if it is one. -/
def Value.thread? : Value → Option ThreadHandle
  | .thread h => some h
  | _ => none

namespace World

variable {w w' w₁ w₂ : World σ μ} {es fs : List Holding} {i id : Nat} {t : StackId} {d : Drive σ μ}
  {c : Context}

/-- Events in the life of handles lead from one world to the other. -/
def Leads (w w' : World σ μ) : Prop := ∃ es, Trail w es w'

theorem Turn.leads (h : Turn w es w') : Leads w w' := ⟨es, h.trail⟩

theorem Unheld.leads (h : w.Unheld w') : Leads w w' := (Turn.unheld h).leads

theorem unheld_anchor (hg : w.given t.vm = none) : w.Unheld (w.anchor t).2 := by
  have hx : w.instance? t.vm = none := Option.map_eq_none_iff.mp hg
  unfold anchor
  rw [hx]
  refine ⟨fun id => ?_, ?_, fun _ => rfl⟩
  · refine (Pool.get?_erase _ _ _).trans ?_
    split
    next he => rw [← he, Pool.get?_next]
    next hne => rw [Pool.get?_push, if_neg (Ne.symm hne)]
  · change w.anchors.items.size ≤ ((w.anchors.items.push _).setIfInBounds _ none).size
    rw [Array.size_setIfInBounds, Array.size_push]
    exact Nat.le_succ _

theorem leads_anchor (w : World σ μ) (t : StackId) : Leads w (w.anchor t).2 := by
  cases hg : w.given t.vm with
  | none => exact (unheld_anchor hg).leads
  | some g => exact (Turn.taken w t hg).leads

theorem leads_retain (w : World σ μ) (h : ThreadHandle) : Leads w (w.retain (.thread h)) := by
  cases ha : w.anchors.get? h.anchor with
  | some a => exact (Turn.cloned w h ha).leads
  | none =>
    refine Unheld.leads ⟨fun id => ?_, Nat.le_of_eq Array.size_modify.symm, fun _ => rfl⟩
    refine (Pool.get?_modify _ _ _ _).trans ?_
    split
    next he => rw [← he, ha]; rfl
    next => rfl

theorem leads_releaseAnchor (w : World σ μ) (id : Nat) : Leads w (w.releaseAnchor id) := by
  cases ha : w.anchors.get? id with
  | none =>
    unfold releaseAnchor
    rw [ha]
    exact (Unheld.refl w).leads
  | some a =>
    by_cases hs : a.strong ≤ 1
    · by_cases hg : ∃ p, w.given a.thread.vm = some (p, false)
      · obtain ⟨p, hg⟩ := hg
        exact (Turn.released w ha hs hg).leads
      · exact (Turn.left w ha hs fun p hp => hg ⟨p, hp⟩).leads
    · exact (Turn.dropped w ha (Nat.lt_of_not_le hs)).leads

theorem leads_outside : Outside (Leads (σ := σ) (μ := μ)) where
  refl w := ⟨[], .refl w⟩
  trans := fun ⟨_, h⟩ ⟨_, k⟩ => ⟨_, h.trans k⟩
  touch {w w'} h := by
    cases h with
    | objects i f => exact (unheld_modifyVm w i f).leads
    | top c f => exact (unheld_modifyVm w c.vm _).leads
    | spawn i t => exact (unheld_modifyVm w i _).leads
    | handle h =>
      cases h with
      | made t => exact leads_anchor w t
      | copied h => exact leads_retain w h
      | dropped id => exact leads_releaseAnchor w id
    | host _ hi hv hh ha => exact (unheld_of_instances hi ha).leads
  vm w i f := (unheld_modifyVm w i f).leads

/-! ### Owners and views -/

theorem leads_shutDown (hd : d.Keeps Leads) (i : Nat) : (shutDown i).Keeps Leads d := by
  intro w _ _ h
  have hbegun : w.Unheld (w.happened (.closed i)) := unheld_of_instances rfl rfl
  exact leads_outside.trans hbegun.leads (leads_outside.shutDown hd h)

theorem leads_releaseView (hd : d.Keeps Leads) (i : Nat) : (releaseView i).Keeps Leads d := by
  unfold releaseView
  have hcount : ∀ w : World σ μ, w.Unheld (w.modifyInstance i fun x => { x with views := x.views - 1 }) :=
    fun w => unheld_modifyInstance w i (fun _ => rfl) fun _ => rfl
  refine leads_outside.bind (Run.keeps_update fun w => (hcount w).leads) fun _ =>
    leads_outside.bind leads_outside.get fun w => ?_
  split
  · exact .ite (leads_shutDown hd i) (leads_outside.pure ())
  · exact leads_outside.pure ()

theorem leads_dropView (hd : d.Keeps Leads) (v : View) (held : Bool) : (dropView v held).Keeps Leads d := by
  unfold dropView
  have herased : ∀ (e : Happening) (w : World σ μ),
      w.Unheld ({ w with views := w.views.erase v.number }.happened e) := fun _ _ => unheld_of_instances rfl rfl
  refine leads_outside.bind leads_outside.get fun w => ?_
  split
  · exact leads_outside.pure ()
  · exact .ite (leads_outside.bind (Run.keeps_update fun w => (herased _ w).leads) fun _ =>
      leads_releaseView hd _) (leads_outside.pure ())

theorem leads_view (h : ThreadHandle) (held : Bool) (w : World σ μ) : Leads w (h.view held w).2 := by
  rcases view_cases h held w with ⟨-, he⟩ | ⟨x, -, -, he⟩
  · rw [he]
    exact leads_outside.refl w
  · rw [he]
    have hcount := unheld_modifyInstance w h.thread.vm (f := fun x => { x with views := x.views + 1 })
      (fun _ => rfl) fun _ => rfl
    have hadded : w.Unheld (w.addView ⟨h.thread, held⟩) := hcount.trans (unheld_of_instances rfl rfl)
    exact hadded.leads

theorem leads_dropOwner (hd : d.Keeps Leads) (i : Nat) : (dropOwner i).Keeps Leads d := by
  intro w a w' h
  unfold dropOwner at h
  obtain ⟨_, w₁, h₁, h⟩ := Run.bind_some.mp h
  obtain ⟨rfl, rfl⟩ := Prod.mk.inj (Option.some.inj h₁)
  unfold World.instance? at h
  cases hx : w.instances[i]? with
  | none =>
    simp only [hx] at h
    obtain ⟨-, rfl⟩ := Prod.mk.inj (Option.some.inj h)
    exact leads_outside.refl w
  | some x =>
    simp only [hx] at h
    split at h
    case isTrue =>
      obtain ⟨-, rfl⟩ := Prod.mk.inj (Option.some.inj h)
      exact leads_outside.refl w
    next hc =>
    obtain ⟨_, w₁, h₁, h⟩ := Run.bind_some.mp h
    obtain ⟨-, rfl⟩ := Prod.mk.inj (Option.some.inj h₁)
    refine leads_outside.trans
      (Turn.disowned w (given_some.mpr ⟨x, hx, rfl, Bool.eq_false_iff.mpr hc⟩)).leads (Run.related h ?_)
    exact .ite (leads_shutDown hd i) (leads_outside.toStable.update fun w => touches_notify w _)

theorem leads_keeping (hd : d.Keeps Leads) : Keeping Leads d where
  toStable := leads_outside.toStable
  invoke := leads_outside.invoke hd
  resumeWith := leads_outside.resumeWith hd
  finalize := leads_outside.finalize hd
  pause c := hd c _
  birth w vm name := (Turn.born w vm name).leads
  dropOwner := leads_dropOwner hd
  view h w := leads_view h true w
  dropView v := leads_dropView hd v true
  withView h _ a ha := leads_outside.toStable.withView leads_view (leads_dropView hd) h a ha

/-- Whatever runs, for however long, is a trail. -/
theorem leads_drive (code : HostCode σ μ) (fuel : Nat) : (World.drive code fuel).Keeps Leads :=
  leads_outside.drive (fun _ => leads_keeping) code fuel

/-! ### What a balance says -/

/-- Of an interpreter that has its owner, what has been taken and not released is held by a handle. -/
theorem Moored.held (hw : w.Moored es) {p : Pool Nat} (hg : w.given i = some (p, false)) {r u : Nat} :
    p.get? r = some u ↔ ∃ id n, w.anchors.get? id = some ⟨⟨i, u⟩, r, n⟩ := by
  have howner : .disowned i ∉ es := fun h => nomatch (hw.closed _ p false hg).mpr h
  rw [hw.given i p false hg]
  refine exists_congr fun id => ?_
  simp only [hw.anchors]
  constructor
  · rintro ⟨hm, hnot⟩
    refine ⟨clones es id, hm, Nat.pos_of_ne_zero fun h0 => hnot ?_, rfl⟩
    exact hw.orderly.released_of_gone hm h0 howner
  · rintro ⟨n, hm, hpos, rfl⟩
    refine ⟨hm, fun hr => ?_⟩
    rw [(hw.orderly.gone_of_released hr).1] at hpos
    exact absurd hpos (Nat.lt_irrefl 0)

/-- The balance of handles and references, after such a history. -/
structure Matched (w : World σ μ) (es : List Holding) : Prop where
  orderly : Orderly es
  /-- A handle is there as long as there are clones of it, which it counts. -/
  counted : ∀ id a, w.anchors.get? id = some a → 0 < a.strong ∧ clones es id = a.strong
  /-- The references of an interpreter that has its owner are held by handles, each to its thread. -/
  held : ∀ (i : Nat) x, w.instances[i]? = some x → x.closed = false → ∀ r t,
    x.references.get? r = some t ↔ ∃ id n, w.anchors.get? id = some ⟨⟨i, t⟩, r, n⟩
  /-- No two handles hold the same reference. -/
  apart : ∀ id id' a a', w.anchors.get? id = some a → w.anchors.get? id' = some a' →
    a.thread.vm = a'.thread.vm → a.reference = a'.reference → id = id'
  /-- As long as there is an owner, a reference has been released once if its handle has gone, and
  otherwise not. -/
  released : ∀ id t r x, .taken id t r ∈ es → w.instances[t.vm]? = some x → x.closed = false →
    es.count (.released id) = if w.anchors.get? id = none then 1 else 0
  /-- Once the owner has gone, nothing is released. -/
  kept : ∀ fs gs i, es = fs ++ .disowned i :: gs → ∀ id t r, .taken id t r ∈ es → t.vm = i →
    .released id ∉ fs

theorem Moored.matched (hw : w.Moored es) : w.Matched es where
  orderly := hw.orderly
  counted id a ha := (hw.of_anchor ha).2
  held i x hx hc _ _ := hw.held (given_some.mpr ⟨x, hx, rfl, hc⟩)
  apart id id' a a' ha ha' hvm hr :=
    hw.orderly.reference_once (hw.of_anchor ha).1 (hr ▸ (hw.of_anchor ha').1) hvm
  released id t r x hm hx hc := by
    have howner : .disowned t.vm ∉ es := fun h =>
      nomatch hc.symm.trans ((hw.closed _ _ _ (given_some.mpr ⟨x, hx, rfl, rfl⟩)).mpr h)
    rw [hw.orderly.count_released hm howner]
    refine if_congr ?_ rfl rfl
    constructor
    · intro h0
      cases ha : w.anchors.get? id with
      | none => rfl
      | some a =>
        obtain ⟨-, hpos, hc⟩ := hw.of_anchor ha
        omega
    · intro hnone
      by_contra hpos
      have ha := (hw.anchors id t r _).mpr ⟨hm, Nat.pos_of_ne_zero hpos, rfl⟩
      rw [hnone] at ha
      cases ha
  kept fs gs i he id t r hm hvm := by
    subst he
    exact hw.orderly.kept_after_disowned hm hvm

/-! ### Operations that give handles -/

/-- The same handles are there and, of interpreters that have their owners, the same references. -/
structure NoneLeft (w w' : World σ μ) : Prop where
  anchors : ∀ id, w'.anchors.get? id = w.anchors.get? id
  references : ∀ i p, w.given i = some (p, false) →
    ∃ p', w'.given i = some (p', false) ∧ ∀ r, p'.get? r = p.get? r

theorem Unheld.noneLeft (h : w.Unheld w') : w.NoneLeft w' :=
  ⟨h.anchors, fun i p hg => ⟨p, (h.given i).trans hg, fun _ => rfl⟩⟩

/-- Where the handles are the same, so are the references. -/
theorem Moored.noneLeft (hw : w.Moored es) (h : Touches w w')
    (ha : ∀ id, w'.anchors.get? id = w.anchors.get? id) : w.NoneLeft w' := by
  obtain ⟨fs, htrail⟩ := leads_outside.touches h
  refine ⟨ha, fun i p hg => ?_⟩
  obtain ⟨x, hx, -, hc⟩ := given_some.mp hg
  have hclosed := h.closed i
  rw [hx, Option.map_some, hc] at hclosed
  obtain ⟨x', hx', hc'⟩ := Option.map_eq_some_iff.mp hclosed
  have hg' : w'.given i = some (x'.references, false) := given_some.mpr ⟨x', hx', rfl, hc'⟩
  refine ⟨x'.references, hg', fun r => Option.ext fun u => ?_⟩
  simp only [(hw.trail htrail).held hg', hw.held hg, ha]

/-- How an operation ends that may give a handle: nothing is held more than before, or a new handle is. -/
inductive Gives (given? : α → Option ThreadHandle) (w : World σ μ) :
    Except Error α × World σ μ → Prop where
  | refused {w' : World σ μ} (e : Error) (h : w.Unheld w') : Gives given? w (.error e, w')
  | plain {w' : World σ μ} {a : α} (ha : given? a = none) (h : w.Unheld w') : Gives given? w (.ok a, w')
  | handle {w₁ w' : World σ μ} {a : α} {t : StackId} (h : w.Unheld w₁)
    (ha : given? a = some (w₁.anchor t).1) (k : (w₁.anchor t).2.Unheld w') : Gives given? w (.ok a, w')

theorem Gives.after {given? : α → Option ThreadHandle} {p : Except Error α × World σ μ}
    (h : w.Unheld w₁) (k : Gives given? w₁ p) : Gives given? w p := by
  cases k with
  | refused e k => exact .refused e (h.trans k)
  | plain ha k => exact .plain ha (h.trans k)
  | handle k ha k' => exact .handle (h.trans k) ha k'

/-- The handle that is given is a new one. -/
theorem Gives.fresh {given? : α → Option ThreadHandle} {a : α} {h : ThreadHandle}
    (k : Gives given? w (.ok a, w')) (ha : given? a = some h) : w.anchors.get? h.anchor = none ∧
      (w.given h.thread.vm ≠ none → ∃ r, w'.anchors.get? h.anchor = some ⟨h.thread, r, 1⟩) := by
  cases k with
  | plain hnone => cases hnone.symm.trans ha
  | @handle w₁ w' a t hsame ha' k =>
    obtain rfl := Option.some.inj (ha'.symm.trans ha)
    refine ⟨(hsame.anchors _).symm.trans (Pool.get?_next _), fun hg => ?_⟩
    have hsome : w₁.given t.vm ≠ none := by
      rw [hsame.given]
      exact hg
    obtain ⟨⟨p, b⟩, hg⟩ := Option.ne_none_iff_exists'.mp hsome
    refine ⟨p.next, (k.anchors _).trans ?_⟩
    rw [(anchor_given hg).1]
    exact (Pool.get?_push _ _ _).trans (if_pos rfl)

theorem get?_releaseAnchor (w : World σ μ) (id j : Nat) :
    (w.releaseAnchor id).anchors.get? j = if id = j then
      (w.anchors.get? j).bind fun a => if a.strong ≤ 1 then none else some { a with strong := a.strong - 1 }
    else w.anchors.get? j := by
  cases ha : w.anchors.get? id with
  | none =>
    have hnothing : w.releaseAnchor id = w := by
      unfold releaseAnchor
      rw [ha]
    rw [hnothing]
    split
    next h => rw [← h, ha]; rfl
    next => rfl
  | some a =>
    by_cases hs : a.strong ≤ 1
    · rw [releaseAnchor_gone ha hs]
      refine if_ctx_congr Iff.rfl (fun h => ?_) fun _ => rfl
      rw [← h, ha]
      exact (if_pos hs).symm
    · unfold releaseAnchor
      rw [ha]
      dsimp only
      rw [if_neg hs]
      refine (Pool.get?_set (Pool.lt_next ha) j _).trans (if_ctx_congr Iff.rfl (fun h => ?_) fun _ => rfl)
      rw [← h, ha]
      exact (if_neg hs).symm

/-- Which handles are there after one has been let go of depends on which were there. -/
theorem get?_release_congr (h : ∀ id, w'.anchors.get? id = w.anchors.get? id) (v : Value) (id : Nat) :
    (w'.release v).anchors.get? id = (w.release v).anchors.get? id := by
  cases v with
  | thread q =>
    unfold release
    dsimp only
    rw [h q.anchor]
    split
    · rw [get?_releaseAnchor, get?_releaseAnchor, h]
    · exact h id
  | _ => exact h id

theorem get?_releaseAll_congr (h : ∀ id, w'.anchors.get? id = w.anchors.get? id) (vs : List Value)
    (id : Nat) : (w'.releaseAll vs).anchors.get? id = (w.releaseAll vs).anchors.get? id := by
  induction vs generalizing w w' with
  | nil => exact h id
  | cons v vs ih => exact ih (get?_release_congr h v)

/-- A value that has been read and is let go of leaves no handle. -/
theorem Gives.released {v : Value} (k : Gives Value.thread? w (.ok v, w')) (id : Nat) :
    (w'.release v).anchors.get? id = w.anchors.get? id := by
  cases k with
  | plain hv h =>
    cases v with
    | thread q => cases hv
    | _ => exact h.anchors id
  | @handle w₁ w' v t h hv k =>
    cases v with
    | thread q =>
      obtain rfl := Option.some.inj hv
      rw [← h.anchors id]
      unfold release
      dsimp only
      cases hg : w₁.given t.vm with
      | none =>
        have hgone : w'.anchors.get? w₁.anchors.next = none := by
          rw [k.anchors, (unheld_anchor hg).anchors, Pool.get?_next]
        rw [show (w₁.anchor t).1.anchor = w₁.anchors.next from rfl, hgone]
        exact (k.anchors id).trans ((unheld_anchor hg).anchors id)
      | some g =>
        have hthere : w'.anchors.get? w₁.anchors.next = some ⟨t, g.1.next, 1⟩ := by
          rw [k.anchors, (anchor_given hg).1, Pool.get?_push, if_pos rfl]
        have hown : (some (⟨t, g.1.next, 1⟩ : Anchor)).any (·.thread = (w₁.anchor t).1.thread) = true :=
          decide_eq_true rfl
        rw [show (w₁.anchor t).1.anchor = w₁.anchors.next from rfl, hthere, if_pos hown,
          get?_releaseAnchor, k.anchors, (anchor_given hg).1, Pool.get?_push]
        split
        next he => rw [if_pos he.symm, ← he, Pool.get?_next]; rfl
        next hne => rw [if_neg (Ne.symm hne)]
    | _ => cases hv

theorem unheld_reserve (w : World σ μ) (c : Context) (n : Nat) : w.Unheld (w.reserve c n).2 := by
  rw [reserve_world]
  exact unheld_modifyVm w c.vm _

theorem unheld_modifySlots (w : World σ μ) (c : Context) (f : Array Val → Array Val) :
    w.Unheld (w.modifySlots c f) := by
  rw [modifySlots_eq]
  exact unheld_modifyVm w c.vm _

end World

namespace Context

open World

variable {w w' : World σ μ} {es : List Holding} (c : Context)

theorem unheld_checkStack (n : Int) : Api.Keeps Unheld (c.checkStack n : Api σ μ Unit) := by
  intro w
  unfold checkStack
  split
  · exact .refl w
  · have h := unheld_reserve w c n.toNat
    cases hr : w.reserve c n.toNat with
    | mk ok w' =>
      rw [hr] at h
      cases ok <;> exact h

theorem unheld_shared : Api.Keeps Unheld (c.shared : Api σ μ Nat) := by
  intro w
  rw [shared_world]
  exact unheld_reserve w c 1

theorem gives_capture (pos : Int) (w : World σ μ) : Gives some w (c.capture pos w) := by
  unfold capture
  cases hs : c.shared w with
  | mk r w₁ =>
    have h₁ := c.unheld_shared.related hs
    cases r with
    | error e =>
      rw [Api.bind_error hs]
      exact .refused e h₁
    | ok vm =>
      rw [Api.bind_ok hs]
      cases hroom : c.checkStack 1 w₁ with
      | mk r w₂ =>
        have h₂ := h₁.trans ((c.unheld_checkStack 1).related hroom)
        cases r with
        | error e =>
          rw [Api.bind_error hroom]
          exact .refused e h₂
        | ok _ =>
          rw [Api.bind_ok hroom, Api.get_bind]
          cases w₂.at_ c pos with
          | thread t => exact .handle h₂ rfl (.refl _)
          | _ => exact .refused _ h₂

theorem gives_read (k : Int) (w : World σ μ) : Gives Value.thread? w (c.read k w) := by
  unfold read
  cases hk : c.resolve k w with
  | mk r w₁ =>
    obtain rfl : w = w₁ := congrArg Prod.snd hk
    cases r with
    | error e =>
      rw [Api.bind_error hk]
      exact .refused e (.refl w)
    | ok pos =>
      rw [Api.bind_ok hk]
      cases hroom : c.checkStack 2 w with
      | mk r w₁ =>
        have h₁ := (c.unheld_checkStack 2).related hroom
        cases r with
        | error e =>
          rw [Api.bind_error hroom]
          exact .refused e h₁
        | ok _ =>
          rw [Api.bind_ok hroom, Api.get_bind]
          refine .after h₁ ?_
          cases w₁.at_ c pos with
          | thread t =>
            have hcapture := c.gives_capture pos w₁
            cases hp : c.capture pos w₁ with
            | mk r w₂ =>
              rw [hp] at hcapture
              cases hcapture with
              | refused e h =>
                change Gives Value.thread? w₁ ((c.capture pos >>= fun h => Pure.pure (Value.thread h)) w₁)
                rw [Api.bind_error hp]
                exact .refused e h
              | plain ha => cases ha
              | handle h ha k =>
                change Gives Value.thread? w₁ ((c.capture pos >>= fun h => Pure.pure (Value.thread h)) w₁)
                rw [Api.bind_ok hp]
                exact .handle h ha k
          | _ => exact .plain rfl (.refl w₁)

theorem gives_captureTop {v : World σ μ → Val × World σ μ} (hv : ∀ w, Unheld w (v w).2) (w : World σ μ) :
    Gives some w (c.captureTop v w) := by
  unfold captureTop
  cases hroom : c.checkStack 2 w with
  | mk r w₁ =>
    have h₁ := (c.unheld_checkStack 2).related hroom
    cases r with
    | error e =>
      rw [Api.bind_error hroom]
      exact .refused e h₁
    | ok _ =>
      rw [Api.bind_ok hroom]
      let w₂ := (v w₁).2.push c (v w₁).1
      have h₂ : w₁.Unheld w₂ := (hv w₁).trans (unheld_modifySlots _ c _)
      refine .after (h₁.trans h₂) ?_
      change Gives some w₂ ((c.capture (w₂.depth c) w₂).1, (c.capture (w₂.depth c) w₂).2.truncate c _)
      have hcapture := c.gives_capture (w₂.depth c) w₂
      generalize c.capture (w₂.depth c) w₂ = p at hcapture ⊢
      cases hcapture with
      | refused e h => exact .refused e (h.trans (unheld_modifySlots _ c _))
      | plain ha => cases ha
      | handle h ha k => exact .handle h ha (k.trans (unheld_modifySlots _ c _))

theorem gives_newThread (w : World σ μ) : Gives some w (c.newThread w) :=
  c.gives_captureTop (fun w => by
    rw [onVm_world]
    exact unheld_modifyVm w c.vm _) w

theorem gives_currentThread (w : World σ μ) : Gives some w (c.currentThread w) :=
  c.gives_captureTop (fun w => .refl w) w

theorem readFrom_error {pos : Int} {n : Nat} {acc : List Value} {e : Error}
    (h : c.readFrom pos n acc w = (.error e, w')) (id : Nat) :
    w'.anchors.get? id = (w.releaseAll acc).anchors.get? id := by
  induction n generalizing pos acc w with
  | zero => cases h
  | succ n ih =>
    unfold readFrom at h
    have hread := c.gives_read pos w
    cases hr : c.read pos w with
    | mk r w₁ =>
      rw [hr] at hread
      simp only [hr] at h
      cases r with
      | ok v => exact (ih h).trans (get?_releaseAll_congr hread.released acc id)
      | error e' =>
        obtain ⟨-, rfl⟩ := Prod.mk.inj h
        cases hread with
        | refused _ hsame => exact get?_releaseAll_congr hsame.anchors acc id

/-- A number of slots that cannot be read leaves no handles behind. -/
theorem readBatch_error {n : Int} {start : Option Int} {e : Error} (hw : w.Moored es)
    (h : c.readBatch n start w = (.error e, w')) : w.NoneLeft w' := by
  refine hw.noneLeft ((c.quiet_readBatch n start).related h) fun id => ?_
  unfold readBatch at h
  split at h
  · cases h
  rw [Api.bind_ok (rfl : c.top w = (_, w))] at h
  rcases Api.bind_cases h with ⟨first, w₁, hcheck, h⟩ | ⟨e, hcheck, -⟩
  · obtain rfl : w = w₁ := congrArg Prod.snd hcheck
    exact c.readFrom_error h id
  · obtain rfl : w = w' := congrArg Prod.snd hcheck
    rfl

end Context

namespace World

/-- An operation that fails to give a handle. -/
inductive Refuses (c : Context) (w w' : World σ μ) : Prop where
  | read {k : Int} {e : Error} (h : c.read k w = (.error e, w'))
  | readBatch {n : Int} {start : Option Int} {e : Error} (h : c.readBatch n start w = (.error e, w'))
  | newThread {e : Error} (h : c.newThread w = (.error e, w'))
  | currentThread {e : Error} (h : c.currentThread w = (.error e, w'))

/-- An operation that gives a handle. -/
inductive Hands (c : Context) (h : ThreadHandle) (w w' : World σ μ) : Prop where
  | read {k : Int} (hr : c.read k w = (.ok (.thread h), w'))
  | newThread (hr : c.newThread w = (.ok h, w'))
  | currentThread (hr : c.currentThread w = (.ok h, w'))

theorem Gives.noneLeft {given? : α → Option ThreadHandle} {e : Error}
    (h : Gives given? w (.error e, w')) : w.NoneLeft w' := by
  cases h with
  | refused _ h => exact h.noneLeft

theorem Refuses.noneLeft (hw : w.Moored es) (h : Refuses c w w') : w.NoneLeft w' := by
  cases h with
  | @read k e h => exact Gives.noneLeft (e := e) (h ▸ c.gives_read k w)
  | readBatch h => exact c.readBatch_error hw h
  | @newThread e h => exact Gives.noneLeft (e := e) (h ▸ c.gives_newThread w)
  | @currentThread e h => exact Gives.noneLeft (e := e) (h ▸ c.gives_currentThread w)

theorem Hands.fresh {h : ThreadHandle} (k : Hands c h w w') : w.anchors.get? h.anchor = none ∧
    (w.given h.thread.vm ≠ none → ∃ r, w'.anchors.get? h.anchor = some ⟨h.thread, r, 1⟩) := by
  cases k with
  | @read k hr =>
    have hgives := c.gives_read k w
    rw [hr] at hgives
    exact hgives.fresh rfl
  | newThread hr =>
    have hgives := c.gives_newThread w
    rw [hr] at hgives
    exact hgives.fresh rfl
  | currentThread hr =>
    have hgives := c.gives_currentThread w
    rw [hr] at hgives
    exact hgives.fresh rfl

/-- Wherever a run of a host program leads, and at every moment on the way, handles and references are
in balance: the references of an interpreter with its owner are those of the handles that are there, one
each; a reference is released once, with the last clone; and once the owner has gone, nothing is released.
A handle that is given is new, and what fails to give one leaves nothing behind. -/
theorem run_matched (code : HostCode σ μ) (fuel : Nat) (p : Program σ μ α) (m : μ)
    (f : Notice → μ → μ) (due : Nat → Vm → Bool) {a : α}
    (h : p.run code fuel (start m f due) = some (a, w)) :
    (∃ es, Trail (start m f due) es w) ∧
    (∀ (u : World σ μ) es, Trail (start m f due) es u → u.Matched es) ∧
    (∀ (u u' : World σ μ) es c, Trail (start m f due) es u → Refuses c u u' → u.NoneLeft u') ∧
    ∀ (u u' : World σ μ) c q, Hands c q u u' → u.anchors.get? q.anchor = none ∧
      ((∃ x, u.instances[q.thread.vm]? = some x) →
        ∃ r, u'.anchors.get? q.anchor = some ⟨q.thread, r, 1⟩) := by
  have hmoored : ∀ (u : World σ μ) es, Trail (start m f due) es u → u.Moored es := fun u es hu =>
    List.append_nil es ▸ (moored_start m f due).trail hu
  refine ⟨(leads_keeping (leads_drive code fuel)).traversal.program p _ _ _ h,
    fun u es hu => (hmoored u es hu).matched, fun u u' es c hu hr => hr.noneLeft (hmoored u es hu),
    fun u u' c q hq => ⟨hq.fresh.1, fun ⟨x, hx⟩ => hq.fresh.2 ?_⟩⟩
  rw [given_some.mpr ⟨x, hx, rfl, rfl⟩]
  exact nofun

/-- Takes a handle and a clone of it and drops the clone, makes a thread and drops its handle, and drops
the first handle when the owner of the interpreter is gone. -/
def turnover : Program Unit Unit Unit := do
  discard (Program.ask (.newInstance { openStdLibs := false }))
  match ← Program.ask (.stack ⟨0, 0⟩ .currentThread) with
  | .error _ => return
  | .ok h =>
    Program.ask (.retain (.thread h))
    Program.ask (.release (.thread h))
    match ← Program.ask (.stack ⟨0, 0⟩ .newThread) with
    | .error _ => return
    | .ok q =>
      Program.ask (.release (.thread q))
      Program.ask (.dropOwner 0)
      Program.ask (.release (.thread h))

/-- The reference of the second handle has been released. That of the first is left where it is. -/
theorem run_matched_turnover :
    ∃ w es, turnover.run HostCode.silent 5 (start () (fun _ m => m) fun _ _ => true) = some ((), w) ∧
      Trail (start () (fun _ m => m) fun _ _ => true) es w ∧ w.Matched es ∧
      w.anchors.items.map Option.isNone = #[true, true] ∧
      (w.instances[0]?).map (fun x => (x.closed, x.references.items)) = some (true, #[some 0, none]) := by
  have hrun : (turnover.run HostCode.silent 5 (start () (fun _ m => m) fun _ _ => true)).map (fun r =>
      (r.2.anchors.items.map Option.isNone,
        (r.2.instances[0]?).map fun x => (x.closed, x.references.items)))
      = some (#[true, true], some (true, #[some 0, none])) := by
    decide +kernel
  obtain ⟨⟨_, w⟩, hw, he⟩ := Option.map_eq_some_iff.mp hrun
  obtain ⟨⟨es, hes⟩, hmatched, -⟩ := run_matched HostCode.silent 5 turnover () (fun _ m => m) (fun _ _ => true) hw
  exact ⟨w, es, hw, hes, hmatched w es hes, congrArg Prod.fst he, congrArg Prod.snd he⟩

end World
end LuaEmbed
