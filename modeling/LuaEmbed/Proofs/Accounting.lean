import LuaEmbed.Proofs.Accounts

/-!
Every entry keeps the account right. So after any number of entries an object has as many references as it has
owners on the host's side and userdata that have not been finalized, and no userdata is finalized twice or
freed before its finalizer has had its turn.
-/
namespace LuaEmbed

open Engine Owning

variable {σ μ : Type} {w w' w₁ : World σ μ} {es : List Owning} {k : Carrier} {x : Asset}

/-- What has been noted is what is there. The userdata that stand carry what they were pushed with; those
that the engine is going to finalize are listed, or the engine is at it; and an interpreter that has been
closed, or is being closed, lists none. -/
structure Account.Accounted (a : Account σ μ) : Prop where
  orderly : Orderly a.events
  carried : ∀ k, k ∈ standing a.events ↔ (a.world.heap k.vm).carried? k.userdata = some k.asset
  counted : Honest a.events → ∀ x, a.world.strong x = claims a.events x
  listed : ∀ k ∈ standing a.events, .userdata k.userdata ∈ (a.world.heap k.vm).finalizable ∨
    k ∈ exempt a.events ∨ k ∈ waiting a.events
  collecting : ∀ k ∈ waiting a.events, (a.world.heap k.vm).collecting = true
  closed : ∀ k ∈ standing a.events, .closed k.vm ∈ a.world.history →
    k ∈ exempt a.events ∨ k ∈ waiting a.events
  closing : ∀ i, (a.world.heap i).closing = true → .closed i ∈ a.world.history

namespace Account.Accounted

theorem still (ha : Accounted ⟨w, es⟩) (h : w.Bears w') : Accounted ⟨w', es⟩ where
  orderly := ha.orderly
  carried k := by
    rw [(h.heaps k.vm).carried]
    exact ha.carried k
  counted hh x := (World.strong_congr h.functions h.foreigns x).trans (ha.counted hh x)
  listed k hk := (ha.listed k hk).imp_left fun hl => (h.heaps k.vm).listed hl
  collecting k hk := (h.heaps k.vm).collecting.trans (ha.collecting k hk)
  closed k hk hc := ha.closed k hk ((h.closed k.vm).mp hc)
  closing i hi := (h.closed i).mpr (ha.closing i ((h.heaps i).closing.symm.trans hi))

/-- An event that concerns owners on the host's side alone. -/
theorem owning (ha : Accounted ⟨w, es⟩) {e : Owning} (hi : w'.instances = w.instances)
    (hh : w'.history = w.history) (ho : Orderly (e :: es)) (hst : standing (e :: es) = standing es)
    (hw : waiting (e :: es) = waiting es) (hx : exempt (e :: es) = exempt es)
    (hs : Honest (e :: es) → ∀ x, w'.strong x = claims (e :: es) x) : Accounted ⟨w', e :: es⟩ := by
  have hheap := World.heap_congr hi
  refine ⟨ho, ?_, hs, ?_, ?_, ?_, ?_⟩
  · simpa only [hst, hheap] using ha.carried
  · simpa only [hst, hw, hx, hheap] using ha.listed
  · simpa only [hw, hheap] using ha.collecting
  · simpa only [hst, hw, hx, hh] using ha.closed
  · simpa only [hheap, hh] using ha.closing

theorem made (ha : Accounted ⟨w, es⟩) (hi : w'.instances = w.instances) (hh : w'.history = w.history)
    (hs : ∀ y, w'.strong y = w.strong y + if x = y then 1 else 0) : Accounted ⟨w', .made x :: es⟩ :=
  ha.owning hi hh (.made ha.orderly) rfl rfl rfl fun h y => by
    rw [hs, claims_made, ha.counted h]

theorem kept (ha : Accounted ⟨w, es⟩) {v : Value} (hv : v.asset? = some x) :
    Accounted ⟨w.retain v, .kept x :: es⟩ := by
  have hworld := w.instances_retain v
  refine ha.owning hworld.1 hworld.2 (.kept ha.orderly) rfl rfl rfl fun h y => ?_
  have hpos : 0 < w.strong x := ha.counted h.2 x ▸ h.1
  rw [claims_kept, World.strong_retain hv hpos, ha.counted h.2]

theorem dropped (ha : Accounted ⟨w, es⟩) {v : Value} (hv : v.asset? = some x) :
    Accounted ⟨w.release v, .dropped x :: es⟩ := by
  have hworld := World.instances_release (w := w) hv
  refine ha.owning hworld.1 hworld.2 (.dropped ha.orderly) rfl rfl rfl fun h y => ?_
  rw [World.strong_release hv, ha.counted h.2, claims_dropped h.1]
  omega

section Push

variable (ha : Accounted ⟨w, es⟩) (hg : (w.heap k.vm).Admits k.userdata k.asset (w'.heap k.vm))

include ha hg

/-- What stood in the place would be carried by it, and it is new. -/
theorem free_place {j : Carrier} (hj : j ∈ standing es) (hvm : j.vm = k.vm) : j.userdata ≠ k.userdata := by
  intro hu
  have hcarried := (ha.carried j).mp hj
  rw [hvm, hu, hg.fresh] at hcarried
  cases hcarried

theorem ne_of_standing {j : Carrier} (hj : j ∈ standing es) : j ≠ k := fun h =>
  ha.free_place hg hj (h ▸ rfl) (h ▸ rfl)

theorem carried_pushed (hs : ∀ i, i ≠ k.vm → (w.heap i).Carries (w'.heap i)) (j : Carrier) :
    j ∈ k :: standing es ↔ (w'.heap j.vm).carried? j.userdata = some j.asset := by
  by_cases hvm : j.vm = k.vm
  · rw [hvm, hg.carried]
    by_cases hu : j.userdata = k.userdata
    · rw [if_pos hu]
      constructor
      · intro hj
        rcases List.mem_cons.mp hj with rfl | hj
        · rfl
        · exact absurd hu (ha.free_place hg hj hvm)
      · intro hx
        obtain rfl : j = k := Carrier.ext (Option.some.inj hx).symm hvm hu
        exact List.mem_cons_self ..
    · rw [if_neg hu, ← hvm, ← ha.carried]
      exact ⟨fun hj => (List.mem_cons.mp hj).resolve_left fun h => hu (h ▸ rfl), List.mem_cons_of_mem _⟩
  · rw [(hs j.vm hvm).carried, ← ha.carried]
    exact ⟨fun hj => (List.mem_cons.mp hj).resolve_left fun h => hvm (h ▸ rfl), List.mem_cons_of_mem _⟩

theorem pushed {v : Value} (hv : v.asset? = some k.asset) {enlisted : Bool}
    (hs : (w.retain v).Confines k.vm w')
    (he : enlisted = true ↔
      .userdata k.userdata ∈ (w'.heap k.vm).finalizable ∧ .closed k.vm ∉ w.history) :
    Accounted ⟨w', .pushed k enlisted :: es⟩ := by
  have hret := w.instances_retain v
  have hheap := World.heap_congr hret.1
  have hclosed : ∀ j, .closed j ∈ w'.history ↔ .closed j ∈ w.history := fun j => by
    rw [hs.closed, hret.2]
  refine ⟨.pushed ha.orderly fun j hj h => ?_, ?_, fun hh y => ?_, fun j hj => ?_, fun j hj => ?_,
    fun j hj hc => ?_, fun i hi => ?_⟩
  · obtain ⟨hvm, hu⟩ := Prod.mk.inj h
    exact ha.free_place hg hj hvm hu
  · exact ha.carried_pushed hg fun i hi => hheap i ▸ hs.heaps i hi
  · have hpos : 0 < w.strong k.asset := ha.counted hh.2 k.asset ▸ hh.1
    rw [World.strong_congr hs.functions hs.foreigns, World.strong_retain hv hpos, claims_pushed,
      ha.counted hh.2]
  · have hlist := hs.listed (by rw [hheap]; exact hg.listed) j.vm
    rcases List.mem_cons.mp hj with rfl | hj
    · cases enlisted with
      | true => exact .inl (he.mp rfl).1
      | false => exact .inr (.inl (List.mem_cons_self ..))
    · have hjk := ha.ne_of_standing hg hj
      rcases ha.listed j hj with hl | hx | hw
      · exact .inl (hlist (hheap j.vm ▸ hl))
      · exact .inr (.inl ((mem_exempt_pushed hjk).mpr hx))
      · exact .inr (.inr (mem_waiting_pushed.mpr ⟨hw, hjk⟩))
  · have hcollecting := hs.collecting (by rw [hheap]; exact hg.collecting) j.vm
    exact hcollecting.trans ((hheap j.vm).symm ▸ ha.collecting j (mem_waiting_pushed.mp hj).1)
  · rcases List.mem_cons.mp hj with rfl | hj
    · cases enlisted with
      | true => exact absurd ((hclosed _).mp hc) (he.mp rfl).2
      | false => exact .inl (List.mem_cons_self ..)
    · have hjk := ha.ne_of_standing hg hj
      exact (ha.closed j hj ((hclosed _).mp hc)).imp (mem_exempt_pushed hjk).mpr fun hw =>
        mem_waiting_pushed.mpr ⟨hw, hjk⟩
  · have hclosing := hs.closing (by rw [hheap]; exact hg.closing) i
    exact (hclosed i).mpr (ha.closing i ((hheap i) ▸ hclosing.symm.trans hi))

end Push

theorem finalized (ha : Accounted ⟨w, es⟩) {p : Payload} (hp : p.asset? = some k.asset)
    (hs : w.Confines k.vm w') (he : (w.heap k.vm).Empties k.userdata p (w'.heap k.vm)) :
    Accounted ⟨w'.releasePayload p, .finalized k :: es⟩ := by
  obtain ⟨hinst, hhist⟩ := World.instances_releasePayload (w := w') p
  have hheap := World.heap_congr hinst
  have hk : k ∈ standing es := (ha.carried k).mpr (he.before.trans hp)
  have hmem : ∀ j, j ∈ standing (.finalized k :: es) ↔ j ≠ k ∧ j ∈ standing es := fun j =>
    ha.orderly.nodup.mem_erase_iff
  refine ⟨.finalized ha.orderly hk, fun j => ?_, fun hh y => ?_, fun j hj => ?_, fun j hj => ?_,
    fun j hj hc => ?_, fun i hi => ?_⟩
  · rw [hmem, hheap, ha.carried]
    by_cases hvm : j.vm = k.vm
    · rw [hvm, he.carried]
      by_cases hu : j.userdata = k.userdata
      · rw [if_pos hu, hu, he.before, hp]
        constructor
        · rintro ⟨hne, hx⟩
          exact absurd (Carrier.ext (Option.some.inj hx).symm hvm hu) hne
        · nofun
      · rw [if_neg hu]
        exact ⟨And.right, fun h => ⟨fun hjk => hu (hjk ▸ rfl), h⟩⟩
    · rw [(hs.heaps j.vm hvm).carried]
      exact ⟨And.right, fun h => ⟨fun hjk => hvm (hjk ▸ rfl), h⟩⟩
  · rw [World.strong_releasePayload hp, World.strong_congr hs.functions hs.foreigns, ha.counted hh,
      claims_finalized hk]
    dsimp only
    omega
  · obtain ⟨hjk, hj⟩ := (hmem j).mp hj
    have hlist := hs.listed he.listed j.vm
    rcases ha.listed j hj with hl | hx | hw
    · exact .inl (hheap j.vm ▸ hlist hl)
    · exact .inr (.inl hx)
    · exact .inr (.inr (mem_waiting_finalized.mpr ⟨hw, hjk⟩))
  · rw [hheap]
    exact (hs.collecting he.collecting j.vm).trans (ha.collecting j (mem_waiting_finalized.mp hj).1)
  · obtain ⟨hjk, hj⟩ := (hmem j).mp hj
    exact (ha.closed j hj ((hs.closed _).mp (hhist ▸ hc))).imp_right fun hw =>
      mem_waiting_finalized.mpr ⟨hw, hjk⟩
  · rw [hheap] at hi
    exact hhist ▸ (hs.closed i).mpr (ha.closing i ((hs.closing he.closing i).symm.trans hi))

/-- Where there is no interpreter no userdata stands. -/
theorem vm_of_standing (ha : Accounted ⟨w, es⟩) (hk : k ∈ standing es) : w.instances[k.vm]? ≠ none := by
  intro hnone
  have hcarried := (ha.carried k).mp hk
  unfold World.heap World.vm at hcarried
  rw [hnone] at hcarried
  cases hcarried

theorem vain (ha : Accounted ⟨w, es⟩) {v : Value} (hv : v.asset? = some k.asset)
    (hi : w.instances[k.vm]? = none) : Accounted ⟨w.retain v, .lost k :: .pushed k false :: es⟩ := by
  have hret := w.instances_retain v
  have hheap := World.heap_congr hret.1
  have hne : ∀ j ∈ standing es, j.vm ≠ k.vm := fun j hj hvm => ha.vm_of_standing hj (hvm ▸ hi)
  have hst : standing (.lost k :: .pushed k false :: es) = standing es := List.erase_cons_head ..
  have hw : ∀ j ∈ standing es, j ∈ waiting es → j ∈ waiting (.lost k :: .pushed k false :: es) := by
    intro j hj hw
    have hjk : j ≠ k := fun h => hne j hj (h ▸ rfl)
    exact List.mem_filter.mpr ⟨mem_waiting_pushed.mpr ⟨hw, hjk⟩, decide_eq_true hjk⟩
  have horderly : Orderly (.pushed k false :: es) :=
    .pushed ha.orderly fun j hj h => hne j hj (Prod.mk.inj h).1
  refine ⟨.lost horderly (List.mem_cons_self ..) (List.mem_cons_self ..), fun j => ?_, fun hh y => ?_,
    fun j hj => ?_, fun j hj => ?_, fun j hj hc => ?_, fun i hi => ?_⟩
  · rw [hst, hheap]
    exact ha.carried j
  · have hpos : 0 < w.strong k.asset := ha.counted hh.2 k.asset ▸ hh.1
    have hlost : claims (.lost k :: .pushed k false :: es) y = claims (.pushed k false :: es) y :=
      congrArg (owners es y + ·) (unfinalized_lost (List.mem_cons_self ..))
    dsimp only
    rw [World.strong_retain hv hpos, hlost, claims_pushed, ha.counted hh.2]
  · rw [hst] at hj
    rw [hheap]
    rcases ha.listed j hj with hl | hx | hwait
    · exact .inl hl
    · exact .inr (.inl (List.mem_cons_of_mem _ hx))
    · exact .inr (.inr (hw j hj hwait))
  · rw [hheap]
    exact ha.collecting j (mem_waiting_pushed.mp (List.mem_of_mem_filter hj)).1
  · rw [hst] at hj
    exact (ha.closed j hj (hret.2 ▸ hc)).imp (List.mem_cons_of_mem _) (hw j hj)
  · rw [hheap] at hi
    exact hret.2 ▸ ha.closing i hi

theorem missed (ha : Accounted ⟨w, es⟩) (hk : k ∈ waiting es) : Accounted ⟨w, .missed k :: es⟩ := by
  have hw : ∀ j, j ∈ waiting es → j ∈ exempt (.missed k :: es) ∨ j ∈ waiting (.missed k :: es) := by
    intro j hj
    by_cases hjk : j = k
    · exact .inl (hjk ▸ List.mem_cons_self ..)
    · exact .inr (List.mem_filter.mpr ⟨hj, decide_eq_true hjk⟩)
  refine ⟨.missed ha.orderly hk, ha.carried, ha.counted, fun j hj => ?_,
    fun j hj => ha.collecting j (List.mem_of_mem_filter hj), fun j hj hc => ?_, ha.closing⟩
  · rcases ha.listed j hj with hl | hx | hwait
    · exact .inl hl
    · exact .inr (.inl (List.mem_cons_of_mem _ hx))
    · exact .inr (hw j hwait)
  · rcases ha.closed j hj hc with hx | hwait
    · exact .inl (List.mem_cons_of_mem _ hx)
    · exact hw j hwait

/-- Several turns pass. -/
theorem overtaken (ha : Accounted ⟨w, es⟩) {misses : List Carrier} (hn : misses.Nodup)
    (hm : ∀ k ∈ misses, k ∈ waiting es) : Accounted ⟨w, misses.map .missed ++ es⟩ := by
  induction misses with
  | nil => exact ha
  | cons k ks ih =>
    obtain ⟨hnew, hn⟩ := List.nodup_cons.mp hn
    obtain ⟨hfirst, hrest⟩ := List.forall_mem_cons.mp hm
    exact (ih hn hrest).missed ((mem_waiting_missed ks).mpr ⟨hfirst, hnew⟩)

variable {i : Nat} {dues losts misses : List Carrier}

section Sweep

variable {lost : List Val} (ha : Accounted ⟨w, es⟩) (hh : (w.heap i).Sweeps lost (w'.heap i))
  (hd : ∀ k, k ∈ dues ↔ k ∈ standing es ∧ k.vm = i ∧ .userdata k.userdata ∈ lost)
  (hl : ∀ k, k ∈ losts ↔ k ∈ standing es ∧ k.vm = i ∧ (w'.heap i).carried? k.userdata = none)

include ha hh

include hl in
/-- What is freed was not listed, and the engine was not at it, as it was not collecting. -/
theorem exempt_of_lost (hb : (w.heap i).collecting = false) (hk : k ∈ losts) : k ∈ exempt es := by
  obtain ⟨hst, rfl, hnone⟩ := (hl k).mp hk
  rcases ha.listed k hst with hlist | hx | hw
  · have hcarried := (hh.spared k.userdata hlist).trans ((ha.carried k).mp hst)
    rw [hnone] at hcarried
    cases hcarried
  · exact hx
  · have hbusy := ha.collecting k hw
    rw [hb] at hbusy
    cases hbusy

include hl in
/-- What stands and is not freed carries what it carried. -/
theorem carried_swept (hs : w.Confines i w') :
    k ∈ standing es ∧ k ∉ losts ↔ (w'.heap k.vm).carried? k.userdata = some k.asset := by
  rw [hl]
  by_cases hvm : k.vm = i
  · subst hvm
    rcases hh.carried k.userdata with hsame | hnone
    · rw [hsame, ← ha.carried]
      refine ⟨And.left, fun h => ⟨h, fun hlost => ?_⟩⟩
      have hcarried := (ha.carried k).mp h
      rw [hlost.2.2] at hcarried
      cases hcarried
    · simp [hnone]
  · rw [(hs.heaps k.vm hvm).carried, ← ha.carried]
    simp [hvm]

include hd in
theorem listed_swept (hs : w.Confines i w') (hk : k ∈ standing es) :
    .userdata k.userdata ∈ (w'.heap k.vm).finalizable ∨ k ∈ exempt es ∨ k ∈ dues ∨ k ∈ waiting es := by
  rcases ha.listed k hk with hlist | hex | hwait
  · by_cases hvm : k.vm = i
    · subst hvm
      rcases hh.listed _ hlist with hlist | hlost
      · exact .inl hlist
      · exact .inr (.inr (.inl ((hd k).mpr ⟨hk, rfl, hlost⟩)))
    · exact .inl ((hs.heaps k.vm hvm).listed hlist)
  · exact .inr (.inl hex)
  · exact .inr (.inr (.inr hwait))

include hd hl in
theorem swept (hs : w.Confines i w') (hb : (w.heap i).collecting = false)
    (hc : (w'.heap i).collecting = true) (hn : losts.Nodup) :
    Accounted ⟨w', losts.map .lost ++ (dues.map .due ++ es)⟩ := by
  have hdues : Orderly (dues.map .due ++ es) := ha.orderly.dues fun k hk => ((hd k).mp hk).1
  have horderly : Orderly (losts.map .lost ++ (dues.map .due ++ es)) := hdues.losses hn fun k hk =>
    ⟨(standing_due dues).symm ▸ ((hl k).mp hk).1,
      (exempt_due dues).symm ▸ exempt_of_lost ha hh hl hb hk⟩
  refine ⟨horderly, fun k => ?_, fun hhonest y => ?_, fun k hk => ?_, fun k hk => ?_, fun k hk hcl => ?_,
    fun j hj => ?_⟩
  · exact (mem_standing_swept hdues).trans (carried_swept ha hh hl hs)
  · obtain ⟨hsame, hclaims⟩ := horderly.aside (losts.map .lost) (by simp [IsAside])
    obtain ⟨hsame', hclaims'⟩ := hdues.aside (dues.map .due) (by simp [IsAside])
    dsimp only
    rw [World.strong_congr hs.functions hs.foreigns, hclaims, hclaims',
      ha.counted (hsame'.mp (hsame.mp hhonest))]
  · obtain ⟨hstand, hnot⟩ := (mem_standing_swept hdues).mp hk
    dsimp only
    rw [exempt_lost, exempt_due, mem_waiting_swept]
    exact (listed_swept ha hh hd hs hstand).imp_right (Or.imp_right fun h => ⟨h, hnot⟩)
  · obtain ⟨hk, -⟩ := mem_waiting_swept.mp hk
    by_cases hvm : k.vm = i
    · exact hvm ▸ hc
    · have hwait := hk.resolve_left fun h => hvm ((hd k).mp h).2.1
      exact (hs.heaps k.vm hvm).collecting.trans (ha.collecting k hwait)
  · obtain ⟨hstand, hnot⟩ := (mem_standing_swept hdues).mp hk
    dsimp only
    rw [exempt_lost, exempt_due, mem_waiting_swept]
    exact (ha.closed k hstand ((hs.closed _).mp hcl)).imp_right fun hwait => ⟨.inr hwait, hnot⟩
  · exact (hs.closed j).mpr (ha.closing j ((hs.closing hh.closing j).symm.trans hj))

end Sweep

theorem settled (ha : Accounted ⟨w, es⟩) (hs : w.Confines i w')
    (hc : ∀ n, (w'.heap i).carried? n = (w.heap i).carried? n)
    (hf : (w.heap i).finalizable ⊆ (w'.heap i).finalizable)
    (hl : (w'.heap i).closing = (w.heap i).closing) (hw : ∀ k ∈ waiting es, k.vm ≠ i) :
    Accounted ⟨w', es⟩ := by
  have hcarried := hs.all (P := fun h h' => ∀ n, h'.carried? n = h.carried? n) (fun h => h.carried) hc
  refine ⟨ha.orderly, fun k => ?_, fun hh y => ?_, fun k hk => ?_, fun k hk => ?_, fun k hk hcl => ?_,
    fun j hj => ?_⟩
  · rw [hcarried]
    exact ha.carried k
  · exact (World.strong_congr hs.functions hs.foreigns y).trans (ha.counted hh y)
  · exact (ha.listed k hk).imp_left fun h => hs.listed hf k.vm h
  · exact (hs.heaps k.vm (hw k hk)).collecting.trans (ha.collecting k hk)
  · exact ha.closed k hk ((hs.closed _).mp hcl)
  · exact (hs.closed j).mpr (ha.closing j ((hs.closing hl j).symm.trans hj))

theorem closes (ha : Accounted ⟨w, es⟩) (hs : ∀ j, j ≠ i → (w.heap j).Carries (w'.heap j))
    (hf : w'.functions = w.functions) (ho : w'.foreigns = w.foreigns)
    (hh : ∀ j, .closed j ∈ w'.history ↔ j = i ∨ .closed j ∈ w.history)
    (hc : ∀ n, (w'.heap i).carried? n = (w.heap i).carried? n)
    (hb : ∀ k ∈ standing es, k.vm = i → (w'.heap i).collecting = true)
    (hd : ∀ k, k ∈ dues ↔
      k ∈ standing es ∧ k.vm = i ∧ .userdata k.userdata ∈ (w.heap i).finalizable) :
    Accounted ⟨w', dues.map .due ++ es⟩ := by
  have horderly : Orderly (dues.map .due ++ es) := ha.orderly.dues fun k hk => ((hd k).mp hk).1
  have hw : ∀ k, k ∈ waiting (dues.map .due ++ es) ↔ k ∈ dues ∨ k ∈ waiting es := fun k => by
    rw [waiting_due, List.mem_append]
  refine ⟨horderly, fun k => ?_, fun hhonest y => ?_, fun k hk => ?_, fun k hk => ?_, fun k hk hcl => ?_,
    fun j hj => ?_⟩
  · dsimp only
    rw [standing_due, ha.carried]
    by_cases hvm : k.vm = i
    · rw [hvm, hc]
    · rw [(hs k.vm hvm).carried]
  · obtain ⟨hsame, hclaims⟩ := horderly.aside (dues.map .due) (by simp [IsAside])
    dsimp only
    rw [World.strong_congr hf ho, hclaims, ha.counted (hsame.mp hhonest)]
  · dsimp only at hk ⊢
    rw [standing_due] at hk
    rw [exempt_due, hw]
    rcases ha.listed k hk with hlist | hx | hwait
    · by_cases hvm : k.vm = i
      · subst hvm
        exact .inr (.inr (.inl ((hd k).mpr ⟨hk, rfl, hlist⟩)))
      · exact .inl ((hs k.vm hvm).listed hlist)
    · exact .inr (.inl hx)
    · exact .inr (.inr (.inr hwait))
  · have hstand := horderly.standing_of_waiting hk
    rw [standing_due] at hstand
    by_cases hvm : k.vm = i
    · exact hvm ▸ hb k hstand hvm
    · have hwait := ((hw k).mp hk).resolve_left fun h => hvm ((hd k).mp h).2.1
      exact (hs k.vm hvm).collecting.trans (ha.collecting k hwait)
  · dsimp only at hk ⊢
    rw [standing_due] at hk
    rw [exempt_due, hw]
    by_cases hvm : k.vm = i
    · subst hvm
      rcases ha.listed k hk with hlist | hx | hwait
      · exact .inr (.inl ((hd k).mpr ⟨hk, rfl, hlist⟩))
      · exact .inl hx
      · exact .inr (.inr hwait)
    · exact (ha.closed k hk (((hh _).mp hcl).resolve_left hvm)).imp_right .inr
  · by_cases hji : j = i
    · exact (hh j).mpr (.inl hji)
    · exact (hh j).mpr (.inr (ha.closing j ((hs j hji).closing.symm.trans hj)))

theorem freed (ha : Accounted ⟨w, es⟩) (hs : w.Confines i w') (hc : ∀ n, (w'.heap i).carried? n = none)
    (hh : .closed i ∈ w.history) (hw : ∀ k ∈ waiting es, k.vm ≠ i)
    (hl : ∀ k, k ∈ losts ↔ k ∈ standing es ∧ k.vm = i) (hn : losts.Nodup) :
    Accounted ⟨w', losts.map .lost ++ es⟩ := by
  -- The interpreter has been closed, and none of those that were to be finalized then waits any more.
  have hexempt : ∀ k ∈ losts, k ∈ standing es ∧ k ∈ exempt es := by
    intro k hk
    obtain ⟨hst, rfl⟩ := (hl k).mp hk
    exact ⟨hst, (ha.closed k hst hh).resolve_right fun hwait => hw k hwait rfl⟩
  have horderly : Orderly (losts.map .lost ++ es) := ha.orderly.losses hn hexempt
  have hst : ∀ k, k ∈ standing (losts.map .lost ++ es) ↔ k ∈ standing es ∧ k.vm ≠ i := fun k => by
    rw [(mem_standing_lost losts ha.orderly.nodup).2, hl]
    tauto
  have hwait : ∀ k, k ∈ waiting (losts.map .lost ++ es) ↔ k ∈ waiting es := fun k => by
    rw [mem_waiting_lost, hl]
    have hout := hw k
    tauto
  refine ⟨horderly, fun k => ?_, fun hhonest y => ?_, fun k hk => ?_, fun k hk => ?_, fun k hk hcl => ?_,
    fun j hj => ?_⟩
  · rw [hst]
    by_cases hvm : k.vm = i
    · rw [hvm, hc]
      simp
    · rw [(hs.heaps k.vm hvm).carried, ← ha.carried]
      simp [hvm]
  · obtain ⟨hsame, hclaims⟩ := horderly.aside (losts.map .lost) (by simp [IsAside])
    dsimp only
    rw [World.strong_congr hs.functions hs.foreigns, hclaims, ha.counted (hsame.mp hhonest)]
  · obtain ⟨hstand, hvm⟩ := (hst k).mp hk
    dsimp only
    rw [exempt_lost, hwait]
    exact (ha.listed k hstand).imp_left fun hlist => (hs.heaps k.vm hvm).listed hlist
  · have hk := (hwait k).mp hk
    exact (hs.heaps k.vm (hw k hk)).collecting.trans (ha.collecting k hk)
  · dsimp only
    rw [exempt_lost, hwait]
    exact ha.closed k ((hst k).mp hk).1 ((hs.closed _).mp hcl)
  · refine (hs.closed j).mpr ?_
    by_cases hji : j = i
    · exact hji ▸ hh
    · exact ha.closing j ((hs.heaps j hji).closing.symm.trans hj)

end Account.Accounted

/-- After every entry the account is right. -/
theorem Entry.accounted {a b : Account σ μ} (h : Entry a b) (ha : a.Accounted) : b.Accounted := by
  cases h with
  | still h => exact ha.still h
  | madeForeign payload =>
    exact ha.made rfl rfl fun y => (World.strong_newForeign payload y).2
  | madeFunction shape code =>
    exact ha.made rfl rfl fun y => (World.strong_newFunction shape code y).2
  | kept hv => exact ha.kept hv
  | dropped hv => exact ha.dropped hv
  | pushed hv hs hg he => exact ha.pushed hg hv hs he
  | vain hv hi => exact ha.vain hv hi
  | finalized hp hs he => exact ha.finalized hp hs he
  | missed hk hc hb => exact ha.missed hk
  | swept hs hh hb hc hd hl hn => exact ha.swept hh hd hl hs hb hc hn
  | settled hs hc hf hl hw => exact ha.settled hs hc hf hl hw
  | closing hs hf ho hh hc hb hd hm hn =>
    have hovertaken := ha.overtaken hn fun k hk => ((hm k).mp hk).1
    refine hovertaken.closes hs hf ho hh hc (fun k hk => ?_) fun k => ?_
    · exact hb k (standing_missed _ ▸ hk)
    · rw [standing_missed, hd]
  | freed hs hc hh hw hl hn => exact ha.freed hs hc hh hw hl hn

/-- Where a userdata is the first that is not to be finalized, or misses its turn, there is a reason
for it. -/
theorem Entry.excused {a b : Account σ μ} (h : Entry a b) (ha : a.Accounted) (hs : Served a.events)
    (hn : ¬ Served b.events) : ∃ k, a.world.Excuses b.world k := by
  simp only [Served, not_forall, not_and_or, not_not] at hn
  obtain ⟨k, hk⟩ := hn
  refine ⟨k, ?_⟩
  obtain ⟨hpushed, hmissed⟩ := hs k
  cases h with
  | still | settled => exact (hk.elim hpushed hmissed).elim
  | @pushed w w' es v j enlisted hv hc hg he =>
    have hnew : k = j ∧ enlisted = false := by
      rcases hk with hk | hk
      · rcases List.mem_cons.mp hk with hk | hk
        · obtain ⟨hk, he⟩ := Owning.pushed.inj hk
          exact ⟨hk, he.symm⟩
        · exact absurd hk hpushed
      · exact absurd (List.mem_of_ne_of_mem (by nofun) hk) hmissed
    obtain ⟨rfl, rfl⟩ := hnew
    rcases hg.enrolled with hin | hclosing | hnil
    · exact .late (by_contra fun hopen => Bool.false_ne_true (he.mpr ⟨hin, hopen⟩))
    · exact .late (ha.closing k.vm hclosing)
    · exact .bare hnil
  | @vain w es v j hv hi =>
    have hnew : k = j := by
      rcases hk with hk | hk
      · rcases List.mem_cons.mp (List.mem_of_ne_of_mem (by nofun) hk) with hk | hk
        · exact (Owning.pushed.inj hk).1
        · exact absurd hk hpushed
      · exact absurd (List.mem_of_ne_of_mem (by nofun) (List.mem_of_ne_of_mem (by nofun) hk)) hmissed
    exact .nowhere (hnew ▸ hi)
  | @missed w es j c hj hc hb =>
    have hnew : k = j := by
      rcases hk with hk | hk
      · exact absurd (List.mem_of_ne_of_mem (by nofun) hk) hpushed
      · rcases List.mem_cons.mp hk with hk | hk
        · exact Owning.missed.inj hk
        · exact absurd hk hmissed
    exact .balked c (hnew ▸ hc) (hnew ▸ hb)
  | @closing w w' es i dues misses hs hf ho hh hc hb hd hm hn =>
    have hnew : k ∈ misses := by
      rcases hk with hk | hk
      · exact absurd (by simpa using hk) hpushed
      · have hk' : k ∈ misses ∨ .missed k ∈ es := by simpa using hk
        exact hk'.resolve_right hmissed
    obtain ⟨hwait, rfl⟩ := (hm k).mp hnew
    exact .overtaken (ha.collecting k hwait) ((hh k.vm).mpr (.inl rfl))
  | _ =>
    exact (hk.elim (fun hk => hpushed (by simpa using hk)) fun hk => hmissed (by simpa using hk)).elim

/-- What has been closed stays so. -/
theorem Entry.closed {a b : Account σ μ} (h : Entry a b) {i : Nat} (hi : .closed i ∈ a.world.history) :
    .closed i ∈ b.world.history := by
  have hsame : ∀ {w w' : World σ μ}, w'.history = w.history →
      .closed i ∈ w.history → .closed i ∈ w'.history := fun h => by rw [h]; exact id
  cases h with
  | still h => exact (h.closed i).mpr hi
  | kept | vain => exact hsame (World.instances_retain _ _).2 hi
  | dropped hv => exact hsame (World.instances_release hv).2 hi
  | pushed _ hs => exact (hs.closed i).mpr (hsame (World.instances_retain _ _).2 hi)
  | finalized _ hs => exact hsame (World.instances_releasePayload _).2 ((hs.closed i).mpr hi)
  | swept hs | settled hs | freed hs => exact (hs.closed i).mpr hi
  | closing _ _ _ hh => exact (hh i).mpr (.inr hi)
  | _ => exact hi

/-- One entry after the other. -/
abbrev Chronicle : Account σ μ → Account σ μ → Prop := Relation.ReflTransGen Entry

theorem Chronicle.closed {a b : Account σ μ} (h : Chronicle a b) {i : Nat}
    (hi : .closed i ∈ a.world.history) : .closed i ∈ b.world.history := by
  induction h with
  | refl => exact hi
  | tail _ ht ih => exact ht.closed ih

theorem Chronicle.accounted {a b : Account σ μ} (h : Chronicle a b) (ha : a.Accounted) : b.Accounted := by
  induction h with
  | refl => exact ha
  | tail _ ht ih => exact ht.accounted ih

/-- Unless there was a reason on the way, every userdata that has been pushed was to be finalized, and has not
missed its turn. -/
theorem Chronicle.excused {a b : Account σ μ} (h : Chronicle a b) (ha : a.Accounted) (hs : Served a.events)
    (hn : ¬ Served b.events) :
    ∃ u v k, Chronicle a u ∧ Entry u v ∧ Chronicle v b ∧ u.world.Excuses v.world k := by
  induction h with
  | refl => exact absurd hs hn
  | @tail b c hb ht ih =>
    by_cases hserved : Served b.events
    · obtain ⟨k, hk⟩ := ht.excused (Chronicle.accounted hb ha) hserved hn
      exact ⟨b, c, k, hb, ht, .refl, hk⟩
    · obtain ⟨u, v, k, hu, hv, hrest, hk⟩ := ih hserved
      exact ⟨u, v, k, hu, hv, hrest.tail ht, hk⟩

end LuaEmbed
