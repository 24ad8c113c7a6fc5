import Floodgate.Proofs.Replication.Section
/-!
# Floodgate.Proofs.Replication.Sound

**What every section keeps.** `Sound` holds of a replicator that starts, and each section keeps it
(`Sound.step`). It says that names are unique and numbers are fresh, that a call in progress holds
its lane, and, at its heart (`live`), that a delivery which has not been cancelled is the pending
one of its key, delivers the latest write of the key, and waits on the lane of the entry. The
converse is not part of it: a pending mark can outlive its delivery when the delivery has been shut
down or its lease would end beyond the calendar.

Two consequences carry the theory of calls. A call that starts calls the latest write of its key
(`Sound.current_of_call`), and the calls in progress on one lane are one call (`holds_unique`).

Each part-changing function keeps `Sound` under a condition of its own; where a section releases a
lane before it ends the delivery that held it, the order of the two is exchanged first, since the
state between them is not sound.
-/

namespace Floodgate.Replicator

variable {α : Type}

/-- What holds of a replicator between sections. -/
structure Sound (r : Replicator α) : Prop where
  /-- Each key has one entry. -/
  keys : (r.entries.map (·.key)).Nodup
  /-- Each generation has one delivery. -/
  generations : (r.deliveries.map (·.generation)).Nodup
  /-- Each number has one renewal. -/
  numbers : (r.renewals.map (·.number)).Nodup
  /-- The next generation is new to deliveries. -/
  generation_lt : ∀ d ∈ r.deliveries, d.generation < r.nextGeneration
  /-- The next generation is new to pending marks. -/
  pending_lt : ∀ key p, r.pendingOf key = some p → p.generation < r.nextGeneration
  /-- The next number is new to renewals. -/
  number_lt : ∀ n ∈ r.renewals, n.number < r.nextRenewal
  /-- A delivery that calls holds its lane. -/
  calling : ∀ d ∈ r.deliveries, d.stage = .calling →
    r.holds d.lane (.delivery d.generation) = true
  /-- A renewal that calls holds its lane. -/
  renewing : ∀ n ∈ r.renewals, n.calling = true → r.holds n.lane (.renewal n.number) = true
  /-- A delivery that has not been cancelled delivers the latest write of its key. -/
  live : ∀ d ∈ r.deliveries, d.cancelled = false →
    ∃ e, r.entryFor? d.key = some e ∧ e.current = d.action ∧ e.lane = d.lane ∧
      e.pending = some ⟨d.generation, true⟩

/-! ### Reading it off -/

theorem Sound.start (plan : ReplicationPlan) (now : Int) :
    Sound (Replicator.start plan now : Replicator α) := by
  constructor <;> simp [Replicator.start, pendingOf, entryFor?]

section Reading

variable {r : Replicator α}

theorem Sound.entryFor?_of_mem (h : Sound r) {e : ReplicationEntry α} (he : e ∈ r.entries) :
    r.entryFor? e.key = some e :=
  (Keyed.find?_eq_some_iff h.keys).mpr ⟨he, rfl⟩

theorem Sound.delivery?_of_mem (h : Sound r) {d : Delivery α} (hd : d ∈ r.deliveries) :
    r.delivery? d.generation = some d :=
  (Keyed.find?_eq_some_iff h.generations).mpr ⟨hd, rfl⟩

theorem Sound.renewal?_of_mem (h : Sound r) {n : Renewal} (hn : n ∈ r.renewals) :
    r.renewal? n.number = some n :=
  (Keyed.find?_eq_some_iff h.numbers).mpr ⟨hn, rfl⟩

theorem Sound.eq_of_generation (h : Sound r) {d d' : Delivery α} (hd : d ∈ r.deliveries)
    (hd' : d' ∈ r.deliveries) (hg : d.generation = d'.generation) : d = d' :=
  Keyed.eq_of_key_eq h.generations hd hd' hg

theorem Sound.eq_of_number (h : Sound r) {n n' : Renewal} (hn : n ∈ r.renewals)
    (hn' : n' ∈ r.renewals) (hi : n.number = n'.number) : n = n' :=
  Keyed.eq_of_key_eq h.numbers hn hn' hi

/-- A delivery that has not been cancelled is the one that the mark of its key names. -/
theorem Sound.pendingOf_of_live (h : Sound r) {d : Delivery α} (hd : d ∈ r.deliveries)
    (hcancelled : d.cancelled = false) : r.pendingOf d.key = some ⟨d.generation, true⟩ := by
  obtain ⟨e, he, -, -, hpending⟩ := h.live d hd hcancelled
  rw [pendingOf, he]
  exact hpending

end Reading

/-! ### Parts that do not matter -/

/-- Soundness reads only the parts named here. -/
theorem Sound.congr {r r' : Replicator α} (h : Sound r) (hentries : r'.entries = r.entries)
    (hdeliveries : r'.deliveries = r.deliveries) (hrenewals : r'.renewals = r.renewals)
    (hclaims : r'.claims = r.claims) (hgeneration : r'.nextGeneration = r.nextGeneration)
    (hrenewal : r'.nextRenewal = r.nextRenewal) : Sound r' := by
  have hentry : ∀ k, r'.entryFor? k = r.entryFor? k := fun k => by simp only [entryFor?, hentries]
  have hholds : ∀ l c, r'.holds l c = r.holds l c := fun l c => by simp only [holds, hclaims]
  constructor
  · rw [hentries]; exact h.keys
  · rw [hdeliveries]; exact h.generations
  · rw [hrenewals]; exact h.numbers
  · rw [hdeliveries, hgeneration]; exact h.generation_lt
  · simp only [pendingOf, hentry, hgeneration]; exact h.pending_lt
  · rw [hrenewals, hrenewal]; exact h.number_lt
  · rw [hdeliveries]; simp only [hholds]; exact h.calling
  · rw [hrenewals]; simp only [hholds]; exact h.renewing
  · rw [hdeliveries]; simp only [hentry]; exact h.live

/-! ### Dropping -/

theorem Sound.dropDeliveries {r : Replicator α} (h : Sound r) (p : Delivery α → Bool) :
    Sound { r with deliveries := r.deliveries.filter p } where
  keys := h.keys
  generations := Keyed.nodup_filter h.generations
  numbers := h.numbers
  generation_lt d hd := h.generation_lt d (List.mem_filter.mp hd).1
  pending_lt := h.pending_lt
  number_lt := h.number_lt
  calling d hd := h.calling d (List.mem_filter.mp hd).1
  renewing := h.renewing
  live d hd := h.live d (List.mem_filter.mp hd).1

theorem Sound.dropRenewals {r : Replicator α} (h : Sound r) (p : Renewal → Bool) :
    Sound { r with renewals := r.renewals.filter p } where
  keys := h.keys
  generations := h.generations
  numbers := Keyed.nodup_filter h.numbers
  generation_lt := h.generation_lt
  pending_lt := h.pending_lt
  number_lt n hn := h.number_lt n (List.mem_filter.mp hn).1
  calling := h.calling
  renewing n hn := h.renewing n (List.mem_filter.mp hn).1
  live := h.live

/-- Claims can be dropped as long as they are not those of a call in progress. -/
theorem Sound.dropClaims {r : Replicator α} (h : Sound r) (p : LaneClaim → Bool)
    (hcalling : ∀ d ∈ r.deliveries, d.stage = .calling → ∀ c : LaneClaim,
      c.caller = .delivery d.generation → p c = true)
    (hrenewing : ∀ n ∈ r.renewals, n.calling = true → ∀ c : LaneClaim,
      c.caller = .renewal n.number → p c = true) :
    Sound { r with claims := r.claims.filter p } where
  keys := h.keys
  generations := h.generations
  numbers := h.numbers
  generation_lt := h.generation_lt
  pending_lt := h.pending_lt
  number_lt := h.number_lt
  calling d hd hstage := holds_filter rfl (hcalling d hd hstage) (h.calling d hd hstage)
  renewing n hn hn' := holds_filter rfl (hrenewing n hn hn') (h.renewing n hn hn')
  live := h.live

/-- A delivery that does not call can let go of its lane. -/
theorem Sound.release_delivery {r : Replicator α} (h : Sound r) {g : Nat}
    (hg : ∀ d ∈ r.deliveries, d.generation = g → d.stage ≠ .calling) :
    Sound (r.release (.delivery g)) := by
  refine h.dropClaims _ ?_ ?_
  · intro d hd hstage c hc
    have hne : d.generation ≠ g := fun hdg => hg d hd hdg hstage
    simp [hc, hne]
  · intro n _ _ c hc
    simp [hc]

theorem Sound.finish {r : Replicator α} (h : Sound r) (g : Nat) : Sound (r.finish g) :=
  (h.dropDeliveries fun d => decide (d.generation ≠ g)).release_delivery
    fun _ hd hg => absurd hg (of_decide_eq_true (List.mem_filter.mp hd).2)

theorem Sound.finishRenewal {r : Replicator α} (h : Sound r) (i : Nat) :
    Sound (r.finishRenewal i) := by
  refine (h.dropRenewals fun n => decide (n.number ≠ i)).dropClaims
    (fun c => decide (c.caller ≠ .renewal i)) ?_ ?_
  · intro d _ _ c hc
    simp [hc]
  · intro n hn _ c hc
    have hne : n.number ≠ i := of_decide_eq_true (List.mem_filter.mp hn).2
    simp [hc, hne]

theorem Sound.stopRenewals {r : Replicator α} (h : Sound r) : Sound r.stopRenewals := by
  have hdropped := (h.dropRenewals fun _ => false).dropClaims
    (fun c => decide (c.caller ∉ (r.renewals.map (·.number)).map Caller.renewal)) ?_ ?_
  · exact hdropped.congr rfl rfl (by simp [Replicator.stopRenewals]) rfl rfl rfl
  · intro d _ _ c hc
    simp [hc]
  · intro n hn
    simp at hn

theorem Sound.drop {r : Replicator α} (h : Sound r) (generations : List Nat) :
    Sound (r.drop generations) := by
  have hdropped := (h.dropDeliveries fun d => decide (d.generation ∉ generations)).dropClaims
    (fun c => decide (c.caller ∉ generations.map Caller.delivery)) ?_ ?_
  · exact hdropped.congr rfl rfl rfl rfl rfl rfl
  · intro d hd _ c hc
    have hout : d.generation ∉ generations := of_decide_eq_true (List.mem_filter.mp hd).2
    simpa [hc] using hout
  · intro n _ _ c hc
    simp [hc]

theorem Sound.stopRecovery {r : Replicator α} (h : Sound r) : Sound r.stopRecovery :=
  (h.drop r.recovering).congr rfl rfl rfl rfl rfl rfl

theorem Sound.perish {r : Replicator α} (h : Sound r) (g : Nat) : Sound (r.perish g) := by
  obtain ⟨generations, _, _, -, hperish⟩ := r.perish_eq_drop g
  rw [hperish]
  exact (h.drop generations).congr rfl rfl rfl rfl rfl rfl

/-! ### Changing a delivery or a renewal -/

/-- Claims can be added at any time. -/
theorem Sound.claims {r : Replicator α} (h : Sound r) (more : List LaneClaim) :
    Sound { r with claims := r.claims ++ more } where
  keys := h.keys
  generations := h.generations
  numbers := h.numbers
  generation_lt := h.generation_lt
  pending_lt := h.pending_lt
  number_lt := h.number_lt
  calling d hd hstage := holds_append rfl (h.calling d hd hstage)
  renewing n hn hn' := holds_append rfl (h.renewing n hn hn')
  live := h.live

/-- A delivery may move to another stage, to that of calling if it holds its lane. -/
theorem Sound.updateDelivery {r : Replicator α} (h : Sound r) {g : Nat}
    {f : Delivery α → Delivery α}
    (hf : ∀ d, f d = { d with failures := (f d).failures, stage := (f d).stage })
    (hcalling : ∀ d ∈ r.deliveries, d.generation = g → (f d).stage = .calling →
      r.holds d.lane (.delivery g) = true) :
    Sound (r.updateDelivery g f) where
  keys := h.keys
  generations := by
    have hg : ∀ d, (f d).generation = d.generation := fun d => by rw [hf]
    exact (Keyed.map_key_map fun d => Keyed.key_ite hg d).symm ▸ h.generations
  numbers := h.numbers
  generation_lt d hd := by
    obtain ⟨d₀, hd₀, rfl⟩ := mem_updateDelivery.mp hd
    have hlt := h.generation_lt d₀ hd₀
    split
    · rw [hf]; exact hlt
    · exact hlt
  pending_lt := h.pending_lt
  number_lt := h.number_lt
  calling d hd hstage := by
    obtain ⟨d₀, hd₀, rfl⟩ := mem_updateDelivery.mp hd
    by_cases hg : d₀.generation = g
    · rw [if_pos hg] at hstage ⊢
      have hholds := hcalling d₀ hd₀ hg hstage
      rw [hf, hg]
      exact hholds
    · rw [if_neg hg] at hstage ⊢
      exact h.calling d₀ hd₀ hstage
  renewing := h.renewing
  live d hd hcancelled := by
    obtain ⟨d₀, hd₀, rfl⟩ := mem_updateDelivery.mp hd
    by_cases hg : d₀.generation = g
    · rw [if_pos hg] at hcancelled ⊢
      rw [hf] at hcancelled ⊢
      exact h.live d₀ hd₀ hcancelled
    · rw [if_neg hg] at hcancelled ⊢
      exact h.live d₀ hd₀ hcancelled

/-- The delivery of a generation ends, and what has become of it is noted at its key. -/
theorem Sound.settle {r : Replicator α} (h : Sound r) {g : Nat} (key : String)
    {p : Option Pending} (hp : ∀ q, p = some q → q.generation = g)
    (hg : g < r.nextGeneration) : Sound ((r.updateEntry key (settled g p)).finish g) where
  keys := (keys_updateEntry r (f := settled g p) (settled_key g p)).symm ▸ h.keys
  generations := (h.finish g).generations
  numbers := h.numbers
  generation_lt := (h.finish g).generation_lt
  pending_lt k q hq := by
    have hentry := r.entryFor?_updateEntry key (settled_key g p) k
    change ((r.updateEntry key (settled g p)).entryFor? k).bind (·.pending) = some q at hq
    rw [hentry] at hq
    by_cases hk : k = key
    · rw [if_pos hk] at hq
      obtain ⟨e, he, hq⟩ := Option.bind_eq_some_iff.mp hq
      obtain ⟨e₀, he₀, rfl⟩ := Option.map_eq_some_iff.mp he
      by_cases hown : e₀.pending.map (·.generation) = some g
      · rw [settled_of_eq hown] at hq
        exact (hp q hq).symm ▸ hg
      · rw [settled_of_ne hown] at hq
        exact h.pending_lt k q (by rw [pendingOf, he₀]; exact hq)
    · rw [if_neg hk] at hq
      exact h.pending_lt k q hq
  number_lt := h.number_lt
  calling := (h.finish g).calling
  renewing := (h.finish g).renewing
  live d hd hcancelled := by
    obtain ⟨hd, hne⟩ := mem_finish.mp hd
    obtain ⟨e, he, hcurrent, hlane, hpending⟩ := h.live d hd hcancelled
    have hentry := r.entryFor?_updateEntry key (settled_key g p) d.key
    refine ⟨e, hentry.trans ?_, hcurrent, hlane, hpending⟩
    have hother : e.pending.map (·.generation) ≠ some g := by simp [hpending, hne]
    rw [he, Option.map_some, settled_of_ne hother, ite_self]

theorem Sound.renewing_update {r : Replicator α} (h : Sound r) {i : Nat}
    (hholds : ∀ n ∈ r.renewals, n.number = i → r.holds n.lane (.renewal i) = true) :
    Sound { r with renewals := r.renewals.map fun m =>
      if m.number = i then Replicator.renewing m else m } where
  keys := h.keys
  generations := h.generations
  numbers := (Keyed.map_key_map (f := Renewal.number)
    fun n => Keyed.key_ite (f := Renewal.number) (g := Replicator.renewing)
      (fun _ => rfl) n).symm ▸ h.numbers
  generation_lt := h.generation_lt
  pending_lt := h.pending_lt
  number_lt n hn := by
    obtain ⟨n₀, hn₀, rfl⟩ := List.mem_map.mp hn
    have hlt := h.number_lt n₀ hn₀
    split <;> exact hlt
  calling := h.calling
  renewing n hn hcalling := by
    obtain ⟨n₀, hn₀, rfl⟩ := List.mem_map.mp hn
    by_cases hi : n₀.number = i
    · rw [if_pos hi]
      have hlane := hholds n₀ hn₀ hi
      exact hi ▸ hlane
    · rw [if_neg hi] at hcalling ⊢
      exact h.renewing n₀ hn₀ hcalling
  live := h.live

/-! ### Registering, forgetting, renewing -/

/-- After the pending delivery of a key has been withdrawn, none of its deliveries is left that has
not been cancelled. -/
theorem Sound.key_ne_of_withdrawn {r : Replicator α} (h : Sound r) {key : String}
    {d : Delivery α} (hd : d ∈ r.deliveries)
    (hcancelled : (withdrawn (r.pendingOf key) d).cancelled = false) : d.key ≠ key := by
  obtain ⟨hlive, hother⟩ := withdrawn_cancelled_eq_false hcancelled
  rintro rfl
  rw [h.pendingOf_of_live hd hlive] at hother
  exact hother rfl

theorem nodup_map_withdrawn {l : List (Delivery α)} (h : (l.map (·.generation)).Nodup)
    (p : Option Pending) : ((l.map (withdrawn p)).map (·.generation)).Nodup :=
  (Keyed.map_key_map (withdrawn_generation p)).symm ▸ h

theorem Sound.register {r : Replicator α} (h : Sound r) (key : String) (action : α) :
    Sound (r.register key action).1 := by
  obtain ⟨-, hrenewals, hclaims, -, -, hnext, -, -⟩ := r.register_frame key action
  have hholds : ∀ l c, (r.register key action).1.holds l c = r.holds l c := fun l c => by
    simp only [holds, hclaims]
  have hmem : ∀ d ∈ (r.register key action).1.deliveries,
      (∃ d₀ ∈ r.deliveries, d = withdrawn (r.pendingOf key) d₀) ∨
        d = r.freshDelivery key action := by
    intro d hd
    rw [deliveries_register, List.mem_append, List.mem_singleton] at hd
    rcases hd with hd | hd
    · obtain ⟨d₀, hd₀, rfl⟩ := List.mem_map.mp hd
      exact .inl ⟨d₀, hd₀, rfl⟩
    · exact .inr hd
  constructor
  · exact r.nodup_keys_register key action h.keys
  · rw [deliveries_register]
    refine Keyed.nodup_append_single (nodup_map_withdrawn h.generations _) ?_
    intro d hd
    obtain ⟨d₀, hd₀, rfl⟩ := List.mem_map.mp hd
    rw [withdrawn_generation]
    exact Nat.ne_of_lt (h.generation_lt d₀ hd₀)
  · rw [hrenewals]; exact h.numbers
  · intro d hd
    rw [nextGeneration_register]
    rcases hmem d hd with ⟨d₀, hd₀, rfl⟩ | rfl
    · rw [withdrawn_generation]
      exact Nat.lt_succ_of_lt (h.generation_lt d₀ hd₀)
    · exact Nat.lt_succ_self _
  · intro k p hp
    rw [nextGeneration_register]
    rw [pendingOf, entryFor?_register] at hp
    by_cases hk : k = key
    · rw [if_pos hk] at hp
      cases hp
      exact Nat.lt_succ_self _
    · rw [if_neg hk] at hp
      exact Nat.lt_succ_of_lt (h.pending_lt k p hp)
  · rw [hrenewals, hnext]; exact h.number_lt
  · intro d hd hstage
    rw [hholds]
    rcases hmem d hd with ⟨d₀, hd₀, rfl⟩ | rfl
    · obtain ⟨hg, -, -, hlane, -, hs⟩ := withdrawn_fields (r.pendingOf key) d₀
      rw [hg, hlane]
      exact h.calling d₀ hd₀ (hs ▸ hstage)
    · exact absurd hstage (by simp [freshDelivery])
  · rw [hrenewals]; simp only [hholds]; exact h.renewing
  · intro d hd hcancelled
    rw [entryFor?_register]
    rcases hmem d hd with ⟨d₀, hd₀, rfl⟩ | rfl
    · obtain ⟨hg, hkey, haction, hlane, -, -⟩ := withdrawn_fields (r.pendingOf key) d₀
      rw [hg, hkey, haction, hlane, if_neg (h.key_ne_of_withdrawn hd₀ hcancelled)]
      exact h.live d₀ hd₀ (withdrawn_cancelled_eq_false hcancelled).1
    · exact ⟨_, if_pos rfl, rfl, rfl, rfl⟩

theorem Sound.forget {r : Replicator α} (h : Sound r) (key : String) : Sound (r.forget key) := by
  have hentry : ∀ k, (r.forget key).entryFor? k = if k = key then none else r.entryFor? k :=
    r.entryFor?_forget key
  have hpending : ∀ k, k ≠ key → (r.forget key).pendingOf k = r.pendingOf k := fun k hk => by
    rw [pendingOf, hentry, if_neg hk, pendingOf]
  have hgone : (r.forget key).pendingOf key = none := by rw [pendingOf, hentry, if_pos rfl]; rfl
  constructor
  · rw [forget_eq]; exact Keyed.nodup_filter h.keys
  · rw [forget_eq]; exact nodup_map_withdrawn h.generations _
  · rw [forget_eq]; exact h.numbers
  · rw [forget_eq]
    intro d hd
    obtain ⟨d₀, hd₀, rfl⟩ := List.mem_map.mp hd
    rw [withdrawn_generation]
    exact h.generation_lt d₀ hd₀
  · intro k p hp
    have hnext : (r.forget key).nextGeneration = r.nextGeneration := by rw [forget_eq]
    rw [hnext]
    by_cases hk : k = key
    · rw [hk, hgone] at hp
      cases hp
    · exact h.pending_lt k p (hpending k hk ▸ hp)
  · rw [forget_eq]; exact h.number_lt
  · rw [forget_eq]
    intro d hd hstage
    obtain ⟨d₀, hd₀, rfl⟩ := List.mem_map.mp hd
    obtain ⟨hg, -, -, hlane, -, hs⟩ := withdrawn_fields (r.pendingOf key) d₀
    rw [hg, hlane]
    exact h.calling d₀ hd₀ (hs ▸ hstage)
  · rw [forget_eq]; exact h.renewing
  · intro d hd hcancelled
    have hd' : d ∈ r.deliveries.map (withdrawn (r.pendingOf key)) := by rwa [forget_eq] at hd
    obtain ⟨d₀, hd₀, rfl⟩ := List.mem_map.mp hd'
    obtain ⟨hg, hkey, haction, hlane, -, -⟩ := withdrawn_fields (r.pendingOf key) d₀
    rw [hentry, hg, hkey, haction, hlane, if_neg (h.key_ne_of_withdrawn hd₀ hcancelled)]
    exact h.live d₀ hd₀ (withdrawn_cancelled_eq_false hcancelled).1

theorem Sound.flush {r : Replicator α} (h : Sound r) : Sound r.flush.1 :=
  flush_induction (fun _ key _ action h _ => h.register key action) r h

theorem Sound.recover {r : Replicator α} (h : Sound r) : Sound r.recover := by
  refine recover_elim r h fun recovering => ?_
  exact h.flush.congr rfl rfl rfl rfl rfl rfl

theorem Sound.renewAll {r : Replicator α} (h : Sound r) : Sound r.renewAll := by
  rw [renewAll_eq]
  split
  · have hclaimed := h.claims ((freshRenewals r.nextRenewal r.entries).map Renewal.claim)
    refine ⟨h.keys, h.generations, ?_, h.generation_lt, h.pending_lt, ?_, hclaimed.calling, ?_,
      h.live⟩
    · rw [List.map_append, List.nodup_append]
      refine ⟨h.numbers, nodup_freshRenewals _ _, ?_⟩
      intro i hi j hj
      obtain ⟨n, hn, rfl⟩ := List.mem_map.mp hi
      obtain ⟨m, hm, rfl⟩ := List.mem_map.mp hj
      exact Nat.ne_of_lt (Nat.lt_of_lt_of_le (h.number_lt n hn) (mem_freshRenewals hm).1.1)
    · intro n hn
      rcases List.mem_append.mp hn with hn | hn
      · exact Nat.lt_add_right _ (h.number_lt n hn)
      · exact (mem_freshRenewals hn).1.2
    · intro n hn hcalling
      rcases List.mem_append.mp hn with hn | hn
      · exact hclaimed.renewing n hn hcalling
      · rw [(mem_freshRenewals hn).2.1] at hcalling
        cases hcalling
  · exact h

theorem Sound.shutDown {r : Replicator α} (h : Sound r) : Sound { r with
    isShutDown := true
    deliveries := r.deliveries.map fun d => { d with cancelled := true } } where
  keys := h.keys
  generations := by rw [List.map_map]; exact h.generations
  numbers := h.numbers
  generation_lt d hd := by
    obtain ⟨d₀, hd₀, rfl⟩ := List.mem_map.mp hd
    exact h.generation_lt d₀ hd₀
  pending_lt := h.pending_lt
  number_lt := h.number_lt
  calling d hd hstage := by
    obtain ⟨d₀, hd₀, rfl⟩ := List.mem_map.mp hd
    exact h.calling d₀ hd₀ hstage
  renewing := h.renewing
  live d hd hcancelled := by
    obtain ⟨d₀, hd₀, rfl⟩ := List.mem_map.mp hd
    cases hcancelled

/-! ### Every section -/

/-- The lane of a delivery is released twice when its call has ended: the second time changes
nothing. -/
theorem finish_attemptOver (r : Replicator α) (key : String) (g : Nat)
    (f : ReplicationEntry α → ReplicationEntry α) :
    ((r.attemptOver g).updateEntry key f).finish g =
      { (r.updateEntry key f).finish g with inFlight := r.inFlight - 1 } := by
  simp [attemptOver, Replicator.updateEntry, Replicator.finish, release]

theorem Sound.section {r r' : Replicator α} {now : Int} {event : Event α} {calls : List (Call α)}
    (h : Sound r) (hs : Section r now event r' calls) : Sound r' := by
  cases hs with
  | registered key action => exact h.register key action
  | forgotten key => exact h.forget key
  | flushed => exact h.flush.congr rfl rfl rfl rfl rfl rfl
  | ended => exact h.finish _
  | queued hd =>
    exact (h.updateDelivery (fun _ => rfl) fun _ _ _ hc => by cases hc).claims _
  | died => exact h.perish _
  | @called d lease hd hstage hholds =>
    have hown : ∀ d' ∈ r.deliveries, d'.generation = d.generation →
        (inStage .calling d').stage = .calling →
          r.holds d'.lane (.delivery d.generation) = true := fun d' hd' hg _ =>
      h.eq_of_generation hd' (mem_of_delivery? hd) hg ▸ hholds
    exact (h.updateDelivery (fun _ => rfl) hown).congr rfl rfl rfl rfl rfl rfl
  | woken => exact h.updateDelivery (fun _ => rfl) fun _ _ _ hc => by cases hc
  | renewalGone => exact h.finishRenewal _
  | renewalDied => exact h.stopRenewals
  | renewed hn _ hholds =>
    exact h.renewing_update fun n' hn' hi => h.eq_of_number hn' (mem_of_renewal? hn) hi ▸ hholds
  | @delivered d hd _ =>
    rw [markDelivered_eq, finish_attemptOver]
    exact (h.settle d.key (fun _ hq => by cases hq)
      (h.generation_lt d (mem_of_delivery? hd))).congr rfl rfl rfl rfl rfl rfl
  | @retried d delay hd _ _ =>
    -- once the delivery is in backoff it does not call, and can let go of its lane
    have hbackoff := h.updateDelivery (g := d.generation)
      (f := inBackoff (d.failures + 1) (now + delay.timerMillis)) (fun _ => rfl)
      fun _ _ _ hc => by cases hc
    refine (hbackoff.release_delivery (g := d.generation) ?_).congr rfl rfl rfl rfl rfl rfl
    intro d' hd' hg
    obtain ⟨d₀, -, rfl⟩ := mem_updateDelivery.mp hd'
    by_cases hd₀ : d₀.generation = d.generation
    · rw [if_pos hd₀]
      exact Delivery.Stage.noConfusion
    · rw [if_neg hd₀] at hg
      exact absurd hg hd₀
  | @abandoned d hd _ _ =>
    rw [markAbandoned_eq, finish_attemptOver]
    exact (h.settle d.key (fun _ hq => by cases hq; rfl)
      (h.generation_lt d (mem_of_delivery? hd))).congr rfl rfl rfl rfl rfl rfl
  | renewalOver => exact h.finishRenewal _
  | renewalTicked =>
    apply Sound.renewAll
    exact h.congr rfl rfl rfl rfl rfl rfl
  | recoveryTicked =>
    apply Sound.recover
    exact h.congr rfl rfl rfl rfl rfl rfl
  | shutDown => exact h.shutDown
  | renewalsStopped => exact h.stopRenewals
  | recoveryStopped => exact h.stopRecovery

theorem Sound.step {r r' : Replicator α} {now : Int} {event : Event α} {calls : List (Call α)}
    (h : Sound r) (hstep : r.step now event = some (r', calls)) : Sound r' :=
  h.section (section_of_step hstep)

end Floodgate.Replicator
