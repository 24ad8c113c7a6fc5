import Floodgate.Proofs.Replication.Run
/-!
# Floodgate.Proofs.Replication.Lane

**One lane a key, one call at a time.** Whoever calls holds a lane, so the calls of a key exclude
each other as long as all of them go by the same lane. `OneLane` says that they do: the calls in
progress and the unfinished renewals of a key go by the lane of its entry.

Every section keeps this but one. Forgetting a key drops its entry, and the lane with it; what was
bound to that lane goes on. So the key must not be `engaged` when it is forgotten.
-/

namespace Floodgate.Replicator

variable {α : Type} {r r' : Replicator α} {now : Int} {event : Event α} {calls : List (Call α)}
  {key : String}

/-- Whether a call of a key is in progress or a renewal of it has not finished. Either is bound to
the lane of the entry that the key had when it began. -/
def engaged (r : Replicator α) (key : String) : Bool :=
  (r.deliveries.any fun d => d.key = key && d.stage = .calling) || r.renewals.any (·.key = key)

/-- Everything that may call a write of a key goes by the lane of its entry. Deliveries that do not
call are left out: one that has not been cancelled is on that lane in any case, and one that has
been cancelled does not call any more. -/
structure OneLane (key : String) (r : Replicator α) : Prop where
  deliveries : ∀ d ∈ r.deliveries, d.key = key → d.stage = .calling →
    ∃ e, r.entryFor? key = some e ∧ e.lane = d.lane
  renewals : ∀ n ∈ r.renewals, n.key = key → ∃ e, r.entryFor? key = some e ∧ e.lane = n.lane

theorem engaged_eq_false_iff : r.engaged key = false ↔
    (∀ d ∈ r.deliveries, d.key = key → d.stage ≠ .calling) ∧ ∀ n ∈ r.renewals, n.key ≠ key := by
  simp [engaged]

theorem exists_of_engaged (h : r.engaged key = true) :
    (∃ d ∈ r.deliveries, d.key = key ∧ d.stage = .calling) ∨ ∃ n ∈ r.renewals, n.key = key := by
  simpa [engaged] using h

theorem OneLane.section (ho : OneLane key r) (h : Sound r) (hs : Section r now event r' calls)
    (hforget : event = .forget key → r.engaged key = false) : OneLane key r' := by
  by_cases hevent : event = .forget key
  · -- nothing is left that the lane matters to
    obtain ⟨hdeliveries, hrenewals⟩ := engaged_eq_false_iff.mp (hforget hevent)
    subst hevent
    cases hs
    rw [forget_eq]
    constructor
    · intro d hd hkey hstage
      obtain ⟨d₀, hd₀, rfl⟩ := List.mem_map.mp hd
      obtain ⟨-, hkey', -, -, -, hstage'⟩ := withdrawn_fields (r.pendingOf key) d₀
      exact absurd (hstage' ▸ hstage) (hdeliveries d₀ hd₀ (hkey' ▸ hkey))
    · intro n hn hkey
      exact absurd hkey (hrenewals n hn)
  · -- the entry keeps its lane
    have hkeeps : ∀ {l : Nat}, (∃ e, r.entryFor? key = some e ∧ e.lane = l) →
        ∃ e, r'.entryFor? key = some e ∧ e.lane = l := by
      rintro l ⟨e, he, rfl⟩
      exact lane_of_section hs hevent he
    constructor
    · intro d' hd' hkey hstage
      cases delivery_of_section h hs hd' with
      | fresh _ _ hready _ => rw [hready] at hstage; cases hstage
      | @kept d hd hfollows _ hcalling _ =>
        rw [hfollows.lane]
        exact hkeeps (ho.deliveries d hd (hfollows.key ▸ hkey) (hcalling hstage))
      | @called d _ hd hfollows _ hlive _ _ =>
        obtain ⟨e, he, -, hlane, -⟩ := h.live d hd hlive
        rw [hfollows.lane]
        exact hkeeps ⟨e, (hfollows.key ▸ hkey) ▸ he, hlane⟩
      | failed _ _ _ hidle _ => exact absurd hstage hidle
    · intro n' hn' hkey
      rcases renewal_of_section hs hn' with ⟨n, hn, -, hkey', hlane⟩ | ⟨e, he, hkey', hlane⟩
      · rw [hlane]
        exact hkeeps (ho.renewals n hn (hkey' ▸ hkey))
      · rw [hlane]
        exact hkeeps ⟨e, (hkey'.symm.trans hkey) ▸ h.entryFor?_of_mem he, rfl⟩

theorem Run.oneLane {plan : ReplicationPlan} {since : Int} {history : List (Moment α)}
    (h : Run plan since history r)
    (hforget : ∀ m ∈ history, m.event = .forget key → m.before.engaged key = false) :
    OneLane key r := by
  induction h with
  | start =>
    constructor
    · intro d hd
      exact absurd hd List.not_mem_nil
    · intro n hn
      exact absurd hn List.not_mem_nil
  | next hpast hstep ih =>
    have hold := ih fun m hm => hforget m (List.mem_cons_of_mem _ hm)
    exact hold.section hpast.sound (section_of_step hstep) (hforget _ List.mem_cons_self)

/-! ### What follows for calls -/

/-- Whoever calls a write of a key holds the lane of its entry. -/
theorem OneLane.holds (ho : OneLane key r) (h : Sound r) {c : Caller}
    (hc : c ∈ r.callersOf key) : ∃ e, r.entryFor? key = some e ∧ r.holds e.lane c = true := by
  rcases mem_callersOf.mp hc with ⟨d, hd, hkey, hstage, rfl⟩ | ⟨n, hn, hkey, hcalling, rfl⟩
  · obtain ⟨e, he, hlane⟩ := ho.deliveries d hd hkey hstage
    exact ⟨e, he, hlane ▸ h.calling d hd hstage⟩
  · obtain ⟨e, he, hlane⟩ := ho.renewals n hn hkey
    exact ⟨e, he, hlane ▸ h.renewing n hn hcalling⟩

/-- All who call a write of a key are one. -/
theorem OneLane.caller_unique (ho : OneLane key r) (h : Sound r) {c c' : Caller}
    (hc : c ∈ r.callersOf key) (hc' : c' ∈ r.callersOf key) : c = c' := by
  obtain ⟨e, he, hholds⟩ := ho.holds h hc
  obtain ⟨e', he', hholds'⟩ := ho.holds h hc'
  obtain rfl := Option.some.inj (he.symm.trans he')
  exact holds_unique hholds hholds'

theorem OneLane.callersOf_eq_single (ho : OneLane key r) (h : Sound r) {c : Caller}
    (hc : c ∈ r.callersOf key) : r.callersOf key = [c] := by
  have hall : ∀ c' ∈ r.callersOf key, c' = c := fun c' hc' => ho.caller_unique h hc' hc
  have hnodup := h.nodup_callersOf key
  cases hcallers : r.callersOf key with
  | nil => rw [hcallers] at hc; exact absurd hc List.not_mem_nil
  | cons c₁ rest =>
    rw [hcallers] at hall hnodup
    have hrest : rest = [] := by
      refine List.eq_nil_iff_forall_not_mem.mpr fun c₂ hc₂ => ?_
      have heq := (hall c₁ List.mem_cons_self).trans (hall c₂ (List.mem_cons_of_mem _ hc₂)).symm
      exact (List.nodup_cons.mp hnodup).1 (heq ▸ hc₂)
    rw [hrest, hall c₁ List.mem_cons_self]

theorem OneLane.length_callersOf_le (ho : OneLane key r) (h : Sound r) :
    (r.callersOf key).length ≤ 1 := by
  cases hcallers : r.callersOf key with
  | nil => exact Nat.zero_le _
  | cons c rest =>
    have hc : c ∈ r.callersOf key := hcallers ▸ List.mem_cons_self
    rw [← hcallers, ho.callersOf_eq_single h hc]
    exact Nat.le_refl _

/-- Nobody is calling a write of a key when a call of one starts. -/
theorem OneLane.callersOf_eq_nil (ho : OneLane key r) (h : Sound r)
    (hs : Section r now event r' calls) {c : Call α} (hc : c ∈ calls) (hkey : c.key = key) :
    r.callersOf key = [] := by
  refine List.eq_nil_iff_forall_not_mem.mpr fun c' hc' => ?_
  obtain ⟨e, he, hholds⟩ := ho.holds h hc'
  -- the one that starts holds the same lane, and it does not call yet
  cases hs with
  | @called d lease hd hstage hholds' hcancelled =>
    obtain rfl := List.mem_singleton.mp hc
    obtain ⟨e', he', -, hlane, -⟩ := h.live d (mem_of_delivery? hd) hcancelled
    have hentry : r.entryFor? d.key = some e := (congrArg r.entryFor? hkey).trans he
    obtain rfl := Option.some.inj (he'.symm.trans hentry)
    obtain rfl := holds_unique hholds (hlane ▸ hholds')
    rcases mem_callersOf.mp hc' with ⟨d', hd', -, hstage', hcaller⟩ | ⟨_, _, _, _, hcaller⟩
    · have hsame := h.eq_of_generation (mem_of_delivery? hd) hd' (Caller.delivery.inj hcaller)
      rw [← hsame, hstage] at hstage'
      cases hstage'
    · cases hcaller
  | @renewed n e' lease hn hcalling hholds' =>
    obtain rfl := List.mem_singleton.mp hc
    obtain ⟨e₁, he₁, hlane⟩ := ho.renewals n (mem_of_renewal? hn) hkey
    obtain rfl := Option.some.inj (he₁.symm.trans he)
    obtain rfl := holds_unique hholds (hlane ▸ hholds')
    rcases mem_callersOf.mp hc' with ⟨_, _, _, _, hcaller⟩ | ⟨n', hn', -, hcalling', hcaller⟩
    · cases hcaller
    · have hsame := h.eq_of_number (mem_of_renewal? hn) hn' (Caller.renewal.inj hcaller)
      rw [← hsame, hcalling] at hcalling'
      cases hcalling'
  | _ => exact absurd hc List.not_mem_nil

end Floodgate.Replicator
