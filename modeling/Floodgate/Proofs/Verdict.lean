import Floodgate.Gate.Handler
/-!
# Floodgate.Proofs.Verdict

**What a verdict says, and what it makes of a gate.** A verdict is busy exactly if some status is
busy at its instant, and it expires after that instant and no later than the lease of any busy
status. Driving a gate by it leaves the gate blocked exactly if it is busy, whatever the gate was
before. Once a status is no longer busy it stays so, because leases only end.

A handler that neither blocks nor opens the gate (`Handler.isPassive`) leaves it as it is.
-/

namespace Floodgate

namespace Status

variable {x : Status} {now earlier : Int}

/-- A busy status counts until its lease ends, if it has one. -/
theorem isBusyAt_iff :
    x.isBusyAt now = true ↔ x.isBusy = true ∧ ∀ t, x.validUntil = some t → now < t.millis := by
  rw [isBusyAt, Bool.and_eq_true, leaseRunsAt]
  cases x.validUntil with
  | none => simp
  | some t => simp

/-- A status that is busy has been so all the time. -/
theorem isBusyAt_of_le (h : x.isBusyAt now = true) (hle : earlier ≤ now) :
    x.isBusyAt earlier = true := by
  obtain ⟨hbusy, hlease⟩ := isBusyAt_iff.mp h
  exact isBusyAt_iff.mpr ⟨hbusy, fun t ht => Int.lt_of_le_of_lt hle (hlease t ht)⟩

end Status

namespace Verdict

variable {statuses : List Status} {now : Int}

theorem isAllIdle_ofStatuses : (ofStatuses statuses now).isAllIdle = false ↔
    ∃ x ∈ statuses, x.isBusyAt now = true := by
  unfold ofStatuses
  cases hlive : statuses.filter (·.isBusyAt now) with
  | nil =>
    rw [List.filter_eq_nil_iff] at hlive
    simp only [isAllIdle, Bool.true_eq_false, false_iff, not_exists, not_and]
    exact hlive
  | cons x rest =>
    have hx : x ∈ statuses.filter (·.isBusyAt now) := hlive ▸ List.mem_cons_self
    simp only [isAllIdle, true_iff]
    exact ⟨x, List.mem_filter.mp hx⟩

theorem earliest_le {ts : List Timestamp} {t : Timestamp} (ht : t ∈ ts) :
    ∃ first, earliest ts = some first ∧ first.millis ≤ t.millis := by
  induction ts with
  | nil => exact absurd ht List.not_mem_nil
  | cons u rest ih =>
    rw [earliest]
    cases hrest : earliest rest with
    | none =>
      rcases List.mem_cons.mp ht with rfl | ht
      · exact ⟨t, rfl, Int.le_refl _⟩
      · obtain ⟨first, hfirst, -⟩ := ih ht
        rw [hrest] at hfirst
        cases hfirst
    | some first =>
      refine ⟨_, rfl, ?_⟩
      rcases List.mem_cons.mp ht with rfl | ht
      · split <;> omega
      · obtain ⟨first', hfirst, hle⟩ := ih ht
        rw [hrest] at hfirst
        cases hfirst
        split <;> omega

theorem earliest_mem {ts : List Timestamp} {t : Timestamp} (h : earliest ts = some t) :
    t ∈ ts := by
  induction ts generalizing t with
  | nil => cases h
  | cons u rest ih =>
    rw [earliest] at h
    cases hrest : earliest rest with
    | none =>
      rw [hrest] at h
      cases h
      exact List.mem_cons_self
    | some first =>
      rw [hrest] at h
      have heq : (if u.millis ≤ first.millis then u else first) = t := Option.some.inj h
      split at heq
      · exact heq ▸ List.mem_cons_self
      · exact heq ▸ List.mem_cons_of_mem u (ih hrest)

/-- The earliest lease end does not depend on the order. -/
theorem earliest_perm {ts us : List Timestamp} (h : ts.Perm us) : earliest ts = earliest us := by
  cases hts : earliest ts with
  | none =>
    cases hus : earliest us with
    | none => rfl
    | some u =>
      obtain ⟨first, hfirst, -⟩ := earliest_le (h.mem_iff.mpr (earliest_mem hus))
      rw [hts] at hfirst
      cases hfirst
  | some t =>
    obtain ⟨u, hus, hut⟩ := earliest_le (h.mem_iff.mp (earliest_mem hts))
    obtain ⟨first, hfirst, htu⟩ := earliest_le (h.mem_iff.mpr (earliest_mem hus))
    obtain rfl : t = first := Option.some.inj (hts.symm.trans hfirst)
    rw [hus, Timestamp.ext (Int.le_antisymm htu hut)]

/-- Only the statuses that are busy count, in whatever order: they decide whether all are idle and
when the verdict may change. -/
theorem ofStatuses_perm {statuses' : List Status}
    (h : (statuses.filter (·.isBusyAt now)).Perm (statuses'.filter (·.isBusyAt now))) :
    (ofStatuses statuses now).isAllIdle = (ofStatuses statuses' now).isAllIdle ∧
      (ofStatuses statuses now).nextExpiry = (ofStatuses statuses' now).nextExpiry := by
  unfold ofStatuses
  cases hlive : statuses.filter (·.isBusyAt now) with
  | nil =>
    rw [hlive] at h
    rw [List.nil_perm.mp h]
    exact ⟨rfl, rfl⟩
  | cons x rest =>
    cases hlive' : statuses'.filter (·.isBusyAt now) with
    | nil =>
      rw [hlive, hlive'] at h
      exact absurd (List.perm_nil.mp h) nofun
    | cons y rest' =>
      rw [hlive, hlive'] at h
      exact ⟨rfl, earliest_perm (h.filterMap _)⟩

/-- A busy verdict expires no later than the lease of any busy status, if that has one. -/
theorem nextExpiry_le {x : Status} (hx : x ∈ statuses) (hbusy : x.isBusyAt now = true)
    {t : Timestamp} (ht : x.validUntil = some t) :
    ∃ expiry, (ofStatuses statuses now).nextExpiry = some expiry ∧ expiry.millis ≤ t.millis := by
  have hmem : x ∈ statuses.filter (·.isBusyAt now) := List.mem_filter.mpr ⟨hx, hbusy⟩
  unfold ofStatuses
  cases hlive : statuses.filter (·.isBusyAt now) with
  | nil => rw [hlive] at hmem; exact absurd hmem List.not_mem_nil
  | cons y rest =>
    rw [hlive] at hmem
    exact earliest_le (List.mem_filterMap.mpr ⟨x, hmem, ht⟩)

/-- A verdict expires after its instant. -/
theorem lt_nextExpiry {expiry : Timestamp}
    (h : (ofStatuses statuses now).nextExpiry = some expiry) : now < expiry.millis := by
  unfold ofStatuses at h
  split at h
  · cases h
  · obtain ⟨x, hx, hvalid⟩ := List.mem_filterMap.mp (earliest_mem h)
    have hbusy := (List.mem_filter.mp hx).2
    exact (Status.isBusyAt_iff.mp hbusy).2 expiry hvalid

end Verdict

/-! ### Gates -/

/-- Whether a handler neither blocks nor opens the gate. -/
def Handler.isPassive : Handler → Bool
  | .record | .panic | .panicOnCall => true
  | .unblock | .block _ => false

namespace Gatehouse

variable {h h' : Gatehouse} {run : HandlerRun} {notes : List HandlerNote}

theorem isBlocked_drive (h : Gatehouse) (v : Verdict) :
    (h.drive v).gate.isBlocked = !v.isAllIdle := by
  obtain ⟨⟨barrier, armed⟩, handlers, started⟩ := h
  cases v with
  | allIdle => cases barrier <;> rfl
  | busy data expiry => cases barrier <;> rfl

/-- The handler that runs next was started by its gate. -/
theorem mem_started_of_runNext (hrun : h.runNext = some (h', run, notes)) : run ∈ h.started := by
  unfold runNext at hrun
  split at hrun
  · cases hrun
  · next run' rest hstarted =>
    cases hrun
    rw [hstarted]
    exact List.mem_cons_self

theorem carryOut_of_isPassive (h : Gatehouse) (hpassive : run.handler.isPassive = true) :
    (h.carryOut run).1 = h := by
  unfold carryOut
  cases hhandler : run.handler with
  | unblock => rw [hhandler] at hpassive; cases hpassive
  | block data => rw [hhandler] at hpassive; cases hpassive
  | _ => rfl

theorem gate_of_runNext (hrun : h.runNext = some (h', run, notes))
    (hpassive : run.handler.isPassive = true) : h'.gate = h.gate := by
  unfold runNext at hrun
  split at hrun
  · cases hrun
  · next rest _ =>
    cases hrun
    have hsame := congrArg gate (carryOut_of_isPassive { h with started := rest } hpassive)
    exact hsame

end Gatehouse

end Floodgate
