import Mathlib.Data.List.Nodup
import Floodgate.Proofs.PeerStore.Ranking
import Floodgate.Proofs.Server.Calls
import Floodgate.Proofs.Verdict
/-!
# Floodgate.Proofs.PeerStore.Pruning

**Pruning is invisible to verdicts.** A server that prunes takes statuses out of its snapshots, and
the status of an instance that has won so far may be among them. Then an older one may win that
another server still holds. Neither of them is busy from the cutoff on, as both leases ended before
it; and a status whose lease has not ended before the cutoff stays and still wins. So the same
statuses are busy (`busy_perm_of_ended`).

Main statement: `pruning_keeps_verdict`.
-/

namespace Floodgate

variable {cutoff : Timestamp} {now : Int} {s : Status} {n : Notification}

/-- The lease of a status ended before a cutoff. -/
def Status.EndedBefore (cutoff : Timestamp) (s : Status) : Prop :=
  ∃ t, s.validUntil = some t ∧ t.millis < cutoff.millis

/-- Whoever is busy from the cutoff on outranks whatever ended before it. -/
theorem Status.leaseRank_lt_of_busy {s' : Status} (hbusy : s.isBusyAt now = true)
    (hended : s'.EndedBefore cutoff) (hle : cutoff.millis ≤ now) :
    s'.leaseRank < s.leaseRank := by
  obtain ⟨t', ht', hlt⟩ := hended
  have hlease := (Status.isBusyAt_iff.mp hbusy).2
  have hmax := t'.le_max
  unfold leaseRank
  rw [ht']
  cases hs : s.validUntil with
  | none =>
    simp only
    omega
  | some t =>
    have hnow := hlease t hs
    simp only
    omega

theorem Status.not_endedBefore_of_busy (hbusy : s.isBusyAt now = true)
    (hle : cutoff.millis ≤ now) : ¬ s.EndedBefore cutoff := fun hended =>
  Int.lt_irrefl _ (leaseRank_lt_of_busy hbusy hended hle)

/-- **If views lose only statuses whose lease ended before a cutoff, the same statuses are busy from
the cutoff on.** -/
theorem busy_perm_of_ended {before after : List View} (huntied : Untied before)
    (hfrom : ∀ s ∈ viewed after, s ∈ viewed before)
    (hkept : ∀ s ∈ viewed before, ¬ s.EndedBefore cutoff → s ∈ viewed after)
    (hle : cutoff.millis ≤ now) :
    ((mergeViews before).filter (·.isBusyAt now)).Perm
      ((mergeViews after).filter (·.isBusyAt now)) := by
  have huntied' : Untied after := fun s hs s' hs' => huntied s (hfrom s hs) s' (hfrom s' hs')
  have hnodup : ∀ views, ((mergeViews views).filter (·.isBusyAt now)).Nodup := fun views =>
    (List.Nodup.of_map Status.instanceId (nodup_mergeViews views)).filter _
  refine (List.perm_ext_iff_of_nodup (hnodup before) (hnodup after)).mpr fun s => ?_
  rw [List.mem_filter, List.mem_filter, and_congr_left_iff]
  intro hbusy
  rw [mem_mergeViews_iff huntied, mem_mergeViews_iff huntied']
  constructor
  · rintro ⟨hs, hhighest⟩
    exact ⟨hkept s hs (Status.not_endedBefore_of_busy hbusy hle),
      fun s' hs' hid => hhighest s' (hfrom s' hs') hid⟩
  · rintro ⟨hs, hhighest⟩
    refine ⟨hfrom s hs, fun s' hs' hid => ?_⟩
    -- what has been pruned cannot outrank a status that is still busy
    by_cases hended : s'.EndedBefore cutoff
    · exact Int.le_of_lt (Status.leaseRank_lt_of_busy hbusy hended hle)
    · exact hhighest s' (hkept s' hs' hended) hid

/-! ### Snapshots -/

/-- A snapshot after pruning. -/
def Notification.unexpired (cutoff : Timestamp) (n : Notification) : Notification :=
  { n with instances := Floodgate.unexpired cutoff n.instances }

/-- What a snapshot tells a peer. -/
def Notification.view (n : Notification) : View := .ofStatuses n.statuses

theorem WireStatus.expiredBefore_iff {w : WireStatus} {id : String} :
    w.expiredBefore cutoff = true ↔ (w.toStatus id).EndedBefore cutoff := by
  unfold WireStatus.expiredBefore Status.EndedBefore WireStatus.toStatus
  cases Timestamp.ofWire w.validUntilMillis with
  | none => simp
  | some t => simp

theorem Notification.mem_statuses_unexpired :
    s ∈ (n.unexpired cutoff).statuses ↔ s ∈ n.statuses ∧ ¬ s.EndedBefore cutoff := by
  simp only [statuses, unexpired, Floodgate.unexpired, List.mem_map, List.mem_filter]
  constructor
  · rintro ⟨⟨id, w⟩, ⟨hmem, hkept⟩, rfl⟩
    refine ⟨⟨(id, w), hmem, rfl⟩, fun hended => ?_⟩
    rw [WireStatus.expiredBefore_iff.mpr hended] at hkept
    cases hkept
  · rintro ⟨⟨⟨id, w⟩, hmem, rfl⟩, hkept⟩
    refine ⟨(id, w), ⟨hmem, ?_⟩, rfl⟩
    rw [Bool.not_eq_true']
    exact Bool.eq_false_iff.mpr fun hexpired => hkept (WireStatus.expiredBefore_iff.mp hexpired)

/-- A snapshot that has each instance once tells a peer all that is in it. -/
theorem Notification.mem_view (hnodup : (n.instances.map (·.1)).Nodup) :
    (∃ k, (k, s) ∈ n.view) ↔ s ∈ n.statuses := by
  constructor
  · rintro ⟨k, hmem⟩
    exact (mem_ofStatuses hmem).1
  · intro hs
    have hkeys : n.statuses.map (·.instanceId) = n.instances.map (·.1) := by
      rw [statuses, List.map_map]
      rfl
    obtain ⟨s', hmem⟩ := exists_mem_ofStatuses hs
    obtain ⟨hs', hid⟩ := mem_ofStatuses hmem
    have heq : s' = s := Keyed.eq_of_key_eq (hkeys ▸ hnodup) hs' hs hid
    exact ⟨s.instanceId, heq ▸ hmem⟩

theorem Notification.nodup_unexpired (hnodup : (n.instances.map (·.1)).Nodup) :
    ((n.unexpired cutoff).instances.map (·.1)).Nodup :=
  Keyed.nodup_filter hnodup

theorem Notification.mem_viewed {snapshots : List Notification} {views : List View}
    (hnodup : ∀ n ∈ snapshots, (n.instances.map (·.1)).Nodup)
    (hviews : views.Perm (snapshots.map (·.view))) :
    s ∈ viewed views ↔ ∃ n ∈ snapshots, s ∈ n.statuses := by
  rw [Floodgate.mem_viewed]
  constructor
  · rintro ⟨v, hv, hmem⟩
    obtain ⟨n, hn, rfl⟩ := List.mem_map.mp (hviews.mem_iff.mp hv)
    exact ⟨n, hn, (mem_view (hnodup n hn)).mp hmem⟩
  · rintro ⟨n, hn, hs⟩
    exact ⟨n.view, hviews.mem_iff.mpr (List.mem_map_of_mem hn), (mem_view (hnodup n hn)).mpr hs⟩

/-- Some snapshots, of which some have been pruned. -/
def partlyPruned (cutoff : Timestamp) (snapshots : List (Notification × Bool)) :
    List Notification :=
  snapshots.map fun p => if p.2 then p.1.unexpired cutoff else p.1

section PartlyPruned

variable {snapshots : List (Notification × Bool)}

theorem nodup_of_partlyPruned (hnodup : ∀ p ∈ snapshots, (p.1.instances.map (·.1)).Nodup) :
    ∀ n ∈ partlyPruned cutoff snapshots, (n.instances.map (·.1)).Nodup := by
  intro n hn
  obtain ⟨p, hp, rfl⟩ := List.mem_map.mp hn
  split
  · exact Notification.nodup_unexpired (hnodup p hp)
  · exact hnodup p hp

theorem mem_of_partlyPruned (hn : n ∈ partlyPruned cutoff snapshots) (hs : s ∈ n.statuses) :
    ∃ n ∈ snapshots.map (·.1), s ∈ n.statuses := by
  obtain ⟨p, hp, rfl⟩ := List.mem_map.mp hn
  refine ⟨p.1, List.mem_map_of_mem hp, ?_⟩
  split at hs
  · exact (Notification.mem_statuses_unexpired.mp hs).1
  · exact hs

theorem exists_mem_partlyPruned (hn : n ∈ snapshots.map (·.1)) (hs : s ∈ n.statuses)
    (hkept : ¬ s.EndedBefore cutoff) : ∃ n ∈ partlyPruned cutoff snapshots, s ∈ n.statuses := by
  obtain ⟨p, hp, rfl⟩ := List.mem_map.mp hn
  refine ⟨_, List.mem_map_of_mem hp, ?_⟩
  split
  · exact Notification.mem_statuses_unexpired.mpr ⟨hs, hkept⟩
  · exact hs

end PartlyPruned

/-- **Pruning leaves of the snapshot of every lock key what has not expired, and answers how many
statuses it has taken out. Peers that hold snapshots of which some have been pruned come to the same
verdict as before from the cutoff on, in whatever order they merge them: whether all are idle, when
that may change, and the lock data of whoever is busy.** -/
theorem pruning_keeps_verdict (cutoff : Timestamp) :
    (∀ calls k, ((StatusTable.after calls).prune cutoff).1.snapshotOf k =
      ((StatusTable.after calls).snapshotOf k).unexpired cutoff) ∧
    (∀ t : StatusTable, (t.prune cutoff).1.allStatuses = unexpired cutoff t.allStatuses ∧
      (t.prune cutoff).2 + (t.prune cutoff).1.allStatuses.length = t.allStatuses.length) ∧
    ∀ (snapshots : List (Notification × Bool)) (before after : List View) (now : Int),
      (∀ p ∈ snapshots, (p.1.instances.map (·.1)).Nodup) →
      before.Perm ((snapshots.map (·.1)).map (·.view)) →
      after.Perm ((partlyPruned cutoff snapshots).map (·.view)) →
      Untied before → cutoff.millis ≤ now →
      (Verdict.ofStatuses (mergeViews before) now).isAllIdle =
        (Verdict.ofStatuses (mergeViews after) now).isAllIdle ∧
      (Verdict.ofStatuses (mergeViews before) now).nextExpiry =
        (Verdict.ofStatuses (mergeViews after) now).nextExpiry ∧
      (((mergeViews before).filter (·.isBusyAt now)).map (·.lockData)).Perm
        (((mergeViews after).filter (·.isBusyAt now)).map (·.lockData)) := by
  refine ⟨fun calls k => (StatusTable.agrees_after calls).sound.snapshotOf_prune cutoff k,
    fun t => ⟨t.allStatuses_prune cutoff, t.prune_count cutoff⟩, ?_⟩
  intro snapshots before after now hnodup hbefore hafter huntied hle
  have hviewed : ∀ s, s ∈ viewed before ↔ ∃ n ∈ snapshots.map (·.1), s ∈ n.statuses := fun s =>
    Notification.mem_viewed (List.forall_mem_map.mpr hnodup) hbefore
  have hviewed' : ∀ s, s ∈ viewed after ↔ ∃ n ∈ partlyPruned cutoff snapshots, s ∈ n.statuses :=
    fun s => Notification.mem_viewed (nodup_of_partlyPruned hnodup) hafter
  have hperm : ((mergeViews before).filter (·.isBusyAt now)).Perm
      ((mergeViews after).filter (·.isBusyAt now)) := by
    refine busy_perm_of_ended huntied (fun s hs => ?_) (fun s hs hkept => ?_) hle
    · obtain ⟨n, hn, hmem⟩ := (hviewed' s).mp hs
      exact (hviewed s).mpr (mem_of_partlyPruned hn hmem)
    · obtain ⟨n, hn, hmem⟩ := (hviewed s).mp hs
      exact (hviewed' s).mpr (exists_mem_partlyPruned hn hmem hkept)
  obtain ⟨hidle, hexpiry⟩ := Verdict.ofStatuses_perm hperm
  exact ⟨hidle, hexpiry, hperm.map _⟩

/-- Pruning takes out the status that wins, and uncovers an older one of the same instance. -/
def uncovering : List (Notification × Bool) :=
  [(⟨"k", [("a", ⟨true, "new", 3000⟩)]⟩, true),
    (⟨"k", [("a", ⟨true, "old", 2000⟩), ("b", ⟨true, "held", 0⟩)]⟩, false)]

theorem pruning_keeps_verdict_when_uncovering :
    let cutoff : Timestamp := ⟨4000, by decide, by decide⟩
    let before := mergeViews ((uncovering.map (·.1)).map (·.view))
    let after := mergeViews ((partlyPruned cutoff uncovering).map (·.view))
    (before.map (·.lockData) = [some "new", some "held"] ∧
      after.map (·.lockData) = [some "old", some "held"]) ∧
    (Verdict.ofStatuses before 4000).isAllIdle = (Verdict.ofStatuses after 4000).isAllIdle ∧
    (Verdict.ofStatuses before 4000).nextExpiry = (Verdict.ofStatuses after 4000).nextExpiry ∧
    ((before.filter (·.isBusyAt 4000)).map (·.lockData)).Perm
      ((after.filter (·.isBusyAt 4000)).map (·.lockData)) :=
  ⟨by decide, (pruning_keeps_verdict ⟨4000, by decide, by decide⟩).2.2 uncovering _ _ 4000
    (by decide) (.refl _) (.refl _) (by decide) (by decide)⟩

end Floodgate
