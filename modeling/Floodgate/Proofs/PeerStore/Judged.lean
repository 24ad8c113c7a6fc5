import Floodgate.Proofs.PeerStore.Reports
import Floodgate.Proofs.Verdict
/-!
# Floodgate.Proofs.PeerStore.Judged

**A gate stays as the views were last judged.** Whoever changes the views judges them, so that the
gate and the timer are always what judging the present views has made of them at some instant
(`JudgedAt`). The gate is blocked exactly when one of the merged statuses was busy then. A lease
that has ended since is not noticed until the timer fires, which is at most the slack later.
-/

namespace Floodgate

namespace PeerStore

variable {s s' : PeerStore} {now judged : Int} {x : Status}

/-- The gate and the timer of a store are what judging its views has made of them. -/
structure JudgedAt (s : PeerStore) (judged : Int) : Prop where
  isBlocked : s.house.gate.isBlocked = !(s.verdict judged).isAllIdle
  timer : s.timer = Verdict.expiryTimer judged ((s.verdict judged).nextExpiry.map (·.millis))

/-- A store that has got a view has judged its views. -/
def Judged (s : PeerStore) (now : Int) : Prop := s.views = [] ∨ ∃ judged ≤ now, s.JudgedAt judged

theorem JudgedAt.reevaluate (hstopped : s.isStopped = false) (now : Int) :
    (s.reevaluate now).JudgedAt now where
  isBlocked := s.house.isBlocked_drive (s.verdict now)
  timer := by
    show (if s.isStopped then none else _) = _
    rw [hstopped]
    rfl

theorem Judged.mono {later : Int} (h : s.Judged now) (hlater : now ≤ later) : s.Judged later :=
  h.imp_right fun ⟨judged, hjudged, hat⟩ => ⟨judged, Int.le_trans hjudged hlater, hat⟩

theorem Judged.congr (h : s.Judged now) (hviews : s'.views = s.views)
    (hhouse : s'.house = s.house) (htimer : s'.timer = s.timer) : s'.Judged now := by
  rcases h with hnil | ⟨judged, hle, hat⟩
  · exact .inl (hviews.trans hnil)
  · have hverdict : s'.verdict judged = s.verdict judged := by
      rw [PeerStore.verdict, PeerStore.verdict, merged, merged, hviews]
    refine .inr ⟨judged, hle, ?_, ?_⟩
    · rw [hhouse, hverdict]
      exact hat.isBlocked
    · rw [htimer, hverdict]
      exact hat.timer

/-! ### What the gate says -/

/-- The gate is blocked exactly when an instance was busy. -/
theorem JudgedAt.isBlocked_iff (h : s.JudgedAt judged) :
    s.house.gate.isBlocked = true ↔ ∃ x ∈ s.merged, x.isBusyAt judged = true := by
  rw [h.isBlocked, Bool.not_eq_true']
  exact Verdict.isAllIdle_ofStatuses

/-- A status that is busy now blocks the gate. -/
theorem JudgedAt.blocked_of_busy (h : s.JudgedAt judged) (hle : judged ≤ now)
    (hx : x ∈ s.merged) (hbusy : x.isBusyAt now = true) : s.house.gate.isBlocked = true :=
  h.isBlocked_iff.mpr ⟨x, hx, Status.isBusyAt_of_le hbusy hle⟩

/-- As long as the timer has not fired, a status that was busy is so but for the slack. -/
theorem JudgedAt.busy_within_slack (h : s.JudgedAt judged) (hfired : s.timerFired now = false)
    (hx : x ∈ s.merged) (hbusy : x.isBusyAt judged = true) :
    x.isBusyAt (now - Verdict.expirySlack) = true := by
  obtain ⟨hisBusy, hlease⟩ := Status.isBusyAt_iff.mp hbusy
  refine Status.isBusyAt_iff.mpr ⟨hisBusy, fun t ht => ?_⟩
  obtain ⟨expiry, hexpiry, hle⟩ := Verdict.nextExpiry_le hx hbusy ht
  have htimer : s.timer = some (max expiry.millis judged + Verdict.expirySlack) := by
    rw [h.timer, show (s.verdict judged).nextExpiry = some expiry from hexpiry]
    rfl
  unfold timerFired at hfired
  rw [htimer] at hfired
  have hjudged := hlease t ht
  simp only [decide_eq_false_iff_not] at hfired
  omega

end PeerStore

end Floodgate
