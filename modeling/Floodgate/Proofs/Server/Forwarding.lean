import Floodgate.Proofs.Server.Calls
import Floodgate.Server.Forwarder
/-!
# Floodgate.Proofs.Server.Forwarding

**A forwarder may skip snapshots, but never the last one.** One forwarder works beside a table of
which others ask whatever they like, and there may or may not be room for what it sends. Kept with
it are the snapshots of its lock key, from the one that it found when it subscribed, and the
snapshots that it has sent.

The receiver of the forwarder cuts what has been published in two: what it has seen, and as many
snapshots as its version is behind (`Holds`). What has been sent comes from the part that it has
seen, and while the forwarder is parked it ends with the last of them. So nothing is missing once
the receiver has seen everything, and until then the forwarder does not stay parked.

Main statement: `final_snapshot_sent`.
-/

namespace Floodgate

namespace TableCall

/-- Whether a call is made with a certain receiver, which only its owner can do. -/
def isMadeWith (receiver : Nat) : TableCall → Bool
  | .read y | .drop y => y == receiver
  | _ => false

end TableCall

namespace StatusTable

variable {t : StatusTable} {c : TableCall} {k : String} {rcv : Receiver} {e : TableEntry} {x : Nat}

/-! ### What a call publishes -/

/-- Whether a call publishes a snapshot of a lock key. -/
def announces (t : StatusTable) (lockKey : String) : TableCall → Bool
  | .report r => r.lockKey == lockKey
  | .prune cutoff => (t.snapshotOf lockKey).instances.any (·.2.expiredBefore cutoff)
  | _ => false

/-- The snapshots of a lock key that a call publishes. -/
def published (t : StatusTable) (lockKey : String) (c : TableCall) : List Notification :=
  if t.announces lockKey c then [(t.call c).snapshotOf lockKey] else []

theorem Sound.snapshotOf_of_mem (h : Sound t) (he : e ∈ t.entries) :
    t.snapshotOf e.lockKey = e.snapshot := by
  have hfound : t.entryFor? e.lockKey = some e := (Keyed.find?_eq_some_iff h.lockKeys).mpr ⟨he, rfl⟩
  rw [snapshotOf, hfound]
  rfl

theorem Sound.lockKey_snapshotOf (h : Sound t) (k : String) : (t.snapshotOf k).lockKey = k := by
  unfold snapshotOf
  cases hentry : t.entryFor? k with
  | none => rfl
  | some e =>
    have hkey : e.lockKey = k := Keyed.key_of_find? hentry
    show e.snapshot.lockKey = k
    rw [h.snapshot e (List.mem_of_find?_eq_some hentry), hkey]

/-- A call announces exactly what changes the entry of the lock key. -/
theorem Sound.announces_iff (h : Sound t) (he : e ∈ t.entries) :
    t.announces e.lockKey c = true ↔ Changes c e := by
  cases c with
  | report r => exact beq_iff_eq
  | prune cutoff =>
    rw [announces, h.snapshotOf_of_mem he, h.snapshot e he]
    exact List.any_eq_true
  | _ => exact ⟨nofun, False.elim⟩

theorem snapshotOf_withEntry (t : StatusTable) (lockKey k : String) :
    (t.withEntry lockKey).snapshotOf k = t.snapshotOf k := by
  unfold snapshotOf
  rw [entryFor?_withEntry]
  by_cases hk : k = lockKey
  · rw [if_pos hk, hk]
    cases t.entryFor? lockKey <;> rfl
  · rw [if_neg hk]

/-- A call that announces nothing leaves the snapshot as it was. -/
theorem Sound.snapshotOf_call (h : Sound t) (hsilent : t.announces k c = false) :
    (t.call c).snapshotOf k = t.snapshotOf k := by
  cases c with
  | report r =>
    have hne : k ≠ r.lockKey := fun heq => by simp [announces, heq] at hsilent
    rw [← snapshotOf_withEntry t r.lockKey k]
    unfold snapshotOf
    rw [StatusTable.call, entryFor?_upsert, entryFor?_withEntry, if_neg hne]
    cases hentry : t.entryFor? k with
    | none => rfl
    | some e =>
      have hkey : e.lockKey = k := Keyed.key_of_find? hentry
      have hother : e.lockKey ≠ r.lockKey := hkey ▸ hne
      rw [Option.map_some, reported, if_neg hother]
  | subscribe lockKey =>
    obtain ⟨_, -, -, heq⟩ := t.subscribe_eq lockKey
    rw [StatusTable.call, heq]
    exact snapshotOf_withEntry t lockKey k
  | read y =>
    obtain ⟨receivers, heq⟩ := call_read t y
    rw [heq]
    rfl
  | drop y => rfl
  | prune cutoff =>
    have hkept : unexpired cutoff (t.snapshotOf k).instances = (t.snapshotOf k).instances := by
      refine List.filter_eq_self.mpr fun i hi => ?_
      simp [List.any_eq_false.mp hsilent i hi]
    rw [StatusTable.call, h.snapshotOf_prune, hkept]

end StatusTable

/-- One forwarder beside the table that it reads. -/
structure Forwarding where
  lockKey : String
  table : StatusTable
  forwarder : Forwarder
  /-- The snapshots of the lock key in the order of their publication, from the one that was current
  at the subscription on. -/
  published : List Notification
  /-- What the forwarder has sent, oldest first. -/
  sent : List Notification
  deriving DecidableEq

namespace Forwarding

open StatusTable

/-- What happens next. -/
inductive Turn where
  /-- Someone else asks something of the table. -/
  | call (c : TableCall)
  /-- A section of the forwarder, which may find room for what it sends. -/
  | step (hasRoom : Bool)

/-- A forwarder that starts to send the snapshots of a lock key. -/
def start (calls : List TableCall) (lockKey : String) : Forwarding :=
  let (table, receiver) := (StatusTable.after calls).subscribe lockKey
  ⟨lockKey, table, ⟨receiver, .reading⟩, [table.snapshotOf lockKey], []⟩

/-- A call that others make. -/
def call (s : Forwarding) (c : TableCall) : Forwarding :=
  { s with table := s.table.call c, published := s.published ++ s.table.published s.lockKey c }

/-- A section of the forwarder, if it can go on. -/
def step (s : Forwarding) (hasRoom : Bool) : Option Forwarding :=
  (s.forwarder.step s.table hasRoom).map fun (table, forwarder, sent) =>
    { s with table, forwarder, sent := s.sent ++ sent.toList }

/-- What follows a turn, if the turn is possible. Nobody else has the receiver of the forwarder. -/
def next (s : Forwarding) : Turn → Option Forwarding
  | .call c => if c.isMadeWith s.forwarder.receiver then none else some (s.call c)
  | .step hasRoom => s.step hasRoom

/-- Takes turns, as long as they are possible. -/
def run (s : Forwarding) : List Turn → Option Forwarding
  | [] => some s
  | turn :: rest => (s.next turn).bind (·.run rest)

variable {s s' : Forwarding} {rcv : Receiver} {e : TableEntry} {seen unseen : List Notification}
  {hasRoom : Bool} {c : TableCall}

/-! ### What is kept -/

/-- What a forwarder has sent, by where it stands. -/
def Sent (seen published sent : List Notification) : Forwarder.Stage → Prop
  -- what it is about to read has not been sent, even if it is the only one
  | .reading => sent.Sublist published.dropLast
  | .sending n => (sent ++ [n]).Sublist seen ∧ seen.getLast? = some n
  | .parked => sent.Sublist seen ∧ sent.getLast? = seen.getLast?

/-- What holds of a forwarder beside a table, where its receiver cuts what has been published. -/
structure Holds (s : Forwarding) (rcv : Receiver) (e : TableEntry)
    (seen unseen : List Notification) : Prop where
  sound : s.table.Sound
  attached : s.table.entryOf? s.forwarder.receiver = some (rcv, e)
  lockKey : e.lockKey = s.lockKey
  published : s.published = seen ++ unseen
  /-- The receiver is as many versions behind as there are snapshots that it has not seen. -/
  version : e.version = rcv.seen + unseen.length
  latest : s.published.getLast? = some e.snapshot
  named : ∀ n ∈ s.published, n.lockKey = s.lockKey
  sent : Sent seen s.published s.sent s.forwarder.stage

/-- What has been published last is the present snapshot. -/
theorem Holds.snapshotOf (h : Holds s rcv e seen unseen) :
    s.table.snapshotOf s.lockKey = e.snapshot :=
  h.lockKey ▸ h.sound.snapshotOf_of_mem (mem_of_entryOf? h.attached)

theorem Holds.hasChanged_iff (h : Holds s rcv e seen unseen) :
    s.table.hasChanged s.forwarder.receiver = true ↔ unseen ≠ [] := by
  have hversion := h.version
  rw [hasChanged, h.attached, bne_iff_ne, ← List.length_pos_iff]
  omega

theorem Holds.start (calls : List TableCall) (k : String) :
    ∃ rcv e, Holds (start calls k) rcv e [(start calls k).table.snapshotOf k] [] := by
  have hsound := (agrees_after calls).sound
  have hsound' := hsound.subscribe k
  obtain ⟨rcv, e, hattached, hkey, hseen⟩ := hsound.entryOf?_subscribe k
  have hsnapshot := hsound'.snapshotOf_of_mem (mem_of_entryOf? hattached)
  refine ⟨rcv, e, hsound', ?_, hkey, rfl, hseen.symm, ?_, ?_, .slnil⟩
  · exact (congrArg _ (subscribe_snd k)).trans hattached
  · exact congrArg some (hkey ▸ hsnapshot)
  · intro n hn
    rw [List.mem_singleton.mp hn]
    exact hsound'.lockKey_snapshotOf k

/-- More is published while the forwarder stands still. -/
theorem Sent.append {published sent : List Notification} {stage : Forwarder.Stage}
    (h : Sent seen published sent stage) (more : List Notification) :
    Sent seen (published ++ more) sent stage := by
  cases stage with
  | reading =>
    refine List.Sublist.trans (h : sent.Sublist published.dropLast) ?_
    rcases List.eq_nil_or_concat more with rfl | ⟨front, n, rfl⟩
    · exact (List.append_nil published).symm ▸ .refl _
    · rw [List.concat_eq_append, ← List.append_assoc, List.dropLast_concat]
      exact (List.dropLast_sublist _).trans (List.sublist_append_left _ _)
  | sending n => exact h
  | parked => exact h

/-- What others ask of the table adds to what the forwarder has not seen. -/
theorem Holds.call (h : Holds s rcv e seen unseen)
    (hother : c.isMadeWith s.forwarder.receiver = false) :
    ∃ rcv' e' unseen', Holds (s.call c) rcv' e' seen unseen' := by
  have hdrop : c ≠ .drop s.forwarder.receiver := by
    rintro rfl
    simp [TableCall.isMadeWith] at hother
  have hread : c ≠ .read s.forwarder.receiver := by
    rintro rfl
    simp [TableCall.isMadeWith] at hother
  obtain ⟨rcv', e', hattached, hstays⟩ := h.sound.entryOf?_call h.attached hdrop
  have hsound := h.sound.call c
  have hkey : e'.lockKey = s.lockKey := hstays.lockKey.trans h.lockKey
  have hsnapshot : (s.table.call c).snapshotOf s.lockKey = e'.snapshot :=
    hkey ▸ hsound.snapshotOf_of_mem (mem_of_entryOf? hattached)
  have hseen : rcv'.seen = rcv.seen := by
    rcases hstays.seen with ⟨heq, -⟩ | ⟨-, hseen⟩
    · exact absurd heq hread
    · exact hseen
  have hannounces := h.sound.announces_iff (c := c) (mem_of_entryOf? h.attached)
  rw [h.lockKey] at hannounces
  have hversion := h.version
  rcases hstays.version with ⟨hchanges, hversion'⟩ | ⟨hsame, hversion'⟩
  · have hpublished : s.table.published s.lockKey c = [e'.snapshot] := by
      rw [StatusTable.published, if_pos (hannounces.mpr hchanges), hsnapshot]
    refine ⟨rcv', e', unseen ++ [e'.snapshot], hsound, hattached, hkey, ?_, ?_, ?_, ?_, ?_⟩
    · rw [Forwarding.call, hpublished, h.published, List.append_assoc]
    · rw [hversion', hseen, List.length_append, List.length_singleton]
      omega
    · rw [Forwarding.call, hpublished, List.getLast?_concat]
    · intro n hn
      rw [Forwarding.call, hpublished] at hn
      rcases List.mem_append.mp hn with hn | hn
      · exact h.named n hn
      · rw [List.mem_singleton.mp hn, ← hsnapshot]
        exact hsound.lockKey_snapshotOf _
    · exact h.sent.append _
  · have hsilent : s.table.announces s.lockKey c = false :=
      Bool.eq_false_iff.mpr fun heq => hsame (hannounces.mp heq)
    have hpublished : s.table.published s.lockKey c = [] := by
      rw [StatusTable.published, if_neg (Bool.eq_false_iff.mp hsilent)]
    have hunchanged : e'.snapshot = e.snapshot := by
      rw [← hsnapshot, h.sound.snapshotOf_call hsilent, h.snapshotOf]
    refine ⟨rcv', e', unseen, hsound, hattached, hkey, ?_, ?_, ?_, ?_, ?_⟩
    · rw [Forwarding.call, hpublished, List.append_nil, h.published]
    · rw [hversion', hseen, hversion]
    · rw [Forwarding.call, hpublished, List.append_nil, hunchanged, h.latest]
    · rw [Forwarding.call, hpublished, List.append_nil]
      exact h.named
    · exact h.sent.append _

/-! ### The sections of the forwarder -/

/-- What is read is what has been published last, and everything has been seen then. -/
theorem Holds.reading (h : Holds s rcv e seen unseen) (hstage : s.forwarder.stage = .reading)
    (hasRoom : Bool) :
    ∃ table rcv', s.step hasRoom = some { s with
        table, forwarder := { s.forwarder with stage := .sending e.snapshot } } ∧
      Holds { s with table, forwarder := { s.forwarder with stage := .sending e.snapshot } }
        rcv' e s.published [] := by
  obtain ⟨table, hread⟩ : ∃ table, s.table.read s.forwarder.receiver = some (e.snapshot, table) :=
    ⟨_, by rw [StatusTable.read, h.attached]; rfl⟩
  obtain ⟨rcv₀, e₀, hattached₀, -, htable⟩ := read_eq_some hread
  obtain ⟨rfl, rfl⟩ := Prod.mk.inj (Option.some.inj (hattached₀.symm.trans h.attached))
  have hattached := entryOf?_read htable h.attached
  rw [if_pos rfl] at hattached
  have hsent := h.sent
  rw [hstage] at hsent
  refine ⟨table, _, ?_, h.sound.read htable, hattached, h.lockKey, (List.append_nil _).symm, rfl,
    h.latest, h.named, ?_, h.latest⟩
  · simp [step, Forwarder.step, hstage, hread]
  · obtain ⟨front, hfront⟩ := List.getLast?_eq_some_iff.mp h.latest
    rw [Sent, hfront, List.dropLast_concat] at hsent
    rw [hfront]
    exact hsent.append (.refl _)

theorem Holds.sending (h : Holds s rcv e seen unseen) {n : Notification}
    (hstage : s.forwarder.stage = .sending n) :
    (∀ hasRoom, s.step hasRoom = if hasRoom then some { s with
        forwarder := { s.forwarder with stage := .parked }, sent := s.sent ++ [n] } else none) ∧
      Holds { s with forwarder := { s.forwarder with stage := .parked }, sent := s.sent ++ [n] }
        rcv e seen unseen := by
  have hsent := h.sent
  rw [hstage] at hsent
  refine ⟨fun hasRoom => ?_, { h with sent := ⟨hsent.1, List.getLast?_concat.trans hsent.2.symm⟩ }⟩
  cases hasRoom <;> simp [step, Forwarder.step, hstage]

/-- A parked forwarder goes on exactly if there is something that it has not seen. -/
theorem Holds.parked (h : Holds s rcv e seen unseen) (hstage : s.forwarder.stage = .parked) :
    (∀ hasRoom, s.step hasRoom = if unseen = [] then none else some { s with
        forwarder := { s.forwarder with stage := .reading } }) ∧
      (unseen ≠ [] → Holds { s with forwarder := { s.forwarder with stage := .reading } }
        rcv e seen unseen) := by
  have hsent := h.sent
  rw [hstage] at hsent
  constructor
  · intro hasRoom
    by_cases hunseen : unseen = []
    · have hsame : s.table.hasChanged s.forwarder.receiver = false :=
        Bool.eq_false_iff.mpr fun hchanged => h.hasChanged_iff.mp hchanged hunseen
      simp [step, Forwarder.step, hstage, hsame, hunseen]
    · simp [step, Forwarder.step, hstage, h.hasChanged_iff.mpr hunseen, hunseen]
  · intro hunseen
    refine { h with sent := ?_ }
    show s.sent.Sublist s.published.dropLast
    rw [h.published, List.dropLast_append_of_ne_nil hunseen]
    exact hsent.1.trans (List.sublist_append_left _ _)

/-- A section changes neither what has been published nor what is kept. -/
theorem Holds.step (h : Holds s rcv e seen unseen) (hstep : s.step hasRoom = some s') :
    (s'.lockKey = s.lockKey ∧ s'.published = s.published) ∧
      ∃ rcv' e' seen' unseen', Holds s' rcv' e' seen' unseen' := by
  cases hstage : s.forwarder.stage with
  | reading =>
    obtain ⟨table, rcv', heq, hholds⟩ := h.reading hstage hasRoom
    obtain rfl := Option.some.inj (heq.symm.trans hstep)
    exact ⟨⟨rfl, rfl⟩, _, _, _, _, hholds⟩
  | sending n =>
    obtain ⟨heq, hholds⟩ := h.sending hstage
    rw [heq, Option.ite_none_right_eq_some] at hstep
    obtain ⟨-, hstep⟩ := hstep
    obtain rfl := Option.some.inj hstep
    exact ⟨⟨rfl, rfl⟩, _, _, _, _, hholds⟩
  | parked =>
    obtain ⟨heq, hholds⟩ := h.parked hstage
    rw [heq, Option.ite_none_left_eq_some] at hstep
    obtain ⟨hunseen, hstep⟩ := hstep
    obtain rfl := Option.some.inj hstep
    exact ⟨⟨rfl, rfl⟩, _, _, _, _, hholds hunseen⟩

/-- How many sections a forwarder needs to have sent everything, if nothing more is published. -/
def lag (s : Forwarding) : Nat :=
  match s.forwarder.stage with
  | .reading => 2
  | .sending _ => if s.table.hasChanged s.forwarder.receiver then 4 else 1
  | .parked => if s.table.hasChanged s.forwarder.receiver then 3 else 0

theorem lag_le (s : Forwarding) : s.lag ≤ 4 := by
  unfold lag
  split
  · omega
  · split <;> omega
  · split <;> omega

theorem lag_eq_zero_iff : s.lag = 0 ↔
    s.forwarder.stage = .parked ∧ s.table.hasChanged s.forwarder.receiver = false := by
  unfold lag
  cases s.forwarder.stage <;> cases s.table.hasChanged s.forwarder.receiver <;> simp

/-- A forwarder that has not sent everything gets on if there is room. -/
theorem Holds.advance (h : Holds s rcv e seen unseen) {n : Nat} (hlag : s.lag = n + 1) :
    ∃ s', s.step true = some s' ∧ s'.lag = n := by
  unfold lag at hlag
  cases hstage : s.forwarder.stage with
  | reading =>
    obtain ⟨table, rcv', heq, hholds⟩ := h.reading hstage true
    have hseen : table.hasChanged s.forwarder.receiver = false :=
      Bool.eq_false_iff.mpr fun hchanged => hholds.hasChanged_iff.mp hchanged rfl
    refine ⟨_, heq, ?_⟩
    simp only [hstage] at hlag
    simp only [lag, hseen, Bool.false_eq_true, if_false]
    omega
  | sending snapshot =>
    obtain ⟨heq, -⟩ := h.sending hstage
    refine ⟨_, (heq true).trans (if_pos rfl), ?_⟩
    simp only [hstage] at hlag
    simp only [lag]
    split at hlag <;> simp_all
  | parked =>
    obtain ⟨heq, -⟩ := h.parked hstage
    simp only [hstage] at hlag
    split at hlag
    · next hchanged =>
      refine ⟨_, (heq true).trans (if_neg (h.hasChanged_iff.mp hchanged)), ?_⟩
      simp only [lag]
      omega
    · cases hlag

/-- A forwarder that has sent everything has sent the present snapshot last. -/
theorem Holds.getLast?_sent (h : Holds s rcv e seen unseen) (hlag : s.lag = 0) :
    s.sent.getLast? = s.published.getLast? := by
  obtain ⟨hstage, hsame⟩ := lag_eq_zero_iff.mp hlag
  have hsent := h.sent
  rw [hstage] at hsent
  have hunseen : unseen = [] := Classical.not_not.mp fun hne =>
    Bool.eq_false_iff.mp hsame (h.hasChanged_iff.mpr hne)
  rw [h.published, hunseen, List.append_nil]
  exact hsent.2

/-- A forwarder that is left alone sends everything. -/
theorem Holds.drains (n : Nat) : ∀ {s : Forwarding} {rcv e seen unseen},
    Holds s rcv e seen unseen → s.lag = n →
    ∃ s', s.run (List.replicate n (.step true)) = some s' ∧ s'.lag = 0 ∧
      s'.sent.getLast? = s.published.getLast? := by
  induction n with
  | zero => exact fun h hlag => ⟨_, rfl, hlag, h.getLast?_sent hlag⟩
  | succ n ih =>
    intro s rcv e seen unseen h hlag
    obtain ⟨s₁, hstep, hlag₁⟩ := h.advance hlag
    obtain ⟨⟨-, hpublished⟩, rcv₁, e₁, seen₁, unseen₁, hholds⟩ := h.step hstep
    obtain ⟨s', hrun, hzero, hlast⟩ := ih hholds hlag₁
    refine ⟨s', ?_, hzero, hpublished ▸ hlast⟩
    rw [List.replicate_succ, run, next, hstep]
    exact hrun

/-! ### Runs -/

/-- What turns keep, runs keep. -/
theorem run_induction {motive : Forwarding → Prop}
    (hcall : ∀ s c, motive s → c.isMadeWith s.forwarder.receiver = false → motive (s.call c))
    (hstep : ∀ s hasRoom s', motive s → s.step hasRoom = some s' → motive s')
    {turns : List Turn} {s s' : Forwarding} (hs : motive s) (hrun : s.run turns = some s') :
    motive s' := by
  induction turns generalizing s with
  | nil => exact Option.some.inj hrun ▸ hs
  | cons turn rest ih =>
    obtain ⟨s₁, hnext, hrun⟩ := Option.bind_eq_some_iff.mp hrun
    refine ih ?_ hrun
    cases turn with
    | call c =>
      rw [next, Option.ite_none_left_eq_some] at hnext
      obtain ⟨hother, heq⟩ := hnext
      exact Option.some.inj heq ▸ hcall s c hs (Bool.eq_false_iff.mpr hother)
    | step hasRoom => exact hstep s hasRoom s₁ hs hnext

theorem holds_of_run {calls : List TableCall} {k : String} {turns : List Turn}
    (hrun : (start calls k).run turns = some s) :
    s.lockKey = k ∧ s.published.head? = some ((start calls k).table.snapshotOf k) ∧
      ∃ rcv e seen unseen, Holds s rcv e seen unseen := by
  refine run_induction (motive := fun s => s.lockKey = k ∧
    s.published.head? = some ((start calls k).table.snapshotOf k) ∧
      ∃ rcv e seen unseen, Holds s rcv e seen unseen) ?_ ?_ ?_ hrun
  · rintro s c ⟨hkey, hfirst, rcv, e, seen, unseen, hholds⟩ hother
    obtain ⟨rcv', e', unseen', hholds'⟩ := hholds.call hother
    refine ⟨hkey, ?_, rcv', e', seen, unseen', hholds'⟩
    rw [Forwarding.call, List.head?_append, hfirst, Option.some_or]
  · rintro s hasRoom s' ⟨hkey, hfirst, rcv, e, seen, unseen, hholds⟩ hstep
    obtain ⟨⟨hkey', hpublished⟩, hholds'⟩ := hholds.step hstep
    exact ⟨hkey'.trans hkey, hpublished ▸ hfirst, hholds'⟩
  · obtain ⟨rcv, e, hholds⟩ := Holds.start calls k
    exact ⟨rfl, rfl, rcv, e, _, _, hholds⟩

theorem Holds.sublist (h : Holds s rcv e seen unseen) : s.sent.Sublist s.published := by
  have hsent := h.sent
  have hseen : seen.Sublist s.published := h.published ▸ List.sublist_append_left _ _
  cases hstage : s.forwarder.stage with
  | reading =>
    rw [hstage] at hsent
    exact List.Sublist.trans hsent (List.dropLast_sublist _)
  | sending n =>
    rw [hstage] at hsent
    exact ((List.sublist_append_left _ _).trans hsent.1).trans hseen
  | parked =>
    rw [hstage] at hsent
    exact hsent.1.trans hseen

/-- **However others use the table, and however long there is no room, a forwarder sends some of the
snapshots of its lock key, in the order of their publication: from the one that is current when it
subscribes on. They are all of that lock key. Whenever it is parked and waits for a change, the last
snapshot that it has sent is the current one; and if nothing more is published, then four sections
are enough until it is.** -/
theorem final_snapshot_sent (calls : List TableCall) (k : String) (turns : List Turn)
    (hrun : (start calls k).run turns = some s) :
    s.published.head? = some (((StatusTable.after calls).subscribe k).1.snapshotOf k) ∧
    s.published.getLast? = some (s.table.snapshotOf k) ∧
    s.sent.Sublist s.published ∧
    (∀ n ∈ s.sent, n.lockKey = k) ∧
    (s.forwarder.stage = .parked → s.table.hasChanged s.forwarder.receiver = false →
      s.sent.getLast? = some (s.table.snapshotOf k)) ∧
    ∃ n ≤ 4, ∃ s', s.run (List.replicate n (.step true)) = some s' ∧
      s'.forwarder.stage = .parked ∧ s'.table.hasChanged s'.forwarder.receiver = false ∧
      s'.sent.getLast? = some (s.table.snapshotOf k) := by
  obtain ⟨rfl, hfirst, rcv, e, seen, unseen, hholds⟩ := holds_of_run hrun
  have hlatest : s.published.getLast? = some (s.table.snapshotOf s.lockKey) :=
    hholds.latest.trans (congrArg some hholds.snapshotOf.symm)
  obtain ⟨s', hdrained, hzero, hlast⟩ := hholds.drains _ rfl
  obtain ⟨hparked, hsame⟩ := lag_eq_zero_iff.mp hzero
  exact ⟨hfirst, hlatest, hholds.sublist, fun n hn => hholds.named n (hholds.sublist.subset hn),
    fun hstage hsame => (hholds.getLast?_sent (lag_eq_zero_iff.mpr ⟨hstage, hsame⟩)).trans hlatest,
    s.lag, s.lag_le, s', hdrained, hparked, hsame, hlast.trans hlatest⟩

/-- While a forwarder waits for room, an instance reports, another lock key changes, someone else
subscribes, and an expired status is pruned. -/
def crowdedTurns : List Turn :=
  [.step true, .call (.report ⟨"k", "b", ⟨true, "late", 0⟩⟩),
    .call (.report ⟨"other", "a", ⟨false, "", 0⟩⟩), .call (.subscribe "k"), .call (.read 1),
    .call (.prune ⟨2500, by decide, by decide⟩), .step true, .step true, .step true, .step true]

theorem final_snapshot_sent_of_crowded : ∃ s,
    (start [.report ⟨"k", "a", ⟨true, "early", 2000⟩⟩] "k").run crowdedTurns = some s ∧
    (s.forwarder.stage = .parked ∧ s.table.hasChanged s.forwarder.receiver = false) ∧
    (s.published.length = 3 ∧ s.sent.length = 2) ∧
    s.sent.getLast? = some (s.table.snapshotOf "k") := by
  have hsome : ((start [.report ⟨"k", "a", ⟨true, "early", 2000⟩⟩] "k").run
      crowdedTurns).isSome = true := by decide
  obtain ⟨s, hrun⟩ := Option.isSome_iff_exists.mp hsome
  have hfacts : ((start [.report ⟨"k", "a", ⟨true, "early", 2000⟩⟩] "k").run crowdedTurns).map
      (fun s => (s.forwarder.stage, s.table.hasChanged s.forwarder.receiver,
        s.published.length, s.sent.length)) = some (.parked, false, 3, 2) := by decide
  rw [hrun, Option.map_some, Option.some.injEq] at hfacts
  simp only [Prod.mk.injEq] at hfacts
  obtain ⟨hstage, hsame, hpublished, hsent⟩ := hfacts
  exact ⟨s, hrun, ⟨hstage, hsame⟩, ⟨hpublished, hsent⟩,
    (final_snapshot_sent _ "k" crowdedTurns hrun).2.2.2.2.1 hstage hsame⟩

end Forwarding

end Floodgate
