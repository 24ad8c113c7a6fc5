import Floodgate.Proofs.Server.Prune
/-!
# Floodgate.Proofs.Server.Calls

**Table, snapshots and receivers agree.** A table is asked to record reports, to attach receivers,
to let them read, to drop them and to prune, in any order. Its calls are kept latest first, so that
what came before a call is the rest of the list. From them one reads off what the status of an
instance has to be (`reported?`), which lock key a receiver is for (`subscribedTo?`), and whether
anything has been published that it has not seen (`Unseen`).

What a call does to a receiver and to its entry is said once (`entryOf?_call`): the receiver stays
attached to the same entry whatever happens, and the version of that entry moves on exactly if
something is published. Pruning is the call that might break this, as it drops entries.

Main statement: `receivers_follow_table`.
-/

namespace Floodgate

/-- Something that is asked of a table. -/
inductive TableCall where
  /-- An instance reports its status. -/
  | report (r : StatusRequest)
  | subscribe (lockKey : String)
  | read (receiver : Nat)
  /-- A receiver is dropped. -/
  | drop (receiver : Nat)
  | prune (cutoff : Timestamp)

namespace TableCall

variable {calls later earlier : List TableCall} {c : TableCall} {x : Nat} {k : String}

/-! ### Histories of calls, latest first -/

/-- The status of an instance under a lock key: the one last reported, unless it has been pruned
since. -/
def reported? (lockKey id : String) : List TableCall → Option WireStatus
  | [] => none
  | .report r :: earlier =>
    if lockKey = r.lockKey ∧ id = r.instanceId then some r.status else reported? lockKey id earlier
  | .prune cutoff :: earlier => (reported? lockKey id earlier).filter (!·.expiredBefore cutoff)
  | _ :: earlier => reported? lockKey id earlier

def isSubscribe : TableCall → Bool
  | .subscribe _ => true
  | _ => false

/-- How many receivers have been attached, which is the number of the next one. -/
def subscriptions (calls : List TableCall) : Nat := calls.countP isSubscribe

/-- The lock key that a receiver has subscribed to, unless it has been dropped. -/
def subscribedTo? (x : Nat) : List TableCall → Option String
  | [] => none
  | .subscribe lockKey :: earlier =>
    if subscriptions earlier = x then some lockKey else subscribedTo? x earlier
  | .drop y :: earlier => if y = x then none else subscribedTo? x earlier
  | _ :: earlier => subscribedTo? x earlier

/-- Whether a call publishes a snapshot of a lock key: a report under it does, and so does pruning
that takes a status out. -/
def Publishes (lockKey : String) (earlier : List TableCall) : TableCall → Prop
  | .report r => r.lockKey = lockKey
  | .prune cutoff =>
    ∃ id w, reported? lockKey id earlier = some w ∧ w.expiredBefore cutoff = true
  | _ => False

/-- Whether a receiver has seen what is published after a call: it has just been attached, or it
has read. -/
def Looks (x : Nat) (earlier : List TableCall) : TableCall → Prop
  | .subscribe _ => subscriptions earlier = x
  | .read y => y = x
  | _ => False

/-- A snapshot of a lock key has been published since a receiver last looked. -/
def Unseen (lockKey : String) (x : Nat) : List TableCall → Prop
  | [] => False
  | c :: earlier => ¬ c.Looks x earlier ∧ (c.Publishes lockKey earlier ∨ Unseen lockKey x earlier)

theorem subscriptions_cons (c : TableCall) (earlier : List TableCall) :
    subscriptions (c :: earlier) = subscriptions earlier + if c.isSubscribe then 1 else 0 :=
  List.countP_cons

/-- Whoever has subscribed has had a number. -/
theorem lt_subscriptions (h : subscribedTo? x calls = some k) : x < subscriptions calls := by
  induction calls with
  | nil => cases h
  | cons c earlier ih =>
    rw [subscriptions_cons]
    cases c with
    | subscribe lockKey =>
      rw [subscribedTo?] at h
      split at h
      · next heq =>
        rw [← heq]
        exact Nat.lt_succ_self _
      · exact Nat.lt_succ_of_lt (ih h)
    | drop y =>
      rw [subscribedTo?] at h
      split at h
      · cases h
      · exact ih h
    | _ => exact ih h

theorem subscriptions_le_append (later earlier : List TableCall) :
    subscriptions earlier ≤ subscriptions (later ++ earlier) := by
  rw [subscriptions, subscriptions, List.countP_append]
  exact Nat.le_add_left _ _

/-- A receiver that has a lock key has just been attached, or it had the lock key before and is not
dropped. -/
theorem subscribedTo?_cons (h : subscribedTo? x (c :: earlier) = some k) :
    (c = .subscribe k ∧ subscriptions earlier = x) ∨
      (c ≠ .drop x ∧ subscribedTo? x earlier = some k) := by
  cases c with
  | subscribe lockKey =>
    rw [subscribedTo?] at h
    split at h
    · next heq => exact .inl ⟨congrArg _ (Option.some.inj h), heq⟩
    · exact .inr ⟨nofun, h⟩
  | drop y =>
    rw [subscribedTo?] at h
    split at h
    · cases h
    · next hne => exact .inr ⟨fun heq => hne (TableCall.drop.inj heq), h⟩
  | _ => exact .inr ⟨nofun, h⟩

end TableCall

namespace StatusTable

open TableCall

variable {t : StatusTable} {calls earlier : List TableCall} {c : TableCall} {x : Nat}
  {k : String} {rcv rcv' : Receiver} {e e' : TableEntry}

/-- Carries out a call. -/
def call (t : StatusTable) : TableCall → StatusTable
  | .report r => t.upsert r
  | .subscribe lockKey => (t.subscribe lockKey).1
  | .read receiver => ((t.read receiver).map (·.2)).getD t
  | .drop receiver => t.unsubscribe receiver
  | .prune cutoff => (t.prune cutoff).1

/-- The table after some calls. -/
def after (calls : List TableCall) : StatusTable := calls.foldr (fun c t => t.call c) .empty

/-! ### Dropping a receiver -/

theorem Sound.unsubscribe (h : Sound t) (x : Nat) : Sound (t.unsubscribe x) where
  lockKeys := h.lockKeys
  numbers := h.numbers
  number_lt := h.number_lt
  receivers := Keyed.nodup_filter h.receivers
  receiver_lt r hr := h.receiver_lt r (List.mem_filter.mp hr).1
  snapshot := h.snapshot
  instances := h.instances

theorem entryOf?_unsubscribe {y : Nat} (hx : t.entryOf? x = some (rcv, e)) (hne : x ≠ y) :
    (t.unsubscribe y).entryOf? x = some (rcv, e) := by
  obtain ⟨hrcv, he⟩ := entryOf?_eq_some_iff.mp hx
  refine entryOf?_eq_some_iff.mpr ⟨?_, he⟩
  exact (Keyed.find?_filter_ne (f := Receiver.number) x).trans ((if_neg hne).trans hrcv)

/-! ### What a call does to a receiver -/

/-- Whether a call publishes a snapshot of an entry. -/
def Changes (c : TableCall) (e : TableEntry) : Prop :=
  match c with
  | .report r => r.lockKey = e.lockKey
  | .prune cutoff => ∃ i ∈ e.instances, i.2.expiredBefore cutoff = true
  | _ => False

/-- What a call makes of a receiver and of the entry that it is attached to. -/
structure Stays (c : TableCall) (x : Nat) (rcv : Receiver) (e : TableEntry) (rcv' : Receiver)
    (e' : TableEntry) : Prop where
  number : e'.number = e.number
  lockKey : e'.lockKey = e.lockKey
  version : (Changes c e ∧ e'.version = e.version + 1) ∨ (¬ Changes c e ∧ e'.version = e.version)
  seen : (c = .read x ∧ rcv'.seen = e'.version) ∨ (c ≠ .read x ∧ rcv'.seen = rcv.seen)

/-- A call that publishes nothing. -/
theorem Stays.refl (hchanges : ¬ Changes c e) (hread : c ≠ .read x) : Stays c x rcv e rcv e :=
  ⟨rfl, rfl, .inr ⟨hchanges, rfl⟩, .inr ⟨hread, rfl⟩⟩

/-- **Whoever is attached to an entry stays attached to it,** unless it is dropped. -/
theorem Sound.entryOf?_call (h : Sound t) (hx : t.entryOf? x = some (rcv, e))
    (hdrop : c ≠ .drop x) :
    ∃ rcv' e', (t.call c).entryOf? x = some (rcv', e') ∧ Stays c x rcv e rcv' e' := by
  cases c with
  | report r =>
    refine ⟨rcv, reported r e, entryOf?_upsert r hx, reported_number r e, reported_lockKey r e, ?_,
      .inr ⟨nofun, rfl⟩⟩
    unfold reported
    by_cases hkey : e.lockKey = r.lockKey
    · rw [if_pos hkey]
      exact .inl ⟨hkey.symm, rfl⟩
    · rw [if_neg hkey]
      exact .inr ⟨fun heq => hkey heq.symm, rfl⟩
  | subscribe lockKey => exact ⟨rcv, e, entryOf?_subscribe_of_old lockKey hx, .refl id nofun⟩
  | read y =>
    cases hread : t.read y with
    | none =>
      -- whoever is attached can read, so it is another receiver that cannot
      have hne : TableCall.read y ≠ .read x := by
        rintro heq
        cases heq
        rw [StatusTable.read, hx] at hread
        cases hread
      refine ⟨rcv, e, ?_, .refl id hne⟩
      rw [call, hread]
      exact hx
    | some out =>
      obtain ⟨n, t'⟩ := out
      obtain ⟨rcv₀, e₀, hattached, -, ht'⟩ := read_eq_some hread
      have hx' := entryOf?_read ht' hx
      refine ⟨if x = y then { rcv with seen := e₀.version } else rcv, e, ?_, rfl, rfl,
        .inr ⟨id, rfl⟩, ?_⟩
      · rw [call, hread]
        exact hx'
      · by_cases hy : x = y
        · subst hy
          obtain ⟨-, rfl⟩ := Prod.mk.inj (Option.some.inj (hattached.symm.trans hx))
          rw [if_pos rfl]
          exact .inl ⟨rfl, rfl⟩
        · rw [if_neg hy]
          exact .inr ⟨fun heq => hy (TableCall.read.inj heq).symm, rfl⟩
  | drop y =>
    have hne : x ≠ y := fun heq => hdrop (heq ▸ rfl)
    exact ⟨rcv, e, entryOf?_unsubscribe hx hne, .refl id nofun⟩
  | prune cutoff =>
    refine ⟨rcv, pruned cutoff e, h.entryOf?_prune cutoff hx, pruned_number cutoff e,
      pruned_lockKey cutoff e, ?_, .inr ⟨nofun, rfl⟩⟩
    rcases pruned_version cutoff e with ⟨hnone, hversion⟩ | ⟨hexpired, hversion⟩
    · refine .inr ⟨?_, hversion⟩
      rintro ⟨i, hi, hexpired⟩
      rw [hnone i hi] at hexpired
      cases hexpired
    · exact .inl ⟨hexpired, hversion⟩

/-! ### What is kept -/

/-- What calls say of the table that they lead to. -/
structure Agrees (calls : List TableCall) (t : StatusTable) : Prop where
  sound : Sound t
  status : ∀ k id, t.statusOf? k id = reported? k id calls
  next : t.nextReceiver = subscriptions calls
  /-- A receiver is attached to the entry of its lock key, and knows when something is new. -/
  attached : ∀ x k, subscribedTo? x calls = some k → ∃ rcv e, t.entryOf? x = some (rcv, e) ∧
    e.lockKey = k ∧ rcv.seen ≤ e.version ∧ (rcv.seen ≠ e.version ↔ Unseen k x calls)

theorem Agrees.empty : Agrees [] .empty := ⟨.empty, fun _ _ => rfl, rfl, nofun⟩

theorem Sound.call (h : Sound t) (c : TableCall) : Sound (t.call c) := by
  cases c with
  | report r => exact h.upsert r
  | subscribe lockKey => exact h.subscribe lockKey
  | read y =>
    cases hread : t.read y with
    | none => rwa [StatusTable.call, hread]
    | some out =>
      obtain ⟨_, _, -, -, ht'⟩ := read_eq_some hread
      rw [StatusTable.call, hread]
      exact Sound.read ht' h
  | drop y => exact h.unsubscribe y
  | prune cutoff => exact h.prune cutoff

/-- Reading changes nothing but what the receiver has seen. -/
theorem call_read (t : StatusTable) (x : Nat) :
    ∃ receivers, t.call (.read x) = { t with receivers } := by
  cases hread : t.read x with
  | none => exact ⟨t.receivers, by rw [call, hread]; rfl⟩
  | some out =>
    obtain ⟨_, _, -, -, ht'⟩ := read_eq_some hread
    exact ⟨_, by rw [call, hread]; exact ht'⟩

theorem statusOf?_call (h : Agrees earlier t) (c : TableCall) (k id : String) :
    (t.call c).statusOf? k id = reported? k id (c :: earlier) := by
  cases c with
  | report r => exact (statusOf?_upsert t r k id).trans (by rw [h.status, reported?])
  | subscribe lockKey => exact (statusOf?_subscribe lockKey k id).trans (h.status k id)
  | read y =>
    obtain ⟨receivers, heq⟩ := call_read t y
    rw [heq]
    exact h.status k id
  | drop y => exact h.status k id
  | prune cutoff => exact (h.sound.statusOf?_prune cutoff k id).trans (by rw [h.status, reported?])

theorem nextReceiver_call (t : StatusTable) (c : TableCall) :
    (t.call c).nextReceiver = t.nextReceiver + if c.isSubscribe then 1 else 0 := by
  cases c with
  | report r => exact nextReceiver_withEntry t r.lockKey
  | subscribe lockKey =>
    obtain ⟨_, -, -, heq⟩ := t.subscribe_eq lockKey
    rw [call, heq]
    rfl
  | read y =>
    obtain ⟨receivers, heq⟩ := call_read t y
    rw [heq]
    rfl
  | drop y => rfl
  | prune cutoff => rfl

/-- Seen from an entry, a call publishes what it publishes under its lock key. -/
theorem Agrees.changes_iff (h : Agrees earlier t) (he : e ∈ t.entries) (c : TableCall) :
    Changes c e ↔ c.Publishes e.lockKey earlier := by
  cases c with
  | prune cutoff =>
    simp only [Changes, Publishes, ← h.status, h.sound.statusOf?_of_mem he,
      Assoc.lookup_eq_some_iff (h.sound.instances e he)]
    exact ⟨fun ⟨i, hi, hexpired⟩ => ⟨i.1, i.2, hi, hexpired⟩,
      fun ⟨id, w, hi, hexpired⟩ => ⟨(id, w), hi, hexpired⟩⟩
  | _ => exact Iff.rfl

/-- A receiver goes on to know when something is new. -/
theorem Stays.unseen (h : Stays c x rcv e rcv' e') (hseen : rcv.seen ≤ e.version)
    (hunseen : rcv.seen ≠ e.version ↔ Unseen k x earlier)
    (hchanges : Changes c e ↔ c.Publishes k earlier)
    (hlooks : c.Looks x earlier ↔ c = .read x) :
    rcv'.seen ≤ e'.version ∧ (rcv'.seen ≠ e'.version ↔ Unseen k x (c :: earlier)) := by
  rw [Unseen, hlooks]
  rcases h.seen with ⟨hread, hseen'⟩ | ⟨hread, hseen'⟩
  · refine ⟨Nat.le_of_eq hseen', fun hne => absurd hseen' hne, fun hnot => absurd hread hnot.1⟩
  · rw [hseen']
    rcases h.version with ⟨hnew, hversion⟩ | ⟨hsame, hversion⟩
    · have hlt : rcv.seen < e'.version := hversion ▸ Nat.lt_succ_of_le hseen
      exact ⟨Nat.le_of_lt hlt,
        fun _ => ⟨hread, .inl (hchanges.mp hnew)⟩, fun _ => Nat.ne_of_lt hlt⟩
    · rw [hversion]
      refine ⟨hseen, fun hne => ⟨hread, .inr (hunseen.mp hne)⟩, fun ⟨_, hor⟩ => hunseen.mpr ?_⟩
      exact hor.resolve_left fun hpublishes => hsame (hchanges.mpr hpublishes)

theorem Agrees.call (h : Agrees earlier t) (c : TableCall) : Agrees (c :: earlier) (t.call c) where
  sound := h.sound.call c
  status := statusOf?_call h c
  next := by rw [nextReceiver_call, h.next, subscriptions_cons]
  attached x k hx := by
    rcases subscribedTo?_cons hx with ⟨rfl, hnumber⟩ | ⟨hdrop, hold⟩
    · -- a new receiver counts as having seen what was published before
      obtain ⟨rcv, e, hattached, hkey, hseen⟩ := h.sound.entryOf?_subscribe k
      rw [h.next, hnumber] at hattached
      exact ⟨rcv, e, hattached, hkey, Nat.le_of_eq hseen, fun hne => absurd hseen hne,
        fun hunseen => absurd hnumber hunseen.1⟩
    · obtain ⟨rcv, e, hattached, rfl, hseen, hunseen⟩ := h.attached x k hold
      obtain ⟨rcv', e', hattached', hstays⟩ := h.sound.entryOf?_call hattached hdrop
      have hlooks : c.Looks x earlier ↔ c = .read x := by
        cases c with
        | subscribe lockKey =>
          exact ⟨fun heq => absurd heq (Nat.ne_of_gt (lt_subscriptions hold)), nofun⟩
        | read y => exact ⟨congrArg _, TableCall.read.inj⟩
        | _ => exact ⟨False.elim, nofun⟩
      have hchanges := h.changes_iff (mem_of_entryOf? hattached) c
      exact ⟨rcv', e', hattached', hstays.lockKey,
        hstays.unseen hseen hunseen hchanges hlooks⟩

theorem agrees_after (calls : List TableCall) : Agrees calls (after calls) := by
  induction calls with
  | nil => exact .empty
  | cons c earlier ih => exact ih.call c

/-- Whatever is asked of the table later, a receiver that is not dropped keeps its entry. -/
theorem entryOf?_after_append (later : List TableCall)
    (hx : (after calls).entryOf? x = some (rcv, e)) (hold : subscribedTo? x calls = some k)
    (hlive : (subscribedTo? x (later ++ calls)).isSome = true) :
    ∃ rcv' e', (after (later ++ calls)).entryOf? x = some (rcv', e') ∧ e'.number = e.number ∧
      e'.lockKey = e.lockKey := by
  induction later with
  | nil => exact ⟨rcv, e, hx, rfl, rfl⟩
  | cons c later ih =>
    obtain ⟨k', hk'⟩ := Option.isSome_iff_exists.mp hlive
    rcases subscribedTo?_cons hk' with ⟨-, hnumber⟩ | ⟨hdrop, hlive⟩
    · -- its number was given before, so it is not the one attached just now
      have hlt := Nat.lt_of_lt_of_le (lt_subscriptions hold) (subscriptions_le_append later calls)
      exact absurd hnumber (Nat.ne_of_gt hlt)
    · obtain ⟨rcv', e', hattached, hsame, hkey⟩ := ih (Option.isSome_iff_exists.mpr ⟨k', hlive⟩)
      obtain ⟨rcv'', e'', hattached', hstays⟩ :=
        (agrees_after (later ++ calls)).sound.entryOf?_call hattached hdrop
      exact ⟨rcv'', e'', hattached', hstays.number.trans hsame, hstays.lockKey.trans hkey⟩

/-- **After any calls, the entry of a lock key holds for each instance the status last reported and
not pruned since, and what it has published last is exactly that. A receiver that has subscribed to
a lock key and has not been dropped is attached to the entry of that lock key, which stays the same
one whatever is called later; it reads the statuses of the lock key, and it is told that something
has changed exactly if a snapshot has been published since it last looked.** Receivers go by the
number that they are given, which is how many were attached before. -/
theorem receivers_follow_table (calls : List TableCall) :
    (∀ e ∈ (after calls).entries, (after calls).entryFor? e.lockKey = some e ∧
      e.snapshot = ⟨e.lockKey, e.instances⟩ ∧ (e.instances.map (·.1)).Nodup ∧
      ∀ id, e.instances.lookup id = reported? e.lockKey id calls) ∧
    (∀ k id, (after calls).entryFor? k = none → reported? k id calls = none) ∧
    (∀ k, ((after calls).subscribe k).2 = subscriptions calls) ∧
    ∀ x k, subscribedTo? x calls = some k → ∃ rcv e,
      (after calls).entryOf? x = some (rcv, e) ∧ (after calls).entryFor? k = some e ∧
      ((after calls).read x).map (·.1) = some ⟨k, e.instances⟩ ∧
      ((after calls).hasChanged x = true ↔ Unseen k x calls) ∧
      ∀ later, (subscribedTo? x (later ++ calls)).isSome = true → ∃ rcv' e',
        (after (later ++ calls)).entryOf? x = some (rcv', e') ∧
        (after (later ++ calls)).entryFor? k = some e' ∧ e'.number = e.number := by
  have hagrees := agrees_after calls
  have hfound : ∀ {calls : List TableCall} {e : TableEntry}, e ∈ (after calls).entries →
      (after calls).entryFor? e.lockKey = some e := fun he =>
    (Keyed.find?_eq_some_iff (agrees_after _).sound.lockKeys).mpr ⟨he, rfl⟩
  refine ⟨fun e he => ?_, fun k id hnone => ?_, fun k => ?_, fun x k hx => ?_⟩
  · refine ⟨hfound he, hagrees.sound.snapshot e he, hagrees.sound.instances e he, fun id => ?_⟩
    rw [← hagrees.status, hagrees.sound.statusOf?_of_mem he]
  · rw [← hagrees.status, statusOf?, hnone]
    rfl
  · exact (subscribe_snd k).trans hagrees.next
  · obtain ⟨rcv, e, hattached, rfl, -, hunseen⟩ := hagrees.attached x k hx
    have he := mem_of_entryOf? hattached
    refine ⟨rcv, e, hattached, hfound he, ?_, ?_, fun later hlive => ?_⟩
    · rw [read, hattached]
      exact congrArg some (hagrees.sound.snapshot e he)
    · rw [← hunseen, hasChanged, hattached, bne_iff_ne]
    · obtain ⟨rcv', e', hattached', hnumber, hkey⟩ :=
        entryOf?_after_append later hattached hx hlive
      exact ⟨rcv', e', hattached', hkey ▸ hfound (mem_of_entryOf? hattached'), hnumber⟩

/-- A receiver waits while the only status of its lock key is pruned, and is there for the next
report. -/
def prunedWhileWatched : List TableCall :=
  [.report ⟨"k", "b", ⟨true, "late", 0⟩⟩, .prune ⟨3000, by decide, by decide⟩, .read 0,
    .report ⟨"k", "a", ⟨true, "early", 2000⟩⟩, .report ⟨"other", "a", ⟨false, "", 0⟩⟩,
    .subscribe "k"]

theorem receivers_follow_table_once_pruned :
    subscribedTo? 0 prunedWhileWatched = some "k" ∧
    (reported? "k" "a" prunedWhileWatched = none ∧
      reported? "k" "b" prunedWhileWatched = some ⟨true, "late", 0⟩) ∧
    ∃ rcv e, (after prunedWhileWatched).entryOf? 0 = some (rcv, e) ∧
      (after prunedWhileWatched).entryFor? "k" = some e ∧
      e.instances.lookup "a" = none ∧ e.instances.lookup "b" = some ⟨true, "late", 0⟩ ∧
      (after prunedWhileWatched).hasChanged 0 = true := by
  have hsubscribed : subscribedTo? 0 prunedWhileWatched = some "k" := by decide
  have hreported : reported? "k" "a" prunedWhileWatched = none ∧
      reported? "k" "b" prunedWhileWatched = some ⟨true, "late", 0⟩ := by decide
  obtain ⟨hentries, -, -, hreceivers⟩ := receivers_follow_table prunedWhileWatched
  obtain ⟨rcv, e, hattached, hentry, -, hchanged, -⟩ := hreceivers 0 "k" hsubscribed
  have hkey : e.lockKey = "k" := Keyed.key_of_find? hentry
  have hlookup := (hentries e (List.mem_of_find?_eq_some hentry)).2.2.2
  rw [hkey] at hlookup
  refine ⟨hsubscribed, hreported, rcv, e, hattached, hentry, (hlookup "a").trans hreported.1,
    (hlookup "b").trans hreported.2, hchanged.mpr ?_⟩
  exact ⟨id, .inl rfl⟩

end StatusTable

end Floodgate
