import Floodgate.Proofs.Assoc
import Floodgate.Proofs.Keyed
import Floodgate.Server.Table
/-!
# Floodgate.Proofs.Server.Table

**What reports and receivers make of a table.** A table is looked at through two views: the status
of an instance under a lock key (`statusOf?`), and what a receiver is attached to (`entryOf?`). A
report changes one status and publishes a new version of one entry; whoever is attached to the entry
stays attached. Attaching a receiver and reading change no status.

`Sound` is what makes the views behave: names are unique, and what an entry has published last are
its statuses.
-/

namespace Floodgate.StatusTable

variable {t : StatusTable} {x : Nat} {rcv : Receiver} {e : TableEntry}

/-- The status of an instance under a lock key. -/
def statusOf? (t : StatusTable) (lockKey id : String) : Option WireStatus :=
  (t.entryFor? lockKey).bind (·.instances.lookup id)

/-- What holds of a table. -/
structure Sound (t : StatusTable) : Prop where
  /-- Each lock key has one entry. -/
  lockKeys : (t.entries.map (·.lockKey)).Nodup
  /-- Each number has one entry. -/
  numbers : (t.entries.map (·.number)).Nodup
  /-- The next number is new to entries. -/
  number_lt : ∀ e ∈ t.entries, e.number < t.nextEntry
  /-- Each number has one receiver. -/
  receivers : (t.receivers.map (·.number)).Nodup
  /-- The next number is new to receivers. -/
  receiver_lt : ∀ r ∈ t.receivers, r.number < t.nextReceiver
  /-- What has been published last are the statuses. -/
  snapshot : ∀ e ∈ t.entries, e.snapshot = ⟨e.lockKey, e.instances⟩
  /-- Each instance has one status. -/
  instances : ∀ e ∈ t.entries, (e.instances.map (·.1)).Nodup

theorem Sound.empty : Sound .empty := by
  constructor <;> simp [StatusTable.empty]

theorem entryOf?_eq_some_iff : t.entryOf? x = some (rcv, e) ↔
    t.receivers.find? (·.number == x) = some rcv ∧
      t.entries.find? (·.number == rcv.entry) = some e := by
  simp only [entryOf?, Option.bind_eq_bind, Option.bind_eq_some_iff, pure, Option.some.injEq,
    Prod.mk.injEq]
  constructor
  · rintro ⟨r, hr, e', he', rfl, rfl⟩
    exact ⟨hr, he'⟩
  · rintro ⟨hr, he⟩
    exact ⟨rcv, hr, e, he, rfl, rfl⟩

theorem mem_of_entryOf? (h : t.entryOf? x = some (rcv, e)) : e ∈ t.entries :=
  List.mem_of_find?_eq_some (entryOf?_eq_some_iff.mp h).2

/-- The statuses of an entry are those under its lock key. -/
theorem Sound.statusOf?_of_mem (h : Sound t) (he : e ∈ t.entries) (id : String) :
    t.statusOf? e.lockKey id = e.instances.lookup id := by
  have hfound : t.entryFor? e.lockKey = some e := (Keyed.find?_eq_some_iff h.lockKeys).mpr ⟨he, rfl⟩
  rw [statusOf?, hfound, Option.bind_some]

/-! ### Making an entry -/

theorem entryFor?_withEntry (t : StatusTable) (lockKey k : String) :
    (t.withEntry lockKey).entryFor? k =
      if k = lockKey then some ((t.entryFor? lockKey).getD (.fresh t.nextEntry lockKey))
      else t.entryFor? k := by
  unfold withEntry
  cases h : t.entryFor? lockKey with
  | some e =>
    by_cases hk : k = lockKey
    · rw [if_pos hk, hk]
      exact h
    · rw [if_neg hk]
  | none =>
    exact Keyed.find?_append_single (y := TableEntry.fresh t.nextEntry lockKey)
      (Keyed.find?_eq_none_iff.mp h) k

theorem statusOf?_withEntry (t : StatusTable) (lockKey k id : String) :
    (t.withEntry lockKey).statusOf? k id = t.statusOf? k id := by
  unfold statusOf?
  rw [entryFor?_withEntry]
  by_cases hk : k = lockKey
  · rw [if_pos hk, hk]
    cases t.entryFor? lockKey <;> rfl
  · rw [if_neg hk]

theorem Sound.withEntry (h : Sound t) (lockKey : String) : Sound (t.withEntry lockKey) := by
  unfold StatusTable.withEntry
  cases hentry : t.entryFor? lockKey with
  | some e => exact h
  | none =>
    refine ⟨?_, ?_, ?_, h.receivers, h.receiver_lt, ?_, ?_⟩
    · exact Keyed.nodup_append_single h.lockKeys (Keyed.find?_eq_none_iff.mp hentry)
    · exact Keyed.nodup_append_single h.numbers fun e he => Nat.ne_of_lt (h.number_lt e he)
    · intro e he
      rcases List.mem_append.mp he with he | he
      · exact Nat.lt_succ_of_lt (h.number_lt e he)
      · rw [List.mem_singleton.mp he]
        exact Nat.lt_succ_self _
    · intro e he
      rcases List.mem_append.mp he with he | he
      · exact h.snapshot e he
      · rw [List.mem_singleton.mp he]
        rfl
    · intro e he
      rcases List.mem_append.mp he with he | he
      · exact h.instances e he
      · rw [List.mem_singleton.mp he]
        exact List.nodup_nil

@[simp] theorem receivers_withEntry (t : StatusTable) (lockKey : String) :
    (t.withEntry lockKey).receivers = t.receivers := by
  unfold withEntry
  split <;> rfl

@[simp] theorem nextReceiver_withEntry (t : StatusTable) (lockKey : String) :
    (t.withEntry lockKey).nextReceiver = t.nextReceiver := by
  unfold withEntry
  split <;> rfl

theorem Sound.entryOf?_withEntry (lockKey : String)
    (hx : t.entryOf? x = some (rcv, e)) : (t.withEntry lockKey).entryOf? x = some (rcv, e) := by
  obtain ⟨hrcv, he⟩ := entryOf?_eq_some_iff.mp hx
  refine entryOf?_eq_some_iff.mpr ⟨by rw [receivers_withEntry]; exact hrcv, ?_⟩
  unfold StatusTable.withEntry
  split
  · exact he
  · rw [List.find?_append, he]
    rfl

/-! ### Reports -/

/-- An entry after a report. -/
def reported (r : StatusRequest) (e : TableEntry) : TableEntry :=
  if e.lockKey = r.lockKey then e.put r.instanceId r.status else e

@[simp] theorem reported_number (r : StatusRequest) (e : TableEntry) :
    (reported r e).number = e.number := by
  unfold reported; split <;> rfl

@[simp] theorem reported_lockKey (r : StatusRequest) (e : TableEntry) :
    (reported r e).lockKey = e.lockKey := by
  unfold reported; split <;> rfl

/-- A report leaves an entry alone, or publishes a later version of it. -/
theorem reported_eq_or_version_lt (r : StatusRequest) (e : TableEntry) :
    reported r e = e ∨ e.version < (reported r e).version := by
  unfold reported
  split
  · exact .inr (Nat.lt_succ_self _)
  · exact .inl rfl

theorem entries_upsert (t : StatusTable) (r : StatusRequest) :
    (t.upsert r).entries = (t.withEntry r.lockKey).entries.map (reported r) := rfl

theorem entryFor?_upsert (t : StatusTable) (r : StatusRequest) (k : String) :
    (t.upsert r).entryFor? k = ((t.withEntry r.lockKey).entryFor? k).map (reported r) := by
  unfold entryFor?
  rw [entries_upsert, List.find?_map]
  congr 2
  funext e
  exact congrArg (· == k) (reported_lockKey r e)

/-- A report sets the status of its instance under its lock key, and no other. -/
theorem statusOf?_upsert (t : StatusTable) (r : StatusRequest) (k id : String) :
    (t.upsert r).statusOf? k id =
      if k = r.lockKey ∧ id = r.instanceId then some r.status else t.statusOf? k id := by
  rw [← statusOf?_withEntry t r.lockKey k id]
  unfold statusOf?
  rw [entryFor?_upsert]
  by_cases hk : k = r.lockKey
  · rw [entryFor?_withEntry, if_pos hk, Option.map_some, Option.bind_some, Option.bind_some]
    have hkey : ((t.entryFor? r.lockKey).getD (.fresh t.nextEntry r.lockKey)).lockKey =
        r.lockKey := by
      cases h : t.entryFor? r.lockKey with
      | some e => exact Keyed.key_of_find? h
      | none => rfl
    rw [reported, if_pos hkey]
    by_cases hid : id = r.instanceId
    · rw [if_pos ⟨hk, hid⟩, hid]
      exact Assoc.lookup_put_self _ _ _
    · rw [if_neg fun h => hid h.2]
      exact Assoc.lookup_put_of_ne hid _ _
  · rw [if_neg fun h => hk h.1, entryFor?_withEntry, if_neg hk]
    cases h : t.entryFor? k with
    | none => rfl
    | some e =>
      have hne : e.lockKey ≠ r.lockKey := fun heq => hk ((Keyed.key_of_find? h).symm.trans heq)
      rw [Option.map_some, reported, if_neg hne]

theorem Sound.upsert (h : Sound t) (r : StatusRequest) : Sound (t.upsert r) := by
  have hw := h.withEntry r.lockKey
  refine ⟨?_, ?_, ?_, hw.receivers, hw.receiver_lt, ?_, ?_⟩
  · rw [entries_upsert, Keyed.map_key_map (reported_lockKey r)]
    exact hw.lockKeys
  · rw [entries_upsert, Keyed.map_key_map (reported_number r)]
    exact hw.numbers
  · intro e he
    obtain ⟨e₀, he₀, rfl⟩ := List.mem_map.mp he
    exact reported_number r e₀ ▸ hw.number_lt e₀ he₀
  · intro e he
    obtain ⟨e₀, he₀, rfl⟩ := List.mem_map.mp he
    show (reported r e₀).snapshot = ⟨(reported r e₀).lockKey, (reported r e₀).instances⟩
    unfold reported
    split
    · rfl
    · exact hw.snapshot e₀ he₀
  · intro e he
    obtain ⟨e₀, he₀, rfl⟩ := List.mem_map.mp he
    show ((reported r e₀).instances.map (·.1)).Nodup
    unfold reported
    split
    · exact Assoc.nodup_keys_put (hw.instances e₀ he₀)
    · exact hw.instances e₀ he₀

/-- Whoever is attached to an entry stays attached to it. -/
theorem entryOf?_upsert (r : StatusRequest) (hx : t.entryOf? x = some (rcv, e)) :
    (t.upsert r).entryOf? x = some (rcv, reported r e) := by
  obtain ⟨hrcv, he⟩ := entryOf?_eq_some_iff.mp (Sound.entryOf?_withEntry r.lockKey hx)
  refine entryOf?_eq_some_iff.mpr ⟨hrcv, ?_⟩
  have hnumber : (fun e => (reported r e).number == rcv.entry) =
      fun e => e.number == rcv.entry := by
    funext e
    rw [reported_number]
  rw [entries_upsert, List.find?_map]
  show ((t.withEntry r.lockKey).entries.find? fun e => (reported r e).number == rcv.entry).map
    (reported r) = _
  rw [hnumber, he, Option.map_some]

/-! ### Receivers -/

/-- A receiver that is attached has seen the present snapshot of the lock key. -/
theorem subscribe_eq (t : StatusTable) (lockKey : String) : ∃ e : TableEntry,
    e ∈ (t.withEntry lockKey).entries ∧ e.lockKey = lockKey ∧
      t.subscribe lockKey = ({ t.withEntry lockKey with
        receivers := t.receivers ++ [⟨t.nextReceiver, e.number, e.version⟩]
        nextReceiver := t.nextReceiver + 1 }, t.nextReceiver) := by
  have hfound := t.entryFor?_withEntry lockKey lockKey
  rw [if_pos rfl] at hfound
  refine ⟨_, List.mem_of_find?_eq_some hfound, Keyed.key_of_find? hfound, ?_⟩
  simp only [subscribe, hfound, receivers_withEntry, nextReceiver_withEntry]

theorem subscribe_snd (lockKey : String) : (t.subscribe lockKey).2 = t.nextReceiver := by
  obtain ⟨_, -, -, heq⟩ := t.subscribe_eq lockKey
  rw [heq]

theorem Sound.subscribe (h : Sound t) (lockKey : String) : Sound (t.subscribe lockKey).1 := by
  obtain ⟨e, he, -, heq⟩ := t.subscribe_eq lockKey
  have hw := h.withEntry lockKey
  rw [heq]
  refine ⟨hw.lockKeys, hw.numbers, hw.number_lt, ?_, ?_, hw.snapshot, hw.instances⟩
  · exact Keyed.nodup_append_single h.receivers fun r hr => Nat.ne_of_lt (h.receiver_lt r hr)
  · intro r hr
    rcases List.mem_append.mp hr with hr | hr
    · exact Nat.lt_succ_of_lt (h.receiver_lt r hr)
    · rw [List.mem_singleton.mp hr]
      exact Nat.lt_succ_self _

theorem statusOf?_subscribe (lockKey k id : String) :
    (t.subscribe lockKey).1.statusOf? k id = t.statusOf? k id := by
  obtain ⟨e, -, -, heq⟩ := t.subscribe_eq lockKey
  rw [heq, ← t.statusOf?_withEntry lockKey k id]
  rfl

/-- The new receiver is attached to the entry of the lock key, and has seen what is published. -/
theorem Sound.entryOf?_subscribe (h : Sound t) (lockKey : String) : ∃ rcv e,
    (t.subscribe lockKey).1.entryOf? t.nextReceiver = some (rcv, e) ∧ e.lockKey = lockKey ∧
      rcv.seen = e.version := by
  obtain ⟨e, he, hkey, heq⟩ := t.subscribe_eq lockKey
  have hnone : t.receivers.find? (·.number == t.nextReceiver) = none :=
    Keyed.find?_eq_none_iff.mpr fun r hr => Nat.ne_of_lt (h.receiver_lt r hr)
  refine ⟨⟨t.nextReceiver, e.number, e.version⟩, e, ?_, hkey, rfl⟩
  rw [heq]
  refine entryOf?_eq_some_iff.mpr ⟨?_, ?_⟩
  · rw [List.find?_append, hnone]
    simp
  · exact (Keyed.find?_eq_some_iff (h.withEntry lockKey).numbers).mpr ⟨he, rfl⟩

theorem entryOf?_subscribe_of_old (lockKey : String) (hx : t.entryOf? x = some (rcv, e)) :
    (t.subscribe lockKey).1.entryOf? x = some (rcv, e) := by
  obtain ⟨e', -, -, heq⟩ := t.subscribe_eq lockKey
  obtain ⟨hrcv, he⟩ := entryOf?_eq_some_iff.mp (Sound.entryOf?_withEntry lockKey hx)
  rw [heq]
  refine entryOf?_eq_some_iff.mpr ⟨?_, he⟩
  rw [receivers_withEntry] at hrcv
  rw [List.find?_append, hrcv]
  rfl

/-! ### Reading -/

/-- A receiver that reads gets the latest snapshot, and has seen it from then on. -/
theorem read_eq_some {t' : StatusTable} {n : Notification} (h : t.read x = some (n, t')) :
    ∃ rcv e, t.entryOf? x = some (rcv, e) ∧ n = e.snapshot ∧
      t' = { t with receivers := t.receivers.map fun r =>
        if r.number = x then { r with seen := e.version } else r } := by
  obtain ⟨⟨rcv, e⟩, he, heq⟩ := Option.map_eq_some_iff.mp h
  cases heq
  exact ⟨rcv, e, he, rfl, rfl⟩

section Read

variable {t' : StatusTable} {version : Nat} (ht' : t' = { t with
  receivers := t.receivers.map fun r =>
    if r.number = x then { r with seen := version } else r })

include ht'

theorem Sound.read (h : Sound t) : Sound t' := by
  subst ht'
  refine ⟨h.lockKeys, h.numbers, h.number_lt, ?_, ?_, h.snapshot, h.instances⟩
  · exact (Keyed.map_key_map (f := Receiver.number) fun r =>
      Keyed.key_ite (g := fun r : Receiver => { r with seen := version }) (fun _ => rfl) r).symm ▸
      h.receivers
  · intro r hr
    obtain ⟨r₀, hr₀, rfl⟩ := List.mem_map.mp hr
    have hlt := h.receiver_lt r₀ hr₀
    split <;> exact hlt

theorem entryOf?_read {y : Nat} (hy : t.entryOf? y = some (rcv, e)) :
    t'.entryOf? y = some (if y = x then { rcv with seen := version } else rcv, e) := by
  subst ht'
  obtain ⟨hrcv, he⟩ := entryOf?_eq_some_iff.mp hy
  have hupdate := Keyed.find?_update (f := Receiver.number) (l := t.receivers) (k := x)
    (g := fun r : Receiver => { r with seen := version }) (fun _ => rfl) y
  refine entryOf?_eq_some_iff.mpr ⟨hupdate.trans ?_, ?_⟩
  · rw [hrcv]
    split <;> rfl
  · split <;> exact he

end Read

end Floodgate.StatusTable
