import Floodgate.Proofs.Server.Table
/-!
# Floodgate.Proofs.Server.Prune

**What pruning takes out of a table.** An instance loses its status exactly if the lease of that
status ended before the cutoff (`statusOf?_prune`), and pruning answers how many did
(`prune_count`). An entry that loses a status publishes what is left, so that what it has published
last are still its statuses.

An entry goes only if it holds nothing and nobody watches it. Whoever is attached to an entry stays
attached to it (`entryOf?_prune`).
-/

namespace Floodgate

/-- What pruning leaves of some statuses. -/
def unexpired (cutoff : Timestamp) (instances : List (String × WireStatus)) :
    List (String × WireStatus) :=
  instances.filter fun i => !i.2.expiredBefore cutoff

namespace StatusTable

variable {t : StatusTable} {cutoff : Timestamp} {e : TableEntry} {x : Nat} {rcv : Receiver}

/-- The statuses of all lock keys. -/
def allStatuses (t : StatusTable) : List (String × WireStatus) := t.entries.flatMap (·.instances)

/-! ### One entry -/

/-- An entry after pruning. -/
def pruned (cutoff : Timestamp) (e : TableEntry) : TableEntry := (pruneEntry cutoff e).1

/-- Pruning an entry leaves it alone if it holds no expired status, and publishes what is left
otherwise. -/
theorem pruneEntry_cases (cutoff : Timestamp) (e : TableEntry) :
    (unexpired cutoff e.instances = e.instances ∧ pruneEntry cutoff e = (e, 0)) ∨
    ((∃ i ∈ e.instances, i.2.expiredBefore cutoff = true) ∧
      pruneEntry cutoff e = ({ e with instances := unexpired cutoff e.instances }.publish,
        e.instances.length - (unexpired cutoff e.instances).length)) := by
  by_cases hall : ∀ i ∈ e.instances, (!i.2.expiredBefore cutoff) = true
  · have hkept : unexpired cutoff e.instances = e.instances := List.filter_eq_self.mpr hall
    refine .inl ⟨hkept, if_pos ?_⟩
    exact Nat.sub_eq_zero_of_le (Nat.le_of_eq (congrArg List.length hkept).symm)
  · obtain ⟨i, hi, hexpired⟩ : ∃ i ∈ e.instances, i.2.expiredBefore cutoff = true := by
      simpa using hall
    have hlt : (unexpired cutoff e.instances).length < e.instances.length :=
      List.length_filter_lt_length_iff_exists.mpr ⟨i, hi, by simp [hexpired]⟩
    exact .inr ⟨⟨i, hi, hexpired⟩, if_neg (Nat.sub_ne_zero_of_lt hlt)⟩

@[simp] theorem pruned_number (cutoff : Timestamp) (e : TableEntry) :
    (pruned cutoff e).number = e.number := by
  unfold pruned
  rcases pruneEntry_cases cutoff e with ⟨-, h⟩ | ⟨-, h⟩
  · rw [h]
  · rw [h]
    rfl

@[simp] theorem pruned_lockKey (cutoff : Timestamp) (e : TableEntry) :
    (pruned cutoff e).lockKey = e.lockKey := by
  unfold pruned
  rcases pruneEntry_cases cutoff e with ⟨-, h⟩ | ⟨-, h⟩
  · rw [h]
  · rw [h]
    rfl

@[simp] theorem pruned_instances (cutoff : Timestamp) (e : TableEntry) :
    (pruned cutoff e).instances = unexpired cutoff e.instances := by
  unfold pruned
  rcases pruneEntry_cases cutoff e with ⟨hkept, h⟩ | ⟨-, h⟩ <;> rw [h]
  · exact hkept.symm
  · rfl

/-- What has been published last is what is left. -/
theorem pruned_snapshot (h : e.snapshot = ⟨e.lockKey, e.instances⟩) :
    (pruned cutoff e).snapshot = ⟨e.lockKey, unexpired cutoff e.instances⟩ := by
  unfold pruned
  rcases pruneEntry_cases cutoff e with ⟨hkept, heq⟩ | ⟨-, heq⟩ <;> rw [heq]
  · rw [hkept]
    exact h
  · rfl

/-- A new version is published exactly if a status has expired. -/
theorem pruned_version (cutoff : Timestamp) (e : TableEntry) :
    ((∀ i ∈ e.instances, i.2.expiredBefore cutoff = false) ∧
      (pruned cutoff e).version = e.version) ∨
    ((∃ i ∈ e.instances, i.2.expiredBefore cutoff = true) ∧
      (pruned cutoff e).version = e.version + 1) := by
  unfold pruned
  rcases pruneEntry_cases cutoff e with ⟨hkept, h⟩ | ⟨hexpired, h⟩ <;> rw [h]
  · refine .inl ⟨fun i hi => ?_, rfl⟩
    simpa using List.filter_eq_self.mp hkept i hi
  · exact .inr ⟨hexpired, rfl⟩

/-- Pruning an entry counts the statuses that have expired. -/
theorem pruneEntry_snd (cutoff : Timestamp) (e : TableEntry) :
    (pruneEntry cutoff e).2 = e.instances.countP (·.2.expiredBefore cutoff) := by
  have hlength := List.length_eq_countP_add_countP (fun i => i.2.expiredBefore cutoff)
    (l := e.instances)
  have hkept : (unexpired cutoff e.instances).length =
      e.instances.countP fun i => decide ¬i.2.expiredBefore cutoff = true := by
    simp [unexpired, List.countP_eq_length_filter]
  rcases pruneEntry_cases cutoff e with ⟨hsame, h⟩ | ⟨-, h⟩ <;> rw [h]
  · rw [hsame] at hkept
    show 0 = _
    omega
  · show e.instances.length - (unexpired cutoff e.instances).length = _
    omega

/-! ### The table -/

/-- An entry that goes holds nothing. -/
theorem instances_eq_nil_of_gone {watched : Bool}
    (hgone : ¬ (!e.instances.isEmpty || watched) = true) : e.instances = [] := by
  rw [Bool.or_eq_true, not_or] at hgone
  simpa using hgone.1

theorem entries_prune (t : StatusTable) (cutoff : Timestamp) :
    (t.prune cutoff).1.entries = (t.entries.map (pruned cutoff)).filter
      fun e => !e.instances.isEmpty || t.isWatched e := by
  show ((t.entries.map (pruneEntry cutoff)).map (·.1)).filter _ = _
  rw [List.map_map]
  rfl

theorem mem_entries_prune : e ∈ (t.prune cutoff).1.entries ↔
    ∃ e₀ ∈ t.entries, pruned cutoff e₀ = e ∧
      (!e.instances.isEmpty || t.isWatched e) = true := by
  simp only [entries_prune, List.mem_filter, List.mem_map]
  constructor
  · rintro ⟨⟨e₀, he₀, rfl⟩, hkept⟩
    exact ⟨e₀, he₀, rfl, hkept⟩
  · rintro ⟨e₀, he₀, rfl, hkept⟩
    exact ⟨⟨e₀, he₀, rfl⟩, hkept⟩

theorem Sound.prune (h : Sound t) (cutoff : Timestamp) : Sound (t.prune cutoff).1 where
  lockKeys := by
    rw [entries_prune]
    exact Keyed.nodup_filter ((Keyed.map_key_map (pruned_lockKey cutoff)).symm ▸ h.lockKeys)
  numbers := by
    rw [entries_prune]
    exact Keyed.nodup_filter ((Keyed.map_key_map (pruned_number cutoff)).symm ▸ h.numbers)
  number_lt e he := by
    obtain ⟨e₀, he₀, rfl, -⟩ := mem_entries_prune.mp he
    exact (pruned_number cutoff e₀).symm ▸ h.number_lt e₀ he₀
  receivers := h.receivers
  receiver_lt := h.receiver_lt
  snapshot e he := by
    obtain ⟨e₀, he₀, rfl, -⟩ := mem_entries_prune.mp he
    rw [pruned_snapshot (h.snapshot e₀ he₀), pruned_lockKey, pruned_instances]
  instances e he := by
    obtain ⟨e₀, he₀, rfl, -⟩ := mem_entries_prune.mp he
    rw [pruned_instances]
    exact Keyed.nodup_filter (h.instances e₀ he₀)

/-- A lock key keeps its entry, unless that is empty and nobody watches it. -/
theorem Sound.entryFor?_prune (h : Sound t) (cutoff : Timestamp) (k : String) :
    (t.prune cutoff).1.entryFor? k = ((t.entryFor? k).map (pruned cutoff)).filter
      fun e => !e.instances.isEmpty || t.isWatched e := by
  have hkeys : ((t.entries.map (pruned cutoff)).map (·.lockKey)).Nodup :=
    (Keyed.map_key_map (pruned_lockKey cutoff)).symm ▸ h.lockKeys
  have hmap : (t.entries.map (pruned cutoff)).find? (·.lockKey == k) =
      (t.entryFor? k).map (pruned cutoff) := by
    rw [List.find?_map, entryFor?]
    congr 2
    funext e
    exact congrArg (· == k) (pruned_lockKey cutoff e)
  rw [entryFor?, entries_prune, Keyed.find?_filter hkeys, hmap]

/-- An instance loses its status exactly if its lease ended before the cutoff. -/
theorem Sound.statusOf?_prune (h : Sound t) (cutoff : Timestamp) (k id : String) :
    (t.prune cutoff).1.statusOf? k id =
      (t.statusOf? k id).filter (!·.expiredBefore cutoff) := by
  unfold statusOf?
  rw [h.entryFor?_prune cutoff k]
  cases hentry : t.entryFor? k with
  | none => rfl
  | some e =>
    have hnodup := h.instances e (List.mem_of_find?_eq_some hentry)
    have hleft : (pruned cutoff e).instances.lookup id =
        (e.instances.lookup id).filter (!·.expiredBefore cutoff) := by
      rw [pruned_instances]
      exact Assoc.lookup_filter hnodup (fun w => !w.expiredBefore cutoff) id
    rw [Option.map_some, Option.filter_some, Option.bind_some, ← hleft]
    split
    · rfl
    · next hgone =>
      rw [instances_eq_nil_of_gone hgone]
      rfl

/-- The latest snapshot of a lock key, without statuses if the table does not know the lock key. -/
def snapshotOf (t : StatusTable) (k : String) : Notification :=
  ((t.entryFor? k).map (·.snapshot)).getD ⟨k, []⟩

/-- A lock key publishes what is left of its statuses, and loses its entry only if nothing is. -/
theorem Sound.snapshotOf_prune (h : Sound t) (cutoff : Timestamp) (k : String) :
    (t.prune cutoff).1.snapshotOf k =
      ⟨(t.snapshotOf k).lockKey, unexpired cutoff (t.snapshotOf k).instances⟩ := by
  unfold snapshotOf
  rw [h.entryFor?_prune cutoff k]
  cases hentry : t.entryFor? k with
  | none => rfl
  | some e =>
    have hsnapshot := h.snapshot e (List.mem_of_find?_eq_some hentry)
    have hkey : e.lockKey = k := Keyed.key_of_find? hentry
    rw [Option.map_some, Option.map_some, Option.filter_some, Option.getD_some]
    split
    · rw [Option.map_some, Option.getD_some, pruned_snapshot hsnapshot, hsnapshot]
    · next hgone =>
      have hempty := instances_eq_nil_of_gone hgone
      rw [pruned_instances] at hempty
      rw [hsnapshot, hempty, hkey]
      rfl

/-- Whoever is attached to an entry stays attached to it. -/
theorem Sound.entryOf?_prune (h : Sound t) (cutoff : Timestamp)
    (hx : t.entryOf? x = some (rcv, e)) :
    (t.prune cutoff).1.entryOf? x = some (rcv, pruned cutoff e) := by
  obtain ⟨hrcv, he⟩ := entryOf?_eq_some_iff.mp hx
  have hnumber : e.number = rcv.entry := Keyed.key_of_find? he
  have hwatched : t.isWatched (pruned cutoff e) = true := by
    refine List.any_eq_true.mpr ⟨rcv, List.mem_of_find?_eq_some hrcv, ?_⟩
    rw [pruned_number, hnumber, beq_self_eq_true]
  refine entryOf?_eq_some_iff.mpr ⟨hrcv, ?_⟩
  refine (Keyed.find?_eq_some_iff (h.prune cutoff).numbers).mpr ⟨?_, ?_⟩
  · exact mem_entries_prune.mpr ⟨e, List.mem_of_find?_eq_some he, rfl, by simp [hwatched]⟩
  · rw [pruned_number, hnumber]

/-! ### Counting -/

/-- What is left of all statuses. The entries that go hold nothing. -/
theorem allStatuses_prune (t : StatusTable) (cutoff : Timestamp) :
    (t.prune cutoff).1.allStatuses = unexpired cutoff t.allStatuses := by
  have hdrop : ∀ (l : List TableEntry) (p : TableEntry → Bool),
      (l.filter fun e => !e.instances.isEmpty || p e).flatMap (·.instances) =
        l.flatMap (·.instances) := by
    intro l p
    induction l with
    | nil => rfl
    | cons e rest ih =>
      rw [List.filter_cons, List.flatMap_cons]
      split
      · rw [List.flatMap_cons, ih]
      · next hgone => rw [ih, instances_eq_nil_of_gone hgone, List.nil_append]
  rw [allStatuses, entries_prune, hdrop, allStatuses, unexpired, List.filter_flatMap,
    List.flatMap_map]
  exact congrArg (List.flatMap · t.entries) (funext (pruned_instances cutoff))

/-- Pruning answers how many statuses have expired, over all lock keys. -/
theorem prune_snd (t : StatusTable) (cutoff : Timestamp) :
    (t.prune cutoff).2 = t.allStatuses.countP (·.2.expiredBefore cutoff) := by
  have hfold : ∀ (l : List TableEntry) (total : Nat),
      (l.map (pruneEntry cutoff)).foldl (fun total e => total + e.2) total =
        total + (l.flatMap (·.instances)).countP (·.2.expiredBefore cutoff) := by
    intro l
    induction l with
    | nil => exact fun total => rfl
    | cons e rest ih =>
      intro total
      rw [List.map_cons, List.foldl_cons, ih, pruneEntry_snd, List.flatMap_cons,
        List.countP_append, Nat.add_assoc]
  exact (hfold t.entries 0).trans (Nat.zero_add _)

/-- What pruning takes out and what it leaves are all the statuses. -/
theorem prune_count (t : StatusTable) (cutoff : Timestamp) :
    (t.prune cutoff).2 + (t.prune cutoff).1.allStatuses.length = t.allStatuses.length := by
  rw [prune_snd, allStatuses_prune, unexpired, ← List.countP_eq_length_filter]
  have hlength := List.length_eq_countP_add_countP (fun i => i.2.expiredBefore cutoff)
    (l := t.allStatuses)
  simp only [Bool.not_eq_true, Bool.decide_eq_false] at hlength
  exact hlength.symm

end StatusTable

end Floodgate
