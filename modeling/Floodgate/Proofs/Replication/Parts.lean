import Floodgate.Proofs.Keyed
import Floodgate.Replication.Basic
/-!
# Floodgate.Proofs.Replication.Parts

**What each part-changing function does to the parts.** A replicator is looked at through four
views: the entry of a key (`entryFor?`), the unfinished deliveries, the unfinished renewals, and who
holds a lane (`holds`). Every function that changes a replicator gets its equations on these views
here, so that no later proof opens it.

Registering is described in one piece: under a new generation a key gets a pending entry, on the
lane that it had or on a new one (`laneFor`), and the delivery that was pending is withdrawn. What a
flush does is a series of registrations, so whatever registering keeps a flush keeps
(`flush_induction`).
-/

namespace Floodgate

/-- The place in line of a renewal. -/
def Renewal.claim (n : Renewal) : LaneClaim := ⟨n.lane, .renewal n.number⟩

namespace Replicator

variable {α : Type}

/-! ### Looking -/

theorem entryFor?_key {r : Replicator α} {key : String} {e : ReplicationEntry α}
    (h : r.entryFor? key = some e) : e.key = key :=
  Keyed.key_of_find? h

theorem mem_of_entryFor? {r : Replicator α} {key : String} {e : ReplicationEntry α}
    (h : r.entryFor? key = some e) : e ∈ r.entries :=
  List.mem_of_find?_eq_some h

theorem delivery?_generation {r : Replicator α} {g : Nat} {d : Delivery α}
    (h : r.delivery? g = some d) : d.generation = g :=
  Keyed.key_of_find? h

theorem mem_of_delivery? {r : Replicator α} {g : Nat} {d : Delivery α}
    (h : r.delivery? g = some d) : d ∈ r.deliveries :=
  List.mem_of_find?_eq_some h

theorem hasReturned_iff {r : Replicator α} {g : Nat} :
    r.hasReturned g = true ↔ r.delivery? g = none ∧ g ∉ r.dead := by
  simp [hasReturned]

theorem renewal?_number {r : Replicator α} {i : Nat} {n : Renewal}
    (h : r.renewal? i = some n) : n.number = i :=
  Keyed.key_of_find? h

theorem mem_of_renewal? {r : Replicator α} {i : Nat} {n : Renewal}
    (h : r.renewal? i = some n) : n ∈ r.renewals :=
  List.mem_of_find?_eq_some h

theorem renewal?_ne_of_nil {r : Replicator α} {i : Nat} {n : Renewal} (hnil : r.renewals = []) :
    r.renewal? i ≠ some n := by
  intro h
  have hmem := mem_of_renewal? h
  rw [hnil] at hmem
  cases hmem

/-! ### Lanes -/

theorem holds_iff {r : Replicator α} {lane : Nat} {caller : Caller} :
    r.holds lane caller = true ↔
      (r.claims.find? (·.lane == lane)).map (·.caller) = some caller := by
  simp [holds]

/-- A lane has one holder. -/
theorem holds_unique {r : Replicator α} {lane : Nat} {c c' : Caller}
    (h : r.holds lane c = true) (h' : r.holds lane c' = true) : c = c' := by
  rw [holds_iff] at h h'
  exact Option.some.inj (h.symm.trans h')

/-- Who holds a lane goes on holding it when others get in line. -/
theorem holds_append {r r' : Replicator α} {more : List LaneClaim} {lane : Nat} {c : Caller}
    (hr : r'.claims = r.claims ++ more) (h : r.holds lane c = true) : r'.holds lane c = true := by
  rw [holds_iff] at h ⊢
  obtain ⟨claim, hfind, hcaller⟩ := Option.map_eq_some_iff.mp h
  rw [hr, List.find?_append, hfind]
  exact congrArg some hcaller

/-- Who holds a lane goes on holding it when claims of others are dropped. -/
theorem holds_filter {r r' : Replicator α} {p : LaneClaim → Bool} {lane : Nat} {c : Caller}
    (hr : r'.claims = r.claims.filter p) (hp : ∀ claim : LaneClaim, claim.caller = c → p claim)
    (h : r.holds lane c = true) : r'.holds lane c = true := by
  rw [holds_iff] at h ⊢
  obtain ⟨claim, hfind, hcaller⟩ := Option.map_eq_some_iff.mp h
  obtain ⟨hlane, before, after, hclaims, hbefore⟩ := List.find?_eq_some_iff_append.mp hfind
  have hkept : (r.claims.filter p).find? (·.lane == lane) = some claim := by
    rw [List.find?_eq_some_iff_append]
    refine ⟨hlane, before.filter p, after.filter p, ?_, ?_⟩
    · rw [hclaims, List.filter_append, List.filter_cons, if_pos (hp claim hcaller)]
    · intro a ha
      exact hbefore a (List.mem_filter.mp ha).1
  rw [hr, hkept]
  exact congrArg some hcaller

/-! ### Changing an entry, changing and ending a delivery -/

theorem entryFor?_updateEntry (r : Replicator α) (key : String)
    {f : ReplicationEntry α → ReplicationEntry α} (hf : ∀ e, (f e).key = e.key) (k : String) :
    (r.updateEntry key f).entryFor? k = if k = key then (r.entryFor? k).map f else r.entryFor? k :=
  Keyed.find?_update hf k

theorem keys_updateEntry (r : Replicator α) {key : String}
    {f : ReplicationEntry α → ReplicationEntry α} (hf : ∀ e, (f e).key = e.key) :
    (r.updateEntry key f).entries.map (·.key) = r.entries.map (·.key) :=
  Keyed.map_key_map fun e => Keyed.key_ite hf e

theorem mem_updateDelivery {r : Replicator α} {g : Nat} {f : Delivery α → Delivery α}
    {d : Delivery α} : d ∈ (r.updateDelivery g f).deliveries ↔
      ∃ d₀ ∈ r.deliveries, d = if d₀.generation = g then f d₀ else d₀ := by
  simp only [updateDelivery, List.mem_map, eq_comm]

theorem mem_finish {r : Replicator α} {g : Nat} {d : Delivery α} :
    d ∈ (r.finish g).deliveries ↔ d ∈ r.deliveries ∧ d.generation ≠ g := by
  simp [finish, release]

/-- Notes what has become of the delivery of a generation, if it is still the latest one. -/
def settled (g : Nat) (p : Option Pending) (e : ReplicationEntry α) : ReplicationEntry α :=
  if e.pending.map (·.generation) = some g then { e with pending := p } else e

@[simp] theorem settled_key (g : Nat) (p : Option Pending) (e : ReplicationEntry α) :
    (settled g p e).key = e.key := by
  unfold settled; split <;> rfl

@[simp] theorem settled_current (g : Nat) (p : Option Pending) (e : ReplicationEntry α) :
    (settled g p e).current = e.current := by
  unfold settled; split <;> rfl

@[simp] theorem settled_lane (g : Nat) (p : Option Pending) (e : ReplicationEntry α) :
    (settled g p e).lane = e.lane := by
  unfold settled; split <;> rfl

theorem settled_of_ne {g : Nat} {p : Option Pending} {e : ReplicationEntry α}
    (h : e.pending.map (·.generation) ≠ some g) : settled g p e = e := if_neg h

theorem settled_of_eq {g : Nat} {p : Option Pending} {e : ReplicationEntry α}
    (h : e.pending.map (·.generation) = some g) : settled g p e = { e with pending := p } :=
  if_pos h

/-- Whoever dies with a delivery, it is among them. -/
theorem mem_companions (r : Replicator α) (g : Nat) : g ∈ r.companions g := by
  unfold companions
  cases h : r.flushes.find? (g ∈ ·) with
  | none => exact List.mem_singleton_self g
  | some generations => simpa using List.find?_some h

/-- A delivery that dies of its lease is dropped, others may be dropped with it, and the recovery
loop may stop. -/
theorem perish_eq_drop (r : Replicator α) (g : Nat) :
    ∃ generations recovering recoveryTick, g ∈ generations ∧ r.perish g =
      { r.drop generations with recovering, recoveryTick, dead := r.dead ++ generations } := by
  unfold perish
  split
  · rename_i hmem
    exact ⟨_, _, _, hmem, rfl⟩
  · exact ⟨_, _, _, r.mem_companions g, rfl⟩

theorem markDelivered_eq (r : Replicator α) (key : String) (g : Nat) :
    r.markDelivered key g = r.updateEntry key (settled g none) := rfl

theorem markAbandoned_eq (r : Replicator α) (key : String) (g : Nat) :
    r.markAbandoned key g = r.updateEntry key (settled g (some ⟨g, false⟩)) := rfl

/-! ### Withdrawing a delivery -/

/-- A delivery after the pending mark of its key has been taken up: cancelled if the mark is its
own. -/
def withdrawn (pending : Option Pending) (d : Delivery α) : Delivery α :=
  if pending.map (·.generation) = some d.generation then { d with cancelled := true } else d

@[simp] theorem withdrawn_none (d : Delivery α) : withdrawn none d = d := if_neg (by simp)

/-- A withdrawn delivery is the same but for the mark that it is cancelled. -/
theorem withdrawn_fields (p : Option Pending) (d : Delivery α) :
    (withdrawn p d).generation = d.generation ∧ (withdrawn p d).key = d.key ∧
      (withdrawn p d).action = d.action ∧ (withdrawn p d).lane = d.lane ∧
      (withdrawn p d).failures = d.failures ∧ (withdrawn p d).stage = d.stage := by
  unfold withdrawn; split <;> exact ⟨rfl, rfl, rfl, rfl, rfl, rfl⟩

@[simp] theorem withdrawn_generation (p : Option Pending) (d : Delivery α) :
    (withdrawn p d).generation = d.generation := (withdrawn_fields p d).1

/-- A delivery that is not cancelled afterwards was not, and the mark was not its own. -/
theorem withdrawn_cancelled_eq_false {p : Option Pending} {d : Delivery α}
    (h : (withdrawn p d).cancelled = false) :
    d.cancelled = false ∧ p.map (·.generation) ≠ some d.generation := by
  unfold withdrawn at h
  split at h
  · exact absurd h (by simp)
  · exact ⟨h, ‹_›⟩

theorem cancel_eq (r : Replicator α) (p : Option Pending) :
    r.cancel p = { r with deliveries := r.deliveries.map (withdrawn p) } := by
  cases p with
  | none =>
    have hsame : r.deliveries.map (withdrawn none) = r.deliveries :=
      (List.map_congr_left fun d _ => withdrawn_none d).trans (List.map_id _)
    rw [hsame]
    rfl
  | some p =>
    simp only [cancel, updateDelivery]
    congr 2
    funext d
    simp only [withdrawn, Option.map_some, Option.some.injEq, eq_comm]

/-! ### Registering and forgetting -/

/-- The pending mark of a key. -/
def pendingOf (r : Replicator α) (key : String) : Option Pending :=
  (r.entryFor? key).bind (·.pending)

/-- The lane on which a write registered for a key is called. -/
def laneFor (r : Replicator α) (key : String) : Nat :=
  match r.entryFor? key with
  | some e => e.lane
  | none => r.nextLane

/-- The delivery that registering a write starts. -/
def freshDelivery (r : Replicator α) (key : String) (action : α) : Delivery α where
  generation := r.nextGeneration
  key
  action
  lane := r.laneFor key
  cancelled := r.isShutDown
  failures := 0
  stage := .ready

/-- The entry that a key has once it has been registered for. -/
def freshEntry (r : Replicator α) (key : String) (action : α) : ReplicationEntry α where
  key
  current := action
  lane := r.laneFor key
  pending := some ⟨r.nextGeneration, true⟩

section Register

variable (r : Replicator α) (key : String) (action : α)

/-- What making sure of an entry leaves alone. -/
theorem withEntry_parts : ∃ entries nextLane,
    (r.withEntry key action).1 = { r with entries, nextLane } ∧ r.nextLane ≤ nextLane := by
  unfold withEntry
  cases r.entryFor? key with
  | some e => exact ⟨_, _, rfl, Nat.le_refl _⟩
  | none => exact ⟨_, _, rfl, Nat.le_succ _⟩

theorem withEntry_snd_pending : (r.withEntry key action).2.pending = r.pendingOf key := by
  unfold withEntry pendingOf
  cases r.entryFor? key <;> rfl

theorem withEntry_snd_lane : (r.withEntry key action).2.lane = r.laneFor key := by
  unfold withEntry laneFor
  cases r.entryFor? key <;> rfl

/-- Once there is an entry, its key has it, and every other key has what it had. -/
theorem entryFor?_withEntry (k : String) : (r.withEntry key action).1.entryFor? k =
    if k = key then some (r.withEntry key action).2 else r.entryFor? k := by
  unfold withEntry
  cases h : r.entryFor? key with
  | some e =>
    by_cases hk : k = key
    · rw [if_pos hk, hk]
      exact h
    · rw [if_neg hk]
  | none => exact Keyed.find?_append_single (fun x => Keyed.find?_eq_none_iff.mp h x) k

theorem nodup_keys_withEntry (hkeys : (r.entries.map (·.key)).Nodup) :
    ((r.withEntry key action).1.entries.map (·.key)).Nodup := by
  unfold withEntry
  cases h : r.entryFor? key with
  | some e => exact hkeys
  | none => exact Keyed.nodup_append_single hkeys fun x => Keyed.find?_eq_none_iff.mp h x

/-- An entry with a write registered under a generation. -/
def rewritten (action : α) (g : Nat) (e : ReplicationEntry α) : ReplicationEntry α :=
  { e with current := action, pending := some ⟨g, true⟩ }

/-- Registering in terms of its parts. -/
theorem register_fst : (r.register key action).1 =
    { ((r.withEntry key action).1.updateEntry key (rewritten action r.nextGeneration)) with
      deliveries := r.deliveries.map (withdrawn (r.pendingOf key)) ++ [r.freshDelivery key action]
      nextGeneration := r.nextGeneration + 1 } := by
  obtain ⟨_, _, h, -⟩ := r.withEntry_parts key action
  simp only [register, cancel_eq, withEntry_snd_pending, withEntry_snd_lane, h]
  rfl

@[simp] theorem deliveries_register : (r.register key action).1.deliveries =
    r.deliveries.map (withdrawn (r.pendingOf key)) ++ [r.freshDelivery key action] := by
  rw [register_fst]

@[simp] theorem nextGeneration_register :
    (r.register key action).1.nextGeneration = r.nextGeneration + 1 := by
  rw [register_fst]

/-- Registering a write leaves alone what has to do with neither entries nor deliveries. -/
theorem register_frame :
    (r.register key action).1.plan = r.plan ∧
      (r.register key action).1.renewals = r.renewals ∧
      (r.register key action).1.claims = r.claims ∧
      (r.register key action).1.recovering = r.recovering ∧
      (r.register key action).1.inFlight = r.inFlight ∧
      (r.register key action).1.nextRenewal = r.nextRenewal ∧
      (r.register key action).1.isShutDown = r.isShutDown ∧
      r.nextLane ≤ (r.register key action).1.nextLane := by
  obtain ⟨_, _, h, hlane⟩ := r.withEntry_parts key action
  rw [register_fst, h]
  exact ⟨rfl, rfl, rfl, rfl, rfl, rfl, rfl, hlane⟩

/-- Registering a write leaves the loops alone. -/
theorem register_ticks : (r.register key action).1.renewalTick = r.renewalTick ∧
    (r.register key action).1.recoveryTick = r.recoveryTick := by
  obtain ⟨_, _, h, -⟩ := r.withEntry_parts key action
  rw [register_fst, h]
  exact ⟨rfl, rfl⟩

/-- Registering a write lets no task die. -/
theorem dead_register : (r.register key action).1.dead = r.dead := by
  obtain ⟨_, _, h, -⟩ := r.withEntry_parts key action
  rw [register_fst, h]
  rfl

/-- The key that was registered for has its fresh entry, and every other key what it had. -/
theorem entryFor?_register (k : String) : (r.register key action).1.entryFor? k =
    if k = key then some (r.freshEntry key action) else r.entryFor? k := by
  rw [register_fst]
  refine ((r.withEntry key action).1.entryFor?_updateEntry key
    (f := rewritten action r.nextGeneration) (fun _ => rfl) k).trans ?_
  rw [entryFor?_withEntry]
  by_cases hk : k = key
  · have hfound : (r.withEntry key action).1.entryFor? key = some (r.withEntry key action).2 := by
      rw [entryFor?_withEntry, if_pos rfl]
    rw [if_pos hk, if_pos hk, if_pos hk]
    simp only [Option.map_some, rewritten, freshEntry, ← withEntry_snd_lane r key action,
      entryFor?_key hfound]
  · rw [if_neg hk, if_neg hk, if_neg hk]

theorem nodup_keys_register (hkeys : (r.entries.map (·.key)).Nodup) :
    ((r.register key action).1.entries.map (·.key)).Nodup := by
  have hentries : (r.register key action).1.entries =
      ((r.withEntry key action).1.updateEntry key (rewritten action r.nextGeneration)).entries := by
    rw [register_fst]
  rw [hentries, keys_updateEntry (f := rewritten action r.nextGeneration) _ fun _ => rfl]
  exact nodup_keys_withEntry r key action hkeys

end Register

section Forget

variable (r : Replicator α) (key : String)

theorem forget_eq : r.forget key = { r with
    entries := r.entries.filter (·.key ≠ key)
    deliveries := r.deliveries.map (withdrawn (r.pendingOf key)) } := by
  unfold forget pendingOf
  cases h : r.entryFor? key with
  | some e => simp only [cancel_eq, Option.bind_some]
  | none =>
    have hentries : r.entries.filter (·.key ≠ key) = r.entries :=
      List.filter_eq_self.mpr fun e he =>
        decide_eq_true (Keyed.find?_eq_none_iff (f := ReplicationEntry.key).mp h e he)
    have hdeliveries : r.deliveries.map (withdrawn none) = r.deliveries :=
      (List.map_congr_left fun d _ => withdrawn_none d).trans (List.map_id _)
    rw [Option.bind_none, hentries, hdeliveries]

theorem entryFor?_forget (k : String) :
    (r.forget key).entryFor? k = if k = key then none else r.entryFor? k := by
  rw [forget_eq]
  exact Keyed.find?_filter_ne k

end Forget

/-! ### Flushing -/

/-- Whatever registering an abandoned write again keeps, a series of such registrations keeps. -/
theorem reregisterAll_induction {motive : Replicator α → Prop}
    (step : ∀ r key g action, motive r → r.abandonedWrite? key g = some action →
      motive (r.register key action).1)
    (r : Replicator α) (abandoned : List (String × Nat)) (h : motive r) :
    motive (r.reregisterAll abandoned).1 := by
  induction abandoned generalizing r with
  | nil => exact h
  | cons first rest ih =>
    obtain ⟨key, g⟩ := first
    simp only [reregisterAll, reregister]
    cases hwrite : r.abandonedWrite? key g with
    | none => exact ih r h
    | some action => exact ih _ (step r key g action h hwrite)

/-- Whatever registering an abandoned write again keeps, a flush keeps. -/
theorem flush_induction {motive : Replicator α → Prop}
    (step : ∀ r key g action, motive r → r.abandonedWrite? key g = some action →
      motive (r.register key action).1)
    (r : Replicator α) (h : motive r) : motive r.flush.1 :=
  reregisterAll_induction step r r.abandoned h

/-- A flush leaves alone what registering leaves alone. -/
theorem flush_frame (r : Replicator α) :
    r.flush.1.plan = r.plan ∧ r.flush.1.renewals = r.renewals ∧ r.flush.1.claims = r.claims ∧
      r.flush.1.isShutDown = r.isShutDown ∧ r.nextGeneration ≤ r.flush.1.nextGeneration ∧
      r.nextLane ≤ r.flush.1.nextLane := by
  refine flush_induction (motive := fun r₁ => r₁.plan = r.plan ∧ r₁.renewals = r.renewals ∧
    r₁.claims = r.claims ∧ r₁.isShutDown = r.isShutDown ∧ r.nextGeneration ≤ r₁.nextGeneration ∧
    r.nextLane ≤ r₁.nextLane) ?_ r ⟨rfl, rfl, rfl, rfl, Nat.le_refl _, Nat.le_refl _⟩
  intro r₁ key _ action h _
  obtain ⟨hplan, hrenewals, hclaims, hdown, hgeneration, hlane⟩ := h
  obtain ⟨hplan', hrenewals', hclaims', -, -, -, hdown', hlane'⟩ := r₁.register_frame key action
  refine ⟨hplan'.trans hplan, hrenewals'.trans hrenewals, hclaims'.trans hclaims,
    hdown'.trans hdown, ?_, Nat.le_trans hlane hlane'⟩
  rw [nextGeneration_register]
  exact Nat.le_succ_of_le hgeneration

theorem flush_ticks (r : Replicator α) :
    r.flush.1.renewalTick = r.renewalTick ∧ r.flush.1.recoveryTick = r.recoveryTick := by
  refine flush_induction (motive := fun r₁ => r₁.renewalTick = r.renewalTick ∧
    r₁.recoveryTick = r.recoveryTick) ?_ r ⟨rfl, rfl⟩
  intro r₁ key _ action h _
  obtain ⟨hrenewal, hrecovery⟩ := r₁.register_ticks key action
  exact ⟨hrenewal.trans h.1, hrecovery.trans h.2⟩

theorem dead_flush (r : Replicator α) : r.flush.1.dead = r.dead :=
  flush_induction (motive := fun r₁ => r₁.dead = r.dead)
    (fun r₁ key _ action h _ => (r₁.dead_register key action).trans h) r rfl

/-- A tick of the recovery loop is a flush, or is skipped. -/
@[elab_as_elim]
theorem recover_elim {motive : Replicator α → Prop} (r : Replicator α) (skipped : motive r)
    (flushed : ∀ recovering, motive { r.flush.1 with recovering }) : motive r.recover := by
  unfold recover
  split
  · exact flushed r.flush.2
  · exact skipped

/-- An abandoned write is the latest one of its key, whose delivery has given up. -/
theorem abandonedWrite?_eq_some_iff {r : Replicator α} {key : String} {g : Nat} {action : α} :
    r.abandonedWrite? key g = some action ↔
      ∃ e, r.entryFor? key = some e ∧ e.pending = some ⟨g, false⟩ ∧
        e.current = action := by
  unfold abandonedWrite?
  cases r.entryFor? key with
  | none => simp
  | some e => simp

/-! ### Renewing -/

/-- The renewals that a tick starts, numbered from `first`. -/
def freshRenewals (first : Nat) : List (ReplicationEntry α) → List Renewal
  | [] => []
  | e :: rest => ⟨first, e.key, e.lane, false⟩ :: freshRenewals (first + 1) rest

theorem foldl_renew (r : Replicator α) (entries : List (ReplicationEntry α)) :
    entries.foldl renew r = { r with
      renewals := r.renewals ++ freshRenewals r.nextRenewal entries
      claims := r.claims ++ (freshRenewals r.nextRenewal entries).map Renewal.claim
      nextRenewal := r.nextRenewal + entries.length } := by
  induction entries generalizing r with
  | nil => simp [freshRenewals]
  | cons e rest ih =>
    rw [List.foldl_cons, ih]
    simp [renew, claim, freshRenewals, Renewal.claim, Nat.add_assoc, Nat.add_comm 1]

theorem renewAll_eq (r : Replicator α) : r.renewAll =
    if r.inFlight = 0 then { r with
      renewals := r.renewals ++ freshRenewals r.nextRenewal r.entries
      claims := r.claims ++ (freshRenewals r.nextRenewal r.entries).map Renewal.claim
      nextRenewal := r.nextRenewal + r.entries.length } else r := by
  rw [renewAll, foldl_renew]

theorem mem_freshRenewals {first : Nat} {entries : List (ReplicationEntry α)} {n : Renewal}
    (h : n ∈ freshRenewals first entries) :
    (first ≤ n.number ∧ n.number < first + entries.length) ∧ n.calling = false ∧
      ∃ e ∈ entries, n.key = e.key ∧ n.lane = e.lane := by
  induction entries generalizing first with
  | nil => simp [freshRenewals] at h
  | cons e rest ih =>
    rcases List.mem_cons.mp h with rfl | hrest
    · exact ⟨⟨Nat.le_refl _, by simp⟩, rfl, e, List.mem_cons_self, rfl, rfl⟩
    · obtain ⟨⟨hle, hlt⟩, hcalling, e', he', hkey⟩ := ih hrest
      rw [List.length_cons]
      exact ⟨⟨by omega, by omega⟩, hcalling, e', List.mem_cons_of_mem _ he', hkey⟩

theorem exists_freshRenewal (first : Nat) {entries : List (ReplicationEntry α)}
    {e : ReplicationEntry α} (he : e ∈ entries) :
    ∃ n ∈ freshRenewals first entries, n.key = e.key := by
  induction entries generalizing first with
  | nil => exact absurd he List.not_mem_nil
  | cons e' rest ih =>
    rcases List.mem_cons.mp he with rfl | hrest
    · exact ⟨_, List.mem_cons_self, rfl⟩
    · obtain ⟨n, hn, hkey⟩ := ih (first + 1) hrest
      exact ⟨n, List.mem_cons_of_mem _ hn, hkey⟩

theorem nodup_freshRenewals (first : Nat) (entries : List (ReplicationEntry α)) :
    ((freshRenewals first entries).map (·.number)).Nodup := by
  induction entries generalizing first with
  | nil => simp [freshRenewals]
  | cons e rest ih =>
    rw [freshRenewals, List.map_cons, List.nodup_cons]
    refine ⟨?_, ih (first + 1)⟩
    intro hmem
    obtain ⟨n, hn, hnumber⟩ := List.mem_map.mp hmem
    have hle := (mem_freshRenewals hn).1.1
    rw [hnumber] at hle
    exact absurd hle (Nat.not_succ_le_self first)

end Replicator

end Floodgate
