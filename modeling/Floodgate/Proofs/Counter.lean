import Floodgate.Counter
import Floodgate.Proofs.Gate.Calls
/-!
# Floodgate.Proofs.Counter

**Producers that share a counter.** Each call of a producer is two steps: it counts, and if that was
an edge it calls the store some time later. A `Run` puts the steps of any number of calls together
in any order; along it `Producers` keeps what the claims about it speak of, the counts and the edges
in the order of the updates, and the edges in the order of the store calls.

Edges are found with the count, so the latest edge always says whether the count has reached the
threshold since it was last zero (`Run.latest_edge`), and every edge reaches the store exactly once
(`Run.perm_edges`). But store calls may overtake each other, and what the store hears last need not
be the latest edge: with all calls finished it can hold an instance busy whose count is zero
(`idle_instance_left_busy`). If the calls reach the store in the order of the updates, then it ends
with what the count says (`last_status_of_inOrder`), and so does the gate of a store within the
process (`gate_of_inOrder`).
-/

namespace Floodgate

variable {σ : Type} {store : StatusStore σ} {name : String} {threshold : UInt64}

/-- A counter that has been made starts at zero, and its threshold is at least one. -/
theorem UsageCounter.of_create {counter : UsageCounter}
    (hcreate : create name threshold = .ok counter) :
    counter = ⟨name, threshold, 0⟩ ∧ 0 < threshold := by
  unfold create at hcreate
  split at hcreate
  · cases hcreate
  · next hpos =>
    split at hcreate
    · cases hcreate
    · cases hcreate
      rw [UInt64.lt_iff_toNat_lt] at hpos ⊢
      exact ⟨rfl, by simpa [Nat.pos_iff_ne_zero] using hpos⟩

/-- Producers between their steps. -/
structure Producers (σ : Type) where
  counter : UsageCounter
  /-- What the store holds. -/
  held : σ
  /-- The edges that have still to reach the store, oldest first. -/
  pending : List StatusEdge
  /-- The counts so far, newest first. -/
  counts : List UInt64
  /-- The edges so far in the order of their updates, newest first. -/
  edges : List StatusEdge
  /-- The edges that have reached the store, newest first. -/
  told : List StatusEdge

namespace Producers

variable {p : Producers σ} {inOrder : Prop}

/-- An update of the count, with the edge that it is. -/
def update (p : Producers σ) (updated : UsageCounter × Option StatusEdge) : Producers σ :=
  { p with
    counter := updated.1
    pending := p.pending ++ updated.2.toList
    counts := updated.1.count :: p.counts
    edges := updated.2.toList ++ p.edges }

/-- A pending edge reaches the store. -/
def tell (p : Producers σ) (store : StatusStore σ) (place : Nat) (edge : StatusEdge) :
    Producers σ :=
  { p with
    held := (UsageCounter.report store p.counter.instanceName p.held (some edge)).2
    pending := p.pending.eraseIdx place
    told := edge :: p.told }

/-- The runs of producers whose counter does not overflow. If they are to be in order, then edges
reach the store in the order of the updates. -/
inductive Run (store : StatusStore σ) (name : String) (threshold : UInt64) (inOrder : Prop) :
    Producers σ → Prop
  | create {counter : UsageCounter} (hcreate : UsageCounter.create name threshold = .ok counter)
      (held : σ) : Run store name threshold inOrder ⟨counter, held, [], [0], [], []⟩
  | increment {p : Producers σ} (h : Run store name threshold inOrder p) (data : Option String)
      (hroom : p.counter.count + 1 ≠ 0) :
      Run store name threshold inOrder (p.update (p.counter.raise data))
  | decrement {p : Producers σ} (h : Run store name threshold inOrder p) (amount : UInt64) :
      Run store name threshold inOrder (p.update (p.counter.lower amount))
  | tell {p : Producers σ} (h : Run store name threshold inOrder p) (place : Nat)
      (edge : StatusEdge) (hat : p.pending[place]? = some edge)
      (horder : inOrder → place = 0) :
      Run store name threshold inOrder (p.tell store place edge)

/-- Whether the count has reached the threshold since it was last zero. -/
def hasReached (threshold : UInt64) : List UInt64 → Bool
  | [] => false
  | count :: earlier => count ≠ 0 && (threshold ≤ count || hasReached threshold earlier)

/-! ### Counts -/

section Counts

variable {count lowered : UInt64} {counts : List UInt64}

theorem toNat_add_one (hroom : count + 1 ≠ 0) : (count + 1).toNat = count.toNat + 1 := by
  have hlt := count.toNat_lt
  have hne : (count + 1).toNat ≠ 0 := fun hzero => hroom (UInt64.toNat_inj.mp hzero)
  rw [UInt64.toNat_add] at hne ⊢
  simp only [UInt64.reduceToNat] at hne ⊢
  omega

/-- A count at the threshold or above has reached it. -/
theorem hasReached_of_le (hpos : 0 < threshold) (hle : threshold ≤ count)
    (hcount : counts.head? = some count) : hasReached threshold counts = true := by
  obtain ⟨earlier, rfl⟩ := List.head?_eq_some_iff.mp hcount
  have hne : count ≠ 0 := by
    rintro rfl
    exact UInt64.lt_irrefl _ (UInt64.lt_of_lt_of_le hpos hle)
  simp [hasReached, hne, hle]

/-- Counting one more reaches the threshold if it is now at it, and cannot pass it unnoticed. -/
theorem hasReached_add_one (hpos : 0 < threshold) (hroom : count + 1 ≠ 0)
    (hcount : counts.head? = some count) :
    hasReached threshold ((count + 1) :: counts) =
      (count + 1 = threshold || hasReached threshold counts) := by
  -- The count moves by one, so it cannot get past the threshold without being at it.
  have hsplit : threshold ≤ count + 1 ↔ count + 1 = threshold ∨ threshold ≤ count := by
    rw [← UInt64.toNat_inj, UInt64.le_iff_toNat_le, UInt64.le_iff_toNat_le, toNat_add_one hroom]
    omega
  by_cases hle : threshold ≤ count
  · simp [hasReached, hroom, hasReached_of_le hpos hle hcount]
  · simp [hasReached, hroom, hsplit, hle]

/-- Counting less reaches nothing, and starts anew at zero. -/
theorem hasReached_lowered (hpos : 0 < threshold) (hle : lowered ≤ count)
    (hcount : counts.head? = some count) :
    hasReached threshold (lowered :: counts) = (lowered ≠ 0 && hasReached threshold counts) := by
  by_cases hreached : threshold ≤ lowered
  · simp [hasReached, hasReached_of_le hpos (UInt64.le_trans hreached hle) hcount]
  · simp [hasReached, hreached]

theorem hasReached_of_zero (hcount : counts.head? = some 0) :
    hasReached threshold counts = false := by
  obtain ⟨earlier, rfl⟩ := List.head?_eq_some_iff.mp hcount
  rfl

theorem count_lower_le (c : UsageCounter) (amount : UInt64) :
    (c.lower amount).1.count ≤ c.count := by
  simp only [UsageCounter.lower]
  split
  · next hle =>
    rw [UInt64.le_iff_toNat_le, UInt64.toNat_sub_of_le _ _ hle]
    exact Nat.sub_le ..
  · exact UInt64.zero_le

end Counts

/-! ### Edges -/

/-- The counter is the run's, and the latest edge agrees with the counts. -/
structure Counted (threshold : UInt64) (p : Producers σ) : Prop where
  threshold_eq : p.counter.threshold = threshold
  pos : 0 < threshold
  counts : p.counts.head? = some p.counter.count
  latest : p.edges.head?.any (·.isBusy) = hasReached threshold p.counts

theorem Counted.create {counter : UsageCounter}
    (hcreate : UsageCounter.create name threshold = .ok counter) (held : σ) :
    Counted threshold ⟨counter, held, [], [0], [], []⟩ := by
  obtain ⟨rfl, hpos⟩ := UsageCounter.of_create hcreate
  exact ⟨rfl, hpos, rfl, rfl⟩

theorem Counted.raise (h : Counted threshold p) (data : Option String)
    (hroom : p.counter.count + 1 ≠ 0) : Counted threshold (p.update (p.counter.raise data)) where
  threshold_eq := h.threshold_eq
  pos := h.pos
  counts := rfl
  latest := by
    have hreached := hasReached_add_one h.pos hroom h.counts
    simp only [update, UsageCounter.raise, h.threshold_eq, hreached, ← h.latest]
    split
    · next hedge => simp [hedge, StatusEdge.isBusy]
    · next hedge => simp [hedge]

theorem Counted.lower (h : Counted threshold p) (amount : UInt64) :
    Counted threshold (p.update (p.counter.lower amount)) where
  threshold_eq := h.threshold_eq
  pos := h.pos
  counts := rfl
  latest := by
    have hreached := hasReached_lowered h.pos (count_lower_le p.counter amount) h.counts
    have hedge : (p.counter.lower amount).2 =
        if 0 < p.counter.count ∧ (p.counter.lower amount).1.count = 0 then some .idle else none :=
      rfl
    simp only [update, hreached, hedge, ← h.latest]
    by_cases hzero : (p.counter.lower amount).1.count = 0
    · by_cases hcount : 0 < p.counter.count
      · simp [hzero, hcount, StatusEdge.isBusy]
      · -- There was nothing to count down, so nothing has changed.
        have hnone : p.counter.count = 0 := by
          rw [UInt64.lt_iff_toNat_lt] at hcount
          exact UInt64.toNat_inj.mp (Nat.eq_zero_of_not_pos hcount)
        simp [hzero, hcount, h.latest, hasReached_of_zero (hnone ▸ h.counts)]
    · simp [hzero]

theorem Run.counted (h : Run store name threshold inOrder p) : Counted threshold p := by
  induction h with
  | create hcreate held => exact .create hcreate held
  | increment _ data hroom ih => exact ih.raise data hroom
  | decrement _ amount ih => exact ih.lower amount
  | tell _ _ _ _ _ ih => exact ⟨ih.threshold_eq, ih.pos, ih.counts, ih.latest⟩

/-- **In whatever order store calls are made, the latest edge says whether the count has reached the
threshold since it was last zero.** -/
theorem Run.latest_edge (h : Run store name threshold inOrder p) :
    p.edges.head?.any (·.isBusy) = hasReached threshold p.counts := h.counted.latest

/-! ### Store calls -/

/-- Every edge reaches the store once. -/
theorem Run.perm_edges (h : Run store name threshold inOrder p) :
    (p.told ++ p.pending).Perm p.edges := by
  have hupdate {p : Producers σ} (ih : (p.told ++ p.pending).Perm p.edges)
      (updated : UsageCounter × Option StatusEdge) :
      ((p.update updated).told ++ (p.update updated).pending).Perm (p.update updated).edges := by
    rw [update, ← List.append_assoc]
    exact List.perm_append_comm.trans (ih.append_left _)
  induction h with
  | create => exact .nil
  | increment _ data _ ih => exact hupdate ih _
  | decrement _ amount ih => exact hupdate ih _
  | tell _ place edge hat _ ih => exact (perm_eraseIdx_of_getElem? hat).trans ih

/-- If store calls are made in the order of the updates, then the store hears of the edges in that
order. -/
theorem Run.told_of_inOrder (h : Run store name threshold True p) :
    p.told.reverse ++ p.pending = p.edges.reverse := by
  have hupdate {p : Producers σ} (ih : p.told.reverse ++ p.pending = p.edges.reverse)
      (updated : UsageCounter × Option StatusEdge) :
      (p.update updated).told.reverse ++ (p.update updated).pending =
        (p.update updated).edges.reverse := by
    rw [update, ← List.append_assoc, ih]
    cases updated.2 <;> simp
  induction h with
  | create => rfl
  | increment _ data _ ih => exact hupdate ih _
  | decrement _ amount ih => exact hupdate ih _
  | @tell p _ place edge hat horder ih =>
    cases horder trivial
    obtain ⟨rest, hrest⟩ := List.head?_eq_some_iff.mp (List.head?_eq_getElem? ▸ hat)
    rw [hrest] at ih
    simpa [Producers.tell, hrest] using ih

/-- When all calls have finished, the store has heard last what the count says exactly if it has
heard last what the latest edge says. -/
theorem last_status_iff (h : Run store name threshold inOrder p) (hdone : p.pending = [])
    {last : StatusEdge} (hlast : p.told.head? = some last) :
    ∃ latest ∈ p.told, p.edges.head? = some latest ∧
      (last.isBusy = hasReached threshold p.counts ↔ last.isBusy = latest.isBusy) := by
  have hperm := h.perm_edges
  rw [hdone, List.append_nil] at hperm
  cases hedges : p.edges with
  | nil =>
    rw [hedges, List.perm_nil] at hperm
    rw [hperm] at hlast
    cases hlast
  | cons latest earlier =>
    have hlatest := h.latest_edge
    rw [hedges, List.head?_cons, Option.any_some] at hlatest
    exact ⟨latest, hperm.mem_iff.mpr (hedges ▸ List.mem_cons_self), rfl, by rw [hlatest]⟩

/-- **If store calls are made in the order of the updates and all calls have finished, then the last
status that the store has received is busy exactly if the count has reached the threshold since it
was last zero.** -/
theorem last_status_of_inOrder (h : Run store name threshold True p) (hdone : p.pending = [])
    {last : StatusEdge} (hlast : p.told.head? = some last) :
    last.isBusy = hasReached threshold p.counts := by
  have htold := h.told_of_inOrder
  rw [hdone, List.append_nil, List.reverse_inj] at htold
  rw [← h.latest_edge, ← htold, hlast, Option.any_some]

/-! ### The gate of a store within the process -/

theorem isBlocked_setStatus (house : Gatehouse) (name : String) (edge : StatusEdge) :
    (localStore.setStatus house name edge).2.gate.isBlocked = edge.isBusy := by
  obtain ⟨⟨barrier, armed⟩, handlers, started⟩ := house
  cases edge <;> cases barrier <;> rfl

/-- The gate is blocked exactly if the last status received is busy. -/
theorem Run.gate_of_told {p : Producers Gatehouse} (h : Run localStore name threshold inOrder p)
    {last : StatusEdge} (hlast : p.told.head? = some last) :
    p.held.gate.isBlocked = last.isBusy := by
  induction h with
  | create => cases hlast
  | increment _ _ _ ih => exact ih hlast
  | decrement _ _ ih => exact ih hlast
  | @tell p _ _ _ _ _ _ =>
    cases hlast
    exact isBlocked_setStatus p.held p.counter.instanceName last

theorem gate_of_inOrder {p : Producers Gatehouse} (h : Run localStore name threshold True p)
    (hdone : p.pending = []) (htold : p.told ≠ []) :
    p.held.gate.isBlocked = hasReached threshold p.counts := by
  obtain ⟨last, hlast⟩ := Option.isSome_iff_exists.mp (List.isSome_head?.mpr htold)
  rw [h.gate_of_told hlast, last_status_of_inOrder h hdone hlast]

/-! ### Store calls that overtake each other -/

/-- Two producers that share a counter with threshold 1: one has counted up and the other down, and
the store has heard of the second first. -/
def overtaken : Producers Gatehouse :=
  let p : Producers Gatehouse := ⟨⟨"a", 1, 0⟩, .fresh {}, [], [0], [], []⟩
  let p := p.update (p.counter.raise none)
  let p := p.update (p.counter.lower 1)
  (p.tell localStore 1 .idle).tell localStore 0 (.busy none)

theorem run_overtaken : Run localStore "a" 1 False overtaken := by
  have hcreate : UsageCounter.create "a" 1 = .ok ⟨"a", 1, 0⟩ := rfl
  have hcreated : Run localStore "a" 1 False ⟨⟨"a", 1, 0⟩, .fresh {}, [], [0], [], []⟩ :=
    .create hcreate _
  have hcounted := (hcreated.increment none (by decide)).decrement 1
  exact (hcounted.tell 1 .idle (by decide) nofun).tell 0 (.busy none) (by decide) nofun

/-- An instance whose producers have all finished can be left busy with its count at zero. -/
theorem idle_instance_left_busy : Run localStore "a" 1 False overtaken ∧ overtaken.pending = [] ∧
    overtaken.counter.count = 0 ∧ hasReached 1 overtaken.counts = false ∧
    overtaken.told.head? = some (.busy none) ∧ overtaken.held.gate.isBlocked = true :=
  ⟨run_overtaken, by decide⟩

end Producers

end Floodgate
