import Mathlib.Logic.Relation
import Floodgate.Proofs.LocalLock
/-!
# Floodgate.Proofs.Registry

**A registry is written once for each key, and its locks are apart.** Requests come in any order:
keys are registered with a lock of their own or as an alias of another key, looked up, and what is
looked up is operated. Which of them are refused is told by the keys that have been registered
(`Request.refusal`), and a refused request leaves the registry as it is. Keys share a lock exactly
if a chain of aliases joins them (`Shares`), so that an operation of one key is seen under the keys
of its chains and under no other.

Main statement: `Registry.write_once_and_isolated`.

Design points:

* **Places are identities.** A key is registered with a place in the list of locks. No place is
  taken twice, and no key is given another place, so keys of one place have one gate and one
  counter.
* **A lock that is looked up is operated by its key.** Its key keeps it for ever, so it does not
  matter when it was looked up.
* **Requests are kept latest first,** and the registry is what they make of an empty one.
-/

namespace Floodgate

/-- What can be done with the gate and the counter of a lock. -/
inductive LockOperation where
  /-- The counter counts, and takes an edge to the gate. -/
  | use (usage : Usage)
  /-- The counter counts. If that is an edge, it calls the gate later. -/
  | count (usage : Usage)
  /-- Somebody calls the gate, perhaps a handler. -/
  | call (call : GateCall)
  /-- A handler run that has been started is carried out, given by its place. -/
  | begin (place : Nat)
  deriving DecidableEq, Repr

def LocalLock.operate (l : LocalLock) : LockOperation → LocalLock
  | .use usage => l.use usage
  | .count usage => { l with counter := (l.counter.use usage).1 }
  | .call (.block data) => (l.block data).2
  | .call .unblock => l.unblock.2
  | .begin place =>
    match l.house.started[place]? with
    | some run =>
      let house := { l.house with started := l.house.started.eraseIdx place }
      { l with house := (house.carryOut run).1 }
    | none => l

namespace Registry

/-! ### Requests -/

/-- What is asked of a registry. -/
inductive Request where
  /-- A lock is made and registered under a key. -/
  | registerLocal (key instanceName : String) (threshold : UInt64) (handlers : Handlers)
  /-- The lock of one key is registered under another. -/
  | registerAlias (key of : String)
  | lookUp (key : String)
  | operate (key : String) (operation : LockOperation)
  deriving DecidableEq, Repr

/-- The registry after a request, or why it is refused. -/
def perform (r : Registry) : Request → Except RegistryError Registry
  | .registerLocal key instanceName threshold handlers =>
    r.registerLocal key instanceName threshold handlers
  | .registerAlias key of => r.registerAlias key of
  | .lookUp key => (r.lock key).map fun _ => r
  | .operate key operation => (r.modify key fun l => ((), l.operate operation)).map (·.2)

/-- Carries out a request. If it is refused, it says why. -/
def carryOut (r : Registry) (q : Request) : Option RegistryError × Registry :=
  match r.perform q with
  | .ok r' => (none, r')
  | .error e => (some e, r)

/-- The registry after some requests, latest first. -/
def after : List Request → Registry
  | [] => .empty
  | q :: earlier => ((after earlier).carryOut q).2

/-! ### What the requests say -/

/-- The key that a request is to register. -/
def Request.key? : Request → Option String
  | .registerLocal key _ _ _ | .registerAlias key _ => some key
  | .lookUp _ | .operate _ _ => none

/-- Why a request is refused if these keys are registered. -/
def Request.refusal (keys : List String) : Request → Option RegistryError
  | .registerLocal key instanceName threshold _ =>
    if threshold = 0 then some (.controller (.invalidBusyThreshold 0))
    else if Text.isBlankName instanceName then some (.controller .emptyInstanceName)
    else if key ∈ keys then some (.alreadyRegistered key)
    else none
  | .registerAlias key of =>
    if of ∉ keys then some (.notFound of)
    else if key ∈ keys then some (.alreadyRegistered key)
    else none
  | .lookUp key | .operate key _ => if key ∈ keys then none else some (.notFound key)

/-- The keys that some requests have registered. -/
def registered : List Request → List String
  | [] => []
  | q :: earlier =>
    match q.refusal (registered earlier) with
    | none => q.key?.toList ++ registered earlier
    | some _ => registered earlier

/-- A key has been registered with the lock of another. -/
def Aliased (requests : List Request) (key of : String) : Prop :=
  ∃ later earlier, requests = later ++ .registerAlias key of :: earlier ∧
    (Request.registerAlias key of).refusal (registered earlier) = none

/-- A chain of aliases joins two keys. -/
def Shares (requests : List Request) : String → String → Prop := Relation.EqvGen (Aliased requests)

theorem aliased_cons {q : Request} {earlier : List Request} {key of : String} :
    Aliased (q :: earlier) key of ↔
      (q = .registerAlias key of ∧ q.refusal (registered earlier) = none) ∨
        Aliased earlier key of := by
  constructor
  · intro h
    obtain ⟨later, older, heq, hdone⟩ := h
    cases later with
    | nil =>
      cases heq
      exact .inl ⟨rfl, hdone⟩
    | cons q' rest =>
      cases heq
      exact .inr ⟨rest, older, rfl, hdone⟩
  · intro h
    rcases h with ⟨rfl, hdone⟩ | ⟨later, older, rfl, hdone⟩
    · exact ⟨[], earlier, rfl, hdone⟩
    · exact ⟨q :: later, older, rfl, hdone⟩

/-- Keys that share a lock go on sharing it. -/
theorem Shares.cons {earlier : List Request} {k k' : String} (h : Shares earlier k k')
    (q : Request) : Shares (q :: earlier) k k' :=
  h.mono fun _ _ haliased => aliased_cons.mpr (.inr haliased)

/-! ### One request -/

variable {r r' : Registry} {keys : List String} {q : Request}

/-- These are the keys of a registry, and each of them has a lock. -/
structure Holds (r : Registry) (keys : List String) : Prop where
  isSome_lookup : ∀ k, (r.names.lookup k).isSome = true ↔ k ∈ keys
  place_lt : ∀ k place, r.names.lookup k = some place → place < r.locks.length

theorem Holds.exists_place (h : Holds r keys) {k : String} (hk : k ∈ keys) :
    ∃ place l, r.names.lookup k = some place ∧ r.locks[place]? = some l := by
  obtain ⟨place, hplace⟩ := Option.isSome_iff_exists.mp ((h.isSome_lookup k).mpr hk)
  exact ⟨place, _, hplace, List.getElem?_eq_getElem (h.place_lt k place hplace)⟩

theorem Holds.lookup_eq_none (h : Holds r keys) {k : String} (hk : k ∉ keys) :
    r.names.lookup k = none :=
  Option.not_isSome_iff_eq_none.mp fun hsome => hk ((h.isSome_lookup k).mp hsome)

theorem lock_of_lookup {k : String} {place : Nat} {l : LocalLock}
    (hplace : r.names.lookup k = some place) (hlock : r.locks[place]? = some l) :
    r.lock k = .ok l := by
  simp only [lock, find, hplace, bind, Except.bind, hlock]

theorem lock_of_not_registered {k : String} (hnone : r.names.lookup k = none) :
    r.lock k = .error (.notFound k) := by
  simp only [lock, find, hnone, bind, Except.bind]

theorem find_eq_ok_iff {k : String} {place : Nat} :
    r.find k = .ok place ↔ r.names.lookup k = some place := by
  unfold find
  cases r.names.lookup k <;> simp

/-- What a request that is not refused makes of a registry. -/
inductive Change (r : Registry) : Request → Registry → Prop where
  /-- A lock is made, at a new place. -/
  | made {key instanceName : String} {threshold : UInt64} {handlers : Handlers}
      (hfree : r.names.lookup key = none) :
      Change r (.registerLocal key instanceName threshold handlers)
        ⟨r.locks ++ [⟨.fresh handlers, instanceName, threshold, 0⟩],
          r.names ++ [(key, r.locks.length)]⟩
  /-- A key is given the place of another. -/
  | aliased {key of : String} {place : Nat} (hof : r.names.lookup of = some place)
      (hfree : r.names.lookup key = none) :
      Change r (.registerAlias key of) { r with names := r.names ++ [(key, place)] }
  | lookedUp {key : String} : Change r (.lookUp key) r
  /-- The lock of a key is changed in its place. -/
  | operated {key : String} {operation : LockOperation} {place : Nat} {l : LocalLock}
      (hplace : r.names.lookup key = some place) (hlock : r.locks[place]? = some l) :
      Change r (.operate key operation)
        { r with locks := r.locks.set place (l.operate operation) }

/-- Registering a key is refused if it is registered. -/
theorem register_eq (hkeys : ∀ k, (r.names.lookup k).isSome = true ↔ k ∈ keys) (key : String)
    (place : Nat) : r.register key place =
      if key ∈ keys then .error (.alreadyRegistered key)
      else .ok { r with names := r.names ++ [(key, place)] } := by
  simp only [register, hkeys]

/-- Making a lock is refused if there is no counter for it, or if the key is registered. -/
theorem Holds.registerLocal_eq (h : Holds r keys) (key instanceName : String) (threshold : UInt64)
    (handlers : Handlers) : r.registerLocal key instanceName threshold handlers =
      match (Request.registerLocal key instanceName threshold handlers).refusal keys with
      | some e => .error e
      | none => .ok ⟨r.locks ++ [⟨.fresh handlers, instanceName, threshold, 0⟩],
          r.names ++ [(key, r.locks.length)]⟩ := by
  have hzero : threshold < 1 ↔ threshold = 0 := by simp
  have hregister := fun lock => register_eq (r := { r with locks := r.locks ++ [lock] })
    h.isSome_lookup key r.locks.length
  unfold registerLocal UsageCounter.create Request.refusal
  by_cases hthreshold : threshold = 0
  · simp [hthreshold, Except.mapError, bind, Except.bind]
  by_cases hname : Text.isBlankName instanceName = true
  · simp [hzero, hthreshold, hname, Except.mapError, bind, Except.bind]
  by_cases hkey : key ∈ keys
  · simp [hzero, hthreshold, hname, hkey, hregister, Except.mapError, bind, Except.bind]
  · simp [hzero, hthreshold, hname, hkey, hregister, Except.mapError, bind, Except.bind]

/-- A request is refused for the reason that the keys give, and otherwise it makes its change. -/
theorem Holds.perform_cases (h : Holds r keys) (q : Request) :
    (∃ e, q.refusal keys = some e ∧ r.perform q = .error e) ∨
      q.refusal keys = none ∧ ∃ r', r.perform q = .ok r' ∧ Change r q r' := by
  cases q with
  | registerLocal key instanceName threshold handlers =>
    have hperform := h.registerLocal_eq key instanceName threshold handlers
    cases hrefusal : (Request.registerLocal key instanceName threshold handlers).refusal keys with
    | some e =>
      rw [hrefusal] at hperform
      exact .inl ⟨e, rfl, hperform⟩
    | none =>
      rw [hrefusal] at hperform
      have hkey : key ∉ keys := by
        intro hkey
        simp only [Request.refusal, if_pos hkey] at hrefusal
        split at hrefusal
        · cases hrefusal
        · split at hrefusal <;> cases hrefusal
      exact .inr ⟨rfl, _, hperform, .made (h.lookup_eq_none hkey)⟩
  | registerAlias key of =>
    by_cases hof : of ∈ keys
    · obtain ⟨place, l, hplace, hlock⟩ := h.exists_place hof
      by_cases hkey : key ∈ keys
      · refine .inl ⟨.alreadyRegistered key, by simp [Request.refusal, hof, hkey], ?_⟩
        simp [perform, registerAlias, find, hplace, bind, Except.bind,
          register_eq h.isSome_lookup, hkey]
      · have hfree := h.lookup_eq_none hkey
        refine .inr ⟨by simp [Request.refusal, hof, hkey], _, ?_, .aliased hplace hfree⟩
        simp [perform, registerAlias, find, hplace, bind, Except.bind,
          register_eq h.isSome_lookup, hkey]
    · refine .inl ⟨.notFound of, by simp [Request.refusal, hof], ?_⟩
      simp [perform, registerAlias, find, h.lookup_eq_none hof, bind, Except.bind]
  | lookUp key =>
    by_cases hkey : key ∈ keys
    · obtain ⟨place, l, hplace, hlock⟩ := h.exists_place hkey
      refine .inr ⟨by simp [Request.refusal, hkey], r, ?_, .lookedUp⟩
      simp [perform, lock_of_lookup hplace hlock, Except.map]
    · refine .inl ⟨.notFound key, by simp [Request.refusal, hkey], ?_⟩
      simp [perform, lock_of_not_registered (h.lookup_eq_none hkey), Except.map]
  | operate key operation =>
    by_cases hkey : key ∈ keys
    · obtain ⟨place, l, hplace, hlock⟩ := h.exists_place hkey
      refine .inr ⟨by simp [Request.refusal, hkey], _, ?_, .operated hplace hlock⟩
      simp [perform, modify, find, hplace, hlock, bind, Except.bind, Except.map]
    · refine .inl ⟨.notFound key, by simp [Request.refusal, hkey], ?_⟩
      simp [perform, modify, find, h.lookup_eq_none hkey, bind, Except.bind, Except.map]

/-! ### What a change is seen under -/

theorem lookup_append_single {names : List (String × Nat)} {key : String}
    (hfree : names.lookup key = none) (place : Nat) (k : String) :
    (names ++ [(key, place)]).lookup k = if k = key then some place else names.lookup k := by
  rw [List.lookup_append]
  by_cases hk : k = key
  · subst hk
    simp [hfree]
  · simp [List.lookup_cons, beq_false_of_ne hk, hk]

/-- A key keeps its place. -/
theorem Change.lookup_eq_some (hc : Change r q r') {k : String} {place : Nat}
    (hplace : r.names.lookup k = some place) : r'.names.lookup k = some place := by
  have hother : ∀ key new, r.names.lookup key = none →
      (r.names ++ [(key, new)]).lookup k = some place := by
    intro key new hfree
    rw [lookup_append_single hfree, if_neg, hplace]
    rintro rfl
    rw [hfree] at hplace
    cases hplace
  cases hc with
  | made hfree => exact hother _ _ hfree
  | aliased _ hfree => exact hother _ _ hfree
  | lookedUp => exact hplace
  | operated => exact hplace

/-- The keys are those from before and the one that has been registered. -/
theorem Change.holds (hc : Change r q r') (h : Holds r keys) :
    Holds r' (q.key?.toList ++ keys) := by
  have hnew : ∀ key place, r.names.lookup key = none → ∀ k,
      ((r.names ++ [(key, place)]).lookup k).isSome = true ↔ k ∈ [key] ++ keys := by
    intro key place hfree k
    rw [lookup_append_single hfree, List.mem_append, List.mem_singleton]
    by_cases hk : k = key
    · simp [hk]
    · simp [hk, h.isSome_lookup]
  cases hc with
  | @made key _ _ _ hfree =>
    refine ⟨hnew key _ hfree, fun k place hplace => ?_⟩
    rw [lookup_append_single hfree] at hplace
    rw [List.length_append, List.length_singleton]
    split at hplace
    · cases hplace
      exact Nat.lt_succ_self _
    · exact Nat.lt_succ_of_lt (h.place_lt k place hplace)
  | @aliased key of new hof hfree =>
    refine ⟨hnew key _ hfree, fun k place hplace => ?_⟩
    rw [lookup_append_single hfree] at hplace
    split at hplace
    · cases hplace
      exact h.place_lt of new hof
    · exact h.place_lt k place hplace
  | lookedUp => exact h
  | operated =>
    refine ⟨h.isSome_lookup, fun k place hplace => ?_⟩
    rw [List.length_set]
    exact h.place_lt k place hplace

/-- The lock of a registered key stays as it is, unless the request is to operate a key of its
place. -/
theorem Change.lock_eq (hc : Change r q r') (h : Holds r keys) {k : String} (hk : k ∈ keys)
    (hother : ∀ key operation, q = .operate key operation →
      r.names.lookup key ≠ r.names.lookup k) : r'.lock k = r.lock k := by
  obtain ⟨place, l, hplace, hlock⟩ := h.exists_place hk
  have hlt := h.place_lt k place hplace
  rw [lock_of_lookup hplace hlock]
  refine lock_of_lookup (hc.lookup_eq_some hplace) ?_
  cases hc with
  | made => rw [List.getElem?_append_left hlt, hlock]
  | aliased => exact hlock
  | lookedUp => exact hlock
  | @operated key operation place' l' hplace' =>
    have hne : place' ≠ place := by
      rintro rfl
      exact hother key operation rfl (hplace'.trans hplace.symm)
    rw [List.getElem?_set_ne hne, hlock]

/-- An operation of a key changes the lock of every key of its place. -/
theorem Change.lock_operated {key : String} {operation : LockOperation}
    (hc : Change r (.operate key operation) r') {k : String}
    (hsame : r.names.lookup key = r.names.lookup k) :
    r'.lock k = (r.lock k).map (·.operate operation) := by
  cases hc with
  | @operated _ _ place l hplace hlock =>
    rw [hplace] at hsame
    obtain ⟨hlt, -⟩ := List.getElem?_eq_some_iff.mp hlock
    rw [lock_of_lookup hsame.symm hlock]
    exact lock_of_lookup hsame.symm (List.getElem?_set_self hlt)

/-- A key that is registered with a lock of its own has a fresh one. -/
theorem Change.lock_made {key instanceName : String} {threshold : UInt64} {handlers : Handlers}
    (hc : Change r (.registerLocal key instanceName threshold handlers) r') :
    r'.lock key = .ok ⟨.fresh handlers, instanceName, threshold, 0⟩ := by
  cases hc with
  | made hfree =>
    refine lock_of_lookup ((lookup_append_single hfree _ key).trans (if_pos rfl)) ?_
    simp

theorem Change.find_aliased {key of : String} (hc : Change r (.registerAlias key of) r') :
    r'.find key = r.find of := by
  cases hc with
  | aliased hof hfree =>
    rw [find_eq_ok_iff.mpr hof, find_eq_ok_iff, lookup_append_single hfree, if_pos rfl]

/-! ### Keys of one place -/

/-- Keys are one, or they have one place. -/
def SamePlace (r : Registry) (k k' : String) : Prop :=
  k = k' ∨ ∃ place, r.names.lookup k = some place ∧ r.names.lookup k' = some place

theorem SamePlace.symm {k k' : String} (h : SamePlace r k k') : SamePlace r k' k := by
  rcases h with rfl | ⟨place, hk, hk'⟩
  · exact .inl rfl
  · exact .inr ⟨place, hk', hk⟩

theorem SamePlace.trans {k k' k'' : String} (h : SamePlace r k k') (h' : SamePlace r k' k'') :
    SamePlace r k k'' := by
  rcases h with rfl | ⟨place, hk, hk'⟩
  · exact h'
  · rcases h' with rfl | ⟨place', hk₁', hk''⟩
    · exact .inr ⟨place, hk, hk'⟩
    · rw [hk'] at hk₁'
      cases hk₁'
      exact .inr ⟨place, hk, hk''⟩

theorem SamePlace.lookup_eq {k k' : String} (h : SamePlace r k k') :
    r.names.lookup k = r.names.lookup k' := by
  rcases h with rfl | ⟨place, hk, hk'⟩
  · rfl
  · rw [hk, hk']

theorem Change.samePlace (hc : Change r q r') {k k' : String} (h : SamePlace r k k') :
    SamePlace r' k k' :=
  h.imp_right fun ⟨place, hk, hk'⟩ => ⟨place, hc.lookup_eq_some hk, hc.lookup_eq_some hk'⟩

theorem SamePlace.lock_eq {k k' : String} (h : SamePlace r k k') (hholds : Holds r keys) :
    r.lock k = r.lock k' := by
  rcases h with rfl | ⟨place, hk, hk'⟩
  · rfl
  · have hlock := List.getElem?_eq_getElem (hholds.place_lt k place hk)
    rw [lock_of_lookup hk hlock, lock_of_lookup hk' hlock]

theorem SamePlace.find_eq {k k' : String} (h : SamePlace r k k') : r.find k = r.find k' := by
  rcases h with rfl | ⟨place, hk, hk'⟩
  · rfl
  · rw [find_eq_ok_iff.mpr hk, find_eq_ok_iff.mpr hk']

/-- Nobody has the place of a lock that has just been made but the key that it has been made for. -/
theorem Change.eq_of_made {key instanceName : String} {threshold : UInt64} {handlers : Handlers}
    (hc : Change r (.registerLocal key instanceName threshold handlers) r') (h : Holds r keys)
    {k : String} (hsame : SamePlace r' key k) : k = key := by
  cases hc with
  | made hfree =>
    rcases hsame with rfl | ⟨place, hkey, hk⟩
    · rfl
    · by_contra hne
      rw [lookup_append_single hfree, if_pos rfl] at hkey
      rw [lookup_append_single hfree, if_neg hne, ← hkey] at hk
      exact Nat.lt_irrefl _ (h.place_lt k _ hk)

/-! ### Runs -/

/-- The registry after some requests has the keys that they have registered, and keys have one place
exactly if a chain of aliases joins them. -/
structure Faithful (requests : List Request) : Prop where
  holds : Holds (after requests) (registered requests)
  shares_iff : ∀ k k', Shares requests k k' ↔ SamePlace (after requests) k k'

variable {earlier : List Request}

theorem after_of_error {e : RegistryError} (hperform : (after earlier).perform q = .error e) :
    after (q :: earlier) = after earlier := by
  rw [after, carryOut, hperform]

theorem after_of_ok (hperform : (after earlier).perform q = .ok r') :
    after (q :: earlier) = r' := by
  rw [after, carryOut, hperform]

/-- A chain of aliases joins keys of one place. -/
theorem Faithful.samePlace_of_shares (h : Faithful earlier) (hc : Change (after earlier) q r')
    {k k' : String} (hshares : Shares (q :: earlier) k k') : SamePlace r' k k' := by
  induction hshares with
  | rel k k' haliased =>
    rcases aliased_cons.mp haliased with ⟨rfl, -⟩ | hold
    · cases hc with
      | @aliased _ _ place hof hfree =>
        refine .inr ⟨place, ?_, (Change.aliased hof hfree).lookup_eq_some hof⟩
        rw [lookup_append_single hfree, if_pos rfl]
    · exact hc.samePlace ((h.shares_iff k k').mp (.rel _ _ hold))
  | refl k => exact .inl rfl
  | symm k k' _ ih => exact ih.symm
  | trans k k' k'' _ _ ih ih' => exact ih.trans ih'

/-- Keys that have been given one place are joined by a chain of aliases. -/
theorem Faithful.shares_of_samePlace (h : Faithful earlier)
    (hdone : q.refusal (registered earlier) = none) (hc : Change (after earlier) q r')
    {k k' : String} (hsame : SamePlace r' k k') : Shares (q :: earlier) k k' := by
  have hold : ∀ {k k'}, SamePlace (after earlier) k k' → Shares (q :: earlier) k k' :=
    fun hsame => ((h.shares_iff _ _).mpr hsame).cons q
  cases hc with
  | @made key instanceName threshold handlers hfree =>
    have hmade : Change (after earlier) (.registerLocal key instanceName threshold handlers) _ :=
      .made hfree
    by_cases hkey : k = key
    · rw [hkey] at hsame ⊢
      rw [hmade.eq_of_made h.holds hsame]
      exact .refl key
    by_cases hkey' : k' = key
    · rw [hkey'] at hsame ⊢
      rw [hmade.eq_of_made h.holds hsame.symm]
      exact .refl key
    refine hold (hsame.imp_right fun ⟨place, hk, hk'⟩ => ⟨place, ?_, ?_⟩)
    · rwa [lookup_append_single hfree, if_neg hkey] at hk
    · rwa [lookup_append_single hfree, if_neg hkey'] at hk'
  | @aliased key of new hof hfree =>
    have hjoined : Shares (.registerAlias key of :: earlier) key of :=
      .rel _ _ (aliased_cons.mpr (.inl ⟨rfl, hdone⟩))
    have hkey : ∀ {k}, (after earlier).names.lookup k = some new →
        Shares (.registerAlias key of :: earlier) key k := fun hk =>
      hjoined.trans _ _ _ (hold (.inr ⟨new, hof, hk⟩))
    rcases hsame with rfl | ⟨place, hk, hk'⟩
    · exact .refl k
    rw [lookup_append_single hfree] at hk hk'
    split at hk
    · next hk₀ =>
      cases hk
      rw [hk₀]
      split at hk'
      · next hk₁ =>
        rw [hk₁]
        exact .refl key
      · exact hkey hk'
    · split at hk'
      · next hk₁ =>
        cases hk'
        rw [hk₁]
        exact (hkey hk).symm
      · exact hold (.inr ⟨place, hk, hk'⟩)
  | lookedUp => exact hold hsame
  | operated => exact hold hsame

theorem Faithful.cons (h : Faithful earlier) (q : Request) : Faithful (q :: earlier) := by
  rcases h.holds.perform_cases q with ⟨e, hrefused, hperform⟩ | ⟨hdone, r', hperform, hchange⟩
  · have hregistered : registered (q :: earlier) = registered earlier := by
      rw [registered, hrefused]
    have hshares : ∀ k k', Shares (q :: earlier) k k' ↔ Shares earlier k k' := by
      intro k k'
      refine ⟨fun hshares => hshares.mono fun _ _ haliased => ?_, fun hshares => hshares.cons q⟩
      refine (aliased_cons.mp haliased).resolve_left fun hnew => ?_
      rw [hrefused] at hnew
      cases hnew.2
    refine ⟨?_, fun k k' => ?_⟩
    · rw [after_of_error hperform, hregistered]
      exact h.holds
    · rw [after_of_error hperform, hshares]
      exact h.shares_iff k k'
  · have hregistered : registered (q :: earlier) = q.key?.toList ++ registered earlier := by
      rw [registered, hdone]
    refine ⟨?_, fun k k' => ?_⟩
    · rw [after_of_ok hperform, hregistered]
      exact hchange.holds h.holds
    · rw [after_of_ok hperform]
      exact ⟨h.samePlace_of_shares hchange, h.shares_of_samePlace hdone hchange⟩

theorem faithful (requests : List Request) : Faithful requests := by
  induction requests with
  | nil =>
    refine ⟨⟨by simp [after, empty, registered], nofun⟩, fun k k' => ⟨fun hshares => ?_, ?_⟩⟩
    · induction hshares with
      | rel k k' haliased =>
        obtain ⟨later, older, heq, -⟩ := haliased
        simp at heq
      | refl k => exact .inl rfl
      | symm k k' _ ih => exact ih.symm
      | trans k k' k'' _ _ ih ih' => exact ih.trans ih'
    · intro hsame
      rcases hsame with rfl | ⟨place, hk, -⟩
      · exact .refl k
      · cases hk
  | cons q earlier ih => exact ih.cons q

/-- A request is refused for the reason that the keys give, and it makes its change if there is
none. -/
theorem carryOut_cases (q : Request) (earlier : List Request) :
    (∃ e, q.refusal (registered earlier) = some e ∧
      ((after earlier).carryOut q).1 = some e ∧ after (q :: earlier) = after earlier) ∨
    q.refusal (registered earlier) = none ∧ ((after earlier).carryOut q).1 = none ∧
      Change (after earlier) q (after (q :: earlier)) := by
  rcases (faithful earlier).holds.perform_cases q with
    ⟨e, hrefused, hperform⟩ | ⟨hdone, r', hperform, hchange⟩
  · refine .inl ⟨e, hrefused, ?_, after_of_error hperform⟩
    rw [carryOut, hperform]
  · refine .inr ⟨hdone, ?_, ?_⟩
    · rw [carryOut, hperform]
    · rw [after_of_ok hperform]
      exact hchange

/-- A key keeps its place for ever. -/
theorem find_append {k : String} {place : Nat} (hfind : (after earlier).find k = .ok place)
    (later : List Request) : (after (later ++ earlier)).find k = .ok place := by
  induction later with
  | nil => exact hfind
  | cons q later ih =>
    rw [List.cons_append]
    rcases carryOut_cases q (later ++ earlier) with ⟨e, -, -, hsame⟩ | ⟨-, -, hchange⟩
    · rw [hsame]
      exact ih
    · rw [find_eq_ok_iff] at ih ⊢
      exact hchange.lookup_eq_some ih

/-- A request for whose refusal there is no reason makes its change. -/
theorem change_of_done (hdone : q.refusal (registered earlier) = none) :
    Change (after earlier) q (after (q :: earlier)) := by
  rcases carryOut_cases q earlier with ⟨e, hrefusal, -, -⟩ | ⟨-, -, hchange⟩
  · rw [hdone] at hrefusal
    cases hrefusal
  · exact hchange

/-- **After any requests, the next one is refused for the reason that the registered keys give, and
then changes nothing, or it is carried out. A key that is registered gets a new lock that no other
key has, or the lock of the key that it is an alias of, and keeps it for ever. Keys have a lock
exactly if they are registered. The next request changes the lock of a registered key only if it
operates a key that a chain of aliases joins with it; then the two have one lock, and it changes as
the operation says.** -/
theorem write_once_and_isolated (earlier : List Request) (q : Request) :
    (((after earlier).carryOut q).1 = q.refusal (registered earlier) ∧
      (q.refusal (registered earlier) ≠ none → after (q :: earlier) = after earlier)) ∧
    (q.refusal (registered earlier) = none →
      (∀ key instanceName threshold handlers,
        q = .registerLocal key instanceName threshold handlers →
          (after (q :: earlier)).lock key = .ok ⟨.fresh handlers, instanceName, threshold, 0⟩ ∧
            ∀ k, Shares (q :: earlier) key k → k = key) ∧
      ∀ key of, q = .registerAlias key of →
        (after (q :: earlier)).find key = (after earlier).find of) ∧
    (∀ k place, (after earlier).find k = .ok place →
      ∀ later, (after (later ++ earlier)).find k = .ok place) ∧
    (∀ k, (k ∈ registered earlier → ∃ l, (after earlier).lock k = .ok l) ∧
      (k ∉ registered earlier → (after earlier).lock k = .error (.notFound k))) ∧
    (∀ k ∈ registered earlier,
      (∀ key operation, q = .operate key operation → ¬Shares earlier key k) →
        (after (q :: earlier)).lock k = (after earlier).lock k) ∧
    (∀ key operation, q = .operate key operation → key ∈ registered earlier →
      ∀ k, Shares earlier key k →
        (after (q :: earlier)).lock k = ((after earlier).lock k).map (·.operate operation)) ∧
    ∀ k k', Shares earlier k k' →
      (after earlier).find k = (after earlier).find k' ∧
        (after earlier).lock k = (after earlier).lock k' := by
  have hfaithful := faithful earlier
  have hholds := hfaithful.holds
  refine ⟨⟨?_, fun hrefused => ?_⟩, fun hdone => ?_, fun k place hfind => find_append hfind,
    fun k => ⟨fun hk => ?_, fun hk => ?_⟩, fun k hk hother => ?_,
    fun key operation hoperate hkey k hshares => ?_, fun k k' hshares => ?_⟩
  · rcases carryOut_cases q earlier with ⟨e, hrefusal, hanswer, -⟩ | ⟨hrefusal, hanswer, -⟩
    · exact hanswer.trans hrefusal.symm
    · exact hanswer.trans hrefusal.symm
  · rcases carryOut_cases q earlier with ⟨e, -, -, hsame⟩ | ⟨hrefusal, -, -⟩
    · exact hsame
    · exact absurd hrefusal hrefused
  · have hchange := change_of_done hdone
    have hshares := (faithful (q :: earlier)).shares_iff
    refine ⟨?_, ?_⟩
    · rintro key instanceName threshold handlers rfl
      exact ⟨hchange.lock_made, fun k hk => hchange.eq_of_made hholds ((hshares key k).mp hk)⟩
    · rintro key of rfl
      exact hchange.find_aliased
  · obtain ⟨place, l, hplace, hlock⟩ := hholds.exists_place hk
    exact ⟨l, lock_of_lookup hplace hlock⟩
  · exact lock_of_not_registered (hholds.lookup_eq_none hk)
  · rcases carryOut_cases q earlier with ⟨e, -, -, hsame⟩ | ⟨-, -, hchange⟩
    · rw [hsame]
    · refine hchange.lock_eq hholds hk fun key operation hoperate hsame => ?_
      -- a registered key of the same place is joined with it
      obtain ⟨place, l, hplace, -⟩ := hholds.exists_place hk
      refine hother key operation hoperate ((hfaithful.shares_iff key k).mpr (.inr ⟨place, ?_⟩))
      exact ⟨hsame.trans hplace, hplace⟩
  · have hdone : q.refusal (registered earlier) = none := by
      rw [hoperate]
      simp [Request.refusal, hkey]
    have hchange := change_of_done hdone
    have hsame := ((hfaithful.shares_iff key k).mp hshares).lookup_eq
    rw [hoperate] at hchange ⊢
    exact hchange.lock_operated hsame
  · have hsame := (hfaithful.shares_iff k k').mp hshares
    exact ⟨hsame.find_eq, hsame.lock_eq hholds⟩

/-- An alias of an alias operates the lock that was made for the first key, after a lock of its own
has been refused to the second one. The lock of another key stays open. -/
example :
    let requests : List Request := [.operate "c" (.call (.block (some "x"))),
      .registerAlias "c" "b", .registerLocal "b" "i" 1 {}, .registerAlias "b" "a",
      .registerLocal "d" "i" 1 {}, .registerLocal "a" "i" 2 {}]
    registered requests = ["c", "b", "d", "a"] ∧
      ((after requests).lock "a").toOption.map (·.house.gate.lockData) = some (some "x") ∧
      ((after requests).lock "d").toOption.map (·.house.gate.isBlocked) = some false := by
  decide

end Registry

end Floodgate
