import Floodgate.Proofs.Server.Stream
import Floodgate.Proofs.Server.Welcome
/-!
# Floodgate.Proofs.Server.Sections

**What the tasks of a stream do, said once for each.** A section concerns one stream and leaves all
others alone (`Only`). Of the sections of the handler there are four kinds (`Handles`): it records a
report, it refuses one, it sends the refusal and ends, or it ends because the subscriber has ended
its side. Only the first kind changes what the table knows; forwarders and arrivals never do.

A report is refused for the first of its checks that it fails (`refusal?`). The checks of a first
report are those of a single call, and for later reports there is one more.
-/

namespace Floodgate

namespace StatusRequest

/-- The checks of a report on a stream of a lock key, in order, each with the reason to refuse a
report that fails it. -/
def checks (lockKey : String) : List ((StatusRequest → Bool) × RequestError) :=
  [(fun r => r.lockKey != "", .emptyLockKey),
    (fun r => r.instanceId != "", .emptyInstanceId),
    (fun r => !LockData.contains r.status.lockData LockData.separator, .separatorInLockData),
    (fun r => r.lockKey == lockKey, .lockKeyDiffers)]

/-- Why a report is refused on a stream of a lock key: the first check that it fails. -/
def refusal? (lockKey : String) (r : StatusRequest) : Option RequestError :=
  ((checks lockKey).find? fun check => !check.1 r).map (·.2)

variable {r : StatusRequest} {k : String} {error : RequestError}

theorem refusal?_eq (k : String) (r : StatusRequest) : r.refusal? k =
    match r.validate with
    | .error error => some error
    | .ok () => if r.lockKey = k then none else some .lockKeyDiffers := by
  unfold refusal? checks validate
  by_cases hkey : r.lockKey = ""
  · simp [hkey]
  by_cases hid : r.instanceId = ""
  · simp [hkey, hid]
  by_cases hdata : LockData.contains r.status.lockData LockData.separator = true
  · simp [hkey, hid, hdata]
  by_cases hsame : r.lockKey = k
  · subst hsame
    simp [hkey, hid, hdata]
  · simp [hkey, hid, hdata, hsame]

theorem lockKey_of_accepted (h : r.refusal? k = none) : r.lockKey = k := by
  rw [refusal?_eq] at h
  split at h
  · cases h
  · split at h
    · assumption
    · cases h

/-- On a stream of its own lock key a report is refused for what it would be refused for in a single
call. -/
theorem refusal?_self (r : StatusRequest) : r.refusal? r.lockKey =
    match r.validate with
    | .error error => some error
    | .ok () => none := by
  rw [refusal?_eq]
  simp only [if_true]

end StatusRequest

/-! ### Forwarders -/

theorem Forwarder.entries_step {f f' : Forwarder} {t t' : StatusTable} {hasRoom : Bool}
    {sent : Option Notification} (h : f.step t hasRoom = some (t', f', sent)) :
    t'.entries = t.entries := by
  unfold Forwarder.step at h
  cases hstage : f.stage with
  | reading =>
    simp only [hstage, Option.map_eq_some_iff] at h
    obtain ⟨⟨n, table⟩, hread, heq⟩ := h
    cases heq
    obtain ⟨_, _, -, -, htable⟩ := StatusTable.read_eq_some hread
    rw [htable]
  | sending n =>
    simp only [hstage, Option.ite_none_right_eq_some, Option.some.injEq, Prod.mk.injEq] at h
    rw [h.2.1]
  | parked =>
    simp only [hstage, Option.ite_none_right_eq_some, Option.some.injEq, Prod.mk.injEq] at h
    rw [h.2.1]

/-- A subscription to a lock key that has just been reported makes no entry. -/
theorem StatusTable.entries_subscribe_upsert (t : StatusTable) (r : StatusRequest) :
    ((t.upsert r).subscribe r.lockKey).1.entries = (t.upsert r).entries := by
  have hfound : ((t.upsert r).entryFor? r.lockKey).isSome = true := by
    rw [entryFor?_upsert, entryFor?_withEntry, if_pos rfl]
    rfl
  obtain ⟨e, he⟩ := Option.isSome_iff_exists.mp hfound
  obtain ⟨_, -, -, heq⟩ := (t.upsert r).subscribe_eq r.lockKey
  rw [heq, withEntry, he]

/-- A report is noticed: its entry is another one afterwards. -/
theorem StatusTable.entries_upsert_ne (t : StatusTable) (r : StatusRequest) :
    (t.upsert r).entries ≠ t.entries := by
  intro hsame
  have hfound := t.entryFor?_upsert r r.lockKey
  rw [entryFor?_withEntry, if_pos rfl, Option.map_some] at hfound
  rw [show (t.upsert r).entryFor? r.lockKey = t.entryFor? r.lockKey by
    rw [entryFor?, entryFor?, hsame]] at hfound
  have hkey : ∀ e : TableEntry, t.entryFor? r.lockKey = some e → e.lockKey = r.lockKey :=
    fun e he => Keyed.key_of_find? he
  cases hentry : t.entryFor? r.lockKey with
  | none =>
    rw [hentry] at hfound
    cases hfound
  | some e =>
    rw [hentry, Option.getD_some, reported, if_pos (hkey e hentry)] at hfound
    have hversion : e.version = (e.put r.instanceId r.status).version :=
      congrArg TableEntry.version (Option.some.inj hfound)
    exact Nat.succ_ne_self _ hversion.symm

namespace StatusServer

variable {sv sv' sv'' : StatusServer} {x y : Nat} {t t' : ServerStream}

/-! ### One stream at a time -/

/-- A server after something that concerns the stream `x` and no other. -/
structure Only (x : Nat) (sv sv' : StatusServer) : Prop where
  others : ∀ y, y ≠ x → sv'.stream? y = sv.stream? y
  none : sv.stream? x = none → sv'.stream? x = none
  next : sv'.nextStream = sv.nextStream

theorem Only.of_streams (hstreams : sv'.streams = sv.streams)
    (hnext : sv'.nextStream = sv.nextStream) : Only x sv sv' := by
  have hsame : ∀ y, sv'.stream? y = sv.stream? y := fun y => by rw [stream?, stream?, hstreams]
  exact ⟨fun y _ => hsame y, fun h => (hsame x).trans h, hnext⟩

theorem Only.trans (h : Only x sv sv') (h' : Only x sv' sv'') : Only x sv sv'' :=
  ⟨fun y hy => (h'.others y hy).trans (h.others y hy), fun hx => h'.none (h.none hx),
    h'.next.trans h.next⟩

theorem Only.abortForwarder (sv : StatusServer) (forwarder : Option Forwarder) :
    Only x sv (sv.abortForwarder forwarder) := by
  cases forwarder <;> exact .of_streams rfl rfl

theorem Only.updateStream (sv : StatusServer) (x : Nat) {f : ServerStream → ServerStream}
    (hf : ∀ t, (f t).number = t.number) : Only x sv (sv.updateStream x f) where
  others y hy := by rw [stream?_updateStream hf, if_neg hy]
  none hx := by rw [stream?_updateStream hf, if_pos rfl, hx, Option.map_none]
  next := rfl

/-- A stream that is changed is found as it has been made. -/
theorem stream?_updateStream_self {f : ServerStream → ServerStream} (ht : sv.stream? x = some t)
    (hf : ∀ t, (f t).number = t.number) : (sv.updateStream x f).stream? x = some (f t) := by
  rw [stream?_updateStream hf, if_pos rfl, ht, Option.map_some]

theorem entries_abortForwarder (sv : StatusServer) (forwarder : Option Forwarder) :
    (sv.abortForwarder forwarder).table.entries = sv.table.entries := by
  cases forwarder <;> rfl

/-- Whoever leaves is gone. -/
theorem leave_spec (sv : StatusServer) (x : Nat) : Only x sv (sv.leave x) ∧
    (sv.leave x).stream? x = none ∧ (sv.leave x).table.entries = sv.table.entries := by
  unfold leave
  cases hx : sv.stream? x with
  | none => exact ⟨.of_streams rfl rfl, hx, rfl⟩
  | some t =>
    have hfilter := fun y => Keyed.find?_filter_ne (f := ServerStream.number) (k := x)
      (l := (sv.abortForwarder t.forwarder).streams) y
    have hgone := (hfilter x).trans (if_pos rfl)
    refine ⟨⟨fun y hy => (hfilter y).trans ?_, fun _ => hgone, ?_⟩, hgone,
      entries_abortForwarder sv t.forwarder⟩
    · rw [if_neg hy, streams_abortForwarder, stream?]
    · exact (Only.abortForwarder (x := x) sv t.forwarder).next

/-- The numbers of the streams that have not been opened are free. -/
def Below (sv : StatusServer) : Prop := ∀ y, sv.nextStream ≤ y → sv.stream? y = none

theorem Below.only (h : Below sv) (honly : Only x sv sv') : Below sv' := by
  intro y hy
  have hnone := h y (honly.next ▸ hy)
  by_cases hx : y = x
  · subst hx
    exact honly.none hnone
  · exact (honly.others y hx).trans hnone

theorem Below.stream?_openStream (h : Below sv) (y : Nat) : sv.openStream.1.stream? y =
    if y = sv.nextStream then some ⟨sv.nextStream, [], false, .waiting, none, []⟩
    else sv.stream? y :=
  Keyed.find?_append_single (f := ServerStream.number)
    (y := ⟨sv.nextStream, [], false, .waiting, none, []⟩)
    (Keyed.find?_eq_none_iff.mp (h _ (Nat.le_refl _))) y

theorem Below.openStream (h : Below sv) : Below sv.openStream.1 := by
  intro y hy
  have hlt : sv.nextStream < y := hy
  rw [h.stream?_openStream, if_neg (Nat.ne_of_gt hlt)]
  exact h y (Nat.le_of_lt hlt)

/-! ### The handler -/

/-- What a section of the handler of a stream makes of the stream and of the table. -/
inductive Handles (t : ServerStream) (table : StatusTable) : ServerStream → StatusTable → Prop
  /-- The subscriber has ended its side, and has nothing more to report. -/
  | ends {table' : StatusTable}
      (hhandler : t.handler = .waiting ∨ ∃ k, t.handler = .registered k)
      (hin : t.inbound = []) (hclosed : t.isClosed = true)
      (hentries : table'.entries = table.entries) :
      Handles t table { t with handler := .ended, forwarder := none } table'
  /-- It records a report. -/
  | records {r : StatusRequest} {rest : List StatusRequest} {forwarder : Option Forwarder}
      {table' : StatusTable}
      (hhandler : t.handler = .waiting ∨ t.handler = .registered r.lockKey)
      (hin : t.inbound = r :: rest) (haccepted : r.refusal? r.lockKey = none)
      (hentries : table'.entries = (table.upsert r).entries) :
      Handles t table
        { t with inbound := rest, handler := .registered r.lockKey, forwarder } table'
  /-- It refuses a report. -/
  | refuses {r : StatusRequest} {rest : List StatusRequest} {k : String} {error : RequestError}
      {table' : StatusTable}
      (hhandler : t.handler = .waiting ∧ k = r.lockKey ∨ t.handler = .registered k)
      (hin : t.inbound = r :: rest) (hrefused : r.refusal? k = some error)
      (hentries : table'.entries = table.entries) :
      Handles t table { t with inbound := rest, handler := .refusing error } table'
  /-- It sends the reason and ends. -/
  | sends {error : RequestError} {table' : StatusTable} (hhandler : t.handler = .refusing error)
      (hentries : table'.entries = table.entries) :
      Handles t table
        { t with
          outbound := t.outbound ++ [.refusal error]
          handler := .ended
          forwarder := none } table'

/-- What ends a handler ends it on its stream. -/
theorem endHandler_spec (ht : sv.stream? x = some t) (hnumber : t'.number = x) :
    Only x sv (sv.endHandler t') ∧
    (sv.endHandler t').stream? x = some { t with handler := .ended, forwarder := none } ∧
    (sv.endHandler t').table.entries = sv.table.entries := by
  subst hnumber
  refine ⟨(Only.abortForwarder sv t'.forwarder).trans (.updateStream _ _ fun _ => rfl), ?_,
    entries_abortForwarder sv t'.forwarder⟩
  have hfound : (sv.abortForwarder t'.forwarder).stream? t'.number = some t := by
    rw [stream?, streams_abortForwarder]
    exact ht
  exact stream?_updateStream_self hfound fun _ => rfl

/-- A report is taken off a stream and refused. -/
theorem refuse_taken (sv : StatusServer) (t : ServerStream) (rest : List StatusRequest)
    (error : RequestError) :
    (sv.updateStream t.number fun u => { u with inbound := rest }).refuse t error =
      sv.updateStream t.number fun u => { u with inbound := rest, handler := .refusing error } :=
  updateStream_updateStream (f := fun u : ServerStream => { u with inbound := rest })
    (fun _ => rfl) (fun u => { u with handler := .refusing error }) sv t.number

/-- One section of the handler. -/
theorem handle_cases (ht : sv.stream? x = some t) (hhandle : sv.handle t = some sv') :
    Only x sv sv' ∧ ∃ t', sv'.stream? x = some t' ∧ Handles t sv.table t' sv'.table := by
  obtain rfl := number_of_stream? ht
  have hupdate : ∀ (table : StatusTable) (f : ServerStream → ServerStream),
      (∀ u, (f u).number = u.number) →
      Only t.number sv ({ sv with table }.updateStream t.number f) ∧
        ({ sv with table }.updateStream t.number f).stream? t.number = some (f t) := by
    intro table f hf
    have hsame : Only t.number sv { sv with table } := .of_streams rfl rfl
    exact ⟨hsame.trans (.updateStream _ _ hf), stream?_updateStream_self ht hf⟩
  unfold handle at hhandle
  cases hhandler : t.handler with
  | ended =>
    simp only [hhandler] at hhandle
    cases hhandle
  | refusing error =>
    simp only [hhandler, Option.ite_none_right_eq_some, Option.some.injEq] at hhandle
    obtain ⟨-, rfl⟩ := hhandle
    obtain ⟨honly, hfound⟩ := hupdate sv.table
      (fun u => { u with outbound := u.outbound ++ [.refusal error] }) fun _ => rfl
    obtain ⟨honly', hfound', hentries⟩ := endHandler_spec hfound (rfl : t.number = t.number)
    exact ⟨honly.trans honly', _, hfound', .sends hhandler hentries⟩
  | waiting =>
    cases hin : t.inbound with
    | nil =>
      simp only [hhandler, hin, Option.ite_none_right_eq_some, Option.some.injEq] at hhandle
      obtain ⟨hclosed, rfl⟩ := hhandle
      obtain ⟨honly, hfound, hentries⟩ := endHandler_spec ht rfl
      exact ⟨honly, _, hfound, .ends (.inl hhandler) hin hclosed hentries⟩
    | cons r rest =>
      simp only [hhandler, hin, Option.some.injEq, register] at hhandle
      have hrefusal := r.refusal?_self
      split at hhandle
      · next error hvalidate =>
        rw [hvalidate] at hrefusal
        rw [refuse_taken] at hhandle
        subst hhandle
        obtain ⟨honly, hfound⟩ := hupdate sv.table
          (fun u => { u with inbound := rest, handler := .refusing error }) fun _ => rfl
        exact ⟨honly, _, hfound, .refuses (.inl ⟨hhandler, rfl⟩) hin hrefusal rfl⟩
      · next hvalidate =>
        rw [hvalidate] at hrefusal
        have htwice := updateStream_updateStream
          (f := fun u : ServerStream => { u with inbound := rest }) (fun _ => rfl)
          (fun u => { u with
            handler := .registered r.lockKey
            forwarder := some ⟨((sv.table.upsert r).subscribe r.lockKey).2, .reading⟩ })
          { sv with table := ((sv.table.upsert r).subscribe r.lockKey).1 } t.number
        obtain rfl := htwice.symm.trans hhandle
        obtain ⟨honly, hfound⟩ := hupdate ((sv.table.upsert r).subscribe r.lockKey).1
          (fun u => { u with
            inbound := rest
            handler := .registered r.lockKey
            forwarder := some ⟨((sv.table.upsert r).subscribe r.lockKey).2, .reading⟩ })
          fun _ => rfl
        exact ⟨honly, _, hfound,
          .records (.inl hhandler) hin hrefusal (sv.table.entries_subscribe_upsert r)⟩
  | registered k =>
    cases hin : t.inbound with
    | nil =>
      simp only [hhandler, hin, Option.ite_none_right_eq_some, Option.some.injEq] at hhandle
      obtain ⟨hclosed, rfl⟩ := hhandle
      obtain ⟨honly, hfound, hentries⟩ := endHandler_spec ht rfl
      exact ⟨honly, _, hfound, .ends (.inr ⟨k, hhandler⟩) hin hclosed hentries⟩
    | cons r rest =>
      simp only [hhandler, hin, Option.some.injEq, record] at hhandle
      have hrefusal := r.refusal?_eq k
      have hrefuses : ∀ error, r.refusal? k = some error →
          (sv.updateStream t.number fun u => { u with inbound := rest }).refuse t error = sv' →
          Only t.number sv sv' ∧
            ∃ t', sv'.stream? t.number = some t' ∧ Handles t sv.table t' sv'.table := by
        intro error hrefused heq
        rw [refuse_taken] at heq
        subst heq
        obtain ⟨honly, hfound⟩ := hupdate sv.table
          (fun u => { u with inbound := rest, handler := .refusing error }) fun _ => rfl
        exact ⟨honly, _, hfound, .refuses (.inr hhandler) hin hrefused rfl⟩
      split at hhandle
      · next error hvalidate =>
        rw [hvalidate] at hrefusal
        exact hrefuses error hrefusal hhandle
      · next hvalidate =>
        rw [hvalidate] at hrefusal
        split at hhandle
        · next hkey =>
          subst hkey
          simp only [if_true] at hrefusal
          subst hhandle
          obtain ⟨honly, hfound⟩ := hupdate (sv.table.upsert r)
            (fun u => { u with inbound := rest }) fun _ => rfl
          have hrecords : Handles t sv.table { t with
              inbound := rest, handler := .registered r.lockKey, forwarder := t.forwarder }
              (sv.table.upsert r) := .records (.inr hhandler) hin hrefusal rfl
          rw [← hhandler] at hrecords
          exact ⟨honly, _, hfound, hrecords⟩
        · next hkey =>
          simp only [hkey, if_false] at hrefusal
          exact hrefuses _ hrefusal hhandle

/-- A handler that cannot go on has ended, or it has nothing to do, or there is no room. -/
theorem handle_eq_none (h : sv.handle t = none) : t.handler = .ended ∨
    (∃ error, t.handler = .refusing error ∧ t.hasRoom = false) ∨
    ((t.handler = .waiting ∨ ∃ k, t.handler = .registered k) ∧ t.inbound = [] ∧
      t.isClosed = false) := by
  unfold handle at h
  cases hhandler : t.handler with
  | ended => exact .inl rfl
  | refusing error =>
    simp only [hhandler] at h
    exact .inr (.inl ⟨error, rfl, by simpa using h⟩)
  | waiting =>
    refine .inr (.inr ⟨.inl rfl, ?_⟩)
    cases hin : t.inbound with
    | nil => exact ⟨rfl, by simpa [hhandler, hin] using h⟩
    | cons r rest => simp [hhandler, hin] at h
  | registered k =>
    refine .inr (.inr ⟨.inr ⟨k, rfl⟩, ?_⟩)
    cases hin : t.inbound with
    | nil => exact ⟨rfl, by simpa [hhandler, hin] using h⟩
    | cons r rest => simp [hhandler, hin] at h

/-! ### The forwarder and the subscriber -/

/-- One section of the forwarder. -/
theorem forward_cases (ht : sv.stream? x = some t) (hforward : sv.forward t = some sv') :
    Only x sv sv' ∧ sv'.table.entries = sv.table.entries ∧ t.forwarder.isSome = true ∧
    ∃ (f : Forwarder) (sent : Option Notification), sv'.stream? x = some { t with
      forwarder := some f, outbound := t.outbound ++ (sent.map Outbound.snapshot).toList } := by
  obtain rfl := number_of_stream? ht
  simp only [forward, Option.bind_eq_bind, Option.bind_eq_some_iff, pure,
    Option.some.injEq] at hforward
  obtain ⟨f, hf, ⟨table, f', sent⟩, hstep, rfl⟩ := hforward
  have hsame : Only t.number sv { sv with table } := .of_streams rfl rfl
  refine ⟨hsame.trans (.updateStream _ _ fun _ => rfl), Forwarder.entries_step hstep, hf ▸ rfl,
    f', sent, ?_⟩
  have hfound : ({ sv with table } : StatusServer).stream? t.number = some t := ht
  exact stream?_updateStream_self hfound fun _ => rfl

/-- What arrives at a subscriber. -/
inductive Arrives (t : ServerStream) : Option ServerStream → Arrival → Prop
  | snapshot {n : Notification} {rest : List Outbound} (hout : t.outbound = .snapshot n :: rest) :
      Arrives t (some { t with outbound := rest }) (.snapshot n)
  | refused {error : RequestError} {rest : List Outbound}
      (hout : t.outbound = .refusal error :: rest) : Arrives t none (.refused error)
  | ended (hout : t.outbound = []) (hhandler : t.handler = .ended) : Arrives t none .ended

theorem arrive_cases {arrival : Arrival} (ht : sv.stream? x = some t)
    (harrive : sv.arrive t = some (sv', arrival)) :
    Only x sv sv' ∧ sv'.table.entries = sv.table.entries ∧
      Arrives t (sv'.stream? x) arrival := by
  obtain rfl := number_of_stream? ht
  obtain ⟨honly, hgone, hentries⟩ := sv.leave_spec t.number
  unfold arrive at harrive
  split at harrive
  · next n rest hout =>
    cases harrive
    refine ⟨.updateStream _ _ fun _ => rfl, rfl, ?_⟩
    have hfound := stream?_updateStream_self (f := fun u => { u with outbound := rest }) ht
      fun _ => rfl
    exact hfound ▸ .snapshot hout
  · next error rest hout =>
    cases harrive
    exact ⟨honly, hentries, hgone ▸ .refused hout⟩
  · next hout =>
    simp only [Option.ite_none_right_eq_some, Option.some.injEq, Prod.mk.injEq] at harrive
    obtain ⟨hended, rfl, rfl⟩ := harrive
    exact ⟨honly, hentries, hgone ▸ .ended hout hended⟩

/-- A subscriber at whom nothing arrives has received everything, and its stream goes on. -/
theorem arrive_eq_none (h : sv.arrive t = none) : t.outbound = [] ∧ t.handler ≠ .ended := by
  unfold arrive at h
  split at h
  · cases h
  · cases h
  · next hout => exact ⟨hout, by simpa using h⟩

theorem Only.prune {now : Int} (h : sv.pruneIfDue now = some sv') : Only x sv sv' := by
  unfold pruneIfDue at h
  split at h
  · split at h
    · split at h <;> cases h <;> exact .of_streams rfl rfl
    · cases h
  · cases h

end StatusServer

end Floodgate
