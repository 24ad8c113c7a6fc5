import Floodgate.Proofs.Server.Sections
/-!
# Floodgate.Proofs.Server.Prefix

**A stream applies the reports up to the first bad one.** One stream of a server is watched from
outside (`WatchedStream`): which reports arrive on it, what its subscriber receives, and what the
table was before and after each section that its tasks carry out. Whatever else goes on at the
server is left open: other streams, single calls, pruning. The subscriber does not leave; it may end
its own side.

The reports that are applied are the longest prefix in which every report passes all checks for the
lock key of the first one (`validPrefix`). The report after that is refused, for the first check
that it fails (`refusalOf?`), and nothing that follows is read.

Main statement: `valid_prefix_applied`.
-/

namespace Floodgate

open StatusRequest (refusal?)

variable {k : String} {r : StatusRequest} {rs rest applied arrived : List StatusRequest}
  {error : RequestError}

/-! ### The reports that are applied -/

/-- The lock key that a stream is for, which its first report names. -/
def lockKeyOf (rs : List StatusRequest) : String := (rs.head?.map (·.lockKey)).getD ""

/-- The longest prefix of the reports of a stream in which all pass their checks. -/
def validPrefix (rs : List StatusRequest) : List StatusRequest :=
  rs.takeWhile fun r => (r.refusal? (lockKeyOf rs)).isNone

/-- Why the report after the valid prefix is refused, if there is one. -/
def refusalOf? (rs : List StatusRequest) : Option RequestError :=
  (rs.drop (validPrefix rs).length).head?.bind (·.refusal? (lockKeyOf rs))

/-- Reports that pass the checks for a lock key. -/
def Accepted (k : String) (rs : List StatusRequest) : Prop := ∀ r ∈ rs, r.refusal? k = none

/-- A report that is refused after some others have been accepted. -/
structure Refused (applied : List StatusRequest) (r : StatusRequest) (error : RequestError) :
    Prop where
  accepted : Accepted (lockKeyOf (applied ++ [r])) applied
  refusal : r.refusal? (lockKeyOf (applied ++ [r])) = some error

theorem lockKeyOf_append (hne : rs ≠ []) (rest : List StatusRequest) :
    lockKeyOf (rs ++ rest) = lockKeyOf rs := by
  obtain ⟨r, rs, rfl⟩ := List.exists_cons_of_ne_nil hne
  rfl

theorem Accepted.nil (k : String) : Accepted k [] := fun _ hr => absurd hr List.not_mem_nil

/-- Reports that pass the checks for a lock key are for that one. -/
theorem Accepted.lockKeyOf_eq (h : Accepted k rs) (hne : rs ≠ []) : lockKeyOf rs = k := by
  obtain ⟨r, rs, rfl⟩ := List.exists_cons_of_ne_nil hne
  exact StatusRequest.lockKey_of_accepted (h r List.mem_cons_self)

theorem Accepted.append (h : Accepted k rs) (hr : r.refusal? k = none) :
    Accepted k (rs ++ [r]) := by
  intro r' hr'
  rcases List.mem_append.mp hr' with hr' | hr'
  · exact h r' hr'
  · exact List.mem_singleton.mp hr' ▸ hr

theorem Accepted.takeWhile (h : Accepted k rs) (rest : List StatusRequest) :
    (rs ++ rest).takeWhile (fun r => (r.refusal? k).isNone) =
      rs ++ rest.takeWhile fun r => (r.refusal? k).isNone :=
  List.takeWhile_append_of_pos fun r hr => by rw [h r hr]; rfl

theorem validPrefix_of_accepted (h : Accepted k rs) : validPrefix rs = rs := by
  cases rs with
  | nil => rfl
  | cons r rest =>
    have hkey := h.lockKeyOf_eq (List.cons_ne_nil r rest)
    have hall := h.takeWhile []
    rw [List.append_nil] at hall
    rw [validPrefix, hkey, hall]
    exact List.append_nil _

theorem refusalOf?_of_accepted (h : Accepted k rs) : refusalOf? rs = none := by
  rw [refusalOf?, validPrefix_of_accepted h, List.drop_length]
  rfl

/-- What has been accepted is part of the valid prefix, whatever follows. -/
theorem Accepted.prefix (h : Accepted k rs) (rest : List StatusRequest) :
    rs <+: validPrefix (rs ++ rest) := by
  cases rs with
  | nil => exact List.nil_prefix
  | cons r rs =>
    have hne := List.cons_ne_nil r rs
    rw [validPrefix, lockKeyOf_append hne, h.lockKeyOf_eq hne, h.takeWhile]
    exact List.prefix_append _ _

/-- A report that is refused ends the valid prefix. -/
theorem Refused.validPrefix_eq (h : Refused applied r error) (rest : List StatusRequest) :
    validPrefix (applied ++ r :: rest) = applied ∧
      refusalOf? (applied ++ r :: rest) = some error := by
  have hkey : lockKeyOf (applied ++ r :: rest) = lockKeyOf (applied ++ [r]) := by
    cases applied <;> rfl
  have hvalid : validPrefix (applied ++ r :: rest) = applied := by
    rw [validPrefix, hkey, h.accepted.takeWhile, List.takeWhile_cons, h.refusal]
    exact List.append_nil _
  refine ⟨hvalid, ?_⟩
  rw [refusalOf?, hvalid, List.drop_left, hkey]
  exact h.refusal

/-! ### What sections do to a table -/

/-- Sections, by the table before and the table after each of them, that record reports in order and
otherwise change nothing that the table knows. -/
inductive Applies : List (StatusTable × StatusTable) → List StatusRequest → Prop
  | nil : Applies [] []
  | quiet {sections : List (StatusTable × StatusTable)} {rs : List StatusRequest}
      {t t' : StatusTable} (h : Applies sections rs) (hentries : t'.entries = t.entries) :
      Applies (sections ++ [(t, t')]) rs
  | upsert {sections : List (StatusTable × StatusTable)} {rs : List StatusRequest}
      {t t' : StatusTable} {r : StatusRequest} (h : Applies sections rs)
      (hentries : t'.entries = (t.upsert r).entries) :
      Applies (sections ++ [(t, t')]) (rs ++ [r])

/-! ### A stream from outside -/

/-- What can be seen of one stream of a server. -/
structure WatchedStream where
  /-- The number of the stream, which may not have been opened yet. -/
  number : Nat
  server : StatusServer
  /-- The reports that have arrived on the stream, oldest first. -/
  arrived : List StatusRequest
  /-- The table before and after each section of the tasks of the stream. -/
  sections : List (StatusTable × StatusTable)
  /-- What the subscriber has received. -/
  received : List Arrival

/-- What the subscriber is to receive. -/
def Outbound.arrival : Outbound → Arrival
  | .snapshot n => .snapshot n
  | .refusal error => .refused error

namespace WatchedStream

open StatusServer

/-- What happens next at the server. -/
inductive Turn where
  | setStatus (r : StatusRequest)
  | openStream
  /-- A report arrives on some stream. -/
  | receive (stream : Nat) (r : StatusRequest)
  | close (stream : Nat)
  | leave (stream : Nat)
  | step (now : Int) (event : StatusServer.Event)
  /-- Something arrives at a subscriber. -/
  | arrive (stream : Nat)
  | stopPruning

/-- The stream that a section is carried out for. -/
def streamOf? : StatusServer.Event → Option Nat
  | .handle stream | .forward stream => some stream
  | .prune => none

/-- A server that starts. -/
def start (plan : PrunePlan) (now : Int) (number : Nat) : WatchedStream :=
  ⟨number, .start plan now, [], [], []⟩

/-- Something happens at the server that is no work on the stream. -/
def aside (s : WatchedStream) (server : StatusServer) : WatchedStream := { s with server }

/-- The server works on the stream. -/
def worked (s : WatchedStream) (server : StatusServer) : WatchedStream :=
  { s with server, sections := s.sections ++ [(s.server.table, server.table)] }

/-- A report arrives on the stream, unless the subscriber has ended its side. -/
def hear (s : WatchedStream) (r : StatusRequest) : Option WatchedStream :=
  (s.server.stream? s.number).bind fun t =>
    if t.isClosed then none
    else some { s with server := s.server.receive s.number r, arrived := s.arrived ++ [r] }

/-- The subscriber receives what has been sent. -/
def receive (s : WatchedStream) : Option WatchedStream :=
  (s.server.stream? s.number).bind fun t => (s.server.arrive t).map fun (server, arrival) =>
    { s.worked server with received := s.received ++ [arrival] }

/-- What follows a turn, if the turn is possible. The subscriber does not leave. -/
def next (s : WatchedStream) : Turn → Option WatchedStream
  | .setStatus r => some (s.aside (s.server.setStatus r).2)
  | .openStream => some (s.aside s.server.openStream.1)
  | .receive stream r =>
    if stream = s.number then s.hear r else some (s.aside (s.server.receive stream r))
  | .close stream => some (s.aside (s.server.close stream))
  | .leave stream => if stream = s.number then none else some (s.aside (s.server.leave stream))
  | .step now event => (s.server.step now event).map fun server =>
    if streamOf? event = some s.number then s.worked server else s.aside server
  | .arrive stream =>
    if stream = s.number then s.receive
    else (s.server.stream? stream).bind fun t =>
      (s.server.arrive t).map fun (server, _) => s.aside server
  | .stopPruning => some (s.aside s.server.stopPruning)

/-- Takes turns, as long as they are possible. -/
def run (s : WatchedStream) : List Turn → Option WatchedStream
  | [] => some s
  | turn :: rest => (s.next turn).bind (·.run rest)

/-- What has been sent on the stream: what has been received, and what is on its way. -/
def sent (s : WatchedStream) : List Arrival :=
  s.received ++ ((s.server.stream? s.number).elim [] fun t => t.outbound.map (·.arrival))

/-- Nothing is left to do for the reports of the stream, nor is anything on its way to the
subscriber. -/
def AtRest (s : WatchedStream) : Prop :=
  ∀ t, s.server.stream? s.number = some t → s.server.handle t = none ∧ s.server.arrive t = none

variable {s s' : WatchedStream} {t t' : ServerStream} {got pending : List Notification}
  {server : StatusServer}

/-! ### Where a stream stands -/

/-- Where a stream stands of which some reports have been applied, and whether a refusal is on its
way to the subscriber. -/
inductive Position (arrived applied : List StatusRequest) (refusal : Option RequestError)
    (t : ServerStream) : Prop
  | waiting (hhandler : t.handler = .waiting) (harrived : arrived = t.inbound)
      (happlied : applied = []) (hrefusal : refusal = none)
  | registered {k : String} (hhandler : t.handler = .registered k)
      (harrived : arrived = applied ++ t.inbound) (hne : applied ≠ [])
      (haccepted : Accepted k applied) (hrefusal : refusal = none)
  | refusing {r : StatusRequest} {error : RequestError} (hhandler : t.handler = .refusing error)
      (harrived : arrived = applied ++ r :: t.inbound) (hrefused : Refused applied r error)
      (hrefusal : refusal = none)
  | refused {r : StatusRequest} {error : RequestError} (hhandler : t.handler = .ended)
      (hforwarder : t.forwarder = none) (harrived : arrived = applied ++ r :: t.inbound)
      (hrefused : Refused applied r error) (hrefusal : refusal = some error)
  /-- The subscriber has ended its side, and has been heard to the end. -/
  | heard {k : String} (hhandler : t.handler = .ended) (hforwarder : t.forwarder = none)
      (hclosed : t.isClosed = true) (harrived : arrived = applied) (hin : t.inbound = [])
      (haccepted : Accepted k applied) (hrefusal : refusal = none)

/-- What holds while the stream is there. -/
structure Serves (s : WatchedStream) (t : ServerStream) (applied : List StatusRequest)
    (got pending : List Notification) (refusal : Option RequestError) : Prop where
  applies : Applies s.sections applied
  position : Position s.arrived applied refusal t
  received : s.received = got.map .snapshot
  outbound : t.outbound = pending.map .snapshot ++ (refusal.map .refusal).toList
  /-- No snapshots flow before a report has been applied. -/
  silent : applied = [] → t.forwarder = none ∧ got = [] ∧ pending = []

/-- What holds once the stream has ended. -/
structure Finished (s : WatchedStream) (applied : List StatusRequest) (got : List Notification) :
    Prop where
  applies : Applies s.sections applied
  silent : applied = [] → got = []
  ending : (∃ r rest error, s.arrived = applied ++ r :: rest ∧ Refused applied r error ∧
      s.received = got.map .snapshot ++ [.refused error]) ∨
    ∃ k, Accepted k applied ∧ s.arrived = applied ∧ s.received = got.map .snapshot ++ [.ended]

/-- What holds of a stream at any time. -/
inductive Stands (s : WatchedStream) : Prop
  | unopened (hnext : s.server.nextStream ≤ s.number) (hnone : s.server.stream? s.number = none)
      (harrived : s.arrived = []) (hsections : s.sections = []) (hreceived : s.received = [])
  | served {t : ServerStream} {applied : List StatusRequest} {got pending : List Notification}
      {refusal : Option RequestError} (ht : s.server.stream? s.number = some t)
      (hserves : Serves s t applied got pending refusal)
  | gone {applied : List StatusRequest} {got : List Notification}
      (hnext : s.number < s.server.nextStream) (hnone : s.server.stream? s.number = none)
      (hfinished : Finished s applied got)

/-- Whoever finds the stream finds it served. -/
theorem Stands.serves (h : Stands s) (ht : s.server.stream? s.number = some t) :
    ∃ applied got pending refusal, Serves s t applied got pending refusal := by
  cases h with
  | unopened _ hnone => rw [hnone] at ht; cases ht
  | gone _ hnone => rw [hnone] at ht; cases ht
  | served ht' hserves =>
    obtain rfl := Option.some.inj (ht'.symm.trans ht)
    exact ⟨_, _, _, _, hserves⟩

/-- What happens at the other streams does not matter. -/
theorem Stands.aside (h : Stands s) (hstream : server.stream? s.number = s.server.stream? s.number)
    (hnext : server.nextStream = s.server.nextStream) : Stands (s.aside server) := by
  cases h with
  | unopened hle hnone harrived hsections hreceived =>
    exact .unopened (hnext ▸ hle) (hstream.trans hnone) harrived hsections hreceived
  | served ht hserves => exact .served (hstream.trans ht) { hserves with }
  | gone hlt hnone hfinished => exact .gone (hnext ▸ hlt) (hstream.trans hnone) { hfinished with }

theorem Stands.openStream (h : Stands s) (hbelow : Below s.server) :
    Stands (s.aside s.server.openStream.1) := by
  have hstream := hbelow.stream?_openStream s.number
  cases h with
  | unopened hle hnone harrived hsections hreceived =>
    by_cases hnew : s.number = s.server.nextStream
    · rw [if_pos hnew] at hstream
      exact .served hstream (show Serves _ _ [] [] [] none from
        ⟨hsections ▸ .nil, .waiting rfl harrived rfl rfl, hreceived, rfl, fun _ => ⟨rfl, rfl, rfl⟩⟩)
    · rw [if_neg hnew] at hstream
      exact .unopened (Nat.lt_of_le_of_ne hle (Ne.symm hnew)) (hstream.trans hnone) harrived
        hsections hreceived
  | served ht hserves =>
    have hold : s.number ≠ s.server.nextStream := fun heq => by
      rw [hbelow s.number (Nat.le_of_eq heq.symm)] at ht
      cases ht
    rw [if_neg hold] at hstream
    exact .served (hstream.trans ht) { hserves with }
  | gone hlt hnone hfinished =>
    rw [if_neg (Nat.ne_of_lt hlt)] at hstream
    exact .gone (Nat.lt_succ_of_lt hlt) (hstream.trans hnone) { hfinished with }

/-! ### The turns of the stream -/

variable {refusal : Option RequestError}

/-- A report that arrives is the last one to be handled. -/
theorem Position.hear (h : Position arrived applied refusal t) (hopen : t.isClosed = false)
    (r : StatusRequest) :
    Position (arrived ++ [r]) applied refusal { t with inbound := t.inbound ++ [r] } := by
  cases h with
  | waiting hhandler harrived happlied hrefusal =>
    exact .waiting hhandler (congrArg (· ++ [r]) harrived) happlied hrefusal
  | registered hhandler harrived hne haccepted hrefusal =>
    exact .registered hhandler (by rw [harrived, List.append_assoc]) hne haccepted hrefusal
  | refusing hhandler harrived hrefused hrefusal =>
    exact .refusing hhandler (by rw [harrived, List.append_assoc]; rfl) hrefused hrefusal
  | refused hhandler hforwarder harrived hrefused hrefusal =>
    exact .refused hhandler hforwarder (by rw [harrived, List.append_assoc]; rfl) hrefused hrefusal
  | heard _ _ hclosed =>
    rw [hopen] at hclosed
    cases hclosed

/-- What is on its way to the subscriber does not matter, nor does it that nothing more can arrive
from there. -/
theorem Position.of_eq (h : Position arrived applied refusal t) (hhandler : t'.handler = t.handler)
    (hforwarder : t'.forwarder = t.forwarder) (hin : t'.inbound = t.inbound)
    (hclosed : t.isClosed = true → t'.isClosed = true) : Position arrived applied refusal t' := by
  cases h with
  | waiting hwaiting harrived happlied hrefusal =>
    exact .waiting (hhandler.trans hwaiting) (harrived.trans hin.symm) happlied hrefusal
  | registered hregistered harrived hne haccepted hrefusal =>
    exact .registered (hhandler.trans hregistered) (hin ▸ harrived) hne haccepted hrefusal
  | refusing hrefusing harrived hrefused hrefusal =>
    exact .refusing (hhandler.trans hrefusing) (hin ▸ harrived) hrefused hrefusal
  | refused hended hnone harrived hrefused hrefusal =>
    exact .refused (hhandler.trans hended) (hforwarder.trans hnone) (hin ▸ harrived) hrefused
      hrefusal
  | heard hended hnone hclosed' harrived hnil haccepted hrefusal =>
    exact .heard (hhandler.trans hended) (hforwarder.trans hnone) (hclosed hclosed') harrived
      (hin.trans hnil) haccepted hrefusal

theorem Stands.hear (h : Stands s) (hhear : s.hear r = some s') : Stands s' := by
  obtain ⟨t, ht, heq⟩ := Option.bind_eq_some_iff.mp hhear
  rw [Option.ite_none_left_eq_some, Option.some.injEq] at heq
  obtain ⟨hopen, rfl⟩ := heq
  obtain ⟨applied, got, pending, refusal, hserves⟩ := h.serves ht
  exact .served (stream?_updateStream_self ht fun _ => rfl)
    { hserves with position := hserves.position.hear (Bool.eq_false_iff.mpr hopen) r }

theorem Stands.close (h : Stands s) (stream : Nat) :
    Stands (s.aside (s.server.close stream)) := by
  have honly : Only stream s.server (s.server.close stream) := .updateStream _ _ fun _ => rfl
  by_cases hstream : stream = s.number
  · subst hstream
    cases h with
    | unopened hle hnone harrived hsections hreceived =>
      exact .unopened hle (honly.none hnone) harrived hsections hreceived
    | gone hlt hnone hfinished => exact .gone hlt (honly.none hnone) { hfinished with }
    | served ht hserves =>
      exact .served (stream?_updateStream_self ht fun _ => rfl)
        { hserves with position := hserves.position.of_eq rfl rfl rfl fun _ => rfl }
  · exact h.aside (honly.others _ (Ne.symm hstream)) honly.next

/-- A stream whose handler waits for a report. -/
theorem Position.idle (h : Position arrived applied refusal t)
    (hhandler : t.handler = .waiting ∨ ∃ k, t.handler = .registered k) :
    arrived = applied ++ t.inbound ∧ refusal = none ∧
      (t.handler = .waiting ∧ applied = [] ∨
        ∃ k, t.handler = .registered k ∧ applied ≠ [] ∧ Accepted k applied) := by
  cases h with
  | waiting hwaiting harrived happlied hrefusal =>
    subst happlied
    exact ⟨harrived, hrefusal, .inl ⟨hwaiting, rfl⟩⟩
  | registered hregistered harrived hne haccepted hrefusal =>
    exact ⟨harrived, hrefusal, .inr ⟨_, hregistered, hne, haccepted⟩⟩
  | refusing hrefusing => simp [hrefusing] at hhandler
  | refused hended => simp [hended] at hhandler
  | heard hended => simp [hended] at hhandler

/-- A refusal on its way is the one for the report that follows those that have been applied. -/
theorem Position.of_refusal (h : Position arrived applied (some error) t) :
    ∃ r, arrived = applied ++ r :: t.inbound ∧ Refused applied r error := by
  cases h with
  | @refused r _ _ _ harrived hrefused hrefusal =>
    cases hrefusal
    exact ⟨r, harrived, hrefused⟩
  | waiting _ _ _ hrefusal => cases hrefusal
  | registered _ _ _ _ hrefusal => cases hrefusal
  | refusing _ _ _ hrefusal => cases hrefusal
  | heard _ _ _ _ _ _ hrefusal => cases hrefusal

/-- What a section of the handler does to the position of the stream. -/
theorem Position.handle {table table' : StatusTable} (h : Position arrived applied refusal t)
    (hhandles : Handles t table t' table') :
    (∃ r, table'.entries = (table.upsert r).entries ∧
      Position arrived (applied ++ [r]) refusal t' ∧ t'.outbound = t.outbound) ∨
    table'.entries = table.entries ∧ (t.forwarder = none → t'.forwarder = none) ∧
      ∃ refusal', Position arrived applied refusal' t' ∧
        (refusal' = refusal ∧ t'.outbound = t.outbound ∨
          ∃ error, refusal = none ∧ refusal' = some error ∧
            t'.outbound = t.outbound ++ [.refusal error]) := by
  cases hhandles with
  | ends hhandler hin hclosed hentries =>
    obtain ⟨harrived, hrefusal, hor⟩ := h.idle hhandler
    rw [hin, List.append_nil] at harrived
    obtain ⟨k, haccepted⟩ : ∃ k, Accepted k applied := by
      rcases hor with ⟨-, rfl⟩ | ⟨k, -, -, haccepted⟩
      · exact ⟨"", .nil _⟩
      · exact ⟨k, haccepted⟩
    exact .inr ⟨hentries, fun _ => rfl, refusal,
      .heard rfl rfl hclosed harrived hin haccepted hrefusal, .inl ⟨rfl, rfl⟩⟩
  | @records r rest forwarder _ hhandler hin haccepted hentries =>
    obtain ⟨harrived, hrefusal, hor⟩ := h.idle (hhandler.imp_right fun heq => ⟨_, heq⟩)
    have hall : Accepted r.lockKey applied := by
      rcases hor with ⟨-, rfl⟩ | ⟨k, hk, -, hall⟩
      · exact .nil _
      · obtain rfl : k = r.lockKey := by simpa [hk] using hhandler
        exact hall
    refine .inl ⟨r, hentries, .registered rfl ?_ (by simp) (hall.append haccepted) hrefusal, rfl⟩
    rw [harrived, hin, List.append_assoc]
    rfl
  | @refuses r rest k error _ hhandler hin hrefused hentries =>
    obtain ⟨harrived, hrefusal, hor⟩ :=
      h.idle (hhandler.imp (fun heq => heq.1) fun heq => ⟨_, heq⟩)
    rw [hin] at harrived
    refine .inr ⟨hentries, id, refusal, .refusing (r := r) rfl harrived ?_ hrefusal,
      .inl ⟨rfl, rfl⟩⟩
    rcases hor with ⟨hwaiting, rfl⟩ | ⟨k', hk', hne, haccepted⟩
    · obtain rfl : k = r.lockKey := by simpa [hwaiting] using hhandler
      exact ⟨.nil _, hrefused⟩
    · obtain rfl : k' = k := by simpa [hk'] using hhandler
      have hkey : lockKeyOf (applied ++ [r]) = k' :=
        (lockKeyOf_append hne [r]).trans (haccepted.lockKeyOf_eq hne)
      exact ⟨hkey.symm ▸ haccepted, hkey.symm ▸ hrefused⟩
  | @sends error _ hhandler hentries =>
    cases h with
    | @refusing r error' hrefusing harrived hrefused hrefusal =>
      obtain rfl : error' = error := by simpa [hrefusing] using hhandler
      exact .inr ⟨hentries, fun _ => rfl, some error', .refused rfl rfl harrived hrefused rfl,
        .inr ⟨error', hrefusal, rfl, rfl⟩⟩
    | waiting hwaiting => simp [hwaiting] at hhandler
    | registered hregistered => simp [hregistered] at hhandler
    | refused hended => simp [hended] at hhandler
    | heard hended => simp [hended] at hhandler

theorem Serves.handle (h : Serves s t applied got pending refusal)
    (hhandles : Handles t s.server.table t' server.table) :
    ∃ applied' refusal', Serves (s.worked server) t' applied' got pending refusal' := by
  rcases h.position.handle hhandles with ⟨r, hentries, hposition, hout⟩ |
    ⟨hentries, hforwarder, refusal', hposition, hout⟩
  · exact ⟨_, refusal, h.applies.upsert hentries, hposition, h.received, hout.trans h.outbound,
      fun hnil => by simp at hnil⟩
  · refine ⟨applied, refusal', h.applies.quiet hentries, hposition, h.received, ?_,
      fun hnil => ⟨hforwarder (h.silent hnil).1, (h.silent hnil).2⟩⟩
    rcases hout with ⟨rfl, hout⟩ | ⟨error, rfl, rfl, hout⟩
    · exact hout.trans h.outbound
    · rw [hout, h.outbound, Option.map_none, Option.toList_none, List.append_nil]
      rfl

/-- A section of the forwarder sends snapshots, if anything. -/
theorem Serves.forward (h : Serves s t applied got pending refusal)
    (hentries : server.table.entries = s.server.table.entries)
    (hforwarder : t.forwarder.isSome = true) (f : Forwarder) (sent : Option Notification) :
    Serves (s.worked server) { t with
      forwarder := some f, outbound := t.outbound ++ (sent.map Outbound.snapshot).toList }
      applied got (pending ++ sent.toList) refusal := by
  have hne : applied ≠ [] := fun hnil => by
    rw [(h.silent hnil).1] at hforwarder
    cases hforwarder
  obtain ⟨hposition, hrefusal⟩ : Position s.arrived applied refusal { t with
      forwarder := some f, outbound := t.outbound ++ (sent.map Outbound.snapshot).toList } ∧
      refusal = none := by
    cases h.position with
    | waiting _ _ happlied => exact absurd happlied hne
    | registered hhandler harrived hne haccepted hrefusal =>
      exact ⟨.registered hhandler harrived hne haccepted hrefusal, hrefusal⟩
    | refusing hhandler harrived hrefused hrefusal =>
      exact ⟨.refusing hhandler harrived hrefused hrefusal, hrefusal⟩
    | refused _ hnone => rw [hnone] at hforwarder; cases hforwarder
    | heard _ hnone => rw [hnone] at hforwarder; cases hforwarder
  refine ⟨h.applies.quiet hentries, hposition, h.received, ?_, fun hnil => absurd hnil hne⟩
  subst hrefusal
  show t.outbound ++ _ = _
  rw [h.outbound, List.map_append]
  cases sent <;> simp

theorem Stands.step (h : Stands s) {now : Int} {event : StatusServer.Event}
    (hevent : streamOf? event = some s.number)
    (hstep : s.server.step now event = some server) : Stands (s.worked server) := by
  cases event with
  | handle stream =>
    obtain rfl := Option.some.inj hevent
    obtain ⟨t, ht, hhandle⟩ := Option.bind_eq_some_iff.mp hstep
    obtain ⟨applied, got, pending, refusal, hserves⟩ := h.serves ht
    obtain ⟨-, t', ht', hhandles⟩ := handle_cases ht hhandle
    obtain ⟨applied', refusal', hserves'⟩ := hserves.handle hhandles
    exact .served ht' hserves'
  | forward stream =>
    obtain rfl := Option.some.inj hevent
    obtain ⟨t, ht, hforward⟩ := Option.bind_eq_some_iff.mp hstep
    obtain ⟨applied, got, pending, refusal, hserves⟩ := h.serves ht
    obtain ⟨-, hentries, hforwarder, f, sent, ht'⟩ := forward_cases ht hforward
    exact .served ht' (hserves.forward hentries hforwarder f sent)
  | prune => cases hevent

/-- What arrives at the subscriber is a snapshot, or the end of the stream. -/
theorem Stands.receive (h : Stands s) (hbelow : Below s.server)
    (hreceive : s.receive = some s') : Stands s' := by
  obtain ⟨t, ht, heq⟩ := Option.bind_eq_some_iff.mp hreceive
  obtain ⟨⟨server, arrival⟩, harrive, rfl⟩ := Option.map_eq_some_iff.mp heq
  obtain ⟨honly, hentries, harrives⟩ := arrive_cases ht harrive
  obtain ⟨applied, got, pending, refusal, happlies, hposition, hreceived, hout, hsilent⟩ :=
    h.serves ht
  have hlt : s.number < server.nextStream := by
    rw [honly.next]
    refine Nat.lt_of_not_le fun hle => ?_
    rw [hbelow _ hle] at ht
    cases ht
  have hlog : ∀ (got : List Notification) (arrival : Arrival), s.received = got.map .snapshot →
      s.received ++ [arrival] = got.map .snapshot ++ [arrival] := fun got arrival heq => by rw [heq]
  generalize hstream : server.stream? s.number = stream at harrives
  cases harrives with
  | @snapshot n rest hout' =>
    -- the first snapshot on its way has been received
    rw [hout'] at hout
    cases pending with
    | nil => cases refusal <;> simp at hout
    | cons m pending =>
      obtain ⟨hm, hrest⟩ := List.cons.inj hout
      cases hm
      refine .served hstream (show Serves _ _ _ (got ++ [n]) pending refusal from
        ⟨happlies.quiet hentries, hposition.of_eq rfl rfl rfl id, ?_, hrest, fun hnil => ?_⟩)
      · rw [List.map_append]
        exact hlog got _ hreceived
      · cases (hsilent hnil).2.2
  | @refused error rest hout' =>
    rw [hout'] at hout
    obtain rfl : refusal = some error := by
      cases pending with
      | nil => cases refusal <;> simp_all
      | cons m pending => cases (List.cons.inj hout).1
    obtain ⟨r, harrived, hrefused⟩ := hposition.of_refusal
    exact .gone hlt hstream ⟨happlies.quiet hentries, fun hnil => (hsilent hnil).2.1,
      .inl ⟨r, t.inbound, error, harrived, hrefused, hlog got _ hreceived⟩⟩
  | ended hout' hhandler =>
    rw [hout'] at hout
    cases hposition with
    | heard _ _ _ harrived _ haccepted =>
      exact .gone hlt hstream ⟨happlies.quiet hentries, fun hnil => (hsilent hnil).2.1,
        .inr ⟨_, haccepted, harrived, hlog got _ hreceived⟩⟩
    | refused _ _ _ _ hrefusal => simp [hrefusal] at hout
    | waiting hwaiting => simp [hwaiting] at hhandler
    | registered hregistered => simp [hregistered] at hhandler
    | refusing hrefusing => simp [hrefusing] at hhandler

/-! ### Runs -/

/-- What happens elsewhere leaves the stream where it stands. -/
theorem Stands.only {x : Nat} (h : Stands s) (honly : Only x s.server server)
    (hne : s.number ≠ x) : Stands (s.aside server) :=
  h.aside (honly.others _ hne) honly.next

theorem only_of_step {now : Int} {event : StatusServer.Event}
    (hstep : s.server.step now event = some server) :
    ∃ x, Only x s.server server ∧ (streamOf? event = some x ∨ s.number ≠ x) := by
  cases event with
  | handle x =>
    obtain ⟨t, ht, hhandle⟩ := Option.bind_eq_some_iff.mp hstep
    exact ⟨x, (handle_cases ht hhandle).1, .inl rfl⟩
  | forward x =>
    obtain ⟨t, ht, hforward⟩ := Option.bind_eq_some_iff.mp hstep
    exact ⟨x, (forward_cases ht hforward).1, .inl rfl⟩
  | prune => exact ⟨s.number + 1, .prune hstep, .inr (Nat.ne_of_lt (Nat.lt_succ_self _))⟩

/-- What a turn leaves as it was: the stream stands somewhere, under its number. -/
theorem Stands.next (h : Stands s) (hbelow : Below s.server) {turn : Turn}
    (hnext : s.next turn = some s') : Stands s' ∧ Below s'.server ∧ s'.number = s.number := by
  have hother : s.number ≠ s.number + 1 := Nat.ne_of_lt (Nat.lt_succ_self _)
  have haside : ∀ {x : Nat} {server : StatusServer}, Only x s.server server → s.number ≠ x →
      s.aside server = s' → Stands s' ∧ Below s'.server ∧ s'.number = s.number := by
    rintro x server honly hne rfl
    exact ⟨h.only honly hne, hbelow.only honly, rfl⟩
  cases turn with
  | setStatus r =>
    refine haside (x := s.number + 1) ?_ hother (Option.some.inj hnext)
    unfold StatusServer.setStatus
    split <;> exact .of_streams rfl rfl
  | openStream =>
    obtain rfl := Option.some.inj hnext
    exact ⟨h.openStream hbelow, hbelow.openStream, rfl⟩
  | receive stream r =>
    have honly : Only stream s.server (s.server.receive stream r) := .updateStream _ _ fun _ => rfl
    by_cases hstream : stream = s.number
    · rw [WatchedStream.next, if_pos hstream] at hnext
      refine ⟨h.hear hnext, ?_⟩
      obtain ⟨t, -, heq⟩ := Option.bind_eq_some_iff.mp hnext
      rw [Option.ite_none_left_eq_some, Option.some.injEq] at heq
      obtain ⟨-, rfl⟩ := heq
      exact ⟨hbelow.only (hstream ▸ honly), rfl⟩
    · rw [WatchedStream.next, if_neg hstream] at hnext
      exact haside honly (Ne.symm hstream) (Option.some.inj hnext)
  | close stream =>
    obtain rfl := Option.some.inj hnext
    exact ⟨h.close stream, hbelow.only (x := stream) (.updateStream _ _ fun _ => rfl), rfl⟩
  | leave stream =>
    rw [WatchedStream.next, Option.ite_none_left_eq_some] at hnext
    exact haside (s.server.leave_spec stream).1 (Ne.symm hnext.1) (Option.some.inj hnext.2)
  | step now event =>
    obtain ⟨server, hstep, heq⟩ := Option.map_eq_some_iff.mp hnext
    obtain ⟨x, honly, hx⟩ := only_of_step hstep
    by_cases hevent : streamOf? event = some s.number
    · rw [if_pos hevent] at heq
      subst heq
      exact ⟨h.step hevent hstep, hbelow.only honly, rfl⟩
    · rw [if_neg hevent] at heq
      refine haside honly (hx.elim (fun hx heq => hevent ?_) id) heq
      rw [hx, heq]
  | arrive stream =>
    by_cases hstream : stream = s.number
    · rw [WatchedStream.next, if_pos hstream] at hnext
      refine ⟨h.receive hbelow hnext, ?_⟩
      obtain ⟨t, ht, heq⟩ := Option.bind_eq_some_iff.mp hnext
      obtain ⟨⟨server, arrival⟩, harrive, rfl⟩ := Option.map_eq_some_iff.mp heq
      exact ⟨hbelow.only (arrive_cases ht harrive).1, rfl⟩
    · rw [WatchedStream.next, if_neg hstream] at hnext
      obtain ⟨t, ht, heq⟩ := Option.bind_eq_some_iff.mp hnext
      obtain ⟨⟨server, arrival⟩, harrive, heq⟩ := Option.map_eq_some_iff.mp heq
      exact haside (arrive_cases ht harrive).1 (Ne.symm hstream) heq
  | stopPruning =>
    have honly : Only (s.number + 1) s.server s.server.stopPruning := .of_streams rfl rfl
    exact haside honly hother (Option.some.inj hnext)

theorem Stands.run {turns : List Turn} (h : Stands s) (hbelow : Below s.server)
    (hrun : s.run turns = some s') : Stands s' ∧ Below s'.server ∧ s'.number = s.number := by
  induction turns generalizing s with
  | nil =>
    obtain rfl := Option.some.inj hrun
    exact ⟨h, hbelow, rfl⟩
  | cons turn rest ih =>
    obtain ⟨s₁, hnext, hrun⟩ := Option.bind_eq_some_iff.mp hrun
    obtain ⟨h₁, hbelow₁, hnumber⟩ := h.next hbelow hnext
    obtain ⟨h', hbelow', hnumber'⟩ := ih h₁ hbelow₁ hrun
    exact ⟨h', hbelow', hnumber'.trans hnumber⟩

theorem stands_of_run {plan : PrunePlan} {now : Int} {number : Nat} {turns : List Turn}
    (hrun : (start plan now number).run turns = some s) : Stands s ∧ Below s.server :=
  have hstart : Stands (start plan now number) :=
    .unopened (Nat.zero_le _) rfl rfl rfl rfl
  have h := hstart.run (fun _ _ => rfl) hrun
  ⟨h.1, h.2.1⟩

/-! ### Coming to rest -/

/-- How much is left to do on a stream. -/
def weight (t : ServerStream) : Nat :=
  4 * t.inbound.length + t.outbound.length +
    match t.handler with
    | .ended => 1
    | .refusing _ => 3
    | _ => 2

theorem weight_lt_of_handles {table table' : StatusTable} (h : Handles t table t' table') :
    weight t' < weight t := by
  cases h with
  | ends hhandler =>
    rcases hhandler with hhandler | ⟨k, hhandler⟩ <;> simp [weight, hhandler]
  | records hhandler hin =>
    rcases hhandler with hhandler | hhandler <;> simp [weight, hhandler, hin]
  | refuses hhandler hin =>
    rcases hhandler with ⟨hhandler, -⟩ | hhandler <;> simp [weight, hhandler, hin] <;> omega
  | sends hhandler =>
    simp [weight, hhandler]
    omega

/-- How much is left to do on the stream, if it is there. -/
def work (s : WatchedStream) : Nat := (s.server.stream? s.number).elim 0 weight

/-- A stream that is not at rest gets on, and has less to do then. -/
theorem exists_turn (h : ¬ s.AtRest) : ∃ turn s', s.next turn = some s' ∧ s'.work < s.work ∧
    s'.arrived = s.arrived ∧ s'.number = s.number ∧
    (turn = .step 0 (.handle s.number) ∨ turn = .arrive s.number) := by
  simp only [AtRest, Classical.not_forall, not_and] at h
  obtain ⟨t, ht, hbusy⟩ := h
  have hwork : s.work = weight t := by rw [work, ht]; rfl
  cases hhandle : s.server.handle t with
  | some server =>
    obtain ⟨-, t', ht', hhandles⟩ := handle_cases ht hhandle
    refine ⟨_, s.worked server, ?_, ?_, rfl, rfl, .inl rfl⟩
    · simp [WatchedStream.next, StatusServer.step, ht, hhandle, streamOf?]
    · have hwork' : (s.worked server).work = weight t' := by
        show (server.stream? s.number).elim 0 weight = _
        rw [ht']
        rfl
      rw [hwork, hwork']
      exact weight_lt_of_handles hhandles
  | none =>
    obtain ⟨⟨server, arrival⟩, harrive⟩ := Option.ne_none_iff_exists'.mp (hbusy hhandle)
    obtain ⟨-, -, harrives⟩ := arrive_cases ht harrive
    refine ⟨_, { s.worked server with received := s.received ++ [arrival] }, ?_, ?_, rfl, rfl,
      .inr rfl⟩
    · rw [WatchedStream.next, if_pos rfl, receive, ht, Option.bind_some, harrive, Option.map_some]
    · rw [hwork]
      show (server.stream? s.number).elim 0 weight < _
      generalize server.stream? s.number = stream at harrives
      have hpos : 0 < weight t := by
        unfold weight
        split <;> omega
      cases harrives with
      | snapshot hout => simp [weight, hout]
      | refused _ => exact hpos
      | ended _ _ => exact hpos

/-- A stream comes to rest by what its handler does and its subscriber receives. -/
theorem exists_rest (n : Nat) : ∀ s : WatchedStream, s.work ≤ n → ∃ turns s',
    s.run turns = some s' ∧ s'.AtRest ∧ s'.arrived = s.arrived ∧
    ∀ turn ∈ turns, turn = .step 0 (.handle s.number) ∨ turn = .arrive s.number := by
  induction n with
  | zero =>
    intro s hwork
    refine ⟨[], s, rfl, Classical.not_not.mp fun hbusy => ?_, rfl,
      fun _ hturn => absurd hturn List.not_mem_nil⟩
    obtain ⟨-, s', -, hlt, -⟩ := exists_turn hbusy
    omega
  | succ n ih =>
    intro s hwork
    by_cases hrest : s.AtRest
    · exact ⟨[], s, rfl, hrest, rfl, fun _ hturn => absurd hturn List.not_mem_nil⟩
    · obtain ⟨turn, s₁, hnext, hlt, harrived, hnumber, hturn⟩ := exists_turn hrest
      obtain ⟨turns, s', hrun, hrest', harrived', hturns⟩ := ih s₁ (by omega)
      refine ⟨turn :: turns, s', ?_, hrest', harrived'.trans harrived, ?_⟩
      · rw [run, hnext, Option.bind_some, hrun]
      · intro turn' hmem
        rcases List.mem_cons.mp hmem with rfl | hmem
        · exact hturn
        · exact hnumber ▸ hturns turn' hmem

/-! ### What has been applied and sent -/

theorem Position.prefix (h : Position arrived applied refusal t) :
    applied <+: validPrefix arrived := by
  have hsame : validPrefix arrived = applied → applied <+: validPrefix arrived := fun heq =>
    ⟨[], (List.append_nil applied).trans heq.symm⟩
  cases h with
  | waiting _ _ happlied => exact happlied ▸ List.nil_prefix
  | registered _ harrived _ haccepted => exact harrived ▸ haccepted.prefix _
  | refusing _ harrived hrefused => exact hsame (harrived ▸ (hrefused.validPrefix_eq _).1)
  | refused _ _ harrived hrefused => exact hsame (harrived ▸ (hrefused.validPrefix_eq _).1)
  | heard _ _ _ harrived _ haccepted =>
    exact hsame ((congrArg validPrefix harrived).trans (validPrefix_of_accepted haccepted))

/-- At most the report after the valid prefix is read as well. -/
theorem Position.handled (h : Position arrived applied refusal t) : ∃ handled,
    arrived = handled ++ t.inbound ∧ handled.length ≤ (validPrefix arrived).length + 1 := by
  have hle := h.prefix.length_le
  -- a report that is refused has been read, and is not applied
  have hread : ∀ r, arrived = applied ++ r :: t.inbound → ∃ handled,
      arrived = handled ++ t.inbound ∧ handled.length ≤ (validPrefix arrived).length + 1 := by
    intro r harrived
    refine ⟨applied ++ [r], by rw [harrived, List.append_assoc]; rfl, ?_⟩
    rw [List.length_append, List.length_singleton]
    omega
  cases h with
  | waiting _ harrived => exact ⟨[], harrived, Nat.zero_le _⟩
  | registered _ harrived => exact ⟨applied, harrived, by omega⟩
  | refusing _ harrived => exact hread _ harrived
  | refused _ _ harrived => exact hread _ harrived
  | heard _ _ _ harrived hin => exact ⟨applied, by rw [hin, List.append_nil, harrived], by omega⟩

/-- A refusal that is sent is the one for the report after the valid prefix. -/
theorem Position.refusalOf?_eq (h : Position arrived applied (some error) t) :
    refusalOf? arrived = some error := by
  obtain ⟨r, rfl, hrefused⟩ := h.of_refusal
  exact (hrefused.validPrefix_eq _).2

/-- A stream at rest waits for more, and has applied everything. -/
theorem Position.of_rest (h : Position arrived applied refusal t)
    (hhandle : s.server.handle t = none) (harrive : s.server.arrive t = none) :
    arrived = applied ∧ ∃ k, Accepted k applied := by
  obtain ⟨hout, hended⟩ := arrive_eq_none harrive
  rcases handle_eq_none hhandle with h' | ⟨error, -, hfull⟩ | ⟨hidle, hin, -⟩
  · exact absurd h' hended
  · simp [ServerStream.hasRoom, hout, outboundCapacity] at hfull
  · obtain ⟨harrived, -, hor⟩ := h.idle hidle
    rw [hin, List.append_nil] at harrived
    rcases hor with ⟨-, rfl⟩ | ⟨k, -, -, haccepted⟩
    · exact ⟨harrived, "", .nil _⟩
    · exact ⟨harrived, k, haccepted⟩

theorem Serves.sent_eq (h : Serves s t applied got pending refusal)
    (ht : s.server.stream? s.number = some t) :
    s.sent = (got ++ pending).map .snapshot ++ (refusal.map .refused).toList := by
  have hsnapshots : (pending.map Outbound.snapshot).map (·.arrival) =
      pending.map Arrival.snapshot := by
    rw [List.map_map]
    rfl
  rw [sent, ht, h.received, Option.elim_some, h.outbound, List.map_append, List.map_append,
    hsnapshots, List.append_assoc]
  cases refusal <;> rfl

/-- The reports that the sections of the stream have applied. -/
theorem Stands.applies (h : Stands s) : ∃ applied, Applies s.sections applied ∧
    applied <+: validPrefix s.arrived ∧ (s.AtRest → applied = validPrefix s.arrived) := by
  cases h with
  | unopened _ _ harrived hsections =>
    rw [harrived, hsections]
    exact ⟨[], .nil, List.nil_prefix, fun _ => rfl⟩
  | @served t applied _ _ _ ht hserves =>
    refine ⟨applied, hserves.applies, hserves.position.prefix, fun hrest => ?_⟩
    obtain ⟨hhandle, harrive⟩ := hrest t ht
    obtain ⟨harrived, k, haccepted⟩ := hserves.position.of_rest hhandle harrive
    rw [harrived, validPrefix_of_accepted haccepted]
  | @gone applied _ _ _ hfinished =>
    obtain ⟨happlies, -, ⟨r, rest, error, harrived, hrefused, -⟩ | ⟨k, haccepted, harrived, -⟩⟩ :=
      hfinished
    · have hvalid := (hrefused.validPrefix_eq rest).1
      rw [harrived, hvalid]
      exact ⟨applied, happlies, List.prefix_rfl, fun _ => rfl⟩
    · rw [harrived, validPrefix_of_accepted haccepted]
      exact ⟨applied, happlies, List.prefix_rfl, fun _ => rfl⟩

/-- What has been sent on the stream. -/
theorem Stands.sent (h : Stands s) : ∃ (snapshots : List Notification) (last : List Arrival),
    s.sent = snapshots.map .snapshot ++ last ∧
    (last = [] ∨ last = [.ended] ∨
      ∃ error, last = [.refused error] ∧ refusalOf? s.arrived = some error) ∧
    (validPrefix s.arrived = [] → snapshots = []) ∧
    (s.AtRest → ∀ error, refusalOf? s.arrived = some error →
      last = [.refused error] ∧ s.server.stream? s.number = none) := by
  cases h with
  | unopened _ hnone harrived _ hreceived =>
    refine ⟨[], [], ?_, .inl rfl, fun _ => rfl, fun _ error herror => ?_⟩
    · rw [WatchedStream.sent, hnone, hreceived]
      rfl
    · rw [harrived] at herror
      cases herror
  | @served t applied got pending refusal ht hserves =>
    refine ⟨got ++ pending, (refusal.map .refused).toList, hserves.sent_eq ht, ?_, fun hnil => ?_,
      fun hrest error herror => ?_⟩
    · have hposition := hserves.position
      cases refusal with
      | none => exact .inl rfl
      | some error => exact .inr (.inr ⟨error, rfl, hposition.refusalOf?_eq⟩)
    · have happlied : applied = [] := List.prefix_nil.mp (hnil ▸ hserves.position.prefix)
      obtain ⟨-, hgot, hpending⟩ := hserves.silent happlied
      rw [hgot, hpending]
      rfl
    · obtain ⟨hhandle, harrive⟩ := hrest t ht
      obtain ⟨harrived, k, haccepted⟩ := hserves.position.of_rest hhandle harrive
      rw [harrived, refusalOf?_of_accepted haccepted] at herror
      cases herror
  | @gone applied got _ hnone hfinished =>
    have hsent : s.sent = s.received := by
      rw [WatchedStream.sent, hnone]
      exact List.append_nil _
    obtain ⟨-, hsilent, ⟨r, rest, error, harrived, hrefused, hreceived⟩ |
      ⟨k, haccepted, harrived, hreceived⟩⟩ := hfinished
    · obtain ⟨hvalid, hrefusal⟩ := hrefused.validPrefix_eq rest
      rw [← harrived] at hvalid hrefusal
      refine ⟨got, [.refused error], hsent.trans hreceived, .inr (.inr ⟨error, rfl, hrefusal⟩),
        fun hnil => hsilent (hvalid.symm.trans hnil), fun _ error' herror => ⟨?_, hnone⟩⟩
      rw [Option.some.inj (hrefusal.symm.trans herror)]
    · refine ⟨got, [.ended], hsent.trans hreceived, .inr (.inl rfl), fun hnil => hsilent ?_,
        fun _ error herror => ?_⟩
      · rw [harrived, validPrefix_of_accepted haccepted] at hnil
        exact hnil
      · rw [harrived, refusalOf?_of_accepted haccepted] at herror
        cases herror

/-- **The sections of a stream record the longest prefix of its reports that pass all checks for the
lock key of the first one, in order, and change nothing else that the table knows; they have
recorded all of it once the stream is at rest. If a report follows the prefix, then one refusal is
sent, last of all, for the first check that the report fails; the stream ends, and no later report
is taken off it. Without a valid report no snapshot is sent. A stream comes to rest by itself as
long as its subscriber receives what is sent. And a single call changes the table exactly if its
report passes the checks.** -/
theorem valid_prefix_applied {plan : PrunePlan} {now : Int} {number : Nat} {turns : List Turn}
    (hrun : (start plan now number).run turns = some s) :
    (∃ applied, Applies s.sections applied ∧ applied <+: validPrefix s.arrived ∧
      (s.AtRest → applied = validPrefix s.arrived)) ∧
    (∃ (snapshots : List Notification) (last : List Arrival),
      s.sent = snapshots.map .snapshot ++ last ∧
      (last = [] ∨ last = [.ended] ∨
        ∃ error, last = [.refused error] ∧ refusalOf? s.arrived = some error) ∧
      (validPrefix s.arrived = [] → snapshots = []) ∧
      (s.AtRest → ∀ error, refusalOf? s.arrived = some error →
        last = [.refused error] ∧ s.server.stream? s.number = none)) ∧
    (∀ t, s.server.stream? s.number = some t → ∃ handled, s.arrived = handled ++ t.inbound ∧
      handled.length ≤ (validPrefix s.arrived).length + 1) ∧
    (∃ turns' s', s.run turns' = some s' ∧ s'.AtRest ∧ s'.arrived = s.arrived ∧
      ∀ turn ∈ turns', turn = .step 0 (.handle s.number) ∨ turn = .arrive s.number) ∧
    ∀ (sv : StatusServer) (r : StatusRequest),
      ((sv.setStatus r).2.table ≠ sv.table ↔ r.validate = .ok ()) ∧
      (r.validate = .ok () → (sv.setStatus r).2.table = sv.table.upsert r) ∧
      ∀ error, r.validate = .error error → sv.setStatus r = (.error error, sv) := by
  obtain ⟨hstands, -⟩ := stands_of_run hrun
  refine ⟨hstands.applies, hstands.sent, fun t ht => ?_, exists_rest s.work s (Nat.le_refl _),
    fun sv r => ?_⟩
  · obtain ⟨applied, got, pending, refusal, hserves⟩ := hstands.serves ht
    exact hserves.position.handled
  · unfold StatusServer.setStatus
    cases hvalidate : r.validate with
    | error error =>
      refine ⟨⟨fun hne => absurd rfl hne, nofun⟩, nofun, fun error' heq => ?_⟩
      cases heq
      rfl
    | ok u =>
      refine ⟨⟨fun _ => rfl, fun _ hsame => ?_⟩, fun _ => rfl, nofun⟩
      exact sv.table.entries_upsert_ne r (congrArg StatusTable.entries hsame)

/-- Two instances report on one stream, then a report of another lock key strays into it, and one
more follows. Meanwhile someone else reports under the lock key of the stream. -/
def strayTurns : List Turn :=
  let report (lockKey id : String) : StatusRequest := ⟨lockKey, id, ⟨true, "", 0⟩⟩
  [.openStream, .receive 0 (report "k" "a"), .receive 0 (report "k" "b"),
    .step 0 (.handle 0), .step 0 (.forward 0), .setStatus (report "k" "c"),
    .receive 0 (report "stray" "a"), .receive 0 (report "k" "d"), .step 0 (.handle 0),
    .step 0 (.forward 0), .step 0 (.handle 0), .step 0 (.handle 0), .arrive 0, .arrive 0]

theorem valid_prefix_applied_before_stray : ∃ s,
    (start ⟨.ofSecs 10, .ofSecs 60, by decide, by decide⟩ 0 0).run strayTurns = some s ∧
    s.arrived.length = 4 ∧
    (validPrefix s.arrived).map (·.instanceId) = ["a", "b"] ∧
    Applies s.sections (validPrefix s.arrived) ∧
    ∃ snapshots : List Notification,
      s.sent = snapshots.map .snapshot ++ [.refused .lockKeyDiffers] := by
  have hfacts : ((start ⟨.ofSecs 10, .ofSecs 60, by decide, by decide⟩ 0 0).run strayTurns).map
      (fun s => (s.arrived.length, (validPrefix s.arrived).map (·.instanceId),
        refusalOf? s.arrived, (s.server.stream? s.number).isNone)) =
      some (4, ["a", "b"], some .lockKeyDiffers, true) := by decide
  obtain ⟨s, hrun, hfacts⟩ := Option.map_eq_some_iff.mp hfacts
  simp only [Prod.mk.injEq] at hfacts
  obtain ⟨hlength, hvalid, hrefusal, hnone⟩ := hfacts
  have hrest : s.AtRest := fun t ht => by
    rw [ht] at hnone
    cases hnone
  obtain ⟨⟨applied, happlies, -, hall⟩, ⟨snapshots, last, hsent, -, -, hlast⟩, -⟩ :=
    valid_prefix_applied hrun
  exact ⟨s, hrun, hlength, hvalid, hall hrest ▸ happlies, snapshots,
    (hlast hrest _ hrefusal).1 ▸ hsent⟩

end WatchedStream

end Floodgate
