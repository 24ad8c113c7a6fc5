import Floodgate.PeerStore.Views
import Floodgate.Proofs.Server.Table
import Floodgate.Server.Basic
/-!
# Floodgate.Proofs.Server.Stream

**The snapshots of a stream lead up to the present one.** Snapshots are passed on in a chain: the
table publishes a version, the forwarder reads it, sends it, and it waits to be received. `Fed` says
that nothing is missing from the chain: a forwarder that has seen the present version is either
about to send it, or the last snapshot sent, or the one that the subscriber holds, is the present
one. Versions in between may be skipped.

`Moves` describes what a section of a server does to the stream that it is about, to the other
streams and to the table. It takes the first report off the stream and records it, or it passes a
snapshot on; `moves_of_step` says that there is nothing else as long as no report is refused.
-/

namespace Floodgate

/-- What a subscriber holds once everything that has been sent has arrived. -/
def lastShown (view : Option View) (outbound : List Outbound) : Option View :=
  outbound.foldl (fun v o => match o with
    | .snapshot n => some (View.ofStatuses n.statuses)
    | .refusal _ => v) view

namespace ServerStream

/-- A stream of a lock key whose subscriber holds a view. -/
inductive Fed (lockKey : String) (t : StatusTable) (s : ServerStream) (view : Option View) :
    Prop where
  /-- Nothing is sent before the first report. -/
  | waiting (hhandler : s.handler = .waiting) (hforwarder : s.forwarder = none)
      (hout : s.outbound = [])
  /-- The chain of snapshots, from the entry to the subscriber. -/
  | fed {f : Forwarder} {rcv : Receiver} {e : TableEntry}
      (hhandler : s.handler = .registered lockKey) (hforwarder : s.forwarder = some f)
      (hattached : t.entryOf? f.receiver = some (rcv, e)) (hkey : e.lockKey = lockKey)
      (hseen : rcv.seen ≤ e.version)
      (hout : ∀ o ∈ s.outbound, ∃ n, o = .snapshot n ∧ n.lockKey = lockKey)
      (hsending : ∀ n, f.stage = .sending n →
        n.lockKey = lockKey ∧ (rcv.seen = e.version → n = e.snapshot))
      (hparked : f.stage = .parked → rcv.seen = e.version →
        lastShown view s.outbound = some (View.ofStatuses e.snapshot.statuses))

/-- A receiver stays attached to an entry, of which at most a later version is published. -/
def Kept (t t' : StatusTable) (receiver : Nat) : Prop :=
  ∀ rcv e, t.entryOf? receiver = some (rcv, e) → ∃ e', t'.entryOf? receiver = some (rcv, e') ∧
    e'.lockKey = e.lockKey ∧ (e' = e ∨ e.version < e'.version)

theorem Kept.upsert (t : StatusTable) (r : StatusRequest) (receiver : Nat) :
    Kept t (t.upsert r) receiver := fun _ e h =>
  ⟨_, StatusTable.entryOf?_upsert r h, StatusTable.reported_lockKey r e,
    StatusTable.reported_eq_or_version_lt r e⟩

/-- What happens to the table for others does not break the chain: a version that has not been seen
has to be read before anything is asked of it. -/
theorem Fed.of_kept {lockKey : String} {t t' : StatusTable} {s : ServerStream}
    {view : Option View} (h : Fed lockKey t s view)
    (hkept : ∀ f, s.forwarder = some f → Kept t t' f.receiver) : Fed lockKey t' s view := by
  cases h with
  | waiting hhandler hforwarder hout => exact .waiting hhandler hforwarder hout
  | @fed f rcv e hhandler hforwarder hattached hkey hseen hout hsending hparked =>
    obtain ⟨e', hattached', hkey', hnewer⟩ := hkept f hforwarder rcv e hattached
    rcases hnewer with rfl | hlt
    · exact .fed hhandler hforwarder hattached' hkey hseen hout hsending hparked
    · have hunseen : rcv.seen ≠ e'.version := Nat.ne_of_lt (Nat.lt_of_le_of_lt hseen hlt)
      refine .fed hhandler hforwarder hattached' (hkey'.trans hkey) ?_ hout ?_ ?_
      · exact Nat.le_of_lt (Nat.lt_of_le_of_lt hseen hlt)
      · exact fun n hn => ⟨(hsending n hn).1, fun heq => absurd heq hunseen⟩
      · exact fun _ heq => absurd heq hunseen

/-- A report that arrives does not matter to the snapshots. -/
theorem Fed.of_inbound {lockKey : String} {t : StatusTable} {s : ServerStream}
    {view : Option View} (h : Fed lockKey t s view) (inbound : List StatusRequest) :
    Fed lockKey t { s with inbound } view := by
  cases h with
  | waiting hhandler hforwarder hout => exact .waiting hhandler hforwarder hout
  | fed hhandler hforwarder hattached hkey hseen hout hsending hparked =>
    exact .fed hhandler hforwarder hattached hkey hseen hout hsending hparked

/-- Taking up the first snapshot on the way early changes nothing about where the snapshots lead. -/
theorem Fed.take_up {lockKey : String} {t : StatusTable} {s : ServerStream} {view : Option View}
    {n : Notification} {rest : List Outbound} (h : Fed lockKey t s view)
    (hout : s.outbound = .snapshot n :: rest) :
    n.lockKey = lockKey ∧ Fed lockKey t s (some (View.ofStatuses n.statuses)) := by
  cases h with
  | waiting _ _ hnil => rw [hnil] at hout; cases hout
  | fed hhandler hforwarder hattached hkey hseen hall hsending hparked =>
    obtain ⟨n', heq, hn'⟩ := hall (.snapshot n) (hout ▸ List.mem_cons_self)
    cases heq
    refine ⟨hn', .fed hhandler hforwarder hattached hkey hseen hall hsending ?_⟩
    intro hstage hlatest
    have hshown := hparked hstage hlatest
    rw [hout] at hshown ⊢
    exact hshown

/-- The first snapshot on the way has been taken up. -/
theorem Fed.arrived {lockKey : String} {t : StatusTable} {s : ServerStream}
    {n : Notification} {rest : List Outbound}
    (h : Fed lockKey t s (some (View.ofStatuses n.statuses)))
    (hout : s.outbound = .snapshot n :: rest) :
    Fed lockKey t { s with outbound := rest } (some (View.ofStatuses n.statuses)) := by
  cases h with
  | waiting _ _ hnil => rw [hnil] at hout; cases hout
  | fed hhandler hforwarder hattached hkey hseen hall hsending hparked =>
    refine .fed hhandler hforwarder hattached hkey hseen ?_ hsending ?_
    · exact fun o ho => hall o (hout ▸ List.mem_cons_of_mem _ ho)
    · intro hstage hlatest
      have hshown := hparked hstage hlatest
      rw [hout] at hshown
      exact hshown

/-- Receiving one more snapshot means that it is the one held in the end. -/
theorem lastShown_append_snapshot (view : Option View) (out : List Outbound) (n : Notification) :
    lastShown view (out ++ [.snapshot n]) = some (View.ofStatuses n.statuses) := by
  simp [lastShown]

section Forwarder

variable {lockKey : String} {t t' : StatusTable} {s : ServerStream} {view : Option View}
  {f f' : Forwarder} {sent : Option Notification} {room : Bool}

/-- A forwarder keeps its receiver, and changes the table for nobody else. -/
theorem step_frame (ht : t.Sound) (hstep : f.step t room = some (t', f', sent)) :
    f'.receiver = f.receiver ∧ t'.Sound ∧ t'.nextReceiver = t.nextReceiver ∧
      (∀ k id, t'.statusOf? k id = t.statusOf? k id) ∧
      ∀ y, y ≠ f.receiver → ∀ rcv e, t.entryOf? y = some (rcv, e) →
        t'.entryOf? y = some (rcv, e) := by
  unfold Forwarder.step at hstep
  cases hstage : f.stage with
  | reading =>
    simp only [hstage, Option.map_eq_some_iff] at hstep
    obtain ⟨⟨n, table⟩, hread, heq⟩ := hstep
    cases heq
    obtain ⟨rcv₀, e₀, -, -, htable⟩ := StatusTable.read_eq_some hread
    refine ⟨rfl, ht.read htable, by rw [htable], ?_, ?_⟩
    · intro k id
      rw [htable]
      rfl
    · intro y hy rcv e hattached
      rw [StatusTable.entryOf?_read htable hattached, if_neg hy]
  | sending n =>
    simp only [hstage, Option.ite_none_right_eq_some, Option.some.injEq, Prod.mk.injEq] at hstep
    obtain ⟨-, rfl, rfl, rfl⟩ := hstep
    exact ⟨rfl, ht, rfl, fun _ _ => rfl, fun _ _ _ _ => id⟩
  | parked =>
    simp only [hstage, Option.ite_none_right_eq_some, Option.some.injEq, Prod.mk.injEq] at hstep
    obtain ⟨-, rfl, rfl, rfl⟩ := hstep
    exact ⟨rfl, ht, rfl, fun _ _ => rfl, fun _ _ _ _ => id⟩

/-- The forwarder passes a snapshot on. -/
theorem Fed.forwarded (h : Fed lockKey t s view) (ht : t.Sound) (hf : s.forwarder = some f)
    (hstep : f.step t room = some (t', f', sent)) :
    Fed lockKey t' { s with
      forwarder := some f'
      outbound := s.outbound ++ (sent.map Outbound.snapshot).toList } view := by
  cases h with
  | waiting _ hforwarder => rw [hf] at hforwarder; cases hforwarder
  | @fed f₀ rcv e hhandler hforwarder hattached hkey hseen hout hsending hparked =>
  obtain rfl := Option.some.inj (hf.symm.trans hforwarder)
  unfold Forwarder.step at hstep
  cases hstage : f.stage with
  | reading =>
    -- the present version has been seen from now on, and is about to be sent
    simp only [hstage, Option.map_eq_some_iff] at hstep
    obtain ⟨⟨n, table⟩, hread, heq⟩ := hstep
    cases heq
    obtain ⟨rcv₀, e₀, hattached₀, hn, htable⟩ := StatusTable.read_eq_some hread
    cases hattached₀.symm.trans hattached
    have hafter := StatusTable.entryOf?_read htable hattached
    rw [if_pos rfl] at hafter
    have hsnapshot := ht.snapshot e (StatusTable.mem_of_entryOf? hattached)
    refine .fed hhandler rfl hafter hkey (Nat.le_refl _) ?_ ?_ (fun hparked => by cases hparked)
    · intro o ho
      rw [Option.map_none, Option.toList_none, List.append_nil] at ho
      exact hout o ho
    · intro n' hn'
      cases hn'
      refine ⟨?_, fun _ => hn⟩
      rw [hn, hsnapshot]
      exact hkey
  | sending n =>
    simp only [hstage, Option.ite_none_right_eq_some, Option.some.injEq, Prod.mk.injEq] at hstep
    obtain ⟨-, rfl, rfl, rfl⟩ := hstep
    obtain ⟨hnkey, hpresent⟩ := hsending n hstage
    refine .fed hhandler rfl hattached hkey hseen ?_ (fun n' hn' => by cases hn') ?_
    · intro o ho
      rcases List.mem_append.mp ho with ho | ho
      · exact hout o ho
      · exact ⟨n, List.mem_singleton.mp ho, hnkey⟩
    · intro _ hlatest
      rw [← hpresent hlatest]
      exact lastShown_append_snapshot view s.outbound n
  | parked =>
    simp only [hstage, Option.ite_none_right_eq_some, Option.some.injEq, Prod.mk.injEq] at hstep
    obtain ⟨-, rfl, rfl, rfl⟩ := hstep
    refine .fed hhandler rfl hattached hkey hseen ?_ (fun n' hn' => by cases hn')
      (fun hreading => by cases hreading)
    intro o ho
    rw [Option.map_none, Option.toList_none, List.append_nil] at ho
    exact hout o ho

end Forwarder

end ServerStream

namespace StatusServer

open ServerStream (Fed Kept)

variable {sv sv' : StatusServer} {lockKey : String} {x y : Nat} {t : ServerStream}

/-! ### Servers whose streams stay open -/

/-- A server whose streams have not ended. -/
structure Serving (sv : StatusServer) : Prop where
  /-- The table is in order. -/
  table : sv.table.Sound
  /-- Each number has one stream. -/
  numbers : (sv.streams.map (·.number)).Nodup
  /-- The next number is new. -/
  number_lt : ∀ t ∈ sv.streams, t.number < sv.nextStream
  /-- No subscriber has ended its side. -/
  isClosed : ∀ t ∈ sv.streams, t.isClosed = false
  /-- The next receiver is new. -/
  receiver_lt : ∀ t ∈ sv.streams, ∀ f, t.forwarder = some f →
    f.receiver < sv.table.nextReceiver
  /-- Each forwarder has a receiver of its own. -/
  receivers : ∀ t ∈ sv.streams, ∀ t' ∈ sv.streams, ∀ f f', t.forwarder = some f →
    t'.forwarder = some f' → f.receiver = f'.receiver → t.number = t'.number

theorem Serving.start (plan : PrunePlan) (now : Int) : Serving (start plan now) := by
  constructor <;> simp [StatusServer.start, StatusTable.Sound.empty]

theorem mem_of_stream? (h : sv.stream? x = some t) : t ∈ sv.streams := List.mem_of_find?_eq_some h

theorem number_of_stream? (h : sv.stream? x = some t) : t.number = x := Keyed.key_of_find? h

theorem Serving.stream?_of_mem (h : Serving sv) (ht : t ∈ sv.streams) :
    sv.stream? t.number = some t :=
  (Keyed.find?_eq_some_iff h.numbers).mpr ⟨ht, rfl⟩

section Update

variable {f : ServerStream → ServerStream} (hf : ∀ t, (f t).number = t.number)

include hf

theorem stream?_updateStream (sv : StatusServer) (x y : Nat) : (sv.updateStream x f).stream? y =
    if y = x then (sv.stream? y).map f else sv.stream? y :=
  Keyed.find?_update hf y

theorem numbers_updateStream (sv : StatusServer) (x : Nat) :
    (sv.updateStream x f).streams.map (·.number) = sv.streams.map (·.number) :=
  Keyed.map_key_map fun t => Keyed.key_ite hf t

theorem updateStream_updateStream (g : ServerStream → ServerStream) (sv : StatusServer) (x : Nat) :
    (sv.updateStream x f).updateStream x g = sv.updateStream x fun t => g (f t) := by
  simp only [updateStream, List.map_map]
  congr 1
  refine List.map_congr_left fun t _ => ?_
  by_cases ht : t.number = x
  · simp [ht, hf]
  · simp [ht]

/-- A change of the table that takes no receiver out, and of one stream, whose forwarder keeps its
receiver or gets a new one. -/
theorem Serving.update (h : Serving sv) {table : StatusTable} (htable : table.Sound)
    (hnext : sv.table.nextReceiver ≤ table.nextReceiver) (x : Nat)
    (hclosed : ∀ t, (f t).isClosed = t.isClosed)
    (hforwarder : ∀ t ∈ sv.streams, t.number = x → ∀ g, (f t).forwarder = some g →
      (∃ g', t.forwarder = some g' ∧ g'.receiver = g.receiver) ∨
        sv.table.nextReceiver ≤ g.receiver ∧ g.receiver < table.nextReceiver) :
    Serving ({ sv with table }.updateStream x f) := by
  have horigin : ∀ t' ∈ ({ sv with table }.updateStream x f).streams, ∃ t ∈ sv.streams,
      t'.number = t.number ∧ t'.isClosed = t.isClosed ∧ ∀ g, t'.forwarder = some g →
        (∃ g', t.forwarder = some g' ∧ g'.receiver = g.receiver) ∨
          t.number = x ∧ sv.table.nextReceiver ≤ g.receiver ∧ g.receiver < table.nextReceiver := by
    intro t' ht'
    obtain ⟨t, ht, rfl⟩ := List.mem_map.mp ht'
    refine ⟨t, ht, ?_⟩
    by_cases hx : t.number = x
    · rw [if_pos hx]
      exact ⟨hf t, hclosed t, fun g hg => (hforwarder t ht hx g hg).imp_right fun h => ⟨hx, h⟩⟩
    · rw [if_neg hx]
      exact ⟨rfl, rfl, fun g hg => .inl ⟨g, hg, rfl⟩⟩
  refine ⟨htable, (numbers_updateStream hf { sv with table } x).symm ▸ h.numbers, ?_, ?_, ?_, ?_⟩
  · intro t' ht'
    obtain ⟨t, ht, hnumber, -, -⟩ := horigin t' ht'
    exact hnumber ▸ h.number_lt t ht
  · intro t' ht'
    obtain ⟨t, ht, -, hclosed', -⟩ := horigin t' ht'
    exact hclosed'.trans (h.isClosed t ht)
  · intro t' ht' g hg
    obtain ⟨t, ht, -, -, horigin'⟩ := horigin t' ht'
    rcases horigin' g hg with ⟨g', hg', hreceiver⟩ | ⟨-, -, hlt⟩
    · exact hreceiver ▸ Nat.lt_of_lt_of_le (h.receiver_lt t ht g' hg') hnext
    · exact hlt
  · intro t₁ ht₁ t₂ ht₂ g₁ g₂ hg₁ hg₂ heq
    obtain ⟨u₁, hu₁, hnumber₁, -, horigin₁⟩ := horigin t₁ ht₁
    obtain ⟨u₂, hu₂, hnumber₂, -, horigin₂⟩ := horigin t₂ ht₂
    rw [hnumber₁, hnumber₂]
    rcases horigin₁ g₁ hg₁ with ⟨g₁', hg₁', hr₁⟩ | ⟨hx₁, hnew₁, -⟩
    · have hlt₁ := h.receiver_lt u₁ hu₁ g₁' hg₁'
      rcases horigin₂ g₂ hg₂ with ⟨g₂', hg₂', hr₂⟩ | ⟨-, hnew₂, -⟩
      · exact h.receivers u₁ hu₁ u₂ hu₂ g₁' g₂' hg₁' hg₂' (hr₁.trans (heq.trans hr₂.symm))
      · omega
    · rcases horigin₂ g₂ hg₂ with ⟨g₂', hg₂', hr₂⟩ | ⟨hx₂, -, -⟩
      · have hlt₂ := h.receiver_lt u₂ hu₂ g₂' hg₂'
        omega
      · exact hx₁.trans hx₂.symm

/-- A change of one stream that leaves its forwarder alone. -/
theorem Serving.updateStream (h : Serving sv) (x : Nat)
    (hclosed : ∀ t, (f t).isClosed = t.isClosed)
    (hforwarder : ∀ t, (f t).forwarder = t.forwarder) : Serving (sv.updateStream x f) :=
  h.update hf h.table (Nat.le_refl _) x hclosed fun t _ _ g hg =>
    .inl ⟨g, (hforwarder t).symm.trans hg, rfl⟩

end Update

theorem Serving.openStream (h : Serving sv) : Serving sv.openStream.1 := by
  have hmem : ∀ {t : ServerStream}, t ∈ sv.openStream.1.streams → t ∈ sv.streams ∨
      t = ⟨sv.nextStream, [], false, .waiting, none, []⟩ := fun ht =>
    (List.mem_append.mp ht).imp id List.mem_singleton.mp
  refine ⟨h.table, ?_, ?_, ?_, ?_, ?_⟩
  · exact Keyed.nodup_append_single h.numbers fun t ht => Nat.ne_of_lt (h.number_lt t ht)
  · intro t ht
    rcases hmem ht with ht | rfl
    · exact Nat.lt_succ_of_lt (h.number_lt t ht)
    · exact Nat.lt_succ_self _
  · intro t ht
    rcases hmem ht with ht | rfl
    · exact h.isClosed t ht
    · rfl
  · intro t ht f hf
    rcases hmem ht with ht | rfl
    · exact h.receiver_lt t ht f hf
    · cases hf
  · intro t₁ ht₁ t₂ ht₂ f₁ f₂ hf₁ hf₂ heq
    rcases hmem ht₁ with ht₁ | rfl
    · rcases hmem ht₂ with ht₂ | rfl
      · exact h.receivers t₁ ht₁ t₂ ht₂ f₁ f₂ hf₁ hf₂ heq
      · cases hf₂
    · cases hf₁

/-- The new stream is found under its number, and the others as before. -/
theorem Serving.stream?_openStream (h : Serving sv) (y : Nat) : sv.openStream.1.stream? y =
    if y = sv.nextStream then some ⟨sv.nextStream, [], false, .waiting, none, []⟩
    else sv.stream? y :=
  Keyed.find?_append_single (f := ServerStream.number)
    (y := ⟨sv.nextStream, [], false, .waiting, none, []⟩)
    (fun t ht => Nat.ne_of_lt (h.number_lt t ht)) y

/-! ### Sections -/

/-- What a section does at the stream `x`. -/
structure Moves (lockKey : String) (sv sv' : StatusServer) (x : Nat) (t t' : ServerStream) :
    Prop where
  found : sv.stream? x = some t
  after : sv'.stream? x = some t'
  others : ∀ y, y ≠ x → sv'.stream? y = sv.stream? y
  numbers : sv'.streams.map (·.number) = sv.streams.map (·.number)
  serving : Serving sv'
  kept : ∀ u ∈ sv.streams, u.number ≠ x → ∀ f, u.forwarder = some f →
    Kept sv.table sv'.table f.receiver
  fed : ∀ view, Fed lockKey sv.table t view → Fed lockKey sv'.table t' view
  /-- It records the first report, or leaves the statuses alone. -/
  recorded : (∃ r, t.inbound = r :: t'.inbound ∧ t'.handler = .registered lockKey ∧
      ∀ id, sv'.table.statusOf? lockKey id =
        if id = r.instanceId then some r.status else sv.table.statusOf? lockKey id) ∨
    t'.inbound = t.inbound ∧ t'.handler = t.handler ∧
      ∀ id, sv'.table.statusOf? lockKey id = sv.table.statusOf? lockKey id

/-- A section changes the table and the stream that it is about. -/
theorem Moves.of_update (h : Serving sv) (ht : sv.stream? x = some t) {table : StatusTable}
    {f : ServerStream → ServerStream} (hf : ∀ t, (f t).number = t.number)
    (hclosed : ∀ t, (f t).isClosed = t.isClosed) (htable : table.Sound)
    (hnext : sv.table.nextReceiver ≤ table.nextReceiver)
    (hforwarder : ∀ g, (f t).forwarder = some g →
      (∃ g', t.forwarder = some g' ∧ g'.receiver = g.receiver) ∨
        sv.table.nextReceiver ≤ g.receiver ∧ g.receiver < table.nextReceiver)
    (hkept : ∀ u ∈ sv.streams, u.number ≠ x → ∀ f, u.forwarder = some f →
      Kept sv.table table f.receiver)
    (hfed : ∀ view, Fed lockKey sv.table t view → Fed lockKey table (f t) view)
    (hrecorded : (∃ r, t.inbound = r :: (f t).inbound ∧ (f t).handler = .registered lockKey ∧
        ∀ id, table.statusOf? lockKey id =
          if id = r.instanceId then some r.status else sv.table.statusOf? lockKey id) ∨
      (f t).inbound = t.inbound ∧ (f t).handler = t.handler ∧
        ∀ id, table.statusOf? lockKey id = sv.table.statusOf? lockKey id) :
    Moves lockKey sv ({ sv with table }.updateStream x f) x t (f t) where
  found := ht
  after := by
    rw [stream?_updateStream hf, if_pos rfl]
    exact congrArg (Option.map f) ht
  others y hy := by
    rw [stream?_updateStream hf, if_neg hy]
    rfl
  numbers := numbers_updateStream hf { sv with table } x
  serving := by
    refine h.update hf htable hnext x hclosed fun u hu hx => ?_
    have hsame := h.stream?_of_mem hu
    rw [hx, ht] at hsame
    obtain rfl := Option.some.inj hsame
    exact hforwarder
  kept := hkept
  fed := hfed
  recorded := hrecorded

theorem statusOf?_upsert_of_lockKey {table : StatusTable} {r : StatusRequest}
    (hr : r.lockKey = lockKey) (id : String) : (table.upsert r).statusOf? lockKey id =
      if id = r.instanceId then some r.status else table.statusOf? lockKey id := by
  rw [StatusTable.statusOf?_upsert]
  simp only [hr, true_and]

/-- The first report of a stream. -/
theorem Moves.register (h : Serving sv) (ht : sv.stream? x = some t) {r : StatusRequest}
    {rest : List StatusRequest} (hin : t.inbound = r :: rest) (hr : r.lockKey = lockKey)
    (hwaiting : t.handler = .waiting) :
    ∃ t', Moves lockKey sv ({ sv with
      table := ((sv.table.upsert r).subscribe lockKey).1 }.updateStream x fun t =>
        { t with
          inbound := rest
          handler := .registered lockKey
          forwarder := some ⟨((sv.table.upsert r).subscribe lockKey).2, .reading⟩ }) x t t' := by
  have hupsert := h.table.upsert r
  have hnext : (sv.table.upsert r).nextReceiver = sv.table.nextReceiver :=
    StatusTable.nextReceiver_withEntry _ _
  have hsnd := (StatusTable.subscribe_snd lockKey).trans hnext
  obtain ⟨rcv, e, hattached, hkey, hseen⟩ := hupsert.entryOf?_subscribe lockKey
  have hnew : ((sv.table.upsert r).subscribe lockKey).1.nextReceiver =
      sv.table.nextReceiver + 1 := by
    obtain ⟨_, -, -, heq⟩ := (sv.table.upsert r).subscribe_eq lockKey
    rw [heq, ← hnext]
  refine ⟨_, Moves.of_update h ht (fun _ => rfl) (fun _ => rfl) (hupsert.subscribe lockKey)
    ?_ ?_ ?_ ?_ (.inl ⟨r, hin, rfl, ?_⟩)⟩
  · rw [hnew]
    exact Nat.le_succ _
  · intro g hg
    cases hg
    rw [hnew, hsnd]
    exact .inr ⟨Nat.le_refl _, Nat.lt_succ_self _⟩
  · intro u _ _ f _ rcv e hy
    obtain ⟨e', hy', hkey, hnewer⟩ := Kept.upsert sv.table r f.receiver rcv e hy
    exact ⟨e', StatusTable.entryOf?_subscribe_of_old lockKey hy', hkey, hnewer⟩
  · intro view hfed
    cases hfed with
    | waiting _ _ hout =>
      refine .fed rfl rfl (hsnd ▸ hnext ▸ hattached) hkey (Nat.le_of_eq hseen) ?_
        (fun n hn => by cases hn) (fun hstage => by cases hstage)
      intro o ho
      rw [hout] at ho
      exact absurd ho List.not_mem_nil
    | fed hhandler => rw [hwaiting] at hhandler; cases hhandler
  · intro id
    rw [StatusTable.statusOf?_subscribe, statusOf?_upsert_of_lockKey hr]

/-- A later report of a stream. -/
theorem Moves.record (h : Serving sv) (ht : sv.stream? x = some t) {r : StatusRequest}
    {rest : List StatusRequest} (hin : t.inbound = r :: rest) (hr : r.lockKey = lockKey)
    (hhandler : t.handler = .registered lockKey) :
    ∃ t', Moves lockKey sv ({ sv with
      table := sv.table.upsert r }.updateStream x fun t => { t with inbound := rest }) x t t' := by
  refine ⟨_, Moves.of_update h ht (fun _ => rfl) (fun _ => rfl) (h.table.upsert r) ?_ ?_ ?_ ?_
    (.inl ⟨r, hin, hhandler, statusOf?_upsert_of_lockKey hr⟩)⟩
  · exact Nat.le_of_eq (StatusTable.nextReceiver_withEntry _ _).symm
  · exact fun g hg => .inl ⟨g, hg, rfl⟩
  · exact fun u _ _ f _ => Kept.upsert sv.table r f.receiver
  · intro view hfed
    exact (hfed.of_kept fun f _ => Kept.upsert sv.table r f.receiver).of_inbound rest

/-- A section of the forwarder of a stream. -/
theorem Moves.forward (h : Serving sv) (ht : sv.stream? x = some t)
    (hforward : sv.forward t = some sv') : ∃ t', Moves lockKey sv sv' x t t' := by
  obtain rfl := number_of_stream? ht
  have hmem := mem_of_stream? ht
  simp only [StatusServer.forward, Option.bind_eq_bind, Option.bind_eq_some_iff, pure,
    Option.some.injEq] at hforward
  obtain ⟨f, hf, ⟨table, f', sent⟩, hstep, rfl⟩ := hforward
  obtain ⟨hreceiver, htable, hnext, hstatus, hothers⟩ := ServerStream.step_frame h.table hstep
  refine ⟨_, Moves.of_update h ht (fun _ => rfl) (fun _ => rfl) htable ?_ ?_ ?_ ?_
    (.inr ⟨rfl, rfl, hstatus lockKey⟩)⟩
  · exact Nat.le_of_eq hnext.symm
  · intro g hg
    cases hg
    exact .inl ⟨f, hf, hreceiver.symm⟩
  · -- the receivers of the other streams have seen what they had seen
    intro u hu hne g hg rcv e hother
    have hreceivers : g.receiver ≠ f.receiver := fun heq =>
      hne (h.receivers u hu t hmem g f hg hf heq)
    exact ⟨e, hothers _ hreceivers rcv e hother, rfl, .inl rfl⟩
  · exact fun view hfed => hfed.forwarded h.table hf hstep

/-- A section of the handler of a stream that waits for reports of the lock key. -/
theorem Moves.handle (h : Serving sv) (ht : sv.stream? x = some t)
    (hopen : t.handler = .waiting ∨ t.handler = .registered lockKey)
    (hvalid : ∀ r ∈ t.inbound, r.lockKey = lockKey ∧ r.validate = .ok ())
    (hhandle : sv.handle t = some sv') : ∃ t', Moves lockKey sv sv' x t t' := by
  obtain rfl := number_of_stream? ht
  have hclosed := h.isClosed t (mem_of_stream? ht)
  unfold StatusServer.handle at hhandle
  cases hin : t.inbound with
  | nil =>
    rcases hopen with hhandler | hhandler <;>
      simp [hhandler, hin, hclosed] at hhandle
  | cons r rest =>
    obtain ⟨hr, hok⟩ := hvalid r (hin ▸ List.mem_cons_self)
    rcases hopen with hhandler | hhandler
    · simp only [hhandler, hin, Option.some.injEq, StatusServer.register, hok] at hhandle
      obtain ⟨t', hmoves⟩ := Moves.register h ht hin hr hhandler
      -- the report is taken off the stream first, and then the stream is registered
      have htwice := updateStream_updateStream
        (f := fun u : ServerStream => { u with inbound := rest }) (fun _ => rfl)
        (fun u => { u with
          handler := .registered r.lockKey
          forwarder := some ⟨((sv.table.upsert r).subscribe r.lockKey).2, .reading⟩ })
        { sv with table := ((sv.table.upsert r).subscribe r.lockKey).1 } t.number
      rw [← hr] at hmoves ⊢
      exact ⟨t', hhandle ▸ htwice.symm ▸ hmoves⟩
    · simp only [hhandler, hin, Option.some.injEq, StatusServer.record, hok, hr, if_true] at hhandle
      obtain ⟨t', hmoves⟩ := Moves.record h ht hin hr hhandler
      exact ⟨t', hhandle ▸ hmoves⟩

/-- What a server does by itself, other than pruning, as long as it has no report to refuse. -/
theorem moves_of_step (h : Serving sv)
    (hfed : ∀ t ∈ sv.streams, ∃ view, Fed lockKey sv.table t view)
    (hvalid : ∀ t ∈ sv.streams, ∀ r ∈ t.inbound, r.lockKey = lockKey ∧ r.validate = .ok ())
    {now : Int} {event : Event} (hevent : event ≠ .prune)
    (hstep : sv.step now event = some sv') : ∃ x t t', Moves lockKey sv sv' x t t' := by
  cases event with
  | handle x =>
    obtain ⟨t, ht, hhandle⟩ := Option.bind_eq_some_iff.mp hstep
    have hmem := mem_of_stream? ht
    have hopen : t.handler = .waiting ∨ t.handler = .registered lockKey := by
      obtain ⟨view, hfed⟩ := hfed t hmem
      cases hfed with
      | waiting hhandler => exact .inl hhandler
      | fed hhandler => exact .inr hhandler
    exact ⟨x, t, Moves.handle h ht hopen (hvalid t hmem) hhandle⟩
  | forward x =>
    obtain ⟨t, ht, hforward⟩ := Option.bind_eq_some_iff.mp hstep
    exact ⟨x, t, Moves.forward h ht hforward⟩
  | prune => exact absurd rfl hevent

end StatusServer

end Floodgate
