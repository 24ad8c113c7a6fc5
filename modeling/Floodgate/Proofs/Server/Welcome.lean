import Floodgate.Server.Basic
/-!
# Floodgate.Proofs.Server.Welcome

**A stream that hears only acceptable reports of one lock key is never refused.** `Hears` is every
history of a server in which one of its streams hears only reports with a given property; whatever
else happens to the server is left open, and so is what the other streams hear. If all these reports
are valid and name the same lock key, then the handler of the stream has no reason to end it, and no
refusal is ever sent on it (`Hears.not_refused`).
-/

namespace Floodgate.StatusServer

variable {sv sv' : StatusServer} {stream : Nat} {lockKey : String} {p : StatusRequest → Prop}

/-- The histories of a server in which the stream of a number hears only reports with a property. -/
inductive Hears (stream : Nat) (p : StatusRequest → Prop) : StatusServer → Prop
  | start (plan : PrunePlan) (now : Int) : Hears stream p (.start plan now)
  /-- A report is taken in a single call. -/
  | setStatus {sv : StatusServer} (h : Hears stream p sv) (r : StatusRequest) :
      Hears stream p (sv.setStatus r).2
  | openStream {sv : StatusServer} (h : Hears stream p sv) : Hears stream p sv.openStream.1
  /-- A report arrives on some stream. -/
  | receive {sv : StatusServer} (h : Hears stream p sv) (number : Nat) {r : StatusRequest}
      (hr : number = stream → p r) : Hears stream p (sv.receive number r)
  | close {sv : StatusServer} (h : Hears stream p sv) (number : Nat) :
      Hears stream p (sv.close number)
  | leave {sv : StatusServer} (h : Hears stream p sv) (number : Nat) :
      Hears stream p (sv.leave number)
  /-- The server goes on by itself. -/
  | step {sv sv' : StatusServer} {now : Int} {event : Event} (h : Hears stream p sv)
      (hstep : sv.step now event = some sv') : Hears stream p sv'
  /-- Something arrives at a subscriber. -/
  | arrive {sv sv' : StatusServer} {t : ServerStream} {arrival : Arrival} (h : Hears stream p sv)
      (harrive : sv.arrive t = some (sv', arrival)) (ht : t ∈ sv.streams) : Hears stream p sv'
  | stopPruning {sv : StatusServer} (h : Hears stream p sv) : Hears stream p sv.stopPruning

/-- A stream that has only acceptable reports of a lock key still to handle, and that has not been
refused. -/
structure Welcome (lockKey : String) (t : ServerStream) : Prop where
  handler : t.handler = .waiting ∨ t.handler = .registered lockKey ∨ t.handler = .ended
  inbound : ∀ r ∈ t.inbound, r.lockKey = lockKey ∧ r.validate = .ok ()
  outbound : ∀ error, Outbound.refusal error ∉ t.outbound

theorem Welcome.fresh (lockKey : String) (number : Nat) :
    Welcome lockKey ⟨number, [], false, .waiting, none, []⟩ :=
  ⟨.inl rfl, fun _ hr => absurd hr List.not_mem_nil, fun _ => List.not_mem_nil⟩

theorem Welcome.ended {t : ServerStream} (h : Welcome lockKey t) :
    Welcome lockKey { t with handler := .ended, forwarder := none } :=
  ⟨.inr (.inr rfl), h.inbound, h.outbound⟩

/-- All streams of a number are welcome. -/
def Welcomes (stream : Nat) (lockKey : String) (sv : StatusServer) : Prop :=
  ∀ t ∈ sv.streams, t.number = stream → Welcome lockKey t

theorem Welcomes.of_subset (h : Welcomes stream lockKey sv) (hsub : sv'.streams ⊆ sv.streams) :
    Welcomes stream lockKey sv' :=
  fun t ht => h t (hsub ht)

theorem Welcomes.updateStream (h : Welcomes stream lockKey sv) {x : Nat}
    {f : ServerStream → ServerStream} (hf : ∀ t, (f t).number = t.number)
    (hw : x = stream → ∀ t, Welcome lockKey t → Welcome lockKey (f t)) :
    Welcomes stream lockKey (sv.updateStream x f) := by
  intro t' ht' hnumber
  obtain ⟨t, ht, rfl⟩ := List.mem_map.mp ht'
  by_cases hx : t.number = x
  · rw [if_pos hx] at hnumber ⊢
    rw [hf] at hnumber
    exact hw (hx.symm.trans hnumber) t (h t ht hnumber)
  · rw [if_neg hx] at hnumber ⊢
    exact h t ht hnumber

/-- A forwarder that is aborted leaves the streams alone. -/
theorem streams_abortForwarder (sv : StatusServer) (forwarder : Option Forwarder) :
    (sv.abortForwarder forwarder).streams = sv.streams := by
  cases forwarder <;> rfl

theorem Welcomes.leave (h : Welcomes stream lockKey sv) (number : Nat) :
    Welcomes stream lockKey (sv.leave number) := by
  unfold StatusServer.leave
  split
  · refine h.of_subset fun t ht => ?_
    have hmem := (List.mem_filter.mp ht).1
    rwa [streams_abortForwarder] at hmem
  · exact h

theorem Welcomes.endHandler (h : Welcomes stream lockKey sv) (t : ServerStream) :
    Welcomes stream lockKey (sv.endHandler t) := by
  refine Welcomes.updateStream ?_ (fun _ => rfl) fun _ _ hw => hw.ended
  exact h.of_subset fun t ht => streams_abortForwarder sv _ ▸ ht

/-- A report is taken off a stream. -/
theorem Welcomes.take (h : Welcomes stream lockKey sv) {t : ServerStream} (ht : t ∈ sv.streams)
    {r : StatusRequest} {rest : List StatusRequest} (hin : t.inbound = r :: rest) :
    Welcomes stream lockKey (sv.updateStream t.number fun e => { e with inbound := rest }) := by
  refine h.updateStream (fun _ => rfl) fun heq u hu => ⟨hu.handler, fun r' hr' => ?_, hu.outbound⟩
  exact (h t ht heq).inbound r' (hin ▸ List.mem_cons_of_mem _ hr')

/-- A stream whose reports are acceptable is not among those that are refused. -/
theorem Welcomes.refuse (h : Welcomes stream lockKey sv) {t : ServerStream} (error : RequestError)
    (hother : t.number ≠ stream) : Welcomes stream lockKey (sv.refuse t error) :=
  h.updateStream (fun _ => rfl) fun heq => absurd heq hother

/-- One section of the handler of a stream. -/
theorem Welcomes.handle (h : Welcomes stream lockKey sv) {t : ServerStream} (ht : t ∈ sv.streams)
    (hhandle : sv.handle t = some sv') : Welcomes stream lockKey sv' := by
  unfold StatusServer.handle at hhandle
  cases hhandler : t.handler with
  | ended =>
    simp only [hhandler] at hhandle
    cases hhandle
  | refusing error =>
    have hother : t.number ≠ stream := fun heq => by
      rcases (h t ht heq).handler with hw | hw | hw <;> rw [hhandler] at hw <;> cases hw
    simp only [hhandler, Option.ite_none_right_eq_some, Option.some.injEq] at hhandle
    rw [← hhandle.2]
    have hsent : Welcomes stream lockKey (sv.updateStream t.number fun e =>
        { e with outbound := e.outbound ++ [.refusal error] }) :=
      h.updateStream (fun _ => rfl) fun heq => absurd heq hother
    exact hsent.endHandler t
  | waiting =>
    simp only [hhandler] at hhandle
    cases hin : t.inbound with
    | nil =>
      simp only [hin, Option.ite_none_right_eq_some, Option.some.injEq] at hhandle
      exact hhandle.2 ▸ h.endHandler t
    | cons r rest =>
      have hr := fun heq => (h t ht heq).inbound r (hin ▸ List.mem_cons_self)
      simp only [hin, Option.some.injEq] at hhandle
      rw [← hhandle, register]
      split
      · rename_i hrefused
        refine (h.take ht hin).refuse _ fun heq => ?_
        rw [(hr heq).2] at hrefused
        cases hrefused
      · have htaken : Welcomes stream lockKey { sv.updateStream t.number fun e =>
            { e with inbound := rest } with table := _ } := h.take ht hin
        refine htaken.updateStream (fun _ => rfl) fun heq u hu => ?_
        exact ⟨.inr (.inl (congrArg _ (hr heq).1)), hu.inbound, hu.outbound⟩
  | registered key =>
    simp only [hhandler] at hhandle
    cases hin : t.inbound with
    | nil =>
      simp only [hin, Option.ite_none_right_eq_some, Option.some.injEq] at hhandle
      exact hhandle.2 ▸ h.endHandler t
    | cons r rest =>
      have hr := fun heq => (h t ht heq).inbound r (hin ▸ List.mem_cons_self)
      have hkey : t.number = stream → key = lockKey := fun heq => by
        rcases (h t ht heq).handler with hw | hw | hw <;> rw [hhandler] at hw <;> cases hw
        rfl
      simp only [hin, Option.some.injEq] at hhandle
      rw [← hhandle, record]
      split
      · rename_i hrefused
        refine (h.take ht hin).refuse _ fun heq => ?_
        rw [(hr heq).2] at hrefused
        cases hrefused
      · split
        · exact h.take ht hin
        · rename_i hdiffers
          exact (h.take ht hin).refuse _ fun heq => hdiffers ((hr heq).1.trans (hkey heq).symm)

/-- One section of the forwarder of a stream sends a snapshot, if anything. -/
theorem Welcomes.forward (h : Welcomes stream lockKey sv) {t : ServerStream}
    (hforward : sv.forward t = some sv') : Welcomes stream lockKey sv' := by
  simp only [StatusServer.forward, Option.bind_eq_bind, Option.bind_eq_some_iff, pure,
    Option.some.injEq] at hforward
  obtain ⟨f, -, ⟨table, f', sent⟩, -, rfl⟩ := hforward
  have htable : Welcomes stream lockKey { sv with table } := h
  refine htable.updateStream (fun _ => rfl) fun _ u hu =>
    ⟨hu.handler, hu.inbound, fun error hmem => ?_⟩
  rcases List.mem_append.mp hmem with hmem | hmem
  · exact hu.outbound error hmem
  · cases sent with
    | none => cases hmem
    | some n => cases List.mem_singleton.mp hmem

theorem Welcomes.step (h : Welcomes stream lockKey sv) {now : Int} {event : Event}
    (hstep : sv.step now event = some sv') : Welcomes stream lockKey sv' := by
  cases event with
  | handle x =>
    obtain ⟨t, ht, hhandle⟩ := Option.bind_eq_some_iff.mp hstep
    exact h.handle (List.mem_of_find?_eq_some ht) hhandle
  | forward x =>
    obtain ⟨t, -, hforward⟩ := Option.bind_eq_some_iff.mp hstep
    exact h.forward hforward
  | prune =>
    simp only [StatusServer.step, pruneIfDue] at hstep
    split at hstep
    · split at hstep
      · split at hstep <;> cases hstep <;> exact h
      · cases hstep
    · cases hstep

theorem Welcomes.arrive (h : Welcomes stream lockKey sv) {t : ServerStream} {arrival : Arrival}
    (ht : t ∈ sv.streams) (harrive : sv.arrive t = some (sv', arrival)) :
    Welcomes stream lockKey sv' := by
  unfold StatusServer.arrive at harrive
  split at harrive
  · rename_i n rest hout
    cases harrive
    refine h.updateStream (fun _ => rfl) fun heq u hu =>
      ⟨hu.handler, hu.inbound, fun error hmem => ?_⟩
    exact (h t ht heq).outbound error (hout ▸ List.mem_cons_of_mem _ hmem)
  · cases harrive
    exact h.leave t.number
  · simp only [Option.ite_none_right_eq_some, Option.some.injEq, Prod.mk.injEq] at harrive
    exact harrive.2.1 ▸ h.leave t.number

/-- What a stream hears is all that matters to whether it is refused. -/
theorem Hears.welcomes (h : Hears stream p sv)
    (hp : ∀ r, p r → r.lockKey = lockKey ∧ r.validate = .ok ()) : Welcomes stream lockKey sv := by
  induction h with
  | start plan now => exact fun t ht => absurd ht List.not_mem_nil
  | @setStatus sv _ r ih =>
    unfold StatusServer.setStatus
    split <;> exact ih
  | openStream _ ih =>
    intro t ht hnumber
    rcases List.mem_append.mp ht with ht | ht
    · exact ih t ht hnumber
    · exact List.mem_singleton.mp ht ▸ .fresh lockKey _
  | receive _ number hr ih =>
    refine ih.updateStream (fun _ => rfl) fun heq u hu =>
      ⟨hu.handler, fun r' hr' => ?_, hu.outbound⟩
    rcases List.mem_append.mp hr' with hr' | hr'
    · exact hu.inbound r' hr'
    · exact List.mem_singleton.mp hr' ▸ hp _ (hr heq)
  | close _ number ih =>
    exact ih.updateStream (fun _ => rfl) fun _ u hu => ⟨hu.handler, hu.inbound, hu.outbound⟩
  | leave _ number ih => exact ih.leave number
  | step _ hstep ih => exact ih.step hstep
  | arrive _ harrive ht ih => exact ih.arrive ht harrive
  | stopPruning _ ih => exact ih

/-- A stream that hears only valid reports of one lock key is not refused. -/
theorem Hears.not_refused (h : Hears stream p sv)
    (hp : ∀ r, p r → r.lockKey = lockKey ∧ r.validate = .ok ()) {t : ServerStream}
    (ht : t ∈ sv.streams) (hnumber : t.number = stream) (error : RequestError) :
    t.handler ≠ .refusing error ∧ Outbound.refusal error ∉ t.outbound := by
  obtain ⟨hhandler, -, houtbound⟩ := h.welcomes hp t ht hnumber
  refine ⟨fun hrefusing => ?_, houtbound error⟩
  rcases hhandler with hw | hw | hw <;> rw [hrefusing] at hw <;> cases hw

end Floodgate.StatusServer
