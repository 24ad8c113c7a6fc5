import Floodgate.Proofs.HashStore.Run
import Floodgate.Proofs.Replication.Run
/-!
# Floodgate.Proofs.HashStore.Log

**What happens around a server of hashes, written down.** A scene goes on by acts: stores are
started, statuses are set through them, others write fields, the server goes away and comes back,
streams end, and the tasks of the stores carry out one section each. `act` carries one out, if it is
possible, and says which deeds are to be written down: a status that was accepted, a field that was
written, a stream or an attempt to subscribe that was lost, and a lease that lapsed while a store
waited for its next attempt.

A `Log` is what was written down, latest first, so that what came before a deed is the rest of the
list. Between acts the clock goes on. A punctual clock passes no instant at which a task of a store
can go on; any other clock may leave the tasks behind.

Stores are named by their places, which they keep. What an act makes of the store at a place is said
once (`Becomes`, `becomes_of_act`), and everything proved of a store along a log is a case analysis
on it.
-/

namespace Floodgate

/-- A field that was written. -/
structure HashWrite where
  /-- The place of the store that wrote it; none for others. -/
  writer : Option Nat
  lockKey : String
  field : String
  value : String
  time : Int
  deriving DecidableEq, Repr

/-- What is worth writing down. -/
inductive Deed where
  /-- A store has accepted a status. -/
  | accepted (place : Nat) (status : FieldWrite)
  | wrote (write : HashWrite)
  /-- The stream of a store has ended, or its attempt to subscribe has failed. -/
  | lost (place : Nat) (time : Int)
  /-- The lease timer of a store has fired while it waited for its next attempt. -/
  | lapsed (place : Nat) (time : Int)
  deriving DecidableEq, Repr

/-- The place of the store whose deed it is. -/
def Deed.place? : Deed → Option Nat
  | accepted place _ | lost place _ | lapsed place _ => some place
  | wrote write => write.writer

/-- Something that is done around a server. -/
inductive HashAct where
  | start (name lockKey : String) (options : ReplicatorOptions) (handlers : Handlers)
  | setStatus (place : Nat) (instanceName : String) (isBusy : Bool) (lockData : Option String)
  /-- Somebody else writes a field, announced on a channel. -/
  | write (lockKey field value channel : String)
  /-- The server goes away or comes back. -/
  | outage (isAvailable : Bool)
  /-- New subscriptions begin or cease to be refused. -/
  | refuse (refuses : Bool)
  | breakStream (place : Nat)
  /-- The subscriber of a store carries out a section. -/
  | listen (place : Nat) (wake : HashStore.Wake)
  /-- The replicator of a store carries out a section, with the calls that it starts. -/
  | deliver (place : Nat) (event : Replicator.Event FieldWrite)
  /-- A handler runs. -/
  | handle (place : Nat)
  | shutDown (name : String)
  | drop (name : String)

namespace HashStore

/-- What is written down of a section of the subscriber. -/
def deedsOnWake (st : HashStore) (place : Nat) (now : Int) (subscribed : Bool) : Wake → List Deed
  | .timer =>
    match st.subscription with
    | .waiting _ => [.lapsed place now]
    | _ => []
  | .subscribe => if subscribed then [] else [.lost place now]
  | .shutDown | .announcement | .streamEnd => []

/-- A status that is refused changes nothing. -/
theorem eq_of_setStatus_error {st st' : HashStore} {instanceName : String} {isBusy : Bool}
    {lockData : Option String} {error : StoreError}
    (h : st.setStatus instanceName isBusy lockData = (.error error, st')) : st = st' := by
  unfold setStatus at h
  split at h
  · exact (Prod.mk.inj h).2
  · split at h
    · exact (Prod.mk.inj h).2
    · cases h

/-- What is written down of the end of a stream. -/
def deedsOnBreak (st : HashStore) (place : Nat) (now : Int) : List Deed :=
  match st.subscription with
  | .streaming _ => [.lost place now]
  | _ => []

end HashStore

namespace HashScene

/-- What is written down of a field that is written, if the server can be reached. -/
def deedsOnWrite (s : HashScene) (write : HashWrite) : List Deed :=
  if s.server.isAvailable then [.wrote write] else []

/-- The write that a call of a store's replicator makes. -/
def writeOf (now : Int) (place : Nat) (st : HashStore) (c : Call FieldWrite) : HashWrite :=
  ⟨some place, st.lockKey, c.action.field, c.action.value c.lease, now⟩

/-- Carries out an act, if it is possible, with what is to be written down. Each store has a name of
its own. -/
def act (s : HashScene) (now : Int) : HashAct → Option (List Deed × HashScene)
  | .start name lockKey options handlers =>
    if s.stores.all (·.name ≠ name) then
      some ([], (s.start now name lockKey options handlers).2)
    else
      none
  | .setStatus place instanceName isBusy lockData =>
    s.stores[place]?.map fun e =>
      match e.store.setStatus instanceName isBusy lockData with
      | (.ok (), st) => ([.accepted place ⟨instanceName, isBusy, lockData⟩], s.set place st)
      | (.error _, st) => ([], s.set place st)
  | .write lockKey field value channel =>
    some (s.deedsOnWrite ⟨none, lockKey, field, value, now⟩,
      (s.write lockKey field value channel).1)
  | .outage isAvailable => some ([], { s with server := { s.server with isAvailable } })
  | .refuse refuses => some ([], { s with refuses })
  | .breakStream place =>
    s.stores[place]?.map fun e =>
      (e.store.deedsOnBreak place now, s.set place e.store.breakStream)
  | .listen place wake =>
    s.stores[place]?.bind fun e =>
      if e.store.isReady now wake then
        some (e.store.deedsOnWake place now s.accepts wake, s.listenAt now place e.store wake)
      else
        none
  | .deliver place event =>
    s.stores[place]?.bind fun e =>
      if event.isOwn then
        (e.store.replicator.step now event).map fun (replicator, calls) =>
          (calls.flatMap fun c => s.deedsOnWrite (writeOf now place e.store c),
            calls.foldl (carryOut now place) (s.set place { e.store with replicator }))
      else
        none
  | .handle place =>
    s.stores[place]?.bind fun e =>
      (e.store.house.runNext).map fun (house, _, _) => ([], s.set place { e.store with house })
  | .shutDown name => some ([], s.shutDown now name)
  | .drop name => some ([], s.drop now name)

/-- What has been written down up to an instant, latest first, and what the scene is by then. -/
inductive Log (punctual : Bool) : Int → List Deed → HashScene → Prop where
  | empty (now : Int) : Log punctual now [] .empty
  /-- Time passes. -/
  | wait {now later : Int} {log : List Deed} {s : HashScene} (h : Log punctual now log s)
      (hlater : now ≤ later) (hidle : punctual = true →
        ∀ instant, now ≤ instant → instant < later → s.work instant = none) :
      Log punctual later log s
  | act {now : Int} {log deeds : List Deed} {s s' : HashScene} {a : HashAct}
      (h : Log punctual now log s) (hact : s.act now a = some (deeds, s')) :
      Log punctual now (deeds ++ log) s'

variable {s s' : HashScene} {now : Int} {place q : Nat} {e : HashSceneStore} {st st' : HashStore}
  {deeds log : List Deed} {a : HashAct} {punctual : Bool}

/-! ### Stores at their places -/

/-- The store at a place. -/
def storeAt? (s : HashScene) (q : Nat) : Option HashStore := s.stores[q]?.map (·.store)

theorem storeAt?_of_getElem? (h : s.stores[q]? = some e) : s.storeAt? q = some e.store := by
  rw [storeAt?, h, Option.map_some]

theorem storeAt?_set (s : HashScene) (place : Nat) (st : HashStore) (q : Nat) :
    (s.set place st).storeAt? q =
      if q = place then (s.storeAt? q).map fun _ => st else s.storeAt? q := by
  unfold storeAt? set
  rw [List.getElem?_modify]
  cases s.stores[q]? with
  | none => simp
  | some e =>
    by_cases hq : q = place
    · simp [hq]
    · simp [hq, Ne.symm hq]

theorem storeAt?_announce (s : HashScene) (channel : String) (q : Nat) :
    (s.announce channel).storeAt? q = (s.storeAt? q).map (·.hear channel) := by
  unfold storeAt? announce
  rw [List.getElem?_map, Option.map_map, Option.map_map]
  rfl

theorem write_eq (s : HashScene) (lockKey field value channel : String) :
    ∃ server lockKeys, s.write lockKey field value channel =
      if s.server.isAvailable then
        (({ s with server, lockKeys } : HashScene).announce channel, true)
      else
        (s, false) := by
  unfold write HashServer.write
  cases s.server.isAvailable with
  | true => exact ⟨_, _, rfl⟩
  | false => exact ⟨s.server, s.lockKeys, rfl⟩

theorem write_snd (s : HashScene) (lockKey field value channel : String) :
    (s.write lockKey field value channel).2 = s.server.isAvailable := by
  obtain ⟨server, lockKeys, heq⟩ := s.write_eq lockKey field value channel
  rw [heq]
  cases s.server.isAvailable <;> rfl

/-- Whoever listens hears of a field that is written. -/
theorem storeAt?_write (s : HashScene) (lockKey field value channel : String) (q : Nat) :
    (s.write lockKey field value channel).1.storeAt? q =
      (s.storeAt? q).map fun st => if s.server.isAvailable then st.hear channel else st := by
  obtain ⟨server, lockKeys, heq⟩ := s.write_eq lockKey field value channel
  rw [heq]
  cases s.server.isAvailable with
  | true => exact storeAt?_announce _ channel q
  | false => exact Option.map_id'.symm

/-! ### What an act makes of a store -/

/-- Two stores that differ at most in what they have heard on their stream and in what they have
judged. -/
structure Alike (st st' : HashStore) : Prop where
  lockKey : st'.lockKey = st.lockKey
  replicator : st'.replicator = st.replicator
  isShutDown : st'.isShutDown = st.isShutDown
  timer : st'.timer = st.timer
  subscription : st'.subscription = st.subscription ∨
    ∃ unread unread', st.subscription = .streaming unread ∧ st'.subscription = .streaming unread'

theorem Alike.refl (st : HashStore) : Alike st st := ⟨rfl, rfl, rfl, rfl, .inl rfl⟩

theorem Alike.hear (st : HashStore) (channel : String) : Alike st (st.hear channel) := by
  unfold HashStore.hear
  split
  · next unread hsub =>
    split
    · exact ⟨rfl, rfl, rfl, rfl, .inr ⟨unread, _, hsub, rfl⟩⟩
    · exact .refl st
  · exact .refl st

theorem Alike.hear_if (st : HashStore) (channel : String) (isAvailable : Bool) :
    Alike st (if isAvailable then st.hear channel else st) := by
  split
  · exact .hear st channel
  · exact .refl st

theorem Alike.with_replicator (h : Alike st st') (r : Replicator FieldWrite) :
    Alike { st with replicator := r } { st' with replicator := r } :=
  ⟨h.lockKey, rfl, h.isShutDown, h.timer, h.subscription⟩

/-- The replicator of a store once a call that it has started has ended. -/
def afterCall (now : Int) (ok : Bool) (r : Replicator FieldWrite) (c : Call FieldWrite) :
    Replicator FieldWrite :=
  ((r.step now (.callEnded c.caller ok)).map (·.1)).getD r

/-- The ways in which an act can go for the store at a place, with what is written down. -/
inductive Becomes (now : Int) (q : Nat) (st : HashStore) : List Deed → HashStore → Prop where
  /-- It is not its act. -/
  | aside {deeds : List Deed} {st' : HashStore} (hdeeds : ∀ d ∈ deeds, d.place? ≠ some q)
      (halike : Alike st st') : Becomes now q st deeds st'
  /-- A status is accepted. -/
  | accepted {instanceName : String} {isBusy : Bool} {lockData : Option String} {st' : HashStore}
      (hset : st.setStatus instanceName isBusy lockData = (.ok (), st')) :
      Becomes now q st [.accepted q ⟨instanceName, isBusy, lockData⟩] st'
  /-- Its stream ends, if it has one. -/
  | broken : Becomes now q st (st.deedsOnBreak q now) st.breakStream
  /-- Its subscriber goes on. -/
  | listened {wake : HashStore.Wake} (hready : st.isReady now wake = true) (subscribed : Bool)
      (reading : Option (List (String × String))) :
      Becomes now q st (st.deedsOnWake q now subscribed wake)
        (st.onWake now subscribed reading wake)
  /-- Its replicator goes on, and starts no call. -/
  | resumed {event : Replicator.Event FieldWrite} {r : Replicator FieldWrite}
      (hown : event.isOwn = true) (hstep : st.replicator.step now event = some (r, [])) :
      Becomes now q st [] { st with replicator := r }
  /-- Its replicator goes on, and starts a call that writes a field, or fails to. -/
  | called {event : Replicator.Event FieldWrite} {r : Replicator FieldWrite}
      {c : Call FieldWrite} {st' : HashStore} (hown : event.isOwn = true)
      (hstep : st.replicator.step now event = some (r, [c])) (ok : Bool)
      (halike : Alike { st with replicator := afterCall now ok r c } st') :
      Becomes now q st (if ok then [.wrote (writeOf now q st c)] else []) st'
  | shutDown : Becomes now q st [] (st.shutDown now)

theorem Becomes.nothing (st : HashStore) : Becomes now q st [] st := .aside nofun (.refl st)

/-- A store that has just been started. -/
def Fresh (now : Int) (st : HashStore) : Prop :=
  (∃ plan, st.replicator = .start plan now) ∧ st.subscription = .streaming 0

/-! ### Calls -/

theorem calls_eq_nil_or_single {r r' : Replicator FieldWrite}
    {event : Replicator.Event FieldWrite} {calls : List (Call FieldWrite)}
    (hstep : r.step now event = some (r', calls)) : calls = [] ∨ ∃ c, calls = [c] := by
  cases calls with
  | nil => exact .inl rfl
  | cons c rest =>
    exact .inr ⟨c, Replicator.calls_eq_single (Replicator.section_of_step hstep)
      List.mem_cons_self⟩

theorem storeAt?_carryOut {c : Call FieldWrite} (hat : s.storeAt? place = some st) (q : Nat) :
    (carryOut now place s c).storeAt? q = (s.storeAt? q).map fun st₀ =>
      let heard := if s.server.isAvailable then st₀.hear (HashStore.channelName st.lockKey) else st₀
      if q = place then
        { heard with replicator := afterCall now s.server.isAvailable st₀.replicator c }
      else
        heard := by
  obtain ⟨e, he, rfl⟩ := Option.map_eq_some_iff.mp hat
  have hwrite := s.storeAt?_write e.store.lockKey c.action.field (c.action.value c.lease)
    (HashStore.channelName e.store.lockKey)
  have hok := s.write_snd e.store.lockKey c.action.field (c.action.value c.lease)
    (HashStore.channelName e.store.lockKey)
  unfold carryOut
  rw [he]
  rcases hout : s.write e.store.lockKey c.action.field (c.action.value c.lease)
    (HashStore.channelName e.store.lockKey) with ⟨s₁, ok⟩
  rw [hout] at hwrite hok
  simp only at hwrite hok
  subst hok
  have hplace := hwrite place
  rw [hat, Option.map_some] at hplace
  obtain ⟨e₁, he₁, hstore⟩ := Option.map_eq_some_iff.mp hplace
  have hreplicator : e₁.store.replicator = e.store.replicator :=
    hstore ▸ (Alike.hear_if ..).replicator
  simp only [hout, he₁]
  by_cases hq : q = place
  · -- its own replicator takes up how the call ended
    rw [hq, hat, Option.map_some, if_pos rfl, ← hstore, afterCall, ← hreplicator]
    cases e₁.store.replicator.step now (.callEnded c.caller s.server.isAvailable) with
    | none => exact hplace.trans (congrArg some hstore.symm)
    | some out =>
      refine (storeAt?_set s₁ place _ place).trans ?_
      rw [if_pos rfl, hplace]
      rfl
  · simp only [if_neg hq]
    cases e₁.store.replicator.step now (.callEnded c.caller s.server.isAvailable) with
    | none => exact hwrite q
    | some out => exact (storeAt?_set s₁ place _ q).trans ((if_neg hq).trans (hwrite q))

/-! ### Every act -/

theorem storeAt?_listenAt (s : HashScene) (now : Int) (place : Nat) (st : HashStore)
    (wake : HashStore.Wake) (q : Nat) : (s.listenAt now place st wake).storeAt? q =
      (s.set place (st.onWake now s.accepts
        (s.server.readAll (HashStore.hashKey st.lockKey)) wake)).storeAt? q := by
  unfold listenAt
  split <;> rfl

/-- What an act at a place makes of the store there is all that it does. -/
theorem becomes_set (hat : s.stores[place]? = some e) (hown : Becomes now place e.store deeds st)
    (hdeeds : ∀ d ∈ deeds, d.place? = some place) (hq : (s.set place st).storeAt? q = some st') :
    ∃ st₀, s.storeAt? q = some st₀ ∧ Becomes now q st₀ deeds st' := by
  rw [storeAt?_set] at hq
  split at hq
  · next heq =>
    subst heq
    rw [storeAt?_of_getElem? hat, Option.map_some] at hq
    cases hq
    exact ⟨e.store, storeAt?_of_getElem? hat, hown⟩
  · next hne =>
    refine ⟨st', hq, .aside (fun d hd heq => hne ?_) (.refl st')⟩
    exact Option.some.inj (heq.symm.trans (hdeeds d hd))

theorem mem_deedsOnWake {subscribed : Bool} {wake : HashStore.Wake} {d : Deed}
    (hd : d ∈ st.deedsOnWake place now subscribed wake) :
    d = .lost place now ∨ d = .lapsed place now := by
  unfold HashStore.deedsOnWake at hd
  split at hd
  · split at hd
    · exact .inr (List.mem_singleton.mp hd)
    · cases hd
  · split at hd
    · cases hd
    · exact .inl (List.mem_singleton.mp hd)
  all_goals cases hd

theorem mem_deedsOnBreak {d : Deed} (hd : d ∈ st.deedsOnBreak place now) :
    d = .lost place now := by
  unfold HashStore.deedsOnBreak at hd
  split at hd
  · exact List.mem_singleton.mp hd
  · cases hd

theorem place?_of_deedsOnWake {subscribed : Bool} {wake : HashStore.Wake} {d : Deed}
    (hd : d ∈ st.deedsOnWake place now subscribed wake) : d.place? = some place := by
  rcases mem_deedsOnWake hd with rfl | rfl <;> rfl

theorem place?_of_deedsOnBreak {d : Deed} (hd : d ∈ st.deedsOnBreak place now) :
    d.place? = some place := by
  rw [mem_deedsOnBreak hd]
  rfl

theorem place?_of_deedsOnWrite {write : HashWrite} {d : Deed} (hd : d ∈ s.deedsOnWrite write) :
    d.place? = write.writer := by
  unfold deedsOnWrite at hd
  split at hd
  · rw [List.mem_singleton.mp hd]
    rfl
  · cases hd

theorem becomes_of_write {lockKey field value channel : String} {write : HashWrite}
    (hwriter : write.writer = none)
    (hq : (s.write lockKey field value channel).1.storeAt? q = some st') :
    ∃ st, s.storeAt? q = some st ∧ Becomes now q st (s.deedsOnWrite write) st' := by
  rw [storeAt?_write] at hq
  obtain ⟨st, hst, rfl⟩ := Option.map_eq_some_iff.mp hq
  refine ⟨st, hst, .aside (fun d hd => ?_) (.hear_if st channel _)⟩
  rw [place?_of_deedsOnWrite hd, hwriter]
  exact nofun

theorem becomes_of_shutDown {name : String} (hq : (s.shutDown now name).storeAt? q = some st') :
    ∃ st, s.storeAt? q = some st ∧ Becomes now q st [] st' := by
  unfold HashScene.shutDown at hq
  split at hq
  · next place st hfind =>
    obtain ⟨e, i, hat, hfound⟩ := exists_of_findSome?_zipIdx hfind
    simp only at hfound
    split at hfound
    · cases hfound
      exact becomes_set hat .shutDown nofun hq
    · cases hfound
  · exact ⟨st', hq, .nothing st'⟩

theorem storeAt?_drop (s : HashScene) (now : Int) (name : String) (q : Nat) :
    (s.drop now name).storeAt? q = (s.shutDown now name).storeAt? q := by
  unfold HashScene.drop storeAt?
  rw [List.getElem?_map, Option.map_map]
  congr 1
  funext e
  show (if e.name = name then { e with isDropped := true } else e).store = e.store
  split <;> rfl

theorem fresh_of_start {lockKey : String} {options : ReplicatorOptions} {house : Gatehouse}
    {subscribed : Bool} {reading : Option (List (String × String))}
    (hstart : HashStore.start lockKey options house now subscribed reading = .ok st) :
    Fresh now st := by
  unfold HashStore.start at hstart
  split at hstart
  · cases hstart
  · split at hstart
    · cases hstart
    · next plan _ =>
      split at hstart
      · split at hstart
        · cases hstart
        · rw [← Except.ok.inj hstart]
          exact ⟨⟨plan, rfl⟩, rfl⟩
      · cases hstart

/-- A store that is started gets the next place. -/
theorem start_cases {name : String} (lockKey : String) (options : ReplicatorOptions)
    (handlers : Handlers) (hfresh : s.stores.all (·.name ≠ name) = true) :
    (s.start now name lockKey options handlers).2.server = s.server ∧
      ((s.start now name lockKey options handlers).2.stores = s.stores ∨
        ∃ st, Fresh now st ∧ (s.start now name lockKey options handlers).2.stores =
          s.stores ++ [⟨name, st, false⟩]) := by
  have hall : s.stores.filter (·.name ≠ name) = s.stores :=
    List.filter_eq_self.mpr (List.all_eq_true.mp hfresh)
  unfold HashScene.start
  cases hstart : HashStore.start lockKey options (.fresh handlers) now s.accepts
      (s.server.readAll (HashStore.hashKey lockKey)) with
  | error error =>
    simp only [hstart]
    cases error <;> exact ⟨rfl, .inl rfl⟩
  | ok store =>
    simp only [hstart]
    exact ⟨rfl, .inr ⟨store, fresh_of_start hstart, congrArg (· ++ _) hall⟩⟩

theorem becomes_of_start {name lockKey : String} {options : ReplicatorOptions}
    {handlers : Handlers} (hfresh : s.stores.all (·.name ≠ name) = true)
    (hq : (s.start now name lockKey options handlers).2.storeAt? q = some st') :
    s.storeAt? q = none ∧ Fresh now st' ∨
      ∃ st, s.storeAt? q = some st ∧ Becomes now q st [] st' := by
  unfold storeAt? at hq ⊢
  rcases (start_cases lockKey options handlers hfresh).2 with hsame | ⟨st, hst, happend⟩
  · rw [hsame] at hq
    exact .inr ⟨st', hq, .nothing st'⟩
  · rw [happend, List.getElem?_append] at hq
    split at hq
    · exact .inr ⟨st', hq, .nothing st'⟩
    · next hlt =>
      obtain ⟨e, he, rfl⟩ := Option.map_eq_some_iff.mp hq
      obtain rfl := List.mem_singleton.mp (List.mem_of_getElem? he)
      refine .inl ⟨?_, hst⟩
      rw [List.getElem?_eq_none (Nat.le_of_not_lt hlt)]
      rfl

theorem becomes_of_deliver {event : Replicator.Event FieldWrite} {r : Replicator FieldWrite}
    {calls : List (Call FieldWrite)} (hat : s.stores[place]? = some e) (hown : event.isOwn = true)
    (hstep : e.store.replicator.step now event = some (r, calls))
    (hq : (calls.foldl (carryOut now place)
      (s.set place { e.store with replicator := r })).storeAt? q = some st') :
    ∃ st, s.storeAt? q = some st ∧ Becomes now q st
      (calls.flatMap fun c => s.deedsOnWrite (writeOf now place e.store c)) st' := by
  have hstore := storeAt?_of_getElem? hat
  rcases calls_eq_nil_or_single hstep with rfl | ⟨c, rfl⟩
  · exact becomes_set hat (.resumed hown hstep) nofun hq
  · have hset := s.storeAt?_set place { e.store with replicator := r }
    have hplace := hset place
    rw [if_pos rfl, hstore, Option.map_some] at hplace
    rw [List.foldl_cons, List.foldl_nil, storeAt?_carryOut hplace] at hq
    obtain ⟨st₁, hst₁, rfl⟩ := Option.map_eq_some_iff.mp hq
    rw [List.flatMap_singleton, deedsOnWrite]
    rw [hset] at hst₁
    split at hst₁
    · next heq =>
      subst heq
      rw [hstore, Option.map_some] at hst₁
      cases hst₁
      refine ⟨e.store, hstore, .called hown hstep s.server.isAvailable ?_⟩
      have halike := Alike.hear_if { e.store with replicator := r }
        (HashStore.channelName e.store.lockKey) s.server.isAvailable
      rw [if_pos rfl]
      exact halike.with_replicator (afterCall now s.server.isAvailable r c)
    · next hne =>
      refine ⟨st₁, hst₁, .aside (fun d hd heq => hne ?_) ?_⟩
      · split at hd
        · rw [List.mem_singleton.mp hd] at heq
          exact (Option.some.inj heq).symm
        · cases hd
      · simp only [if_neg hne]
        exact .hear_if st₁ _ _

theorem becomes_of_act (h : s.act now a = some (deeds, s')) (hq : s'.storeAt? q = some st') :
    (s.storeAt? q = none ∧ Fresh now st' ∧ deeds = []) ∨
      ∃ st, s.storeAt? q = some st ∧ Becomes now q st deeds st' := by
  cases a with
  | start name lockKey options handlers =>
    rw [act] at h
    split at h
    · next hfresh =>
      cases h
      exact (becomes_of_start hfresh hq).imp (fun h => ⟨h.1, h.2, rfl⟩) id
    · cases h
  | setStatus place instanceName isBusy lockData =>
    obtain ⟨e, hat, heq⟩ := Option.map_eq_some_iff.mp h
    rcases hset : e.store.setStatus instanceName isBusy lockData with ⟨result, st⟩
    rw [hset] at heq
    cases result with
    | ok _ =>
      cases heq
      refine .inr (becomes_set hat (.accepted hset) (fun d hd => ?_) hq)
      rw [List.mem_singleton.mp hd]
      rfl
    | error error =>
      cases heq
      obtain rfl := HashStore.eq_of_setStatus_error hset
      exact .inr (becomes_set hat (.nothing _) nofun hq)
  | write lockKey field value channel =>
    cases h
    exact .inr (becomes_of_write rfl hq)
  | outage isAvailable =>
    cases h
    exact .inr ⟨st', hq, .nothing st'⟩
  | refuse refuses =>
    cases h
    exact .inr ⟨st', hq, .nothing st'⟩
  | breakStream place =>
    obtain ⟨e, hat, heq⟩ := Option.map_eq_some_iff.mp h
    cases heq
    exact .inr (becomes_set hat .broken (fun d => place?_of_deedsOnBreak) hq)
  | listen place wake =>
    obtain ⟨e, hat, heq⟩ := Option.bind_eq_some_iff.mp h
    split at heq
    · next hready =>
      cases heq
      rw [storeAt?_listenAt] at hq
      exact .inr (becomes_set hat (.listened hready _ _) (fun d => place?_of_deedsOnWake) hq)
    · cases heq
  | deliver place event =>
    obtain ⟨e, hat, heq⟩ := Option.bind_eq_some_iff.mp h
    split at heq
    · next hown =>
      obtain ⟨⟨r, calls⟩, hstep, heq⟩ := Option.map_eq_some_iff.mp heq
      cases heq
      exact .inr (becomes_of_deliver hat hown hstep hq)
    · cases heq
  | handle place =>
    obtain ⟨e, hat, heq⟩ := Option.bind_eq_some_iff.mp h
    obtain ⟨⟨house, run, notes⟩, -, heq⟩ := Option.map_eq_some_iff.mp heq
    cases heq
    have halike : Alike e.store { e.store with house } := ⟨rfl, rfl, rfl, rfl, .inl rfl⟩
    exact .inr (becomes_set hat (.aside nofun halike) nofun hq)
  | shutDown name =>
    cases h
    exact .inr (becomes_of_shutDown hq)
  | drop name =>
    cases h
    rw [storeAt?_drop] at hq
    exact .inr (becomes_of_shutDown hq)

/-! ### Places -/

theorem isSome_storeAt?_set (place : Nat) (st : HashStore) (h : (s.storeAt? q).isSome = true) :
    ((s.set place st).storeAt? q).isSome = true := by
  rw [storeAt?_set]
  split
  · rwa [Option.isSome_map]
  · exact h

theorem isSome_storeAt?_start {name lockKey : String} {options : ReplicatorOptions}
    {handlers : Handlers} (hfresh : s.stores.all (·.name ≠ name) = true)
    (h : (s.storeAt? q).isSome = true) :
    ((s.start now name lockKey options handlers).2.storeAt? q).isSome = true := by
  unfold storeAt? at h ⊢
  rw [Option.isSome_map] at h ⊢
  rcases (start_cases lockKey options handlers hfresh).2 with hsame | ⟨st, -, happend⟩
  · rwa [hsame]
  · obtain ⟨e, he⟩ := Option.isSome_iff_exists.mp h
    rwa [happend, List.getElem?_append_left (List.getElem?_eq_some_iff.mp he).1]

theorem isSome_storeAt?_shutDown (name : String) (h : (s.storeAt? q).isSome = true) :
    ((s.shutDown now name).storeAt? q).isSome = true := by
  unfold HashScene.shutDown
  split
  · exact isSome_storeAt?_set _ _ h
  · exact h

/-- Stores keep their places, and nothing is written down of a place without a store. -/
theorem places_of_act (h : s.act now a = some (deeds, s')) :
    (∀ q, (s.storeAt? q).isSome = true → (s'.storeAt? q).isSome = true) ∧
      ∀ d ∈ deeds, ∀ q, d.place? = some q → (s.storeAt? q).isSome = true := by
  have hown : ∀ {place : Nat} {e : HashSceneStore} {d : Deed}, s.stores[place]? = some e →
      d.place? = some place → ∀ q, d.place? = some q → (s.storeAt? q).isSome = true := by
    intro place e d hat hplace q hq
    rw [← Option.some.inj (hplace.symm.trans hq), storeAt?_of_getElem? hat]
    rfl
  cases a with
  | start name lockKey options handlers =>
    rw [act] at h
    split at h
    · next hfresh =>
      cases h
      exact ⟨fun q => isSome_storeAt?_start hfresh, nofun⟩
    · cases h
  | setStatus place instanceName isBusy lockData =>
    obtain ⟨e, hat, heq⟩ := Option.map_eq_some_iff.mp h
    split at heq
    · cases heq
      refine ⟨fun q => isSome_storeAt?_set _ _, fun d hd => hown hat ?_⟩
      rw [List.mem_singleton.mp hd]
      rfl
    · cases heq
      exact ⟨fun q => isSome_storeAt?_set _ _, nofun⟩
  | write lockKey field value channel =>
    cases h
    refine ⟨fun q hq => ?_, fun d hd q hq => ?_⟩
    · rw [storeAt?_write, Option.isSome_map]
      exact hq
    · rw [place?_of_deedsOnWrite hd] at hq
      cases hq
  | outage isAvailable =>
    cases h
    exact ⟨fun q => id, nofun⟩
  | refuse refuses =>
    cases h
    exact ⟨fun q => id, nofun⟩
  | breakStream place =>
    obtain ⟨e, hat, heq⟩ := Option.map_eq_some_iff.mp h
    cases heq
    exact ⟨fun q => isSome_storeAt?_set _ _, fun d hd => hown hat (place?_of_deedsOnBreak hd)⟩
  | listen place wake =>
    obtain ⟨e, hat, heq⟩ := Option.bind_eq_some_iff.mp h
    split at heq
    · cases heq
      refine ⟨fun q hq => ?_, fun d hd => hown hat (place?_of_deedsOnWake hd)⟩
      rw [storeAt?_listenAt]
      exact isSome_storeAt?_set _ _ hq
    · cases heq
  | deliver place event =>
    obtain ⟨e, hat, heq⟩ := Option.bind_eq_some_iff.mp h
    split at heq
    · obtain ⟨⟨r, calls⟩, hstep, heq⟩ := Option.map_eq_some_iff.mp heq
      cases heq
      refine ⟨fun q hq => ?_, fun d hd => ?_⟩
      · have hset : ∀ {q}, (s.storeAt? q).isSome = true →
            ((s.set place { e.store with replicator := r }).storeAt? q).isSome = true :=
          isSome_storeAt?_set place _
        rcases calls_eq_nil_or_single hstep with rfl | ⟨c, rfl⟩
        · exact hset hq
        · have hat' : (s.storeAt? place).isSome = true := by rw [storeAt?_of_getElem? hat]; rfl
          obtain ⟨st, hst⟩ := Option.isSome_iff_exists.mp (hset hat')
          rw [List.foldl_cons, List.foldl_nil, storeAt?_carryOut hst, Option.isSome_map]
          exact hset hq
      · obtain ⟨c, -, hd⟩ := List.mem_flatMap.mp hd
        exact hown hat (place?_of_deedsOnWrite hd)
    · cases heq
  | handle place =>
    obtain ⟨e, hat, heq⟩ := Option.bind_eq_some_iff.mp h
    obtain ⟨⟨house, run, notes⟩, -, heq⟩ := Option.map_eq_some_iff.mp heq
    cases heq
    exact ⟨fun q => isSome_storeAt?_set _ _, nofun⟩
  | shutDown name =>
    cases h
    exact ⟨fun q => isSome_storeAt?_shutDown name, nofun⟩
  | drop name =>
    cases h
    refine ⟨fun q hq => ?_, nofun⟩
    rw [storeAt?_drop]
    exact isSome_storeAt?_shutDown name hq

/-! ### Carrying out what can be done -/

theorem isOwn_of_mem_candidates {r : Replicator FieldWrite} {event : Replicator.Event FieldWrite}
    (h : event ∈ r.candidates) : event.isOwn = true := by
  simp only [Replicator.candidates, List.mem_append, List.mem_cons, List.mem_map] at h
  rcases h with (((rfl | rfl | h) | ⟨_, _, rfl⟩) | ⟨_, _, rfl⟩) | (rfl | rfl | h)
  all_goals first | rfl | cases h

theorem act_listen (hat : s.stores[place]? = some e) {wake : HashStore.Wake}
    (hready : e.store.isReady now wake = true) : s.act now (.listen place wake) =
      some (e.store.deedsOnWake place now s.accepts wake, s.listenAt now place e.store wake) := by
  rw [act, hat, Option.bind_some, if_pos hready]

theorem act_deliver (hat : s.stores[place]? = some e) {event : Replicator.Event FieldWrite}
    {r : Replicator FieldWrite} {calls : List (Call FieldWrite)} (hown : event.isOwn = true)
    (hstep : e.store.replicator.step now event = some (r, calls)) :
    s.act now (.deliver place event) =
      some (calls.flatMap fun c => s.deedsOnWrite (writeOf now place e.store c),
        calls.foldl (carryOut now place) (s.set place { e.store with replicator := r })) := by
  rw [act, hat, Option.bind_some, if_pos hown, hstep, Option.map_some]

theorem act_handle (hat : s.stores[place]? = some e) {house : Gatehouse} {run : HandlerRun}
    {notes : List HandlerNote} (hrun : e.store.house.runNext = some (house, run, notes)) :
    s.act now (.handle place) = some ([], s.set place { e.store with house }) := by
  rw [act, hat, Option.bind_some, hrun, Option.map_some]

/-- Whatever the tasks of the stores do next is an act. -/
theorem exists_act_of_work {seen : Seen} (h : s.work now = some (s', seen)) :
    ∃ a deeds, s.act now a = some (deeds, s') := by
  rcases work_cases h with hdeliver | hlisten | hhandle
  · obtain ⟨place, e, event, r, calls, hat, hevent, hstep, rfl⟩ := exists_of_deliver hdeliver
    exact ⟨_, _, act_deliver hat (isOwn_of_mem_candidates hevent) hstep⟩
  · obtain ⟨place, e, wake, hat, hwake, rfl⟩ := exists_of_listen hlisten
    exact ⟨_, _, act_listen hat (HashStore.isReady_of_wake? hwake)⟩
  · obtain ⟨place, e, house, run, notes, hat, hrun, rfl⟩ := exists_of_handle hhandle
    exact ⟨_, _, act_handle hat hrun⟩

theorem Log.work (h : Log punctual now log s) {seen : Seen}
    (hwork : s.work now = some (s', seen)) : ∃ deeds, Log punctual now (deeds ++ log) s' :=
  have ⟨_, deeds, hact⟩ := exists_act_of_work hwork
  ⟨deeds, h.act hact⟩

/-! ### Replaying -/

/-- Carries out acts in turn, each at its instant, and writes down what there is to write down. -/
def replay (now : Int) (log : List Deed) (s : HashScene) :
    List (Int × HashAct) → Option (List Deed × HashScene)
  | [] => some (log, s)
  | (later, a) :: rest =>
    if now ≤ later then
      (s.act later a).bind fun (deeds, s') => s'.replay later (deeds ++ log) rest
    else
      none

theorem Log.replay {acts : List (Int × HashAct)} {log' : List Deed} (h : Log false now log s)
    (hreplay : s.replay now log acts = some (log', s')) :
    ∃ later, Log false later log' s' := by
  induction acts generalizing now log s with
  | nil =>
    cases hreplay
    exact ⟨now, h⟩
  | cons first rest ih =>
    obtain ⟨later, a⟩ := first
    rw [HashScene.replay] at hreplay
    split at hreplay
    · next hle =>
      obtain ⟨⟨deeds, s₁⟩, hact, hrest⟩ := Option.bind_eq_some_iff.mp hreplay
      exact ih ((h.wait hle nofun).act hact) hrest
    · cases hreplay

/-- A property of a replay that can be evaluated holds of a log. -/
theorem exists_log_of_replay (acts : List (Int × HashAct)) (p : List Deed → HashScene → Bool)
    (h : (HashScene.empty.replay 0 [] acts).any (fun x => p x.1 x.2) = true) :
    ∃ now log s, Log false now log s ∧ p log s = true := by
  cases hreplay : HashScene.empty.replay 0 [] acts with
  | none =>
    rw [hreplay] at h
    cases h
  | some out =>
    rw [hreplay] at h
    obtain ⟨later, hlog⟩ := (Log.empty 0).replay hreplay
    exact ⟨later, out.1, out.2, hlog, h⟩

end HashScene

end Floodgate
