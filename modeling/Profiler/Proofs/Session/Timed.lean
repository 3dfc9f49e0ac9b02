import Profiler.Proofs.Session.Orders
import Profiler.Proofs.Timer.Visits

/-!
# Timed calls of devices are transparent and accounted for

A `Session.Call` is one call of a channel's device by some thread, and the device may do whatever it
likes with itself and the clock. Made in the timed way or directly, calls come to the same
(`Session.timed_calls`); what a timed call does besides is a visit of the channel's region on the
timer that the channel's source has for the thread at that moment (`Session.Accounts`), and nothing
else.
-/

namespace Profiler

/-! ### Handles -/

/-- Setting an entry to what it is changes nothing, and nothing is set out of bounds. -/
theorem setIfInBounds_getD {α : Type} (entries : Array α) (id : Nat) (fallback : α) :
    entries.setIfInBounds id (entries.getD id fallback) = entries := by
  refine Array.ext (by simp) fun other _ hother => ?_
  rw [Array.getElem_setIfInBounds]
  split_ifs with hid
  · subst hid
    simp [Array.getD_eq_getD_getElem?, hother]
  · rfl

namespace Handle

theorem replace_replace (handle : Handle) (pool : Pool) (first second : Instrument) :
    handle.replace (handle.replace pool first) second = handle.replace pool second := by
  cases handle with
  | shared id => simp [replace, Pool.set]
  | inert => rfl

/-- Replacing an inert instrument by an inert one changes nothing. -/
theorem replace_inert {handle : Handle} {pool : Pool} (h : handle.instrument pool = .inert) :
    handle.replace pool .inert = pool := by
  rw [← h]
  cases handle with
  | shared id => exact congrArg Pool.mk (setIfInBounds_getD _ _ _)
  | inert => rfl

theorem instrument_replace {handle : Handle} {pool : Pool} {timer : Timer}
    (h : handle.instrument pool = .live timer) (instrument : Instrument) :
    handle.instrument (handle.replace pool instrument) = instrument := by
  cases handle with
  | shared id => exact Pool.get_set_self _ _ (Pool.lt_of_get_live h)
  | inert => cases h

end Handle

/-- The instrument after a visit of a child of its current region. An inert one ignores it. -/
inductive Instrument.Visited (name : String) (entry leave : Clock) : Instrument → Instrument → Prop
  | live {timer later : Timer} (h : timer.Visited later name entry leave) :
    Visited name entry leave (.live timer) (.live later)
  | inert : Visited name entry leave .inert .inert

/-- The open regions of a timer, if there is one, the innermost first. -/
def Instrument.openPath? : Instrument → Option (List Nat)
  | live timer => some timer.openPath
  | inert => none

namespace Session

/-! ### Calls -/

/-- A call of the device of a channel, and how its end is answered. -/
structure Call where
  {α : Type}
  thread : String
  key : String
  operation : Operation α
  answer : CallResult α → Answer

/-- Makes a call inside a span of the channel's region. -/
def perform (session : Session) (call : Call) : Reply × Session :=
  session.callStep call.key call.answer fun channel =>
    session.timed channel (session.threadId call.thread) call.operation

/-- Makes a call of the device itself. -/
def performInner (session : Session) (call : Call) : Reply × Session :=
  session.callStep call.key call.answer fun channel => session.untimed channel call.operation

/-- The steps that use a device once are such calls: timed ones, and two of the device itself. -/
theorem step_channel (session : Session) (thread key : String) (n : Nat) (bytes : List UInt8) :
    let reads : Call := ⟨thread, key, Device.read n, .read⟩
    let writes : Call := ⟨thread, key, Device.write bytes, .wrote⟩
    session.step ⟨thread, .channel (.read key n)⟩ = session.perform reads ∧
      session.step ⟨thread, .channel (.write key bytes)⟩ = session.perform writes ∧
      session.step ⟨thread, .channel (.flush key)⟩ =
        session.perform ⟨thread, key, Device.flush, .completed⟩ ∧
      session.step ⟨thread, .channel (.readInner key n)⟩ = session.performInner reads ∧
      session.step ⟨thread, .channel (.writeInner key bytes)⟩ = session.performInner writes :=
  ⟨rfl, rfl, rfl, rfl, rfl⟩

/-- Makes calls one after the other. -/
def makeAll (make : Session → Call → Reply × Session) (session : Session) :
    List Call → List Reply × Session
  | [] => ([], session)
  | call :: rest =>
    let (reply, after) := make session call
    let (replies, last) := makeAll make after rest
    (reply :: replies, last)

/-! ### Resolving a source -/

/-- The handle that a source has for a thread at this moment, what is said of it, and the session
then. Only a registry that is enabled and has no instrument for the thread does anything: it gets a
new timer that is named after the thread. -/
inductive Resolves (session : Session) (thread : ThreadId) :
    Source → Handle → List Event → Session → Prop
  | pinned (handle : Handle) : Resolves session thread (.pinned handle) handle [] session
  | disabled {id : RegistryId} (h : (session.registry id).enabled = false) :
    Resolves session thread (.perThread id) .inert [] session
  | known {id : RegistryId} {instrument : InstrumentId} (h : (session.registry id).enabled = true)
    (hslot : (session.registry id).slots.get? thread = some instrument) :
    Resolves session thread (.perThread id) (.shared instrument) [] session
  | created {id : RegistryId} (h : (session.registry id).enabled = true)
    (hslot : (session.registry id).slots.get? thread = none) :
    Resolves session thread (.perThread id) (.shared session.pool.instruments.size)
      [.timerCreated (session.thread thread).name]
      { session with
        pool := ⟨session.pool.instruments.push
          (.live (Timer.ofConfig { name := (session.thread thread).name } session.clock))⟩
        registries := session.registries.setIfInBounds id { session.registry id with
          slots := (session.registry id).slots.insert thread session.pool.instruments.size } }

theorem Resolves.channels_eq {session resolved : Session} {thread : ThreadId} {source : Source}
    {handle : Handle} {created : List Event}
    (h : session.Resolves thread source handle created resolved) :
    resolved.channels = session.channels := by
  cases h <;> rfl

theorem setRegistry_self (session : Session) (id : RegistryId) :
    session.setRegistry id (session.registry id) = session := by
  rw [setRegistry, registry, setIfInBounds_getD]

theorem resolves_resolve (session : Session) (source : Source) (thread : ThreadId) :
    session.Resolves thread source (session.resolve source thread).1
      (session.resolve source thread).2.1 (session.resolve source thread).2.2 := by
  cases source with
  | pinned handle => exact .pinned handle
  | perThread id =>
    rw [resolve, handleFor]
    cases henabled : (session.registry id).enabled with
    | false =>
      have hfor : (session.registry id).handleFor session.pool thread (session.thread thread).name
          session.clock = (.inert, [], session.registry id, session.pool) := by
        rw [Registry.handleFor, henabled]
        rfl
      rw [hfor]
      dsimp only
      rw [setRegistry_self]
      exact .disabled henabled
    | true =>
      cases hslot : (session.registry id).slots.get? thread with
      | some instrument =>
        have hfor : (session.registry id).handleFor session.pool thread (session.thread thread).name
            session.clock = (.shared instrument, [], session.registry id, session.pool) := by
          rw [Registry.handleFor, henabled, if_pos rfl, hslot]
        rw [hfor]
        dsimp only
        rw [setRegistry_self]
        exact .known henabled hslot
      | none =>
        rw [Registry.handleFor, if_pos henabled, hslot]
        exact .created henabled hslot

/-! ### The account of a call -/

/-- All that a call does. Without a channel nothing happens. With one, the call comes to what it is
of the device itself, and the timer that the channel's source has for the thread at this moment is
visited, from the clock before the call to the clock after it. -/
structure Accounts (session : Session) (call : Call) : Prop where
  missing : session.channels.get? call.key = none →
    session.perform call = ({ answer := .missing }, session)
  timed : ∀ channel, session.channels.get? call.key = some channel →
    let (result, device, clock) := call.operation channel.device session.clock
    ∃ handle created resolved after,
      session.Resolves (session.threadId call.thread) channel.source handle created resolved ∧
      Instrument.Visited channel.region session.clock clock (resolved.instrument handle) after ∧
      session.perform call = ({ answer := call.answer result, events := created },
        { resolved with
          clock
          pool := handle.replace resolved.pool after
          channels := resolved.channels.insert call.key { channel with device } })

/-- Resolving keeps timers well formed and does not take time. -/
theorem WellFormed.resolve {session : Session} (wf : session.WellFormed) (source : Source)
    (thread : ThreadId) : (session.resolve source thread).2.2.WellFormed ∧
      (session.resolve source thread).2.2.clock = session.clock :=
  ⟨fun id => (session.serves_resolve id source thread).1.wellFormed_of (wf id),
    (session.serves_resolve 0 source thread).2⟩

theorem WellFormed.instrument {session : Session} (wf : session.WellFormed) {handle : Handle}
    {timer : Timer} (h : session.instrument handle = .live timer) : timer.WellFormed := by
  cases handle with
  | shared id =>
    have hget : session.pool.get id = .live timer := h
    have hwf := wf id
    rwa [hget] at hwf
  | inert => cases h

/-- Entering and exiting a region by way of a handle is a visit, and silent. -/
theorem exists_visited {session : Session} (wf : session.WellFormed) (handle : Handle)
    (region : String) (leave : Clock) :
    ∃ after, Instrument.Visited region session.clock leave (session.instrument handle) after ∧
      { session.enter handle region with clock := leave }.exit handle region =
        ([], { session with clock := leave, pool := handle.replace session.pool after }) := by
  cases hinstrument : session.instrument handle with
  | inert =>
    have henter : session.enter handle region = session := by
      rw [enter, hinstrument]
      exact congrArg (fun pool => { session with pool }) (Handle.replace_inert hinstrument)
    have hleft : { session with clock := leave }.instrument handle = .inert := hinstrument
    refine ⟨.inert, .inert, ?_⟩
    rw [henter, exit, hleft]
    rfl
  | live timer =>
    have wf' : timer.WellFormed := wf.instrument hinstrument
    obtain ⟨hsilent, hvisited⟩ := Timer.visited_exit wf' region session.clock leave
    refine ⟨_, .live hvisited, ?_⟩
    have hentered : { session.enter handle region with clock := leave }.instrument handle =
        .live (timer.enter region session.clock) := by
      rw [enter, hinstrument]
      exact Handle.instrument_replace hinstrument _
    rw [exit, hentered]
    dsimp only [Instrument.exit]
    rw [hsilent, replaceInstrument, enter, replaceInstrument]
    dsimp only
    rw [Handle.replace_replace]

/-- A timed call is the call of the device and a visit of the region. -/
theorem timed_eq {session : Session} (wf : session.WellFormed) (channel : Channel)
    (thread : ThreadId) {α : Type} (operation : Operation α) :
    let (result, device, clock) := operation channel.device session.clock
    let (handle, created, resolved) := session.resolve channel.source thread
    ∃ after, Instrument.Visited channel.region session.clock clock (resolved.instrument handle) after ∧
      session.timed channel thread operation = ⟨result, created, { channel with device },
        { resolved with clock, pool := handle.replace resolved.pool after }⟩ := by
  obtain ⟨wf', hclock⟩ := wf.resolve channel.source thread
  unfold timed
  dsimp only
  set handle := (session.resolve channel.source thread).1
  set resolved := (session.resolve channel.source thread).2.2
  have hclock' : (resolved.enter handle channel.region).clock = session.clock := hclock
  obtain ⟨after, hvisited, hexit⟩ := exists_visited wf' handle channel.region
    (operation channel.device session.clock).2.2
  rw [hclock] at hvisited
  refine ⟨after, hvisited, ?_⟩
  unfold untimed
  dsimp only
  rw [hclock', hexit, List.append_nil]

theorem accounts {session : Session} (wf : session.WellFormed) (call : Call) :
    session.Accounts call where
  missing h := by rw [perform, callStep, h]
  timed channel h := by
    obtain ⟨after, hvisited, htimed⟩ :=
      timed_eq wf channel (session.threadId call.thread) call.operation
    refine ⟨_, _, _, after, session.resolves_resolve channel.source _, hvisited, ?_⟩
    rw [perform, callStep, h]
    dsimp only
    rw [htimed]
    rfl

/-! ### Sequences of calls -/

/-- The orders of a call are all that it does to an instrument. -/
theorem serves_perform (target : InstrumentId) (session : Session) (call : Call) :
    Serves target session (session.perform call).2
      (((session.channels.get? call.key).map fun channel =>
        session.callOrders target channel (session.threadId call.thread) call.operation).getD [])
      none :=
  session.serves_callStep target call.key call.answer _ _ fun channel =>
    session.serves_timed target channel (session.threadId call.thread) call.operation

theorem wellFormed_perform {session : Session} (wf : session.WellFormed) (call : Call) :
    (session.perform call).2.WellFormed :=
  fun id => (serves_perform id session call).wellFormed_of (wf id)

theorem wellFormed_performAll {session : Session} (wf : session.WellFormed) (calls : List Call) :
    (makeAll perform session calls).2.WellFormed := by
  induction calls generalizing session with
  | nil => exact wf
  | cons call calls ih => exact ih (wellFormed_perform wf call)

/-- **A call leaves every timer where it was.** -/
theorem openPath?_perform {session : Session} (wf : session.WellFormed) (call : Call)
    {id : InstrumentId} (h : id < session.pool.instruments.size) :
    ((session.perform call).2.pool.get id).openPath? = (session.pool.get id).openPath? := by
  rw [(serves_perform id session call).get_eq h]
  cases session.channels.get? call.key with
  | none => rw [Option.map_none, Option.getD_none, Instrument.after_nil]
  | some channel =>
    rw [Option.map_some, Option.getD_some, callOrders, via]
    split_ifs
    · have hwf := wf id
      cases hget : session.pool.get id with
      | inert => rfl
      | live timer =>
        rw [hget] at hwf
        obtain ⟨-, hvisited⟩ := Timer.visited_exit hwf channel.region session.clock
          (call.operation channel.device session.clock).2.2
        show some (timer.after _).openPath = some timer.openPath
        rw [← hvisited.eq_after, hvisited.openPath_eq]
    · rw [Instrument.after_nil]

theorem openPath?_performAll {session : Session} (wf : session.WellFormed) (calls : List Call)
    {id : InstrumentId} (h : id < session.pool.instruments.size) :
    ((makeAll perform session calls).2.pool.get id).openPath? =
      (session.pool.get id).openPath? := by
  induction calls generalizing session with
  | nil => rfl
  | cons call calls ih =>
    have hsize := (serves_perform id session call).size_le
    exact (ih (wellFormed_perform wf call) (lt_of_lt_of_le h hsize)).trans (openPath?_perform wf call h)

/-- A call comes to the same in the timed way and directly, if the channels and the clock are the
same. -/
theorem perform_eq_performInner {session other : Session} (wf : session.WellFormed)
    (hchannels : session.channels = other.channels) (hclock : session.clock = other.clock)
    (call : Call) :
    (session.perform call).1.answer = (other.performInner call).1.answer ∧
      (session.perform call).2.channels = (other.performInner call).2.channels ∧
      (session.perform call).2.clock = (other.performInner call).2.clock := by
  obtain ⟨hmissing, htimed⟩ := accounts wf call
  cases hchannel : session.channels.get? call.key with
  | none =>
    rw [hmissing hchannel, performInner, callStep, ← hchannels, hchannel]
    exact ⟨rfl, hchannels, hclock⟩
  | some channel =>
    obtain ⟨handle, created, resolved, after, hresolves, -, hperform⟩ := htimed channel hchannel
    have hresolved := hresolves.channels_eq
    rw [hperform, performInner, callStep, ← hchannels, hchannel]
    dsimp only
    rw [untimed, hresolved, hclock, setChannel]
    exact ⟨rfl, congrArg (Keyed.insert · call.key _) hchannels, rfl⟩

theorem performAll_eq_performInner {session other : Session} (wf : session.WellFormed)
    (hchannels : session.channels = other.channels) (hclock : session.clock = other.clock)
    (calls : List Call) :
    (makeAll perform session calls).1.map Reply.answer =
        (makeAll performInner other calls).1.map Reply.answer ∧
      (makeAll perform session calls).2.channels = (makeAll performInner other calls).2.channels ∧
      (makeAll perform session calls).2.clock = (makeAll performInner other calls).2.clock := by
  induction calls generalizing session other with
  | nil => exact ⟨rfl, hchannels, hclock⟩
  | cons call calls ih =>
    obtain ⟨hanswer, hchannels', hclock'⟩ := perform_eq_performInner wf hchannels hclock call
    obtain ⟨hanswers, hrest⟩ := ih (wellFormed_perform wf call) hchannels' hclock'
    exact ⟨congrArg₂ List.cons hanswer hanswers, hrest⟩

theorem makeAll_append (make : Session → Call → Reply × Session) (session : Session)
    (before rest : List Call) : (makeAll make session (before ++ rest)).2 =
      (makeAll make (makeAll make session before).2 rest).2 := by
  induction before generalizing session with
  | nil => rfl
  | cons call before ih => exact ih (make session call).2

/-- **Timed calls are transparent and accounted for**, in any session, by any threads on any
channels, whatever the devices do. All calls are answered as those of the devices themselves, which
end in the same state at the same time. Each call, at its place in the sequence, does what its
account says and nothing else, and every timer there is by then is at the end of the sequence in the
region in which it was before the call. -/
theorem timed_calls (steps : List Step) (before : List Call) (call : Call) (rest : List Call) :
    let session := start.after steps
    let calls := before ++ call :: rest
    let (replies, last) := makeAll perform session calls
    let (inner, lastInner) := makeAll performInner session calls
    let now := (makeAll perform session before).2
    (replies.map Reply.answer = inner.map Reply.answer ∧
        last.channels = lastInner.channels ∧ last.clock = lastInner.clock) ∧
      now.Accounts call ∧
      ∀ id : Fin now.pool.instruments.size,
        (last.pool.get id).openPath? = (now.pool.get id).openPath? := by
  have wf := wellFormed_after_start steps
  have wf' := wellFormed_performAll wf before
  refine ⟨performAll_eq_performInner wf rfl rfl _, accounts wf' call, fun id => ?_⟩
  rw [makeAll_append]
  exact openPath?_performAll wf' (call :: rest) id.isLt

end Session

end Profiler
