import Profiler.Proofs.Registry.Slots
import Profiler.Proofs.Session.Loops
import Profiler.Session.Run

/-!
# What a session does with the slots of its registries

`Session.deeds` reads off what a step of a session does with the slots of its registries, from what
the threads are answered, and `Session.slotHistory` tells what all steps have done. A step is about
the slots of the thread that takes it (`Session.thread_of_mem_deeds`). Timers and samplers do not
speak of slots: an event is about one (`Event.isOfSlot`) only if a registry is.
-/

namespace Profiler

open SlotDeed SlotHistory

/-! ### Events about slots -/

/-- Whether an event is about a slot. -/
def Event.isOfSlot : Event → Bool
  | timerCreated _ | timerRemoved => true
  | _ => false

/-- What is said of a deed in the slot of a thread that has a name. What is given up when a thread
ends goes unsaid. -/
def SlotDeed.announced (name : String) : SlotDeed → List Event
  | created _ => [.timerCreated name]
  | removed (some _) => [.timerRemoved]
  | _ => []

namespace Timer

variable (timer : Timer) (name : String) (clock : Clock)

theorem filter_tryExit : (timer.tryExit name clock).events.filter Event.isOfSlot = [] := by
  unfold tryExit
  split
  · dsimp only
    cases (timer.nestedIn name).isEmpty <;> split <;> rfl
  · rfl

theorem filter_exit : (timer.exit name clock).1.filter Event.isOfSlot = [] := by
  have htry := timer.filter_tryExit name clock
  unfold exit
  dsimp only
  split
  · exact htry
  · next fault _ =>
    rw [List.filter_append, htry]
    cases fault <;> rfl

theorem filter_tryChange : (timer.tryChange name clock).events.filter Event.isOfSlot = [] := by
  unfold tryChange
  split <;> rfl

theorem filter_change : (timer.change name clock).1.filter Event.isOfSlot = [] := by
  have htry := timer.filter_tryChange name clock
  unfold change
  dsimp only
  split
  · exact htry
  · rw [List.filter_append, htry]
    rfl

end Timer

namespace Instrument

theorem filter_exit (instrument : Instrument) (name : String) (clock : Clock) :
    (instrument.exit name clock).1.filter Event.isOfSlot = [] := by
  cases instrument with
  | live timer => exact timer.filter_exit name clock
  | inert => rfl

/-- Instruments do not speak of slots. -/
theorem filter_serve (instrument : Instrument) (clock : Clock) (request : Request) :
    (instrument.serve clock request).2.1.filter Event.isOfSlot = [] := by
  cases request with
  | exit name => exact instrument.filter_exit name clock
  | change name =>
    cases instrument with
    | live timer => exact timer.filter_change name clock
    | inert => rfl
  | tryExit name =>
    cases instrument with
    | live timer => exact timer.filter_tryExit name clock
    | inert => rfl
  | tryChange name =>
    cases instrument with
    | live timer => exact timer.filter_tryChange name clock
    | inert => rfl
  | enter _ | add _ _ | region _ | view _ => rfl

end Instrument

namespace Sampler

variable (sampler : Sampler)

theorem filter_start (clock : Clock) (top? : Option CallSite) :
    (sampler.start clock top?).1.filter Event.isOfSlot = [] := by
  unfold start
  split
  · split <;> rfl
  · rfl

theorem filter_stop (clock : Clock) : (sampler.stop clock).1.filter Event.isOfSlot = [] := by
  unfold stop
  split <;> rfl

theorem filter_dump : sampler.dump.2.filter Event.isOfSlot = [] := by
  unfold dump
  split <;> rfl

end Sampler

namespace Session

/-! ### What is done with slots -/

/-- What is in a slot. -/
def inSlot (session : Session) (slot : Slot) : Option InstrumentId :=
  (session.registry slot.registry).slots.get? slot.thread

/-- What it comes to that a thread wants the handle of a source: the timer that a registry has for
it is created if there was no such timer before. -/
def asked (session : Session) (source : Source) (thread : ThreadId) : SlotHistory :=
  match source, (session.resolve source thread).1 with
  | .perThread registry, .shared id =>
    [(⟨registry, thread⟩, if id < session.pool.instruments.size then .handed id else .created id)]
  | _, _ => []

/-- The handle that a timed call wants. -/
def TimedCall.asked (thread : ThreadId) (call : TimedCall) : SlotHistory :=
  call.session.asked call.channel.source thread

/-- The handles that `readLoop` wants. -/
def readAsked (thread : ThreadId) : Nat → Session → Channel → Nat → SlotHistory
  | _, _, _, 0 => []
  | 0, _, _, _ + 1 => []
  | fuel + 1, session, channel, wanted + 1 =>
    let called := session.timed channel thread (Device.read (wanted + 1))
    session.asked channel.source thread ++
      match called.call with
      | .done [] => []
      | .done (_ :: more) =>
        readAsked thread fuel called.session called.channel (wanted - more.length)
      | .failed failure =>
        if failure.kind = .interrupted then
          readAsked thread fuel called.session called.channel (wanted + 1)
        else []
      | .crashed _ => []

/-- The handles that `writeLoop` wants. -/
def writeAsked (thread : ThreadId) : Nat → Session → Channel → List UInt8 → SlotHistory
  | _, _, _, [] => []
  | 0, _, _, _ :: _ => []
  | fuel + 1, session, channel, byte :: rest =>
    let called := session.timed channel thread (Device.write (byte :: rest))
    session.asked channel.source thread ++
      match called.call with
      | .done 0 => []
      | .done (taken + 1) => writeAsked thread fuel called.session called.channel (rest.drop taken)
      | .failed failure =>
        if failure.kind = .interrupted then
          writeAsked thread fuel called.session called.channel (byte :: rest)
        else []
      | .crashed _ => []

/-- What is done with slots by an action that concerns channels. Each timed call wants a handle. -/
def channelDeeds (session : Session) (thread : ThreadId) (action : ChannelAction) : SlotHistory :=
  let through (key : String) (deeds : Channel → SlotHistory) :=
    ((session.channels.get? key).map deeds).getD []
  match action with
  | .read key _ | .write key _ | .flush key =>
    through key fun channel => session.asked channel.source thread
  | .readExact key n => through key fun channel =>
    readAsked thread (channel.device.script.length + 1) session channel n
  | .writeExact key bytes => through key fun channel =>
    writeAsked thread (channel.device.script.length + 1) session channel bytes
  | _ => []

/-- What is done with the slot of a thread in the registry under a key, if it is enabled. -/
def slotDeeds (session : Session) (key : String) (thread : ThreadId)
    (deed : RegistryId → SlotDeed) : SlotHistory :=
  match session.registryIds.get? key with
  | none => []
  | some id => if (session.registry id).enabled then [(⟨id, thread⟩, deed id)] else []

/-- What is done with slots by an action that concerns registries. -/
def handleDeeds (session : Session) (thread : ThreadId) : HandleAction → SlotHistory
  | .acquire _ key =>
    ((session.registryIds.get? key).map fun id => session.asked (.perThread id) thread).getD []
  | .install key config? _ => session.slotDeeds key thread fun id =>
    let instrument := Instrument.ofConfig config? session.clock
    .installed (session.pool.share instrument).1
      ((session.registry id).install session.pool thread instrument).1
  | .remove key _ => session.slotDeeds key thread fun id =>
    .removed ((session.registry id).remove thread).1
  | _ => []

/-- What is done with slots when the thread under a key ends. -/
def joinDeeds (session : Session) (key : String) : SlotHistory :=
  match session.threadIds.get? key with
  | none => []
  | some id =>
    if (session.registry globalId).enabled then
      [(⟨globalId, id⟩, .forgotten ((session.registry globalId).remove id).1)]
    else []

/-- What a step does with slots. -/
def deeds (session : Session) (step : Step) : SlotHistory :=
  match step.action with
  | .thread (.join key) => session.joinDeeds key
  | .handle action => session.handleDeeds (session.threadId step.thread) action
  | .channel action => session.channelDeeds (session.threadId step.thread) action
  | _ => []

/-- What steps that are taken one after the other do with slots. -/
def slotHistory (session : Session) : List Step → SlotHistory
  | [] => []
  | step :: rest => session.deeds step ++ (session.step step).2.slotHistory rest

/-! ### Whose slots a step is about -/

theorem thread_of_mem_asked {session : Session} {source : Source} {thread : ThreadId}
    {entry : Slot × SlotDeed} (h : entry ∈ session.asked source thread) :
    entry.1.thread = thread := by
  unfold asked at h
  split at h
  · rw [List.mem_singleton.mp h]
  · cases h

theorem readAsked_eq (thread : ThreadId) (fuel : Nat) (session : Session) (channel : Channel)
    (wanted : Nat) : readAsked thread fuel session channel wanted =
      (readCalls thread fuel session channel wanted).flatMap (·.asked thread) := by
  induction fuel generalizing session channel wanted with
  | zero => cases wanted <;> rfl
  | succ fuel ih =>
    cases wanted with
    | zero => rfl
    | succ wanted =>
      unfold readAsked readCalls
      rw [List.flatMap_cons]
      refine congrArg (session.asked channel.source thread ++ ·) ?_
      cases (session.timed channel thread (Device.read (wanted + 1))).call with
      | done bytes =>
        cases bytes with
        | nil => rfl
        | cons byte more => exact ih _ _ _
      | failed failure =>
        dsimp only
        split
        · exact ih _ _ _
        · rfl
      | crashed message => rfl

theorem writeAsked_eq (thread : ThreadId) (fuel : Nat) (session : Session) (channel : Channel)
    (bytes : List UInt8) : writeAsked thread fuel session channel bytes =
      (writeCalls thread fuel session channel bytes).flatMap (·.asked thread) := by
  induction fuel generalizing session channel bytes with
  | zero => cases bytes <;> rfl
  | succ fuel ih =>
    cases bytes with
    | nil => rfl
    | cons byte rest =>
      unfold writeAsked writeCalls
      rw [List.flatMap_cons]
      refine congrArg (session.asked channel.source thread ++ ·) ?_
      cases (session.timed channel thread (Device.write (byte :: rest))).call with
      | done taken =>
        cases taken with
        | zero => rfl
        | succ taken => exact ih _ _ _
      | failed failure =>
        dsimp only
        split
        · exact ih _ _ _
        · rfl
      | crashed message => rfl

/-- Calls want handles of the thread that makes them. -/
theorem thread_of_mem_flatMap_asked {thread : ThreadId} {calls : List TimedCall}
    {entry : Slot × SlotDeed} (h : entry ∈ calls.flatMap (·.asked thread)) :
    entry.1.thread = thread := by
  obtain ⟨call, -, hasked⟩ := List.mem_flatMap.mp h
  exact thread_of_mem_asked hasked

theorem exists_of_mem_getD {α : Type} {found : Option α} {deeds : α → SlotHistory}
    {entry : Slot × SlotDeed} (h : entry ∈ (found.map deeds).getD []) :
    ∃ a, entry ∈ deeds a := by
  cases found with
  | none => cases h
  | some a => exact ⟨a, h⟩

theorem thread_of_mem_slotDeeds {session : Session} {key : String} {thread : ThreadId}
    {deed : RegistryId → SlotDeed} {entry : Slot × SlotDeed}
    (h : entry ∈ session.slotDeeds key thread deed) : entry.1.thread = thread := by
  unfold slotDeeds at h
  split at h
  · cases h
  · split_ifs at h
    · rw [List.mem_singleton.mp h]
    · cases h

/-- A step is about the slots of its own thread only, unless a thread ends by it. -/
theorem thread_of_mem_deeds {session : Session} {step : Step}
    (hstays : ∀ key, step.action ≠ .thread (.join key)) {entry : Slot × SlotDeed}
    (h : entry ∈ session.deeds step) : entry.1.thread = session.threadId step.thread := by
  obtain ⟨thread, action⟩ := step
  match action with
  | .thread action =>
    cases action with
    | spawn _ _ => cases h
    | join key => exact absurd rfl (hstays key)
  | .handle action =>
    cases action with
    | acquire key registryKey =>
      obtain ⟨_, hasked⟩ := exists_of_mem_getD h
      exact thread_of_mem_asked hasked
    | install _ _ _ | remove _ _ => exact thread_of_mem_slotDeeds h
    | openRegistry _ _ | describe _ | inert _ | copy _ _ | create _ _ | same _ _ | span _ _ _
    | endSpan _ => cases h
  | .channel action =>
    cases action with
    | read _ _ | write _ _ | flush _ =>
      obtain ⟨_, hasked⟩ := exists_of_mem_getD h
      exact thread_of_mem_asked hasked
    | readExact _ _ =>
      obtain ⟨_, hasked⟩ := exists_of_mem_getD h
      rw [readAsked_eq] at hasked
      exact thread_of_mem_flatMap_asked hasked
    | writeExact _ _ =>
      obtain ⟨_, hasked⟩ := exists_of_mem_getD h
      rw [writeAsked_eq] at hasked
      exact thread_of_mem_flatMap_asked hasked
    | create _ _ _ _ | readInner _ _ | writeInner _ _ | left _ | received _ | close _ => cases h
  | .clock _ | .recall _ | .request _ _ | .stack _ | .sampler _ => cases h

end Session

end Profiler
