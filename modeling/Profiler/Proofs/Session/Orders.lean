import Profiler.Proofs.Session.Loops
import Profiler.Proofs.Timer.Orders
import Profiler.Session.Run

/-!
# What a session does to one of its instruments

Whatever the steps of a session, an instrument in the pool only ever gets orders. `Session.orders`
lists those that a step gives to one instrument, each with the clock at its time: requests and spans
give one order, the end of a span an exit, and every timed call of a device an entry and an exit.
`Session.serves_step` says that these are all that happens to the instrument.
-/

namespace Profiler

/-- The instrument after orders. An inert one follows none. -/
def Instrument.after (instrument : Instrument) (orders : List (Clock × Order)) : Instrument :=
  match instrument with
  | live timer => live (timer.after orders)
  | inert => inert

theorem Instrument.after_append (instrument : Instrument) (orders rest : List (Clock × Order)) :
    instrument.after (orders ++ rest) = (instrument.after orders).after rest := by
  cases instrument with
  | live timer => exact congrArg live (timer.after_append orders rest)
  | inert => rfl

@[simp] theorem Instrument.after_nil (instrument : Instrument) : instrument.after [] = instrument := by
  cases instrument <;> rfl

/-- The invariant of the timer, if there is one. -/
def Instrument.WellFormed : Instrument → Prop
  | live timer => timer.WellFormed
  | inert => True

theorem Instrument.wellFormed_ofConfig (config? : Option Config) (clock : Clock) :
    (ofConfig config? clock).WellFormed := by
  cases config? with
  | none => trivial
  | some config => exact Timer.wellFormed_ofConfig config clock

theorem Instrument.WellFormed.after {instrument : Instrument} (wf : instrument.WellFormed)
    (orders : List (Clock × Order)) : (instrument.after orders).WellFormed := by
  cases instrument with
  | live timer => exact (Timer.after_keeps wf orders).1
  | inert => trivial

namespace Session

/-! ### The orders of a step -/

/-- Orders by way of a handle, as far as they reach the target. -/
def via (target : InstrumentId) (handle : Handle) (orders : List (Clock × Order)) :
    List (Clock × Order) :=
  if handle = .shared target then orders else []

theorem via_append (target : InstrumentId) (handle : Handle) (orders rest : List (Clock × Order)) :
    via target handle orders ++ via target handle rest = via target handle (orders ++ rest) := by
  unfold via
  split <;> rfl

section

variable (target : InstrumentId)

/-- The orders of ending the span under a key. -/
def endOrders (session : Session) (key : String) : List (Clock × Order) :=
  match session.spans.get? key with
  | none => []
  | some span => via target span.handle [(session.clock, .exit span.name)]

/-- The orders of one timed call of a channel's device. -/
def callOrders {α : Type} (session : Session) (channel : Channel) (thread : ThreadId)
    (operation : Operation α) : List (Clock × Order) :=
  via target (session.resolve channel.source thread).1
    [(session.clock, .enter channel.region),
      ((operation channel.device session.clock).2.2, .exit channel.region)]

/-- The orders of a timed call. -/
def TimedCall.orders (thread : ThreadId) (call : TimedCall) : List (Clock × Order) :=
  call.session.callOrders target call.channel thread call.operation

/-- The orders of `readLoop`. -/
def readOrders (thread : ThreadId) : Nat → Session → Channel → Nat → List (Clock × Order)
  | _, _, _, 0 => []
  | 0, _, _, _ + 1 => []
  | fuel + 1, session, channel, wanted + 1 =>
    let called := session.timed channel thread (Device.read (wanted + 1))
    session.callOrders target channel thread (Device.read (wanted + 1)) ++
      match called.call with
      | .done [] => []
      | .done (_ :: more) =>
        readOrders thread fuel called.session called.channel (wanted - more.length)
      | .failed failure =>
        if failure.kind = .interrupted then
          readOrders thread fuel called.session called.channel (wanted + 1)
        else []
      | .crashed _ => []

/-- The orders of `writeLoop`. -/
def writeOrders (thread : ThreadId) : Nat → Session → Channel → List UInt8 → List (Clock × Order)
  | _, _, _, [] => []
  | 0, _, _, _ :: _ => []
  | fuel + 1, session, channel, byte :: rest =>
    let called := session.timed channel thread (Device.write (byte :: rest))
    session.callOrders target channel thread (Device.write (byte :: rest)) ++
      match called.call with
      | .done 0 => []
      | .done (taken + 1) => writeOrders thread fuel called.session called.channel (rest.drop taken)
      | .failed failure =>
        if failure.kind = .interrupted then
          writeOrders thread fuel called.session called.channel (byte :: rest)
        else []
      | .crashed _ => []

def handleOrders (session : Session) : HandleAction → List (Clock × Order)
  | .span key handleKey name =>
    match session.handles.get? handleKey with
    | none => []
    | some handle =>
      via target handle [(session.clock, .enter name)] ++ session.endOrders target key
  | .endSpan key => session.endOrders target key
  | _ => []

def requestOrders (session : Session) (handleKey : String) (request : Request) :
    List (Clock × Order) :=
  match session.handles.get? handleKey with
  | none => []
  | some handle => via target handle (request.order?.toList.map fun order => (session.clock, order))

def channelOrders (session : Session) (thread : ThreadId) (action : ChannelAction) :
    List (Clock × Order) :=
  let on (key : String) (orders : Channel → List (Clock × Order)) :=
    ((session.channels.get? key).map orders).getD []
  match action with
  | .read key n => on key fun channel => session.callOrders target channel thread (Device.read n)
  | .readExact key n => on key fun channel =>
    readOrders target thread (channel.device.script.length + 1) session channel n
  | .write key bytes =>
    on key fun channel => session.callOrders target channel thread (Device.write bytes)
  | .writeExact key bytes => on key fun channel =>
    writeOrders target thread (channel.device.script.length + 1) session channel bytes
  | .flush key => on key fun channel => session.callOrders target channel thread Device.flush
  | _ => []

/-- The orders that a step gives to the target. -/
def orders (session : Session) (step : Step) : List (Clock × Order) :=
  match step.action with
  | .handle action => session.handleOrders target action
  | .request handleKey request => session.requestOrders target handleKey request
  | .channel action => session.channelOrders target (session.threadId step.thread) action
  | _ => []

end

/-- The span that an action opens, with its key. -/
def handleOpened? (session : Session) : HandleAction → Option (String × Span)
  | .span key handleKey name =>
    (session.handles.get? handleKey).map fun handle => (key, ⟨handle, name⟩)
  | _ => none

/-- The span that a step opens, with its key. -/
def opened? (session : Session) (step : Step) : Option (String × Span) :=
  match step.action with
  | .handle action => session.handleOpened? action
  | _ => none

/-! ### Instruments that get orders -/

/-- The later session has all instruments of the earlier one, the target got the orders and kept the
invariant, and all spans were there before, but for the one that was opened. -/
structure Serves (target : InstrumentId) (session later : Session) (orders : List (Clock × Order))
    (opened? : Option (String × Span)) : Prop where
  size_le : session.pool.instruments.size ≤ later.pool.instruments.size
  get_eq : target < session.pool.instruments.size →
    later.pool.get target = (session.pool.get target).after orders
  wellFormed_of : (session.pool.get target).WellFormed → (later.pool.get target).WellFormed
  spans_of : ∀ key span, later.spans.get? key = some span →
    opened? = some (key, span) ∨
      session.spans.get? key = some span ∧ ∀ other, opened? ≠ some (key, other)

namespace Serves

variable {target : InstrumentId} {session later last : Session}
  {orders rest : List (Clock × Order)} {opened? : Option (String × Span)}

theorem of_pool_eq (hpool : later.pool = session.pool) (hspans : later.spans = session.spans) :
    Serves target session later [] none where
  size_le := by rw [hpool]
  get_eq _ := by rw [hpool, Instrument.after_nil]
  wellFormed_of wf := by rwa [hpool]
  spans_of key span h := .inr ⟨by rwa [hspans] at h, by simp⟩

/-- Spans do not come of themselves. -/
theorem mem_spans (h : Serves target session later orders none) {key : String} {span : Span}
    (hspan : later.spans.get? key = some span) : session.spans.get? key = some span := by
  rcases h.spans_of key span hspan with hnone | hbefore
  · cases hnone
  · exact hbefore.1

theorem trans (h : Serves target session later orders none)
    (h' : Serves target later last rest opened?) :
    Serves target session last (orders ++ rest) opened? where
  size_le := h.size_le.trans h'.size_le
  get_eq hlt := by
    rw [h'.get_eq (lt_of_lt_of_le hlt h.size_le), h.get_eq hlt, Instrument.after_append]
  wellFormed_of wf := h'.wellFormed_of (h.wellFormed_of wf)
  spans_of key span hlast := by
    rcases h'.spans_of key span hlast with hopened | ⟨hlater, hnot⟩
    · exact .inl hopened
    · exact .inr ⟨h.mem_spans hlater, hnot⟩

end Serves

variable (target : InstrumentId) (session : Session)

/-- An instrument that is replaced by what it is after orders. -/
theorem serves_replaceInstrument {handle : Handle} {instrument : Instrument}
    {orders : List (Clock × Order)}
    (h : instrument = (session.instrument handle).after orders) :
    Serves target session (session.replaceInstrument handle instrument)
      (via target handle orders) none := by
  cases handle with
  | inert => exact Serves.of_pool_eq rfl rfl
  | shared id =>
    refine ⟨?_, fun hlt => ?_, fun wf => ?_, fun _ _ hspan => .inr ⟨hspan, by simp⟩⟩
    · show _ ≤ (session.pool.instruments.setIfInBounds id instrument).size
      rw [Array.size_setIfInBounds]
    · show (session.pool.set id instrument).get target = _
      unfold via
      by_cases hid : target = id
      · rw [hid, Pool.get_set_self _ _ (hid ▸ hlt), if_pos rfl, h]
        rfl
      · have hne : Handle.shared id ≠ .shared target := fun heq => hid (Handle.shared.inj heq).symm
        rw [Pool.get_set_of_ne _ _ hid, if_neg hne, Instrument.after_nil]
    · show ((session.pool.set id instrument).get target).WellFormed
      by_cases hid : target = id
      · subst hid
        by_cases hlt : target < session.pool.instruments.size
        · rw [Pool.get_set_self _ _ hlt, h]
          exact Instrument.WellFormed.after wf orders
        · rwa [Pool.set, Array.setIfInBounds_eq_of_size_le (not_lt.mp hlt)]
      · rwa [Pool.get_set_of_ne _ _ hid]

theorem serves_enter (handle : Handle) (name : String) :
    Serves target session (session.enter handle name)
      (via target handle [(session.clock, .enter name)]) none := by
  apply serves_replaceInstrument
  cases session.instrument handle <;> rfl

theorem serves_exit (handle : Handle) (name : String) :
    Serves target session (session.exit handle name).2
      (via target handle [(session.clock, .exit name)]) none := by
  unfold exit
  apply serves_replaceInstrument
  cases session.instrument handle <;> rfl

theorem serves_endSpan (key : String) :
    Serves target session (session.endSpan key).2 (session.endOrders target key) none := by
  unfold endSpan endOrders
  cases session.spans.get? key with
  | none => exact Serves.of_pool_eq rfl rfl
  | some span =>
    have h := session.serves_exit target span.handle span.name
    refine ⟨h.size_le, h.get_eq, h.wellFormed_of, fun other span' hspan =>
      h.spans_of other span' ?_⟩
    have herase : ((session.exit span.handle span.name).2.spans.erase key).get? other =
        some span' := hspan
    rw [Keyed.get?_erase] at herase
    split at herase
    · cases herase
    · exact herase

/-- New instruments leave those in the pool alone. -/
theorem serves_share {instrument : Instrument} (hwf : instrument.WellFormed) {later : Session}
    (h : later.pool = (session.pool.share instrument).2) (hspans : later.spans = session.spans) :
    Serves target session later [] none where
  size_le := by
    rw [h]
    simp [Pool.share]
  get_eq hlt := by
    rw [h, Instrument.after_nil, Pool.get_share_of_lt _ _ hlt]
  wellFormed_of wf := by
    rw [h]
    rcases Nat.lt_trichotomy target session.pool.instruments.size with hlt | rfl | hgt
    · rwa [Pool.get_share_of_lt _ _ hlt]
    · rwa [← show (session.pool.share instrument).1 = session.pool.instruments.size from rfl,
        Pool.get_share]
    · rw [Pool.get_of_size_le _ (by simp [Pool.share]; omega)]
      trivial
  spans_of key span hspan := .inr ⟨by rwa [hspans] at hspan, by simp⟩

theorem serves_handleFor (id : RegistryId) (thread : ThreadId) :
    Serves target session (session.handleFor id thread).2.2 [] none ∧
      (session.handleFor id thread).2.2.clock = session.clock := by
  unfold handleFor Registry.handleFor
  dsimp only
  split
  · split
    · exact ⟨Serves.of_pool_eq rfl rfl, rfl⟩
    · exact ⟨session.serves_share target (Instrument.wellFormed_ofConfig (some _) _) rfl rfl, rfl⟩
  · exact ⟨Serves.of_pool_eq rfl rfl, rfl⟩

theorem serves_resolve (source : Source) (thread : ThreadId) :
    Serves target session (session.resolve source thread).2.2 [] none ∧
      (session.resolve source thread).2.2.clock = session.clock := by
  cases source with
  | pinned handle => exact ⟨Serves.of_pool_eq rfl rfl, rfl⟩
  | perThread id => exact session.serves_handleFor target id thread

/-! ### Channels -/

section

variable (channel : Channel) (thread : ThreadId)

/-- **A timed call is an entry and an exit**, whatever the device does in between. -/
theorem serves_timed {α : Type} (operation : Operation α) :
    Serves target session (session.timed channel thread operation).session
      (session.callOrders target channel thread operation) none := by
  obtain ⟨hresolve, hclock⟩ := session.serves_resolve target channel.source thread
  unfold timed callOrders
  dsimp only
  set handle := (session.resolve channel.source thread).1
  set resolved := (session.resolve channel.source thread).2.2
  set entered := resolved.enter handle channel.region
  have henter : Serves target resolved entered _ none :=
    resolved.serves_enter target handle channel.region
  have hcall : Serves target entered (entered.untimed channel operation).session [] none :=
    Serves.of_pool_eq rfl rfl
  have hexit := (entered.untimed channel operation).session.serves_exit target handle channel.region
  have hserves := (hresolve.trans henter).trans (hcall.trans hexit)
  have hcalled : (entered.untimed channel operation).session.clock =
      (operation channel.device session.clock).2.2 :=
    congrArg (fun clock => (operation channel.device clock).2.2) hclock
  rw [hclock, hcalled, List.nil_append, List.nil_append, via_append] at hserves
  exact hserves

end

/-- The orders of calls that are made one after the other. -/
theorem serves_makes {thread : ThreadId} {session later : Session} {channel channel' : Channel}
    {calls : List TimedCall} {events : List Event}
    (h : Makes thread session channel calls later channel' events) :
    Serves target session later (calls.flatMap (·.orders target thread)) none := by
  induction h with
  | nil => exact Serves.of_pool_eq rfl rfl
  | @cons _ session _ channel _ operation _ _ _ ih =>
    exact (session.serves_timed target channel _ operation).trans ih

theorem readOrders_eq (thread : ThreadId) (fuel : Nat) (session : Session) (channel : Channel)
    (wanted : Nat) : readOrders target thread fuel session channel wanted =
      (readCalls thread fuel session channel wanted).flatMap (·.orders target thread) := by
  induction fuel generalizing session channel wanted with
  | zero => cases wanted <;> rfl
  | succ fuel ih =>
    cases wanted with
    | zero => rfl
    | succ wanted =>
      unfold readOrders readCalls
      rw [List.flatMap_cons]
      refine congrArg (session.callOrders target channel thread (Device.read (wanted + 1)) ++ ·) ?_
      cases (session.timed channel thread (Device.read (wanted + 1))).call with
      | done bytes =>
        cases bytes with
        | nil => rfl
        | cons byte more => exact ih _ _ _
      | failed failure =>
        dsimp only
        split
        · exact ih _ _ _
        · rfl
      | crashed message => rfl

theorem writeOrders_eq (thread : ThreadId) (fuel : Nat) (session : Session) (channel : Channel)
    (bytes : List UInt8) : writeOrders target thread fuel session channel bytes =
      (writeCalls thread fuel session channel bytes).flatMap (·.orders target thread) := by
  induction fuel generalizing session channel bytes with
  | zero => cases bytes <;> rfl
  | succ fuel ih =>
    cases bytes with
    | nil => rfl
    | cons byte rest =>
      unfold writeOrders writeCalls
      rw [List.flatMap_cons]
      refine congrArg (session.callOrders target channel thread (Device.write (byte :: rest)) ++ ·) ?_
      cases (session.timed channel thread (Device.write (byte :: rest))).call with
      | done taken =>
        cases taken with
        | zero => rfl
        | succ taken => exact ih _ _ _
      | failed failure =>
        dsimp only
        split
        · exact ih _ _ _
        · rfl
      | crashed message => rfl

theorem serves_readExact (channel : Channel) (thread : ThreadId) (n : Nat) :
    Serves target session (session.readExact channel thread n).session
      (readOrders target thread (channel.device.script.length + 1) session channel n) none := by
  rw [readOrders_eq]
  exact serves_makes target (makes_readLoop thread _ session channel n [])

theorem serves_writeExact (channel : Channel) (thread : ThreadId) (bytes : List UInt8) :
    Serves target session (session.writeExact channel thread bytes).session
      (writeOrders target thread (channel.device.script.length + 1) session channel bytes) none := by
  rw [writeOrders_eq]
  exact serves_makes target (makes_writeLoop thread _ session channel bytes)

theorem serves_callStep {α : Type} (key : String) (answer : CallResult α → Answer)
    (calls : Channel → Called α) (orders : Channel → List (Clock × Order))
    (h : ∀ channel, Serves target session (calls channel).session (orders channel) none) :
    Serves target session (session.callStep key answer calls).2
      (((session.channels.get? key).map orders).getD []) none := by
  unfold callStep
  cases session.channels.get? key with
  | none => exact Serves.of_pool_eq rfl rfl
  | some channel =>
    exact ⟨(h channel).size_le, (h channel).get_eq, (h channel).wellFormed_of, (h channel).spans_of⟩

/-! ### Steps -/

theorem serves_channelStep (thread : ThreadId) (action : ChannelAction) :
    Serves target session (session.channelStep thread action).2
      (session.channelOrders target thread action) none := by
  cases action with
  | read key n =>
    exact session.serves_callStep target key _ _ _ fun channel =>
      session.serves_timed target channel thread (Device.read n)
  | readExact key n =>
    exact session.serves_callStep target key _ _ _ fun channel =>
      session.serves_readExact target channel thread n
  | write key bytes =>
    exact session.serves_callStep target key _ _ _ fun channel =>
      session.serves_timed target channel thread (Device.write bytes)
  | writeExact key bytes =>
    exact session.serves_callStep target key _ _ _ fun channel =>
      session.serves_writeExact target channel thread bytes
  | flush key =>
    exact session.serves_callStep target key _ _ _ fun channel =>
      session.serves_timed target channel thread Device.flush
  | create key region source device =>
    unfold channelStep
    dsimp only
    split <;> exact Serves.of_pool_eq rfl rfl
  | readInner key n | writeInner key bytes | left key | received key | close key =>
    unfold channelStep
    try unfold callStep
    dsimp only
    split <;> exact Serves.of_pool_eq rfl rfl

theorem serves_requestStep (handleKey : String) (request : Request) :
    Serves target session (session.requestStep handleKey request).2
      (session.requestOrders target handleKey request) none := by
  unfold requestStep requestOrders
  cases session.handles.get? handleKey with
  | none => exact Serves.of_pool_eq rfl rfl
  | some handle =>
    have hserves : Serves target session (session.replaceInstrument handle
        ((session.instrument handle).serve session.clock request).2.2)
        (via target handle (request.order?.toList.map fun order => (session.clock, order))) none := by
      apply serves_replaceInstrument
      cases hinstrument : session.instrument handle with
      | inert => cases request <;> rfl
      | live timer =>
        rw [Instrument.serve_live]
        cases request.order? <;> rfl
    -- A report that is kept is neither in the pool nor a span.
    have hkeep : ∀ (later : Session) (response : Response),
        Serves target later (later.keepReport response) [] none := by
      intro later response
      unfold keepReport
      split <;> exact Serves.of_pool_eq rfl rfl
    have h := hserves.trans (hkeep _ ((session.instrument handle).serve session.clock request).1)
    rw [List.append_nil] at h
    exact h

theorem serves_handleStep (thread : ThreadId) (action : HandleAction) :
    Serves target session (session.handleStep thread action).2
      (session.handleOrders target action) (session.handleOpened? action) := by
  have hkeep : ∀ (later : Session) (key? : Option String) (id? : Option InstrumentId),
      Serves target session later [] none →
      Serves target session (later.keepHandle key? id?) [] none := by
    intro later key? id? h
    unfold keepHandle
    split <;> exact ⟨h.size_le, h.get_eq, h.wellFormed_of, h.spans_of⟩
  cases action with
  | span key handleKey name =>
    unfold handleStep handleOrders handleOpened?
    dsimp only
    cases session.handles.get? handleKey with
    | none => exact Serves.of_pool_eq rfl rfl
    | some handle =>
      -- An earlier span under the key ends when the new one has been entered.
      have h := (session.serves_enter target handle name).trans
        ((session.enter handle name).serves_endSpan target key)
      refine ⟨h.size_le, h.get_eq, h.wellFormed_of, fun other span hspan => ?_⟩
      have hinsert : (((session.enter handle name).endSpan key).2.spans.insert key
          ⟨handle, name⟩).get? other = some span := hspan
      rw [Keyed.get?_insert] at hinsert
      split at hinsert
      · next heq =>
        cases hinsert
        exact .inl (by rw [heq]; rfl)
      · next hne =>
        refine .inr ⟨h.mem_spans hinsert, fun span' heq => hne ?_⟩
        rw [Option.map_some, Option.some.injEq, Prod.mk.injEq] at heq
        exact heq.1.symm
  | endSpan key => exact session.serves_endSpan target key
  | acquire key registryKey =>
    unfold handleStep
    dsimp only
    cases session.registryIds.get? registryKey with
    | none => exact Serves.of_pool_eq rfl rfl
    | some id =>
      have h := (session.serves_handleFor target id thread).1
      exact ⟨h.size_le, h.get_eq, h.wellFormed_of, h.spans_of⟩
  | create key config =>
    exact session.serves_share target (Instrument.wellFormed_ofConfig (some config) _) rfl rfl
  | install registryKey config? key? =>
    unfold handleStep
    dsimp only
    cases session.registryIds.get? registryKey with
    | none => exact Serves.of_pool_eq rfl rfl
    | some id =>
      dsimp only [Registry.install]
      split
      · exact hkeep _ key? _
          (session.serves_share target (Instrument.wellFormed_ofConfig config? _) rfl rfl)
      · exact hkeep _ key? _ (Serves.of_pool_eq rfl rfl)
  | remove registryKey key? =>
    unfold handleStep
    dsimp only
    split
    · exact Serves.of_pool_eq rfl rfl
    · exact hkeep _ key? _ (Serves.of_pool_eq rfl rfl)
  | openRegistry key enabled =>
    show Serves target session (session.openRegistry key enabled) [] none
    unfold openRegistry
    split <;> exact Serves.of_pool_eq rfl rfl
  | describe key | copy key origin | same first second =>
    unfold handleStep
    dsimp only
    split <;> exact Serves.of_pool_eq rfl rfl
  | inert key => exact Serves.of_pool_eq rfl rfl

theorem serves_threadStep (action : ThreadAction) :
    Serves target session (session.threadStep action).2 [] none := by
  cases action <;> unfold threadStep <;> dsimp only <;> split <;> exact Serves.of_pool_eq rfl rfl

theorem serves_stackStep (thread : ThreadId) (action : StackAction) :
    Serves target session (session.stackStep thread action).2 [] none := by
  cases action with
  | push key site | observe key | compare site => exact Serves.of_pool_eq rfl rfl
  | endFrame key | look key =>
    unfold stackStep
    dsimp only
    split <;> exact Serves.of_pool_eq rfl rfl

/-- Steps that concern samplers change nothing else. -/
theorem exists_samplers (thread : ThreadId) (action : SamplerAction) :
    ∃ samplers, (session.samplerStep thread action).2 = { session with samplers } := by
  unfold samplerStep
  cases action with
  | create key plan started =>
    cases started with
    | false => exact ⟨_, rfl⟩
    | true =>
      dsimp only
      split <;> exact ⟨_, rfl⟩
  | start key =>
    dsimp only
    split
    · exact ⟨_, rfl⟩
    · unfold changeSampler
      split <;> exact ⟨_, rfl⟩
  | stop key | inspect key =>
    dsimp only [changeSampler]
    split <;> exact ⟨_, rfl⟩
  | wake key times | dump key labels =>
    dsimp only
    split <;> exact ⟨_, rfl⟩
  | discard key => exact ⟨_, rfl⟩

theorem serves_samplerStep (thread : ThreadId) (action : SamplerAction) :
    Serves target session (session.samplerStep thread action).2 [] none := by
  obtain ⟨samplers, hafter⟩ := session.exists_samplers thread action
  rw [hafter]
  exact Serves.of_pool_eq rfl rfl

/-- **The orders of a step are all that it does to an instrument.** -/
theorem serves_step (step : Step) : Serves target session (session.step step).2
    (session.orders target step) (session.opened? step) := by
  obtain ⟨thread, action⟩ := step
  match action with
  | .clock change => exact Serves.of_pool_eq rfl rfl
  | .recall key =>
    unfold Session.step
    dsimp only
    split <;> exact Serves.of_pool_eq rfl rfl
  | .thread action => exact session.serves_threadStep target action
  | .handle action => exact session.serves_handleStep target _ action
  | .request handleKey request => exact session.serves_requestStep target handleKey request
  | .channel action => exact session.serves_channelStep target _ action
  | .stack action => exact session.serves_stackStep target _ action
  | .sampler action => exact session.serves_samplerStep target _ action

/-! ### Runs -/

/-- The session after steps that are taken one after the other. -/
def after (session : Session) : List Step → Session
  | [] => session
  | step :: rest => (session.step step).2.after rest

/-- All timers keep the invariant. -/
def WellFormed (session : Session) : Prop := ∀ id, (session.pool.get id).WellFormed

theorem WellFormed.after {session : Session} (wf : session.WellFormed) (steps : List Step) :
    (session.after steps).WellFormed := by
  induction steps generalizing session with
  | nil => exact wf
  | cons step steps ih => exact ih fun id => (session.serves_step id step).wellFormed_of (wf id)

/-- **All timers of a session are well formed at any time.** -/
theorem wellFormed_after_start (steps : List Step) : (start.after steps).WellFormed :=
  WellFormed.after (fun id => by rw [Pool.get_of_size_le _ (Nat.zero_le id)]; trivial) steps

end Session

end Profiler
