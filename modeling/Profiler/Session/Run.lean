import Profiler.Session.Channels
import Profiler.Session.Step

/-!
# Running a session

`Session.step` is what one step does, and `Session.run` the replies to steps taken one after the
other. A step is done by one thread and over before the next one starts.
-/

namespace Profiler.Session

/-! ### Threads -/

/-- The session after a thread has ended. Its call stack is gone, and the shared registry forgets
it; other registries keep its timer. -/
def join (session : Session) (id : ThreadId) : Session :=
  let ended := session.setThread id (session.thread id).finish
  ended.setRegistry globalId ((ended.registry globalId).remove id).2.2

/-- What concerns threads. -/
def threadStep (session : Session) : ThreadAction → Reply × Session
  | .spawn key name? =>
    match name?.bind Thread.nameCrash? with
    | some message => ({ answer := .crashed message }, session)
    | none => ({ answer := .done }, session.spawn key name?)
  | .join key =>
    match session.threadIds.get? key with
    | none => ({ answer := .done }, session)
    | some id => ({ answer := .done }, session.join id)

/-! ### Registries and handles -/

/-- The session with a handle under a key, answered with whether it is enabled. -/
def hold (session : Session) (key : String) (handle : Handle) (events : List Event) :
    Reply × Session :=
  ({ answer := .enabled handle.isEnabled, events }, session.setHandle key handle)

/-- The session with a handle to what was handed back, if something was and a key is given. -/
def keepHandle (session : Session) : Option String → Option InstrumentId → Session
  | some key, some id => session.setHandle key (.shared id)
  | _, _ => session

/-- Ends the span under a key, if there is one. -/
def endSpan (session : Session) (key : String) : List Event × Session :=
  match session.spans.get? key with
  | none => ([], session)
  | some span =>
    let (events, after) := session.exit span.handle span.name
    (events, { after with spans := after.spans.erase key })

/-- What a registry shows of itself. The shared one shows only whether it is enabled. -/
def describe (session : Session) (id : RegistryId) : Answer :=
  let registry := session.registry id
  .registry registry.enabled
    (if id = globalId then none else some (registry.size, registry.describe))

/-- What concerns registries, handles and spans. -/
def handleStep (session : Session) (thread : ThreadId) : HandleAction → Reply × Session
  | .openRegistry key enabled => ({ answer := .done }, session.openRegistry key enabled)
  | .describe key =>
    match session.registryIds.get? key with
    | none => ({ answer := .missing }, session)
    | some id => ({ answer := session.describe id }, session)
  | .acquire key registryKey =>
    match session.registryIds.get? registryKey with
    | none => ({ answer := .missing }, session)
    | some id =>
      let (handle, events, after) := session.handleFor id thread
      after.hold key handle events
  | .inert key => session.hold key .inert []
  | .copy key origin =>
    match session.handles.get? origin with
    | none => ({ answer := .missing }, session)
    | some handle => session.hold key handle []
  | .create key config =>
    let (id, pool) := session.pool.share (.ofConfig (some config) session.clock)
    { session with pool }.hold key (.shared id) []
  | .same first second =>
    match session.handles.get? first, session.handles.get? second with
    | some a, some b => ({ answer := .same (a = b) }, session)
    | _, _ => ({ answer := .missing }, session)
  | .install registryKey config? key? =>
    match session.registryIds.get? registryKey with
    | none => ({ answer := .missing }, session)
    | some id =>
      let (previous?, after, pool) :=
        (session.registry id).install session.pool thread (.ofConfig config? session.clock)
      ({ answer := .previous previous?.isSome },
        ({ session with pool }.setRegistry id after).keepHandle key? previous?)
  | .remove registryKey key? =>
    match session.registryIds.get? registryKey with
    | none => ({ answer := .missing }, session)
    | some id =>
      let (removed?, events, after) := (session.registry id).remove thread
      ({ answer := .removed removed?.isSome, events },
        (session.setRegistry id after).keepHandle key? removed?)
  | .span key handleKey name =>
    match session.handles.get? handleKey with
    | none => ({ answer := .missing }, session)
    | some handle =>
      let (events, after) := (session.enter handle name).endSpan key
      ({ answer := .done, events }, { after with spans := after.spans.insert key ⟨handle, name⟩ })
  | .endSpan key =>
    let (events, after) := session.endSpan key
    ({ answer := .ended (session.spans.get? key).isSome, events }, after)

/-! ### Instruments -/

/-- The session with a report kept, if a response is one. -/
def keepReport (session : Session) : Response → Session
  | .saved key (some report) => { session with saved := session.saved.insert key report }
  | _ => session

/-- Serves a request to the instrument behind a handle. -/
def requestStep (session : Session) (handleKey : String) (request : Request) : Reply × Session :=
  match session.handles.get? handleKey with
  | none => ({ answer := .missing }, session)
  | some handle =>
    let (response, events, after) := (session.instrument handle).serve session.clock request
    ({ answer := .response response, events },
      (session.replaceInstrument handle after).keepReport response)

/-! ### Channels -/

/-- The source that a key stands for. -/
def source? (session : Session) : SourceKey → Option Source
  | .handle key => (session.handles.get? key).map Source.pinned
  | .registry key => (session.registryIds.get? key).map Source.perThread

/-- Makes calls on a channel and puts the channel back. -/
def callStep {α : Type} (session : Session) (key : String) (answer : CallResult α → Answer)
    (calls : Channel → Called α) : Reply × Session :=
  match session.channels.get? key with
  | none => ({ answer := .missing }, session)
  | some channel =>
    let called := calls channel
    ({ answer := answer called.call, events := called.events },
      called.session.setChannel key called.channel)

/-- What a device has left or has received. -/
def contents : Device → Answer
  | .reader script => .left script.length
  | .writer _ received => .received received.toList

/-- What concerns channels. -/
def channelStep (session : Session) (thread : ThreadId) : ChannelAction → Reply × Session
  | .create key region source device =>
    match session.source? source with
    | none => ({ answer := .missing }, session)
    | some source => ({ answer := .done }, session.setChannel key { device, source, region })
  | .read key n =>
    session.callStep key .read fun channel => session.timed channel thread (Device.read n)
  | .readExact key n =>
    session.callStep key .read fun channel => session.readExact channel thread n
  | .write key bytes =>
    session.callStep key .wrote fun channel => session.timed channel thread (Device.write bytes)
  | .writeExact key bytes =>
    session.callStep key .completed fun channel => session.writeExact channel thread bytes
  | .flush key =>
    session.callStep key .completed fun channel => session.timed channel thread Device.flush
  | .readInner key n =>
    session.callStep key .read fun channel => session.untimed channel (Device.read n)
  | .writeInner key bytes =>
    session.callStep key .wrote fun channel => session.untimed channel (Device.write bytes)
  | .left key =>
    match session.channels.get? key with
    | none => ({ answer := .missing }, session)
    | some channel => ({ answer := .left channel.device.script.length }, session)
  | .received key =>
    match session.channels.get? key with
    | none => ({ answer := .missing }, session)
    | some channel => ({ answer := contents channel.device }, session)
  | .close key =>
    match session.channels.get? key with
    | none => ({ answer := .missing }, session)
    | some channel =>
      ({ answer := contents channel.device },
        { session with channels := session.channels.erase key })

/-! ### Call stacks -/

/-- What concerns call stacks. -/
def stackStep (session : Session) (thread : ThreadId) : StackAction → Reply × Session
  | .push key site =>
    let after := session.setThread thread ((session.thread thread).push key site)
    ({ answer := .top (after.top? thread) }, after)
  | .endFrame key =>
    match (session.thread thread).endFrame? key with
    | none => ({ answer := .frameEnded false (session.top? thread) }, session)
    | some ended =>
      let after := session.setThread thread ended
      ({ answer := .frameEnded true (after.top? thread) }, after)
  | .observe key =>
    ({ answer := .top (session.top? thread) },
      { session with observed := session.observed.insert key (session.observe thread) })
  | .look key =>
    match session.observed.get? key with
    | none => ({ answer := .missing }, session)
    | some target =>
      ({ answer := .thread target.name (session.thread target.id).alive (session.top? target.id) },
        session)
  | .compare site => ({ answer := .site site (session.top? thread = some site) }, session)

/-! ### Samplers -/

/-- A sampler as it is shown. -/
def describeSampler (session : Session) (sampler : Sampler) : Answer :=
  .sampler sampler (session.thread sampler.target.id).alive

/-- Starts a sampler, which looks at its target at once. -/
def startSampler (session : Session) (sampler : Sampler) : List Event × Sampler :=
  sampler.start session.clock (session.top? sampler.target.id)

/-- The sampler of a plan, made by a thread. -/
def plan (session : Session) (thread : ThreadId) (plan : SamplerPlan) : Sampler where
  name := plan.name
  interval := plan.interval
  target := (plan.target?.bind session.observed.get?).getD (session.observe thread)
  enabled := plan.enabled

/-- The events of giving up what is under a key: a running sampler is stopped. -/
def discardEvents (session : Session) (key : String) : List Event :=
  match session.samplers.get? key with
  | none => []
  | some sampler => (sampler.stop session.clock).1

/-- Applies a change to a sampler and shows it. -/
def changeSampler (session : Session) (key : String) (change : Sampler → List Event × Sampler) :
    Reply × Session :=
  match session.samplers.get? key with
  | none => ({ answer := .missing }, session)
  | some sampler =>
    let (events, after) := change sampler
    ({ answer := session.describeSampler after, events }, session.setSampler key after)

/-- Puts a new sampler under a key, and gives up the one that was there. -/
def placeSampler (session : Session) (key : String) (events : List Event) (sampler : Sampler) :
    Reply × Session :=
  ({ answer := session.describeSampler sampler, events := events ++ session.discardEvents key },
    session.setSampler key sampler)

/-- What concerns samplers. -/
def samplerStep (session : Session) (thread : ThreadId) : SamplerAction → Reply × Session
  | .create key plan false => session.placeSampler key [] (session.plan thread plan)
  | .create key plan true =>
    let created := session.plan thread plan
    match created.startCrash? with
    | some message => ({ answer := .crashed message }, session)
    | none =>
      let (events, sampler) := session.startSampler created
      session.placeSampler key events sampler
  | .start key =>
    match (session.samplers.get? key).bind Sampler.startCrash? with
    | some message => ({ answer := .crashed message }, session)
    | none => session.changeSampler key session.startSampler
  | .stop key => session.changeSampler key (·.stop session.clock)
  | .inspect key => session.changeSampler key fun sampler => ([], sampler)
  | .wake key times =>
    match session.samplers.get? key with
    | none => ({ answer := .missing }, session)
    | some sampler =>
      ({ answer := .slept sampler.interval },
        session.setSampler key (sampler.wakes (session.top? sampler.target.id) times))
  | .dump key labels =>
    match session.samplers.get? key with
    | none => ({ answer := .missing }, session)
    | some sampler =>
      let (result, events) := sampler.dump
      let counted := result.map fun report => (report, labels.map report.count)
      ({ answer := .samples counted, events }, session)
  | .discard key =>
    let events := session.discardEvents key
    ({ answer := .discarded (session.samplers.get? key).isSome, events },
      { session with samplers := session.samplers.erase key })

/-! ### Steps -/

/-- What one step does. -/
def step (session : Session) (step : Step) : Reply × Session :=
  let thread := session.threadId step.thread
  match step.action with
  | .clock change => ({ answer := .done }, { session with clock := session.clock.change change })
  | .recall key =>
    match session.saved.get? key with
    | none => ({ answer := .missing }, session)
    | some report => ({ answer := .recalled report }, session)
  | .thread action => session.threadStep action
  | .handle action => session.handleStep thread action
  | .request handle request => session.requestStep handle request
  | .channel action => session.channelStep thread action
  | .stack action => session.stackStep thread action
  | .sampler action => session.samplerStep thread action

/-- The replies to steps taken one after the other. -/
def run (session : Session) : List Step → List Reply
  | [] => []
  | step :: rest =>
    let (reply, after) := session.step step
    reply :: after.run rest

end Profiler.Session
