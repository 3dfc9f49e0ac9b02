import Profiler.Proofs.Session.Alike

/-!
# A thread does the same in sessions that are abreast

Whatever a thread does with what belongs to it, in two sessions that are abreast for it the answers
and events are the same and the sessions are abreast again: `Session.Abreast.step`. New instruments
that the step makes get into the matching.
-/

namespace Profiler

/-! ### Pools and registries -/

namespace Matching

variable {m : Matching} {full part : Pool}

theorem Fits.instrument_eq (h : m.Fits full part) {handle handle' : Handle}
    (hhandle : m.HandlePair handle handle') : handle'.instrument part = handle.instrument full := by
  cases hhandle with
  | shared hpair => exact h.get_eq hpair
  | inert => rfl

theorem Fits.replace (h : m.Fits full part) {handle handle' : Handle}
    (hhandle : m.HandlePair handle handle') (instrument : Instrument) :
    m.Fits (handle.replace full instrument) (handle'.replace part instrument) := by
  cases hhandle with
  | shared hpair => exact h.set hpair instrument
  | inert => exact h

/-- Two handles are the same if and only if their counterparts are. -/
theorem Fits.handle_eq_iff (h : m.Fits full part) {a b a' b' : Handle} (ha : m.HandlePair a a')
    (hb : m.HandlePair b b') : a' = b' ↔ a = b := by
  cases ha with
  | shared ha =>
    cases hb with
    | shared hb => rw [Handle.shared.injEq, Handle.shared.injEq, h.eq_iff ha hb]
    | inert => exact iff_of_false nofun nofun
  | inert =>
    cases hb with
    | shared hb => exact iff_of_false nofun nofun
    | inert => exact iff_of_true rfl rfl

theorem HandlePair.isEnabled_eq {handle handle' : Handle} (h : m.HandlePair handle handle') :
    handle'.isEnabled = handle.isEnabled := by
  cases h <;> rfl

end Matching

theorem Registry.enabled_remove (registry : Registry) (thread : ThreadId) :
    (registry.remove thread).2.2.enabled = registry.enabled := by
  unfold Registry.remove
  split
  · split <;> rfl
  · rfl

theorem Registry.get?_slots_remove (registry : Registry) {thread other : ThreadId}
    (h : other ≠ thread) :
    (registry.remove thread).2.2.slots.get? other = registry.slots.get? other := by
  unfold Registry.remove
  split
  · split
    · rw [Keyed.get?_erase, if_neg h]
    · rfl
  · rfl

namespace Registry.Alike

variable {t : ThreadId} {m : Matching} {full part : Registry} {pool pool' : Pool}
  (h : Alike t m full part)
include h

theorem handleFor (hfits : m.Fits pool pool') {name name' : String} (hname : name' = name)
    {clock clock' : Clock} (hclock : clock' = clock) :
    (part.handleFor pool' t name' clock').2.1 = (full.handleFor pool t name clock).2.1 ∧
      ∃ later, m.Extends later ∧
        later.HandlePair (full.handleFor pool t name clock).1
          (part.handleFor pool' t name' clock').1 ∧
        Alike t later (full.handleFor pool t name clock).2.2.1
          (part.handleFor pool' t name' clock').2.2.1 ∧
        later.Fits (full.handleFor pool t name clock).2.2.2
          (part.handleFor pool' t name' clock').2.2.2 := by
  subst hname hclock
  unfold Registry.handleFor
  rw [h.enabled_eq]
  split
  · -- The thread has an instrument in both registries, or gets a new one in both.
    have hslot := h.slot
    generalize full.slots.get? t = i?, part.slots.get? t = j? at hslot ⊢
    cases hslot with
    | some hpair => exact ⟨rfl, m, .refl m, .shared hpair, h, hfits⟩
    | none =>
      exact ⟨rfl, _, m.extends_withPair _ _, .shared (.inr ⟨rfl, rfl⟩), h.insert rfl _ _,
        hfits.share _⟩
  · exact ⟨rfl, m, .refl m, .inert, h, hfits⟩

theorem install (hfits : m.Fits pool pool') {instrument instrument' : Instrument}
    (hinstrument : instrument' = instrument) :
    Option.Rel m.pair (full.install pool t instrument).1 (part.install pool' t instrument').1 ∧
      ∃ later, m.Extends later ∧
        Alike t later (full.install pool t instrument).2.1 (part.install pool' t instrument').2.1 ∧
        later.Fits (full.install pool t instrument).2.2 (part.install pool' t instrument').2.2 := by
  subst hinstrument
  unfold Registry.install
  rw [h.enabled_eq]
  split
  · exact ⟨h.slot, _, m.extends_withPair _ _, h.insert rfl _ _, hfits.share _⟩
  · exact ⟨.none, m, .refl m, h, hfits⟩

theorem remove : Option.Rel m.pair (full.remove t).1 (part.remove t).1 ∧
    (part.remove t).2.1 = (full.remove t).2.1 ∧
    Alike t m (full.remove t).2.2 (part.remove t).2.2 := by
  unfold Registry.remove
  rw [h.enabled_eq]
  split
  · have hslot := h.slot
    generalize full.slots.get? t = i?, part.slots.get? t = j? at hslot ⊢
    cases hslot with
    | some hpair =>
      refine ⟨.some hpair, rfl, h.change rfl ?_ fun _ hne => ?_⟩
      · rw [Keyed.get?_erase, Keyed.get?_erase, if_pos rfl, if_pos rfl]
        exact .none
      · rw [Keyed.get?_erase, if_neg hne]
    | none => exact ⟨.none, rfl, h⟩
  · exact ⟨.none, rfl, h⟩

/-- Another thread's instrument is taken in the first registry. -/
theorem remove_foreign {u : ThreadId} (hu : u ≠ t) : Alike t m (full.remove u).2.2 part := by
  unfold Registry.remove
  split
  · split
    · refine h.change_foreign hu rfl (fun hi => ?_) fun _ hne => ?_
      · rw [Keyed.get?_erase, if_pos rfl] at hi
        cases hi
      · rw [Keyed.get?_erase, if_neg hne]
    · exact h
  · exact h

/-- An instrument of any thread is taken in both registries. -/
theorem remove_both (u : ThreadId) : Alike t m (full.remove u).2.2 (part.remove u).2.2 := by
  by_cases hu : u = t
  · rw [hu]
    exact h.remove.2.2
  · refine { h.remove_foreign hu with enabled_eq := ?_, slot := ?_ }
    · rw [enabled_remove, enabled_remove, h.enabled_eq]
    · rw [get?_slots_remove full (Ne.symm hu), get?_slots_remove part (Ne.symm hu)]
      exact h.slot

end Registry.Alike

namespace Session

variable {t : ThreadId} {owners : Owners} {m : Matching} {full part : Session}

namespace Abreast

/-! ### Handles -/

theorem setRegistry (h : Abreast t owners m full part) (id : RegistryId)
    {registry registry' : Registry} (hregistry : Registry.Alike t m registry registry') :
    Abreast t owners m (full.setRegistry id registry) (part.setRegistry id registry') :=
  ⟨h.toAlike.setRegistry hregistry, h.clock_eq⟩

theorem setPools {later : Matching} (h : Abreast t owners m full part) (hm : m.Extends later)
    {pool pool' : Pool} (hfits : later.Fits pool pool') :
    Abreast t owners later { full with pool } { part with pool := pool' } :=
  ⟨h.toAlike.setPools hm hfits, h.clock_eq⟩

theorem instrument_eq (h : Abreast t owners m full part) {handle handle' : Handle}
    (hhandle : m.HandlePair handle handle') : part.instrument handle' = full.instrument handle :=
  h.fits.instrument_eq hhandle

theorem replaceInstrument (h : Abreast t owners m full part) {handle handle' : Handle}
    (hhandle : m.HandlePair handle handle') (instrument : Instrument) :
    Abreast t owners m (full.replaceInstrument handle instrument)
      (part.replaceInstrument handle' instrument) :=
  h.setPools (.refl m) (h.fits.replace hhandle instrument)

theorem enter (h : Abreast t owners m full part) {handle handle' : Handle}
    (hhandle : m.HandlePair handle handle') (name : String) :
    Abreast t owners m (full.enter handle name) (part.enter handle' name) := by
  unfold Session.enter
  rw [h.instrument_eq hhandle, h.clock_eq]
  exact h.replaceInstrument hhandle _

theorem exit (h : Abreast t owners m full part) {handle handle' : Handle}
    (hhandle : m.HandlePair handle handle') (name : String) :
    (part.exit handle' name).1 = (full.exit handle name).1 ∧
      Abreast t owners m (full.exit handle name).2 (part.exit handle' name).2 := by
  unfold Session.exit
  rw [h.instrument_eq hhandle, h.clock_eq]
  exact ⟨rfl, h.replaceInstrument hhandle _⟩

theorem handleFor (h : Abreast t owners m full part) (id : RegistryId) :
    (part.handleFor id t).2.1 = (full.handleFor id t).2.1 ∧
      ∃ later, m.Extends later ∧
        later.HandlePair (full.handleFor id t).1 (part.handleFor id t).1 ∧
        Abreast t owners later (full.handleFor id t).2.2 (part.handleFor id t).2.2 := by
  obtain ⟨hevents, later, hm, hhandle, hregistry, hfits⟩ :=
    (h.registry id).handleFor h.fits (congrArg Thread.name h.thread_eq) h.clock_eq
  exact ⟨hevents, later, hm, hhandle, (h.setPools hm hfits).setRegistry id hregistry⟩

theorem setHandle (h : Abreast t owners m full part) (key : String) {handle handle' : Handle}
    (hhandle : m.HandlePair handle handle') :
    Abreast t { owners with handle := Function.update owners.handle key (some t) } m
      (full.setHandle key handle) (part.setHandle key handle') :=
  { h with handles := h.handles.insert key hhandle }

/-- A handle to what was handed back is kept in both sessions or in neither. -/
theorem keepHandle (h : Abreast t owners m full part) (key? : Option String)
    {id? id'? : Option InstrumentId} (hid : Option.Rel m.pair id? id'?) :
    Abreast t
      { owners with handle := Owners.bind owners.handle t (if id?.isSome then key? else none) } m
      (full.keepHandle key? id?) (part.keepHandle key? id'?) := by
  cases hid with
  | some hpair =>
    cases key? with
    | some key => exact h.setHandle key (.shared hpair)
    | none => exact h
  | none => cases key? <;> exact h

theorem setSpan (h : Abreast t owners m full part) (key : String) {handle handle' : Handle}
    (hhandle : m.HandlePair handle handle') (name : String) :
    Abreast t { owners with span := Function.update owners.span key (some t) } m
      { full with spans := full.spans.insert key ⟨handle, name⟩ }
      { part with spans := part.spans.insert key ⟨handle', name⟩ } :=
  { h with spans := h.spans.insert key ⟨hhandle, rfl⟩ }

theorem endSpan (h : Abreast t owners m full part) {key : String}
    (hkey : Owners.Free owners.span t key) :
    (part.spans.get? key).isSome = (full.spans.get? key).isSome ∧
      (part.endSpan key).1 = (full.endSpan key).1 ∧
      Abreast t { owners with span := Function.update owners.span key none } m
        (full.endSpan key).2 (part.endSpan key).2 := by
  have hrel := h.spans.rel hkey
  unfold Session.endSpan
  generalize hfull : full.spans.get? key = span?, hpart : part.spans.get? key = span'? at hrel ⊢
  cases hrel with
  | none =>
    exact ⟨rfl, rfl, { h with
      spans := h.spans.release (fun _ _ => rfl) (fun _ _ => rfl) hfull hpart }⟩
  | @some span span' hspan =>
    obtain ⟨hevents, hexit⟩ := h.exit hspan.handle span.name
    dsimp only
    rw [hspan.name_eq]
    refine ⟨rfl, hevents, { hexit with spans := hexit.spans.release ?_ ?_ ?_ ?_ }⟩
    · exact fun _ hne => by rw [Keyed.get?_erase, if_neg hne]
    · exact fun _ hne => by rw [Keyed.get?_erase, if_neg hne]
    · rw [Keyed.get?_erase, if_pos rfl]
    · rw [Keyed.get?_erase, if_pos rfl]

end Abreast

/-! ### What the thread is told -/

/-- The thread is answered the same about its own affairs in both sessions, which are abreast
afterwards. -/
structure Agree (t : ThreadId) (owners : Owners) (action : Action)
    (result result' : Reply × Session) : Prop where
  reply_eq : action.isPrivate → result'.1 = result.1
  abreast : ∃ later, Abreast t (owners.after t action result.1.answer) later result.2 result'.2

theorem Agree.of_not_private {action : Action} {result result' : Reply × Session}
    (hprivate : action.isPrivate = false)
    (habreast : ∃ later, Abreast t (owners.after t action result.1.answer) later result.2 result'.2) :
    Agree t owners action result result' :=
  ⟨fun htrue => absurd (hprivate.symm.trans htrue) Bool.false_ne_true, habreast⟩

/-! ### Channels -/

/-- The calls came to the same in both sessions, which are abreast afterwards. -/
structure CalledAbreast {α : Type} (t : ThreadId) (owners : Owners) (m : Matching)
    (called called' : Called α) : Prop where
  call_eq : called'.call = called.call
  events_eq : called'.events = called.events
  channel : m.ChannelPair called.channel called'.channel
  session : Abreast t owners m called.session called'.session

theorem CalledAbreast.after {α : Type} {called called' : Called α}
    (h : CalledAbreast t owners m called called') {events events' : List Event}
    (hevents : events' = events) :
    CalledAbreast t owners m (called.after events) (called'.after events') :=
  ⟨h.call_eq, congrArg₂ List.append hevents h.events_eq, h.channel, h.session⟩

namespace Abreast

variable {α : Type} {channel channel' : Channel}

theorem resolve (h : Abreast t owners m full part) {source source' : Source}
    (hsource : m.SourcePair source source') :
    (part.resolve source' t).2.1 = (full.resolve source t).2.1 ∧
      ∃ later, m.Extends later ∧
        later.HandlePair (full.resolve source t).1 (part.resolve source' t).1 ∧
        Abreast t owners later (full.resolve source t).2.2 (part.resolve source' t).2.2 := by
  cases hsource with
  | pinned hhandle => exact ⟨rfl, m, .refl m, hhandle, h⟩
  | perThread id => exact h.handleFor id

theorem untimed (h : Abreast t owners m full part) (hchannel : m.ChannelPair channel channel')
    (operation : Operation α) :
    CalledAbreast t owners m (full.untimed channel operation) (part.untimed channel' operation) := by
  unfold Session.untimed
  rw [hchannel.device_eq, h.clock_eq]
  exact ⟨rfl, rfl, ⟨hchannel.source, rfl, hchannel.region_eq⟩, { h with clock_eq := rfl }⟩

theorem timed (h : Abreast t owners m full part) (hchannel : m.ChannelPair channel channel')
    (operation : Operation α) :
    ∃ later, CalledAbreast t owners later (full.timed channel t operation)
      (part.timed channel' t operation) := by
  obtain ⟨hcreated, later, hm, hhandle, hresolved⟩ := h.resolve hchannel.source
  have hcalled := (hresolved.enter hhandle channel.region).untimed (hchannel.mono hm) operation
  obtain ⟨hended, hafter⟩ := hcalled.session.exit hhandle channel.region
  unfold Session.timed
  dsimp only
  rw [hchannel.region_eq]
  exact ⟨later, hcalled.call_eq, congrArg₂ List.append hcreated hended, hcalled.channel, hafter⟩

theorem readLoop (h : Abreast t owners m full part) (hchannel : m.ChannelPair channel channel')
    (fuel wanted : Nat) (got : List UInt8) :
    ∃ later, CalledAbreast t owners later (Session.readLoop t fuel full channel wanted got)
      (Session.readLoop t fuel part channel' wanted got) := by
  -- The first call may make a new instrument, so that the matching is another one after it.
  induction fuel generalizing m full part channel channel' wanted got with
  | zero => cases wanted <;> exact ⟨m, rfl, rfl, hchannel, h⟩
  | succ fuel ih =>
    cases wanted with
    | zero => exact ⟨m, rfl, rfl, hchannel, h⟩
    | succ wanted =>
      obtain ⟨later, htimed⟩ := h.timed hchannel (Device.read (wanted + 1))
      unfold Session.readLoop
      dsimp only
      rw [htimed.call_eq]
      cases hcall : (full.timed channel t (Device.read (wanted + 1))).call with
      | done bytes =>
        cases bytes with
        | nil => exact ⟨later, rfl, htimed.events_eq, htimed.channel, htimed.session⟩
        | cons byte more =>
          obtain ⟨last, hrest⟩ := ih htimed.session htimed.channel (wanted - more.length)
            (got ++ byte :: more)
          exact ⟨last, hrest.after htimed.events_eq⟩
      | failed failure =>
        dsimp only
        split
        · obtain ⟨last, hrest⟩ := ih htimed.session htimed.channel (wanted + 1) got
          exact ⟨last, hrest.after htimed.events_eq⟩
        · exact ⟨later, htimed⟩
      | crashed message => exact ⟨later, htimed⟩

theorem writeLoop (h : Abreast t owners m full part) (hchannel : m.ChannelPair channel channel')
    (fuel : Nat) (bytes : List UInt8) :
    ∃ later, CalledAbreast t owners later (Session.writeLoop t fuel full channel bytes)
      (Session.writeLoop t fuel part channel' bytes) := by
  induction fuel generalizing m full part channel channel' bytes with
  | zero => cases bytes <;> exact ⟨m, rfl, rfl, hchannel, h⟩
  | succ fuel ih =>
    cases bytes with
    | nil => exact ⟨m, rfl, rfl, hchannel, h⟩
    | cons byte rest =>
      obtain ⟨later, htimed⟩ := h.timed hchannel (Device.write (byte :: rest))
      unfold Session.writeLoop
      dsimp only
      rw [htimed.call_eq]
      cases hcall : (full.timed channel t (Device.write (byte :: rest))).call with
      | done taken =>
        cases taken with
        | zero => exact ⟨later, rfl, htimed.events_eq, htimed.channel, htimed.session⟩
        | succ taken =>
          obtain ⟨last, hrest⟩ := ih htimed.session htimed.channel (rest.drop taken)
          exact ⟨last, hrest.after htimed.events_eq⟩
      | failed failure =>
        dsimp only
        split
        · obtain ⟨last, hrest⟩ := ih htimed.session htimed.channel (byte :: rest)
          exact ⟨last, hrest.after htimed.events_eq⟩
        · exact ⟨later, rfl, htimed.events_eq, htimed.channel, htimed.session⟩
      | crashed message => exact ⟨later, rfl, htimed.events_eq, htimed.channel, htimed.session⟩

theorem readExact (h : Abreast t owners m full part) (hchannel : m.ChannelPair channel channel')
    (n : Nat) : ∃ later, CalledAbreast t owners later (full.readExact channel t n)
      (part.readExact channel' t n) := by
  unfold Session.readExact
  rw [hchannel.device_eq]
  exact h.readLoop hchannel _ n []

theorem writeExact (h : Abreast t owners m full part) (hchannel : m.ChannelPair channel channel')
    (bytes : List UInt8) : ∃ later, CalledAbreast t owners later (full.writeExact channel t bytes)
      (part.writeExact channel' t bytes) := by
  unfold Session.writeExact
  rw [hchannel.device_eq]
  exact h.writeLoop hchannel _ bytes

/-- Calls on a channel of the thread's come to the same if those of channels that belong together
do. -/
theorem callStep (h : Abreast t owners m full part) {action : ChannelAction} {key : String}
    (hkey : Owners.Free owners.channel t key)
    (howners : ∀ answer, owners.after t (.channel action) answer = owners)
    (answer : CallResult α → Answer) {calls calls' : Channel → Called α}
    (hcalls : ∀ {channel channel'}, m.ChannelPair channel channel' →
      ∃ later, CalledAbreast t owners later (calls channel) (calls' channel')) :
    Agree t owners (.channel action) (full.callStep key answer calls)
      (part.callStep key answer calls') := by
  have hrel := h.channels.rel hkey
  unfold Session.callStep
  generalize hfull : full.channels.get? key = channel?, part.channels.get? key = channel'? at hrel ⊢
  cases hrel with
  | none => exact ⟨fun _ => rfl, m, (howners _).symm ▸ h⟩
  | some hchannel =>
    obtain ⟨later, hcalled⟩ := hcalls hchannel
    have hown : owners.channel key = some t := h.channels.owner_eq hkey hfull
    refine ⟨fun _ => ?_, later, ?_⟩
    · dsimp only
      rw [hcalled.call_eq, hcalled.events_eq]
    · rw [howners]
      exact { hcalled.session with
        channels := hcalled.session.channels.replace hown hcalled.channel }

end Abreast

/-! ### Steps -/

namespace Abreast

theorem hold (h : Abreast t owners m full part) {handle handle' : Handle}
    (hhandle : m.HandlePair handle handle') (key : String) {events events' : List Event}
    (hevents : events' = events) :
    (part.hold key handle' events').1 = (full.hold key handle events).1 ∧
      Abreast t { owners with handle := Function.update owners.handle key (some t) } m
        (full.hold key handle events).2 (part.hold key handle' events').2 := by
  unfold Session.hold
  rw [hhandle.isEnabled_eq, hevents]
  exact ⟨rfl, h.setHandle key hhandle⟩

theorem share (h : Abreast t owners m full part) {instrument instrument' : Instrument}
    (hinstrument : instrument' = instrument) :
    ∃ later, m.Extends later ∧
      later.HandlePair (.shared (full.pool.share instrument).1)
        (.shared (part.pool.share instrument').1) ∧
      Abreast t owners later { full with pool := (full.pool.share instrument).2 }
        { part with pool := (part.pool.share instrument').2 } := by
  subst hinstrument
  have hm := m.extends_withPair full.pool.instruments.size part.pool.instruments.size
  exact ⟨_, hm, .shared (.inr ⟨rfl, rfl⟩), h.setPools hm (h.fits.share _)⟩

theorem openRegistry (h : Abreast t owners m full part) (key : String) (enabled : Bool) :
    Abreast t owners m (full.openRegistry key enabled) (part.openRegistry key enabled) := by
  refine ⟨h.toAlike.openRegistry key enabled, ?_⟩
  unfold Session.openRegistry
  split <;> exact h.clock_eq

theorem handleStep (h : Abreast t owners m full part) (action : HandleAction)
    (allow : owners.Allow t (.handle action)) :
    Agree t owners (.handle action) (full.handleStep t action) (part.handleStep t action) := by
  unfold Session.handleStep
  cases action with
  | openRegistry key enabled => exact .of_not_private rfl ⟨m, h.openRegistry key enabled⟩
  | describe key =>
    dsimp only
    rw [h.registryIds_get? key]
    split <;> exact .of_not_private rfl ⟨m, h⟩
  | acquire key registryKey =>
    dsimp only
    rw [h.registryIds_get? registryKey]
    cases full.registryIds.get? registryKey with
    | none => exact ⟨fun _ => rfl, m, h⟩
    | some id =>
      obtain ⟨hevents, later, -, hhandle, hafter⟩ := h.handleFor id
      obtain ⟨hreply, hheld⟩ := hafter.hold hhandle key hevents
      exact ⟨fun _ => hreply, later, hheld⟩
  | inert key =>
    obtain ⟨hreply, hheld⟩ := h.hold .inert key rfl
    exact ⟨fun _ => hreply, m, hheld⟩
  | copy key origin =>
    have hrel := h.handles.rel (allow.handle origin (List.mem_singleton_self _))
    dsimp only
    generalize full.handles.get? origin = handle?, part.handles.get? origin = handle'? at hrel ⊢
    cases hrel with
    | none => exact ⟨fun _ => rfl, m, h⟩
    | some hhandle =>
      obtain ⟨hreply, hheld⟩ := h.hold hhandle key rfl
      exact ⟨fun _ => hreply, m, hheld⟩
  | create key config =>
    obtain ⟨later, -, hhandle, hafter⟩ :=
      h.share (congrArg (Instrument.ofConfig (some config)) h.clock_eq)
    obtain ⟨hreply, hheld⟩ := hafter.hold hhandle key rfl
    exact ⟨fun _ => hreply, later, hheld⟩
  | same first second =>
    have hfirst := h.handles.rel (allow.handle first (by simp [Action.handleKeys]))
    have hsecond := h.handles.rel (allow.handle second (by simp [Action.handleKeys]))
    dsimp only
    generalize full.handles.get? first = a?, part.handles.get? first = a'? at hfirst ⊢
    generalize full.handles.get? second = b?, part.handles.get? second = b'? at hsecond ⊢
    cases hfirst with
    | none => exact ⟨fun _ => rfl, m, h⟩
    | some ha =>
      cases hsecond with
      | none => exact ⟨fun _ => rfl, m, h⟩
      | some hb =>
        refine ⟨fun _ => ?_, m, h⟩
        dsimp only
        rw [decide_eq_decide.mpr (h.fits.handle_eq_iff ha hb)]
  | install registryKey config? key? =>
    dsimp only
    rw [h.registryIds_get? registryKey]
    cases full.registryIds.get? registryKey with
    | none => exact ⟨fun _ => rfl, m, h⟩
    | some id =>
      obtain ⟨hprevious, later, hm, hregistry, hfits⟩ := (h.registry id).install h.fits
        (congrArg (Instrument.ofConfig config?) h.clock_eq)
      have hset := (h.setPools hm hfits).setRegistry id hregistry
      dsimp only
      rw [optionRel_isSome hprevious]
      exact ⟨fun _ => rfl, later, hset.keepHandle key? (optionRel_mono hm.pair hprevious)⟩
  | remove registryKey key? =>
    dsimp only
    rw [h.registryIds_get? registryKey]
    cases full.registryIds.get? registryKey with
    | none => exact ⟨fun _ => rfl, m, h⟩
    | some id =>
      obtain ⟨hremoved, hevents, hregistry⟩ := (h.registry id).remove
      have hset := h.setRegistry id hregistry
      dsimp only
      rw [optionRel_isSome hremoved, hevents]
      exact ⟨fun _ => rfl, m, hset.keepHandle key? hremoved⟩
  | span key handleKey name =>
    have hrel := h.handles.rel (allow.handle handleKey (List.mem_singleton_self _))
    have hkey := allow.span key (List.mem_singleton_self _)
    dsimp only
    generalize full.handles.get? handleKey = handle?, part.handles.get? handleKey = handle'?
      at hrel ⊢
    cases hrel with
    | none => exact ⟨fun _ => rfl, m, h⟩
    | some hhandle =>
      -- The span that had the key ends after the entry, and the key is free for the new one.
      obtain ⟨-, hevents, hended⟩ := (h.enter hhandle name).endSpan hkey
      have hset := hended.setSpan key hhandle name
      dsimp only at hset ⊢
      rw [Function.update_idem] at hset
      rw [hevents]
      exact ⟨fun _ => rfl, m, hset⟩
  | endSpan key =>
    obtain ⟨hsome, hevents, hended⟩ := h.endSpan (allow.span key (List.mem_singleton_self _))
    dsimp only
    rw [hsome, hevents]
    exact ⟨fun _ => rfl, m, hended⟩

theorem requestStep (h : Abreast t owners m full part) {handleKey : String} (request : Request)
    (allow : owners.Allow t (.request handleKey request)) :
    Agree t owners (.request handleKey request) (full.requestStep handleKey request)
      (part.requestStep handleKey request) := by
  have hrel := h.handles.rel (allow.handle handleKey (List.mem_singleton_self _))
  unfold Session.requestStep
  generalize full.handles.get? handleKey = handle?, part.handles.get? handleKey = handle'? at hrel ⊢
  cases hrel with
  | none => exact ⟨fun _ => rfl, m, h⟩
  | some hhandle =>
    dsimp only
    rw [h.instrument_eq hhandle, h.clock_eq]
    have hserved := h.replaceInstrument hhandle
    refine ⟨fun _ => rfl, m, ?_⟩
    -- Reports that are kept are not compared.
    dsimp only
    unfold keepReport
    split
    · exact { hserved _ with }
    · exact hserved _

theorem source? (h : Abreast t owners m full part) {source : SourceKey}
    (hkeys : ∀ key ∈ source.handleKeys, Owners.Free owners.handle t key) :
    Option.Rel m.SourcePair (full.source? source) (part.source? source) := by
  cases source with
  | handle key =>
    have hrel := h.handles.rel (hkeys key (List.mem_singleton_self _))
    dsimp only [Session.source?]
    generalize full.handles.get? key = handle?, part.handles.get? key = handle'? at hrel ⊢
    cases hrel with
    | none => exact .none
    | some hhandle => exact .some (.pinned hhandle)
  | registry key =>
    dsimp only [Session.source?]
    rw [h.registryIds_get? key]
    cases full.registryIds.get? key with
    | none => exact .none
    | some id => exact .some (.perThread id)

theorem channelStep (h : Abreast t owners m full part) (action : ChannelAction)
    (allow : owners.Allow t (.channel action)) :
    Agree t owners (.channel action) (full.channelStep t action) (part.channelStep t action) := by
  unfold Session.channelStep
  cases action with
  | create key region source device =>
    have hrel := h.source? allow.handle
    dsimp only
    generalize full.source? source = source?, part.source? source = source'? at hrel ⊢
    cases hrel with
    | none => exact ⟨fun _ => rfl, m, h⟩
    | some hsource =>
      exact ⟨fun _ => rfl, m, { h with channels := h.channels.insert key ⟨hsource, rfl, rfl⟩ }⟩
  | read key n =>
    exact h.callStep (allow.channel key (List.mem_singleton_self _)) (fun _ => rfl) .read
      fun hchannel => h.timed hchannel (Device.read n)
  | readExact key n =>
    exact h.callStep (allow.channel key (List.mem_singleton_self _)) (fun _ => rfl) .read
      fun hchannel => h.readExact hchannel n
  | write key bytes =>
    exact h.callStep (allow.channel key (List.mem_singleton_self _)) (fun _ => rfl) .wrote
      fun hchannel => h.timed hchannel (Device.write bytes)
  | writeExact key bytes =>
    exact h.callStep (allow.channel key (List.mem_singleton_self _)) (fun _ => rfl) .completed
      fun hchannel => h.writeExact hchannel bytes
  | flush key =>
    exact h.callStep (allow.channel key (List.mem_singleton_self _)) (fun _ => rfl) .completed
      fun hchannel => h.timed hchannel Device.flush
  | readInner key n =>
    exact h.callStep (allow.channel key (List.mem_singleton_self _)) (fun _ => rfl) .read
      fun hchannel => ⟨m, h.untimed hchannel (Device.read n)⟩
  | writeInner key bytes =>
    exact h.callStep (allow.channel key (List.mem_singleton_self _)) (fun _ => rfl) .wrote
      fun hchannel => ⟨m, h.untimed hchannel (Device.write bytes)⟩
  | left key | received key =>
    have hrel := h.channels.rel (allow.channel key (List.mem_singleton_self _))
    dsimp only
    generalize full.channels.get? key = channel?, part.channels.get? key = channel'? at hrel ⊢
    cases hrel with
    | none => exact ⟨fun _ => rfl, m, h⟩
    | some hchannel =>
      dsimp only
      rw [hchannel.device_eq]
      exact ⟨fun _ => rfl, m, h⟩
  | close key =>
    have hkey := allow.channel key (List.mem_singleton_self _)
    have hrel := h.channels.rel hkey
    dsimp only
    generalize hfull : full.channels.get? key = channel?, part.channels.get? key = channel'?
      at hrel ⊢
    cases hrel with
    | none => exact ⟨fun _ => rfl, m, h⟩
    | some hchannel =>
      dsimp only
      rw [hchannel.device_eq]
      exact ⟨fun _ => rfl, m, { h with
        channels := h.channels.erase (h.channels.owner_eq hkey hfull) }⟩

theorem setThread (h : Abreast t owners m full part) (id : ThreadId) {thread thread' : Thread}
    (hthread : id = t → thread' = thread) :
    Abreast t owners m (full.setThread id thread) (part.setThread id thread') :=
  ⟨h.toAlike.setThread hthread, h.clock_eq⟩

theorem top?_eq (h : Abreast t owners m full part) : part.top? t = full.top? t := by
  rw [Session.top?, h.thread_eq, Session.top?]

theorem stackStep (h : Abreast t owners m full part) (action : StackAction) :
    Agree t owners (.stack action) (full.stackStep t action) (part.stackStep t action) := by
  unfold Session.stackStep
  cases action with
  | push key site =>
    have hset := h.setThread t fun _ => congrArg (Thread.push · key site) h.thread_eq
    refine ⟨fun _ => ?_, m, hset⟩
    dsimp only
    rw [hset.top?_eq]
  | endFrame key =>
    dsimp only
    rw [h.thread_eq]
    cases (full.thread t).endFrame? key with
    | none =>
      dsimp only
      rw [h.top?_eq]
      exact ⟨fun _ => rfl, m, h⟩
    | some ended =>
      have hset := h.setThread t fun _ => Eq.refl ended
      refine ⟨fun _ => ?_, m, hset⟩
      dsimp only
      rw [hset.top?_eq]
  | observe key =>
    dsimp only
    rw [h.top?_eq]
    exact ⟨fun _ => rfl, m, { h with }⟩
  | look key =>
    dsimp only
    split <;> split <;> exact .of_not_private rfl ⟨m, h⟩
  | compare site =>
    dsimp only
    rw [h.top?_eq]
    exact ⟨fun _ => rfl, m, h⟩

theorem spawn (h : Abreast t owners m full part) (key : String) (name? : Option String) :
    Abreast t owners m (full.spawn key name?) (part.spawn key name?) :=
  ⟨h.toAlike.spawn key name?, h.clock_eq⟩

theorem join (h : Abreast t owners m full part) (id : ThreadId) :
    Abreast t owners m (full.join id) (part.join id) := by
  have hfinish : id = t → (part.thread id).finish = (full.thread id).finish := by
    rintro rfl
    rw [h.thread_eq]
  exact (h.setThread id hfinish).setRegistry globalId ((h.registry globalId).remove_both id)

/-- What concerns threads is the same in both sessions, whoever does it. -/
theorem threadStep (h : Abreast t owners m full part) (action : ThreadAction) :
    Abreast t owners m (full.threadStep action).2 (part.threadStep action).2 := by
  unfold Session.threadStep
  cases action with
  | spawn key name? =>
    dsimp only
    split
    · exact h
    · exact h.spawn key name?
  | join key =>
    dsimp only
    rw [h.threadIds_eq]
    split
    · exact h
    · exact h.join _

end Abreast

theorem Abreast.threadId_eq (h : Abreast t owners m full part) (key : String) :
    part.threadId key = full.threadId key := by
  rw [threadId, h.threadIds_eq, threadId]

/-- **The thread does the same in both sessions**, and is answered the same about its own affairs. -/
theorem Abreast.step (h : Abreast t owners m full part) (step : Step)
    (hthread : full.threadId step.thread = t) (allow : owners.Allow t step.action) :
    Agree t owners step.action (full.step step) (part.step step) := by
  obtain ⟨thread, action⟩ := step
  unfold Session.step
  rw [h.threadId_eq, hthread]
  match action with
  | .clock change =>
    exact .of_not_private rfl
      ⟨m, { h with clock_eq := congrArg (Clock.change · change) h.clock_eq }⟩
  | .recall key =>
    dsimp only
    split <;> split <;> exact .of_not_private rfl ⟨m, h⟩
  | .thread action => exact .of_not_private rfl ⟨m, h.threadStep action⟩
  | .handle action => exact h.handleStep action allow
  | .request handleKey request => exact h.requestStep request allow
  | .channel action => exact h.channelStep action allow
  | .stack action => exact h.stackStep action
  | .sampler action =>
    obtain ⟨samplers, hfull⟩ := full.exists_samplers t action
    obtain ⟨samplers', hpart⟩ := part.exists_samplers t action
    refine .of_not_private rfl ⟨m, ?_⟩
    dsimp only
    rw [hfull, hpart]
    exact { h with }

end Session

end Profiler
