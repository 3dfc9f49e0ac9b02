import Profiler.Proofs.Session.Lockstep

/-!
# What other threads do leaves sessions alike

Whatever another thread does with what belongs to it, the session stays alike, for the thread, to
one in which nothing of it is done: `Session.Alike.step_foreign`. Only the clock may have changed.
-/

namespace Profiler

/-! ### Pools and registries -/

theorem Matching.Fits.replace_foreign {m : Matching} {full part : Pool} (h : m.Fits full part)
    {handle : Handle} (hhandle : m.HandleForeign handle) (instrument : Instrument) :
    m.Fits (handle.replace full instrument) part := by
  cases hhandle with
  | shared hi => exact h.set_foreign hi instrument
  | inert => exact h

namespace Registry.Alike

variable {t u : ThreadId} {m : Matching} {full part : Registry} {pool pool' : Pool}
  (h : Alike t m full part) (hu : u ≠ t)
include h hu

theorem handleFor_foreign (hfits : m.Fits pool pool') (name : String) (clock : Clock) :
    ∃ later, m.Extends later ∧
      later.HandleForeign (full.handleFor pool u name clock).1 ∧
      Alike t later (full.handleFor pool u name clock).2.2.1 part ∧
      later.Fits (full.handleFor pool u name clock).2.2.2 pool' := by
  unfold Registry.handleFor
  split
  · cases hslot : full.slots.get? u with
    | some i => exact ⟨m, .refl m, .shared (h.foreign hu hslot), h, hfits⟩
    | none =>
      exact ⟨_, m.extends_withForeign _, .shared (.inr rfl), h.insert_foreign hu _,
        hfits.share_foreign _⟩
  · exact ⟨m, .refl m, .inert, h, hfits⟩

theorem install_foreign (hfits : m.Fits pool pool') (instrument : Instrument) :
    (∀ {i}, (full.install pool u instrument).1 = some i → m.foreign i) ∧
      ∃ later, m.Extends later ∧ Alike t later (full.install pool u instrument).2.1 part ∧
        later.Fits (full.install pool u instrument).2.2 pool' := by
  unfold Registry.install
  split
  · exact ⟨h.foreign hu, _, m.extends_withForeign _, h.insert_foreign hu _, hfits.share_foreign _⟩
  · exact ⟨fun hi => absurd hi (Option.some_ne_none _).symm, m, .refl m, h, hfits⟩

theorem foreign_of_remove {i : InstrumentId} (hi : (full.remove u).1 = some i) : m.foreign i := by
  unfold Registry.remove at hi
  split at hi
  · split at hi
    · next hslot => exact h.foreign hu (hslot.trans hi)
    · cases hi
  · cases hi

end Registry.Alike

namespace Session

variable {t u : ThreadId} {owners : Owners} {m : Matching} {full part : Session}

theorem Owners.Free.ne {owner : String → Option ThreadId} {key : String}
    (hkey : Free owner u key) (hu : u ≠ t) : owner key ≠ some t := by
  rcases hkey with hkey | hkey <;> rw [hkey]
  · nofun
  · exact fun heq => hu (Option.some.inj heq)

namespace Alike

/-! ### Handles -/

theorem replaceInstrument_foreign (h : Alike t owners m full part) {handle : Handle}
    (hhandle : m.HandleForeign handle) (instrument : Instrument) :
    Alike t owners m (full.replaceInstrument handle instrument) part :=
  h.setPool (.refl m) (h.fits.replace_foreign hhandle instrument)

theorem enter_foreign (h : Alike t owners m full part) {handle : Handle}
    (hhandle : m.HandleForeign handle) (name : String) :
    Alike t owners m (full.enter handle name) part :=
  h.replaceInstrument_foreign hhandle _

theorem exit_foreign (h : Alike t owners m full part) {handle : Handle}
    (hhandle : m.HandleForeign handle) (name : String) :
    Alike t owners m (full.exit handle name).2 part :=
  h.replaceInstrument_foreign hhandle _

theorem share_foreign (h : Alike t owners m full part) (instrument : Instrument) :
    ∃ later, m.Extends later ∧ later.HandleForeign (.shared (full.pool.share instrument).1) ∧
      Alike t owners later { full with pool := (full.pool.share instrument).2 } part :=
  have hm := m.extends_withForeign full.pool.instruments.size
  ⟨_, hm, .shared (.inr rfl), h.setPool hm (h.fits.share_foreign _)⟩

section

variable (h : Alike t owners m full part) (hu : u ≠ t)
include h hu

theorem handleFor_foreign (id : RegistryId) :
    ∃ later, m.Extends later ∧ later.HandleForeign (full.handleFor id u).1 ∧
      Alike t owners later (full.handleFor id u).2.2 part := by
  obtain ⟨later, hm, hhandle, hregistry, hfits⟩ :=
    (h.registry id).handleFor_foreign hu h.fits (full.thread u).name full.clock
  exact ⟨later, hm, hhandle, (h.setPool hm hfits).setRegistry_foreign hregistry⟩

theorem setHandle_foreign (key : String) {handle : Handle} (hhandle : m.HandleForeign handle) :
    Alike t { owners with handle := Function.update owners.handle key (some u) } m
      (full.setHandle key handle) part :=
  { h with handles := h.handles.insert_foreign key hu hhandle }

theorem keepHandle_foreign (key? : Option String) {id? : Option InstrumentId}
    (hid : ∀ {i}, id? = some i → m.foreign i) :
    Alike t { owners with handle := Owners.bind owners.handle u (if id?.isSome then key? else none) }
      m (full.keepHandle key? id?) part := by
  cases id? with
  | some i =>
    cases key? with
    | some key => exact h.setHandle_foreign hu key (.shared (hid rfl))
    | none => exact h
  | none => cases key? <;> exact h

theorem setSpan_foreign {key : String} (hkey : owners.span key ≠ some t) {handle : Handle}
    (hhandle : m.HandleForeign handle) (name : String) :
    Alike t { owners with span := Function.update owners.span key (some u) } m
      { full with spans := full.spans.insert key ⟨handle, name⟩ } part :=
  { h with spans := h.spans.insert_foreign hkey hu hhandle }

theorem endSpan_foreign {key : String} (hkey : Owners.Free owners.span u key) :
    Alike t { owners with span := Function.update owners.span key none } m (full.endSpan key).2
      part := by
  -- The key is not the thread's, so there is no span to end in the second session.
  have hpart : part.spans.get? key = none := h.spans.none_of (hkey.ne hu)
  unfold Session.endSpan
  cases hfull : full.spans.get? key with
  | none =>
    exact { h with spans := h.spans.release (fun _ _ => rfl) (fun _ _ => rfl) hfull hpart }
  | some span =>
    have hexit := h.exit_foreign (h.spans.foreign_of hu hkey hfull) span.name
    refine { hexit with spans := hexit.spans.release ?_ (fun _ _ => rfl) ?_ hpart }
    · exact fun _ hne => by rw [Keyed.get?_erase, if_neg hne]
    · rw [Keyed.get?_erase, if_pos rfl]

theorem handleStep_foreign (action : HandleAction) (allow : owners.Allow u (.handle action))
    (hopen : ∀ key enabled, action ≠ .openRegistry key enabled) :
    ∃ later, Alike t (owners.after u (.handle action) (full.handleStep u action).1.answer) later
      (full.handleStep u action).2 part := by
  unfold Session.handleStep
  cases action with
  | openRegistry key enabled => exact absurd rfl (hopen key enabled)
  | describe key =>
    dsimp only
    split <;> exact ⟨m, h⟩
  | acquire key registryKey =>
    dsimp only
    cases full.registryIds.get? registryKey with
    | none => exact ⟨m, h⟩
    | some id =>
      obtain ⟨later, -, hhandle, hafter⟩ := h.handleFor_foreign hu id
      exact ⟨later, hafter.setHandle_foreign hu key hhandle⟩
  | inert key => exact ⟨m, h.setHandle_foreign hu key .inert⟩
  | copy key origin =>
    dsimp only
    cases hget : full.handles.get? origin with
    | none => exact ⟨m, h⟩
    | some handle =>
      have hhandle := h.handles.foreign_of hu (allow.handle origin (List.mem_singleton_self _)) hget
      exact ⟨m, h.setHandle_foreign hu key hhandle⟩
  | create key config =>
    obtain ⟨later, -, hhandle, hafter⟩ := h.share_foreign (.ofConfig (some config) full.clock)
    exact ⟨later, hafter.setHandle_foreign hu key hhandle⟩
  | same first second =>
    dsimp only
    split <;> exact ⟨m, h⟩
  | install registryKey config? key? =>
    dsimp only
    cases full.registryIds.get? registryKey with
    | none => exact ⟨m, h⟩
    | some id =>
      obtain ⟨hprevious, later, hm, hregistry, hfits⟩ := (h.registry id).install_foreign hu h.fits
        (Instrument.ofConfig config? full.clock)
      have hset := (h.setPool hm hfits).setRegistry_foreign hregistry
      exact ⟨later, hset.keepHandle_foreign hu key? fun hi => hm.foreign (hprevious hi)⟩
  | remove registryKey key? =>
    dsimp only
    cases full.registryIds.get? registryKey with
    | none => exact ⟨m, h⟩
    | some id =>
      have hset := h.setRegistry_foreign ((h.registry id).remove_foreign hu)
      exact ⟨m, hset.keepHandle_foreign hu key? ((h.registry id).foreign_of_remove hu)⟩
  | span key handleKey name =>
    dsimp only
    cases hget : full.handles.get? handleKey with
    | none => exact ⟨m, h⟩
    | some handle =>
      have hhandle := h.handles.foreign_of hu
        (allow.handle handleKey (List.mem_singleton_self _)) hget
      have hended := (h.enter_foreign hhandle name).endSpan_foreign hu
        (allow.span key (List.mem_singleton_self _))
      have hfree : Function.update owners.span key none key ≠ some t := by
        rw [Function.update_self]
        nofun
      have hset := hended.setSpan_foreign hu hfree hhandle name
      dsimp only at hset
      rw [Function.update_idem] at hset
      exact ⟨m, hset⟩
  | endSpan key => exact ⟨m, h.endSpan_foreign hu (allow.span key (List.mem_singleton_self _))⟩

theorem requestStep_foreign {handleKey : String} (request : Request)
    (allow : owners.Allow u (.request handleKey request)) :
    Alike t owners m (full.requestStep handleKey request).2 part := by
  unfold Session.requestStep
  cases hget : full.handles.get? handleKey with
  | none => exact h
  | some handle =>
    have hhandle := h.handles.foreign_of hu (allow.handle handleKey (List.mem_singleton_self _)) hget
    have hserved := h.replaceInstrument_foreign hhandle
    dsimp only
    unfold keepReport
    split
    · exact { hserved _ with }
    · exact hserved _

/-! ### Channels -/

theorem resolve_foreign {source : Source} (hsource : m.SourceForeign source) :
    ∃ later, m.Extends later ∧ later.HandleForeign (full.resolve source u).1 ∧
      Alike t owners later (full.resolve source u).2.2 part := by
  cases hsource with
  | pinned hhandle => exact ⟨m, .refl m, hhandle, h⟩
  | perThread id => exact h.handleFor_foreign hu id

theorem timed_foreign {channel : Channel} (hchannel : m.ChannelForeign channel) {α : Type}
    (operation : Operation α) :
    ∃ later, Alike t owners later (full.timed channel u operation).session part ∧
      later.ChannelForeign (full.timed channel u operation).channel := by
  obtain ⟨later, hm, hhandle, hresolved⟩ := h.resolve_foreign hu hchannel
  have hentered := hresolved.enter_foreign hhandle channel.region
  have hcalled : Alike t owners later
      (((full.resolve channel.source u).2.2.enter (full.resolve channel.source u).1
        channel.region).untimed channel operation).session part := { hentered with }
  exact ⟨later, hcalled.exit_foreign hhandle channel.region, hchannel.mono hm⟩

theorem readExact_foreign {channel : Channel} (hchannel : m.ChannelForeign channel) (n : Nat) :
    ∃ later, Alike t owners later (full.readExact channel u n).session part ∧
      later.ChannelForeign (full.readExact channel u n).channel := by
  refine (makes_readLoop u _ full channel n []).keeps (P := fun session channel =>
    ∃ later, Alike t owners later session part ∧ later.ChannelForeign channel)
    (fun operation hbefore => ?_) ⟨m, h, hchannel⟩
  obtain ⟨later, h', hchannel'⟩ := hbefore
  exact h'.timed_foreign hu hchannel' operation

theorem writeExact_foreign {channel : Channel} (hchannel : m.ChannelForeign channel)
    (bytes : List UInt8) :
    ∃ later, Alike t owners later (full.writeExact channel u bytes).session part ∧
      later.ChannelForeign (full.writeExact channel u bytes).channel := by
  refine (makes_writeLoop u _ full channel bytes).keeps (P := fun session channel =>
    ∃ later, Alike t owners later session part ∧ later.ChannelForeign channel)
    (fun operation hbefore => ?_) ⟨m, h, hchannel⟩
  obtain ⟨later, h', hchannel'⟩ := hbefore
  exact h'.timed_foreign hu hchannel' operation

theorem callStep_foreign {key : String} (hkey : Owners.Free owners.channel u key) {α : Type}
    (answer : CallResult α → Answer) {calls : Channel → Called α}
    (hcalls : ∀ {channel}, m.ChannelForeign channel →
      ∃ later, Alike t owners later (calls channel).session part ∧
        later.ChannelForeign (calls channel).channel) :
    ∃ later, Alike t owners later (full.callStep key answer calls).2 part := by
  unfold Session.callStep
  cases hget : full.channels.get? key with
  | none => exact ⟨m, h⟩
  | some channel =>
    obtain ⟨later, hsession, hchannel⟩ := hcalls (h.channels.foreign_of hu hkey hget)
    have hown : owners.channel key = some u := h.channels.owner_eq hkey hget
    exact ⟨later, { hsession with
      channels := hsession.channels.replace_foreign hown hu hchannel }⟩

theorem foreign_of_source? {source : SourceKey}
    (hkeys : ∀ key ∈ source.handleKeys, Owners.Free owners.handle u key) {found : Source}
    (hfound : full.source? source = some found) : m.SourceForeign found := by
  cases source with
  | handle key =>
    obtain ⟨handle, hget, rfl⟩ := Option.map_eq_some_iff.mp hfound
    exact .pinned (h.handles.foreign_of hu (hkeys key (List.mem_singleton_self _)) hget)
  | registry key =>
    obtain ⟨id, -, rfl⟩ := Option.map_eq_some_iff.mp hfound
    exact .perThread id

theorem channelStep_foreign (action : ChannelAction) (allow : owners.Allow u (.channel action)) :
    ∃ later, Alike t (owners.after u (.channel action) (full.channelStep u action).1.answer) later
      (full.channelStep u action).2 part := by
  unfold Session.channelStep
  cases action with
  | create key region source device =>
    dsimp only
    cases hget : full.source? source with
    | none => exact ⟨m, h⟩
    | some found =>
      have hsource := h.foreign_of_source? hu allow.handle hget
      exact ⟨m, { h with channels := h.channels.insert_foreign key hu hsource }⟩
  | read key n =>
    exact h.callStep_foreign hu (allow.channel key (List.mem_singleton_self _)) .read
      fun hchannel => h.timed_foreign hu hchannel (Device.read n)
  | readExact key n =>
    exact h.callStep_foreign hu (allow.channel key (List.mem_singleton_self _)) .read
      fun hchannel => h.readExact_foreign hu hchannel n
  | write key bytes =>
    exact h.callStep_foreign hu (allow.channel key (List.mem_singleton_self _)) .wrote
      fun hchannel => h.timed_foreign hu hchannel (Device.write bytes)
  | writeExact key bytes =>
    exact h.callStep_foreign hu (allow.channel key (List.mem_singleton_self _)) .completed
      fun hchannel => h.writeExact_foreign hu hchannel bytes
  | flush key =>
    exact h.callStep_foreign hu (allow.channel key (List.mem_singleton_self _)) .completed
      fun hchannel => h.timed_foreign hu hchannel Device.flush
  | readInner key n =>
    exact h.callStep_foreign hu (allow.channel key (List.mem_singleton_self _)) .read
      fun hchannel => ⟨m, { h with }, hchannel⟩
  | writeInner key bytes =>
    exact h.callStep_foreign hu (allow.channel key (List.mem_singleton_self _)) .wrote
      fun hchannel => ⟨m, { h with }, hchannel⟩
  | left key | received key =>
    dsimp only
    split <;> exact ⟨m, h⟩
  | close key =>
    dsimp only
    cases hget : full.channels.get? key with
    | none => exact ⟨m, h⟩
    | some channel =>
      have hown : owners.channel key = some u :=
        h.channels.owner_eq (allow.channel key (List.mem_singleton_self _)) hget
      exact ⟨m, { h with channels := h.channels.erase_foreign hown hu }⟩

/-! ### Threads and call stacks -/

theorem stackStep_foreign (action : StackAction) :
    Alike t owners m (full.stackStep u action).2 part := by
  unfold Session.stackStep
  cases action with
  | push key site => exact h.setThread_foreign hu _
  | endFrame key =>
    dsimp only
    split
    · exact h
    · exact h.setThread_foreign hu _
  | observe key => exact { h with }
  | look key =>
    dsimp only
    split <;> exact h
  | compare site => exact h

theorem join_foreign : Alike t owners m (full.join u) part :=
  (h.setThread_foreign hu _).setRegistry_foreign ((h.registry globalId).remove_foreign hu)

end

/-- **What another thread does leaves the sessions alike.** -/
theorem step_foreign (h : Alike t owners m full part) (step : Step)
    (hkept : full.isKept t step = false)
    (allow : owners.Allow (full.threadId step.thread) step.action) :
    ∃ later, Alike t
      (owners.after (full.threadId step.thread) step.action (full.step step).1.answer) later
      (full.step step).2 part := by
  obtain ⟨hthread, haction⟩ := Bool.or_eq_false_iff.mp hkept
  have hu : full.threadId step.thread ≠ t := of_decide_eq_false hthread
  obtain ⟨thread, action⟩ := step
  unfold Session.step
  dsimp only at hu haction allow ⊢
  match action with
  | .clock change => cases haction
  | .recall key =>
    dsimp only
    split <;> exact ⟨m, h⟩
  | .thread (.spawn key name?) => cases haction
  | .thread (.join key) =>
    have hid : full.threadIds.get? key ≠ some t := of_decide_eq_false haction
    dsimp only [threadStep]
    split
    · exact ⟨m, h⟩
    · next id hget =>
      rw [hget] at hid
      exact ⟨m, h.join_foreign fun heq => hid (congrArg some heq)⟩
  | .handle action =>
    refine h.handleStep_foreign hu action allow fun key enabled heq => ?_
    rw [heq] at haction
    cases haction
  | .request handleKey request => exact ⟨m, h.requestStep_foreign hu request allow⟩
  | .channel action => exact h.channelStep_foreign hu action allow
  | .stack action => exact ⟨m, h.stackStep_foreign hu action⟩
  | .sampler action =>
    obtain ⟨samplers, hfull⟩ := full.exists_samplers (full.threadId thread) action
    refine ⟨m, ?_⟩
    dsimp only
    rw [hfull]
    exact { h with }

end Alike

end Session

end Profiler
