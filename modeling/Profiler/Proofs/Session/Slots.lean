import Profiler.Proofs.Session.Deeds
import Profiler.Proofs.Session.Parts
import Profiler.Proofs.Session.Timed

/-!
# The slots of the registries of a session

`Session.Deals` says of a step that it does with the slots what its deeds are and nothing else, and
that it speaks of these. So at any time there is in each slot what its history says, whatever the
threads have done in whatever order (`Session.slotsOf_after`).
-/

namespace Profiler

open SlotDeed SlotHistory

namespace Session

/-! ### Sessions and their histories -/

/-- In each slot is what the history says. -/
structure Traces (session : Session) (history : SlotHistory) : Prop where
  arises : SlotHistory.Arises session.pool.instruments.size history
  inSlot_eq : ∀ slot, session.inSlot slot = occupant? (history.deedsIn slot)

theorem Traces.lt_size {session : Session} {history : SlotHistory} (h : session.Traces history)
    {slot : Slot} {id : InstrumentId} (hslot : session.inSlot slot = some id) :
    id < session.pool.instruments.size := by
  rw [h.inSlot_eq] at hslot
  exact h.arises.lt_of_occupant hslot

/-- The later session is the earlier one after the deeds, and the events tell of these. -/
structure Deals (session later : Session) (deeds : SlotHistory) (events : List Event) : Prop where
  traces : ∀ {history : SlotHistory}, session.Traces history → later.Traces (history ++ deeds)
  announced : ∀ {history : SlotHistory}, session.Traces history →
    events.filter Event.isOfSlot =
      deeds.flatMap fun entry => entry.2.announced (session.thread entry.1.thread).name

namespace Deals

variable {session later last : Session}

theorem of_inSlot_eq {events : List Event}
    (hslots : ∀ slot, later.inSlot slot = session.inSlot slot)
    (hsize : session.pool.instruments.size ≤ later.pool.instruments.size)
    (hevents : events.filter Event.isOfSlot = []) : Deals session later [] events where
  traces h := by
    rw [List.append_nil]
    exact ⟨h.arises.grow hsize, fun slot => (hslots slot).trans (h.inSlot_eq slot)⟩
  announced _ := hevents

theorem of_same {events : List Event} (hregistries : later.registries = session.registries)
    (hsize : session.pool.instruments.size ≤ later.pool.instruments.size)
    (hevents : events.filter Event.isOfSlot = []) : Deals session later [] events := by
  refine .of_inSlot_eq (fun slot => ?_) hsize hevents
  rw [inSlot, inSlot, registry, registry, hregistries]

/-- What changes neither registries nor the bound of the timers is no deed. -/
theorem kept {deeds : SlotHistory} {events : List Event} (h : Deals session later deeds events)
    (hregistries : last.registries = later.registries)
    (hsize : later.pool.instruments.size ≤ last.pool.instruments.size) :
    Deals session last deeds events where
  traces htraces := by
    have hlast : Deals later last [] [] := .of_same hregistries hsize rfl
    rw [← List.append_nil deeds, ← List.append_assoc]
    exact hlast.traces (h.traces htraces)
  announced := h.announced

/-- The names of the threads must still be the same when more is said. -/
theorem trans {deeds rest : SlotHistory} {events more : List Event}
    (h : Deals session later deeds events)
    (hthreads : later.threads = session.threads) (h' : Deals later last rest more) :
    Deals session last (deeds ++ rest) (events ++ more) where
  traces htraces := by
    rw [← List.append_assoc]
    exact h'.traces (h.traces htraces)
  announced htraces := by
    have hthread : ∀ id, later.thread id = session.thread id := fun id => by
      rw [thread, thread, hthreads]
    simp only [List.filter_append, List.flatMap_append, h.announced htraces,
      h'.announced (h.traces htraces), hthread]

/-- One deed in one slot. -/
theorem turn {slot : Slot} {deed : SlotDeed} {events : List Event}
    (hslot : ∀ other, later.inSlot other =
      if other = slot then deed.leaves (session.inSlot slot) else session.inSlot other)
    (hfits : deed.Fits (session.inSlot slot))
    (hle : session.pool.instruments.size ≤ later.pool.instruments.size)
    (hfresh : ∀ id ∈ deed.arrived?,
      session.pool.instruments.size ≤ id ∧ id < later.pool.instruments.size)
    (hevents : events.filter Event.isOfSlot = deed.announced (session.thread slot.thread).name) :
    Deals session later [(slot, deed)] events where
  traces htraces := by
    rw [htraces.inSlot_eq] at hfits
    refine ⟨htraces.arises.turn slot hfits hle hfresh, fun other => ?_⟩
    rw [hslot]
    split_ifs with hother
    · rw [hother, deedsIn_append_self, occupant?_append, htraces.inSlot_eq]
    · rw [deedsIn_append_of_ne _ (Ne.symm hother), htraces.inSlot_eq]
  announced _ := by
    rw [hevents]
    exact (List.append_nil _).symm

end Deals

theorem lt_of_enabled {session : Session} {id : RegistryId}
    (h : (session.registry id).enabled = true) : id < session.registries.size := by
  by_contra hge
  rw [registry, Array.getD_eq_getD_getElem?, Array.getElem?_eq_none (Nat.not_lt.mp hge)] at h
  cases h

/-- Only the slot of one thread changes if the registry changes only for this thread. -/
theorem inSlot_of_setRegistry {session later : Session} {id : RegistryId} {thread : ThreadId}
    {after : Registry} {occupant? : Option InstrumentId} (hlt : id < session.registries.size)
    (hlater : later.registries = session.registries.setIfInBounds id after)
    (hafter : ∀ other, after.slots.get? other =
      if other = thread then occupant? else (session.registry id).slots.get? other)
    (slot : Slot) :
    later.inSlot slot = if slot = ⟨id, thread⟩ then occupant? else session.inSlot slot := by
  obtain ⟨other, asker⟩ := slot
  have hregistry : later.registry other = (session.setRegistry id after).registry other := by
    rw [registry, hlater]
    rfl
  rw [inSlot, inSlot, hregistry, registry_setRegistry]
  dsimp only
  by_cases hother : other = id
  · subst hother
    rw [if_pos ⟨rfl, hlt⟩, hafter]
    simp
  · rw [if_neg fun h => hother h.1]
    simp [hother]

variable (session : Session)

/-! ### Asking for a timer -/

theorem deals_resolve (source : Source) (thread : ThreadId) :
    Deals session (session.resolve source thread).2.2 (session.asked source thread)
      (session.resolve source thread).2.1 := by
  have h := session.resolves_resolve source thread
  unfold asked
  generalize (session.resolve source thread).1 = handle at h ⊢
  generalize (session.resolve source thread).2.1 = events at h ⊢
  generalize (session.resolve source thread).2.2 = later at h ⊢
  cases h with
  | pinned handle => exact .of_same rfl (Nat.le_refl _) rfl
  | disabled _ => exact .of_same rfl (Nat.le_refl _) rfl
  | @known id instrument henabled hslot =>
    -- What is in a slot is one of the timers that there are, so it counts as handed.
    dsimp only
    have hinSlot : session.inSlot ⟨id, thread⟩ = some instrument := hslot
    have hhanded : Deals session session [(⟨id, thread⟩, .handed instrument)] [] := by
      refine .turn (fun other => ?_) ?_ (Nat.le_refl _) nofun rfl
      · split_ifs with hother
        · rw [hother]
          rfl
        · rfl
      · rw [hinSlot]
        exact .handed instrument
    constructor
    · intro history htraces
      rw [if_pos (htraces.lt_size hinSlot)]
      exact hhanded.traces htraces
    · intro history htraces
      rw [if_pos (htraces.lt_size hinSlot)]
      exact hhanded.announced htraces
  | @created id henabled hslot =>
    -- The new timer has the first number that no timer had before.
    dsimp only
    rw [if_neg (Nat.lt_irrefl _)]
    have hinSlot : session.inSlot ⟨id, thread⟩ = none := hslot
    have hsize (instrument : Instrument) : (session.pool.instruments.push instrument).size =
        session.pool.instruments.size + 1 := Array.size_push _
    refine .turn (inSlot_of_setRegistry (lt_of_enabled henabled) rfl fun other => ?_) ?_ ?_ ?_ rfl
    · exact Keyed.get?_insert _ _ _ _
    · rw [hinSlot]
      exact .created _
    · rw [hsize]
      exact Nat.le_succ _
    · intro instrument hinstrument
      obtain rfl := Option.some.inj hinstrument
      rw [hsize]
      exact ⟨Nat.le_refl _, Nat.lt_succ_self _⟩

/-! ### Channels -/

theorem size_replace (handle : Handle) (pool : Pool) (instrument : Instrument) :
    (handle.replace pool instrument).instruments.size = pool.instruments.size := by
  cases handle with
  | shared id => exact Array.size_setIfInBounds
  | inert => rfl

theorem deals_exit (handle : Handle) (name : String) :
    Deals session (session.exit handle name).2 [] (session.exit handle name).1 :=
  .of_same rfl (Nat.le_of_eq (size_replace _ _ _).symm)
    ((session.instrument handle).filter_exit name session.clock)

theorem deals_timed {α : Type} (channel : Channel) (thread : ThreadId) (operation : Operation α) :
    Deals session (session.timed channel thread operation).session
      (session.asked channel.source thread) (session.timed channel thread operation).events := by
  have hresolve := session.deals_resolve channel.source thread
  have hthreads := (session.sameHeld_resolve channel.source thread).threads_eq
  unfold timed
  dsimp only
  set handle := (session.resolve channel.source thread).1
  set resolved := (session.resolve channel.source thread).2.2
  set called := (resolved.enter handle channel.region).untimed channel operation
  have hcalled : Deals session called.session _ _ :=
    hresolve.kept rfl (Nat.le_of_eq (size_replace _ _ _).symm)
  have h := hcalled.trans hthreads (called.session.deals_exit handle channel.region)
  rw [List.append_nil] at h
  exact h

theorem deals_makes {thread : ThreadId} {session later : Session} {channel channel' : Channel}
    {calls : List TimedCall} {events : List Event}
    (h : Makes thread session channel calls later channel' events) :
    Deals session later (calls.flatMap (·.asked thread)) events := by
  induction h with
  | nil => exact .of_same rfl (Nat.le_refl _) rfl
  | @cons _ session _ channel _ operation _ _ _ ih =>
    have hsame := session.sameHeld_timed channel thread operation
    exact (session.deals_timed channel thread operation).trans hsame.threads_eq ih

theorem deals_callStep {α : Type} (key : String) (answer : CallResult α → Answer)
    (calls : Channel → Called α) (deeds : Channel → SlotHistory)
    (h : ∀ channel, Deals session (calls channel).session (deeds channel) (calls channel).events) :
    Deals session (session.callStep key answer calls).2
      (((session.channels.get? key).map deeds).getD [])
      (session.callStep key answer calls).1.events := by
  unfold callStep
  cases session.channels.get? key with
  | none => exact .of_same rfl (Nat.le_refl _) rfl
  | some channel => exact (h channel).kept rfl (Nat.le_refl _)

theorem deals_channelStep (thread : ThreadId) (action : ChannelAction) :
    Deals session (session.channelStep thread action).2 (session.channelDeeds thread action)
      (session.channelStep thread action).1.events := by
  cases action with
  | read key n =>
    exact session.deals_callStep key _ _ _ fun channel =>
      session.deals_timed channel thread (Device.read n)
  | readExact key n =>
    exact session.deals_callStep key _ _ _ fun channel =>
      readAsked_eq thread _ session channel n ▸
        deals_makes (makes_readLoop thread _ session channel n [])
  | write key bytes =>
    exact session.deals_callStep key _ _ _ fun channel =>
      session.deals_timed channel thread (Device.write bytes)
  | writeExact key bytes =>
    exact session.deals_callStep key _ _ _ fun channel =>
      writeAsked_eq thread _ session channel bytes ▸
        deals_makes (makes_writeLoop thread _ session channel bytes)
  | flush key =>
    exact session.deals_callStep key _ _ _ fun channel =>
      session.deals_timed channel thread Device.flush
  | create key region source device =>
    unfold channelStep
    dsimp only
    split <;> exact .of_same rfl (Nat.le_refl _) rfl
  | readInner key n | writeInner key bytes | left key | received key | close key =>
    unfold channelStep
    try unfold callStep
    dsimp only
    split <;> exact .of_same rfl (Nat.le_refl _) rfl

/-! ### Registries, handles and spans -/

theorem deals_endSpan (key : String) :
    Deals session (session.endSpan key).2 [] (session.endSpan key).1 := by
  unfold endSpan
  cases session.spans.get? key with
  | none => exact .of_same rfl (Nat.le_refl _) rfl
  | some span => exact (session.deals_exit span.handle span.name).kept rfl (Nat.le_refl _)

theorem deals_keepHandle {later : Session} {deeds : SlotHistory} {events : List Event}
    (h : Deals session later deeds events) (key? : Option String) (id? : Option InstrumentId) :
    Deals session (later.keepHandle key? id?) deeds events := by
  unfold keepHandle
  split
  · exact h.kept rfl (Nat.le_refl _)
  · exact h

/-- To install a timer is a deed if the registry is enabled. -/
theorem deals_install (id : RegistryId) (thread : ThreadId) (instrument : Instrument) :
    let (returned?, after, pool) := (session.registry id).install session.pool thread instrument
    Deals session ({ session with pool }.setRegistry id after)
      (if (session.registry id).enabled then
        [(⟨id, thread⟩, .installed (session.pool.share instrument).1 returned?)] else []) [] := by
  dsimp only
  cases henabled : (session.registry id).enabled with
  | false =>
    have hinstall : (session.registry id).install session.pool thread instrument =
        (none, session.registry id, session.pool) := by
      rw [Registry.install, henabled]
      rfl
    rw [hinstall]
    dsimp only
    rw [setRegistry_self]
    exact .of_same rfl (Nat.le_refl _) rfl
  | true =>
    have hinstall : (session.registry id).install session.pool thread instrument =
        (session.inSlot ⟨id, thread⟩,
          { session.registry id with
            slots := (session.registry id).slots.insert thread (session.pool.share instrument).1 },
          (session.pool.share instrument).2) := by
      rw [Registry.install, if_pos henabled]
      rfl
    rw [hinstall, if_pos rfl]
    have hsize := session.pool.size_share instrument
    refine .turn (inSlot_of_setRegistry (lt_of_enabled henabled) rfl fun other => ?_)
      (.installed _ _) ?_ ?_ rfl
    · exact Keyed.get?_insert _ _ _ _
    · exact Nat.le_of_lt (hsize ▸ Nat.lt_succ_self _)
    · intro other hother
      obtain rfl := Option.some.inj hother
      exact ⟨Nat.le_refl _, hsize ▸ Nat.lt_succ_self _⟩

/-- To take a timer out of a slot is a deed if the registry is enabled. -/
theorem deals_remove (id : RegistryId) (thread : ThreadId) {deed : SlotDeed} {events : List Event}
    (hfits : deed.Fits (session.inSlot ⟨id, thread⟩)) (harrived : deed.arrived? = none)
    (hleaves : deed.leaves (session.inSlot ⟨id, thread⟩) = none)
    (henabled : (session.registry id).enabled = true)
    (hevents : events.filter Event.isOfSlot = deed.announced (session.thread thread).name) :
    Deals session (session.setRegistry id ((session.registry id).remove thread).2.2)
      [(⟨id, thread⟩, deed)] events := by
  refine .turn (inSlot_of_setRegistry (lt_of_enabled henabled) rfl fun other => ?_) hfits
    (Nat.le_refl _) (by rw [harrived]; nofun) hevents
  rw [hleaves, Registry.remove, if_pos henabled]
  cases hslot : (session.registry id).slots.get? thread with
  | none =>
    dsimp only
    split_ifs with hother
    · rw [hother, hslot]
    · rfl
  | some instrument => exact Keyed.get?_erase _ _ _

/-- A registry that is disabled has nothing to give up. -/
theorem deals_remove_of_disabled (id : RegistryId) (thread : ThreadId)
    (hdisabled : (session.registry id).enabled = false) :
    Deals session (session.setRegistry id ((session.registry id).remove thread).2.2) []
      ((session.registry id).remove thread).2.1 := by
  have hremove : (session.registry id).remove thread = (none, [], session.registry id) := by
    rw [Registry.remove, hdisabled]
    rfl
  rw [hremove]
  dsimp only
  rw [setRegistry_self]
  exact .of_same rfl (Nat.le_refl _) rfl

/-- An enabled registry gives back what was in the slot, and says so if something was. -/
theorem remove_eq {id : RegistryId} (henabled : (session.registry id).enabled = true)
    (thread : ThreadId) :
    ((session.registry id).remove thread).1 = session.inSlot ⟨id, thread⟩ ∧
      ((session.registry id).remove thread).2.1 =
        (removed (session.inSlot ⟨id, thread⟩)).announced (session.thread thread).name := by
  rw [Registry.remove, if_pos henabled, inSlot]
  cases (session.registry id).slots.get? thread <;> exact ⟨rfl, rfl⟩

theorem deals_openRegistry (key : String) (enabled : Bool) :
    Deals session (session.openRegistry key enabled) [] [] := by
  unfold openRegistry
  split_ifs
  · exact .of_same rfl (Nat.le_refl _) rfl
  · refine .of_inSlot_eq (fun slot => ?_) (Nat.le_refl _) rfl
    rw [inSlot, registry_push]
    split_ifs with hid
    · -- Where there was no registry, there was nothing in the slots of one.
      rw [inSlot, registry, hid, Array.getD_eq_getD_getElem?,
        Array.getElem?_eq_none (Nat.le_refl _)]
      rfl
    · rfl

theorem deals_handleStep (thread : ThreadId) (action : HandleAction) :
    Deals session (session.handleStep thread action).2 (session.handleDeeds thread action)
      (session.handleStep thread action).1.events := by
  cases action with
  | acquire key registryKey =>
    unfold handleStep handleDeeds
    dsimp only
    cases session.registryIds.get? registryKey with
    | none => exact .of_same rfl (Nat.le_refl _) rfl
    | some id => exact (session.deals_resolve (.perThread id) thread).kept rfl (Nat.le_refl _)
  | install registryKey config? key? =>
    unfold handleStep handleDeeds slotDeeds
    dsimp only
    cases session.registryIds.get? registryKey with
    | none => exact .of_same rfl (Nat.le_refl _) rfl
    | some id =>
      exact session.deals_keepHandle
        (session.deals_install id thread (.ofConfig config? session.clock)) key? _
  | remove registryKey key? =>
    unfold handleStep handleDeeds slotDeeds
    dsimp only
    cases session.registryIds.get? registryKey with
    | none => exact .of_same rfl (Nat.le_refl _) rfl
    | some id =>
      dsimp only
      refine session.deals_keepHandle ?_ key? _
      cases henabled : (session.registry id).enabled with
      | false =>
        rw [if_neg Bool.false_ne_true]
        exact session.deals_remove_of_disabled id thread henabled
      | true =>
        obtain ⟨hremoved, hevents⟩ := session.remove_eq henabled thread
        rw [if_pos rfl]
        refine session.deals_remove id thread ?_ rfl rfl henabled ?_
        · rw [hremoved]
          exact .removed _
        · rw [hremoved, hevents]
          cases session.inSlot ⟨id, thread⟩ <;> rfl
  | span key handleKey name =>
    unfold handleStep
    dsimp only
    cases session.handles.get? handleKey with
    | none => exact .of_same rfl (Nat.le_refl _) rfl
    | some handle =>
      have henter : Deals session (session.enter handle name) [] [] :=
        .of_same rfl (Nat.le_of_eq (size_replace _ _ _).symm) rfl
      have h := henter.trans rfl ((session.enter handle name).deals_endSpan key)
      exact h.kept rfl (Nat.le_refl _)
  | endSpan key => exact session.deals_endSpan key
  | openRegistry key enabled => exact session.deals_openRegistry key enabled
  | describe _ | copy _ _ | same _ _ =>
    unfold handleStep
    dsimp only
    split <;> exact .of_same rfl (Nat.le_refl _) rfl
  | inert key => exact .of_same rfl (Nat.le_refl _) rfl
  | create key config =>
    exact .of_same rfl (Nat.le_of_lt (session.pool.size_share _ ▸ Nat.lt_succ_self _)) rfl

/-! ### Steps -/

theorem deals_join (id : ThreadId) :
    Deals session (session.join id)
      (if (session.registry globalId).enabled then
        [(⟨globalId, id⟩, .forgotten ((session.registry globalId).remove id).1)] else []) [] := by
  cases henabled : (session.registry globalId).enabled with
  | false =>
    rw [if_neg Bool.false_ne_true]
    have h : Deals session (session.join id) [] _ :=
      (session.deals_remove_of_disabled globalId id henabled).kept rfl (Nat.le_refl _)
    exact ⟨h.traces, fun _ => rfl⟩
  | true =>
    rw [if_pos rfl, (session.remove_eq henabled id).1]
    have h : Deals session _ [(⟨globalId, id⟩, .forgotten (session.inSlot ⟨globalId, id⟩))] [] :=
      session.deals_remove globalId id (.forgotten _) rfl rfl henabled rfl
    exact h.kept rfl (Nat.le_refl _)

theorem deals_threadStep (thread : String) (action : ThreadAction) :
    Deals session (session.threadStep action).2 (session.deeds ⟨thread, .thread action⟩)
      (session.threadStep action).1.events := by
  unfold threadStep deeds
  cases action with
  | spawn key name? =>
    dsimp only
    split <;> exact .of_same rfl (Nat.le_refl _) rfl
  | join key =>
    dsimp only [joinDeeds]
    cases session.threadIds.get? key with
    | none => exact .of_same rfl (Nat.le_refl _) rfl
    | some id => exact session.deals_join id

theorem deals_requestStep (handleKey : String) (request : Request) :
    Deals session (session.requestStep handleKey request).2 []
      (session.requestStep handleKey request).1.events := by
  unfold requestStep
  cases session.handles.get? handleKey with
  | none => exact .of_same rfl (Nat.le_refl _) rfl
  | some handle =>
    have h : Deals session (session.replaceInstrument handle
        ((session.instrument handle).serve session.clock request).2.2) []
        ((session.instrument handle).serve session.clock request).2.1 :=
      .of_same rfl (Nat.le_of_eq (size_replace _ _ _).symm)
        ((session.instrument handle).filter_serve session.clock request)
    dsimp only
    unfold keepReport
    split
    · exact h.kept rfl (Nat.le_refl _)
    · exact h

theorem deals_stackStep (thread : ThreadId) (action : StackAction) :
    Deals session (session.stackStep thread action).2 []
      (session.stackStep thread action).1.events := by
  cases action with
  | push key site | observe key | compare site => exact .of_same rfl (Nat.le_refl _) rfl
  | endFrame key | look key =>
    unfold stackStep
    dsimp only
    split <;> exact .of_same rfl (Nat.le_refl _) rfl

theorem filter_discardEvents (key : String) :
    (session.discardEvents key).filter Event.isOfSlot = [] := by
  unfold discardEvents
  cases session.samplers.get? key with
  | none => rfl
  | some sampler => exact sampler.filter_stop session.clock

theorem filter_changeSampler (key : String) {change : Sampler → List Event × Sampler}
    (h : ∀ sampler, (change sampler).1.filter Event.isOfSlot = []) :
    (session.changeSampler key change).1.events.filter Event.isOfSlot = [] := by
  unfold changeSampler
  cases session.samplers.get? key with
  | none => rfl
  | some sampler => exact h sampler

theorem filter_samplerStep (thread : ThreadId) (action : SamplerAction) :
    (session.samplerStep thread action).1.events.filter Event.isOfSlot = [] := by
  cases action with
  | create key plan started =>
    cases started with
    | false => exact session.filter_discardEvents key
    | true =>
      unfold samplerStep
      dsimp only
      split
      · rfl
      · have hstart := (session.plan thread plan).filter_start session.clock
          (session.top? (session.plan thread plan).target.id)
        exact (List.filter_append _ _).trans
          (congrArg₂ List.append hstart (session.filter_discardEvents key))
  | start key =>
    unfold samplerStep
    dsimp only
    split
    · rfl
    · exact session.filter_changeSampler key fun sampler => sampler.filter_start _ _
  | stop key => exact session.filter_changeSampler key fun sampler => sampler.filter_stop _
  | inspect key => exact session.filter_changeSampler key fun _ => rfl
  | wake key times =>
    unfold samplerStep
    dsimp only
    split <;> rfl
  | dump key labels =>
    unfold samplerStep
    dsimp only
    split
    · rfl
    · next sampler _ => exact sampler.filter_dump
  | discard key => exact session.filter_discardEvents key

theorem deals_samplerStep (thread : ThreadId) (action : SamplerAction) :
    Deals session (session.samplerStep thread action).2 []
      (session.samplerStep thread action).1.events := by
  have hevents := session.filter_samplerStep thread action
  obtain ⟨samplers, hafter⟩ := session.exists_samplers thread action
  rw [hafter]
  exact .of_same rfl (Nat.le_refl _) hevents

/-- **The deeds of a step are all that it does with slots**, and its events tell of all of them. -/
theorem deals_step (step : Step) :
    Deals session (session.step step).2 (session.deeds step) (session.step step).1.events := by
  obtain ⟨thread, action⟩ := step
  match action with
  | .clock change => exact .of_same rfl (Nat.le_refl _) rfl
  | .recall key =>
    unfold Session.step
    dsimp only
    split <;> exact .of_same rfl (Nat.le_refl _) rfl
  | .thread action => exact session.deals_threadStep thread action
  | .handle action => exact session.deals_handleStep _ action
  | .request handleKey request => exact session.deals_requestStep handleKey request
  | .channel action => exact session.deals_channelStep _ action
  | .stack action => exact session.deals_stackStep _ action
  | .sampler action => exact session.deals_samplerStep _ action

/-! ### Runs -/

theorem traces_start : start.Traces [] where
  arises := .start _
  inSlot_eq := by
    rintro ⟨registry, thread⟩
    cases registry <;> rfl

theorem Traces.after {session : Session} {history : SlotHistory} (h : session.Traces history)
    (steps : List Step) :
    (session.after steps).Traces (history ++ session.slotHistory steps) := by
  induction steps generalizing session history with
  | nil =>
    rw [slotHistory, List.append_nil]
    exact h
  | cons step steps ih =>
    rw [slotHistory, ← List.append_assoc]
    exact ih ((session.deals_step step).traces h)

/-- What is to be known of the slots of a session with a history. -/
structure SlotsOf (session : Session) (history : SlotHistory) : Prop where
  inSlot_eq : ∀ slot, session.inSlot slot = occupant? (history.deedsIn slot)
  fits : ∀ (before : SlotHistory) slot deed later, history = before ++ (slot, deed) :: later →
    deed.Fits (occupant? (before.deedsIn slot))
  /-- What was given back and what is there is what came, in the same order. -/
  conserved : ∀ slot, returned (history.deedsIn slot) ++ (session.inSlot slot).toList =
    arrivals (history.deedsIn slot)
  /-- No timer comes into a slot twice, or into two slots. -/
  nodup_arrivals : (arrivals (history.map Prod.snd)).Nodup
  /-- Handles are the same if they were asked for in the same slot, after as many timers had left
  it. -/
  handle_eq_iff : ∀ (before : SlotHistory) slot deed later,
    history = before ++ (slot, deed) :: later →
    ∀ (before' : SlotHistory) slot' deed' later', history = before' ++ (slot', deed') :: later' →
      ∀ handle handle', deed.handle? = some handle → deed'.handle? = some handle' →
        (handle = handle' ↔ slot = slot' ∧
          (returned (before.deedsIn slot)).length = (returned (before'.deedsIn slot')).length)
  /-- What a thread does leaves the slots of the others alone, unless one of these ends by it. -/
  inSlot_step : ∀ step slot, (∀ key, step.action ≠ .thread (.join key)) →
    slot.thread ≠ session.threadId step.thread →
    (session.step step).2.inSlot slot = session.inSlot slot
  /-- Who asks an enabled registry for a handle holds it then. -/
  acquired : ∀ thread key registryKey id, session.registryIds.get? registryKey = some id →
    (session.registry id).enabled →
    ∃ deed handle,
      session.deeds ⟨thread, .handle (.acquire key registryKey)⟩ =
        [(⟨id, session.threadId thread⟩, deed)] ∧
      deed.handle? = some handle ∧
      (session.step ⟨thread, .handle (.acquire key registryKey)⟩).2.handles.get? key = some handle
  /-- The size of a registry is the number of threads that have something in their slots. -/
  size_eq : ∀ registry, ∃ threads : List ThreadId, threads.Nodup ∧
    (∀ thread, thread ∈ threads ↔ (session.inSlot ⟨registry, thread⟩).isSome) ∧
    (session.registry registry).size = threads.length
  /-- The end of a thread does not concern the registries, but for the shared one. -/
  registry_join : ∀ thread key registry, registry ≠ globalId →
    (session.step ⟨thread, .thread (.join key)⟩).2.registry registry = session.registry registry
  /-- Each step says which timers it creates, for which threads, and that it removes some. -/
  announced : ∀ step, (session.step step).1.events.filter Event.isOfSlot =
    (session.deeds step).flatMap fun entry =>
      entry.2.announced (session.thread entry.1.thread).name

theorem inSlot_step_of_ne {session : Session} {history : SlotHistory}
    (htraces : session.Traces history) {step : Step} {slot : Slot}
    (hstays : ∀ key, step.action ≠ .thread (.join key))
    (hother : slot.thread ≠ session.threadId step.thread) :
    (session.step step).2.inSlot slot = session.inSlot slot := by
  -- No deed of the step is in the slot, so its history is what it was.
  have hnone : SlotHistory.deedsIn (session.deeds step) slot = [] := by
    rw [SlotHistory.deedsIn, List.map_eq_nil_iff, List.filter_eq_nil_iff]
    intro entry hmem hentry
    rw [← of_decide_eq_true hentry] at hother
    exact hother (thread_of_mem_deeds hstays hmem)
  rw [((session.deals_step step).traces htraces).inSlot_eq, deedsIn_append, hnone, List.append_nil,
    htraces.inSlot_eq]

theorem exists_acquired {session : Session} {registryKey : String} {id : RegistryId}
    (hkey : session.registryIds.get? registryKey = some id)
    (henabled : (session.registry id).enabled = true) (thread key : String) :
    ∃ deed handle,
      session.deeds ⟨thread, .handle (.acquire key registryKey)⟩ =
        [(⟨id, session.threadId thread⟩, deed)] ∧
      deed.handle? = some handle ∧
      (session.step ⟨thread, .handle (.acquire key registryKey)⟩).2.handles.get? key =
        some handle := by
  have hshared : ∃ instrument, (session.resolve (.perThread id) (session.threadId thread)).1 =
      .shared instrument := by
    have h := session.resolves_resolve (.perThread id) (session.threadId thread)
    generalize (session.resolve (.perThread id) (session.threadId thread)).1 = handle at h ⊢
    generalize (session.resolve (.perThread id) (session.threadId thread)).2.1 = events at h
    generalize (session.resolve (.perThread id) (session.threadId thread)).2.2 = later at h
    cases h with
    | disabled hdisabled => rw [henabled] at hdisabled; cases hdisabled
    | known _ _ | created _ _ => exact ⟨_, rfl⟩
  obtain ⟨instrument, hinstrument⟩ := hshared
  refine ⟨if instrument < session.pool.instruments.size then .handed instrument
    else .created instrument, .shared instrument, ?_, ?_, ?_⟩
  · show ((session.registryIds.get? registryKey).map fun id =>
      session.asked (.perThread id) (session.threadId thread)).getD [] = _
    rw [hkey, Option.map_some, Option.getD_some]
    unfold asked
    rw [hinstrument]
  · split <;> rfl
  · show (session.handleStep _ (.acquire key registryKey)).2.handles.get? key = _
    rw [handleStep, hkey, ← hinstrument]
    exact (Keyed.get?_insert _ _ _ _).trans (if_pos rfl)

theorem registry_join_of_ne {session : Session} {registry : RegistryId} (h : registry ≠ globalId)
    (action : ThreadAction) :
    (session.threadStep action).2.registry registry = session.registry registry := by
  unfold threadStep
  cases action with
  | spawn key name? =>
    dsimp only
    split <;> rfl
  | join key =>
    dsimp only
    cases session.threadIds.get? key with
    | none => rfl
    | some id => exact (registry_setRegistry _ _ _ _).trans (if_neg fun heq => h heq.1)

/-- **In each slot is what its history says**, at any time of any session, whatever the threads have
asked for, installed and removed in whatever order, and whichever of them have ended. -/
theorem slotsOf_after (steps : List Step) :
    SlotsOf (start.after steps) (start.slotHistory steps) := by
  have htraces : (start.after steps).Traces (start.slotHistory steps) := traces_start.after steps
  have arises := htraces.arises
  refine
    { inSlot_eq := htraces.inSlot_eq
      fits := fun before slot deed later heq => (arises.of_append heq).2
      conserved := fun slot => ?_
      nodup_arrivals := arises.nodup_arrivals
      handle_eq_iff := fun before slot deed later heq before' slot' deed' later' heq' handle handle'
        hhandle hhandle' => arises.handle_eq_iff heq heq' hhandle hhandle'
      inSlot_step := fun step slot hstays hother => inSlot_step_of_ne htraces hstays hother
      acquired := fun thread key registryKey id hkey henabled =>
        exists_acquired hkey henabled thread key
      size_eq := fun registry =>
        ⟨((start.after steps).registry registry).slots.keys, Keyed.nodup _, fun thread => ?_, ?_⟩
      registry_join := fun thread key registry hne => registry_join_of_ne hne (.join key)
      announced := fun step => (deals_step _ step).announced htraces }
  · rw [htraces.inSlot_eq]
    exact arises.conserved slot
  · rw [Keyed.mem_keys_iff, Option.isSome_iff_exists]
    rfl
  · exact (List.length_map Prod.fst).symm

/-- A thread installs a timer over the one that was created for it, takes it out, asks again, and
ends. What it had in the registry is still there. -/
example :
    start.slotHistory
      [⟨"main", .handle (.openRegistry "r" true)⟩,
        ⟨"main", .thread (.spawn "w" none)⟩,
        ⟨"w", .handle (.acquire "a" "r")⟩,
        ⟨"w", .handle (.install "r" none none)⟩,
        ⟨"w", .handle (.remove "r" none)⟩,
        ⟨"w", .handle (.acquire "b" "r")⟩,
        ⟨"main", .thread (.join "w")⟩] =
      [(⟨1, 1⟩, .created 0), (⟨1, 1⟩, .installed 1 (some 0)), (⟨1, 1⟩, .removed (some 1)),
        (⟨1, 1⟩, .created 2), (⟨globalId, 1⟩, .forgotten none)] := by
  decide +kernel

end Session

end Profiler
