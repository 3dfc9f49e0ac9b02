import Profiler.Proofs.Session.Matching
import Profiler.Proofs.Session.Parts

/-!
# Sessions that are alike for one thread

`Session.Alike t owners m full part` compares a session with one in which only the thread `t` does
anything. What belongs to the thread by the owners of the keys is the same in both, up to the
numbers of instruments, and what the first session has besides is foreign. The lemmas say which
small changes keep this up, when both sessions are changed alike and when the first one is changed
for another thread. In sessions that are `Session.Abreast` it is the same time, too.
-/

namespace Profiler.Session

/-! ### Alike -/

/-- The two sessions are alike for the thread `t`: they have the same threads and registries by
number, the thread itself is the same, and so is, up to the numbers of the instruments, everything
that belongs to it. Of what belongs to others the first session has only what is foreign. -/
structure Alike (t : ThreadId) (owners : Owners) (m : Matching) (full part : Session) : Prop where
  threadIds_eq : part.threadIds = full.threadIds
  size_threads : part.threads.size = full.threads.size
  thread_eq : part.thread t = full.thread t
  registryIds_eq : part.registryIds = full.registryIds
  size_registries : part.registries.size = full.registries.size
  registry : ∀ id, Registry.Alike t m (full.registry id) (part.registry id)
  handles : Keyed.Alike t owners.handle m.HandlePair m.HandleForeign full.handles part.handles
  spans : Keyed.Apart t owners.span m.SpanPair m.SpanForeign full.spans part.spans
  channels : Keyed.Alike t owners.channel m.ChannelPair m.ChannelForeign full.channels part.channels
  fits : m.Fits full.pool part.pool

/-- The two sessions are alike for the thread, and it is the same time in both. -/
structure Abreast (t : ThreadId) (owners : Owners) (m : Matching) (full part : Session) : Prop
    extends Alike t owners m full part where
  clock_eq : part.clock = full.clock

namespace Alike

variable {t u : ThreadId} {owners : Owners} {m later : Matching} {full part : Session}
  (h : Alike t owners m full part)
include h

theorem registryIds_get? (key : String) :
    part.registryIds.get? key = full.registryIds.get? key := by
  rw [h.registryIds_eq]

/-- The pools change, and with them which instruments belong together. -/
theorem setPools (hm : m.Extends later) {pool pool' : Pool} (hfits : later.Fits pool pool') :
    Alike t owners later { full with pool } { part with pool := pool' } :=
  { h with
    registry := fun id => (h.registry id).mono hm
    handles := h.handles.mono (.mono hm) (.mono hm)
    spans := h.spans.mono (.mono hm) (.mono hm)
    channels := h.channels.mono (.mono hm) (.mono hm)
    fits := hfits }

/-- The pool of the first session changes. -/
theorem setPool (hm : m.Extends later) {pool : Pool} (hfits : later.Fits pool part.pool) :
    Alike t owners later { full with pool } part :=
  h.setPools hm hfits

/-- A registry changes in both sessions. -/
theorem setRegistry {id : RegistryId} {registry registry' : Registry}
    (hregistry : Registry.Alike t m registry registry') :
    Alike t owners m (full.setRegistry id registry) (part.setRegistry id registry') :=
  { h with
    size_registries := by
      simp only [Session.setRegistry, Array.size_setIfInBounds]
      exact h.size_registries
    registry := fun other => by
      rw [registry_setRegistry, registry_setRegistry, h.size_registries]
      split_ifs
      · exact hregistry
      · exact h.registry other }

/-- A registry changes in the first session. -/
theorem setRegistry_foreign {id : RegistryId} {registry : Registry}
    (hregistry : Registry.Alike t m registry (part.registry id)) :
    Alike t owners m (full.setRegistry id registry) part :=
  { h with
    size_registries := by
      simp only [Session.setRegistry, Array.size_setIfInBounds]
      exact h.size_registries
    registry := fun other => by
      rw [registry_setRegistry]
      split_ifs with hid
      · exact hid.1 ▸ hregistry
      · exact h.registry other }

/-- Some thread changes in both sessions. -/
theorem setThread {id : ThreadId} {thread thread' : Thread} (hthread : id = t → thread' = thread) :
    Alike t owners m (full.setThread id thread) (part.setThread id thread') :=
  { h with
    size_threads := by
      simp only [Session.setThread, Array.size_setIfInBounds]
      exact h.size_threads
    thread_eq := by
      rw [thread_setThread, thread_setThread, h.size_threads]
      split_ifs with hid
      · exact hthread hid.1.symm
      · exact h.thread_eq }

/-- Another thread changes in the first session. -/
theorem setThread_foreign {id : ThreadId} (hid : id ≠ t) (thread : Thread) :
    Alike t owners m (full.setThread id thread) part :=
  { h with
    size_threads := by
      simp only [Session.setThread, Array.size_setIfInBounds]
      exact h.size_threads
    thread_eq := by
      rw [thread_setThread, if_neg fun hsame => hid hsame.1.symm]
      exact h.thread_eq }

/-- A registry is opened in both sessions. -/
theorem openRegistry (key : String) (enabled : Bool) :
    Alike t owners m (full.openRegistry key enabled) (part.openRegistry key enabled) := by
  unfold Session.openRegistry
  split
  · exact h
  · exact { h with
      registryIds_eq := by rw [h.registryIds_eq, h.size_registries]
      size_registries := by rw [Array.size_push, Array.size_push, h.size_registries]
      registry := fun id => by
        rw [registry_push, registry_push, h.size_registries]
        split_ifs
        · exact .of_empty m enabled
        · exact h.registry id }

/-- A thread is started in both sessions. -/
theorem spawn (key : String) (name? : Option String) :
    Alike t owners m (full.spawn key name?) (part.spawn key name?) :=
  { h with
    threadIds_eq := by
      show part.threadIds.insert key part.threads.size = full.threadIds.insert key full.threads.size
      rw [h.threadIds_eq, h.size_threads]
    size_threads := by
      simp only [Session.spawn, Array.size_push, h.size_threads]
    thread_eq := by
      rw [thread_spawn, thread_spawn, h.size_threads, h.thread_eq] }

end Alike

end Profiler.Session
