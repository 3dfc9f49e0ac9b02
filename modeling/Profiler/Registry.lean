import Profiler.Instrument.Basic
import Profiler.Thread

/-!
# A timer for each thread

Instruments that are shared live in a `Pool` and are known by their numbers there. A `Registry`
remembers which of them belongs to which thread and creates the timer of a thread when it is first
asked for. What threads hold are `Handle`s: numbers in the pool, or inert ones where timing is
switched off.
-/

namespace Profiler

/-- The number of an instrument in the pool. -/
abbrev InstrumentId := Nat

/-- All instruments that were ever shared. -/
structure Pool where
  instruments : Array Instrument := #[]

namespace Pool

/-- The instrument with a number. -/
def get (pool : Pool) (id : InstrumentId) : Instrument := pool.instruments.getD id .inert

/-- The pool with one more instrument, and its number. -/
def share (pool : Pool) (instrument : Instrument) : InstrumentId × Pool :=
  (pool.instruments.size, ⟨pool.instruments.push instrument⟩)

/-- The pool with one instrument replaced. -/
def set (pool : Pool) (id : InstrumentId) (instrument : Instrument) : Pool :=
  ⟨pool.instruments.setIfInBounds id instrument⟩

theorem size_share (pool : Pool) (instrument : Instrument) :
    (pool.share instrument).2.instruments.size = pool.instruments.size + 1 := by
  simp [share]

@[simp] theorem get_share (pool : Pool) (instrument : Instrument) :
    (pool.share instrument).2.get (pool.share instrument).1 = instrument := by
  simp [get, share, Array.getD_eq_getD_getElem?]

theorem get_share_of_lt (pool : Pool) {id : InstrumentId} (instrument : Instrument)
    (h : id < pool.instruments.size) : (pool.share instrument).2.get id = pool.get id := by
  simp [get, share, Array.getD_eq_getD_getElem?, Array.getElem?_push, Nat.ne_of_lt h]

theorem get_of_size_le (pool : Pool) {id : InstrumentId} (h : pool.instruments.size ≤ id) :
    pool.get id = .inert := by
  simp [get, Array.getD_eq_getD_getElem?, Array.getElem?_eq_none h]

theorem lt_of_get_live {pool : Pool} {id : InstrumentId} {timer : Timer}
    (h : pool.get id = .live timer) : id < pool.instruments.size := by
  refine Nat.lt_of_not_le fun hge => ?_
  rw [get_of_size_le pool hge] at h
  cases h

theorem get_set_of_ne (pool : Pool) {id other : InstrumentId} (instrument : Instrument)
    (h : other ≠ id) : (pool.set id instrument).get other = pool.get other := by
  simp [get, set, Array.getD_eq_getD_getElem?, Ne.symm h]

theorem get_set_self (pool : Pool) {id : InstrumentId} (instrument : Instrument)
    (h : id < pool.instruments.size) : (pool.set id instrument).get id = instrument := by
  simp [get, set, Array.getD_eq_getD_getElem?, h]

end Pool

/-- What a thread holds of an instrument. Two handles are equal if they stand for the same
instrument, and all inert handles are. -/
inductive Handle where
  | shared (id : InstrumentId)
  | inert
deriving DecidableEq

namespace Handle

/-- Whether there is an instrument behind the handle, be it an inert one. -/
def isEnabled : Handle → Bool
  | shared _ => true
  | inert => false

/-- The instrument behind the handle. -/
def instrument (pool : Pool) : Handle → Instrument
  | shared id => pool.get id
  | inert => .inert

/-- The pool with the instrument behind the handle replaced. -/
def replace (pool : Pool) (instrument : Instrument) : Handle → Pool
  | shared id => pool.set id instrument
  | inert => pool

end Handle

/-- The number of a registry. -/
abbrev RegistryId := Nat

/-- Which instrument belongs to which thread. -/
structure Registry where
  enabled : Bool
  slots : Keyed ThreadId InstrumentId := .empty

namespace Registry

/-- The number of threads that have an instrument. -/
def size (registry : Registry) : Nat := registry.slots.size

/-- The registry as it describes itself. -/
def describe (registry : Registry) : String :=
  "TimerRegistry \x7b enabled: " ++ toString registry.enabled ++ ", thread_count: "
    ++ toString registry.size ++ " \x7d"

/-- The handle of a thread, whose timer is created if it has none. A new timer is named after its
thread. -/
def handleFor (registry : Registry) (pool : Pool) (thread : ThreadId) (name : String)
    (clock : Clock) : Handle × List Event × Registry × Pool :=
  if registry.enabled then
    match registry.slots.get? thread with
    | some id => (.shared id, [], registry, pool)
    | none =>
      let (id, grown) := pool.share (.live (Timer.ofConfig { name } clock))
      (.shared id, [.timerCreated name], { registry with slots := registry.slots.insert thread id },
        grown)
  else
    (.inert, [], registry, pool)

/-- Gives an instrument to a thread. The instrument that the thread had before is handed back. -/
def install (registry : Registry) (pool : Pool) (thread : ThreadId) (instrument : Instrument) :
    Option InstrumentId × Registry × Pool :=
  if registry.enabled then
    let (id, grown) := pool.share instrument
    (registry.slots.get? thread, { registry with slots := registry.slots.insert thread id }, grown)
  else
    (none, registry, pool)

/-- Takes the instrument of a thread, which is handed back. -/
def remove (registry : Registry) (thread : ThreadId) :
    Option InstrumentId × List Event × Registry :=
  if registry.enabled then
    match registry.slots.get? thread with
    | some id =>
      (some id, [.timerRemoved], { registry with slots := registry.slots.erase thread })
    | none => (none, [], registry)
  else
    (none, [], registry)

end Registry

end Profiler
