import Mathlib.Data.Option.Defs
import Mathlib.Tactic.Common
import Profiler.Proofs.Session.Owners

/-!
# What belongs together in two sessions

In a session without the other threads the instruments of a thread have other numbers. A `Matching`
says which numbers belong together, and which instruments are foreign to the thread since they are
other threads'. Everything that refers to instruments is compared by it: handles, spans, the sources
of channels, the maps that hold them (`Keyed.Alike`, `Keyed.Apart`) and the registries
(`Registry.Alike`).
-/

namespace Profiler

/-! ### Instruments that belong together -/

/-- Which instruments of two pools belong together, and which of the first are somebody else's. -/
structure Matching where
  pair : InstrumentId → InstrumentId → Prop
  foreign : InstrumentId → Prop

namespace Matching

/-- The matching of two pools without instruments. -/
def none : Matching := ⟨fun _ _ => False, fun _ => False⟩

/-- Instruments that belong together are the same and have no other counterparts, and none of them
is foreign. -/
structure Fits (m : Matching) (full part : Pool) : Prop where
  lt : ∀ {i j}, m.pair i j → i < full.instruments.size ∧ j < part.instruments.size
  get_eq : ∀ {i j}, m.pair i j → part.get j = full.get i
  eq_iff : ∀ {i j i' j'}, m.pair i j → m.pair i' j' → (i = i' ↔ j = j')
  foreign_lt : ∀ {i}, m.foreign i → i < full.instruments.size
  disjoint : ∀ {i j}, m.foreign i → ¬ m.pair i j

/-- The other matching has all pairs and all foreign instruments of this one. -/
structure Extends (m later : Matching) : Prop where
  pair : ∀ {i j}, m.pair i j → later.pair i j
  foreign : ∀ {i}, m.foreign i → later.foreign i

theorem Extends.refl (m : Matching) : m.Extends m := ⟨id, id⟩

/-- The matching with one more pair. -/
def withPair (m : Matching) (i j : InstrumentId) : Matching where
  pair a b := m.pair a b ∨ a = i ∧ b = j
  foreign := m.foreign

/-- The matching with one more foreign instrument. -/
def withForeign (m : Matching) (i : InstrumentId) : Matching where
  pair := m.pair
  foreign a := m.foreign a ∨ a = i

theorem extends_withPair (m : Matching) (i j : InstrumentId) : m.Extends (m.withPair i j) :=
  ⟨.inl, id⟩

theorem extends_withForeign (m : Matching) (i : InstrumentId) : m.Extends (m.withForeign i) :=
  ⟨id, .inl⟩

namespace Fits

variable {m : Matching} {full part : Pool} (h : m.Fits full part)
include h

/-- Both pools get the same new instrument. -/
theorem share (instrument : Instrument) :
    (m.withPair full.instruments.size part.instruments.size).Fits (full.share instrument).2
      (part.share instrument).2 where
  lt := by
    rw [Pool.size_share, Pool.size_share]
    rintro i j (hpair | ⟨rfl, rfl⟩)
    · exact ⟨Nat.lt_succ_of_lt (h.lt hpair).1, Nat.lt_succ_of_lt (h.lt hpair).2⟩
    · exact ⟨Nat.lt_succ_self _, Nat.lt_succ_self _⟩
  get_eq := by
    rintro i j (hpair | ⟨rfl, rfl⟩)
    · rw [Pool.get_share_of_lt _ _ (h.lt hpair).1, Pool.get_share_of_lt _ _ (h.lt hpair).2,
        h.get_eq hpair]
    · exact (part.get_share instrument).trans (full.get_share instrument).symm
  eq_iff := by
    rintro i j i' j' (hpair | ⟨rfl, rfl⟩) (hpair' | ⟨rfl, rfl⟩)
    · exact h.eq_iff hpair hpair'
    · exact iff_of_false (h.lt hpair).1.ne (h.lt hpair).2.ne
    · exact iff_of_false (h.lt hpair').1.ne' (h.lt hpair').2.ne'
    · exact iff_of_true rfl rfl
  foreign_lt hi := by
    rw [Pool.size_share]
    exact Nat.lt_succ_of_lt (h.foreign_lt hi)
  disjoint := by
    rintro i j hi (hpair | ⟨rfl, rfl⟩)
    · exact h.disjoint hi hpair
    · exact absurd (h.foreign_lt hi) (lt_irrefl _)

/-- Another thread gets a new instrument. -/
theorem share_foreign (instrument : Instrument) :
    (m.withForeign full.instruments.size).Fits (full.share instrument).2 part where
  lt hpair := by
    rw [Pool.size_share]
    exact ⟨Nat.lt_succ_of_lt (h.lt hpair).1, (h.lt hpair).2⟩
  get_eq hpair := by rw [Pool.get_share_of_lt _ _ (h.lt hpair).1, h.get_eq hpair]
  eq_iff := h.eq_iff
  foreign_lt := by
    rw [Pool.size_share]
    rintro i (hi | rfl)
    · exact Nat.lt_succ_of_lt (h.foreign_lt hi)
    · exact Nat.lt_succ_self _
  disjoint := by
    rintro i j (hi | rfl) hpair
    · exact h.disjoint hi hpair
    · exact absurd (h.lt hpair).1 (lt_irrefl _)

/-- An instrument is replaced, and its counterpart too. -/
theorem set {i j : InstrumentId} (hij : m.pair i j) (instrument : Instrument) :
    m.Fits (full.set i instrument) (part.set j instrument) where
  lt hpair := by
    simp only [Pool.set, Array.size_setIfInBounds]
    exact h.lt hpair
  get_eq {i' j'} hpair := by
    by_cases hi : i' = i
    · rw [(h.eq_iff hpair hij).mp hi, hi, Pool.get_set_self _ _ (h.lt hij).1,
        Pool.get_set_self _ _ (h.lt hij).2]
    · have hj : j' ≠ j := fun hj => hi ((h.eq_iff hpair hij).mpr hj)
      rw [Pool.get_set_of_ne _ _ hi, Pool.get_set_of_ne _ _ hj, h.get_eq hpair]
  eq_iff := h.eq_iff
  foreign_lt hi := by
    simp only [Pool.set, Array.size_setIfInBounds]
    exact h.foreign_lt hi
  disjoint := h.disjoint

/-- An instrument of another thread is replaced. -/
theorem set_foreign {i : InstrumentId} (hi : m.foreign i) (instrument : Instrument) :
    m.Fits (full.set i instrument) part where
  lt hpair := by
    simp only [Pool.set, Array.size_setIfInBounds]
    exact h.lt hpair
  get_eq {i' j'} hpair := by
    have hne : i' ≠ i := by
      rintro rfl
      exact h.disjoint hi hpair
    rw [Pool.get_set_of_ne _ _ hne, h.get_eq hpair]
  eq_iff := h.eq_iff
  foreign_lt hi := by
    simp only [Pool.set, Array.size_setIfInBounds]
    exact h.foreign_lt hi
  disjoint := h.disjoint

end Fits

/-! ### What refers to instruments -/

/-- The handles belong together. -/
inductive HandlePair (m : Matching) : Handle → Handle → Prop
  | shared {i j : InstrumentId} (h : m.pair i j) : HandlePair m (.shared i) (.shared j)
  | inert : HandlePair m .inert .inert

/-- The handle is another thread's. -/
inductive HandleForeign (m : Matching) : Handle → Prop
  | shared {i : InstrumentId} (h : m.foreign i) : HandleForeign m (.shared i)
  | inert : HandleForeign m .inert

structure SpanPair (m : Matching) (span span' : Span) : Prop where
  handle : m.HandlePair span.handle span'.handle
  name_eq : span'.name = span.name

def SpanForeign (m : Matching) (span : Span) : Prop := m.HandleForeign span.handle

inductive SourcePair (m : Matching) : Source → Source → Prop
  | pinned {handle handle' : Handle} (h : m.HandlePair handle handle') :
    SourcePair m (.pinned handle) (.pinned handle')
  | perThread (id : RegistryId) : SourcePair m (.perThread id) (.perThread id)

inductive SourceForeign (m : Matching) : Source → Prop
  | pinned {handle : Handle} (h : m.HandleForeign handle) : SourceForeign m (.pinned handle)
  | perThread (id : RegistryId) : SourceForeign m (.perThread id)

structure ChannelPair (m : Matching) (channel channel' : Channel) : Prop where
  source : m.SourcePair channel.source channel'.source
  device_eq : channel'.device = channel.device
  region_eq : channel'.region = channel.region

def ChannelForeign (m : Matching) (channel : Channel) : Prop := m.SourceForeign channel.source

section

variable {m later : Matching} (hm : m.Extends later)
include hm

theorem HandlePair.mono {handle handle' : Handle} (h : m.HandlePair handle handle') :
    later.HandlePair handle handle' := by
  cases h with
  | shared h => exact .shared (hm.pair h)
  | inert => exact .inert

theorem HandleForeign.mono {handle : Handle} (h : m.HandleForeign handle) :
    later.HandleForeign handle := by
  cases h with
  | shared h => exact .shared (hm.foreign h)
  | inert => exact .inert

theorem SpanPair.mono {span span' : Span} (h : m.SpanPair span span') : later.SpanPair span span' :=
  ⟨h.handle.mono hm, h.name_eq⟩

theorem SourcePair.mono {source source' : Source} (h : m.SourcePair source source') :
    later.SourcePair source source' := by
  cases h with
  | pinned h => exact .pinned (h.mono hm)
  | perThread id => exact .perThread id

theorem SourceForeign.mono {source : Source} (h : m.SourceForeign source) :
    later.SourceForeign source := by
  cases h with
  | pinned h => exact .pinned (h.mono hm)
  | perThread id => exact .perThread id

theorem ChannelPair.mono {channel channel' : Channel} (h : m.ChannelPair channel channel') :
    later.ChannelPair channel channel' :=
  ⟨h.source.mono hm, h.device_eq, h.region_eq⟩

end

end Matching

/-! ### Maps of which some keys are the thread's -/

theorem optionRel_isSome {α β : Type} {r : α → β → Prop} {a? : Option α} {b? : Option β}
    (h : Option.Rel r a? b?) : b?.isSome = a?.isSome := by
  cases h <;> rfl

theorem optionRel_mono {α β : Type} {r r' : α → β → Prop} (hr : ∀ {a b}, r a b → r' a b)
    {a? : Option α} {b? : Option β} (h : Option.Rel r a? b?) : Option.Rel r' a? b? := by
  cases h with
  | some hab => exact .some (hr hab)
  | none => exact .none

/-- What the two maps have under keys of the thread belongs together, what the first has under keys
of others is foreign, and neither has anything under a key that belongs to nobody. -/
structure Keyed.Alike {α : Type} (t : ThreadId) (owner : String → Option ThreadId)
    (pair : α → α → Prop) (foreign : α → Prop) (full part : Keyed String α) : Prop where
  nobody : ∀ {key}, owner key = none → full.get? key = none ∧ part.get? key = none
  own : ∀ {key}, owner key = some t → Option.Rel pair (full.get? key) (part.get? key)
  other : ∀ {key u}, owner key = some u → u ≠ t → ∀ {a}, full.get? key = some a → foreign a

namespace Keyed.Alike

variable {α : Type} {t u : ThreadId} {owner : String → Option ThreadId} {pair : α → α → Prop}
  {foreign : α → Prop} {full part : Keyed String α} (h : Keyed.Alike t owner pair foreign full part)
include h

theorem mono {pair' : α → α → Prop} {foreign' : α → Prop} (hpair : ∀ {a b}, pair a b → pair' a b)
    (hforeign : ∀ {a}, foreign a → foreign' a) :
    Keyed.Alike t owner pair' foreign' full part where
  nobody := h.nobody
  own hkey := optionRel_mono hpair (h.own hkey)
  other hkey hu _ ha := hforeign (h.other hkey hu ha)

/-- What the thread finds under a key that it may use. -/
theorem rel {key : String} (hkey : Session.Owners.Free owner t key) :
    Option.Rel pair (full.get? key) (part.get? key) := by
  rcases hkey with hkey | hkey
  · obtain ⟨hfull, hpart⟩ := h.nobody hkey
    rw [hfull, hpart]
    exact .none
  · exact h.own hkey

/-- What another thread finds under a key that it may use. -/
theorem foreign_of {key : String} (hu : u ≠ t) (hkey : Session.Owners.Free owner u key) {a : α}
    (ha : full.get? key = some a) : foreign a := by
  rcases hkey with hkey | hkey
  · rw [(h.nobody hkey).1] at ha
    cases ha
  · exact h.other hkey hu ha

/-- A change under one key, which may get another owner. -/
theorem change {key : String} {full' part' : Keyed String α} (next : Option ThreadId)
    (hfull : ∀ other, other ≠ key → full'.get? other = full.get? other)
    (hpart : ∀ other, other ≠ key → part'.get? other = part.get? other)
    (hnobody : next = none → full'.get? key = none ∧ part'.get? key = none)
    (hown : next = some t → Option.Rel pair (full'.get? key) (part'.get? key))
    (hother : ∀ {u}, next = some u → u ≠ t → ∀ {a}, full'.get? key = some a → foreign a) :
    Keyed.Alike t (Function.update owner key next) pair foreign full' part' where
  nobody {other} h' := by
    by_cases hkey : other = key
    · rw [hkey, Function.update_self] at h'
      rw [hkey]
      exact hnobody h'
    · rw [Function.update_of_ne hkey] at h'
      rw [hfull other hkey, hpart other hkey]
      exact h.nobody h'
  own {other} h' := by
    by_cases hkey : other = key
    · rw [hkey, Function.update_self] at h'
      rw [hkey]
      exact hown h'
    · rw [Function.update_of_ne hkey] at h'
      rw [hfull other hkey, hpart other hkey]
      exact h.own h'
  other {other u} h' hu a ha := by
    by_cases hkey : other = key
    · rw [hkey, Function.update_self] at h'
      rw [hkey] at ha
      exact hother h' hu ha
    · rw [Function.update_of_ne hkey] at h'
      rw [hfull other hkey] at ha
      exact h.other h' hu ha

/-- The thread binds a key. -/
theorem insert (key : String) {a b : α} (hab : pair a b) :
    Keyed.Alike t (Function.update owner key (some t)) pair foreign (full.insert key a)
      (part.insert key b) := by
  refine h.change (some t) (fun _ hne => ?_) (fun _ hne => ?_) nofun (fun _ => ?_) fun hu hne => ?_
  · rw [get?_insert, if_neg hne]
  · rw [get?_insert, if_neg hne]
  · rw [get?_insert, get?_insert, if_pos rfl, if_pos rfl]
    exact .some hab
  · exact absurd (Option.some.inj hu).symm hne

/-- Another thread binds a key. -/
theorem insert_foreign (key : String) (hu : u ≠ t) {a : α} (ha : foreign a) :
    Keyed.Alike t (Function.update owner key (some u)) pair foreign (full.insert key a) part := by
  refine h.change (some u) (fun _ hne => ?_) (fun _ _ => rfl) nofun (fun ht => ?_) fun _ _ b hb => ?_
  · rw [get?_insert, if_neg hne]
  · exact absurd (Option.some.inj ht) hu
  · rw [get?_insert, if_pos rfl] at hb
    exact Option.some.inj hb ▸ ha

/-- What there is under a key that a thread may use, the thread has put there. -/
theorem owner_eq {key : String} (hkey : Session.Owners.Free owner u key) {a : α}
    (ha : full.get? key = some a) : owner key = some u := by
  rcases hkey with hkey | hkey
  · rw [(h.nobody hkey).1] at ha
    cases ha
  · exact hkey

/-- The thread puts something else under a key of its own. -/
theorem replace {key : String} (hkey : owner key = some t) {a b : α} (hab : pair a b) :
    Keyed.Alike t owner pair foreign (full.insert key a) (part.insert key b) := by
  have h' := h.insert key hab
  rwa [← hkey, Function.update_eq_self] at h'

/-- Another thread puts something else under a key of its own. -/
theorem replace_foreign {key : String} (hkey : owner key = some u) (hu : u ≠ t) {a : α}
    (ha : foreign a) : Keyed.Alike t owner pair foreign (full.insert key a) part := by
  have h' := h.insert_foreign key hu ha
  rwa [← hkey, Function.update_eq_self] at h'

/-- The thread takes out what is under a key of its own. -/
theorem erase {key : String} (hkey : owner key = some t) :
    Keyed.Alike t owner pair foreign (full.erase key) (part.erase key) := by
  have h' : Keyed.Alike t (Function.update owner key (some t)) pair foreign (full.erase key)
      (part.erase key) := by
    refine h.change (some t) (fun _ hne => ?_) (fun _ hne => ?_) nofun (fun _ => ?_)
      fun hu hne => absurd (Option.some.inj hu).symm hne
    · rw [get?_erase, if_neg hne]
    · rw [get?_erase, if_neg hne]
    · rw [get?_erase, get?_erase, if_pos rfl, if_pos rfl]
      exact .none
  rwa [← hkey, Function.update_eq_self] at h'

/-- Another thread takes out what is under a key of its own. -/
theorem erase_foreign {key : String} (hkey : owner key = some u) (hu : u ≠ t) :
    Keyed.Alike t owner pair foreign (full.erase key) part := by
  have h' : Keyed.Alike t (Function.update owner key (some u)) pair foreign (full.erase key)
      part := by
    refine h.change (some u) (fun _ hne => ?_) (fun _ _ => rfl) nofun
      (fun ht => absurd (Option.some.inj ht) hu) fun _ _ a ha => ?_
    · rw [get?_erase, if_neg hne]
    · rw [get?_erase, if_pos rfl] at ha
      cases ha
  rwa [← hkey, Function.update_eq_self] at h'

end Keyed.Alike

/-- The maps are alike, and the second has nothing but what the thread has put there. -/
structure Keyed.Apart {α : Type} (t : ThreadId) (owner : String → Option ThreadId)
    (pair : α → α → Prop) (foreign : α → Prop) (full part : Keyed String α) : Prop
    extends Keyed.Alike t owner pair foreign full part where
  none_of : ∀ {key}, owner key ≠ some t → part.get? key = none

namespace Keyed.Apart

variable {α : Type} {t u : ThreadId} {owner : String → Option ThreadId} {pair : α → α → Prop}
  {foreign : α → Prop} {full part : Keyed String α} (h : Keyed.Apart t owner pair foreign full part)
include h

theorem mono {pair' : α → α → Prop} {foreign' : α → Prop} (hpair : ∀ {a b}, pair a b → pair' a b)
    (hforeign : ∀ {a}, foreign a → foreign' a) :
    Keyed.Apart t owner pair' foreign' full part :=
  ⟨h.toAlike.mono hpair hforeign, h.none_of⟩

/-- A change under one key, which gets another owner or none. -/
theorem change {key : String} {next : Option ThreadId} {full' part' : Keyed String α}
    (halike : Keyed.Alike t (Function.update owner key next) pair foreign full' part')
    (hpart : ∀ other, other ≠ key → part'.get? other = part.get? other)
    (hnone : next ≠ some t → part'.get? key = none) :
    Keyed.Apart t (Function.update owner key next) pair foreign full' part' where
  toAlike := halike
  none_of {other} hne := by
    by_cases hkey : other = key
    · rw [hkey, Function.update_self] at hne
      rw [hkey]
      exact hnone hne
    · rw [Function.update_of_ne hkey] at hne
      rw [hpart other hkey]
      exact h.none_of hne

/-- The thread binds a key. -/
theorem insert (key : String) {a b : α} (hab : pair a b) :
    Keyed.Apart t (Function.update owner key (some t)) pair foreign (full.insert key a)
      (part.insert key b) := by
  refine h.change (h.toAlike.insert key hab) (fun _ hne => ?_) fun hne => absurd rfl hne
  rw [get?_insert, if_neg hne]

/-- Another thread binds a key that is not the thread's. -/
theorem insert_foreign {key : String} (hkey : owner key ≠ some t) (hu : u ≠ t) {a : α}
    (ha : foreign a) :
    Keyed.Apart t (Function.update owner key (some u)) pair foreign (full.insert key a) part :=
  h.change (h.toAlike.insert_foreign key hu ha) (fun _ _ => rfl) fun _ => h.none_of hkey

/-- There is nothing under a key any longer, and it belongs to nobody. -/
theorem release {key : String} {full' part' : Keyed String α}
    (hfull : ∀ other, other ≠ key → full'.get? other = full.get? other)
    (hpart : ∀ other, other ≠ key → part'.get? other = part.get? other)
    (hfull' : full'.get? key = none) (hpart' : part'.get? key = none) :
    Keyed.Apart t (Function.update owner key none) pair foreign full' part' :=
  h.change (h.toAlike.change none hfull hpart (fun _ => ⟨hfull', hpart'⟩) nofun nofun) hpart
    fun _ => hpart'

end Keyed.Apart

/-- Maps with nothing in them, whose keys belong to nobody. -/
theorem Keyed.apart_empty {α : Type} (t : ThreadId) (pair : α → α → Prop) (foreign : α → Prop) :
    Keyed.Apart t (fun _ => none) pair foreign .empty .empty where
  nobody _ := ⟨rfl, rfl⟩
  own := nofun
  other := nofun
  none_of _ := rfl

/-! ### Registries -/

/-- The two registries are alike for the thread: it has instruments that belong together in both or
none in either, and the instruments of other threads are foreign. -/
structure Registry.Alike (t : ThreadId) (m : Matching) (full part : Registry) : Prop where
  enabled_eq : part.enabled = full.enabled
  slot : Option.Rel m.pair (full.slots.get? t) (part.slots.get? t)
  foreign : ∀ {u}, u ≠ t → ∀ {i}, full.slots.get? u = some i → m.foreign i

namespace Registry.Alike

variable {t u : ThreadId} {m later : Matching} {full part : Registry}

/-- A registry that nobody has an instrument of. -/
theorem of_empty (m : Matching) (enabled : Bool) : Alike t m { enabled } { enabled } where
  enabled_eq := rfl
  slot := .none
  foreign _ _ hi := by cases hi

variable (h : Alike t m full part)
include h

theorem mono (hm : m.Extends later) : Alike t later full part where
  enabled_eq := h.enabled_eq
  slot := optionRel_mono hm.pair h.slot
  foreign hu _ hi := hm.foreign (h.foreign hu hi)

/-- The thread gets other instruments, or loses those that it had. -/
theorem change {full' part' : Registry} (henabled : part'.enabled = full'.enabled)
    (hslot : Option.Rel m.pair (full'.slots.get? t) (part'.slots.get? t))
    (hslots : ∀ other, other ≠ t → full'.slots.get? other = full.slots.get? other) :
    Alike t m full' part' where
  enabled_eq := henabled
  slot := hslot
  foreign hu _ hi := h.foreign hu ((hslots _ hu).symm.trans hi)

/-- Another thread gets another instrument, or loses the one that it had. -/
theorem change_foreign (hu : u ≠ t) {full' : Registry} (henabled : full'.enabled = full.enabled)
    (hforeign : ∀ {i}, full'.slots.get? u = some i → m.foreign i)
    (hslots : ∀ other, other ≠ u → full'.slots.get? other = full.slots.get? other) :
    Alike t m full' part where
  enabled_eq := h.enabled_eq.trans henabled.symm
  slot := by
    rw [hslots t hu.symm]
    exact h.slot
  foreign {other} hne i hi := by
    by_cases hother : other = u
    · exact hforeign (hother ▸ hi)
    · exact h.foreign hne ((hslots other hother).symm.trans hi)

/-- The thread gets a new instrument in both registries. -/
theorem insert {enabled enabled' : Bool} (henabled : enabled' = enabled) (i j : InstrumentId) :
    Alike t (m.withPair i j) ⟨enabled, full.slots.insert t i⟩ ⟨enabled', part.slots.insert t j⟩ := by
  refine (h.mono (m.extends_withPair i j)).change henabled ?_ fun _ hne => ?_
  · rw [Keyed.get?_insert, Keyed.get?_insert, if_pos rfl, if_pos rfl]
    exact .some (.inr ⟨rfl, rfl⟩)
  · rw [Keyed.get?_insert, if_neg hne]

/-- Another thread gets a new instrument in the first registry. -/
theorem insert_foreign (hu : u ≠ t) (i : InstrumentId) :
    Alike t (m.withForeign i) { full with slots := full.slots.insert u i } part := by
  refine (h.mono (m.extends_withForeign i)).change_foreign hu rfl (fun hi => ?_) fun _ hne => ?_
  · rw [Keyed.get?_insert, if_pos rfl] at hi
    exact .inr (Option.some.inj hi).symm
  · rw [Keyed.get?_insert, if_neg hne]

end Registry.Alike

end Profiler
