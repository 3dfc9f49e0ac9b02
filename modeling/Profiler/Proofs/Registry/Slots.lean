import Mathlib.Data.List.Induction
import Mathlib.Data.List.Nodup
import Profiler.Registry

/-!
# Timers that come into slots and leave them

A registry has one `Slot` for each thread. A `SlotHistory` tells what was done with the slots of all
registries and which timers came into them and were given back, and `SlotHistory.Arises` says how
such a history goes on: a timer that comes into a slot has never been in one, and what is given back
is what was there. So no timer is lost and none is there twice (`SlotHistory.Arises.conserved`,
`SlotHistory.Arises.nodup_arrivals`), and a handle tells in which slot its timer was, and when
(`SlotHistory.Arises.handle_eq_iff`).
-/

namespace Profiler

/-- The place that a registry has for the timer of a thread. -/
structure Slot where
  registry : RegistryId
  thread : ThreadId
deriving DecidableEq

/-- Something that is done with a slot. -/
inductive SlotDeed where
  /-- The thread asks for its timer, which is created. -/
  | created (id : InstrumentId)
  /-- The thread asks for its timer and gets the one that is there. -/
  | handed (id : InstrumentId)
  /-- The thread installs a timer and gets back what was there. -/
  | installed (id : InstrumentId) (returned? : Option InstrumentId)
  /-- The thread removes what is there and gets it back. -/
  | removed (returned? : Option InstrumentId)
  /-- The thread has ended, and what was there is given up. -/
  | forgotten (returned? : Option InstrumentId)
deriving DecidableEq

namespace SlotDeed

/-- The handle that the thread gets if it asks for its timer. -/
def handle? : SlotDeed → Option Handle
  | created id | handed id => some (.shared id)
  | installed .. | removed _ | forgotten _ => none

/-- The timer that comes into the slot. -/
def arrived? : SlotDeed → Option InstrumentId
  | created id | installed id _ => some id
  | handed _ | removed _ | forgotten _ => none

/-- The timer that is given back. -/
def returned? : SlotDeed → Option InstrumentId
  | installed _ returned? | removed returned? | forgotten returned? => returned?
  | created _ | handed _ => none

/-- The timer that is in the slot afterwards. -/
def leaves (occupant? : Option InstrumentId) : SlotDeed → Option InstrumentId
  | created id | installed id _ => some id
  | handed _ => occupant?
  | removed _ | forgotten _ => none

/-- A timer is created only where there is none, who asks gets the one that is there, and what was
there is given back. -/
inductive Fits : Option InstrumentId → SlotDeed → Prop
  | created (id : InstrumentId) : Fits none (.created id)
  | handed (id : InstrumentId) : Fits (some id) (.handed id)
  | installed (occupant? : Option InstrumentId) (id : InstrumentId) :
    Fits occupant? (.installed id occupant?)
  | removed (occupant? : Option InstrumentId) : Fits occupant? (.removed occupant?)
  | forgotten (occupant? : Option InstrumentId) : Fits occupant? (.forgotten occupant?)

/-- The timer that is in a slot after deeds that were done one after the other. -/
def occupant? (deeds : List SlotDeed) : Option InstrumentId := deeds.foldl leaves none

/-- The timers that came into a slot. -/
def arrivals (deeds : List SlotDeed) : List InstrumentId := deeds.filterMap arrived?

/-- The timers that were given back. -/
def returned (deeds : List SlotDeed) : List InstrumentId := deeds.filterMap returned?

theorem occupant?_append (deeds : List SlotDeed) (deed : SlotDeed) :
    occupant? (deeds ++ [deed]) = deed.leaves (occupant? deeds) :=
  List.foldl_append

theorem arrivals_append (deeds rest : List SlotDeed) :
    arrivals (deeds ++ rest) = arrivals deeds ++ arrivals rest :=
  List.filterMap_append

theorem arrivals_singleton (deed : SlotDeed) : arrivals [deed] = deed.arrived?.toList := by
  cases deed <;> rfl

theorem returned_append (deeds : List SlotDeed) (deed : SlotDeed) :
    returned (deeds ++ [deed]) = returned deeds ++ deed.returned?.toList := by
  rw [returned, List.filterMap_append]
  cases deed with
  | created _ | handed _ => rfl
  | installed _ returned? | removed returned? | forgotten returned? => cases returned? <;> rfl

/-- What is there and what comes is what is given back and what is there then. -/
theorem Fits.conserved {occupant? : Option InstrumentId} {deed : SlotDeed}
    (h : deed.Fits occupant?) :
    deed.returned?.toList ++ (deed.leaves occupant?).toList =
      occupant?.toList ++ deed.arrived?.toList := by
  cases h with
  | created _ | handed _ | installed _ _ => rfl
  | removed _ | forgotten _ => rfl

end SlotDeed

/-- What was done with the slots of all registries, the earliest first. -/
abbrev SlotHistory := List (Slot × SlotDeed)

namespace SlotHistory

open SlotDeed

/-- What was done with one slot. -/
def deedsIn (history : SlotHistory) (slot : Slot) : List SlotDeed :=
  (history.filter fun entry => entry.1 = slot).map Prod.snd

/-- The histories of slots, with a bound of the numbers of all timers. Timers that come into a slot
are numbered from the bound that there was before; other timers may have been made in between. -/
inductive Arises : Nat → SlotHistory → Prop
  | start (size : Nat) : Arises size []
  | grow {size later : Nat} {history : SlotHistory} (h : Arises size history)
    (hle : size ≤ later) : Arises later history
  | turn {size later : Nat} {history : SlotHistory} (h : Arises size history) (slot : Slot)
    {deed : SlotDeed} (hfits : deed.Fits (occupant? (history.deedsIn slot)))
    (hle : size ≤ later) (hfresh : ∀ id ∈ deed.arrived?, size ≤ id ∧ id < later) :
    Arises later (history ++ [(slot, deed)])

/-! ### One more deed -/

theorem deedsIn_append (history rest : SlotHistory) (slot : Slot) :
    (history ++ rest).deedsIn slot = history.deedsIn slot ++ SlotHistory.deedsIn rest slot := by
  rw [deedsIn, List.filter_append, List.map_append]
  rfl

theorem deedsIn_cons_self (slot : Slot) (deed : SlotDeed) (rest : SlotHistory) :
    SlotHistory.deedsIn ((slot, deed) :: rest) slot = deed :: rest.deedsIn slot := by
  rw [deedsIn, List.filter_cons_of_pos (by simp)]
  rfl

theorem deedsIn_singleton_of_ne {slot other : Slot} (h : slot ≠ other) (deed : SlotDeed) :
    SlotHistory.deedsIn [(slot, deed)] other = [] := by
  rw [deedsIn, List.filter_cons_of_neg (by simpa using h)]
  rfl

theorem deedsIn_append_self (history : SlotHistory) (slot : Slot) (deed : SlotDeed) :
    (history ++ [(slot, deed)]).deedsIn slot = history.deedsIn slot ++ [deed] := by
  rw [deedsIn_append, deedsIn_cons_self]
  rfl

theorem deedsIn_append_of_ne (history : SlotHistory) {slot other : Slot} (h : slot ≠ other)
    (deed : SlotDeed) : (history ++ [(slot, deed)]).deedsIn other = history.deedsIn other := by
  rw [deedsIn_append, deedsIn_singleton_of_ne h, List.append_nil]

theorem mem_arrivals_deedsIn {history : SlotHistory} {slot : Slot} {id : InstrumentId} :
    id ∈ arrivals (history.deedsIn slot) ↔
      ∃ deed, (slot, deed) ∈ history ∧ deed.arrived? = some id := by
  simp [arrivals, deedsIn]

namespace Arises

variable {size : Nat} {history : SlotHistory}

/-- What was so far is a history, too, and what came then fits it. -/
theorem of_append (h : Arises size history) {before later : SlotHistory} {slot : Slot}
    {deed : SlotDeed} (heq : history = before ++ (slot, deed) :: later) :
    (∃ earlier, Arises earlier before) ∧ deed.Fits (occupant? (before.deedsIn slot)) := by
  induction h generalizing later with
  | start _ => simp at heq
  | grow _ _ ih => exact ih heq
  | @turn size' _ history' h other deed' hfits _ _ ih =>
    -- Either this is the last deed, or it is one of those before the last.
    induction later using List.reverseRecOn with
    | nil =>
      obtain ⟨rfl, hentry⟩ := List.append_inj' heq rfl
      cases hentry
      exact ⟨⟨size', h⟩, hfits⟩
    | append_singleton later last _ =>
      rw [← List.cons_append, ← List.append_assoc] at heq
      exact ih (List.append_inj' heq rfl).1

/-- **No timer is lost.** What was given back and what is there is what came, in the same order. -/
theorem conserved (h : Arises size history) (slot : Slot) :
    returned (history.deedsIn slot) ++ (occupant? (history.deedsIn slot)).toList =
      arrivals (history.deedsIn slot) := by
  induction h with
  | start _ => rfl
  | grow _ _ ih => exact ih
  | @turn _ _ history _ other deed hfits _ _ ih =>
    by_cases heq : other = slot
    · -- What is given back now stood last among what came.
      subst heq
      rw [deedsIn_append_self, returned_append, occupant?_append, arrivals_append,
        arrivals_singleton, List.append_assoc, hfits.conserved, ← List.append_assoc, ih]
    · rw [deedsIn_append_of_ne _ heq]
      exact ih

theorem lt_size (h : Arises size history) :
    ∀ entry ∈ history, ∀ id ∈ entry.2.arrived?, id < size := by
  induction h with
  | start _ => nofun
  | grow _ hle ih => exact fun entry hmem id hid => Nat.lt_of_lt_of_le (ih entry hmem id hid) hle
  | turn _ slot _ hle hfresh ih =>
    intro entry hmem id hid
    rcases List.mem_append.mp hmem with hbefore | hlast
    · exact Nat.lt_of_lt_of_le (ih entry hbefore id hid) hle
    · obtain rfl := List.mem_singleton.mp hlast
      exact (hfresh id hid).2

theorem lt_of_occupant (h : Arises size history) {slot : Slot} {id : InstrumentId}
    (hslot : occupant? (history.deedsIn slot) = some id) : id < size := by
  have hmem : id ∈ arrivals (history.deedsIn slot) := by
    rw [← h.conserved, hslot]
    exact List.mem_append_right _ (List.mem_singleton_self id)
  obtain ⟨deed, hdeed, hid⟩ := mem_arrivals_deedsIn.mp hmem
  exact h.lt_size _ hdeed id hid

/-- Each timer that comes into a slot is newer than all that came into one before. -/
theorem pairwise (h : Arises size history) : history.Pairwise fun entry later =>
    ∀ id ∈ entry.2.arrived?, ∀ id' ∈ later.2.arrived?, id < id' := by
  induction h with
  | start _ => exact .nil
  | grow _ _ ih => exact ih
  | turn h slot _ _ hfresh ih =>
    refine List.pairwise_append.mpr ⟨ih, List.pairwise_singleton _ _, ?_⟩
    intro entry hmem last hlast id hid id' hid'
    obtain rfl := List.mem_singleton.mp hlast
    exact Nat.lt_of_lt_of_le (h.lt_size entry hmem id hid) (hfresh id' hid').1

/-- **No timer is there twice**, be it in one slot or in several. -/
theorem nodup_arrivals (h : Arises size history) : (arrivals (history.map Prod.snd)).Nodup := by
  rw [arrivals, List.filterMap_map]
  refine List.Pairwise.imp (fun hlt => Nat.ne_of_lt hlt) ?_
  exact h.pairwise.filterMap _ fun entry later hlt id hid id' hid' => hlt id hid id' hid'

/-- A timer has been in one slot only. -/
theorem slot_eq_of_mem (h : Arises size history) {slot other : Slot} {deed deed' : SlotDeed}
    (hmem : (slot, deed) ∈ history) (hmem' : (other, deed') ∈ history) {id : InstrumentId}
    (hid : deed.arrived? = some id) (hid' : deed'.arrived? = some id) : slot = other := by
  induction h with
  | start _ => cases hmem
  | grow _ _ ih => exact ih hmem hmem'
  | turn h last _ _ hfresh ih =>
    simp only [List.mem_append, List.mem_singleton, Prod.mk.injEq] at hmem hmem'
    rcases hmem with hbefore | ⟨rfl, rfl⟩ <;> rcases hmem' with hbefore' | ⟨rfl, rfl⟩
    · exact ih hbefore hbefore'
    -- A timer that comes now was in no slot before.
    · exact absurd (h.lt_size _ hbefore id hid) (Nat.not_lt.mpr (hfresh id hid').1)
    · exact absurd (h.lt_size _ hbefore' id hid') (Nat.not_lt.mpr (hfresh id hid).1)
    · rfl

theorem nodup_arrivals_deedsIn (h : Arises size history) (slot : Slot) :
    (arrivals (history.deedsIn slot)).Nodup := by
  refine List.Nodup.sublist ?_ h.nodup_arrivals
  exact (List.filter_sublist.map _).filterMap _

/-- Who asks for the timer of a slot gets the one that came after those that were given back. -/
theorem getElem?_arrivals (h : Arises size history) {before later : SlotHistory} {slot : Slot}
    {deed : SlotDeed} (heq : history = before ++ (slot, deed) :: later) {handle : Handle}
    (hhandle : deed.handle? = some handle) :
    ∃ id, handle = .shared id ∧
      (arrivals (history.deedsIn slot))[(returned (before.deedsIn slot)).length]? = some id := by
  obtain ⟨⟨earlier, hbefore⟩, hfits⟩ := h.of_append heq
  have hconserved := hbefore.conserved slot
  rw [heq, deedsIn_append, deedsIn_cons_self, arrivals_append]
  -- Before it, all that had come was given back, but for the timer that is handed.
  generalize occupant? (before.deedsIn slot) = occupant? at hfits hconserved
  cases hfits with
  | created id =>
    refine ⟨id, (Option.some.inj hhandle).symm, ?_⟩
    rw [← hconserved, Option.toList_none, List.append_nil,
      List.getElem?_append_right (Nat.le_refl _), Nat.sub_self]
    rfl
  | handed id =>
    refine ⟨id, (Option.some.inj hhandle).symm, ?_⟩
    rw [← hconserved, List.append_assoc, List.getElem?_append_right (Nat.le_refl _), Nat.sub_self]
    rfl
  | installed _ _ | removed _ | forgotten _ => cases hhandle

/-- **Handles are the same if they stand for the same timer in the same slot**: they were asked for
in the same slot, after as many timers had left it. -/
theorem handle_eq_iff (h : Arises size history) {before later before' later' : SlotHistory}
    {slot slot' : Slot} {deed deed' : SlotDeed} {handle handle' : Handle}
    (heq : history = before ++ (slot, deed) :: later)
    (heq' : history = before' ++ (slot', deed') :: later')
    (hhandle : deed.handle? = some handle) (hhandle' : deed'.handle? = some handle') :
    handle = handle' ↔ slot = slot' ∧
      (returned (before.deedsIn slot)).length = (returned (before'.deedsIn slot')).length := by
  obtain ⟨id, rfl, hid⟩ := h.getElem?_arrivals heq hhandle
  obtain ⟨id', rfl, hid'⟩ := h.getElem?_arrivals heq' hhandle'
  constructor
  · intro hsame
    obtain rfl := Handle.shared.inj hsame
    obtain ⟨arrival, hmem, harrived⟩ := mem_arrivals_deedsIn.mp (List.mem_of_getElem? hid)
    obtain ⟨arrival', hmem', harrived'⟩ := mem_arrivals_deedsIn.mp (List.mem_of_getElem? hid')
    obtain rfl := h.slot_eq_of_mem hmem hmem' harrived harrived'
    have hlt := (List.getElem?_eq_some_iff.mp hid).1
    exact ⟨rfl, (List.getElem?_inj hlt (h.nodup_arrivals_deedsIn slot)).mp (hid.trans hid'.symm)⟩
  · rintro ⟨rfl, hlength⟩
    rw [hlength, hid'] at hid
    rw [Option.some.inj hid]

end Arises

end SlotHistory

end Profiler
