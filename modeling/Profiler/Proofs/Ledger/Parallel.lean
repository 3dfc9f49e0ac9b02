import Profiler.Proofs.Fields
import Profiler.Proofs.Ledger.Basic

/-!
# Two ledgers side by side

Two ledgers that track different metrics, of different scopes, and are given the same orders at
different clocks. `Ledger.Parallel` says what they have in common: the open paths, and some fields
that both track and whose sources have told both the same. It says nothing of which paths have
entries, because an addition that one of them ignores makes an entry in the other only. Every order
goes the same way in both (`Ledger.Parallel.follow`).
-/

namespace Profiler

/-! ### Fields that both track -/

namespace Field

variable {field : Field} {metrics other : Metrics}

theorem perEntry_eq_perEntry (h : field.tracked metrics = true)
    (hother : field.tracked other = true) : field.perEntry metrics = field.perEntry other := by
  unfold perEntry
  rcases field with gauge | _
  · simp
  · have hcount : metrics.count = true := h
    have hcount' : other.count = true := hother
    rw [hcount, hcount']

theorem elapsed_eq_elapsed {entry now entry' now' : Reading}
    (hentry : field.seen? entry = field.seen? entry') (hnow : field.seen? now = field.seen? now') :
    field.elapsed entry now = field.elapsed entry' now' := by
  rw [elapsed, elapsed, hentry, hnow]

/-- An addition that is not accepted is not one to a field that is tracked. -/
theorem amount_of_not_accepts {addition : Addition} (h : field.tracked metrics = true)
    (haccepts : ¬metrics.accepts addition = true) : field.amount addition = 0 := by
  unfold amount
  split
  all_goals first | rfl | exact absurd h haccepts

/-- Whether an addition is accepted makes no difference to a field that is tracked. -/
theorem accepted_amount (h : field.tracked metrics = true) (addition : Addition) (goes : Prop)
    [Decidable goes] :
    (if goes ∧ metrics.accepts addition = true then field.amount addition else 0) =
      if goes then field.amount addition else 0 := by
  by_cases haccepts : metrics.accepts addition = true
  · simp only [haccepts, and_true]
  · rw [if_neg fun hboth => haccepts hboth.2, amount_of_not_accepts h haccepts, ite_self]

end Field

namespace Ledger

theorem totals_update (ledger : Ledger) (path : List String) (f : Totals → Totals)
    (other : List String) : (ledger.update path f).totals other =
      if other = path then f (ledger.totals path) else ledger.totals other := by
  rw [totals, update, Keyed.get?_insert]
  split <;> rfl

/-- An addition changes nothing but entries. -/
theorem add_eq (ledger : Ledger) (name : String) (addition : Addition) :
    ledger.add name addition = { ledger with entries := (ledger.add name addition).entries } := by
  unfold add
  split <;> rfl

/-- An addition adds its amount to the region that it goes to, if it is accepted. -/
theorem of_totals_add (ledger : Ledger) (name : String) (addition : Addition) (field : Field)
    (path : List String) : field.of ((ledger.add name addition).totals path) =
      min (field.of (ledger.totals path) +
        if path = ledger.path ++ [name] ∧ ledger.metrics.accepts addition = true then
          field.amount addition else 0) field.limit := by
  have hle := field.of_le_limit (ledger.totals path)
  unfold add
  by_cases haccepts : ledger.metrics.accepts addition = true
  · rw [if_pos haccepts, totals_update]
    by_cases hpath : path = ledger.path ++ [name]
    · rw [if_pos hpath, if_pos ⟨hpath, haccepts⟩, field.of_add, hpath]
    · rw [if_neg hpath, if_neg fun h => hpath h.1, Nat.add_zero, Nat.min_eq_left hle]
  · rw [if_neg haccepts, if_neg fun h => haccepts h.2, Nat.add_zero, Nat.min_eq_left hle]

/-- The same path, and the same readings of the sources of some fields. -/
structure SameEntry (fields : Field → Prop) (frame other : Frame) : Prop where
  path_eq : frame.path = other.path
  seen_eq : ∀ field, fields field → field.seen? frame.entry = field.seen? other.entry

/-- The ledgers have the same paths open, and the same in some fields that both track, which have
learned the same so far. -/
structure Parallel (fields : Field → Prop) (ledger other : Ledger) : Prop where
  top_eq : ledger.top = other.top
  tracked : ∀ field, fields field →
    field.tracked ledger.metrics = true ∧ field.tracked other.metrics = true
  inner : List.Forall₂ (SameEntry fields) ledger.inner other.inner
  bottom : ∀ field, fields field → field.seen? ledger.bottom = field.seen? other.bottom
  of_eq : ∀ field, fields field → ∀ path,
    field.of (ledger.totals path) = field.of (other.totals path)

/-- Readings at two clocks are the same for some fields. -/
def SameNow (fields : Field → Prop) (ledger other : Ledger) (clock clock' : Clock) : Prop :=
  ∀ field, fields field → field.seen? (ledger.now clock) = field.seen? (other.now clock')

theorem now_leave (ledger : Ledger) (clock other : Clock) :
    (ledger.leave clock).now other = ledger.now other := by
  unfold leave
  split <;> rfl

theorem SameNow.leave {fields : Field → Prop} {ledger other : Ledger} {clock clock' : Clock}
    (h : SameNow fields ledger other clock clock') :
    SameNow fields (ledger.leave clock) (other.leave clock') clock clock' := by
  intro field hfield
  rw [now_leave, now_leave]
  exact h field hfield

namespace Parallel

variable {fields : Field → Prop} {ledger other : Ledger} {clock clock' : Clock}
  (h : Parallel fields ledger other)
include h

/-! ### What they have in common -/

theorem paths_eq : ledger.inner.map Frame.path = other.inner.map Frame.path := by
  have hpaths : ∀ frames others, List.Forall₂ (SameEntry fields) frames others →
      frames.map Frame.path = others.map Frame.path := by
    intro frames others hframes
    induction hframes with
    | nil => rfl
    | cons hframe _ ih => rw [List.map_cons, List.map_cons, hframe.path_eq, ih]
  exact hpaths _ _ h.inner

theorem path_eq : ledger.path = other.path := by
  rw [path, path, ← List.head?_map, ← List.head?_map, h.paths_eq]

theorem nameOf_eq (path : List String) : ledger.nameOf path = other.nameOf path := by
  rw [nameOf, nameOf, h.top_eq]

theorem currentName_eq : ledger.currentName = other.currentName := by
  rw [currentName, currentName, h.path_eq, h.nameOf_eq]

theorem length_inner : ledger.inner.length = other.inner.length := h.inner.length_eq

/-- The names of the open regions are the same. -/
theorem names_eq : ledger.frames.map (fun frame => ledger.nameOf frame.path) =
    other.frames.map fun frame => other.nameOf frame.path := by
  have hname : other.nameOf = ledger.nameOf := funext fun path => (h.nameOf_eq path).symm
  have hpaths : ledger.frames.map Frame.path = other.frames.map Frame.path := by
    rw [frames, frames, List.map_append, List.map_append, h.paths_eq]
    rfl
  have hnames := congrArg (List.map ledger.nameOf) hpaths
  rw [List.map_map, List.map_map] at hnames
  rw [hname]
  exact hnames

/-- The innermost frame of a name is in the same position. -/
theorem findIdx?_eq (name : String) :
    ledger.inner.findIdx? (fun frame => ledger.nameOf frame.path = name) =
      other.inner.findIdx? fun frame => other.nameOf frame.path = name := by
  have hname : other.nameOf = ledger.nameOf := funext fun path => (h.nameOf_eq path).symm
  have hfind := congrArg (List.findIdx? fun path => ledger.nameOf path = name) h.paths_eq
  rw [List.findIdx?_map, List.findIdx?_map] at hfind
  rw [hname]
  exact hfind

theorem closingEvents_eq (name : String) (nested : Nat) :
    ledger.closingEvents name nested = other.closingEvents name nested := by
  rw [closingEvents, closingEvents, h.currentName_eq]

/-! ### Moves -/

/-- Updates of one path that come to the same in the fields keep the ledgers side by side. -/
theorem update {f g : Totals → Totals} (path : List String)
    (hfg : ∀ field, fields field → ∀ totals totals', field.of totals = field.of totals' →
      field.of (f totals) = field.of (g totals')) :
    Parallel fields (ledger.update path f) (other.update path g) where
  top_eq := h.top_eq
  tracked := h.tracked
  inner := h.inner
  bottom := h.bottom
  of_eq field hfield other' := by
    rw [totals_update, totals_update]
    split
    · exact hfg field hfield _ _ (h.of_eq field hfield path)
    · exact h.of_eq field hfield other'

theorem enter (hnow : SameNow fields ledger other clock clock') (name : String) :
    Parallel fields (ledger.enter name clock) (other.enter name clock') := by
  have hupdate := h.update (f := (·.countEntry ledger.metrics)) (g := (·.countEntry other.metrics))
    (ledger.path ++ [name]) fun field hfield totals totals' heq => by
      obtain ⟨htracked, htracked'⟩ := h.tracked field hfield
      rw [field.of_countEntry, field.of_countEntry, heq,
        Field.perEntry_eq_perEntry htracked htracked']
  unfold Ledger.enter
  rw [← h.path_eq]
  exact ⟨h.top_eq, h.tracked, .cons ⟨rfl, hnow⟩ h.inner, h.bottom, hupdate.of_eq⟩

/-- What goes by in a region is the same in both. -/
theorem elapse (hnow : SameNow fields ledger other clock clock') {entry entry' : Reading}
    (hentry : ∀ field, fields field → field.seen? entry = field.seen? entry')
    (path : List String) :
    Parallel fields (ledger.update path (·.elapse entry (ledger.now clock)))
      (other.update path (·.elapse entry' (other.now clock'))) :=
  h.update path fun field hfield totals totals' heq => by
    rw [field.of_elapse, field.of_elapse, heq,
      Field.elapsed_eq_elapsed (hentry field hfield) (hnow field hfield)]

theorem leave (hnow : SameNow fields ledger other clock clock') :
    Parallel fields (ledger.leave clock) (other.leave clock') := by
  have hinner := h.inner
  unfold Ledger.leave
  cases hframes : ledger.inner with
  | nil =>
    rw [hframes] at hinner
    rw [List.forall₂_nil_left_iff.mp hinner]
    exact h
  | cons frame outer =>
    rw [hframes] at hinner
    obtain ⟨frame', outer', hframe, houter, hframes'⟩ := List.forall₂_cons_left_iff.mp hinner
    have helapse := h.elapse hnow hframe.seen_eq frame.path
    rw [hframes']
    dsimp only
    rw [← hframe.path_eq]
    exact ⟨helapse.top_eq, helapse.tracked, houter, helapse.bottom, helapse.of_eq⟩

theorem unwind (hnow : SameNow fields ledger other clock clock') (count : Nat) :
    Parallel fields (ledger.unwind clock count) (other.unwind clock' count) := by
  induction count generalizing ledger other with
  | zero => exact h
  | succ count ih => exact ih (h.leave hnow) (hnow.leave)

theorem add (name : String) (addition : Addition) :
    Parallel fields (ledger.add name addition) (other.add name addition) := by
  have hof : ∀ field, fields field → ∀ path,
      field.of ((ledger.add name addition).totals path) =
        field.of ((other.add name addition).totals path) := by
    intro field hfield path
    obtain ⟨htracked, htracked'⟩ := h.tracked field hfield
    rw [of_totals_add, of_totals_add, Field.accepted_amount htracked,
      Field.accepted_amount htracked', h.path_eq, h.of_eq field hfield]
  rw [add_eq ledger, add_eq other]
  exact ⟨h.top_eq, h.tracked, h.inner, h.bottom, hof⟩

theorem closeOut (hnow : SameNow fields ledger other clock clock') :
    Parallel fields (ledger.closeOut clock) (other.closeOut clock') := by
  have helapse := h.elapse hnow h.bottom []
  exact ⟨helapse.top_eq, helapse.tracked, helapse.inner, hnow, helapse.of_eq⟩

/-! ### Orders -/

theorem exit (hnow : SameNow fields ledger other clock clock') (name : String) :
    (ledger.exit name clock).1 = (other.exit name clock').1 ∧
      (ledger.exit name clock).2.1 = (other.exit name clock').2.1 ∧
      Parallel fields (ledger.exit name clock).2.2 (other.exit name clock').2.2 := by
  unfold Ledger.exit
  rw [h.findIdx?_eq name, h.top_eq, h.length_inner, h.currentName_eq]
  split
  · exact ⟨rfl, h.closingEvents_eq name _, h.unwind hnow _⟩
  · split
    · exact ⟨rfl, h.closingEvents_eq name _, h.unwind hnow _⟩
    · exact ⟨rfl, rfl, h⟩

theorem change (hnow : SameNow fields ledger other clock clock') (name : String) :
    (ledger.change name clock).1 = (other.change name clock').1 ∧
      Parallel fields (ledger.change name clock).2 (other.change name clock').2 := by
  have hlength := h.length_inner
  have hchanged := (h.leave hnow).enter (hnow.leave) name
  unfold Ledger.change
  cases hinner : ledger.inner with
  | nil =>
    rw [hinner, List.length_nil] at hlength
    rw [List.length_eq_zero_iff.mp hlength.symm, h.top_eq]
    exact ⟨rfl, h⟩
  | cons frame outer =>
    rw [hinner] at hlength
    obtain ⟨frame', outer', hinner'⟩ := List.exists_cons_of_length_eq_add_one hlength.symm
    rw [hinner']
    exact ⟨rfl, hchanged⟩

/-- **Every order goes the same way in both**, and they stay side by side. -/
theorem follow (hnow : SameNow fields ledger other clock clock') (order : Order) :
    (ledger.follow clock order).1.result = (other.follow clock' order).1.result ∧
      (ledger.follow clock order).1.events = (other.follow clock' order).1.events ∧
      Parallel fields (ledger.follow clock order).2 (other.follow clock' order).2 := by
  cases order with
  | enter name => exact ⟨rfl, rfl, h.enter hnow name⟩
  | exit name =>
    obtain ⟨hresult, hevents, hparallel⟩ := h.exit hnow name
    simp only [Ledger.follow, hresult, hevents]
    cases (other.exit name clock').1 with
    | ok => exact ⟨rfl, rfl, hparallel⟩
    | error fault => cases fault <;> exact ⟨rfl, rfl, hparallel⟩
  | tryExit name => exact h.exit hnow name
  | change name =>
    obtain ⟨hresult, hparallel⟩ := h.change hnow name
    simp only [Ledger.follow, hresult]
    cases (other.change name clock').1 with
    | ok => exact ⟨rfl, rfl, hparallel⟩
    | error fault => exact ⟨rfl, rfl, hparallel⟩
  | tryChange name =>
    obtain ⟨hresult, hparallel⟩ := h.change hnow name
    exact ⟨hresult, rfl, hparallel⟩
  | add name addition => exact ⟨rfl, rfl, h.add name addition⟩
  | report => exact ⟨rfl, rfl, h.closeOut hnow⟩

end Parallel

end Ledger

end Profiler
