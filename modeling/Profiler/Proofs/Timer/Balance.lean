import Mathlib.Algebra.GroupWithZero.Nat
import Profiler.Proofs.Timer.Reached
import Profiler.Proofs.Timer.Visits

/-!
# What is done inside a region stays below it

`Timer.ChangesBelow` says that nothing of a timer has changed but below a path, the times of the
top-level region apart, and that the counts below it have grown by what is listed in `Gains`. The
four moves of a timer are such changes (`Timer.Touches.changesBelow`), and such changes add up
(`Timer.ChangesBelow.trans`).

`Timer.Balances` says besides that the timer is back in the region in which it was. What is done
between an entry and the exit of the same region balances whatever was done inside
(`Timer.Balances.span`) and whatever the names: the innermost open region of the name is always the
one that was entered.
-/

namespace Profiler

/-- The path goes on below the other one. -/
def Below (path other : List String) : Prop := ∃ name names, other = path ++ name :: names

/-! ### Gains -/

/-- How often the regions with some paths were entered, or what was added to their counts. -/
abbrev Gains := List (List String × Nat)

namespace Gains

/-- All that is gained at a path. -/
def total (gains : Gains) (path : List String) : Nat :=
  ((gains.filter fun gain => gain.1 = path).map Prod.snd).sum

variable (gains : Gains)

@[simp] theorem total_nil (path : List String) : Gains.total [] path = 0 := rfl

@[simp] theorem total_append (rest : Gains) (path : List String) :
    Gains.total (gains ++ rest) path = gains.total path + rest.total path := by
  simp [Gains.total]

@[simp] theorem total_singleton (gained : List String) (amount : Nat) (path : List String) :
    Gains.total [(gained, amount)] path = if gained = path then amount else 0 := by
  by_cases h : gained = path <;> simp [Gains.total, h]

/-- Nothing is gained at a path that is not listed. -/
theorem total_eq_zero {path : List String} (h : ∀ gain ∈ gains, gain.1 ≠ path) :
    gains.total path = 0 := by
  have hnone : (gains.filter fun gain => gain.1 = path) = [] :=
    List.filter_eq_nil_iff.mpr fun gain hgain => by simpa using h gain hgain
  rw [Gains.total, hnone]
  rfl

end Gains

/-- What an order to a timer adds to the counts of the children of a region, while that region is
the innermost open one. -/
def Order.gains (path : List String) : Order → Gains
  | .enter name => [(path ++ [name], 1)]
  | .add name (.count entries) => [(path ++ [name], entries.val)]
  | _ => []

namespace Timer

/-- What the region with a path gains, if entries are counted. -/
def counted (timer : Timer) (gains : Gains) (path : List String) : Nat :=
  if timer.metrics.count then gains.total path else 0

/-- Nothing has changed that is not below the path, but for the times of the top-level region, and
what is new is below it. Everything that is listed is there, and each count has grown by what is
listed for it, up to the limit. -/
structure ChangesBelow (timer later : Timer) (path : List String) (gains : Gains) : Prop where
  wellFormed : later.WellFormed
  toExtends : timer.Extends later
  region_eq : ∀ id < timer.nodes.size, id ≠ 0 → ¬Below path (timer.path id) →
    (later.node id).region = (timer.node id).region
  below_of_new : ∀ id < later.nodes.size, timer.nodes.size ≤ id → Below path (later.path id)
  hasPath : timer.metrics.count = true → ∀ gain ∈ gains, later.HasPath gain.1
  count_eq : ∀ id < later.nodes.size, (later.node id).region.count.val =
    min ((timer.node id).region.count.val + timer.counted gains (later.path id)) (UInt64.size - 1)

section

variable {timer later last : Timer} {path : List String} {gains rest : Gains} {target : Nat}
  {f : Totals → Totals}

theorem counted_nil (path : List String) : timer.counted [] path = 0 := by
  rw [counted, Gains.total_nil, ite_self]

theorem counted_append (path : List String) :
    timer.counted (gains ++ rest) path = timer.counted gains path + timer.counted rest path := by
  unfold counted
  split_ifs
  · exact gains.total_append rest path
  · rfl

theorem Extends.counted_eq (h : timer.Extends later) : later.counted gains = timer.counted gains := by
  unfold counted
  rw [h.metrics_eq]

theorem count_node_of_size_le {id : Nat} (h : timer.nodes.size ≤ id) :
    (timer.node id).region.count.val = 0 := by
  rw [node_of_size_le timer h]
  rfl

/-! ### What a move changes -/

/-- Of all counts only that of the node that was touched has changed. -/
theorem Touches.count_eq (h : timer.Touches later target f) {amount : Nat}
    (hf : ∀ totals, Field.entries.of (f totals) =
      min (Field.entries.of totals + amount) Field.entries.limit) (id : Nat) :
    (later.node id).region.count.val =
      min ((timer.node id).region.count.val + if id = target then amount else 0)
        (UInt64.size - 1) :=
  h.of_totals hf id

variable (wf : timer.WellFormed)
include wf

/-- A move that touches the top-level region or one below the path changes nothing else, if what it
adds to the count of the region is what is listed. -/
theorem Touches.changesBelow (h : timer.Touches later target f) {amount : Nat}
    (hf : ∀ totals, Field.entries.of (f totals) =
      min (Field.entries.of totals + amount) Field.entries.limit)
    (hbelow : target = 0 ∨ Below path (later.path target))
    (hgains : ∀ other, timer.counted gains other = if later.path target = other then amount else 0)
    (hlisted : ∀ gain ∈ gains, gain.1 = later.path target) :
    timer.ChangesBelow later path gains where
  wellFormed := h.wellFormed
  toExtends := h.toExtends
  region_eq id hid hzero hnot := by
    refine h.region_eq ?_
    rintro rfl
    refine hnot ?_
    rw [← h.toExtends.path_eq wf h.wellFormed hid]
    exact hbelow.resolve_left hzero
  below_of_new id hid hle := by
    have heq := (h.lt_or_eq id hid).resolve_left (not_lt.mpr hle)
    rw [heq] at hle ⊢
    exact hbelow.resolve_left fun hzero =>
      absurd wf.size_pos (not_lt.mpr (hle.trans (Nat.le_of_eq hzero)))
  hasPath _ gain hgain := ⟨target, h.target_lt, (hlisted gain hgain).symm⟩
  count_eq id hid := by
    have hiff : later.path target = later.path id ↔ id = target :=
      ⟨fun heq => (path_injective h.wellFormed h.target_lt hid heq).symm, fun heq => by rw [heq]⟩
    rw [h.count_eq hf id, hgains]
    simp only [hiff]

/-- A move that does not concern the count. -/
theorem Touches.changesBelow_nil (h : timer.Touches later target f)
    (hf : ∀ totals, Field.entries.of (f totals) =
      min (Field.entries.of totals + 0) Field.entries.limit)
    (hbelow : target = 0 ∨ Below path (later.path target)) : timer.ChangesBelow later path [] :=
  h.changesBelow wf hf hbelow (fun other => by rw [counted_nil, ite_self]) nofun

namespace ChangesBelow

/-- Nothing has changed. -/
theorem refl (hgains : ∀ other, timer.counted gains other = 0)
    (hlisted : timer.metrics.count = true → gains = []) : timer.ChangesBelow timer path gains where
  wellFormed := wf
  toExtends := Extends.refl timer
  region_eq _ _ _ _ := rfl
  below_of_new _ hid hle := absurd hid (not_lt.mpr hle)
  hasPath hcount gain hgain := by
    rw [hlisted hcount] at hgain
    cases hgain
  count_eq id _ := by
    have hle := (timer.node id).region.count.val_le
    rw [hgains, Nat.add_zero, Nat.min_eq_left hle]

omit wf in
/-- What is below a longer path is below the shorter one. -/
theorem mono {name : String} (h : timer.ChangesBelow later (path ++ [name]) gains) :
    timer.ChangesBelow later path gains := by
  have hbelow : ∀ other, Below (path ++ [name]) other → Below path other := by
    rintro _ ⟨inner, names, rfl⟩
    exact ⟨name, inner :: names, by rw [List.append_assoc]; rfl⟩
  exact ⟨h.wellFormed, h.toExtends,
    fun id hid hzero hnot => h.region_eq id hid hzero fun hlonger => hnot (hbelow _ hlonger),
    fun id hid hle => hbelow _ (h.below_of_new id hid hle), h.hasPath, h.count_eq⟩

/-- **Changes below a path add up.** -/
theorem trans (h : timer.ChangesBelow later path gains) (h' : later.ChangesBelow last path rest) :
    timer.ChangesBelow last path (gains ++ rest) := by
  have hpath := fun id (hid : id < later.nodes.size) =>
    h'.toExtends.path_eq h.wellFormed h'.wellFormed hid
  have hsize := h.toExtends.size_le
  refine ⟨h'.wellFormed, h.toExtends.trans h'.toExtends, ?_, ?_, ?_, ?_⟩
  · intro id hid hzero hnot
    have hnot' : ¬Below path (later.path id) := by
      rwa [h.toExtends.path_eq wf h.wellFormed hid]
    rw [h'.region_eq id (lt_of_lt_of_le hid hsize) hzero hnot', h.region_eq id hid hzero hnot]
  · intro id hid hle
    by_cases hlater : id < later.nodes.size
    · rw [hpath id hlater]
      exact h.below_of_new id hlater hle
    · exact h'.below_of_new id hid (not_lt.mp hlater)
  · intro hcount gain hgain
    rcases List.mem_append.mp hgain with hgain | hgain
    · obtain ⟨id, hid, hgained⟩ := h.hasPath hcount gain hgain
      exact ⟨id, lt_of_lt_of_le hid h'.toExtends.size_le, (hpath id hid).trans hgained⟩
    · exact h'.hasPath (h.toExtends.metrics_eq ▸ hcount) gain hgain
  · intro id hid
    have hcount := h'.count_eq id hid
    rw [h.toExtends.counted_eq] at hcount
    rw [counted_append]
    by_cases hlater : id < later.nodes.size
    · have hfirst := h.count_eq id hlater
      rw [← hpath id hlater] at hfirst
      omega
    · -- What came later than the first gains is not among them.
      have hnone : timer.counted gains (last.path id) = 0 := by
        unfold counted
        split_ifs with htracked
        · refine Gains.total_eq_zero _ fun gain hgain heq => ?_
          obtain ⟨other, hother, hgained⟩ := h.hasPath htracked gain hgain
          rw [← hpath other hother, heq] at hgained
          have hsame := path_injective h'.wellFormed
            (lt_of_lt_of_le hother h'.toExtends.size_le) hid hgained
          exact hlater (hsame ▸ hother)
        · rfl
      have hzero := count_node_of_size_le (not_lt.mp hlater)
      have hzero' := count_node_of_size_le (hsize.trans (not_lt.mp hlater))
      omega

end ChangesBelow

theorem changesBelow_enter (name : String) (clock : Clock) :
    timer.ChangesBelow (timer.enter name clock) (timer.path timer.current)
      [(timer.path timer.current ++ [name], 1)] := by
  have entered := entered_enter wf name clock
  refine entered.touches.changesBelow wf
    (fun totals => Field.entries.of_countEntry totals timer.metrics) (.inr ⟨name, [], ?_⟩)
    (fun other => ?_) ?_
  · exact entered.path_eq
  · rw [entered.path_eq, counted, Gains.total_singleton]
    unfold Field.perEntry
    simp only [true_and]
    split_ifs <;> rfl
  · intro gain hgain
    rw [List.mem_singleton.mp hgain, entered.path_eq]

theorem path_current_enter (name : String) (clock : Clock) :
    (timer.enter name clock).path (timer.enter name clock).current =
      timer.path timer.current ++ [name] := by
  have entered := entered_enter wf name clock
  rw [current_eq_of_cons entered.touches.wellFormed entered.openPath_eq, entered.path_eq]

/-! ### Being back where one was -/

/-- The timer is in the same region, and nothing has changed but below it. -/
structure Balances (timer later : Timer) (gains : Gains) : Prop where
  current_eq : later.current = timer.current
  changes : timer.ChangesBelow later (timer.path timer.current) gains

namespace Balances

theorem refl : timer.Balances timer [] :=
  ⟨rfl, .refl wf counted_nil fun _ => rfl⟩

theorem path_eq (h : timer.Balances later gains) :
    later.path later.current = timer.path timer.current := by
  rw [h.current_eq, h.changes.toExtends.path_eq wf h.changes.wellFormed wf.current_lt]

theorem openPath_eq (h : timer.Balances later gains) : later.openPath = timer.openPath :=
  h.changes.toExtends.openPath_eq wf h.changes.wellFormed h.current_eq

theorem trans (h : timer.Balances later gains) (h' : later.Balances last rest) :
    timer.Balances last (gains ++ rest) where
  current_eq := h'.current_eq.trans h.current_eq
  changes := h.changes.trans wf (h.path_eq wf ▸ h'.changes)

end Balances

/-! ### Additions and reports -/

theorem balances_add (name : String) (addition : Addition) :
    timer.Balances (timer.add name addition)
      ((Order.add name addition).gains (timer.path timer.current)) := by
  by_cases haccepts : timer.metrics.accepts addition = true
  · have hadded := added_add wf name haccepts
    refine ⟨?_, hadded.touches.changesBelow wf
      (fun totals => Field.entries.of_add totals addition) (.inr ⟨name, [], hadded.path_eq⟩) ?_ ?_⟩
    · obtain ⟨outer, houter⟩ := openPath_eq_cons wf
      exact current_eq_of_cons hadded.touches.wellFormed (hadded.openPath_eq.trans houter)
    · intro other
      rw [hadded.path_eq]
      cases addition with
      | count entries =>
        have hcount : timer.metrics.count = true := haccepts
        rw [counted, if_pos hcount, Order.gains, Gains.total_singleton]
        rfl
      | _ => exact (counted_nil other).trans (ite_self 0).symm
    · intro gain hgain
      rw [hadded.path_eq]
      cases addition with
      | count entries => rw [List.mem_singleton.mp hgain]
      | _ => cases hgain
  · -- An addition that is ignored does nothing, and would not count.
    rw [add_of_not_accepts timer name haccepts]
    refine ⟨rfl, .refl wf (fun other => ?_) fun hcount => ?_⟩
    · cases addition with
      | count entries => exact if_neg haccepts
      | _ => exact counted_nil other
    · cases addition with
      | count entries => exact absurd hcount haccepts
      | _ => rfl

theorem balances_closeOut (clock : Clock) : timer.Balances (timer.closeOut clock) [] :=
  ⟨rfl, (touches_closeOut wf clock).changesBelow_nil wf
    (fun totals => Field.entries.of_elapse totals _ _) (.inl rfl)⟩

/-! ### Entries with their exits -/

/-- **What is done inside a region is closed off by its exit**, which is silent. -/
theorem Balances.span {name : String} {entry : Clock}
    (h : (timer.enter name entry).Balances later gains) (leave : Clock) :
    (later.exit name leave).1 = [] ∧ timer.Balances (later.exit name leave).2
      ((timer.path timer.current ++ [name], 1) :: gains) := by
  obtain ⟨hne, hname⟩ := currentName_enter wf name entry
  have entered := entered_enter wf name entry
  have henter := changesBelow_enter wf name entry
  generalize (timer.locateChild timer.current name).1 = child at entered
  have wf' := entered.touches.wellFormed
  have wf'' := h.changes.wellFormed
  -- The region that was entered is the innermost open one again, and has its name.
  have hcurrent := current_eq_of_cons wf' entered.openPath_eq
  have hopen : later.openPath = child :: timer.openPath :=
    (h.openPath_eq wf').trans entered.openPath_eq
  rw [← h.current_eq] at hne
  have hexit := exit_currentName wf'' leave hne
  rw [currentName, h.current_eq, h.changes.toExtends.nameOf_eq _ wf'.current_lt, ← currentName,
    hname] at hexit
  rw [hexit]
  refine ⟨rfl, ?_, ?_⟩
  · obtain ⟨outer, houter⟩ := openPath_eq_cons wf
    have hleft := openPath_leave wf'' leave (openPath_ne_nil wf) hopen
    exact current_eq_of_cons (wf''.leave leave) (hleft.trans houter)
  · have hinside := h.changes
    rw [hcurrent, entered.path_eq] at hinside
    have hleave := touches_leave wf'' leave hne
    have hpath : (later.leave leave).path later.current = timer.path timer.current ++ [name] := by
      rw [hleave.toExtends.path_eq wf'' hleave.wellFormed wf''.current_lt, h.path_eq wf', hcurrent,
        entered.path_eq]
    have hleft : later.ChangesBelow (later.leave leave) (timer.path timer.current) [] :=
      hleave.changesBelow_nil wf'' (fun totals => Field.entries.of_elapse totals _ _)
        (.inr ⟨name, [], hpath⟩)
    have hall := henter.trans wf (hinside.mono.trans wf' hleft)
    rwa [List.append_nil] at hall

end

/-! ### Orders that open nothing for long -/

/-- Orders that add and report, and enter only what they exit at once. -/
inductive Calm : List (Clock × Order) → Prop
  | nil : Calm []
  | add (clock : Clock) (name : String) (addition : Addition) {orders : List (Clock × Order)}
      (h : Calm orders) : Calm ((clock, .add name addition) :: orders)
  | report (clock : Clock) {orders : List (Clock × Order)} (h : Calm orders) :
      Calm ((clock, .report) :: orders)
  | visit (entry leave : Clock) (name : String) {orders : List (Clock × Order)} (h : Calm orders) :
      Calm ((entry, .enter name) :: (leave, .exit name) :: orders)

theorem Calm.append {orders rest : List (Clock × Order)} (h : Calm orders) (h' : Calm rest) :
    Calm (orders ++ rest) := by
  induction h with
  | nil => exact h'
  | add clock name addition _ ih => exact .add clock name addition ih
  | report clock _ ih => exact .report clock ih
  | visit entry leave name _ ih => exact .visit entry leave name ih

/-- **Such orders balance**, and add what each of them adds. -/
theorem Calm.balances {orders : List (Clock × Order)} (h : Calm orders) {timer : Timer}
    (wf : timer.WellFormed) : timer.Balances (timer.after orders)
      (orders.flatMap fun order => order.2.gains (timer.path timer.current)) := by
  induction h generalizing timer with
  | nil => exact .refl wf
  | add clock name addition _ ih =>
    have hadd := balances_add wf name addition
    -- The timer is where it was, so the paths are the same for what comes next.
    have hrest := ih hadd.changes.wellFormed
    rw [hadd.path_eq wf] at hrest
    rw [List.flatMap_cons]
    exact hadd.trans wf hrest
  | report clock _ ih =>
    have hreport := balances_closeOut wf clock
    have hrest := ih hreport.changes.wellFormed
    rw [hreport.path_eq wf] at hrest
    rw [List.flatMap_cons]
    exact hreport.trans wf hrest
  | @visit entry leave name orders _ ih =>
    have hafter : timer.after ((entry, .enter name) :: (leave, .exit name) :: orders) =
        ((timer.enter name entry).exit name leave).2.after orders := by
      simp only [after, follow]
    have hinside : (timer.enter name entry).Balances (timer.enter name entry) [] :=
      .refl (entered_enter wf name entry).touches.wellFormed
    have hvisit := (hinside.span wf leave).2
    have hrest := ih hvisit.changes.wellFormed
    rw [hvisit.path_eq wf] at hrest
    rw [hafter]
    exact hvisit.trans wf hrest

end Timer

end Profiler
