import Mathlib.Algebra.BigOperators.Group.List.Basic
import Mathlib.Algebra.GroupWithZero.Nat
import Profiler.Proofs.Timer.Reached
import Profiler.Proofs.Timer.Visits

/-!
# Chains of changes

A change closes the current region and opens a sibling of it with one reading, which leaves just what
an exit and an entry at that reading leave (`Timer.change_eq_exit_enter`). A chain enters a region,
changes from sibling to sibling, and exits the last of them. So it comes to the same as visits, one
after the other, each of which begins when the one before ends (`Timer.after_chain`).

What any number of visits leave behind is told by `Timer.Toured`: each child has what its own visits
add up to, and nothing else is different. The visits of a chain leave no gaps between them, so that
what the siblings have collected in all is what was read from the entry to the exit
(`Timer.chain_gapless`).
-/

namespace Profiler

/-- A region that is entered and exited again. -/
structure Visit where
  name : String
  entry : Clock
  leave : Clock

def Visit.orders (visit : Visit) : List (Clock × Order) :=
  [(visit.entry, .enter visit.name), (visit.leave, .exit visit.name)]

/-! ### What visits add -/

/-- What was read of a gauge during the visits of `name`. -/
def Gauge.during (gauge : Gauge) (scope : Scope) (visits : List Visit) (name : String) : Nat :=
  (visits.map fun visit =>
    if visit.name = name then gauge.read scope visit.leave - gauge.read scope visit.entry
    else 0).sum

namespace Field

/-- What a visit adds to a field of the region that is visited. -/
def ofVisit (field : Field) (metrics : Metrics) (scope : Scope) (visit : Visit) : Nat :=
  field.perEntry metrics +
    field.elapsed (visit.entry.reading metrics scope) (visit.leave.reading metrics scope)

/-- What visits add to a field of the region `name`. -/
def visited (field : Field) (metrics : Metrics) (scope : Scope) (visits : List Visit)
    (name : String) : Nat :=
  (visits.map fun visit => if visit.name = name then field.ofVisit metrics scope visit else 0).sum

variable (metrics : Metrics) (scope : Scope)

theorem visited_cons (field : Field) (visit : Visit) (rest : List Visit) (name : String) :
    field.visited metrics scope (visit :: rest) name =
      (if visit.name = name then field.ofVisit metrics scope visit else 0) +
        field.visited metrics scope rest name :=
  List.sum_cons

/-- An entry and what has gone by since make one amount. -/
theorem of_countEntry_elapse (field : Field) (visit : Visit) (totals : Totals) :
    field.of ((totals.countEntry metrics).elapse (visit.entry.reading metrics scope)
        (visit.leave.reading metrics scope)) =
      min (field.of totals + field.ofVisit metrics scope visit) field.limit := by
  rw [field.of_elapse, field.of_countEntry, ofVisit]
  omega

/-- A gauge that is tracked gets what was read. -/
theorem visited_collected {gauge : Gauge} (htracked : gauge.tracked metrics = true)
    (visits : List Visit) (name : String) :
    (collected gauge).visited metrics scope visits name = gauge.during scope visits name := by
  have hvisit : ∀ visit, (collected gauge).ofVisit metrics scope visit =
      gauge.read scope visit.leave - gauge.read scope visit.entry := by
    intro visit
    have hentry : (collected gauge).perEntry metrics = 0 := if_neg fun h => nomatch h.1
    rw [ofVisit, hentry, Nat.zero_add, elapsed, seen?, seen?, gauge.value?_reading,
      gauge.value?_reading, if_pos htracked, if_pos htracked]
  simp only [visited, hvisit, Gauge.during]

/-- The number of entries gets the number of visits, if entries are counted. -/
theorem visited_entries (visits : List Visit) (name : String) :
    entries.visited metrics scope visits name =
      if metrics.count then (visits.map Visit.name).count name else 0 := by
  have hvisit : ∀ visit, entries.ofVisit metrics scope visit =
      if metrics.count then 1 else 0 := by
    intro visit
    simp only [ofVisit, perEntry, elapsed, seen?, true_and, Nat.add_zero]
  induction visits with
  | nil => exact (ite_self 0).symm
  | cons visit rest ih =>
    rw [visited_cons, ih, hvisit, List.map_cons, List.count_cons]
    by_cases hname : visit.name = name <;> cases metrics.count <;> simp [hname, Nat.add_comm]

end Field

/-! ### Chains -/

/-- Changes from the region `name`, and the exit of the last region. -/
def changing (leave : Clock) : String → List (Clock × String) → List (Clock × Order)
  | name, [] => [(leave, .exit name)]
  | _, (clock, next) :: rest => (clock, .change next) :: changing leave next rest

/-- The region `name` is entered, each of the others is changed to, and the last one is exited. -/
def chain (entry : Clock) (name : String) (changes : List (Clock × String)) (leave : Clock) :
    List (Clock × Order) :=
  (entry, .enter name) :: changing leave name changes

/-- The visits of which a chain consists. Each begins when the one before ends. -/
def chainVisits (leave : Clock) : Clock → String → List (Clock × String) → List Visit
  | entry, name, [] => [⟨name, entry, leave⟩]
  | entry, name, (clock, next) :: rest => ⟨name, entry, clock⟩ :: chainVisits leave clock next rest

section

variable (entry : Clock) (name : String) (changes : List (Clock × String)) (leave : Clock)

theorem map_name_chainVisits : (chainVisits leave entry name changes).map Visit.name =
    name :: changes.map Prod.snd := by
  induction changes generalizing entry name with
  | nil => rfl
  | cons change rest ih =>
    rw [chainVisits, List.map_cons, ih, List.map_cons]

/-- **Visits without gaps add up** to what was read from the first entry to the exit. -/
theorem sum_chainVisits {gauge : Gauge} {scope : Scope}
    (hle : (entry :: changes.map Prod.fst ++ [leave]).Pairwise fun earlier later =>
      gauge.read scope earlier ≤ gauge.read scope later) :
    ((chainVisits leave entry name changes).map fun visit =>
      gauge.read scope visit.leave - gauge.read scope visit.entry).sum =
        gauge.read scope leave - gauge.read scope entry := by
  induction changes generalizing entry name with
  | nil => exact Nat.add_zero _
  | cons change rest ih =>
    obtain ⟨clock, next⟩ := change
    rw [List.map_cons, List.cons_append, List.pairwise_cons] at hle
    have hentry : gauge.read scope entry ≤ gauge.read scope clock := hle.1 clock (by simp)
    have hclock : gauge.read scope clock ≤ gauge.read scope leave :=
      (List.pairwise_cons.mp hle.2).1 leave (by simp)
    rw [chainVisits, List.map_cons, List.sum_cons, ih clock next hle.2]
    -- The first visit ends where the rest of the chain begins, so its clock cancels out.
    dsimp only
    omega

end

/-- **What is read during visits goes to their names**, each time to one of them. -/
theorem Gauge.sum_during (gauge : Gauge) (scope : Scope) {visits : List Visit} {names : List String}
    (hnodup : names.Nodup) (hnames : ∀ visit ∈ visits, visit.name ∈ names) :
    (names.map (gauge.during scope visits)).sum = (visits.map fun visit =>
      gauge.read scope visit.leave - gauge.read scope visit.entry).sum := by
  induction visits with
  | nil =>
    refine List.sum_eq_zero fun amount hamount => ?_
    obtain ⟨name, -, rfl⟩ := List.mem_map.mp hamount
    rfl
  | cons visit rest ih =>
    -- The name of the first visit is listed once, so it gets the amount once.
    have hfirst : (names.map fun name => if visit.name = name then
        gauge.read scope visit.leave - gauge.read scope visit.entry else 0).sum =
          gauge.read scope visit.leave - gauge.read scope visit.entry := by
      rw [List.sum_map_eq_nsmul_single visit.name _ fun name hne _ => if_neg hne.symm, if_pos rfl,
        List.count_eq_one_of_mem hnodup (hnames visit (List.mem_cons_self ..)), one_nsmul]
    have hrest := ih fun other hother => hnames other (List.mem_cons_of_mem _ hother)
    rw [List.map_cons, List.sum_cons, ← hrest, ← hfirst, ← List.sum_map_add]
    rfl

namespace Timer

section

variable {timer : Timer} (wf : timer.WellFormed)
include wf

/-! ### A change is an exit and an entry -/

/-- **A change is an exit of the current region and an entry**, at one reading. It is silent. -/
theorem change_eq_exit_enter (h : timer.current ≠ 0) (name : String) (clock : Clock) :
    timer.tryChange name clock =
        ⟨.ok (), [], (timer.exit timer.currentName clock).2.enter name clock⟩ ∧
      timer.change name clock =
        ([], (timer.exit timer.currentName clock).2.enter name clock) := by
  obtain ⟨parent, -, hparent⟩ := wf.exists_parent _ wf.current_lt h
  have htry := tryChange_of_parent timer name clock hparent
  rw [exit_currentName wf clock h, change, htry]
  exact ⟨rfl, rfl⟩

/-- Each change closes a visit and begins a chain that is shorter by one region. -/
theorem after_changing (entry : Clock) (name : String) (changes : List (Clock × String))
    (leave : Clock) :
    (timer.enter name entry).after (changing leave name changes) =
        timer.after ((chainVisits leave entry name changes).flatMap Visit.orders) ∧
      ∀ reply ∈ (timer.enter name entry).replies (changing leave name changes), reply.1 = {} := by
  induction changes generalizing timer entry name with
  | nil =>
    obtain ⟨hsilent, hvisited⟩ := visited_exit wf name entry leave
    have hfollow := follow_exit (timer.enter name entry) name leave
    rw [hsilent] at hfollow
    refine ⟨?_, ?_⟩
    · rw [changing, after, hfollow, after, chainVisits, List.flatMap_singleton, Visit.orders,
        ← hvisited.eq_after]
    · rw [changing, replies, hfollow]
      exact List.forall_mem_cons.mpr ⟨rfl, List.forall_mem_nil _⟩
  | cons change rest ih =>
    obtain ⟨clock, next⟩ := change
    obtain ⟨hne, hname⟩ := currentName_enter wf name entry
    have hentered := (entered_enter wf name entry).touches.wellFormed
    -- The change is the exit of this visit and the entry of a chain that begins where it ends.
    have hfollow := follow_change (timer.enter name entry) next clock
    rw [(change_eq_exit_enter hentered hne next clock).2, hname] at hfollow
    have hvisited := (visited_exit wf name entry clock).2
    obtain ⟨hafter, hreplies⟩ := ih hvisited.wellFormed clock next
    refine ⟨?_, ?_⟩
    · rw [changing, after, hfollow, hafter, chainVisits, List.flatMap_cons, after_append,
        Visit.orders, ← hvisited.eq_after]
    · rw [changing, replies, hfollow]
      exact List.forall_mem_cons.mpr ⟨rfl, hreplies⟩

/-- **A chain comes to the same as its visits**, and nothing is said of it. -/
theorem after_chain (entry : Clock) (name : String) (changes : List (Clock × String))
    (leave : Clock) :
    timer.after (chain entry name changes leave) =
        timer.after ((chainVisits leave entry name changes).flatMap Visit.orders) ∧
      ∀ reply ∈ timer.replies (chain entry name changes leave), reply.1 = {} := by
  obtain ⟨hafter, hreplies⟩ := after_changing wf entry name changes leave
  refine ⟨hafter, ?_⟩
  rw [chain, replies]
  exact List.forall_mem_cons.mpr ⟨rfl, hreplies⟩

end

/-! ### What visits leave behind -/

/-- The later timer is the other one after visits of children of its current region. It is where it
was. The children that were visited are there, each field of them has what it had, which is nothing
in a new child, and what the visits of that name add to it, up to the limit, and nothing else was
collected, marked or created. -/
structure Toured (timer later : Timer) (visits : List Visit) : Prop where
  wellFormed : later.WellFormed
  toExtends : timer.Extends later
  current_eq : later.current = timer.current
  hasPath_iff : ∀ path, later.HasPath path ↔ timer.HasPath path ∨
    ∃ visit ∈ visits, timer.path timer.current ++ [visit.name] = path
  node_eq : ∀ id < later.nodes.size,
    (∀ visit ∈ visits, timer.path timer.current ++ [visit.name] ≠ later.path id) →
    (later.node id).region = (timer.node id).region ∧
      (later.node id).marks = (timer.node id).marks
  of_eq : ∀ id < later.nodes.size, ∀ name, later.path id = timer.path timer.current ++ [name] →
    ∀ field : Field, field.of (later.node id).region.totals =
      min (field.of (timer.node id).region.totals +
        field.visited timer.metrics timer.scope visits name) field.limit

section

variable {timer mid later : Timer} (wf : timer.WellFormed)
include wf

theorem Toured.refl : timer.Toured timer [] where
  wellFormed := wf
  toExtends := .refl timer
  current_eq := rfl
  hasPath_iff path := by simp
  node_eq _ _ _ := ⟨rfl, rfl⟩
  of_eq id _ name _ field := (Nat.min_eq_left (field.of_le_limit _)).symm

/-- **A visit and others after it.** The first one has added to one child only, which is known from
its path. -/
theorem Visited.toured {visit : Visit} {rest : List Visit}
    (h : timer.Visited mid visit.name visit.entry visit.leave) (h' : mid.Toured later rest) :
    timer.Toured later (visit :: rest) := by
  obtain ⟨child, hchild, -, htouches⟩ := h.exists_child
  have hpath : mid.path mid.current = timer.path timer.current := by
    rw [h.current_eq, htouches.toExtends.path_eq wf htouches.wellFormed wf.current_lt]
  have hchild' : later.path child = timer.path timer.current ++ [visit.name] := by
    rw [h'.toExtends.path_eq htouches.wellFormed h'.wellFormed htouches.target_lt, hchild]
  have hlt : child < later.nodes.size := lt_of_lt_of_le htouches.target_lt h'.toExtends.size_le
  refine ⟨h'.wellFormed, htouches.toExtends.trans h'.toExtends, h'.current_eq.trans h.current_eq,
    fun path => ?_, fun id hid hnot => ?_, fun id hid name hname field => ?_⟩
  · rw [h'.hasPath_iff, htouches.hasPath_iff wf, hchild, hpath, or_assoc, List.exists_mem_cons_iff]
  · rw [List.forall_mem_cons] at hnot
    have hne : id ≠ child := by
      rintro rfl
      exact hnot.1 hchild'.symm
    obtain ⟨hregion, hmarks⟩ := h'.node_eq id hid (by rw [hpath]; exact hnot.2)
    exact ⟨hregion.trans (htouches.region_eq hne), hmarks.trans (htouches.collected_eq hne).2⟩
  · have hfirst := htouches.of_totals
      (fun totals => field.of_countEntry_elapse timer.metrics timer.scope visit totals) id
    have hrest := h'.of_eq id hid name (by rw [hname, hpath]) field
    -- Only the child has the path of the visit.
    have hiff : id = child ↔ visit.name = name := by
      constructor
      · rintro rfl
        exact List.singleton_inj.mp (List.append_cancel_left (hchild'.symm.trans hname))
      · rintro rfl
        exact path_injective h'.wellFormed hid hlt (hname.trans hchild'.symm)
    rw [hfirst, htouches.toExtends.metrics_eq, htouches.toExtends.scope_eq,
      if_congr hiff rfl rfl] at hrest
    rw [hrest, field.visited_cons]
    -- What the limit cut off before does not matter any more.
    omega

/-- **Any number of visits** leave what each of them adds. -/
theorem toured_after (visits : List Visit) :
    timer.Toured (timer.after (visits.flatMap Visit.orders)) visits := by
  induction visits generalizing timer with
  | nil => exact .refl wf
  | cons visit rest ih =>
    have hvisited := (visited_exit wf visit.name visit.entry visit.leave).2
    rw [List.flatMap_cons, after_append, Visit.orders, ← hvisited.eq_after]
    exact hvisited.toured wf (ih hvisited.wellFormed)

/-! ### Siblings that were visited -/

section

variable {visits : List Visit} (h : timer.Toured later visits)
include h

theorem Toured.path_current_eq : later.path timer.current = timer.path timer.current :=
  h.toExtends.path_eq wf h.wellFormed wf.current_lt

/-- Each field of a child is known from the name of the child. -/
theorem Toured.of_sibling {sibling : Nat} (hsibling : sibling ∈ (later.node timer.current).children)
    (field : Field) : field.of (later.node sibling).region.totals =
      min (field.of (timer.node sibling).region.totals +
        field.visited timer.metrics timer.scope visits (later.nameOf sibling)) field.limit := by
  have hpath := path_of_mem_children h.wellFormed hsibling
  rw [h.path_current_eq wf] at hpath
  exact h.of_eq sibling (h.wellFormed.lt_of_mem_children hsibling).2 _ hpath field

/-- **What is read during the visits goes to the siblings**, and all of it. Their names are distinct,
and those of the visits are among them. -/
theorem Toured.sum_siblings (gauge : Gauge) (scope : Scope) :
    ((later.node timer.current).children.map fun sibling =>
      gauge.during scope visits (later.nameOf sibling)).sum =
        (visits.map fun visit =>
          gauge.read scope visit.leave - gauge.read scope visit.entry).sum := by
  have hnodup : (later.childNames timer.current).Nodup :=
    (h.wellFormed.sorted timer.current).imp fun hlt => ne_of_lt hlt
  have hlt := lt_of_lt_of_le wf.current_lt h.toExtends.size_le
  have hnames : ∀ visit ∈ visits, visit.name ∈ later.childNames timer.current := by
    intro visit hvisit
    obtain ⟨id, hid, hpath⟩ := (h.hasPath_iff _).mpr (.inr ⟨visit, hvisit, rfl⟩)
    rw [← h.path_current_eq wf] at hpath
    obtain ⟨hchild, hname⟩ := mem_children_of_path h.wellFormed hlt hid hpath
    exact List.mem_map.mpr ⟨id, hchild, hname⟩
  rw [← gauge.sum_during scope hnodup hnames, childNames, List.map_map]
  rfl

end

end

/-! ### What a chain leaves behind -/

/-- **Chains of changes leave no gaps.** If the current region is not the top-level one, a change
leaves just the timer that an exit of the current region and an entry leave at the same reading, and
is as silent; at the top it is refused and leaves the timer as it is.

So take a chain that enters a child of the current region, changes from one sibling to the next, be
it new, visited before or the same again, and exits the last one. It is silent, and the timer is
where it was. The siblings are there, each was entered as often as it is named, up to the limit, and
has collected of each gauge what was read during its visits; nothing else was collected, marked or
created. If the gauge never falls and no sibling hits the limit, the siblings together have just
collected what was read from the entry to the exit. -/
theorem chain_gapless (config : Config) (start : Clock) (orders : List (Clock × Order)) :
    let timer := (ofConfig config start).after orders
    let path := timer.path timer.current
    (timer.current ≠ 0 → ∀ name clock,
      let left := (timer.exit timer.currentName clock).2
      timer.exit timer.currentName clock = ([], left) ∧
        timer.change name clock = ([], left.enter name clock) ∧
        timer.tryChange name clock = ⟨.ok (), [], left.enter name clock⟩) ∧
    (timer.current = 0 → ∀ name clock,
      timer.tryChange name clock = ⟨.error (.atTopLevel timer.currentName), [], timer⟩) ∧
    ∀ entry name changes leave,
      let names := name :: changes.map Prod.snd
      let visits := chainVisits leave entry name changes
      let later := timer.after (chain entry name changes leave)
      let siblings := (later.node timer.current).children
      later.current = timer.current ∧ later.openPath = timer.openPath ∧
      (∀ reply ∈ timer.replies (chain entry name changes leave), reply.1 = {}) ∧
      (∀ other, later.HasPath other ↔
        timer.HasPath other ∨ ∃ called ∈ names, path ++ [called] = other) ∧
      (∀ id < later.nodes.size, (∀ called ∈ names, path ++ [called] ≠ later.path id) →
        (later.node id).region = (timer.node id).region ∧
          (later.node id).marks = (timer.node id).marks) ∧
      (∀ sibling ∈ siblings, (later.node sibling).region.count.val =
        min ((timer.node sibling).region.count.val +
          if config.metrics.count then names.count (later.nameOf sibling) else 0)
          (UInt64.size - 1)) ∧
      ∀ gauge : Gauge, gauge.tracked config.metrics = true →
        (∀ sibling ∈ siblings, gauge.total (later.node sibling).region.totals =
          min (gauge.total (timer.node sibling).region.totals +
            gauge.during config.scope visits (later.nameOf sibling)) gauge.limit) ∧
        ((entry :: changes.map Prod.fst ++ [leave]).Pairwise (fun earlier later =>
            gauge.read config.scope earlier ≤ gauge.read config.scope later) →
          (∀ sibling ∈ siblings, gauge.total (timer.node sibling).region.totals +
            gauge.during config.scope visits (later.nameOf sibling) ≤ gauge.limit) →
          (siblings.map fun sibling => gauge.total (later.node sibling).region.totals).sum =
            (siblings.map fun sibling => gauge.total (timer.node sibling).region.totals).sum +
              (gauge.read config.scope leave - gauge.read config.scope entry)) := by
  intro timer path
  have wf : timer.WellFormed := wellFormed_after config start orders
  have hextends := (after_keeps (wellFormed_ofConfig config start) orders).2
  have hmetrics : timer.metrics = config.metrics := hextends.metrics_eq
  have hscope : timer.scope = config.scope := hextends.scope_eq
  clear_value timer
  refine ⟨fun hne name clock => ?_, fun hzero name clock => tryChange_of_top wf name clock hzero,
    fun entry name changes leave => ?_⟩
  · obtain ⟨htry, hchange⟩ := change_eq_exit_enter wf hne name clock
    refine ⟨?_, hchange, htry⟩
    rw [exit_currentName wf clock hne]
  · intro names visits later siblings
    obtain ⟨hafter, hreplies⟩ := after_chain wf entry name changes leave
    have htoured : timer.Toured later visits := by
      show timer.Toured (timer.after (chain entry name changes leave)) visits
      rw [hafter]
      exact toured_after wf visits
    have hnames : visits.map Visit.name = names := map_name_chainVisits entry name changes leave
    have hopen := htoured.toExtends.openPath_eq wf htoured.wellFormed htoured.current_eq
    refine ⟨htoured.current_eq, hopen, hreplies, fun other => ?_, fun id hid hnot => ?_,
      fun sibling hsibling => ?_, fun gauge htracked => ?_⟩
    · rw [htoured.hasPath_iff, ← hnames]
      simp only [List.mem_map, exists_exists_and_eq_and, path]
    · rw [← hnames, List.forall_mem_map] at hnot
      exact htoured.node_eq id hid hnot
    · have hcount := htoured.of_sibling wf hsibling .entries
      rw [Field.visited_entries, hmetrics, hnames] at hcount
      exact hcount
    · have hgauge : ∀ sibling ∈ siblings, gauge.total (later.node sibling).region.totals =
          min (gauge.total (timer.node sibling).region.totals +
            gauge.during config.scope visits (later.nameOf sibling)) gauge.limit := by
        intro sibling hsibling
        have htotal := htoured.of_sibling wf hsibling (.collected gauge)
        rwa [hmetrics, hscope, Field.visited_collected _ _ htracked] at htotal
      refine ⟨hgauge, fun hrises hlimit => ?_⟩
      -- Where nothing is cut off, the sum of what the siblings have is the sum of both parts.
      rw [← sum_chainVisits entry name changes leave hrises, ← htoured.sum_siblings wf,
        ← List.sum_map_add]
      congr 1
      refine List.map_congr_left fun sibling hsibling => ?_
      rw [hgauge sibling hsibling, Nat.min_eq_left (hlimit sibling hsibling)]

/-- A file is read, what was read is decoded, and it is read on: six in two visits and two in one. -/
theorem chain_gapless_readOn :
    let clock (wall : Nat) : Clock := { wall := .ofNat wall }
    let readOn := chain (clock 1) "read" [(clock 4, "decode"), (clock 6, "read")] (clock 9)
    let later := (ofConfig {} {}).after readOn
    later.current = 0 ∧ later.childNames 0 = ["decode", "read"] ∧
      ((later.node 0).children.map fun sibling =>
        (later.node sibling).region.count.val) = [1, 2] ∧
      ((later.node 0).children.map fun sibling =>
        Gauge.wall.total (later.node sibling).region.totals).sum = 9 - 1 := by
  intro clock readOn later
  obtain ⟨-, -, hchain⟩ := chain_gapless {} {} []
  have hreadOn := hchain (clock 1) "read" [(clock 4, "decode"), (clock 6, "read")] (clock 9)
  have hsum := (hreadOn.2.2.2.2.2.2 .wall rfl).2 (by decide +kernel) (by decide +kernel)
  refine ⟨hreadOn.1, by decide +kernel, by decide +kernel, hsum.trans ?_⟩
  decide +kernel

end Timer

end Profiler
