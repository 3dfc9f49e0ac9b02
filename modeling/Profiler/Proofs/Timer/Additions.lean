import Profiler.Proofs.Ledger.Additions
import Profiler.Proofs.Ledger.Runs
import Profiler.Proofs.Timer.Reached

/-!
# Additions commute

Additions in another order create the children under other numbers and leave the cursors elsewhere,
but both timers mean ledgers that differ in the order of entries only. So they mean the same ledger
(`Timer.Represents.of_sameEntries`), and timers that do cannot be told apart by anything that is
done with them later (`Timer.Represents.indistinguishable`).
-/

namespace Profiler.Timer

/-- The timer after additions that are made one after the other. -/
def addAll (timer : Timer) (additions : List (String × Addition)) : Timer :=
  additions.foldl (fun timer (name, addition) => timer.add name addition) timer

/-- What the timers show is the same: the name of the innermost open region, the report of any time,
and the region that is found under any name. -/
structure ShowsAs (timer other : Timer) : Prop where
  currentName_eq : timer.currentName = other.currentName
  report_eq : ∀ clock, (timer.report clock).1 = (other.report clock).1
  region?_eq : ∀ name, timer.region? name = other.region? name

/-- Whatever is done with both timers, they answer alike and show the same. -/
def Indistinguishable (timer other : Timer) : Prop :=
  ∀ later, timer.replies later = other.replies later ∧
    (timer.after later).ShowsAs (other.after later)

/-! ### Timers that mean the same ledger -/

namespace Represents

variable {timer other : Timer} {ledger : Ledger}

/-- A timer does not mean an order of entries. -/
theorem of_sameEntries {same : Ledger} (h : timer.Represents ledger)
    (hsame : same.SameEntries ledger) : timer.Represents same where
  top_eq := by rw [hsame.rest_eq]; exact h.top_eq
  metrics_eq := by rw [hsame.rest_eq]; exact h.metrics_eq
  scope_eq := by rw [hsame.rest_eq]; exact h.scope_eq
  collected path totals := by rw [hsame.get?_eq]; exact h.collected path totals
  frames_eq := by rw [hsame.rest_eq]; exact h.frames_eq

theorem showsAs (wf : timer.WellFormed) (wf' : other.WellFormed) (h : timer.Represents ledger)
    (h' : other.Represents ledger) : timer.ShowsAs other where
  currentName_eq := (h.currentName_eq wf).symm.trans (h'.currentName_eq wf')
  report_eq clock := by
    have hcopy := (h.closeOut wf clock).copy_eq (touches_closeOut wf clock).wellFormed
    have hcopy' := (h'.closeOut wf' clock).copy_eq (touches_closeOut wf' clock).wellFormed
    exact hcopy.trans hcopy'.symm
  region?_eq name := (h.region?_eq wf name).trans (h'.region?_eq wf' name).symm

/-- **Timers that mean the same ledger cannot be told apart.** -/
theorem indistinguishable (wf : timer.WellFormed) (wf' : other.WellFormed)
    (h : timer.Represents ledger) (h' : other.Represents ledger) :
    timer.Indistinguishable other := fun later =>
  ⟨(h.replies_eq wf later).trans (h'.replies_eq wf' later).symm,
    showsAs (after_keeps wf later).1 (after_keeps wf' later).1 (h.after wf later)
      (h'.after wf' later)⟩

end Represents

/-! ### Timers after additions -/

section

variable {timer : Timer} {ledger : Ledger} (wf : timer.WellFormed) (h : timer.Represents ledger)
include wf

theorem current_add (name : String) (addition : Addition) :
    (timer.add name addition).current = timer.current := by
  unfold add
  split_ifs
  · exact (located_locateChild wf wf.current_lt name).current_eq
  · rfl

/-- Additions to what is not tracked might as well not be made. -/
theorem addAll_filter_accepts (additions : List (String × Addition)) :
    timer.addAll (additions.filter fun step => timer.metrics.accepts step.2) =
      timer.addAll additions := by
  induction additions generalizing timer with
  | nil => rfl
  | cons step rest ih =>
    obtain ⟨name, addition⟩ := step
    by_cases haccepts : timer.metrics.accepts addition = true
    · obtain ⟨hwf, hextends⟩ := follow_keeps wf {} (.add name addition)
      have hrest := ih hwf
      rw [hextends.metrics_eq] at hrest
      rw [List.filter_cons, if_pos haccepts]
      exact hrest
    · have hignored := add_of_not_accepts timer name haccepts
      rw [List.filter_cons, if_neg haccepts, ih wf]
      exact congrArg (·.addAll rest) hignored.symm

include h

/-- Additions do to a timer what they do to its ledger, and move nothing. -/
theorem addAll_keeps (additions : List (String × Addition)) :
    (timer.addAll additions).WellFormed ∧ timer.Extends (timer.addAll additions) ∧
      (timer.addAll additions).current = timer.current ∧
      (timer.addAll additions).Represents (ledger.addAll additions) := by
  induction additions generalizing timer ledger with
  | nil => exact ⟨wf, .refl timer, rfl, h⟩
  | cons step rest ih =>
    obtain ⟨name, addition⟩ := step
    obtain ⟨hwf, hextends⟩ := follow_keeps wf {} (.add name addition)
    obtain ⟨hwf', hextends', hcurrent, hrepresents⟩ := ih hwf (h.add wf name addition)
    exact ⟨hwf', hextends.trans hextends', hcurrent.trans (current_add wf name addition),
      hrepresents⟩

end

/-- **Additions commute**: in whatever order they are made, the innermost open region stays as it is,
and the timers can never be told apart. One that is not accepted changes nothing at all, so a timer
is as it is after those that are. These create the children that they go to, and each field of a
child has what it had, which is nothing in a new child, and the sum of those to it, up to the
limit. -/
theorem additions_commute (config : Config) (start : Clock) (orders : List (Clock × Order))
    {additions permuted : List (String × Addition)} (hperm : additions.Perm permuted) :
    let timer := (ofConfig config start).after orders
    let later := timer.addAll additions
    let other := timer.addAll permuted
    later.current = timer.current ∧ other.current = timer.current ∧
      later.Indistinguishable other ∧
      (∀ name addition, config.metrics.accepts addition = false →
        timer.add name addition = timer) ∧
      timer.addAll (additions.filter fun step => config.metrics.accepts step.2) = later ∧
      (∀ path, later.HasPath path ↔ timer.HasPath path ∨
        ∃ step ∈ additions, config.metrics.accepts step.2 = true ∧
          timer.path timer.current ++ [step.1] = path) ∧
      ∀ id < later.nodes.size, ∀ name, later.path id = timer.path timer.current ++ [name] →
        ∀ field : Field, field.of (later.node id).region.totals =
          min (field.of (timer.node id).region.totals +
            field.added config.metrics additions name) field.limit := by
  intro timer later other
  have wf : timer.WellFormed := wellFormed_after config start orders
  have h : timer.Represents ((Ledger.ofConfig config start).after orders) :=
    (represents_ofConfig config start).after (wellFormed_ofConfig config start) orders
  have hmetrics : timer.metrics = config.metrics :=
    (after_keeps (wellFormed_ofConfig config start) orders).2.metrics_eq
  set ledger := (Ledger.ofConfig config start).after orders
  clear_value timer ledger
  obtain ⟨hwf, hextends, hcurrent, hrepresents⟩ := addAll_keeps wf h additions
  obtain ⟨hwf', -, hcurrent', hrepresents'⟩ := addAll_keeps wf h permuted
  refine ⟨hcurrent, hcurrent', ?_, fun name addition hignored => ?_, ?_, fun path => ?_,
    fun id hid name hpath field => ?_⟩
  · -- The other timer means its ledger with the entries put in the order of this one's.
    exact hrepresents.indistinguishable hwf hwf'
      (hrepresents'.of_sameEntries (ledger.sameEntries_addAll hperm))
  · refine add_of_not_accepts timer name fun haccepts => ?_
    rw [hmetrics, hignored] at haccepts
    cases haccepts
  · rw [← hmetrics]
    exact addAll_filter_accepts wf additions
  · have hkeys := ledger.mem_keys_addAll additions path
    rw [hrepresents.mem_keys_iff, h.mem_keys_iff, h.path_eq wf, h.metrics_eq, hmetrics] at hkeys
    exact hkeys
  · have hsum := ledger.of_totals_addAll additions field name
    rw [h.path_eq wf, ← hpath, hrepresents.totals_path hid,
      h.totals_before wf hextends hwf hid, h.metrics_eq, hmetrics] at hsum
    exact hsum

/-- In another order the children have other numbers, which does not show. -/
theorem additions_commute_swapped :
    let hash : String × Addition := ("hash", .wall (.ofNat 3))
    let load : String × Addition := ("load", .count (.ofNat 2))
    let new := ofConfig {} {}
    [load, hash].Perm [hash, load] ∧ new.addAll [load, hash] ≠ new.addAll [hash, load] ∧
      (new.addAll [load, hash]).Indistinguishable (new.addAll [hash, load]) := by
  intro hash load new
  have hperm : [load, hash].Perm [hash, load] := .swap ..
  obtain ⟨-, -, hsame, -⟩ := additions_commute {} {} [] hperm
  exact ⟨hperm, by decide +kernel, hsame⟩

/-- **An addition to what is not tracked is lost**, also if its region is there. -/
theorem addAll_untracked :
    let additions : List (String × Addition) :=
      [("load", .wall (.ofNat 1)), ("load", .cpu (.ofNat 5))]
    let cpu := Field.collected .cpu
    let timer := ofConfig { metrics := { cpu := false } } {}
    let later := timer.addAll additions
    later.path 1 = timer.path timer.current ++ ["load"] ∧
      cpu.of (later.node 1).region.totals = 0 ∧
      min (cpu.of (timer.node 1).region.totals + (additions.map fun step =>
        if step.1 = "load" then cpu.amount step.2 else 0).sum) cpu.limit = 5 := by
  decide +kernel

end Profiler.Timer
