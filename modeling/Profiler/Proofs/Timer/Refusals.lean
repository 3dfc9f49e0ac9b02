import Mathlib.Algebra.Ring.Int.Defs
import Mathlib.Data.List.Flatten
import Profiler.Proofs.Timer.Stays

/-!
# What refused readings invent

The system may refuse to report blocks, and a timer then reads zero (`Gauge.read_eq`). A stay that
begins with a refusal and ends without one is taken for all that the system has ever counted, so a
region can collect more than the system counted since the region was opened. `Gauge.invented` is
what such a stay makes up, and there is nothing else that a region collects too much
(`Timer.total_le_increase`).
-/

namespace Profiler

/-- The usage of a scope as the system counts it. -/
def Clock.counters (clock : Clock) : Scope → Counters
  | .thread => clock.thread
  | .process => clock.process

namespace Gauge

/-- Whether the system refuses to report the gauge. -/
def refused (gauge : Gauge) (clock : Clock) : Bool :=
  match gauge with
  | wall | cpu => false
  | reads | writes => clock.blocksRefused

/-- What the system has counted. -/
def counter (gauge : Gauge) (scope : Scope) (clock : Clock) : Int :=
  match gauge with
  | wall => clock.wall.val
  | cpu => (clock.counters scope).cpu.val
  | reads => (clock.counters scope).reads
  | writes => (clock.counters scope).writes

/-- What a stay makes up: all that had been counted before it, if that was refused at its beginning
and is reported at its end. -/
def invented (gauge : Gauge) (scope : Scope) (stay : Stay) : Int :=
  if gauge.refused stay.start ∧ ¬ gauge.refused stay.stop then gauge.counter scope stay.start else 0

variable (gauge : Gauge) (scope : Scope)

/-- A timer reads what the system has counted, up to the limit, or zero if that is refused. -/
theorem read_eq (clock : Clock) : gauge.read scope clock =
    if gauge.refused clock then 0 else min (gauge.counter scope clock).toNat gauge.limit := by
  have blocks_val : ∀ counter : Int, (Counters.blocks clock.blocksRefused counter).val =
      if clock.blocksRefused then 0 else min counter.toNat (UInt64.size - 1) := by
    intro counter
    unfold Counters.blocks
    split_ifs <;> rfl
  cases gauge with
  | wall => exact (Nat.min_eq_left clock.wall.val_le).symm
  | cpu => cases scope <;> exact (Nat.min_eq_left (Capped.val_le _)).symm
  | reads => cases scope <;> exact blocks_val _
  | writes => cases scope <;> exact blocks_val _

variable {gauge scope}

/-- What a region gains from a stay is what the system has counted during the stay, and what the
stay makes up. -/
theorem gained_le {stay : Stay} (hstart : 0 ≤ gauge.counter scope stay.start)
    (hstop : gauge.counter scope stay.start ≤ gauge.counter scope stay.stop) :
    (gauge.gained scope stay : Int) ≤
      gauge.counter scope stay.stop - gauge.counter scope stay.start +
        gauge.invented scope stay := by
  rw [gained, invented, gauge.read_eq, gauge.read_eq]
  by_cases hend : gauge.refused stay.stop = true
  · -- An end that is refused reads as zero, so nothing is gained.
    rw [if_pos hend, Nat.zero_sub, if_neg fun h => h.2 hend]
    omega
  · rw [if_neg hend]
    by_cases hbegin : gauge.refused stay.start = true
    · rw [if_pos hbegin, if_pos ⟨hbegin, hend⟩]
      omega
    · rw [if_neg hbegin, if_neg fun h => hbegin h.1]
      omega

end Gauge

/-- The counter of the system is never negative and never falls. -/
structure Counts (gauge : Gauge) (scope : Scope) (clocks : List Clock) : Prop where
  nonneg : ∀ clock ∈ clocks, 0 ≤ gauge.counter scope clock
  pairwise : clocks.Pairwise fun earlier later =>
    gauge.counter scope earlier ≤ gauge.counter scope later

namespace Counts

variable {gauge : Gauge} {scope : Scope} {clocks : List Clock}

theorem sublist {fewer : List Clock} (h : Counts gauge scope clocks)
    (hfewer : fewer.Sublist clocks) : Counts gauge scope fewer where
  nonneg clock hmem := h.nonneg clock (hfewer.subset hmem)
  pairwise := h.pairwise.sublist hfewer

/-- Nothing is counted between a moment and itself. -/
theorem doubled (h : Counts gauge scope clocks) :
    Counts gauge scope (clocks.flatMap fun clock => [clock, clock]) where
  nonneg clock hmem := by
    obtain ⟨clock', hmem', hclock⟩ := List.mem_flatMap.mp hmem
    have heq : clock = clock' := by simpa using hclock
    exact heq ▸ h.nonneg clock' hmem'
  pairwise := by
    rw [List.pairwise_flatMap]
    refine ⟨fun clock _ => by simp, h.pairwise.imp fun hle => ?_⟩
    simpa using hle

theorem repeat_head {first : Clock} (h : Counts gauge scope (first :: clocks)) :
    Counts gauge scope (first :: first :: clocks) where
  nonneg clock hmem := h.nonneg clock (by simpa using hmem)
  pairwise := by
    refine h.pairwise.cons fun clock hmem => ?_
    obtain rfl | hrest := List.mem_cons.mp hmem
    · exact le_rfl
    · exact List.rel_of_pairwise_cons h.pairwise hrest

/-- **Stays gain no more than is counted** from any moment before them on, and what they make up. -/
theorem sum_gained_le {past : List Stay} {first now : Clock}
    (h : Counts gauge scope
      (first :: past.flatMap (fun stay => [stay.start, stay.stop]) ++ [now])) :
    ((past.map (gauge.gained scope)).sum : Int) ≤
      gauge.counter scope now - gauge.counter scope first +
        (past.map (gauge.invented scope)).sum := by
  induction past generalizing first with
  | nil =>
    have hle : gauge.counter scope first ≤ gauge.counter scope now := by simpa using h.pairwise
    simp only [List.map_nil, List.sum_nil]
    omega
  | cons stay past ih =>
    -- What is counted between two stays goes to neither of them.
    have hbefore : gauge.counter scope first ≤ gauge.counter scope stay.start :=
      List.rel_of_pairwise_cons h.pairwise (by simp)
    have hrest : Counts gauge scope (stay.start :: stay.stop ::
        past.flatMap (fun stay => [stay.start, stay.stop]) ++ [now]) :=
      h.sublist (List.sublist_cons_self ..)
    have hstay := Gauge.gained_le (hrest.nonneg stay.start (by simp))
      (List.rel_of_pairwise_cons hrest.pairwise (by simp))
    have hpast := ih (hrest.sublist (List.sublist_cons_self ..))
    simp only [List.map_cons, List.sum_cons, Int.natCast_add]
    omega

theorem sum_gained_le_first {stays : Stays} {first now : Clock}
    (h : Counts gauge scope (stays.times ++ [now])) (hfirst : stays.first? = some first) :
    ((stays.past.map (gauge.gained scope)).sum : Int) ≤
      gauge.counter scope now - gauge.counter scope first +
        (stays.past.map (gauge.invented scope)).sum := by
  obtain ⟨rest, hrest⟩ := List.head?_eq_some_iff.mp hfirst
  have htwice : Counts gauge scope (first :: stays.times ++ [now]) := by
    rw [hrest] at h ⊢
    exact h.repeat_head
  -- A stay that has begun gains nothing before it ends.
  have hpast := htwice.sublist (((List.sublist_append_left _ _).cons_cons first).append (.refl _))
  exact hpast.sum_gained_le

/-- The stays of a region begin and end while the counter behaves. -/
theorem times_after {start now : Clock} {orders : List (Clock × Order)}
    (h : Counts gauge scope (start :: orders.map Prod.fst ++ [now])) (timer : Timer) (id : Nat) :
    Counts gauge scope (((Stays.new id start).after id timer orders).times ++ [now]) := by
  have hnew : (Stays.new id start).times.Sublist [start, start] := by
    rw [Stays.new]
    split_ifs <;> simp [Stays.times]
  have htimes := ((Stays.new id start).times_after id timer orders).trans
    (hnew.append (List.Sublist.refl _))
  refine h.doubled.sublist ?_
  rw [List.flatMap_append, List.flatMap_cons, List.flatMap_map]
  exact htimes.append (by simp)

end Counts

namespace Timer

/-- **A region collects no more than the system has counted since it was first opened**, except for
what its stays make up that began when the counter was refused. It collects just what is read
between the beginning and the end of its stays, up to the limit. -/
theorem total_le_increase (gauge : Gauge) (config : Config) (start : Clock)
    (orders : List (Clock × Order)) (now : Clock) (htracked : gauge.tracked config.metrics = true)
    (hcounts : Counts gauge config.scope (start :: orders.map Prod.fst ++ [now]))
    (htakes : ∀ clock name addition, (clock, Order.add name addition) ∈ orders →
      gauge.takes addition = false) (id : Nat) :
    let timer := (ofConfig config start).after orders
    let stays := (Stays.new id start).after id (ofConfig config start) orders
    let total := gauge.total (timer.node id).region.totals
    timer.Stayed gauge id stays ∧ (stays.first? = none → total = 0) ∧
      ∀ first, stays.first? = some first → (total : Int) ≤
        gauge.counter config.scope now - gauge.counter config.scope first +
          (stays.past.map (gauge.invented config.scope)).sum := by
  intro timer stays total
  have wf := wellFormed_ofConfig config start
  have hscope : timer.scope = config.scope := (after_keeps wf orders).2.scope_eq
  have hstayed : timer.Stayed gauge id stays :=
    (stayed_ofConfig start id htracked).after wf htracked orders htakes
  have htotal : total = min (stays.past.map (gauge.gained config.scope)).sum gauge.limit :=
    hscope ▸ hstayed.total_eq
  refine ⟨hstayed, fun hnone => ?_, fun first hfirst => ?_⟩
  · rw [htotal, stays.past_eq_nil hnone]
    exact Nat.zero_min _
  · have hall : Counts gauge config.scope (stays.times ++ [now]) :=
      hcounts.times_after (ofConfig config start) id
    have hsum := hall.sum_gained_le_first hfirst
    omega

/-- A system that has read a hundred blocks. -/
def idle (refused : Bool) : Clock := { thread := { reads := 100 }, blocksRefused := refused }

/-- A region that is entered while blocks are refused, and left when they are reported. -/
def refusedEntry : List (Clock × Order) := [(idle true, .enter "a"), (idle false, .exit "a")]

theorem total_le_increase_refusedEntry :
    Gauge.reads.tracked ({} : Config).metrics = true ∧
      Counts .reads .thread ({} :: refusedEntry.map Prod.fst ++ [idle false]) ∧
      (Gauge.reads.total (((ofConfig {} {}).after refusedEntry).node 1).region.totals
        : Int) ≤ 0 + 100 := by
  have hcounts : Counts .reads .thread ({} :: refusedEntry.map Prod.fst ++ [idle false]) :=
    ⟨by decide, by decide⟩
  obtain ⟨-, -, hle⟩ :=
    total_le_increase .reads {} {} refusedEntry (idle false) rfl hcounts (by simp [refusedEntry]) 1
  exact ⟨rfl, hcounts, hle (idle true) (by decide +kernel)⟩

/-- **A refused entry makes up blocks**: the system reads none while the region is open, and the
region collects a hundred. -/
theorem refusedEntry_invents :
    let new := ofConfig {} {}
    let timer := new.after refusedEntry
    Gauge.reads.tracked ({} : Config).metrics = true ∧
      Counts .reads .thread ({} :: refusedEntry.map Prod.fst ++ [idle false]) ∧
      (∀ clock name addition, (clock, Order.add name addition) ∉ refusedEntry) ∧
      timer.path 1 = ["a"] ∧
      ((Stays.new 1 {}).after 1 new refusedEntry).first? = some (idle true) ∧
      Gauge.reads.counter .thread (idle false) - Gauge.reads.counter .thread (idle true) <
        Gauge.reads.total (timer.node 1).region.totals := by
  refine ⟨rfl, ⟨by decide, by decide⟩, by simp [refusedEntry], ?_⟩
  decide +kernel

end Timer

end Profiler
