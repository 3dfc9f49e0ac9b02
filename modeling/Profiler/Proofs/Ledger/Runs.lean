import Profiler.Proofs.Ledger.Reports

/-!
# Timers and ledgers answer alike

Every order has the same answer from a timer as from its ledger, and leaves behind a timer that means
the ledger left behind (`Timer.Represents.follow`). So a timer answers every run as the ledger does
that was made with it (`Timer.replies_eq_ledger`).
-/

namespace Profiler.Timer

namespace Represents

variable {timer : Timer} {ledger : Ledger} (wf : timer.WellFormed) (h : timer.Represents ledger)
include wf h

/-! ### Exits and changes -/

theorem closingEvents_eq (name : String) (nested : List Nat) :
    ledger.closingEvents name nested.length = timer.closingEvents name nested := by
  rw [Ledger.closingEvents, closingEvents, currentName_eq wf h]
  cases nested <;> rfl

theorem nameOf_frame {id : Nat} (hid : id ∈ timer.openPath) :
    ledger.nameOf (timer.frame id).path = timer.nameOf id := by
  rw [frame, nameOf_path wf h (lt_of_mem_openPath wf hid)]

/-- No frame has a name that no open node has. -/
theorem findIdx?_eq_none {ids : List Nat} {name : String} (hopen : ∀ id ∈ ids, id ∈ timer.openPath)
    (hname : ∀ id ∈ ids, timer.nameOf id ≠ name) :
    (ids.map timer.frame).findIdx? (fun frame => ledger.nameOf frame.path = name) = none := by
  rw [List.findIdx?_eq_none_iff]
  intro frame hframe
  obtain ⟨id, hid, rfl⟩ := List.mem_map.mp hframe
  rw [nameOf_frame wf h (hopen id hid)]
  exact decide_eq_false (hname id hid)

/-- The innermost frame of a name is that of the innermost open node of the name. -/
theorem findIdx?_eq_some {inner outer : List Nat} {id : Nat} {name : String}
    (hopen : ∀ other ∈ inner ++ id :: outer, other ∈ timer.openPath)
    (hother : ∀ other ∈ inner, timer.nameOf other ≠ name) (hname : timer.nameOf id = name) :
    ((inner ++ id :: outer).map timer.frame).findIdx?
      (fun frame => ledger.nameOf frame.path = name) = some inner.length := by
  have hinner := findIdx?_eq_none wf h
    (fun other hmem => hopen other (List.mem_append_left _ hmem)) hother
  have hid : decide (ledger.nameOf (timer.frame id).path = name) = true := by
    rw [nameOf_frame wf h (hopen id (by simp))]
    exact decide_eq_true hname
  rw [List.map_append, List.map_cons, List.findIdx?_append, hinner, List.findIdx?_cons, hid,
    List.length_map]
  simp

/-- **An exit from a timer is the exit from its ledger.** -/
theorem exit (name : String) (clock : Clock) :
    (timer.tryExit name clock).result = (ledger.exit name clock).1 ∧
      (timer.tryExit name clock).events = (ledger.exit name clock).2.1 ∧
      (timer.tryExit name clock).timer.Represents (ledger.exit name clock).2.2 := by
  have hinner := inner_eq h
  rcases not_open_or_innermost timer name with hnone |
    ⟨inner, id, outer, hpath, hother, hname⟩
  · have hsubset := fun id (hid : id ∈ timer.openPath.dropLast) => List.dropLast_subset _ hid
    have hfind := findIdx?_eq_none wf h hsubset fun id hid => hnone id (hsubset id hid)
    have htop : ¬ ledger.top = name := by
      rw [h.top_eq]
      exact hnone 0 (zero_mem_openPath wf)
    rw [tryExit_of_not_open clock hnone, Ledger.exit, hinner, hfind]
    dsimp only
    rw [if_neg htop, currentName_eq wf h]
    exact ⟨rfl, rfl, h⟩
  · have hlength : timer.openPath.length = inner.length + (outer.length + 1) := by
      rw [hpath, List.length_append, List.length_cons]
    rw [tryExit_of_open wf clock hpath hother hname, Ledger.exit]
    by_cases houter : outer = []
    · -- Only the top-level region has the name, and it stays open.
      subst houter
      have hzero := (outer_eq_nil_iff wf hpath).mp rfl
      rw [hpath, List.dropLast_concat] at hinner
      have hfind := findIdx?_eq_none wf h
        (fun other hmem => by rw [hpath]; exact List.mem_append_left _ hmem) hother
      have htop : ledger.top = name := by
        rw [h.top_eq, topName, ← hzero, hname]
      rw [hinner, hfind]
      dsimp only
      rw [if_pos htop, if_pos rfl, List.length_map, closingEvents_eq wf h]
      exact ⟨rfl, rfl, unwind wf h clock (by rw [hlength]; omega)⟩
    · -- The frame of the region that has the name is one of those that can be closed.
      rw [hpath, List.dropLast_append_of_ne_nil (List.cons_ne_nil _ _),
        List.dropLast_cons_of_ne_nil houter] at hinner
      have hsubset : ∀ other ∈ inner ++ id :: outer.dropLast, other ∈ timer.openPath := by
        rw [hpath]
        intro other hmem
        rcases List.mem_append.mp hmem with hmem | hmem
        · exact List.mem_append_left _ hmem
        · refine List.mem_append_right _ ?_
          rw [← List.dropLast_cons_of_ne_nil houter] at hmem
          exact List.dropLast_subset _ hmem
      have hpos := List.length_pos_of_ne_nil houter
      rw [hinner, findIdx?_eq_some wf h hsubset hother hname]
      dsimp only
      rw [if_neg houter, closingEvents_eq wf h]
      exact ⟨rfl, rfl, unwind wf h clock (by rw [hlength]; omega)⟩

/-- **A change of a timer is the change of its ledger.** -/
theorem change (name : String) (clock : Clock) :
    (timer.tryChange name clock).result = (ledger.change name clock).1 ∧
      (timer.tryChange name clock).events = [] ∧
      (timer.tryChange name clock).timer.Represents (ledger.change name clock).2 := by
  have hinner := inner_eq h
  by_cases hzero : timer.current = 0
  · rw [openPath_eq_lineage, hzero, lineage_zero wf] at hinner
    rw [tryChange_of_top wf name clock hzero, Ledger.change, hinner, h.top_eq, currentName, hzero]
    exact ⟨rfl, rfl, h⟩
  · obtain ⟨outer, hopen, houter, -⟩ := exists_outer wf hzero
    obtain ⟨parent, -, hparent⟩ := wf.exists_parent _ wf.current_lt hzero
    rw [hopen, List.dropLast_cons_of_ne_nil houter, List.map_cons] at hinner
    rw [tryChange_of_parent timer name clock hparent, Ledger.change, hinner]
    exact ⟨rfl, rfl, enter (wf.leave clock) (leave wf h clock hzero) name clock⟩

/-! ### Orders and runs -/

/-- **Every order has the same answer from a timer as from its ledger**, and they stay together. -/
theorem follow (clock : Clock) (order : Order) :
    (timer.follow clock order).1 = (ledger.follow clock order).1 ∧
      (timer.follow clock order).2.Represents (ledger.follow clock order).2 := by
  cases order with
  | enter name => exact ⟨rfl, enter wf h name clock⟩
  | exit name =>
    obtain ⟨hresult, hevents, hrepresents⟩ := exit wf h name clock
    simp only [Timer.follow, Timer.exit, Ledger.follow, ← hresult, ← hevents]
    cases (timer.tryExit name clock).result with
    | ok => exact ⟨rfl, hrepresents⟩
    | error fault => cases fault <;> exact ⟨rfl, hrepresents⟩
  | tryExit name =>
    obtain ⟨hresult, hevents, hrepresents⟩ := exit wf h name clock
    simp only [Timer.follow, Ledger.follow, hresult, hevents]
    exact ⟨trivial, hrepresents⟩
  | change name =>
    obtain ⟨hresult, hevents, hrepresents⟩ := change wf h name clock
    simp only [Timer.follow, Timer.change, Ledger.follow, ← hresult, hevents]
    cases (timer.tryChange name clock).result with
    | ok => exact ⟨rfl, hrepresents⟩
    | error fault => exact ⟨rfl, hrepresents⟩
  | tryChange name =>
    obtain ⟨hresult, hevents, hrepresents⟩ := change wf h name clock
    simp only [Timer.follow, Ledger.follow, hresult, hevents]
    exact ⟨trivial, hrepresents⟩
  | add name addition => exact ⟨rfl, add wf h name addition⟩
  | report =>
    have hclosed := closeOut wf h clock
    have hcopy := copy_eq (touches_closeOut wf clock).wellFormed hclosed
    simp only [Timer.follow, report, Ledger.follow, hcopy]
    exact ⟨trivial, hclosed⟩

theorem replies_eq (orders : List (Clock × Order)) :
    timer.replies orders = ledger.replies orders := by
  induction orders generalizing timer ledger with
  | nil => rfl
  | cons step orders ih =>
    obtain ⟨clock, order⟩ := step
    obtain ⟨hreply, hrepresents⟩ := follow wf h clock order
    have hwf := (follow_keeps wf clock order).1
    rw [replies, Ledger.replies]
    dsimp only
    rw [hreply, currentName_eq hwf hrepresents, ih hwf hrepresents]

theorem after (orders : List (Clock × Order)) :
    (timer.after orders).Represents (ledger.after orders) := by
  induction orders generalizing timer ledger with
  | nil => exact h
  | cons step orders ih =>
    exact ih (follow_keeps wf step.1 step.2).1 (follow wf h step.1 step.2).2

end Represents

/-! ### New timers -/

/-- A new timer means the new ledger. -/
theorem represents_ofConfig (config : Config) (clock : Clock) :
    (ofConfig config clock).Represents (Ledger.ofConfig config clock) := by
  have wf := wellFormed_ofConfig config clock
  have hnode := node_ofConfig config clock
  refine ⟨?_, rfl, rfl, ?_, ?_⟩
  · rw [topName, nameOf, hnode]
    exact (Region.name_countEntry { name := config.name } config.metrics).symm
  · intro path totals
    have htotals : ((ofConfig config clock).node 0).region.totals =
        ({} : Totals).countEntry config.metrics := by
      rw [hnode]
      exact Region.totals_countEntry _ _
    show (Keyed.empty.insert [] _).get? path = some totals ↔ _
    rw [Keyed.get?_insert, Keyed.get?_empty, size_ofConfig, ← htotals]
    split_ifs with hpath
    · rw [Option.some.injEq]
      constructor
      · intro heq
        exact ⟨0, Nat.zero_lt_one, by rw [path_zero wf, hpath], heq⟩
      · rintro ⟨id, hid, -, heq⟩
        rwa [Nat.lt_one_iff.mp hid] at heq
    · constructor
      · intro heq
        cases heq
      · rintro ⟨id, hid, heq, -⟩
        rw [Nat.lt_one_iff.mp hid, path_zero wf] at heq
        exact absurd heq.symm hpath
  · have hcurrent : (ofConfig config clock).current = 0 := rfl
    rw [openPath_eq_lineage, hcurrent, lineage_zero wf, List.map_singleton, frame, path_zero wf,
      hnode]
    exact congrArg (fun entry => [(⟨[], entry⟩ : Frame)])
      (Marks.tracked_moveTo _ clock config.metrics config.scope).symm

/-- **A timer is a ledger of totals by path**: whatever the orders and the clocks, it gives the
answers that the ledger gives, and ends as a timer that means the ledger and finds the same regions
in it. -/
theorem replies_eq_ledger (config : Config) (clock : Clock) (orders : List (Clock × Order)) :
    (ofConfig config clock).replies orders = (Ledger.ofConfig config clock).replies orders ∧
      ((ofConfig config clock).after orders).Represents
        ((Ledger.ofConfig config clock).after orders) ∧
      ∀ name, ((ofConfig config clock).after orders).region? name =
        ((Ledger.ofConfig config clock).after orders).region? name :=
  have wf := wellFormed_ofConfig config clock
  have h := represents_ofConfig config clock
  have hafter := h.after wf orders
  ⟨h.replies_eq wf orders, hafter, fun name =>
    hafter.region?_eq (wellFormed_after config clock orders) name⟩

end Profiler.Timer
