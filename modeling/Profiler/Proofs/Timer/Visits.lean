import Profiler.Proofs.Timer.Orders

/-!
# Visits of a region

A visit is a child of the current region that is entered and left again with nothing but time in
between. `Timer.visited_exit` says all that it leaves behind: one more entry of the child, with what
was read in the meantime. It is silent, and the timer is where it was.
-/

namespace Profiler.Timer

/-- Two changes of the same node make one. -/
theorem Touches.trans {timer mid later : Timer} {target : Nat} {f g : Totals → Totals}
    (h : timer.Touches mid target f) (h' : mid.Touches later target g) :
    timer.Touches later target fun totals => g (f totals) where
  wellFormed := h'.wellFormed
  toExtends := h.toExtends.trans h'.toExtends
  target_lt := h'.target_lt
  lt_or_eq id hid := (h'.lt_or_eq id hid).elim (h.lt_or_eq id) .inr
  totals_target := by rw [h'.totals_target, h.totals_target]
  totals_eq id hid hne := by
    rw [h'.totals_eq id (lt_of_lt_of_le hid h.toExtends.size_le) hne, h.totals_eq id hid hne]
  marks_eq id hid hne := by
    rw [h'.marks_eq id (lt_of_lt_of_le hid h.toExtends.size_le) hne, h.marks_eq id hid hne]

/-- The later timer is the other one after a visit of the child `name` of its current region. It is
where it was; the child, which was not open, has one more entry and what was read between the two
clocks, and nothing else was collected, marked or created. -/
structure Visited (timer later : Timer) (name : String) (entry leave : Clock) : Prop where
  eq_after : later = timer.after [(entry, .enter name), (leave, .exit name)]
  current_eq : later.current = timer.current
  openPath_eq : later.openPath = timer.openPath
  exists_child : ∃ child, later.path child = timer.path timer.current ++ [name] ∧
    child ∉ timer.openPath ∧ timer.Touches later child fun totals =>
      (totals.countEntry timer.metrics).elapse (timer.reading entry) (timer.reading leave)

theorem Visited.wellFormed {timer later : Timer} {name : String} {entry leave : Clock}
    (h : timer.Visited later name entry leave) : later.WellFormed := by
  obtain ⟨child, -, -, htouches⟩ := h.exists_child
  exact htouches.wellFormed

/-- An exit of the innermost open region by its name leaves it and is silent. -/
theorem exit_currentName {timer : Timer} (wf : timer.WellFormed) (clock : Clock)
    (h : timer.current ≠ 0) : timer.exit timer.currentName clock = ([], timer.leave clock) := by
  obtain ⟨outer, hpath, houter⟩ := exists_outer wf h
  have hcons : timer.openPath = [] ++ timer.current :: outer := hpath
  have hname : timer.nameOf timer.current = timer.currentName := rfl
  rw [exit, tryExit_of_open wf clock hcons (by simp) hname, if_neg houter.1]
  rfl

/-- **A visit is silent and leaves its time behind.** -/
theorem visited_exit {timer : Timer} (wf : timer.WellFormed) (name : String) (entry leave : Clock) :
    ((timer.enter name entry).exit name leave).1 = [] ∧
      timer.Visited ((timer.enter name entry).exit name leave).2 name entry leave := by
  have hafter : timer.after [(entry, .enter name), (leave, .exit name)] =
      ((timer.enter name entry).exit name leave).2 := by
    simp only [after, follow]
  obtain ⟨hne, hname⟩ := currentName_enter wf name entry
  have entered := entered_enter wf name entry
  generalize (timer.locateChild timer.current name).1 = child at entered
  have wf' := entered.touches.wellFormed
  have hcurrent := current_eq_of_cons wf' entered.openPath_eq
  have hexit := exit_currentName wf' leave hne
  rw [hname] at hexit
  have hpath := openPath_leave wf' leave (openPath_ne_nil wf) entered.openPath_eq
  have hleave := touches_leave wf' leave hne
  rw [hcurrent, entered.touches.toExtends.metrics_eq, entered.tracked_eq,
    reading_eq_reading entered.touches.toExtends] at hleave
  have hcurrent' : ((timer.enter name entry).leave leave).current = timer.current := by
    obtain ⟨outer, houter⟩ := openPath_eq_cons wf
    exact current_eq_of_cons hleave.wellFormed (hpath.trans houter)
  have hpath' : ((timer.enter name entry).leave leave).path child =
      timer.path timer.current ++ [name] := by
    rw [hleave.toExtends.path_eq wf' hleave.wellFormed entered.touches.target_lt, entered.path_eq]
  rw [hexit] at hafter ⊢
  dsimp only at hafter ⊢
  exact ⟨rfl, hafter.symm, hcurrent', hpath, child, hpath', entered.not_mem,
    entered.touches.trans hleave⟩

end Profiler.Timer
