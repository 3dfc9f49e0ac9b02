import Profiler.Proofs.Timer.Orders

/-!
# Openings

A region may be opened again and again, and inside it another one of the same name, so neither its
number nor its name tells one opening from another. A `Watch` numbers the openings of a timer as
they happen and remembers those that are still open (`Timer.Watched`). An exit knows of none of
this: it takes a name. `Timer.closes_exit_iff` says when an exit closes just the opening that was
meant, and `Timer.exit_eq_self_iff` when it closes nothing.
-/

namespace Profiler

/-- One opening of a region. -/
structure Opening where
  number : Nat
  region : Nat
deriving DecidableEq

/-- The openings that are still open, innermost first, and the number of the next one. The first is
that of the top-level region. -/
structure Watch where
  openings : List Opening := [⟨0, 0⟩]
  next : Nat := 1

namespace Watch

/-- What is open after an order to the timer. -/
def follow (watch : Watch) (timer : Timer) (clock : Clock) (order : Order) : Watch :=
  let later := (timer.follow clock order).2
  let opened : Opening := ⟨watch.next, later.current⟩
  match order with
  | .enter _ => ⟨opened :: watch.openings, watch.next + 1⟩
  | .exit _ | .tryExit _ =>
    -- Regions are left from the inside, each with its latest opening.
    { watch with openings := watch.openings.drop (timer.openPath.length - later.openPath.length) }
  | .change _ | .tryChange _ =>
    if timer.isAtTop then watch else ⟨opened :: watch.openings.tail, watch.next + 1⟩
  | .add _ _ | .report => watch

/-- What is open after orders that are given one after the other. -/
def after (watch : Watch) (timer : Timer) : List (Clock × Order) → Watch
  | [] => watch
  | (clock, order) :: rest =>
    (watch.follow timer clock order).after (timer.follow clock order).2 rest

end Watch

namespace Timer

/-- The watch has one opening for every open region, and no number twice. -/
structure Watched (timer : Timer) (watch : Watch) : Prop where
  regions_eq : watch.openings.map Opening.region = timer.openPath
  number_lt : ∀ opening ∈ watch.openings, opening.number < watch.next
  nodup : (watch.openings.map Opening.number).Nodup

/-- If the opening with the number is still open, it is one of a region called `name` below the
top-level region. -/
structure Knows (timer : Timer) (watch : Watch) (number : Nat) (name : String) : Prop where
  number_lt : number < watch.next
  region_of : ∀ opening ∈ watch.openings, opening.number = number →
    timer.nameOf opening.region = name ∧ opening.region ≠ 0

theorem watched_ofConfig (config : Config) (clock : Clock) :
    (ofConfig config clock).Watched {} where
  regions_eq := (lineage_zero (wellFormed_ofConfig config clock)).symm
  number_lt opening h := by
    rw [List.mem_singleton.mp h]
    exact Nat.zero_lt_one
  nodup := List.nodup_singleton 0

section

variable {timer : Timer} {watch : Watch}

/-! ### What an order does to the openings -/

/-- A new opening around which some of the earlier ones are still open. -/
theorem Watched.push (h : timer.Watched watch) {later : Timer} {rest : List Opening}
    (hrest : rest.Sublist watch.openings)
    (hpath : later.openPath = later.current :: rest.map Opening.region) :
    later.Watched ⟨⟨watch.next, later.current⟩ :: rest, watch.next + 1⟩ where
  regions_eq := by
    rw [hpath]
    rfl
  number_lt opening hopening := by
    show opening.number < watch.next + 1
    rcases List.mem_cons.mp hopening with rfl | hmem
    · exact Nat.lt_succ_self _
    · exact Nat.lt_succ_of_lt (h.number_lt opening (hrest.subset hmem))
  nodup := by
    rw [List.map_cons, List.nodup_cons]
    refine ⟨?_, h.nodup.sublist (hrest.map _)⟩
    intro hmem
    obtain ⟨opening, hopening, heq⟩ := List.mem_map.mp hmem
    have hlt := h.number_lt opening (hrest.subset hopening)
    exact absurd heq (ne_of_lt hlt)

/-- The outermost of the earlier openings are still open. -/
theorem Watched.drop (h : timer.Watched watch) {later : Timer} {count : Nat}
    (hpath : later.openPath = timer.openPath.drop count) :
    later.Watched { watch with openings := watch.openings.drop count } where
  regions_eq := by
    rw [hpath, ← h.regions_eq, List.map_drop]
  number_lt opening hopening := h.number_lt opening (List.drop_subset _ _ hopening)
  nodup := h.nodup.sublist ((List.drop_sublist _ _).map _)

variable (wf : timer.WellFormed) (h : timer.Watched watch)
include wf h

theorem Watched.enter (name : String) (clock : Clock) : (timer.enter name clock).Watched
    ⟨⟨watch.next, (timer.enter name clock).current⟩ :: watch.openings, watch.next + 1⟩ := by
  apply h.push (List.Sublist.refl _)
  rw [openPath_enter wf, h.regions_eq]

theorem Watched.exit (name : String) (clock : Clock) :
    (timer.tryExit name clock).timer.Watched ⟨watch.openings.drop
      (timer.openPath.length - (timer.tryExit name clock).timer.openPath.length), watch.next⟩ := by
  obtain ⟨count, hcount, heq⟩ := tryExit_timer wf clock name
  have hpath := openPath_unwind wf clock hcount
  rw [heq]
  have hlength : timer.openPath.length - (timer.unwind clock count).openPath.length = count := by
    rw [hpath, List.length_drop]
    omega
  rw [hlength]
  exact h.drop hpath

theorem Watched.change (name : String) (clock : Clock) :
    (timer.tryChange name clock).timer.Watched (if timer.isAtTop then watch
      else ⟨⟨watch.next, (timer.tryChange name clock).timer.current⟩ :: watch.openings.tail,
        watch.next + 1⟩) := by
  by_cases hzero : timer.current = 0
  · rw [if_pos ((isAtTop_iff wf).mpr hzero), tryChange_of_top wf name clock hzero]
    exact h
  · obtain ⟨parent, -, hparent⟩ := wf.exists_parent _ wf.current_lt hzero
    rw [if_neg (mt (isAtTop_iff wf).mp hzero), tryChange_of_parent timer name clock hparent]
    -- The sibling takes the place of the region that is left.
    obtain ⟨outer, hpath, houter, -⟩ := exists_outer wf hzero
    have hleft := openPath_leave wf clock houter hpath
    apply h.push (List.tail_sublist _)
    rw [openPath_enter (wf.leave clock), hleft, List.map_tail, h.regions_eq, hpath, List.tail_cons]

theorem Watched.add (name : String) (addition : Addition) :
    (timer.add name addition).Watched watch := by
  by_cases haccepts : timer.metrics.accepts addition = true
  · have hpath := (added_add wf name haccepts).openPath_eq
    exact ⟨h.regions_eq.trans hpath.symm, h.number_lt, h.nodup⟩
  · rw [add_of_not_accepts timer name haccepts]
    exact h

/-- **The watch keeps up** with every order. -/
theorem Watched.follow (clock : Clock) (order : Order) :
    (timer.follow clock order).2.Watched (watch.follow timer clock order) := by
  cases order with
  | enter name => exact h.enter wf name clock
  | exit name =>
    have hexit : (timer.follow clock (.exit name)).2 = (timer.tryExit name clock).timer :=
      timer.exit_timer name clock
    unfold Watch.follow
    rw [hexit]
    exact h.exit wf name clock
  | tryExit name => exact h.exit wf name clock
  | change name =>
    have hchange : (timer.follow clock (.change name)).2 = (timer.tryChange name clock).timer :=
      timer.change_timer name clock
    unfold Watch.follow
    rw [hchange]
    exact h.change wf name clock
  | tryChange name => exact h.change wf name clock
  | add name addition => exact h.add wf name addition
  | report =>
    have hpath : (timer.closeOut clock).openPath = timer.openPath := openPath_closeOut wf clock
    exact ⟨h.regions_eq.trans hpath.symm, h.number_lt, h.nodup⟩

omit wf h in
/-- Every opening after an order was open before, or is the newest. -/
theorem mem_openings_follow (clock : Clock) (order : Order) :
    watch.next ≤ (watch.follow timer clock order).next ∧
      ∀ opening ∈ (watch.follow timer clock order).openings,
        opening ∈ watch.openings ∨ opening.number = watch.next := by
  unfold Watch.follow
  cases order with
  | enter name =>
    refine ⟨Nat.le_succ _, fun opening hmem => ?_⟩
    rcases List.mem_cons.mp hmem with rfl | hmem
    · exact .inr rfl
    · exact .inl hmem
  | exit name | tryExit name =>
    exact ⟨le_rfl, fun opening hmem => .inl (List.drop_subset _ _ hmem)⟩
  | change name | tryChange name =>
    dsimp only
    split
    · exact ⟨le_rfl, fun opening hmem => .inl hmem⟩
    · refine ⟨Nat.le_succ _, fun opening hmem => ?_⟩
      rcases List.mem_cons.mp hmem with rfl | hmem
      · exact .inr rfl
      · exact .inl (List.mem_of_mem_tail hmem)
  | add name addition => exact ⟨le_rfl, fun opening hmem => .inl hmem⟩
  | report => exact ⟨le_rfl, fun opening hmem => .inl hmem⟩

theorem Watched.lt_of_mem {opening : Opening} (hopening : opening ∈ watch.openings) :
    opening.region < timer.nodes.size := by
  apply lt_of_mem_openPath wf
  rw [← h.regions_eq]
  exact List.mem_map_of_mem hopening

/-- What is known of an opening stays true. -/
theorem Knows.follow {number : Nat} {name : String} (knows : timer.Knows watch number name)
    (clock : Clock) (order : Order) :
    (timer.follow clock order).2.Knows (watch.follow timer clock order) number name := by
  have hextends := (follow_keeps wf clock order).2
  obtain ⟨hnext, hmem⟩ := @mem_openings_follow timer watch clock order
  refine ⟨lt_of_lt_of_le knows.number_lt hnext, fun opening hopening hnumber => ?_⟩
  rcases hmem opening hopening with hold | hnew
  · rw [hextends.nameOf_eq _ (h.lt_of_mem wf hold)]
    exact knows.region_of opening hold hnumber
  · have hlt := knows.number_lt
    omega

theorem Watched.after (orders : List (Clock × Order)) :
    (timer.after orders).Watched (watch.after timer orders) := by
  induction orders generalizing timer watch with
  | nil => exact h
  | cons step orders ih => exact ih (follow_keeps wf step.1 step.2).1 (h.follow wf step.1 step.2)

theorem Knows.after {number : Nat} {name : String} (knows : timer.Knows watch number name)
    (orders : List (Clock × Order)) :
    (timer.after orders).Knows (watch.after timer orders) number name := by
  induction orders generalizing timer watch with
  | nil => exact knows
  | cons step orders ih =>
    exact ih (follow_keeps wf step.1 step.2).1 (h.follow wf step.1 step.2)
      (knows.follow wf h step.1 step.2)

/-- An entry is an opening of the region that it names. -/
theorem knows_enter (name : String) (clock : Clock) : (timer.enter name clock).Knows
    ⟨⟨watch.next, (timer.enter name clock).current⟩ :: watch.openings, watch.next + 1⟩
    watch.next name := by
  refine ⟨Nat.lt_succ_self _, fun opening hopening hnumber => ?_⟩
  rcases List.mem_cons.mp hopening with rfl | hmem
  · exact (currentName_enter wf name clock).symm
  · have hlt := h.number_lt opening hmem
    omega

/-! ### Which opening an exit closes -/

omit h

end

/-- The region is closed with everything nested in it, nothing else is touched, and its parent is
the innermost open region. -/
structure Closes (timer later : Timer) (clock : Clock) (inner : List Nat) (id : Nat) : Prop where
  size_eq : later.nodes.size = timer.nodes.size
  node_eq : ∀ other, later.node other =
    if other ∈ inner ++ [id] then (timer.node other).closed (timer.reading clock)
    else timer.node other
  current_eq : (timer.node id).parent? = some later.current

section

variable {timer : Timer} (wf : timer.WellFormed) (clock : Clock)
include wf

theorem size_unwind (count : Nat) :
    (timer.unwind clock count).nodes.size = timer.nodes.size := by
  induction count generalizing timer with
  | zero => rfl
  | succ count ih =>
    rw [unwind, ih (wf.leave clock)]
    exact (timer.sameTree_leave clock).size_eq

/-- Unwinding up to an open region and leaving it closes it with everything nested in it. -/
theorem closes_unwind {inner outer : List Nat} {id : Nat}
    (hpath : timer.openPath = inner ++ id :: outer) (hid : id ≠ 0) :
    timer.Closes (timer.unwind clock (inner.length + 1)) clock inner id := by
  have houter : outer ≠ [] := fun hnil => hid ((outer_eq_nil_iff wf hpath).mp hnil)
  have hlength : inner.length + 1 < timer.openPath.length := by
    have hpos := List.length_pos_of_ne_nil houter
    rw [hpath, List.length_append, List.length_cons]
    omega
  refine ⟨size_unwind wf clock _, ?_, ?_⟩
  · intro other
    rw [node_unwind wf clock hlength, hpath]
    have htake : (inner ++ id :: outer).take (inner.length + 1) = inner ++ [id] := by
      rw [List.take_length_add_append]
      rfl
    rw [htake]
  · have wf' := wf.unwind clock inner.length
    have hcurrent := current_unwind_inner wf clock hpath
    obtain ⟨parent, -, hparent⟩ := wf'.exists_parent _ wf'.current_lt (by rwa [hcurrent])
    have hleft : (timer.unwind clock (inner.length + 1)).current = parent := by
      rw [← leave_unwind, leave_of_parent _ clock hparent, current_goTo]
    rw [hleft, ← hparent, hcurrent]
    have hlt : id < timer.nodes.size := lt_of_mem_openPath wf (by rw [hpath]; simp)
    exact ((extends_unwind wf clock inner.length).parent?_eq id hlt).symm

/-- **An exit closes the opening that was meant exactly if no region nested in it has its name.** -/
theorem closes_exit_iff {inner outer : List Nat} {id : Nat}
    (hpath : timer.openPath = inner ++ id :: outer) (hid : id ≠ 0) :
    timer.Closes (timer.exit (timer.nameOf id) clock).2 clock inner id ↔
      ∀ other ∈ inner, timer.nameOf other ≠ timer.nameOf id := by
  have houter : outer ≠ [] := fun hnil => hid ((outer_eq_nil_iff wf hpath).mp hnil)
  rw [exit_timer]
  constructor
  · intro closes other hother hname
    -- Otherwise the exit stops inside the region, which it leaves open.
    rcases not_open_or_innermost timer (timer.nameOf id) with hnone |
      ⟨inner', id', outer', hpath', hinner', hname'⟩
    · exact hnone id (by rw [hpath]; simp) rfl
    · have hsplit : ∃ between, outer' = between ++ id :: outer := by
        rcases List.append_eq_append_iff.mp (hpath.symm.trans hpath') with
          ⟨rest, hrest, -⟩ | ⟨rest, hrest, hcons⟩
        · rw [hrest] at hinner'
          exact absurd hname (hinner' other (List.mem_append_left _ hother))
        · cases rest with
          | nil =>
            rw [hrest, List.append_nil] at hother
            exact absurd hname (hinner' other hother)
          | cons first between => exact ⟨between, (List.cons.inj hcons).2⟩
      obtain ⟨between, rfl⟩ := hsplit
      rw [tryExit_of_open wf clock hpath' hinner' hname', if_neg (by simp)] at closes
      have hlength : inner'.length + 1 < timer.openPath.length := by
        rw [hpath']
        simp
      have wf' := wf.unwind clock (inner'.length + 1)
      have hopen : id ∈ (timer.unwind clock (inner'.length + 1)).openPath := by
        rw [openPath_unwind wf clock hlength, hpath', List.drop_length_add_append]
        simp
      have hle := le_of_mem_lineage wf' wf'.current_lt hopen
      have hlt := (wf.parent_lt closes.current_eq).1
      exact absurd hle (not_le.mpr hlt)
  · intro hinner
    rw [tryExit_of_open wf clock hpath hinner rfl, if_neg houter]
    exact closes_unwind wf clock hpath hid

/-- **An exit closes nothing exactly if no open region has the name**, but perhaps the top-level
region while it is the innermost one. -/
theorem exit_eq_self_iff (name : String) : (timer.exit name clock).2 = timer ↔
    ∀ id ∈ timer.openPath, timer.nameOf id = name → id = 0 ∧ timer.current = 0 := by
  rw [exit_timer]
  rcases not_open_or_innermost timer name with hnone | ⟨inner, id, outer, hpath, hinner, hname⟩
  · rw [tryExit_of_not_open clock hnone]
    exact ⟨fun _ id hid hname => absurd hname (hnone id hid), fun _ => rfl⟩
  · have hmem : id ∈ timer.openPath := by
      rw [hpath]
      simp
    -- Of the open regions of a path, as many as were left are gone.
    have hunwound : ∀ count < timer.openPath.length, timer.unwind clock count = timer → count = 0 := by
      intro count hcount heq
      have hlength := congrArg List.length (openPath_unwind wf clock hcount)
      rw [heq, List.length_drop] at hlength
      omega
    rw [tryExit_of_open wf clock hpath hinner hname]
    have hlength : timer.openPath.length = inner.length + 1 + outer.length := by
      rw [hpath, List.length_append, List.length_cons]
      omega
    constructor
    · intro heq
      split_ifs at heq with houter
      · have hzero := hunwound inner.length (by omega) heq
        have hid := (outer_eq_nil_iff wf hpath).mp houter
        rw [List.eq_nil_of_length_eq_zero hzero, houter, hid] at hpath
        intro other hother _
        rw [hpath] at hother
        exact ⟨List.mem_singleton.mp hother, current_eq_of_cons wf hpath⟩
      · have hpos := List.length_pos_of_ne_nil houter
        have hzero := hunwound (inner.length + 1) (by omega) heq
        omega
    · intro hall
      obtain ⟨-, hcurrent⟩ := hall id hmem hname
      have htop : timer.openPath = [0] := by
        rw [openPath_eq_lineage, hcurrent, lineage_zero wf]
      rw [htop, List.length_singleton] at hlength
      have hinner' : inner.length = 0 := by omega
      have houter : outer = [] := List.eq_nil_of_length_eq_zero (by omega)
      rw [if_pos houter, hinner']
      rfl

end

end Timer

end Profiler
