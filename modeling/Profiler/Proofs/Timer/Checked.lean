import Profiler.Proofs.Timer.Orders
import Profiler.Proofs.Timer.Preorder

/-!
# No number is out of bounds and no walk is cut short

The operations of a timer never look at a node that is not there, and their walks always end by
themselves. To say so, `Checked` has the same operations with every use of a number checked: they
fail at a node or position that is not there, and where a walk has steps left when its fuel is used
up. On a well-formed timer they never fail, and do what the operations do (`Checked.follow_eq`,
`Checked.region?_eq`).
-/

namespace Profiler.Timer.Checked

/-! ### Nodes and children -/

/-- The node with a number. -/
def node (timer : Timer) (id : Nat) : Option Node := timer.nodes[id]?

/-- The timer with one node changed. -/
def modifyNode (timer : Timer) (id : Nat) (f : Node → Node) : Option Timer := do
  let _ ← node timer id
  return timer.modifyNode id f

def nameOf (timer : Timer) (id : Nat) : Option String := do
  return (← node timer id).region.name

/-- The name of the child at a position. -/
def childName (timer : Timer) (children : List Nat) (position : Nat) : Option String := do
  nameOf timer (← children[position]?)

/-- Puts a child at a position, at most behind the last one. -/
def insertChild (timer : Timer) (parent position child : Nat) : Option Timer := do
  let node ← node timer parent
  if position ≤ node.children.length then modifyNode timer parent (·.adopt position child)
  else none

/-- Moves the cursor to a position and answers the child there. -/
def selectChild (timer : Timer) (parent position : Nat) : Option (Nat × Timer) := do
  let node ← node timer parent
  let child ← node.children[position]?
  return (child, ← modifyNode timer parent (·.pointTo position))

def locateChild (timer : Timer) (parent : Nat) (name : String) : Option (Nat × Timer) := do
  let node ← node timer parent
  let place ← Place.locateAt (childName timer node.children) node.children.length node.cursor name
  match place with
  | .found position => selectChild timer parent position
  | .vacant position =>
    let inserted ← insertChild (timer.grow name parent) parent position timer.nodes.size
    selectChild inserted parent position

/-! ### Operations -/

def openNode (timer : Timer) (id : Nat) (clock : Clock) : Option Timer :=
  modifyNode timer id fun node => node.opened timer.metrics (timer.reading clock)

def closeNode (timer : Timer) (id : Nat) (clock : Clock) : Option Timer :=
  modifyNode timer id fun node => node.closed (timer.reading clock)

def ofConfig (config : Config) (clock : Clock) : Option Timer :=
  openNode ⟨config.metrics, config.scope, #[Node.fresh config.name none], 0⟩ 0 clock

def enter (timer : Timer) (name : String) (clock : Clock) : Option Timer := do
  let (child, located) ← locateChild timer timer.current name
  openNode (located.goTo child) child clock

def leave (timer : Timer) (clock : Clock) : Option Timer := do
  match (← node timer timer.current).parent? with
  | none => return timer
  | some parent => return (← closeNode timer timer.current clock).goTo parent

/-- The nodes from `id` up to the top-level region, if there are at most `fuel` of them. -/
def climb (timer : Timer) : Nat → Nat → Option (List Nat)
  | 0, _ => none
  | fuel + 1, id => do
    match (← node timer id).parent? with
    | none => return [id]
    | some parent => return id :: (← climb timer fuel parent)

/-- Leaves regions until the current one is called `name`, in at most `fuel` comparisons. -/
def leaveUntil (name : String) (clock : Clock) : Nat → Timer → Option Timer
  | 0, _ => none
  | fuel + 1, timer => do
    if (← nameOf timer timer.current) = name then return timer
    else leaveUntil name clock fuel (← leave timer clock)

def tryExit (timer : Timer) (name : String) (clock : Clock) : Option Outcome := do
  let innermost ← nameOf timer timer.current
  let openNames ← (← climb timer timer.nodes.size timer.current).mapM (nameOf timer)
  if name ∈ openNames then
    let events := if innermost = name then [] else [.closingNested name innermost]
    let unwound ← leaveUntil name clock timer.nodes.size timer
    let current ← node unwound unwound.current
    if current.parent?.isNone then
      return ⟨.error (.atTopLevel current.region.name), events, unwound⟩
    else return ⟨.ok (), events, ← leave unwound clock⟩
  else return ⟨.error (.regionNotOpen name innermost), [], timer⟩

def exit (timer : Timer) (name : String) (clock : Clock) : Option (List Event × Timer) := do
  let outcome ← tryExit timer name clock
  match outcome.result with
  | .ok () => return (outcome.events, outcome.timer)
  | .error fault => return (outcome.events ++ [exitEvent name fault], outcome.timer)

def tryChange (timer : Timer) (name : String) (clock : Clock) : Option Outcome := do
  let current ← node timer timer.current
  match current.parent? with
  | none => return ⟨.error (.atTopLevel current.region.name), [], timer⟩
  | some parent =>
    let closed ← closeNode timer timer.current clock
    let (sibling, located) ← locateChild closed parent name
    return ⟨.ok (), [], ← openNode (located.goTo sibling) sibling clock⟩

def change (timer : Timer) (name : String) (clock : Clock) : Option (List Event × Timer) := do
  let outcome ← tryChange timer name clock
  match outcome.result with
  | .ok () => return (outcome.events, outcome.timer)
  | .error fault => return (outcome.events ++ [.changeIgnored name fault], outcome.timer)

def add (timer : Timer) (name : String) (addition : Addition) : Option Timer := do
  if timer.metrics.accepts addition then
    let (child, located) ← locateChild timer timer.current name
    modifyNode located child fun node => { node with region := node.region.add addition }
  else return timer

/-- The trees below the nodes `ids`, if they have fewer than `fuel` levels. -/
def forest (timer : Timer) : Nat → List Nat → Option Forest
  | 0, _ => none
  | fuel + 1, ids =>
    ids.foldr (fun id later => do
      let node ← node timer id
      let children ← forest timer fuel node.children
      return .cons node.region children (← later)) (some .nil)

def copy (timer : Timer) : Option Report := do
  let top ← node timer 0
  let children ← forest timer timer.nodes.size top.children
  return { metrics := timer.metrics, top := top.region, children }

def report (timer : Timer) (clock : Clock) : Option (Report × Timer) := do
  let current ← closeNode timer 0 clock
  return (← copy current, current)

/-- The first region called `name` among the pending nodes and those below them, if at most `fuel`
nodes have to be visited. -/
def search (timer : Timer) (name : String) : Nat → List Nat → Option (Option Region)
  | _, [] => some none
  | 0, _ :: _ => none
  | fuel + 1, id :: pending => do
    let node ← node timer id
    if node.region.name = name then return some node.region
    else search timer name fuel (node.children ++ pending)

def region? (timer : Timer) (name : String) : Option (Option Region) :=
  search timer name timer.nodes.size [0]

def follow (timer : Timer) (clock : Clock) : Order → Option (Order.Reply × Timer)
  | .enter name => do return ({}, ← enter timer name clock)
  | .exit name => do
    let (events, after) ← exit timer name clock
    return ({ events }, after)
  | .tryExit name => do
    let outcome ← tryExit timer name clock
    return ({ result := outcome.result, events := outcome.events }, outcome.timer)
  | .change name => do
    let (events, after) ← change timer name clock
    return ({ events }, after)
  | .tryChange name => do
    let outcome ← tryChange timer name clock
    return ({ result := outcome.result, events := outcome.events }, outcome.timer)
  | .add name addition => do return ({}, ← add timer name addition)
  | .report => do
    let (report, after) ← report timer clock
    return ({ report? := some report }, after)

/-! ### Nodes and children are there -/

section

variable {timer : Timer}

theorem node_eq {id : Nat} (h : id < timer.nodes.size) : node timer id = some (timer.node id) := by
  rw [node, Timer.node, Array.getD_eq_getD_getElem?, Array.getElem?_eq_getElem h, Option.getD_some]

theorem modifyNode_eq {id : Nat} (h : id < timer.nodes.size) (f : Node → Node) :
    modifyNode timer id f = some (timer.modifyNode id f) := by
  rw [modifyNode, node_eq h]
  rfl

theorem openNode_eq {id : Nat} (h : id < timer.nodes.size) (clock : Clock) :
    openNode timer id clock = some (timer.openNode id clock) :=
  modifyNode_eq h _

theorem openNode_goTo_eq {id : Nat} (h : id < timer.nodes.size) (clock : Clock) :
    openNode (timer.goTo id) id clock = some ((timer.goTo id).openNode id clock) :=
  openNode_eq (show id < (timer.goTo id).nodes.size from h) clock

theorem closeNode_eq {id : Nat} (h : id < timer.nodes.size) (clock : Clock) :
    closeNode timer id clock = some (timer.closeNode id clock) :=
  modifyNode_eq h _

theorem nameOf_eq {id : Nat} (h : id < timer.nodes.size) :
    nameOf timer id = some (timer.nameOf id) := by
  rw [nameOf, node_eq h]
  rfl

theorem selectChild_eq {parent position child : Nat} (hparent : parent < timer.nodes.size)
    (hchild : (timer.node parent).children[position]? = some child) :
    selectChild timer parent position =
      some (child, timer.modifyNode parent (·.pointTo position)) := by
  rw [selectChild, node_eq hparent]
  simp only [Option.bind_eq_bind, Option.bind_some]
  rw [hchild, modifyNode_eq hparent]
  rfl

variable (wf : timer.WellFormed)
include wf

theorem childName_eq (parent : Nat) :
    childName timer (timer.node parent).children = ((timer.childNames parent)[·]?) := by
  funext position
  rw [childName, childNames, List.getElem?_map]
  cases hchild : (timer.node parent).children[position]? with
  | none => rfl
  | some child => exact nameOf_eq (wf.lt_of_mem_children (List.mem_of_getElem? hchild)).2

/-- **A child is found or created without a slip**: the search stays among the siblings, the new
child goes behind the last one at most, and there is a child at the cursor. -/
theorem locateChild_eq {parent : Nat} (hparent : parent < timer.nodes.size) (name : String) :
    locateChild timer parent name = some (timer.locateChild parent name) := by
  have hplace : Place.locateAt (childName timer (timer.node parent).children)
      (timer.node parent).children.length (timer.node parent).cursor name =
      some (Place.locate (timer.childNames parent) (timer.node parent).cursor name) := by
    have hlength : (timer.node parent).children.length = (timer.childNames parent).length := by
      rw [childNames, List.length_map]
    rw [childName_eq wf, hlength, Place.locateAt_eq]
  have hfits := Place.fits_locate (timer.childNames parent) (timer.node parent).cursor name
    (wf.sorted parent)
  rw [locateChild, node_eq hparent]
  simp only [Option.bind_eq_bind, Option.bind_some]
  rw [hplace, Timer.locateChild]
  simp only [Option.bind_some]
  cases hlocate : Place.locate (timer.childNames parent) (timer.node parent).cursor name with
  | found position =>
    rw [hlocate] at hfits
    have hget : ((timer.node parent).children.map timer.nameOf)[position]? = some name := hfits
    rw [List.getElem?_map, Option.map_eq_some_iff] at hget
    obtain ⟨child, hchild, -⟩ := hget
    dsimp only
    rw [selectChild_eq hparent hchild, List.getD_eq_getElem?_getD, hchild, Option.getD_some]
  | vacant position =>
    rw [hlocate] at hfits
    have hposition : position ≤ (timer.node parent).children.length := by
      have := hfits.position_le
      rwa [childNames, List.length_map] at this
    have hnode : (timer.grow name parent).node parent = timer.node parent := by
      rw [node_grow, if_neg (ne_of_lt hparent)]
    have hgrown : parent < (timer.grow name parent).nodes.size := by
      rw [size_grow]
      exact Nat.lt_succ_of_lt hparent
    have hinsert : insertChild (timer.grow name parent) parent position timer.nodes.size =
        some ((timer.grow name parent).modifyNode parent (·.adopt position timer.nodes.size)) := by
      rw [insertChild, node_eq hgrown]
      simp only [Option.bind_eq_bind, Option.bind_some]
      rw [hnode, if_pos hposition, modifyNode_eq hgrown]
    have hchild : (((timer.grow name parent).modifyNode parent
        (·.adopt position timer.nodes.size)).node parent).children[position]? =
        some timer.nodes.size := by
      rw [node_modifyNode_self _ _ hgrown, hnode]
      show ((timer.node parent).children.insertIdx position timer.nodes.size)[position]? = _
      rw [List.getElem?_insertIdx_self, if_pos hposition]
    dsimp only
    rw [hinsert]
    simp only [Option.bind_some]
    rw [selectChild_eq (by rwa [size_modifyNode]) hchild, modifyNode_modifyNode]
    rfl

/-! ### Operations do what they do -/

theorem enter_eq (name : String) (clock : Clock) :
    enter timer name clock = some (timer.enter name clock) := by
  have h := located_locateChild wf wf.current_lt name
  rw [enter, locateChild_eq wf wf.current_lt, Timer.enter]
  simp only [Option.bind_eq_bind, Option.bind_some]
  exact openNode_goTo_eq h.child_lt clock

theorem leave_eq (clock : Clock) : leave timer clock = some (timer.leave clock) := by
  rw [leave, node_eq wf.current_lt, Timer.leave]
  simp only [Option.bind_eq_bind, Option.bind_some]
  cases (timer.node timer.current).parent? with
  | none => rfl
  | some parent =>
    dsimp only
    rw [closeNode_eq wf.current_lt]
    rfl

/-- The walk up ends by itself. -/
theorem climb_eq {fuel id : Nat} (hid : id < timer.nodes.size) (hfuel : id < fuel) :
    climb timer fuel id = some (timer.climb fuel id) := by
  induction fuel generalizing id with
  | zero => exact absurd hfuel (Nat.not_lt_zero id)
  | succ fuel ih =>
    rw [climb, node_eq hid, Timer.climb]
    simp only [Option.bind_eq_bind, Option.bind_some]
    cases hparent : (timer.node id).parent? with
    | none => rfl
    | some parent =>
      have hlt := (wf.parent_lt hparent).1
      dsimp only
      rw [ih (hlt.trans hid) (by omega)]
      rfl

omit wf in
theorem mapM_nameOf_eq {ids : List Nat} (h : ∀ id ∈ ids, id < timer.nodes.size) :
    ids.mapM (nameOf timer) = some (ids.map timer.nameOf) := by
  induction ids with
  | nil => rfl
  | cons id ids ih =>
    rw [List.mapM_cons, nameOf_eq (h id (List.mem_cons_self ..)),
      ih fun other hother => h other (List.mem_cons_of_mem _ hother)]
    rfl

/-- Leaving regions until one is called `name` ends by itself, if an open region is. -/
theorem leaveUntil_eq {name : String} (clock : Clock) {inner outer : List Nat} {id fuel : Nat}
    (hpath : timer.openPath = inner ++ id :: outer)
    (hinner : ∀ other ∈ inner, timer.nameOf other ≠ name) (hname : timer.nameOf id = name)
    (hfuel : inner.length < fuel) :
    leaveUntil name clock fuel timer = some (timer.unwind clock inner.length) := by
  induction inner generalizing timer fuel with
  | nil =>
    have hcurrent := current_eq_of_cons wf hpath
    obtain ⟨fuel, rfl⟩ := Nat.exists_eq_succ_of_ne_zero (Nat.ne_zero_of_lt hfuel)
    rw [leaveUntil, nameOf_eq wf.current_lt, hcurrent]
    simp only [Option.bind_eq_bind, Option.bind_some]
    rw [if_pos hname]
    rfl
  | cons other inner ih =>
    have hcurrent := current_eq_of_cons wf hpath
    have hne := List.forall_mem_cons.mp hinner
    obtain ⟨fuel, rfl⟩ := Nat.exists_eq_succ_of_ne_zero (Nat.ne_zero_of_lt hfuel)
    have hleft := openPath_leave wf clock (by simp) hpath
    have hnames := (timer.sameTree_leave clock).nameOf_eq
    rw [leaveUntil, nameOf_eq wf.current_lt, hcurrent]
    simp only [Option.bind_eq_bind, Option.bind_some]
    rw [if_neg hne.1, leave_eq wf]
    simp only [Option.bind_some]
    exact ih (wf.leave clock) hleft (fun id hid => by rw [hnames]; exact hne.2 id hid)
      (by rw [hnames]; exact hname) (by simpa using hfuel)

theorem tryExit_eq (name : String) (clock : Clock) :
    tryExit timer name clock = some (timer.tryExit name clock) := by
  have hopen : timer.openPath.mapM (nameOf timer) = some (timer.openPath.map timer.nameOf) :=
    mapM_nameOf_eq fun id hid => lt_of_mem_openPath wf hid
  have hclimb : climb timer timer.nodes.size timer.current = some timer.openPath :=
    climb_eq wf wf.current_lt wf.current_lt
  rw [tryExit, nameOf_eq wf.current_lt, hclimb]
  simp only [Option.bind_eq_bind, Option.bind_some]
  rw [hopen]
  simp only [Option.bind_some]
  rcases not_open_or_innermost timer name with hnone |
    ⟨inner, id, outer, hpath, hinner, hname⟩
  · have hmem : name ∉ timer.openPath.map timer.nameOf := by
      rw [List.mem_map]
      rintro ⟨id, hid, heq⟩
      exact hnone id hid heq
    rw [if_neg hmem, tryExit_of_not_open clock hnone]
    rfl
  · have hmem : name ∈ timer.openPath.map timer.nameOf :=
      List.mem_map.mpr ⟨id, by rw [hpath]; simp, hname⟩
    have hfuel : inner.length < timer.nodes.size := by
      have hle : timer.openPath.length ≤ timer.current + 1 := length_lineage_le wf wf.current_lt
      have hlt := wf.current_lt
      rw [hpath, List.length_append, List.length_cons] at hle
      omega
    have wf' := wf.unwind clock inner.length
    have htop := isAtTop_unwind_inner wf clock hpath
    rw [if_pos hmem, leaveUntil_eq wf clock hpath hinner hname hfuel,
      tryExit_of_open wf clock hpath hinner hname]
    simp only [Option.bind_some]
    rw [node_eq wf'.current_lt]
    simp only [Option.bind_some]
    have hregion : ((timer.unwind clock inner.length).node
        (timer.unwind clock inner.length).current).region.name = name := by
      have hid : id < timer.nodes.size := lt_of_mem_openPath wf (by rw [hpath]; simp)
      rw [current_unwind_inner wf clock hpath]
      exact ((extends_unwind wf clock inner.length).nameOf_eq id hid).trans hname
    have hevents : (if timer.nameOf timer.current = name then []
        else [Event.closingNested name (timer.nameOf timer.current)]) =
        timer.closingEvents name inner := by
      cases inner with
      | nil => rw [current_eq_of_cons wf hpath, if_pos hname]; rfl
      | cons other inner =>
        have hother := hinner other (List.mem_cons_self ..)
        rw [← current_eq_of_cons wf hpath] at hother
        rw [if_neg hother]
        rfl
    rw [hevents, hregion]
    split_ifs with houter hnil hnil
    · rfl
    · exact absurd (htop.mp houter) hnil
    · exact absurd (htop.mpr hnil) houter
    · rw [leave_eq wf', leave_unwind]
      rfl

theorem exit_eq (name : String) (clock : Clock) :
    exit timer name clock = some (timer.exit name clock) := by
  rw [exit, tryExit_eq wf, Timer.exit]
  simp only [Option.bind_eq_bind, Option.bind_some]
  cases (timer.tryExit name clock).result <;> rfl

theorem tryChange_eq (name : String) (clock : Clock) :
    tryChange timer name clock = some (timer.tryChange name clock) := by
  rw [tryChange, node_eq wf.current_lt, Timer.tryChange]
  simp only [Option.bind_eq_bind, Option.bind_some]
  cases hparent : (timer.node timer.current).parent? with
  | none => rfl
  | some parent =>
    have wf' := wf.closeNode timer.current clock
    have hlt : parent < (timer.closeNode timer.current clock).nodes.size := by
      rw [Timer.closeNode, size_modifyNode]
      exact (wf.parent_lt hparent).1.trans wf.current_lt
    have h := located_locateChild wf' hlt name
    dsimp only
    rw [closeNode_eq wf.current_lt]
    simp only [Option.bind_some]
    rw [locateChild_eq wf' hlt]
    simp only [Option.bind_some]
    rw [openNode_goTo_eq h.child_lt]
    rfl

theorem change_eq (name : String) (clock : Clock) :
    change timer name clock = some (timer.change name clock) := by
  rw [change, tryChange_eq wf, Timer.change]
  simp only [Option.bind_eq_bind, Option.bind_some]
  cases (timer.tryChange name clock).result <;> rfl

theorem add_eq (name : String) (addition : Addition) :
    add timer name addition = some (timer.add name addition) := by
  have h := located_locateChild wf wf.current_lt name
  rw [add, Timer.add, locateChild_eq wf wf.current_lt]
  simp only [Option.bind_eq_bind, Option.bind_some]
  split_ifs
  · exact modifyNode_eq h.child_lt _
  · rfl

/-- The copying of the tree ends by itself. -/
theorem forest_eq {fuel : Nat} {ids : List Nat} (h : timer.Uncut fuel ids) :
    forest timer (fuel + 1) ids = some (timer.forest (fuel + 1) ids) := by
  induction fuel generalizing ids with
  | zero =>
    cases ids with
    | nil => rfl
    | cons id ids =>
      have := h id (List.mem_cons_self ..)
      omega
  | succ fuel ih =>
    rw [forest, Timer.forest]
    induction ids with
    | nil => rfl
    | cons id ids ihids =>
      have hid := h id (List.mem_cons_self ..)
      rw [List.foldr_cons, List.foldr_cons, ihids fun other hother =>
        h other (List.mem_cons_of_mem _ hother), node_eq hid.1]
      simp only [Option.bind_eq_bind, Option.bind_some]
      rw [ih (Uncut.children wf h (List.mem_cons_self ..))]
      rfl

theorem copy_eq : copy timer = some timer.copy := by
  obtain ⟨size, hsize⟩ := Nat.exists_eq_succ_of_ne_zero wf.size_pos.ne'
  have huncut := uncut_top wf
  rw [hsize] at huncut
  have hchildren := forest_eq wf (Uncut.children wf huncut (List.mem_singleton_self 0))
  rw [copy, node_eq wf.size_pos, Timer.copy, hsize]
  simp only [Option.bind_eq_bind, Option.bind_some]
  rw [hchildren]
  rfl

theorem report_eq (clock : Clock) : report timer clock = some (timer.report clock) := by
  have hcopy := copy_eq (wf.closeNode 0 clock)
  rw [report, closeNode_eq wf.size_pos]
  simp only [Option.bind_eq_bind, Option.bind_some]
  rw [hcopy]
  rfl

/-- The search for a name ends by itself: it visits no more than the pending nodes and those below
them. -/
theorem search_eq (name : String) {fuel : Nat} {pending : List Nat}
    (h : ∀ id ∈ pending, id < timer.nodes.size)
    (hfuel : (timer.below timer.nodes.size pending).length ≤ fuel) :
    search timer name fuel pending = some (timer.search name fuel pending) := by
  induction fuel generalizing pending with
  | zero =>
    cases pending with
    | nil => rfl
    | cons id pending =>
      rw [below_cons wf (h id (List.mem_cons_self ..)), List.length_cons] at hfuel
      omega
  | succ fuel ih =>
    cases pending with
    | nil => rfl
    | cons id pending =>
      have hid := List.forall_mem_cons.mp h
      rw [below_cons wf hid.1, List.length_cons] at hfuel
      rw [search, node_eq hid.1, Timer.search, Timer.nameOf]
      simp only [Option.bind_eq_bind, Option.bind_some]
      split_ifs
      · rfl
      · refine ih ?_ (by omega)
        intro other hother
        rcases List.mem_append.mp hother with hchild | hmem
        · exact (wf.lt_of_mem_children hchild).2
        · exact hid.2 other hmem

/-- **Looking a name up ends by itself** and looks at no node that is not there. -/
theorem region?_eq (name : String) : region? timer name = some (timer.region? name) := by
  refine search_eq wf name ?_ ?_
  · intro id hid
    rw [List.mem_singleton.mp hid]
    exact wf.size_pos
  · have hlength := (preorder_perm wf).length_eq
    rw [List.length_range] at hlength
    exact hlength.le

/-- **No order makes a timer slip**: every order looks only at nodes and children that are there,
and its walks end by themselves. -/
theorem follow_eq (clock : Clock) (order : Order) :
    follow timer clock order = some (timer.follow clock order) := by
  cases order with
  | enter name => rw [follow, enter_eq wf]; rfl
  | exit name => rw [follow, exit_eq wf]; rfl
  | tryExit name => rw [follow, tryExit_eq wf]; rfl
  | change name => rw [follow, change_eq wf]; rfl
  | tryChange name => rw [follow, tryChange_eq wf]; rfl
  | add name addition => rw [follow, add_eq wf]; rfl
  | report => rw [follow, report_eq wf]; rfl

end

end Profiler.Timer.Checked
