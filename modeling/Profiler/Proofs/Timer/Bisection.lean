import Mathlib.Data.List.Basic
import Profiler.Proofs.Timer.Checked

/-!
# The search for a child is a binary search

Among siblings that are sorted by name only one place fits a name: its position is the number of
smaller names, and whether it is taken or vacant is whether a sibling has the name
(`Place.Fits.eq_of_pairwise`). So every search that is right comes to that place.
`Place.bisectAt` is the search that halves the siblings instead of walking along them, and it is
right, too (`Place.fits_bisectAt`). The walk from the cursor of a node is therefore the halving
search, wherever the cursor stands (`Node.place?_pointTo`).
-/

namespace Profiler

namespace Place

/-! ### The one place of a name -/

/-- How many siblings have smaller names. -/
def rank (siblings : List String) (name : String) : Nat := siblings.countP (· < name)

section

variable {siblings smaller larger : List String} {name : String}

theorem rank_append (hsmaller : ∀ sibling ∈ smaller, sibling < name)
    (hlarger : ∀ sibling ∈ larger, name ≤ sibling) :
    rank (smaller ++ larger) name = smaller.length := by
  have hall : smaller.countP (· < name) = smaller.length :=
    List.countP_eq_length.mpr fun sibling h => decide_eq_true (hsmaller sibling h)
  have hnone : larger.countP (· < name) = 0 :=
    List.countP_eq_zero.mpr fun sibling h hlt =>
      not_lt.mpr (hlarger sibling h) (of_decide_eq_true hlt)
  rw [rank, List.countP_append, hall, hnone, Nat.add_zero]

/-- The siblings before one of them are smaller, and those after it are larger. -/
theorem around_of_getElem? (sorted : siblings.Pairwise (· < ·)) {position : Nat} {sibling : String}
    (h : siblings[position]? = some sibling) :
    siblings = siblings.take position ++ sibling :: siblings.drop (position + 1) ∧
      (siblings.take position).length = position ∧
      (∀ other ∈ siblings.take position, other < sibling) ∧
      ∀ other ∈ siblings.drop (position + 1), sibling < other := by
  obtain ⟨hlt, hget⟩ := List.getElem?_eq_some_iff.mp h
  have hsplit : siblings = siblings.take position ++ sibling :: siblings.drop (position + 1) := by
    rw [← hget, ← List.drop_eq_getElem_cons hlt, List.take_append_drop]
  have hpairwise := sorted
  rw [hsplit, List.pairwise_append, List.pairwise_cons] at hpairwise
  obtain ⟨-, ⟨hafter, -⟩, hbefore⟩ := hpairwise
  refine ⟨hsplit, List.length_take_of_le hlt.le, ?_, hafter⟩
  exact fun other hother => hbefore other hother sibling (List.mem_cons_self ..)

/-- **Only one place fits**: the position is the number of smaller names. -/
theorem Fits.eq_of_pairwise {place : Place} (h : Fits siblings name place)
    (sorted : siblings.Pairwise (· < ·)) :
    place = if name ∈ siblings then found (rank siblings name) else vacant (rank siblings name) := by
  cases place with
  | found position =>
    obtain ⟨hsplit, hlength, hbefore, hafter⟩ := around_of_getElem? sorted h
    have hrank : rank siblings name = position := by
      rw [hsplit, rank_append hbefore, hlength]
      exact List.forall_mem_cons.mpr ⟨le_rfl, fun other hother => (hafter other hother).le⟩
    rw [if_pos (List.mem_of_getElem? h), hrank]
  | vacant position =>
    have hnot := h.not_mem
    obtain ⟨smaller, larger, rfl, rfl, hsmaller, hlarger⟩ := h
    rw [if_neg hnot, rank_append hsmaller fun sibling hmem => (hlarger sibling hmem).le]

end

/-! ### The search by halving -/

/-- The place of `name` among the `count` siblings from `first` on, looked for by halving. -/
def bisectAt (nameAt : Nat → Option String) (name : String) (first count : Nat) : Option Place :=
  if _ : count = 0 then some (vacant first)
  else do
    let middle := first + count / 2
    let sibling ← nameAt middle
    if sibling = name then some (found middle)
    else if sibling < name then bisectAt nameAt name (middle + 1) (count - count / 2 - 1)
    else bisectAt nameAt name first (count / 2)
termination_by count
decreasing_by all_goals omega

/-- The search by halving is right if the name is neither before nor after the siblings that are
left. -/
theorem fits_bisectAt (siblings : List String) (name : String) (sorted : siblings.Pairwise (· < ·))
    {first count : Nat} (hcount : first + count ≤ siblings.length)
    (hbefore : ∀ sibling ∈ siblings.take first, sibling < name)
    (hafter : ∀ sibling ∈ siblings.drop (first + count), name < sibling) :
    ∃ place, bisectAt (siblings[·]?) name first count = some place ∧ Fits siblings name place := by
  induction count using Nat.strong_induction_on generalizing first with
  | _ count ih =>
    rw [bisectAt]
    split_ifs with hzero
    · subst hzero
      exact ⟨_, rfl, siblings.take first, siblings.drop first, (List.take_append_drop ..).symm,
        List.length_take_of_le hcount, hbefore, hafter⟩
    · have hmiddle : first + count / 2 < siblings.length := by omega
      have hget := List.getElem?_eq_getElem hmiddle
      obtain ⟨hsplit, hlength, hsmaller, hlarger⟩ := around_of_getElem? sorted hget
      dsimp only
      rw [hget, Option.bind_eq_bind, Option.bind_some]
      generalize siblings[first + count / 2] = sibling at *
      split_ifs with heq hlt
      · exact ⟨_, rfl, by rw [← heq]; exact hget⟩
      · -- The sibling in the middle is too small, and so is every sibling before it.
        refine ih _ (by omega) (by omega) ?_ ?_
        · rw [List.take_add_one, hget]
          intro other hother
          rcases List.mem_append.mp hother with hmem | hmem
          · exact (hsmaller other hmem).trans hlt
          · rw [List.mem_singleton.mp hmem]
            exact hlt
        · rwa [show first + count / 2 + 1 + (count - count / 2 - 1) = first + count by omega]
      · -- It is too large, and so is every sibling after it.
        have hgt : name < sibling := lt_of_le_of_ne (not_lt.mp hlt) (Ne.symm heq)
        refine ih _ (by omega) (by omega) hbefore ?_
        intro other hother
        rw [hsplit, List.drop_append_of_le_length (by omega), List.drop_of_length_le (by omega),
          List.nil_append] at hother
        rcases List.mem_cons.mp hother with rfl | hmem
        · exact hgt
        · exact hgt.trans (hlarger other hmem)

end Place

/-! ### The children of a node -/

namespace Node

/-- The place of the child `name` of a node, looked for from the cursor. The search fails if it asks
for a child that is not there. -/
def place? (node : Node) (timer : Timer) (name : String) : Option Place :=
  Place.locateAt (Timer.Checked.childName timer node.children) node.children.length node.cursor name

/-- The place of the child `name` of a node, looked for by halving. -/
def bisected? (node : Node) (timer : Timer) (name : String) : Option Place :=
  Place.bisectAt (Timer.Checked.childName timer node.children) name 0 node.children.length

section

variable {timer : Timer} {node : Node} (hchildren : ∀ child ∈ node.children, child < timer.nodes.size)
include hchildren

/-- The children of a node have names. -/
theorem childName_eq :
    Timer.Checked.childName timer node.children = ((node.children.map timer.nameOf)[·]?) := by
  funext position
  rw [Timer.Checked.childName, List.getElem?_map]
  cases hchild : node.children[position]? with
  | none => rfl
  | some child => exact Timer.Checked.nameOf_eq (hchildren child (List.mem_of_getElem? hchild))

theorem place?_eq (name : String) : node.place? timer name =
    some (Place.locate (node.children.map timer.nameOf) node.cursor name) := by
  rw [place?, childName_eq hchildren, ← List.length_map timer.nameOf, Place.locateAt_eq]

/-- The names of the children with a new child among them. -/
theorem names_adopt (name : String) (parent position : Nat) :
    (node.adopt position timer.nodes.size).children.map (timer.grow name parent).nameOf =
      (node.children.map timer.nameOf).insertIdx position name := by
  have hold : ∀ child ∈ node.children, (timer.grow name parent).nameOf child = timer.nameOf child := by
    intro child hchild
    rw [Timer.nameOf, Timer.node_grow, if_neg (ne_of_lt (hchildren child hchild)), Timer.nameOf]
  have hnew : (timer.grow name parent).nameOf timer.nodes.size = name := by
    rw [Timer.nameOf, Timer.node_grow, if_pos rfl]
    rfl
  rw [adopt, List.map_insertIdx, hnew, List.map_congr_left hold]

end

/-- **A child is found at the same place from every cursor**, also from one behind the last child:
the search asks for no child that is not there, and comes to the place that the search by halving
comes to. That place is taken exactly if the child there has the name, and vacant exactly if no child
has it; its position is the number of children with smaller names. A new child of the name that is
put there leaves the children sorted. -/
theorem place?_pointTo (timer : Timer) (node : Node) (name : String)
    (hchildren : ∀ child ∈ node.children, child < timer.nodes.size)
    (sorted : (node.children.map timer.nameOf).Pairwise (· < ·)) :
    let names := node.children.map timer.nameOf
    let rank := Place.rank names name
    ∃ place : Place,
      (∀ cursor, (node.pointTo cursor).place? timer name = some place ∧
        Place.locate names cursor name = place) ∧
      node.bisected? timer name = some place ∧
      (∀ position, place = .found position ↔ names[position]? = some name) ∧
      (∀ position, place = .found position → position = rank) ∧
      (∀ position, place = .vacant position ↔ name ∉ names ∧ position = rank) ∧
      (place = .vacant rank → ∀ parent, ((node.adopt rank timer.nodes.size).children.map
        (timer.grow name parent).nameOf).Pairwise (· < ·)) := by
  intro names rank
  have hlocate := fun cursor =>
    (Place.fits_locate names cursor name sorted).eq_of_pairwise sorted
  obtain ⟨place, hbisected, hfits⟩ := Place.fits_bisectAt names name sorted
    (Nat.le_of_eq (Nat.zero_add names.length)) (by simp) (by simp)
  have hplace := hfits.eq_of_pairwise sorted
  refine ⟨place, fun cursor => ?_, ?_, fun position => ?_, fun position => ?_, fun position => ?_, ?_⟩
  · have heq : Place.locate names cursor name = place := (hlocate cursor).trans hplace.symm
    have hchildren' : ∀ child ∈ (node.pointTo cursor).children, child < timer.nodes.size :=
      hchildren
    exact ⟨(place?_eq hchildren' name).trans (congrArg some heq), heq⟩
  · rw [bisected?, childName_eq hchildren, ← hbisected, List.length_map]
  · constructor
    · rintro rfl
      exact hfits
    · intro hget
      have hother : Place.Fits names name (.found position) := hget
      rw [hplace, hother.eq_of_pairwise sorted]
  · rintro rfl
    split_ifs at hplace
    exact Place.found.inj hplace
  · rw [hplace]
    split_ifs with hmem
    · simp [hmem]
    · simp [hmem, eq_comm, rank]
  · rintro rfl parent
    rw [names_adopt hchildren]
    exact hfits.pairwise_insertIdx sorted

/-- A name that belongs between the only two children is put there also from a cursor far behind
them. -/
theorem place?_pointTo_between :
    let timer := ((Timer.ofConfig {} {}).add "b" (.count (.ofNat 1))).add "d" (.count (.ofNat 1))
    let node := timer.node 0
    (∀ child ∈ node.children, child < timer.nodes.size) ∧
      (node.children.map timer.nameOf).Pairwise (· < ·) ∧
      (node.pointTo 7).place? timer "c" = some (.vacant 1) ∧
      node.bisected? timer "c" = some (.vacant 1) := by
  intro timer node
  have hchildren : ∀ child ∈ node.children, child < timer.nodes.size := by decide +kernel
  have sorted : (node.children.map timer.nameOf).Pairwise (· < ·) := by decide +kernel
  obtain ⟨place, hcursor, hbisected, -, -, hvacant, -⟩ :=
    place?_pointTo timer node "c" hchildren sorted
  have hplace : place = .vacant 1 := (hvacant 1).mpr (by decide +kernel)
  rw [hplace] at hcursor hbisected
  exact ⟨hchildren, sorted, (hcursor 7).1, hbisected⟩

end Node

end Profiler
