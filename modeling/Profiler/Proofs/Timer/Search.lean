import Profiler.Proofs.Timer.Checked

/-!
# A lookup and the rows of a report

A lookup keeps the nodes that it has yet to visit on a stack, on which it puts the children of a node
in reverse, so that the first of them is the next to be visited. `Timer.turn` is what it does until
the next node is visited, and `Timer.Ends` says that turn after turn it comes to an end. It always
does, after a turn for each node at most (`Timer.ends_of_search`), and what it finds is the first row
of the name in a report (`Timer.region?_eq_first_row`).
-/

namespace Profiler.Timer

/-! ### The stack of a lookup -/

/-- What a turn of a lookup comes to. -/
inductive Turn where
  /-- The lookup is over. -/
  | over (found : Option Region)
  /-- The lookup goes on with another stack. -/
  | further (stack : List Nat)

/-- One turn of the lookup of `name`: the last node on the stack is taken off and visited. The turn
fails if there is no such node. -/
def turn (timer : Timer) (name : String) (stack : List Nat) : Option Turn :=
  match stack.getLast? with
  | none => some (.over none)
  | some id => do
    let node ← Checked.node timer id
    if node.region.name = name then return .over (some node.region)
    else return .further (stack.dropLast ++ node.children.reverse)

/-- The lookup of `name` ends after a number of turns. -/
inductive Ends (timer : Timer) (name : String) : Nat → List Nat → Option Region → Prop
  | over {stack : List Nat} {found : Option Region}
      (h : timer.turn name stack = some (.over found)) : Ends timer name 1 stack found
  | further {stack next : List Nat} {turns : Nat} {found : Option Region}
      (h : timer.turn name stack = some (.further next)) (rest : Ends timer name turns next found) :
      Ends timer name (turns + 1) stack found

/-- **A lookup that ends with a list of pending nodes ends with a stack of them**, and finds the
same. The first of the pending nodes is the last on the stack. -/
theorem ends_of_search {timer : Timer} {name : String} {fuel : Nat} {pending : List Nat}
    {found : Option Region} (h : Checked.search timer name fuel pending = some found) :
    ∃ turns ≤ fuel + 1, timer.Ends name turns pending.reverse found := by
  induction fuel generalizing pending with
  | zero =>
    cases pending with
    | nil => exact ⟨1, le_rfl, .over (by rw [← Option.some.inj h]; rfl)⟩
    | cons id pending => cases h
  | succ fuel ih =>
    cases pending with
    | nil => exact ⟨1, by omega, .over (by rw [← Option.some.inj h]; rfl)⟩
    | cons id pending =>
      rw [Checked.search, Option.bind_eq_bind, Option.bind_eq_some_iff] at h
      obtain ⟨node, hnode, hrest⟩ := h
      -- The first pending node is the last on the stack, and its children go on top of the others.
      have hturn : timer.turn name (id :: pending).reverse =
          if node.region.name = name then some (.over (some node.region))
          else some (.further (node.children ++ pending).reverse) := by
        rw [turn, List.reverse_cons, List.getLast?_concat, List.dropLast_concat,
          List.reverse_append]
        dsimp only
        rw [hnode]
        rfl
      split_ifs at hrest hturn with hname
      · exact ⟨1, by omega, .over (hturn.trans (congrArg (some ∘ Turn.over) (Option.some.inj hrest)))⟩
      · obtain ⟨turns, hle, hends⟩ := ih hrest
        exact ⟨turns + 1, by omega, .further hturn hends⟩

/-! ### Lookups and rows -/

/-- **A lookup finds the first row of its name.** In every state of every timer it ends by itself,
after a turn for each node and one more at the most, and looks at no node that is not there. What it
finds is the first region of the name when the tree is walked from the top, each region before its
children and siblings in the order of their names. Right after a report this is the first row of the
name in the report, with all that it shows, and nothing is found exactly if no row has the name. -/
theorem region?_eq_first_row (config : Config) (start : Clock) (orders : List (Clock × Order))
    (name : String) :
    let timer := (ofConfig config start).after orders
    (∃ turns ≤ timer.nodes.size + 1, timer.Ends name turns [0] (timer.region? name)) ∧
      timer.region? name =
        (timer.copy.rows.find? fun row => row.2.name = name).map Prod.snd ∧
      (∀ id, (timer.childNames id).Pairwise (· < ·)) ∧
      ∀ clock,
        let (report, after) := timer.report clock
        after.region? name = (report.rows.find? fun row => row.2.name = name).map Prod.snd ∧
          (after.region? name = none ↔ ∀ row ∈ report.rows, row.2.name ≠ name) := by
  intro timer
  have wf : timer.WellFormed := wellFormed_after config start orders
  refine ⟨ends_of_search (Checked.region?_eq wf name), region?_eq_find?_rows wf name, wf.sorted, ?_⟩
  intro clock
  have hfirst := region?_eq_find?_rows (touches_closeOut wf clock).wellFormed name
  refine ⟨hfirst, ?_⟩
  show (timer.closeOut clock).region? name = none ↔ ∀ row ∈ (timer.closeOut clock).copy.rows, _
  rw [hfirst, Option.map_eq_none_iff, List.find?_eq_none]
  exact forall₂_congr fun row _ => by rw [decide_eq_true_iff]

/-- The name is found below the sibling that comes first, not where it is nearest to the top. -/
example :
    let timer := ((((((ofConfig {} {}).enter "b" {}).enter "dup" {}).exit "b" {}).2.enter "a"
      {}).enter "x" {}).add "dup" (.count (.ofNat 7))
    timer.region? "dup" = some { name := "dup", count := .ofNat 7 } := by
  decide +kernel

end Profiler.Timer
