import Profiler.Proofs.Json.Inversion
import Profiler.Proofs.Totals
import Profiler.Report.Json

/-!
# What the JSON of a report says

A parser gets the whole tree of a report back from its JSON (`Report.parse_json`). What it finds is
said without regard to how objects are written: `Region.IsReadAs` asks for the members of a region's
object by their keys, and `Forest.IsReadAs` follows the nesting of the objects.
-/

namespace Profiler

/-! ### Parsed values -/

namespace Json.Value

/-- The keys of an object. -/
def keys : Value → List String
  | object members => members.map Prod.fst
  | _ => []

/-- The member of an object under a key. -/
def member? (key : String) : Value → Option Value
  | object members => members.lookup key
  | _ => none

/-- The text of a string. -/
def text? : Value → Option String
  | string text => some text
  | _ => none

/-- The whole number that a number without fraction and exponent stands for. -/
def natural? : Value → Option Nat
  | number token => if token.all Char.isDigit then some (Nat.ofDigitChars 10 token 0) else none
  | _ => none

/-- Whether the value is a number, of any form. -/
def isNumber : Value → Bool
  | number _ => true
  | _ => false

mutual

/-- The objects of a tree with their depths, each before the objects in it: the name and the count
that each has. -/
def rows (depth : Nat) : Value → List (Nat × Option String × Option Nat)
  | object members =>
    (depth, (members.lookup "name").bind text?, (members.lookup "count").bind natural?)
      :: memberRows (depth + 1) members
  | _ => []

/-- The objects in the array under `subRegions`. -/
def memberRows (depth : Nat) : List (String × Value) → List (Nat × Option String × Option Nat)
  | [] => []
  | (key, value) :: rest =>
    if key = "subRegions" then value.arrayRows depth else memberRows depth rest

def arrayRows (depth : Nat) : Value → List (Nat × Option String × Option Nat)
  | array items => itemRows depth items
  | _ => []

def itemRows (depth : Nat) : List Value → List (Nat × Option String × Option Nat)
  | [] => []
  | item :: rest => item.rows depth ++ itemRows depth rest

end

end Json.Value

open Json (Value)

/-! ### Regions and their objects -/

/-- The value is an object that tells of a region and of nothing else, with the objects of its
children in order. -/
structure Region.IsReadAs (region : Region) (metrics : Metrics) (children : List Value)
    (value : Value) : Prop where
  nodup_keys : value.keys.Nodup
  keys_subset : value.keys ⊆ ["name", "count", "wall", "cpu", "subRegions"]
  name : value.member? "name" = some (.string region.name)
  count : (value.member? "count").bind Value.natural? = some region.count.val
  wall : (value.member? "wall").map Value.isNumber = if metrics.wall then some true else none
  cpu : (value.member? "cpu").map Value.isNumber = if metrics.cpu then some true else none
  subRegions : value.member? "subRegions" =
    if children = [] then none else some (.array children)

/-- The values are objects that tell of the trees of a forest, in order. -/
def Forest.IsReadAs (metrics : Metrics) : Forest → List Value → Prop
  | nil, values => values = []
  | cons region children siblings, values => ∃ value below later, values = value :: later ∧
      region.IsReadAs metrics below value ∧ children.IsReadAs metrics below ∧
      siblings.IsReadAs metrics later

/-- The value is an object that tells of the tree of a report. -/
def Report.IsReadAs (report : Report) (value : Value) : Prop :=
  ∃ below, report.top.IsReadAs report.metrics below value ∧
    report.children.IsReadAs report.metrics below

/-- The forest with the names and counts of its regions only. -/
def Forest.outline : Forest → Forest
  | nil => nil
  | cons region children siblings => cons region.outline children.outline siblings.outline

/-- The shape, the names and the counts of a report. -/
def Report.outline (report : Report) : Forest :=
  .cons report.top.outline report.children.outline .nil

theorem natural?_digits (n : Nat) : Value.natural? (.number (Decimal.digits n)) = some n := by
  obtain ⟨hdigits, hvalue⟩ := Json.readsAs_digits n
  rw [Value.natural?, if_pos (List.all_eq_true.mpr hdigits.isDigit), hvalue]

theorem areMembersValid_append (members others : List (String × Json)) :
    Json.AreMembersValid (members ++ others) ↔
      Json.AreMembersValid members ∧ Json.AreMembersValid others := by
  induction members with
  | nil => simp [Json.AreMembersValid]
  | cons member members ih => simp [Json.AreMembersValid, ih, and_assoc]

theorem memberValues_append (members others : List (String × Json)) :
    Json.memberValues (members ++ others) =
      Json.memberValues members ++ Json.memberValues others := by
  induction members with
  | nil => rfl
  | cons member members ih => simp [Json.memberValues, ih]

namespace Region

variable (region : Region) (metrics : Metrics)

theorem areMembersValid_jsonMembers : Json.AreMembersValid (region.jsonMembers metrics) := by
  have hwall := Json.isNumber_inJson region.wall
  have hcpu := Json.isNumber_inJson region.cpu
  have hcount := Json.isNumber_digits region.count.val
  cases h : metrics.wall <;> cases h' : metrics.cpu <;>
    simp [jsonMembers, Json.AreMembersValid, Json.IsValid, Json.nat, h, h', hwall, hcpu, hcount]

theorem isValid_toJson {children : List Json} (h : Json.AreValid children) :
    (region.toJson metrics children).IsValid := by
  rw [toJson, Json.IsValid, areMembersValid_append]
  refine ⟨region.areMembersValid_jsonMembers metrics, ?_⟩
  split_ifs
  · trivial
  · exact ⟨h, trivial⟩

/-- **The object of a region tells of it.** -/
theorem isReadAs_toJson (children : List Json) :
    region.IsReadAs metrics (Json.values children) (region.toJson metrics children).value := by
  have hcount := natural?_digits region.count.val
  rw [toJson, Json.value, memberValues_append, jsonMembers]
  cases hwall : metrics.wall <;> cases hcpu : metrics.cpu <;> cases hchildren : children <;>
    constructor <;>
    simp [Json.memberValues, Json.value, Json.values, Json.nat, Value.keys, Value.member?,
      Value.isNumber, List.lookup_cons, hwall, hcpu, hcount]

end Region

theorem areValid_toJson (metrics : Metrics) (forest : Forest) :
    Json.AreValid (forest.toJson metrics) := by
  induction forest with
  | nil => trivial
  | cons region children siblings ihc ihs => exact ⟨region.isValid_toJson metrics ihc, ihs⟩

theorem Forest.isReadAs_toJson (metrics : Metrics) (forest : Forest) :
    forest.IsReadAs metrics (Json.values (forest.toJson metrics)) := by
  induction forest with
  | nil => rfl
  | cons region children siblings ihc ihs =>
    exact ⟨_, _, _, rfl, region.isReadAs_toJson metrics _, ihc, ihs⟩

/-! ### Rows -/

theorem memberRows_eq (depth : Nat) (members : List (String × Value)) :
    Value.memberRows depth members =
      ((members.lookup "subRegions").map (Value.arrayRows depth)).getD [] := by
  induction members with
  | nil => rfl
  | cons member members ih =>
    obtain ⟨key, value⟩ := member
    by_cases hkey : key = "subRegions"
    · subst hkey
      simp [Value.memberRows]
    · rw [Value.memberRows, if_neg hkey, ih, List.lookup_cons, beq_false_of_ne (Ne.symm hkey)]

theorem Region.IsReadAs.rows_eq {region : Region} {metrics : Metrics} {children : List Value}
    {value : Value} (h : region.IsReadAs metrics children value) (depth : Nat) :
    value.rows depth = (depth, some region.name, some region.count.val) ::
      Value.itemRows (depth + 1) children := by
  have hname := h.name
  have hcount := h.count
  have hsub := h.subRegions
  cases value with
  | object members =>
    simp only [Value.member?] at hname hcount hsub
    rw [Value.rows, memberRows_eq, hname, hcount, hsub]
    split_ifs with hnil
    · rw [hnil]
      rfl
    · rfl
  | _ => simp [Value.member?] at hname

theorem Forest.IsReadAs.rows_eq {metrics : Metrics} {forest : Forest} {values : List Value}
    (h : forest.IsReadAs metrics values) (depth : Nat) :
    Value.itemRows depth values = (forest.rows depth).map fun (depth, region) =>
      (depth, some region.name, some region.count.val) := by
  induction forest generalizing values depth with
  | nil => rw [show values = [] from h]; rfl
  | cons region children siblings ihc ihs =>
    obtain ⟨value, below, later, rfl, hregion, hchildren, hsiblings⟩ := h
    rw [Value.itemRows, hregion.rows_eq, ihc hchildren, ihs hsiblings, Forest.rows, List.map_cons,
      List.map_append, List.cons_append]

/-! ### Outlines -/

theorem Region.IsReadAs.outline_eq {region other : Region} {metrics metrics' : Metrics}
    {children children' : List Value} {value : Value} (h : region.IsReadAs metrics children value)
    (h' : other.IsReadAs metrics' children' value) :
    region.outline = other.outline ∧ children = children' := by
  have hname : region.name = other.name := by simpa using h.name.symm.trans h'.name
  have hcount : region.count = other.count := by
    have hval : region.count.val = other.count.val := by simpa using h.count.symm.trans h'.count
    exact Capped.ext hval
  have hsub := h.subRegions.symm.trans h'.subRegions
  refine ⟨by rw [outline, outline, hname, hcount], ?_⟩
  split_ifs at hsub <;> simp_all

theorem Forest.IsReadAs.outline_eq {forest other : Forest} {metrics metrics' : Metrics}
    {values : List Value} (h : forest.IsReadAs metrics values)
    (h' : other.IsReadAs metrics' values) : forest.outline = other.outline := by
  induction forest generalizing other values with
  | nil =>
    cases other with
    | nil => rfl
    | cons region children siblings =>
      obtain ⟨_, _, _, rfl, -⟩ := h'
      exact absurd h (List.cons_ne_nil _ _)
  | cons region children siblings ihc ihs =>
    obtain ⟨value, below, later, rfl, hregion, hchildren, hsiblings⟩ := h
    cases other with
    | nil => exact absurd h' (List.cons_ne_nil _ _)
    | cons region' children' siblings' =>
      obtain ⟨_, below', _, heq, hregion', hchildren', hsiblings'⟩ := h'
      obtain ⟨rfl, rfl⟩ := List.cons.inj heq
      obtain ⟨houtline, rfl⟩ := hregion.outline_eq hregion'
      rw [outline, outline, houtline, ihc hchildren hchildren', ihs hsiblings hsiblings']

/-- **A parser gets the tree of a report back from its JSON**: the text is well formed, its objects
tell of the regions and are nested as these, and list them in the order of the report's rows. So
reports with the same text have the same shape, the same names and the same counts. -/
theorem Report.parse_json (report : Report) :
    ∃ value, Value.parse report.json = some value ∧ report.IsReadAs value ∧
      value.rows 0 = report.rows.map (fun (depth, region) =>
        (depth, some region.name, some region.count.val)) ∧
      ∀ other : Report, other.json = report.json → other.outline = report.outline := by
  have hread : ∀ report : Report, Value.parse report.json = some report.toJson.value ∧
      report.IsReadAs report.toJson.value := fun report =>
    ⟨Json.parse_render (report.top.isValid_toJson _ (areValid_toJson _ _)),
      _, report.top.isReadAs_toJson _ _, report.children.isReadAs_toJson _⟩
  obtain ⟨hparse, below, htop, hchildren⟩ := hread report
  refine ⟨_, hparse, ⟨below, htop, hchildren⟩, ?_, fun other hjson => ?_⟩
  · rw [htop.rows_eq, hchildren.rows_eq]
    rfl
  · obtain ⟨hparse', below', htop', hchildren'⟩ := hread other
    rw [hjson, hparse] at hparse'
    rw [← Option.some.inj hparse'] at htop'
    obtain ⟨houtline, rfl⟩ := htop'.outline_eq htop
    rw [outline, outline, houtline, hchildren'.outline_eq hchildren]

end Profiler
