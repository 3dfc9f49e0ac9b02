import Mathlib.Data.List.Forall2
import Profiler.Proofs.Fields
import Profiler.Report.Basic

/-!
# Reports inside later reports

A report embeds in another one if the other has all of its regions in their places, maybe with new
siblings between them, and with totals that are at least as large. `Report.Embeds` says so along the
trees. `Report.byPath` lists the regions with their paths, and an embedding never skips or reorders
anything in that list (`Report.Embeds.byPath`).
-/

namespace Profiler

/-- The later region has the same name, and no total of it is smaller. -/
structure Region.GrowsTo (earlier later : Region) : Prop where
  name_eq : later.name = earlier.name
  wall_le : earlier.wall ≤ later.wall
  cpu_le : earlier.cpu ≤ later.cpu
  count_le : earlier.count ≤ later.count
  reads_le : earlier.reads ≤ later.reads
  writes_le : earlier.writes ≤ later.writes

/-- A region grows if each of its fields does. -/
theorem Region.growsTo_of_fields {earlier later : Region} (hname : later.name = earlier.name)
    (h : ∀ field : Field, field.of earlier.totals ≤ field.of later.totals) :
    earlier.GrowsTo later :=
  ⟨hname, h (.collected .wall), h (.collected .cpu), h .entries, h (.collected .reads),
    h (.collected .writes)⟩

namespace Forest

/-- The trees of the earlier forest are among those of the later one, in the same order. Each has
grown, and the trees below it are among those below it later. -/
inductive Embeds : Forest → Forest → Prop
  | nil (later : Forest) : Embeds .nil later
  | new {earlier siblings : Forest} (region : Region) (children : Forest)
      (h : Embeds earlier siblings) : Embeds earlier (.cons region children siblings)
  | kept {region region' : Region} {children children' siblings siblings' : Forest}
      (hregion : region.GrowsTo region') (hchildren : Embeds children children')
      (hsiblings : Embeds siblings siblings') :
      Embeds (.cons region children siblings) (.cons region' children' siblings')

/-- The regions with their paths, which start with `path`, each before its children. -/
def byPath (path : List String) : Forest → List (List String × Region)
  | nil => []
  | cons region children siblings =>
    (path ++ [region.name], region) ::
      (children.byPath (path ++ [region.name]) ++ siblings.byPath path)

end Forest

/-- The later report has the same top-level region and all regions below it, in their order. -/
structure Report.Embeds (earlier later : Report) : Prop where
  top : earlier.top.GrowsTo later.top
  children : earlier.children.Embeds later.children

/-- The regions of a report with their paths, each before its children. The path of the top-level
region is empty. -/
def Report.byPath (report : Report) : List (List String × Region) :=
  ([], report.top) :: report.children.byPath []

/-- The same path, and a region that has grown. -/
def Continues (earlier later : List String × Region) : Prop :=
  later.1 = earlier.1 ∧ earlier.2.GrowsTo later.2

section

open List

theorem sublistForall₂_append_left {α β : Type} {R : α → β → Prop} {l : List α} {l' : List β}
    (more : List β) (h : SublistForall₂ R l l') : SublistForall₂ R l (more ++ l') := by
  induction more with
  | nil => exact h
  | cons _ more ih => exact .cons_right ih

theorem sublistForall₂_append {α β : Type} {R : α → β → Prop} {l₁ l₂ : List α} {l₁' l₂' : List β}
    (h₁ : SublistForall₂ R l₁ l₁') (h₂ : SublistForall₂ R l₂ l₂') :
    SublistForall₂ R (l₁ ++ l₂) (l₁' ++ l₂') := by
  induction h₁ with
  | nil => exact sublistForall₂_append_left _ h₂
  | cons hab _ ih => exact .cons hab ih
  | cons_right _ ih => exact .cons_right ih

theorem Forest.Embeds.byPath {earlier later : Forest} (h : earlier.Embeds later)
    (path : List String) :
    SublistForall₂ Continues (earlier.byPath path) (later.byPath path) := by
  induction h generalizing path with
  | nil later => exact .nil
  | new region children _ ih =>
    rw [Forest.byPath]
    exact .cons_right (sublistForall₂_append_left _ (ih path))
  | kept hregion _ _ ihchildren ihsiblings =>
    -- The paths of the children start with the name of the region, which it has kept.
    rw [Forest.byPath, Forest.byPath, hregion.name_eq]
    exact .cons ⟨rfl, hregion⟩ (sublistForall₂_append (ihchildren _) (ihsiblings path))

/-- **An embedding keeps every path** in its place among the others, with a region that has grown. -/
theorem Report.Embeds.byPath {earlier later : Report} (h : earlier.Embeds later) :
    SublistForall₂ Continues earlier.byPath later.byPath :=
  .cons ⟨rfl, h.top⟩ (h.children.byPath [])

end

end Profiler
