import Mathlib.Algebra.BigOperators.Group.List.Lemmas
import Mathlib.Algebra.GroupWithZero.Nat
import Mathlib.Order.Bounds.Basic
import Profiler.Proofs.Json.Numbers
import Profiler.Report.Write

/-!
# Tables are aligned and complete

`Grid.Shows` says what it means for a line to show a label and a cell in each column of a grid: the
label stands at the start, each cell is at the end of the place that the grid keeps for it, and
nothing is cut. `Report.shows_lines` proves it of every line of every report's table, and that the
cells of a region tell its numbers (`Region.IsToldBy`). It rests on three facts: the grid is as wide
as the longest label (`Report.isGreatest_label`), each of its columns is as wide as the widest of
its cells (`Report.isGreatest_width`), and what cells hold is `Plain`, so that its width is the same
in bytes and in characters.
-/

namespace Profiler

/-! ### Plain text -/

/-- Text of ASCII characters that does not begin with a blank. -/
structure Plain (text : List Char) : Prop where
  ascii : ∀ c ∈ text, c.toNat < 128
  head?_ne : text.head? ≠ some ' '

namespace Plain

/-- The length of plain text is the same in bytes and in characters. -/
theorem length_utf8 {text : List Char} (h : Plain text) : (utf8 text).length = text.length := by
  have hone : ∀ c ∈ text, (String.utf8EncodeChar c).length = 1 := by
    intro c hc
    have hlt : c.toNat < 128 := h.ascii c hc
    have hle : c.val ≤ 127 := UInt32.le_iff_toNat_le.mpr (Nat.le_of_lt_succ hlt)
    exact (String.length_utf8EncodeChar c).trans (if_pos hle)
  rw [utf8, List.length_flatMap, List.map_congr_left hone]
  simp

/-- Blanks in front of plain text come off without a loss. -/
theorem dropWhile_replicate {text : List Char} (h : Plain text) (n : Nat) :
    (List.replicate n ' ' ++ text).dropWhile (· = ' ') = text := by
  have hblank : ∀ c ∈ List.replicate n ' ', decide (c = ' ') = true := by
    intro c hc
    rw [List.eq_of_mem_replicate hc]
    rfl
  rw [List.dropWhile_append_of_pos hblank]
  cases text with
  | nil => rfl
  | cons c text =>
    have hc : ¬c = ' ' := fun heq => h.head?_ne (by rw [heq]; rfl)
    rw [List.dropWhile_cons, if_neg (by simpa using hc)]

/-- Digits and points are plain. -/
theorem of_digits {text : List Char} (h : ∀ c ∈ text, c.isDigit = true ∨ c = '.') : Plain text where
  ascii c hc := by
    rcases h c hc with hdigit | rfl
    · have hle : c.toNat ≤ 57 := (Char.isDigit_iff_toNat.mp hdigit).2
      omega
    · decide
  head?_ne hhead := by
    rcases h ' ' (List.mem_of_mem_head? hhead) with hdigit | hpoint
    · exact absurd hdigit (by decide)
    · exact absurd hpoint (by decide)

end Plain

/-! ### Numbers in cells -/

namespace Decimal

/-- The text is a decimal with a number of places, which stands for `n` units of the last of them. -/
inductive IsDecimal (places n : Nat) : List Char → Prop
  | intro {whole fraction : List Char} (hwhole : Json.IsDigits whole)
      (hfraction : Json.IsDigits fraction) (hlength : fraction.length = places)
      (hreads : Json.ReadsAs (whole ++ fraction) n) : IsDecimal places n (whole ++ '.' :: fraction)

/-- The text is a decimal with a number of places that is off `x` by half a unit of the last of them
at most. -/
def IsRounded (places : Nat) (x : Binary) (text : List Char) : Prop :=
  ∃ n, IsDecimal places n text ∧
    2 * (n * x.den) ≤ 2 * (x.num * 10 ^ places) + x.den ∧
    2 * (x.num * 10 ^ places) ≤ 2 * (n * x.den) + x.den

theorem IsDecimal.plain {places n : Nat} {text : List Char} (h : IsDecimal places n text) :
    Plain text := by
  cases h with
  | intro hwhole hfraction _ _ =>
    refine .of_digits fun c hc => ?_
    rcases List.mem_append.mp hc with hc | hc
    · exact .inl (hwhole.isDigit c hc)
    · rcases List.mem_cons.mp hc with rfl | hc
      · exact .inr rfl
      · exact .inl (hfraction.isDigit c hc)

theorem IsRounded.plain {places : Nat} {x : Binary} {text : List Char}
    (h : IsRounded places x text) : Plain text := by
  obtain ⟨n, hdecimal, -⟩ := h
  exact hdecimal.plain

theorem isRounded_fixed {places : Nat} (hplaces : 0 < places) (x : Binary) :
    IsRounded places x (fixed places x) := by
  have hden : 0 < x.den := Nat.two_pow_pos _
  set n := nearest (x.num * 10 ^ places) x.den
  have hdecimal : IsDecimal places n (fixed places x) := by
    obtain ⟨whole, fraction, heq, hpadded, hwhole, hfraction, hlength⟩ :=
      Json.exists_positional (Json.isDigits_digits n) [] hplaces
    have hreads : Json.ReadsAs (whole ++ fraction) n := by
      rw [hpadded]
      exact (Json.readsAs_digits n).leftpad _
    have hfixed : fixed places x = whole ++ '.' :: fraction := heq
    rw [hfixed]
    exact .intro hwhole hfraction hlength hreads
  exact ⟨n, hdecimal, nearest_mul_le _ _, le_nearest_mul _ hden⟩

end Decimal

/-- What the numbers of a region can be read from: the counts and the blocks as they are, the times
in seconds with two places. -/
structure Region.IsToldBy (region : Region) (cell : Column → List Char) : Prop where
  cpu : Decimal.IsRounded 2 region.cpu.toSeconds (cell .cpu)
  wall : Decimal.IsRounded 2 region.wall.toSeconds (cell .wall)
  reads : Json.ReadsAs (cell .reads) region.reads.val
  writes : Json.ReadsAs (cell .writes) region.writes.val
  count : Json.ReadsAs (cell .count) region.count.val

theorem Region.isToldBy_cell (region : Region) :
    region.IsToldBy fun column => column.cell region where
  cpu := Decimal.isRounded_fixed Nat.two_pos _
  wall := Decimal.isRounded_fixed Nat.two_pos _
  reads := Json.readsAs_digits _
  writes := Json.readsAs_digits _
  count := Json.readsAs_digits _

namespace Column

theorem plain_header (column : Column) : Plain column.header := by
  have hascii : column.header.all (·.toNat < 128) = true := by cases column <;> rfl
  refine ⟨fun c hc => of_decide_eq_true (List.all_eq_true.mp hascii c hc), ?_⟩
  cases column <;> decide

theorem plain_cell (column : Column) (region : Region) : Plain (column.cell region) := by
  have htold := region.isToldBy_cell
  have hplain : ∀ {text n}, Json.ReadsAs text n → Plain text := fun h =>
    .of_digits fun c hc => .inl (h.isDigits.isDigit c hc)
  cases column with
  | cpu => exact htold.cpu.plain
  | wall => exact htold.wall.plain
  | reads => exact hplain htold.reads
  | writes => exact hplain htold.writes
  | count => exact hplain htold.count

end Column

/-! ### The widest of several -/

/-- A maximum that is taken along a list is the greatest of the numbers it is taken of. -/
theorem isGreatest_foldr_max {α : Type} (l : List α) (f : α → Nat) (least : Nat) :
    IsGreatest {n | n = least ∨ ∃ a ∈ l, n = f a} (l.foldr (fun a n => max (f a) n) least) := by
  induction l with
  | nil => simp
  | cons a l ih =>
    have hset : {n | n = least ∨ ∃ b ∈ a :: l, n = f b} =
        insert (f a) {n | n = least ∨ ∃ b ∈ l, n = f b} := by
      ext n
      simp only [List.mem_cons, exists_eq_or_imp, Set.mem_ofPred_eq, Set.mem_insert_iff]
      tauto
    rw [hset]
    exact ih.insert (f a)

/-! ### Lines of a grid -/

namespace Grid

/-- The place that a grid keeps for a column: a blank and the cell. -/
def place (cell : Column → List Char) (column : Column × Nat) : List Char :=
  ' ' :: List.leftpad column.2 ' ' (cell column.1)

/-- How long the lines of a grid are. -/
def length (grid : Grid) : Nat := grid.label + (grid.columns.map fun column => 1 + column.2).sum

/-- How many characters of a line stand before the place of the `i`-th column. -/
def before (grid : Grid) (i : Nat) : Nat :=
  grid.label + ((grid.columns.map fun column => 1 + column.2).take i).sum

/-- The text has the length of a line and starts with the label. Blanks follow up to the place of
the first column. The place of each column is a blank and a text as long as the column is wide, and
without the blanks in front of it this text is the cell. -/
structure Shows (grid : Grid) (label : List Char) (cell : Column → List Char) (text : List Char) :
    Prop where
  length_eq : text.length = grid.length
  label_prefix : label <+: text
  blank : ∀ c ∈ (text.take grid.label).drop label.length, c = ' '
  separated : ∀ i < grid.columns.length, text[grid.before i]? = some ' '
  cell_eq : ∀ (i : Nat) (hi : i < grid.columns.length),
    ((text.drop (grid.before i + 1)).take grid.columns[i].2).dropWhile (· = ' ') =
      cell grid.columns[i].1

section

variable {grid : Grid} {label : List Char} {cell : Column → List Char}

theorem length_place {column : Column × Nat} (h : (cell column.1).length ≤ column.2) :
    (place cell column).length = 1 + column.2 := by
  rw [place, List.length_cons, List.length_leftpad, max_eq_left h, Nat.add_comm]

theorem line_eq (grid : Grid) (label : List Char) (cell : Column → List Char) :
    grid.line label cell =
      List.rightpad grid.label ' ' label ++ (grid.columns.map (place cell)).flatten := by
  rw [line, List.flatMap_def]
  rfl

/-- From the place of a column on, a line consists of the places of this column and the later
ones. -/
theorem drop_line (hlabel : label.length ≤ grid.label)
    (hcells : ∀ column ∈ grid.columns, (cell column.1).length ≤ column.2) {i : Nat}
    (hi : i < grid.columns.length) :
    (grid.line label cell).drop (grid.before i) =
      place cell grid.columns[i] ++ ((grid.columns.map (place cell)).drop (i + 1)).flatten := by
  have hlengths : grid.columns.map (fun column => 1 + column.2) =
      (grid.columns.map (place cell)).map List.length := by
    rw [List.map_map]
    exact List.map_congr_left fun column hcolumn => (length_place (hcells column hcolumn)).symm
  have hpadded : (List.rightpad grid.label ' ' label).length = grid.label := by
    rw [List.length_rightpad, max_eq_left hlabel]
  have hi' : i < (grid.columns.map (place cell)).length := by rwa [List.length_map]
  rw [line_eq, before, hlengths, List.drop_append, hpadded, Nat.add_sub_cancel_left,
    List.drop_eq_nil_of_le (by rw [hpadded]; exact Nat.le_add_right _ _), List.nil_append,
    List.drop_sum_flatten, List.drop_eq_getElem_cons hi', List.flatten_cons, List.getElem_map]

/-- A line of a grid shows what is written into it, if the grid is wide enough. -/
theorem shows_line (hlabel : label.length ≤ grid.label)
    (hcells : ∀ column ∈ grid.columns,
      (cell column.1).length ≤ column.2 ∧ Plain (cell column.1)) :
    grid.Shows label cell (grid.line label cell) := by
  have hfits : ∀ column ∈ grid.columns, (cell column.1).length ≤ column.2 :=
    fun column hcolumn => (hcells column hcolumn).1
  have hpadded : (List.rightpad grid.label ' ' label).length = grid.label := by
    rw [List.length_rightpad, max_eq_left hlabel]
  refine ⟨?_, ?_, ?_, ?_, ?_⟩
  · have hlengths : (grid.columns.map (List.length ∘ place cell)) =
        grid.columns.map fun column => 1 + column.2 :=
      List.map_congr_left fun column hcolumn => length_place (hfits column hcolumn)
    rw [line_eq, List.length_append, hpadded, List.length_flatten, List.map_map, hlengths, length]
  · rw [line_eq, List.rightpad, List.append_assoc]
    exact List.prefix_append _ _
  · intro c hc
    rw [line_eq, List.take_left' hpadded, List.rightpad, List.drop_left] at hc
    exact List.eq_of_mem_replicate hc
  · intro i hi
    rw [← List.head?_drop, drop_line hlabel hfits hi]
    rfl
  · intro i hi
    obtain ⟨hlength, hplain⟩ := hcells _ (List.getElem_mem hi)
    have hwidth : (List.leftpad grid.columns[i].2 ' ' (cell grid.columns[i].1)).length =
        grid.columns[i].2 := by
      rw [List.length_leftpad, max_eq_left hlength]
    rw [← List.drop_drop, drop_line hlabel hfits hi, place, List.cons_append, List.drop_one,
      List.tail_cons, List.take_left' hwidth]
    exact hplain.dropWhile_replicate _

end

end Grid

/-! ### The grid of a report -/

theorem Region.length_label (region : Region) (depth : Nat) :
    (region.label depth).length = 2 * depth + region.name.length + 2 := by
  simp only [label, List.length_append, List.length_replicate, String.length_toList]
  rfl

namespace Report

variable (report : Report)

/-- The part for the labels is as wide as the longest of them. -/
theorem isGreatest_label :
    IsGreatest {n | ∃ row ∈ report.rows, n = 2 * row.1 + row.2.name.length + 2}
      report.grid.label := by
  have hlength := fun row : Nat × Region => row.2.length_label row.1
  have hgreatest := isGreatest_foldr_max report.rows (fun row => (row.2.label row.1).length) 0
  simp only [hlength] at hgreatest
  have hgrid : report.grid.label =
      report.rows.foldr (fun row n => max (2 * row.1 + row.2.name.length + 2) n) 0 := by
    simp only [grid, Grid.ofRows, hlength]
  rw [hgrid]
  -- There is a row, and no label is empty, so the greatest of the lengths is one of a label.
  have htop : (0, report.top) ∈ report.rows := List.mem_cons_self ..
  refine ⟨hgreatest.1.resolve_left fun hzero => ?_, fun n hn => hgreatest.2 (.inr hn)⟩
  have hle := hgreatest.2 (.inr ⟨_, htop, rfl⟩)
  omega

/-- The columns are those of the collected metrics, in their order. -/
theorem columns_grid :
    report.grid.columns.map Prod.fst =
      (if report.metrics.cpu then [Column.cpu] else [])
        ++ (if report.metrics.wall then [Column.wall] else [])
        ++ (if report.metrics.cpu then [Column.reads, Column.writes] else [])
        ++ (if report.metrics.count then [Column.count] else []) := by
  obtain ⟨⟨wall, cpu, count⟩, top, children⟩ := report
  cases wall <;> cases cpu <;> cases count <;> rfl

/-- Each column is as wide as the widest of its cells and its title, in bytes. -/
theorem isGreatest_width {column : Column × Nat} (h : column ∈ report.grid.columns) :
    IsGreatest {n | n = (utf8 column.1.header).length ∨
      ∃ row ∈ report.rows, n = (utf8 (column.1.cell row.2)).length} column.2 := by
  obtain ⟨column, -, rfl⟩ := List.mem_map.mp h
  simp only [column.plain_header.length_utf8, (column.plain_cell _).length_utf8]
  exact isGreatest_foldr_max report.rows (fun row => (column.cell row.2).length) _

/-- **Tables are aligned and complete.** The table of a report is a sequence of lines, each with its
end: the header, and a line for each region in the order of `Report.rows`. All of them fit one grid,
whose first part is as wide as the longest label and whose columns are as wide as the widest of
their cells, so every line has the same length and shows its label and its cells uncut, each cell in
the same place as the others of its column. The numbers of a region can be read back from the cells
of its line. -/
theorem shows_lines :
    report.text.toList = report.lines.flatMap (· ++ ['\n']) ∧
      IsGreatest {n | ∃ row ∈ report.rows, n = 2 * row.1 + row.2.name.length + 2}
        report.grid.label ∧
      report.grid.columns.map Prod.fst =
        (if report.metrics.cpu then [Column.cpu] else [])
          ++ (if report.metrics.wall then [Column.wall] else [])
          ++ (if report.metrics.cpu then [Column.reads, Column.writes] else [])
          ++ (if report.metrics.count then [Column.count] else []) ∧
      (∀ column ∈ report.grid.columns,
        IsGreatest {n | n = (utf8 column.1.header).length ∨
          ∃ row ∈ report.rows, n = (utf8 (column.1.cell row.2)).length} column.2) ∧
      ∃ header rows, report.lines = header :: rows ∧
        report.grid.Shows [] Column.header header ∧
        List.Forall₂ (fun row line => report.grid.Shows
            (List.replicate (2 * row.1) ' ' ++ row.2.name.toList ++ [':', ' '])
            (fun column => column.cell row.2) line ∧
          row.2.IsToldBy fun column => column.cell row.2) report.rows rows := by
  have hlabel := report.isGreatest_label
  have hwidth : ∀ column ∈ report.grid.columns, _ := fun _ h => report.isGreatest_width h
  refine ⟨String.toList_ofList, hlabel, report.columns_grid, hwidth, _, _, rfl, ?_, ?_⟩
  · refine Grid.shows_line (Nat.zero_le _) fun column hcolumn => ⟨?_, column.1.plain_header⟩
    rw [← column.1.plain_header.length_utf8]
    exact (hwidth column hcolumn).2 (.inl rfl)
  · refine List.forall₂_map_right_iff.mpr (List.forall₂_same.mpr fun row hrow =>
      ⟨?_, row.2.isToldBy_cell⟩)
    refine Grid.shows_line (hlabel.2 ⟨row, hrow, row.2.length_label row.1⟩) fun column hcolumn =>
      ⟨?_, column.1.plain_cell row.2⟩
    rw [← (column.1.plain_cell row.2).length_utf8]
    exact (hwidth column hcolumn).2 (.inr ⟨row, hrow, rfl⟩)

end Report

end Profiler
