import Mathlib.Data.List.InsertIdx
import Mathlib.Data.List.Sort
import Mathlib.Data.String.Basic
import Profiler.Timer.Siblings

/-!
# The search among siblings is right from every cursor

`Place.Fits` says what a right answer is: a sibling that has the name, or the one position at which
the name keeps the siblings in order. Among sorted siblings `Place.locate` gives such an answer
wherever it starts (`Place.fits_locate`), and a name put at its vacant position leaves the siblings
sorted (`Place.Fits.pairwise_insertIdx`).

`Place.locateAt` is the same search with nothing but positions: it fails if it asks for a sibling
that is not there, and it never does (`Place.locateAt_eq`).
-/

namespace Profiler.Place

/-- The place is where `name` is among the siblings, or where it belongs. -/
def Fits (siblings : List String) (name : String) : Place → Prop
  | found position => siblings[position]? = some name
  | vacant position => ∃ smaller larger, siblings = smaller ++ larger ∧ smaller.length = position ∧
      (∀ sibling ∈ smaller, sibling < name) ∧ ∀ sibling ∈ larger, name < sibling

/-! ### The two walks -/

/-- The walk to later siblings, when all siblings before it are smaller. -/
theorem fits_forward (name : String) (later : List String) (smaller : List String)
    (sorted : later.Pairwise (· < ·)) (h : ∀ sibling ∈ smaller, sibling < name) :
    Fits (smaller ++ later) name (forward name smaller.length later) := by
  -- The walk moves what it has passed to `smaller`.
  induction later generalizing smaller with
  | nil => exact ⟨smaller, [], rfl, rfl, h, by simp⟩
  | cons sibling later ih =>
    rw [List.pairwise_cons] at sorted
    unfold forward
    split_ifs with hlt heq
    · have h' : ∀ other ∈ smaller ++ [sibling], other < name := by
        intro other hother
        rcases List.mem_append.mp hother with hmem | hmem
        · exact h other hmem
        · rw [List.mem_singleton.mp hmem]; exact hlt
      have := ih (smaller ++ [sibling]) sorted.2 h'
      rwa [List.append_assoc, List.singleton_append, List.length_append,
        List.length_singleton] at this
    · show (smaller ++ sibling :: later)[smaller.length]? = some name
      rw [List.getElem?_append_right (Nat.le_refl _), Nat.sub_self, heq]
      rfl
    · have hgt : name < sibling := lt_of_le_of_ne (not_lt.mp hlt) (Ne.symm heq)
      refine ⟨smaller, sibling :: later, rfl, rfl, h, ?_⟩
      intro other hother
      rcases List.mem_cons.mp hother with rfl | hmem
      · exact hgt
      · exact lt_trans hgt (sorted.1 other hmem)

/-- The walk to earlier siblings, when all siblings after it are larger. -/
theorem fits_backward (name : String) (earlier : List String) (larger : List String)
    (sorted : earlier.reverse.Pairwise (· < ·)) (h : ∀ sibling ∈ larger, name < sibling) :
    Fits (earlier.reverse ++ larger) name (backward name earlier) := by
  -- The walk moves what it has passed to `larger`.
  induction earlier generalizing larger with
  | nil => exact ⟨[], larger, rfl, rfl, by simp, h⟩
  | cons sibling earlier ih =>
    rw [List.reverse_cons, List.pairwise_append] at sorted
    obtain ⟨hearlier, -, hbelow⟩ := sorted
    rw [List.reverse_cons, List.append_assoc, List.singleton_append]
    unfold backward
    split_ifs with hgt heq
    · refine ih (sibling :: larger) hearlier ?_
      intro other hother
      rcases List.mem_cons.mp hother with rfl | hmem
      · exact hgt
      · exact h other hmem
    · show (earlier.reverse ++ sibling :: larger)[earlier.length]? = some name
      rw [List.getElem?_append_right (by simp), List.length_reverse, Nat.sub_self, heq]
      rfl
    · have hlt : sibling < name := lt_of_le_of_ne (not_lt.mp hgt) heq
      refine ⟨earlier.reverse ++ [sibling], larger, by simp, by simp, ?_, h⟩
      intro other hother
      rcases List.mem_append.mp hother with hmem | hmem
      · exact lt_trans (hbelow other hmem sibling (List.mem_singleton_self _)) hlt
      · rw [List.mem_singleton.mp hmem]; exact hlt

/-! ### The search -/

/-- **The search is right**: among sorted siblings it finds the name or the position where the name
belongs, from every cursor. -/
theorem fits_locate (siblings : List String) (cursor : Nat) (name : String)
    (sorted : siblings.Pairwise (· < ·)) : Fits siblings name (locate siblings cursor name) := by
  rw [locate]
  set start := min cursor (siblings.length - 1)
  have hsplit := List.take_append_drop start siblings
  cases hdrop : siblings.drop start with
  | nil =>
    have hlen : siblings.length ≤ start := List.drop_eq_nil_iff.mp hdrop
    have hnil : siblings = [] := List.eq_nil_of_length_eq_zero (by omega)
    dsimp only
    exact ⟨[], [], hnil, rfl, by simp, by simp⟩
  | cons sibling later =>
    have hlen : (siblings.take start).length = start := by
      have : start < siblings.length := by
        by_contra hle
        rw [List.drop_eq_nil_of_le (not_lt.mp hle)] at hdrop
        exact List.cons_ne_nil _ _ hdrop.symm
      rw [List.length_take, Nat.min_eq_left this.le]
    rw [hdrop] at hsplit
    -- The sibling at the start tells which of the two walks is right, and all behind that walk is on
    -- the same side of the name as it.
    rw [← hsplit, List.pairwise_append, List.pairwise_cons] at sorted
    obtain ⟨hbefore, ⟨habove, hlater⟩, hbelow⟩ := sorted
    dsimp only
    split_ifs with heq hlt
    · show siblings[start]? = some name
      rw [← heq, ← hsplit, List.getElem?_append_right (by rw [hlen]), hlen, Nat.sub_self]
      rfl
    · have h : ∀ other ∈ siblings.take start ++ [sibling], other < name := by
        intro other hother
        rcases List.mem_append.mp hother with hmem | hmem
        · exact lt_trans (hbelow other hmem sibling (List.mem_cons_self ..)) hlt
        · rw [List.mem_singleton.mp hmem]; exact hlt
      have := fits_forward name later _ hlater h
      rwa [List.append_assoc, List.singleton_append, hsplit, List.length_append, hlen,
        List.length_singleton] at this
    · have hgt : name < sibling := lt_of_le_of_ne (not_lt.mp hlt) (Ne.symm heq)
      have h : ∀ other ∈ sibling :: later, name < other := by
        intro other hother
        rcases List.mem_cons.mp hother with rfl | hmem
        · exact hgt
        · exact lt_trans hgt (habove other hmem)
      have := fits_backward name (siblings.take start).reverse _
        (by rwa [List.reverse_reverse]) h
      rwa [List.reverse_reverse, hsplit] at this

/-! ### The search by positions -/

/-- The walk to later siblings from `position`, of which there are `count`. -/
def forwardAt (nameAt : Nat → Option String) (name : String) : Nat → Nat → Option Place
  | 0, position => some (vacant position)
  | count + 1, position => do
    let sibling ← nameAt position
    if sibling < name then forwardAt nameAt name count (position + 1)
    else if sibling = name then some (found position)
    else some (vacant position)

/-- The walk to earlier siblings from the one before `position`. -/
def backwardAt (nameAt : Nat → Option String) (name : String) : Nat → Option Place
  | 0 => some (vacant 0)
  | position + 1 => do
    let sibling ← nameAt position
    if name < sibling then backwardAt nameAt name position
    else if sibling = name then some (found position)
    else some (vacant (position + 1))

/-- The place of `name` among `count` siblings, looked for from `cursor`. -/
def locateAt (nameAt : Nat → Option String) (count cursor : Nat) (name : String) : Option Place :=
  if count = 0 then some (vacant 0)
  else do
    let start := min cursor (count - 1)
    let sibling ← nameAt start
    if sibling = name then some (found start)
    else if sibling < name then forwardAt nameAt name (count - (start + 1)) (start + 1)
    else backwardAt nameAt name start

theorem forwardAt_eq (siblings : List String) (name : String) {count position : Nat}
    (h : position + count = siblings.length) :
    forwardAt (siblings[·]?) name count position =
      some (forward name position (siblings.drop position)) := by
  induction count generalizing position with
  | zero =>
    rw [List.drop_eq_nil_of_le (by omega)]
    rfl
  | succ count ih =>
    have hlt : position < siblings.length := by omega
    rw [List.drop_eq_getElem_cons hlt, forwardAt, forward, List.getElem?_eq_getElem hlt,
      Option.bind_eq_bind, Option.bind_some, ih (by omega)]
    split_ifs <;> rfl

theorem backwardAt_eq (siblings : List String) (name : String) {position : Nat}
    (h : position ≤ siblings.length) :
    backwardAt (siblings[·]?) name position =
      some (backward name (siblings.take position).reverse) := by
  induction position with
  | zero => rfl
  | succ position ih =>
    have hlength : (siblings.take position).reverse.length = position := by
      rw [List.length_reverse, List.length_take]
      omega
    rw [List.take_succ_eq_append_getElem h, List.reverse_append, List.reverse_singleton,
      List.singleton_append, backwardAt, backward, List.getElem?_eq_getElem h,
      Option.bind_eq_bind, Option.bind_some, ih (by omega), hlength]
    split_ifs <;> rfl

/-- **The search asks for no sibling that is not there**, and comes to the same place. -/
theorem locateAt_eq (siblings : List String) (cursor : Nat) (name : String) :
    locateAt (siblings[·]?) siblings.length cursor name = some (locate siblings cursor name) := by
  rw [locateAt, locate]
  dsimp only
  split_ifs with hzero
  · rw [List.eq_nil_of_length_eq_zero hzero, List.drop_nil]
  · set start := min cursor (siblings.length - 1)
    have hlt : start < siblings.length := by omega
    rw [List.drop_eq_getElem_cons hlt, List.getElem?_eq_getElem hlt, Option.bind_eq_bind,
      Option.bind_some, forwardAt_eq siblings name (by omega), backwardAt_eq siblings name hlt.le]
    dsimp only
    split_ifs <;> rfl

/-! ### What a vacant position is good for -/

variable {siblings : List String} {name : String} {position : Nat}

theorem Fits.position_le (h : Fits siblings name (vacant position)) :
    position ≤ siblings.length := by
  obtain ⟨smaller, larger, rfl, rfl, -, -⟩ := h
  rw [List.length_append]
  exact Nat.le_add_right _ _

/-- A name that has a vacant position is the name of no sibling. -/
theorem Fits.not_mem (h : Fits siblings name (vacant position)) : name ∉ siblings := by
  obtain ⟨smaller, larger, rfl, -, hsmaller, hlarger⟩ := h
  intro hmem
  rcases List.mem_append.mp hmem with hmem | hmem
  · exact lt_irrefl _ (hsmaller name hmem)
  · exact lt_irrefl _ (hlarger name hmem)

private theorem insertIdx_length_append (smaller larger : List String) (name : String) :
    (smaller ++ larger).insertIdx smaller.length name = smaller ++ name :: larger := by
  induction smaller with
  | nil => rfl
  | cons sibling smaller ih =>
    rw [List.cons_append, List.length_cons, List.insertIdx_succ_cons, ih, List.cons_append]

/-- Siblings stay sorted when a name is put at its vacant position. -/
theorem Fits.pairwise_insertIdx (h : Fits siblings name (vacant position))
    (sorted : siblings.Pairwise (· < ·)) : (siblings.insertIdx position name).Pairwise (· < ·) := by
  obtain ⟨smaller, larger, rfl, rfl, hsmaller, hlarger⟩ := h
  rw [List.pairwise_append] at sorted
  obtain ⟨hs, hl, hsl⟩ := sorted
  rw [insertIdx_length_append, List.pairwise_append, List.pairwise_cons]
  refine ⟨hs, ⟨hlarger, hl⟩, ?_⟩
  intro sibling hsibling other hother
  rcases List.mem_cons.mp hother with rfl | hmem
  · exact hsmaller sibling hsibling
  · exact hsl sibling hsibling other hmem

end Profiler.Place
