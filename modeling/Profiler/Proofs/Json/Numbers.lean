import Profiler.Proofs.Json.Parser
import Profiler.Seconds
import Mathlib.Data.List.Basic

/-!
# Numbers in JSON

`Json.IsNumber` says how the numbers of JSON are written, and `Json.Value.readNumber_append` that the
parser reads them off the front of every text that cannot be part of them. Whole numbers in decimal
are written that way (`Json.isNumber_digits`) and so are durations in seconds, whatever their size
(`Json.isNumber_inJson`). `Json.ReadsAs` says which whole number digits stand for.
-/

namespace Profiler.Json

/-! ### How numbers are written -/

/-- The text does not begin with a digit. -/
def NoDigit (text : List Char) : Prop := ∀ c ∈ text.head?, c.isDigit = false

/-- The text does not begin with a character that can go on with a number. -/
def EndsNumber (text : List Char) : Prop :=
  ∀ c ∈ text.head?, c.isDigit = false ∧ c ≠ '.' ∧ c ≠ 'e' ∧ c ≠ 'E'

/-- Digits, one or more. -/
structure IsDigits (ds : List Char) : Prop where
  ne_nil : ds ≠ []
  isDigit : ∀ d ∈ ds, d.isDigit = true

/-- The whole part of a number: zero, or digits that do not begin with a zero. -/
inductive IsWhole : List Char → Prop
  | zero : IsWhole ['0']
  | digits {ds : List Char} (h : IsDigits ds) (hhead : ds.head? ≠ some '0') : IsWhole ds

/-- The fraction of a number, if there is one. -/
inductive IsFraction : List Char → Prop
  | none : IsFraction []
  | digits {ds : List Char} (h : IsDigits ds) : IsFraction ('.' :: ds)

/-- The exponent of a number, if there is one. -/
inductive IsExponent : List Char → Prop
  | none : IsExponent []
  | digits {mark : Char} {sign ds : List Char} (hmark : mark = 'e' ∨ mark = 'E')
      (hsign : sign = [] ∨ sign = ['+'] ∨ sign = ['-']) (h : IsDigits ds) :
      IsExponent (mark :: sign ++ ds)

/-- How numbers are written: a minus sign if need be, a whole part, a fraction, an exponent. -/
inductive IsNumber : List Char → Prop
  | intro {minus whole fraction exponent : List Char} (hminus : minus = [] ∨ minus = ['-'])
      (hwhole : IsWhole whole) (hfraction : IsFraction fraction) (hexponent : IsExponent exponent) :
      IsNumber (minus ++ whole ++ fraction ++ exponent)

theorem EndsNumber.noDigit {text : List Char} (h : EndsNumber text) : NoDigit text :=
  fun c hc => (h c hc).1

theorem IsDigits.exists_cons {ds : List Char} (h : IsDigits ds) :
    ∃ d others, ds = d :: others ∧ d.isDigit = true := by
  cases ds with
  | nil => exact absurd rfl h.ne_nil
  | cons d others => exact ⟨d, others, rfl, h.isDigit d (List.mem_cons_self ..)⟩

theorem isDigits_zero : IsDigits ['0'] := ⟨nofun, List.forall_mem_singleton.mpr rfl⟩

theorem IsWhole.isDigits {ds : List Char} (h : IsWhole ds) : IsDigits ds := by
  cases h with
  | zero => exact isDigits_zero
  | digits h _ => exact h

/-! ### The parser reads them -/

namespace Value

theorem readDigits_append {ds rest : List Char} (h : IsDigits ds) (hrest : NoDigit rest) :
    readDigits (ds ++ rest) = some (ds, rest) := by
  have hnone : rest.takeWhile Char.isDigit = [] ∧ rest.dropWhile Char.isDigit = rest := by
    cases rest with
    | nil => exact ⟨rfl, rfl⟩
    | cons c rest =>
      have hc : c.isDigit = false := hrest c rfl
      simp [hc]
  rw [readDigits, List.takeWhile_append_of_pos h.isDigit, List.dropWhile_append_of_pos h.isDigit,
    hnone.1, hnone.2, List.append_nil]
  exact if_neg h.ne_nil

theorem readMinus_append {minus rest : List Char} (h : minus = [] ∨ minus = ['-'])
    (hrest : rest.head? ≠ some '-') : readMinus (minus ++ rest) = (minus, rest) := by
  rcases h with rfl | rfl
  · rw [List.nil_append]
    unfold readMinus
    split
    · exact absurd rfl hrest
    · rfl
  · rfl

theorem readWhole_append {ds rest : List Char} (h : IsWhole ds) (hrest : NoDigit rest) :
    readWhole (ds ++ rest) = some (ds, rest) := by
  cases h with
  | zero => rfl
  | digits h hhead =>
    rw [← readDigits_append h hrest]
    obtain ⟨d, others, rfl, -⟩ := h.exists_cons
    rw [List.cons_append]
    unfold readWhole
    split
    · next heq => exact absurd (congrArg List.head? heq) hhead
    · rfl

theorem readFraction_append {ds rest : List Char} (h : IsFraction ds) (hrest : NoDigit rest)
    (hpoint : rest.head? ≠ some '.') : readFraction (ds ++ rest) = some (ds, rest) := by
  cases h with
  | none =>
    rw [List.nil_append]
    unfold readFraction
    split
    · exact absurd rfl hpoint
    · rfl
  | digits h =>
    rw [List.cons_append, readFraction, readDigits_append h hrest]
    rfl

theorem readSign_append {sign ds rest : List Char}
    (h : sign = [] ∨ sign = ['+'] ∨ sign = ['-']) (hds : IsDigits ds) :
    readSign (sign ++ (ds ++ rest)) = (sign, ds ++ rest) := by
  obtain ⟨d, others, rfl, hd⟩ := hds.exists_cons
  rcases h with rfl | rfl | rfl
  · rw [List.nil_append, List.cons_append]
    unfold readSign
    split
    · next heq => rw [List.head_eq_of_cons_eq heq] at hd; exact absurd hd (by decide)
    · next heq => rw [List.head_eq_of_cons_eq heq] at hd; exact absurd hd (by decide)
    · rfl
  · rfl
  · rfl

theorem readExponent_append {exponent rest : List Char} (h : IsExponent exponent)
    (hrest : EndsNumber rest) : readExponent (exponent ++ rest) = some (exponent, rest) := by
  cases h with
  | none =>
    cases rest with
    | nil => rfl
    | cons c rest =>
      obtain ⟨-, -, he, hE⟩ := hrest c rfl
      exact if_neg (not_or.mpr ⟨he, hE⟩)
  | digits hmark hsign h =>
    rw [List.cons_append, List.cons_append, List.append_assoc, readExponent, if_pos hmark,
      readSign_append hsign h]
    dsimp only
    rw [readDigits_append h hrest.noDigit]
    rfl

/-- **The parser reads every number**, in front of a text that cannot go on with it. -/
theorem readNumber_append {token rest : List Char} (h : IsNumber token) (hrest : EndsNumber rest) :
    readNumber (token ++ rest) = some (token, rest) := by
  obtain ⟨hminus, hwhole, hfraction, hexponent⟩ := h
  rename_i minus whole fraction exponent
  have hafterFraction : NoDigit (exponent ++ rest) ∧ (exponent ++ rest).head? ≠ some '.' := by
    cases hexponent with
    | none => exact ⟨hrest.noDigit, fun hpoint => (hrest _ hpoint).2.1 rfl⟩
    | digits hmark _ _ => rcases hmark with rfl | rfl <;> exact ⟨by simp [NoDigit], by simp⟩
  have hafterWhole : NoDigit (fraction ++ (exponent ++ rest)) := by
    cases hfraction with
    | none => exact hafterFraction.1
    | digits _ => simp [NoDigit]
  have hafterMinus : (whole ++ (fraction ++ (exponent ++ rest))).head? ≠ some '-' := by
    obtain ⟨d, others, rfl, hd⟩ := hwhole.isDigits.exists_cons
    rintro ⟨⟩
    exact absurd hd (by decide)
  simp only [List.append_assoc, readNumber, readMinus_append hminus hafterMinus,
    readWhole_append hwhole hafterWhole, readFraction_append hfraction hafterFraction.1 hafterFraction.2,
    readExponent_append hexponent hrest, Option.bind_eq_bind, Option.bind_some]
  rfl

end Value

/-! ### Whole numbers -/

theorem isDigits_digits (n : Nat) : IsDigits (Decimal.digits n) :=
  ⟨Nat.toDigits_ne_nil, fun _ => Nat.isDigit_of_mem_toDigits (by decide) (by decide)⟩

/-- The text consists of digits that stand for the number. -/
structure ReadsAs (ds : List Char) (n : Nat) : Prop where
  isDigits : IsDigits ds
  value_eq : Nat.ofDigitChars 10 ds 0 = n

theorem readsAs_digits (n : Nat) : ReadsAs (Decimal.digits n) n :=
  ⟨isDigits_digits n, Nat.ofDigitChars_toDigits (by decide) (by decide)⟩

theorem IsDigits.leftpad {ds : List Char} (h : IsDigits ds) (width : Nat) :
    IsDigits (List.leftpad width '0' ds) := by
  refine ⟨fun hnil => h.ne_nil (List.append_eq_nil_iff.mp hnil).2, fun d hd => ?_⟩
  rcases List.mem_append.mp hd with hd | hd
  · rw [List.eq_of_mem_replicate hd]
    rfl
  · exact h.isDigit d hd

/-- Zeros in front of digits do not count. -/
theorem ReadsAs.leftpad {ds : List Char} {n : Nat} (h : ReadsAs ds n) (width : Nat) :
    ReadsAs (List.leftpad width '0' ds) n where
  isDigits := h.isDigits.leftpad width
  value_eq := by
    rw [List.leftpad, Nat.ofDigitChars_append, Nat.ofDigitChars_replicate_zero, Nat.mul_zero,
      h.value_eq]

theorem head?_digits {n : Nat} (h : 0 < n) : (Decimal.digits n).head? ≠ some '0' := by
  induction n using Nat.strongRecOn with
  | ind n ih =>
    unfold Decimal.digits at ih ⊢
    by_cases hlt : n < 10
    · have hdigit : ∀ k < 10, 0 < k → [k.digitChar].head? ≠ some '0' := by decide
      rw [Nat.toDigits_of_lt_base hlt]
      exact hdigit n hlt h
    · have hq : 0 < n / 10 := Nat.div_pos (by omega) (by decide)
      rw [Nat.toDigits_of_base_le (by decide) (by omega),
        List.head?_append_of_ne_nil _ Nat.toDigits_ne_nil]
      exact ih (n / 10) (by omega) hq

theorem isWhole_digits (n : Nat) : IsWhole (Decimal.digits n) := by
  rcases Nat.eq_zero_or_pos n with rfl | h
  · exact .zero
  · exact .digits (isDigits_digits n) (head?_digits h)

theorem isNumber_of_isWhole {ds : List Char} (h : IsWhole ds) : IsNumber ds := by
  have hnumber := IsNumber.intro (.inl rfl) h .none .none
  simpa using hnumber

theorem isNumber_digits (n : Nat) : IsNumber (Decimal.digits n) :=
  isNumber_of_isWhole (isWhole_digits n)

/-! ### Durations -/

theorem IsDigits.append {ds others : List Char} (h : IsDigits ds)
    (hothers : ∀ d ∈ others, d.isDigit = true) : IsDigits (ds ++ others) where
  ne_nil := by simp [h.ne_nil]
  isDigit d hd := (List.mem_append.mp hd).elim (h.isDigit d) (hothers d)

/-- A whole part with a fraction. -/
theorem isNumber_fraction {whole ds : List Char} (hwhole : IsWhole whole) (h : IsDigits ds) :
    IsNumber (whole ++ '.' :: ds) := by
  have hnumber := IsNumber.intro (.inl rfl) hwhole (.digits h) .none
  simpa using hnumber

/-- With places after the point, the digits stand on both sides of it. If they do not reach beyond
it, they get zeros in front of them, up to one before the point. -/
theorem exists_positional {ds : List Char} (h : IsDigits ds) (ending : List Char)
    {places : Nat} (hplaces : 0 < places) :
    ∃ whole fraction, Decimal.positional ending ds (-places) = whole ++ '.' :: fraction ∧
      whole ++ fraction = List.leftpad (places + 1) '0' ds ∧
      IsDigits whole ∧ IsDigits fraction ∧ fraction.length = places := by
  have hneg : ¬ (0 : Int) ≤ -places := by omega
  have hnat : (- -(places : Int)).toNat = places := by rw [Int.neg_neg, Int.toNat_natCast]
  have hdigit := (h.leftpad (places + 1)).isDigit
  have hlength : (List.leftpad (places + 1) '0' ds).length = max (places + 1) ds.length :=
    List.length_leftpad
  rw [Decimal.positional, if_neg hneg, hnat]
  dsimp only
  set padded := List.leftpad (places + 1) '0' ds
  have hfraction : (padded.drop (padded.length - places)).length = places := by
    rw [List.length_drop]
    omega
  refine ⟨_, _, rfl, List.take_append_drop _ _, ?_, ?_, hfraction⟩
  · refine ⟨List.ne_nil_of_length_pos ?_, fun d hd => hdigit d (List.mem_of_mem_take hd)⟩
    rw [List.length_take]
    omega
  · refine ⟨List.ne_nil_of_length_pos ?_, fun d hd => hdigit d (List.mem_of_mem_drop hd)⟩
    rwa [hfraction]

theorem isNumber_positional {n : Nat} (h : 0 < n) (exponent : Int) :
    IsNumber (Decimal.positional ['.', '0'] (Decimal.digits n) exponent) := by
  have hds := isDigits_digits n
  have hhead := head?_digits h
  set ds := Decimal.digits n
  by_cases hexponent : 0 ≤ exponent
  · have hwhole : IsWhole (ds ++ List.replicate exponent.toNat '0') := by
      refine .digits (hds.append fun d hd => ?_) ?_
      · rw [List.eq_of_mem_replicate hd]
        rfl
      · rwa [List.head?_append_of_ne_nil _ hds.ne_nil]
    rw [Decimal.positional, if_pos hexponent]
    exact isNumber_fraction hwhole isDigits_zero
  · obtain ⟨places, rfl⟩ : ∃ places : Nat, exponent = -places := ⟨exponent.natAbs, by omega⟩
    have hplaces : 0 < places := by omega
    obtain ⟨whole, fraction, heq, hpadded, hwhole, hfraction, hlength⟩ :=
      exists_positional hds ['.', '0'] hplaces
    rw [heq]
    refine isNumber_fraction ?_ hfraction
    -- Either the digits reach beyond the point, or they are padded with zeros up to it and one more.
    by_cases hlong : places + 1 ≤ ds.length
    · rw [List.leftpad, Nat.sub_eq_zero_of_le hlong, List.replicate_zero,
        List.nil_append] at hpadded
      rw [← hpadded, List.head?_append_of_ne_nil _ hwhole.ne_nil] at hhead
      exact .digits hwhole hhead
    · obtain ⟨zeros, hzeros⟩ : ∃ zeros, places + 1 - ds.length = zeros + 1 :=
        ⟨places - ds.length, by omega⟩
      have hone : whole.length = 1 := by
        have hsum := congrArg List.length hpadded
        rw [List.length_append, List.length_leftpad, hlength] at hsum
        omega
      obtain ⟨d, rfl⟩ := List.length_eq_one_iff.mp hone
      rw [List.leftpad, hzeros, List.replicate_succ] at hpadded
      obtain rfl : d = '0' := List.head_eq_of_cons_eq hpadded
      exact .zero

theorem isNumber_scientific {n : Nat} (h : 0 < n) (exponent : Int) :
    IsNumber (Duration.numberLayout.scientific (Decimal.digits n) exponent) := by
  have hds := isDigits_digits n
  have hhead := head?_digits h
  set sign : List Char := if exponent < 0 then ['-'] else ['+']
  have hexponent : IsExponent ('e' :: sign ++ Decimal.digits exponent.natAbs) := by
    refine .digits (.inl rfl) ?_ (isDigits_digits _)
    by_cases hneg : exponent < 0
    · exact .inr (.inr (if_pos hneg))
    · exact .inr (.inl (if_neg hneg))
  obtain ⟨d, others, heq, hd⟩ := hds.exists_cons
  rw [heq] at hds hhead
  have hwhole : IsWhole [d] := .digits ⟨nofun, by simpa using hd⟩ hhead
  have hfraction : IsFraction (if others.isEmpty then [] else '.' :: others) := by
    cases others with
    | nil => exact .none
    | cons other others => exact .digits ⟨nofun, fun c hc => hds.isDigit c (List.mem_cons_of_mem _ hc)⟩
  have hnumber := IsNumber.intro (.inl rfl) hwhole hfraction hexponent
  rw [heq]
  cases others <;> simpa [Decimal.Layout.scientific, Duration.numberLayout] using hnumber

/-- **A duration in seconds is written as a number.** -/
theorem isNumber_inJson (d : Duration) : IsNumber d.inJson := by
  unfold Duration.inJson Decimal.Layout.write
  dsimp only
  split_ifs with hzero
  · rw [hzero]
    exact isNumber_fraction .zero isDigits_zero
  · exact isNumber_positional (Nat.pos_of_ne_zero hzero) _
  · exact isNumber_scientific (Nat.pos_of_ne_zero hzero) _

end Profiler.Json
