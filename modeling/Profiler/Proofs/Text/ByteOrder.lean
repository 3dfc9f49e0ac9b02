import Mathlib.Data.String.Basic
import Profiler.Text.Utf8

/-!
# The order of texts is the order of their bytes

Names are compared character by character. In UTF-8 this is the same as comparing bytes
(`utf8_lt_utf8_iff`), because a larger character always has the larger encoding
(`utf8EncodeChar_append_lt`).
-/

namespace Profiler

section

variable {a b : Nat} {bytes bytes' : List UInt8}

private theorem cons_lt_of_lt (hb : b < 256) (h : a < b) :
    UInt8.ofNat a :: bytes < UInt8.ofNat b :: bytes' := by
  rw [List.cons_lt_cons_iff, UInt8.lt_iff_toNat_lt, UInt8.toNat_ofNat', UInt8.toNat_ofNat']
  left
  omega

private theorem cons_lt_of_eq (h : a = b) (hbytes : bytes < bytes') :
    UInt8.ofNat a :: bytes < UInt8.ofNat b :: bytes' := by
  rw [List.cons_lt_cons_iff, h]
  exact .inr ⟨rfl, hbytes⟩

end

/-- A larger character has the larger bytes, whatever follows it. -/
theorem utf8EncodeChar_append_lt {c d : Char} (h : c < d) (rest rest' : List UInt8) :
    String.utf8EncodeChar c ++ rest < String.utf8EncodeChar d ++ rest' := by
  have hlt : c.val.toNat < d.val.toNat := h
  have hmax : d.val.toNat < 0x110000 := by
    have hvalid := d.valid
    simp only [UInt32.isValidChar, Nat.isValidChar] at hvalid
    omega
  unfold String.utf8EncodeChar
  generalize c.val.toNat = v at *
  generalize d.val.toNat = w at *
  dsimp only
  -- The first digit in which the two differ decides.
  have hdigits : v / 64 < w / 64 ∨ v / 64 = w / 64 ∧ v % 64 < w % 64 := by omega
  have hdigits' : v / 64 < w / 64 → v / 4096 < w / 4096 ∨
      v / 4096 = w / 4096 ∧ v / 64 % 64 < w / 64 % 64 := by omega
  have hdigits'' : v / 4096 < w / 4096 → v / 262144 < w / 262144 ∨
      v / 262144 = w / 262144 ∧ v / 4096 % 64 < w / 4096 % 64 := by omega
  split_ifs
  -- A shorter encoding starts with the smaller byte.
  all_goals first
    | omega
    | exact cons_lt_of_lt (by omega) (by omega)
    | skip
  · rcases hdigits with hfirst | ⟨hfirst, hsecond⟩
    · exact cons_lt_of_lt (by omega) (by omega)
    · exact cons_lt_of_eq (by omega) (cons_lt_of_lt (by omega) (by omega))
  · rcases hdigits with hlt | ⟨heq, hthird⟩
    · rcases hdigits' hlt with hfirst | ⟨hfirst, hsecond⟩
      · exact cons_lt_of_lt (by omega) (by omega)
      · exact cons_lt_of_eq (by omega) (cons_lt_of_lt (by omega) (by omega))
    · refine cons_lt_of_eq (by omega) (cons_lt_of_eq (by omega) ?_)
      exact cons_lt_of_lt (by omega) (by omega)
  · rcases hdigits with hlt | ⟨heq, hfourth⟩
    · rcases hdigits' hlt with hlt | ⟨heq, hthird⟩
      · rcases hdigits'' hlt with hfirst | ⟨hfirst, hsecond⟩
        · exact cons_lt_of_lt (by omega) (by omega)
        · exact cons_lt_of_eq (by omega) (cons_lt_of_lt (by omega) (by omega))
      · refine cons_lt_of_eq (by omega) (cons_lt_of_eq (by omega) ?_)
        exact cons_lt_of_lt (by omega) (by omega)
    · refine cons_lt_of_eq (by omega) (cons_lt_of_eq (by omega) (cons_lt_of_eq (by omega) ?_))
      exact cons_lt_of_lt (by omega) (by omega)

theorem utf8_lt_utf8 {text other : List Char} (h : text < other) : utf8 text < utf8 other := by
  induction text generalizing other with
  | nil =>
    cases other with
    | nil => exact absurd h (List.not_lt_nil _)
    | cons d rest' =>
      show [] < utf8 (d :: rest')
      rw [utf8, List.flatMap_cons]
      cases hbytes : String.utf8EncodeChar d with
      | nil => exact absurd hbytes String.utf8EncodeChar_ne_nil
      | cons byte bytes => exact List.nil_lt_cons byte _
  | cons c rest ih =>
    cases other with
    | nil => exact absurd h (List.not_lt_nil _)
    | cons d rest' =>
      rw [utf8, utf8, List.flatMap_cons, List.flatMap_cons]
      rcases List.cons_lt_cons_iff.mp h with hlt | ⟨rfl, hlt⟩
      · exact utf8EncodeChar_append_lt hlt _ _
      · exact List.append_left_lt (ih hlt)

/-- **Texts are in the order of their bytes.** -/
theorem utf8_lt_utf8_iff (text other : String) :
    utf8 text.toList < utf8 other.toList ↔ text < other := by
  rw [String.lt_iff_toList_lt]
  constructor
  · intro h
    rcases lt_trichotomy text.toList other.toList with hlt | heq | hgt
    · exact hlt
    · rw [heq] at h
      exact absurd h (List.lt_irrefl _)
    · exact absurd (utf8_lt_utf8 hgt) (List.lt_asymm h)
  · exact utf8_lt_utf8

end Profiler
