import Profiler.Proofs.Json.Numbers

/-!
# The parser inverts the printer

Every JSON value whose numbers are written as numbers has a text from which the parser gets it back
(`Json.parse_render`): the parser stops at the end of each part of the text, whatever stands in the
strings and whatever comes next. So two values with the same text stand for the same.
-/

namespace Profiler.Json

open Value

/-! ### Strings -/

theorem hexDigit?_digitChar {n : Nat} (h : n < 16) : hexDigit? n.digitChar = some n := by
  revert h n
  decide

/-- A control character is read back from its number. -/
theorem readUnicode_hexPair {c : Char} (h : c.toNat < 0x20) (rest : List Char) :
    readUnicode ('0' :: '0' :: hexPair c.toNat ++ rest) = some (c, rest) := by
  have hzero : hexDigit? '0' = some 0 := by decide
  have hunit : readUnit ('0' :: '0' :: hexPair c.toNat ++ rest) = some (c.toNat, rest) := by
    have hsplit := Nat.div_add_mod' c.toNat 16
    simp only [hexPair, List.cons_append, List.nil_append, readUnit, hzero,
      hexDigit?_digitChar (show c.toNat / 16 < 16 by omega),
      hexDigit?_digitChar (show c.toNat % 16 < 16 by omega), Option.bind_eq_bind,
      Option.bind_some, Nat.zero_mul, Nat.zero_add, hsplit]
    rfl
  rw [readUnicode, hunit, Option.bind_eq_bind, Option.bind_some]
  dsimp only
  rw [if_neg (by omega), if_neg (by omega), Char.ofNat_toNat]
  rfl

/-- **Whatever a character is written as, it is read back**, and the string goes on behind it. -/
theorem readString_escape (c : Char) (fuel : Nat) (rest : List Char) :
    readString (fuel + 1) (escape c ++ rest) =
      (readString fuel rest).map fun (others, rest) => (c :: others, rest) := by
  unfold escape
  split
  case h_8 hquote hbackslash _ _ _ _ _ =>
    split_ifs with hcontrol
    · rw [List.append_assoc]
      show (readUnicode ('0' :: '0' :: hexPair c.toNat ++ rest)).bind _ = _
      rw [readUnicode_hexPair hcontrol, Option.bind_some]
      dsimp only
      cases readString fuel rest <;> rfl
    · rw [List.singleton_append, readString, if_neg hquote, if_neg hbackslash, if_neg hcontrol]
      cases readString fuel rest <;> rfl
  all_goals cases h : readString fuel rest <;> simp [readString, readEscape, h]

theorem escape_ne_nil (c : Char) : escape c ≠ [] := by
  unfold escape
  split <;> first | exact List.cons_ne_nil _ _ | (split_ifs <;> simp)

/-- **A string is read up to its closing quote**, whatever stands in it. -/
theorem readString_flatMap_escape (text : List Char) {fuel : Nat} (rest : List Char)
    (h : (text.flatMap escape).length < fuel) :
    readString fuel (text.flatMap escape ++ '"' :: rest) = some (text, rest) := by
  induction text generalizing fuel with
  | nil =>
    obtain ⟨fuel, rfl⟩ := Nat.exists_eq_succ_of_ne_zero (Nat.ne_zero_of_lt h)
    rfl
  | cons c text ih =>
    have hpos := List.length_pos_of_ne_nil (escape_ne_nil c)
    rw [List.flatMap_cons, List.length_append] at h
    obtain ⟨fuel, rfl⟩ := Nat.exists_eq_succ_of_ne_zero (Nat.ne_zero_of_lt h)
    rw [List.flatMap_cons, List.append_assoc, readString_escape, ih (by omega)]
    rfl

theorem quote_append (text : String) (rest : List Char) :
    quote text ++ rest = '"' :: (text.toList.flatMap escape ++ '"' :: rest) := by simp [quote]

theorem length_quote (text : String) :
    (quote text).length = (text.toList.flatMap escape).length + 2 := by simp [quote]

theorem readString_quote (text : String) {fuel : Nat} (rest : List Char)
    (h : (quote text).length ≤ fuel) :
    readString fuel (text.toList.flatMap escape ++ '"' :: rest) = some (text.toList, rest) := by
  rw [length_quote] at h
  exact readString_flatMap_escape _ _ (by omega)

theorem readQuoted_quote (text : String) {fuel : Nat} (rest : List Char)
    (h : (quote text).length ≤ fuel) : readQuoted fuel (quote text ++ rest) = some (text, rest) := by
  rw [quote_append]
  show (readString fuel _).map _ = _
  rw [readString_quote text rest h, Option.map_some]
  dsimp only
  rw [String.ofList_toList]

/-! ### Values -/

mutual

/-- What a value stands for. -/
def value : Json → Value
  | number token => .number token
  | string text => .string text
  | array items => .array (values items)
  | object members => .object (memberValues members)

def values : List Json → List Value
  | [] => []
  | item :: rest => item.value :: values rest

def memberValues : List (String × Json) → List (String × Value)
  | [] => []
  | (key, member) :: rest => (key, member.value) :: memberValues rest

end

mutual

/-- All numbers in the value are written as numbers. -/
def IsValid : Json → Prop
  | number token => IsNumber token
  | string _ => True
  | array items => AreValid items
  | object members => AreMembersValid members

def AreValid : List Json → Prop
  | [] => True
  | item :: rest => item.IsValid ∧ AreValid rest

def AreMembersValid : List (String × Json) → Prop
  | [] => True
  | (_, member) :: rest => member.IsValid ∧ AreMembersValid rest

end

theorem skipBlanks_cons {c : Char} (h : isBlank c = false) (text : List Char) :
    skipBlanks (c :: text) = c :: text := by
  rw [skipBlanks, List.dropWhile_cons_of_neg (by simp [h])]

/-- A number begins with a minus sign or a digit. -/
theorem IsNumber.exists_cons {token : List Char} (h : IsNumber token) :
    ∃ c text, token = c :: text ∧ (c = '-' ∨ c.isDigit = true) := by
  obtain ⟨hminus, hwhole, -, -⟩ := h
  obtain ⟨d, others, rfl, hd⟩ := hwhole.isDigits.exists_cons
  rcases hminus with rfl | rfl
  · exact ⟨d, _, rfl, .inr hd⟩
  · exact ⟨'-', _, rfl, .inl rfl⟩

theorem isBlank_eq_false {c : Char} (h : c = '-' ∨ c.isDigit = true) : isBlank c = false := by
  unfold isBlank
  rw [decide_eq_false_iff_not]
  rintro (rfl | rfl | rfl | rfl) <;> exact absurd h (by decide)

/-- A value begins with a character that is no blank and closes nothing. -/
theorem exists_render_eq_cons {json : Json} (h : json.IsValid) :
    ∃ c text, json.render = c :: text ∧ isBlank c = false ∧ c ≠ ']' := by
  cases json with
  | number token =>
    obtain ⟨c, text, hcons, hc⟩ := IsNumber.exists_cons h
    refine ⟨c, text, hcons, isBlank_eq_false hc, ?_⟩
    rintro rfl
    exact absurd hc (by decide)
  | string text => exact ⟨'"', _, rfl, rfl, by decide⟩
  | array items => exact ⟨'[', _, rfl, rfl, by decide⟩
  | object members => exact ⟨'\x7b', _, rfl, rfl, by decide⟩

theorem exists_renderItems_eq (item : Json) (items : List Json) :
    ∃ text, renderItems (item :: items) = item.render ++ text := by
  cases items with
  | nil => exact ⟨[], (List.append_nil _).symm⟩
  | cons next items => exact ⟨_, rfl⟩

theorem exists_renderMembers_eq (member : String × Json) (members : List (String × Json)) :
    ∃ text, renderMembers (member :: members) = '"' :: text := by
  cases members with
  | nil => exact ⟨_, rfl⟩
  | cons next members => exact ⟨_, rfl⟩

theorem endsNumber_cons {c : Char} (h : c ∈ [',', ']', '\x7d']) (text : List Char) :
    EndsNumber (c :: text) := by
  rintro _ ⟨⟩
  simp only [List.mem_cons, List.not_mem_nil, or_false] at h
  rcases h with rfl | rfl | rfl <;> decide

theorem readValue_number {token : List Char} (h : IsNumber token) (fuel : Nat) {rest : List Char}
    (hrest : EndsNumber rest) :
    readValue (fuel + 1) (token ++ rest) = some (.number token, rest) := by
  have hread := readNumber_append h hrest
  obtain ⟨c, text, rfl, hc⟩ := h.exists_cons
  rw [List.cons_append] at hread ⊢
  rw [readValue, skipBlanks_cons (isBlank_eq_false hc)]
  split
  case h_7 =>
    rw [hread]
    rfl
  all_goals
    next heq =>
      rw [List.head_eq_of_cons_eq heq] at hc
      exact absurd hc (by decide)

theorem readValue_quote (text : String) {fuel : Nat} (rest : List Char)
    (h : (quote text).length ≤ fuel) :
    readValue (fuel + 1) (quote text ++ rest) = some (.string text, rest) := by
  rw [quote_append]
  show (readString fuel _).map _ = _
  rw [readString_quote text rest h, Option.map_some]
  dsimp only
  rw [String.ofList_toList]

/-- An array is its items, unless it is closed at once. -/
theorem readValue_bracket {c : Char} (hblank : isBlank c = false) (hc : c ≠ ']') (fuel : Nat)
    (text : List Char) : readValue (fuel + 1) ('[' :: c :: text) =
      (readItems fuel (c :: text)).map fun (items, rest) => (Value.array items, rest) := by
  have hopen : skipBlanks ('[' :: c :: text) = '[' :: c :: text := rfl
  simp only [readValue, hopen, skipBlanks_cons hblank]
  split
  · next heq => exact absurd (List.head_eq_of_cons_eq heq) hc
  · rfl

/-- An object is its members, unless it is closed at once. -/
theorem readValue_brace (fuel : Nat) (text : List Char) :
    readValue (fuel + 1) ('\x7b' :: '"' :: text) =
      (readMembers fuel ('"' :: text)).map fun (members, rest) => (Value.object members, rest) := rfl

theorem length_render_pos {json : Json} (h : json.IsValid) : 0 < json.render.length := by
  obtain ⟨c, text, hcons, -⟩ := exists_render_eq_cons h
  rw [hcons]
  exact Nat.succ_pos _

mutual

/-- **A value is read back from its text**, whatever comes behind it. -/
theorem readValue_render : ∀ (json : Json) (fuel : Nat) (rest : List Char), json.IsValid →
    EndsNumber rest → 2 * json.render.length ≤ fuel + 1 →
    readValue (fuel + 1) (json.render ++ rest) = some (json.value, rest)
  | number token, fuel, rest, hvalid, hrest, _ => readValue_number hvalid fuel hrest
  | string text, fuel, rest, _, _, hfuel => by
    rw [render] at hfuel
    have hpos := length_quote text
    exact readValue_quote text rest (by omega)
  | array [], fuel, rest, _, _, _ => rfl
  | array (item :: items), fuel, rest, hvalid, hrest, hfuel => by
    obtain ⟨text, htext⟩ := exists_renderItems_eq item items
    obtain ⟨c, front, hfront, hblank, hc⟩ := exists_render_eq_cons hvalid.1
    have hread := readItems_renderItems item items fuel rest hvalid (by
      simp [render] at hfuel
      omega)
    rw [htext, hfront] at hread
    rw [render, htext, hfront]
    simp only [List.cons_append, List.nil_append, List.append_assoc] at hread ⊢
    rw [readValue_bracket hblank hc, hread]
    rfl
  | object [], fuel, rest, _, _, _ => rfl
  | object (member :: members), fuel, rest, hvalid, hrest, hfuel => by
    obtain ⟨text, htext⟩ := exists_renderMembers_eq member members
    have hread := readMembers_renderMembers member members fuel rest hvalid (by
      simp [render] at hfuel
      omega)
    rw [htext] at hread
    rw [render, htext]
    simp only [List.cons_append, List.nil_append, List.append_assoc] at hread ⊢
    rw [readValue_brace, hread]
    rfl

/-- The items of an array are read back, up to its closing bracket. -/
theorem readItems_renderItems : ∀ (item : Json) (items : List Json) (fuel : Nat) (rest : List Char),
    AreValid (item :: items) → 2 * (renderItems (item :: items)).length < fuel →
    readItems fuel (renderItems (item :: items) ++ ']' :: rest) = some (values (item :: items), rest)
  | item, [], fuel + 2, rest, hvalid, hfuel => by
    rw [renderItems] at hfuel ⊢
    have hread := readValue_render item fuel (']' :: rest) hvalid.1 (endsNumber_cons (by simp) _)
      (by omega)
    rw [readItems, hread]
    rfl
  | item, next :: items, fuel + 2, rest, hvalid, hfuel => by
    have hlength : (renderItems (item :: next :: items)).length =
        item.render.length + ((renderItems (next :: items)).length + 1) := by
      rw [renderItems, List.length_append, List.length_cons]
    have hread := readValue_render item fuel (',' :: (renderItems (next :: items) ++ ']' :: rest))
      hvalid.1 (endsNumber_cons (by simp) _) (by omega)
    have hothers := readItems_renderItems next items (fuel + 1) rest hvalid.2 (by omega)
    rw [renderItems, List.append_assoc, List.cons_append, readItems, hread]
    show (readItems (fuel + 1) _).map _ = _
    rw [hothers]
    rfl
  | item, items, 0, _, _, hfuel => by omega
  | item, items, 1, _, hvalid, hfuel => by
    have hpos := length_render_pos hvalid.1
    obtain ⟨text, htext⟩ := exists_renderItems_eq item items
    rw [htext, List.length_append] at hfuel
    omega

/-- The members of an object are read back, up to its closing brace. -/
theorem readMembers_renderMembers : ∀ (member : String × Json) (members : List (String × Json))
    (fuel : Nat) (rest : List Char), AreMembersValid (member :: members) →
    2 * (renderMembers (member :: members)).length < fuel →
    readMembers fuel (renderMembers (member :: members) ++ '\x7d' :: rest) =
      some (memberValues (member :: members), rest)
  | (key, member), [], fuel + 2, rest, hvalid, hfuel => by
    have hlength : (renderMembers [(key, member)]).length =
        (quote key).length + (member.render.length + 1) := by
      rw [renderMembers, List.length_append, List.length_cons]
    have hkey := readQuoted_quote key (':' :: (member.render ++ '\x7d' :: rest))
      (show (quote key).length ≤ fuel + 1 by omega)
    have hread := readValue_render member fuel ('\x7d' :: rest) hvalid.1
      (endsNumber_cons (by simp) _) (by omega)
    rw [renderMembers, List.append_assoc, List.cons_append, readMembers, hkey]
    show (readValue (fuel + 1) _).bind _ = _
    rw [hread]
    rfl
  | (key, member), next :: members, fuel + 2, rest, hvalid, hfuel => by
    have hlength : (renderMembers ((key, member) :: next :: members)).length =
        (quote key).length +
          (member.render.length + ((renderMembers (next :: members)).length + 1) + 1) := by
      rw [renderMembers]
      simp only [List.length_append, List.length_cons]
      omega
    have hkey := readQuoted_quote key
      (':' :: (member.render ++ ',' :: (renderMembers (next :: members) ++ '\x7d' :: rest)))
      (show (quote key).length ≤ fuel + 1 by omega)
    have hread := readValue_render member fuel
      (',' :: (renderMembers (next :: members) ++ '\x7d' :: rest)) hvalid.1
      (endsNumber_cons (by simp) _) (by omega)
    have hothers := readMembers_renderMembers next members (fuel + 1) rest hvalid.2 (by omega)
    rw [renderMembers]
    simp only [List.append_assoc, List.cons_append]
    rw [readMembers, hkey]
    show (readValue (fuel + 1) _).bind _ = _
    rw [hread]
    show (readMembers (fuel + 1) _).map _ = _
    rw [hothers]
    rfl
  | member, members, 0, _, _, hfuel => by omega
  | member, members, 1, _, _, hfuel => by
    obtain ⟨text, htext⟩ := exists_renderMembers_eq member members
    rw [htext, List.length_cons] at hfuel
    omega

end

/-- **The parser inverts the printer.** -/
theorem parse_render {json : Json} (h : json.IsValid) :
    Value.parse (String.ofList json.render) = some json.value := by
  have hread := readValue_render json (2 * json.render.length) [] h nofun (Nat.le_succ _)
  rw [List.append_nil] at hread
  rw [parse, String.toList_ofList, hread]
  rfl

end Profiler.Json
