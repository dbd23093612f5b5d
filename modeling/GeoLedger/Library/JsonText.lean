import Mathlib

/-! JSON values and their compact text. The text determines the value: two
texts that agree up to what may follow a value were printed from one value. -/
namespace JsonText

/-- The characters of a number, integer or not. -/
def numberAlphabet : List Char :=
  ['0', '1', '2', '3', '4', '5', '6', '7', '8', '9', '+', '-', '.', 'e']

/-- The spelling of a number. -/
structure NumberToken where
  chars : List Char
  nonempty : chars ≠ []
  alphabet : ∀ c ∈ chars, c ∈ numberAlphabet

theorem NumberToken.ext {a b : NumberToken} (h : a.chars = b.chars) : a = b := by
  cases a
  cases b
  cases h
  rfl

inductive Json where
  | null
  | bool (value : Bool)
  | number (token : NumberToken)
  | text (value : String)
  | list (items : List Json)
  | dict (entries : List (String × Json))

/-- How a printer writes one character inside a string: never by the closing
quote, without a line break, and so that the written characters are recognised
whatever follows them. -/
structure Escaping where
  escape : Char → List Char
  noQuote : ∀ c r s, escape c ++ r ≠ '\"' :: s
  noBreak : ∀ c, ∀ x ∈ escape c, x ≠ '\n' ∧ x ≠ '\r'
  split : ∀ c d r s, escape c ++ r = escape d ++ s → c = d ∧ r = s

section Printing

variable (e : Escaping)

def quoted (value : String) : List Char := '\"' :: (value.toList.flatMap e.escape ++ ['\"'])

mutual

/-- `json.dumps(value, separators=(",", ":"))`. -/
def dumps : Json → List Char
  | .null => ['n', 'u', 'l', 'l']
  | .bool true => ['t', 'r', 'u', 'e']
  | .bool false => ['f', 'a', 'l', 's', 'e']
  | .number token => token.chars
  | .text value => quoted e value
  | .list [] => ['[', ']']
  | .list (item :: rest) => '[' :: (dumps item ++ dumpsItems rest)
  | .dict [] => ['\x7b', '\x7d']
  | .dict ((key, value) :: rest) => '\x7b' :: (quoted e key ++ ':' :: (dumps value ++ dumpsEntries rest))

/-- The items of a list after its first one, with the closing bracket. -/
def dumpsItems : List Json → List Char
  | [] => [']']
  | item :: rest => ',' :: (dumps item ++ dumpsItems rest)

/-- The entries of a dictionary after its first one, with the closing brace. -/
def dumpsEntries : List (String × Json) → List Char
  | [] => ['\x7d']
  | (key, value) :: rest => ',' :: (quoted e key ++ ':' :: (dumps value ++ dumpsEntries rest))

end

/-- The kind of a value. -/
inductive Shape where
  | null
  | bool
  | number
  | text
  | list
  | dict
deriving DecidableEq

def Json.shape : Json → Shape
  | .null => .null
  | .bool _ => .bool
  | .number _ => .number
  | .text _ => .text
  | .list _ => .list
  | .dict _ => .dict

/-- The kind of value that a first character announces. -/
def headShape (c : Char) : Option Shape :=
  if c = 'n' then some .null
  else if c = 't' ∨ c = 'f' then some .bool
  else if c = '\"' then some .text
  else if c = '[' then some .list
  else if c = '\x7b' then some .dict
  else if c ∈ numberAlphabet then some .number
  else none

/-- A character of a number is the head of a number only. -/
theorem headShape_number {c : Char} (h : c ∈ numberAlphabet) : headShape c = some .number := by
  simp only [numberAlphabet, List.mem_cons, List.not_mem_nil, or_false] at h
  rcases h with rfl | rfl | rfl | rfl | rfl | rfl | rfl | rfl | rfl | rfl | rfl | rfl | rfl | rfl <;> rfl

/-- The first character of a dumped value tells its shape. -/
theorem dumps_head (v : Json) : ∃ c rest, dumps e v = c :: rest ∧ headShape c = some v.shape := by
  cases v with
  | null => exact ⟨_, _, rfl, rfl⟩
  | bool value => cases value <;> exact ⟨_, _, rfl, rfl⟩
  | number token =>
      obtain ⟨c, rest, hChars⟩ := List.exists_cons_of_ne_nil token.nonempty
      refine ⟨c, rest, by rw [dumps, hChars], headShape_number (token.alphabet c ?_)⟩
      rw [hChars]
      exact List.mem_cons_self
  | text value => exact ⟨_, _, by rw [dumps, quoted], rfl⟩
  | list items => cases items <;> exact ⟨_, _, by rw [dumps], rfl⟩
  | dict entries => cases entries <;> exact ⟨_, _, by rw [dumps], rfl⟩

/-- What may follow a value: nothing that a number could go on with. -/
def Ends (rest : List Char) : Prop := ∀ c ∈ rest.head?, c ∉ numberAlphabet

theorem ends_nil : Ends [] := by
  intro c hc
  cases hc

theorem ends_items (items : List Json) (rest : List Char) : Ends (dumpsItems e items ++ rest) := by
  intro c hc
  cases items <;> simp [dumpsItems] at hc <;> subst hc <;> decide

theorem ends_entries (entries : List (String × Json)) (rest : List Char) :
    Ends (dumpsEntries e entries ++ rest) := by
  intro c hc
  cases entries <;> simp [dumpsEntries] at hc <;> subst hc <;> decide

/-- A number is read up to the first character outside its alphabet. -/
theorem takeWhile_token (token : NumberToken) {rest : List Char} (hEnds : Ends rest) :
    (token.chars ++ rest).takeWhile (· ∈ numberAlphabet) = token.chars := by
  rw [List.takeWhile_append_of_pos (by simpa using token.alphabet)]
  cases rest with
  | nil => simp
  | cons c rest =>
      have hc : c ∉ numberAlphabet := hEnds c rfl
      simp [hc]

/-- A number ends before a separator, so equal texts have equal numbers and rests. -/
theorem token_split {a b : NumberToken} {r s : List Char} (hr : Ends r) (hs : Ends s)
    (h : a.chars ++ r = b.chars ++ s) : a = b ∧ r = s := by
  have hChars : a.chars = b.chars := by rw [← takeWhile_token a hr, h, takeWhile_token b hs]
  exact ⟨NumberToken.ext hChars, List.append_cancel_left (hChars ▸ h)⟩

/-- The escaped characters up to the closing quote. -/
theorem flatMap_escape_split {cs ds r s : List Char}
    (h : cs.flatMap e.escape ++ '\"' :: r = ds.flatMap e.escape ++ '\"' :: s) : cs = ds ∧ r = s := by
  induction cs generalizing ds with
  | nil =>
      cases ds with
      | nil => exact ⟨rfl, by simpa using h⟩
      | cons d ds =>
          rw [List.flatMap_cons, List.append_assoc] at h
          exact absurd h.symm (e.noQuote d _ _)
  | cons c cs ih =>
      rw [List.flatMap_cons, List.append_assoc] at h
      cases ds with
      | nil => exact absurd h (e.noQuote c _ _)
      | cons d ds =>
          rw [List.flatMap_cons, List.append_assoc] at h
          obtain ⟨rfl, hRest⟩ := e.split _ _ _ _ h
          obtain ⟨rfl, hTail⟩ := ih hRest
          exact ⟨rfl, hTail⟩

/-- A quoted text ends at its own closing quote, so equal texts have equal quotations and
rests. -/
theorem quoted_split {a b : String} {r s : List Char} (h : quoted e a ++ r = quoted e b ++ s) :
    a = b ∧ r = s := by
  simp only [quoted, List.cons_append, List.append_assoc, List.nil_append, List.cons.injEq, true_and] at h
  obtain ⟨hList, hRest⟩ := flatMap_escape_split e h
  exact ⟨String.toList_inj.mp hList, hRest⟩

/-- Values whose dumps start equal texts have the same shape. -/
theorem shape_eq {v w : Json} {r s : List Char} (h : dumps e v ++ r = dumps e w ++ s) :
    v.shape = w.shape := by
  obtain ⟨c, cs, hv, hc⟩ := dumps_head e v
  obtain ⟨d, ds, hw, hd⟩ := dumps_head e w
  rw [hv, hw, List.cons_append, List.cons_append, List.cons.injEq] at h
  rw [h.1, hd] at hc
  exact (Option.some.inj hc).symm

/-- A value does not start with a closing bracket. -/
theorem dumps_ne_bracket {v : Json} {r s : List Char} : dumps e v ++ r ≠ ']' :: s := by
  intro h
  obtain ⟨c, rest, hv, hc⟩ := dumps_head e v
  rw [hv, List.cons_append, List.cons.injEq] at h
  rw [h.1] at hc
  cases hc

mutual

/-- One value is read back from its text, whatever follows it. -/
theorem dumps_split : ∀ (v w : Json) {r s : List Char}, Ends r → Ends s →
    dumps e v ++ r = dumps e w ++ s → v = w ∧ r = s
  | .null, w, r, s, _, _, h => by
      cases w with
      | null => exact ⟨rfl, List.append_cancel_left h⟩
      | _ => cases shape_eq e h
  | .bool a, w, r, s, _, _, h => by
      cases w with
      | bool b => cases a <;> cases b <;> simp_all [dumps]
      | _ => cases shape_eq e h
  | .number a, w, r, s, hr, hs, h => by
      cases w with
      | number b =>
          obtain ⟨rfl, hRest⟩ := token_split hr hs h
          exact ⟨rfl, hRest⟩
      | _ => cases shape_eq e h
  | .text a, w, r, s, _, _, h => by
      cases w with
      | text b =>
          obtain ⟨rfl, hRest⟩ := quoted_split e h
          exact ⟨rfl, hRest⟩
      | _ => cases shape_eq e h
  | .list [], w, r, s, _, _, h => by
      cases w with
      | list items =>
          cases items with
          | nil => exact ⟨rfl, List.append_cancel_left h⟩
          | cons item rest =>
              simp only [dumps, List.cons_append, List.append_assoc, List.cons.injEq, true_and] at h
              exact absurd h.symm (dumps_ne_bracket e)
      | _ => cases shape_eq e h
  | .list (a :: as), w, r, s, hr, hs, h => by
      cases w with
      | list items =>
          cases items with
          | nil =>
              simp only [dumps, List.cons_append, List.append_assoc, List.cons.injEq, true_and] at h
              exact absurd h (dumps_ne_bracket e)
          | cons b bs =>
              simp only [dumps, List.cons_append, List.append_assoc, List.cons.injEq, true_and] at h
              obtain ⟨rfl, hItems⟩ := dumps_split a b (ends_items e as r) (ends_items e bs s) h
              obtain ⟨rfl, hRest⟩ := dumpsItems_split as bs hItems
              exact ⟨rfl, hRest⟩
      | _ => cases shape_eq e h
  | .dict [], w, r, s, _, _, h => by
      cases w with
      | dict entries =>
          cases entries with
          | nil => exact ⟨rfl, List.append_cancel_left h⟩
          | cons entry rest => simp [dumps, quoted] at h
      | _ => cases shape_eq e h
  | .dict ((k, a) :: as), w, r, s, hr, hs, h => by
      cases w with
      | dict entries =>
          cases entries with
          | nil => simp [dumps, quoted] at h
          | cons entry bs =>
              obtain ⟨l, b⟩ := entry
              simp only [dumps, List.cons_append, List.append_assoc, List.cons.injEq, true_and] at h
              obtain ⟨rfl, hValue⟩ := quoted_split e h
              simp only [List.cons.injEq, true_and] at hValue
              obtain ⟨rfl, hEntries⟩ := dumps_split a b (ends_entries e as r) (ends_entries e bs s) hValue
              obtain ⟨rfl, hRest⟩ := dumpsEntries_split as bs hEntries
              exact ⟨rfl, hRest⟩
      | _ => cases shape_eq e h

/-- Equal texts have equal lists of items and equal rests. -/
theorem dumpsItems_split : ∀ (as bs : List Json) {r s : List Char},
    dumpsItems e as ++ r = dumpsItems e bs ++ s → as = bs ∧ r = s
  | [], [], r, s, h => ⟨rfl, List.append_cancel_left h⟩
  | [], _ :: _, r, s, h => by simp [dumpsItems] at h
  | _ :: _, [], r, s, h => by simp [dumpsItems] at h
  | a :: as, b :: bs, r, s, h => by
      simp only [dumpsItems, List.cons_append, List.append_assoc, List.cons.injEq, true_and] at h
      obtain ⟨rfl, hItems⟩ := dumps_split a b (ends_items e as r) (ends_items e bs s) h
      obtain ⟨rfl, hRest⟩ := dumpsItems_split as bs hItems
      exact ⟨rfl, hRest⟩

/-- Equal texts have equal lists of entries and equal rests. -/
theorem dumpsEntries_split : ∀ (as bs : List (String × Json)) {r s : List Char},
    dumpsEntries e as ++ r = dumpsEntries e bs ++ s → as = bs ∧ r = s
  | [], [], r, s, h => ⟨rfl, List.append_cancel_left h⟩
  | [], (_, _) :: _, r, s, h => by simp [dumpsEntries] at h
  | (_, _) :: _, [], r, s, h => by simp [dumpsEntries] at h
  | (k, a) :: as, (l, b) :: bs, r, s, h => by
      simp only [dumpsEntries, List.cons_append, List.append_assoc, List.cons.injEq, true_and] at h
      obtain ⟨rfl, hValue⟩ := quoted_split e h
      simp only [List.cons.injEq, true_and] at hValue
      obtain ⟨rfl, hEntries⟩ := dumps_split a b (ends_entries e as r) (ends_entries e bs s) hValue
      obtain ⟨rfl, hRest⟩ := dumpsEntries_split as bs hEntries
      exact ⟨rfl, hRest⟩

end

/-- The text determines the value. -/
theorem dumps_injective : Function.Injective (dumps e) := by
  intro v w h
  exact (dumps_split e v w ends_nil ends_nil (congrArg (· ++ []) h)).1

/-- A number has no line breaks. -/
theorem number_noBreak {x : Char} (h : x ∈ numberAlphabet) : x ≠ '\n' ∧ x ≠ '\r' := by
  constructor <;> rintro rfl <;> revert h <;> decide

/-- Line breaks are escaped in a quoted text. -/
theorem quoted_noBreak (value : String) : ∀ x ∈ quoted e value, x ≠ '\n' ∧ x ≠ '\r' := by
  intro x hx
  simp only [quoted, List.mem_cons, List.mem_append, List.mem_flatMap, List.not_mem_nil, or_false] at hx
  rcases hx with rfl | ⟨c, _, hEscape⟩ | rfl
  · exact ⟨by decide, by decide⟩
  · exact e.noBreak c x hEscape
  · exact ⟨by decide, by decide⟩

mutual

/-- A text is one line. -/
theorem dumps_noBreak : ∀ (v : Json), ∀ x ∈ dumps e v, x ≠ '\n' ∧ x ≠ '\r'
  | .null => by simp [dumps]
  | .bool true => by simp [dumps]
  | .bool false => by simp [dumps]
  | .number token => fun x hx => number_noBreak (token.alphabet x hx)
  | .text value => quoted_noBreak e value
  | .list [] => by simp [dumps]
  | .list (item :: rest) => by
      intro x hx
      simp only [dumps, List.mem_cons, List.mem_append] at hx
      rcases hx with rfl | hItem | hRest
      · exact ⟨by decide, by decide⟩
      · exact dumps_noBreak item x hItem
      · exact dumpsItems_noBreak rest x hRest
  | .dict [] => by simp [dumps]
  | .dict ((key, value) :: rest) => by
      intro x hx
      simp only [dumps, List.mem_cons, List.mem_append] at hx
      rcases hx with rfl | hKey | rfl | hValue | hRest
      · exact ⟨by decide, by decide⟩
      · exact quoted_noBreak e key x hKey
      · exact ⟨by decide, by decide⟩
      · exact dumps_noBreak value x hValue
      · exact dumpsEntries_noBreak rest x hRest

/-- The text of a list has no line breaks. -/
theorem dumpsItems_noBreak : ∀ (items : List Json), ∀ x ∈ dumpsItems e items, x ≠ '\n' ∧ x ≠ '\r'
  | [] => by simp [dumpsItems]
  | item :: rest => by
      intro x hx
      simp only [dumpsItems, List.mem_cons, List.mem_append] at hx
      rcases hx with rfl | hItem | hRest
      · exact ⟨by decide, by decide⟩
      · exact dumps_noBreak item x hItem
      · exact dumpsItems_noBreak rest x hRest

/-- The text of an object has no line breaks. -/
theorem dumpsEntries_noBreak : ∀ (entries : List (String × Json)),
    ∀ x ∈ dumpsEntries e entries, x ≠ '\n' ∧ x ≠ '\r'
  | [] => by simp [dumpsEntries]
  | (key, value) :: rest => by
      intro x hx
      simp only [dumpsEntries, List.mem_cons, List.mem_append] at hx
      rcases hx with rfl | hKey | rfl | hValue | hRest
      · exact ⟨by decide, by decide⟩
      · exact quoted_noBreak e key x hKey
      · exact ⟨by decide, by decide⟩
      · exact dumps_noBreak value x hValue
      · exact dumpsEntries_noBreak rest x hRest

end

/-- The text of a dictionary starts with a brace. -/
theorem dumps_dict (entries : List (String × Json)) : ∃ rest, dumps e (.dict entries) = '\x7b' :: rest := by
  cases entries <;> exact ⟨_, by rw [dumps]⟩

end Printing

/-- The characters with an escape of two characters. -/
def shortEscapes : List (Char × Char) :=
  [('\"', '\"'), ('\\', '\\'), ('\n', 'n'), ('\r', 'r'), ('\t', 't'), ('\x08', 'b'), ('\x0c', 'f')]

def hexDigit (n : Nat) : Char := Nat.digitChar n

/-- One character of a string under `ensure_ascii=False`. -/
def escapeChar (c : Char) : List Char :=
  match shortEscapes.lookup c with
  | some short => ['\\', short]
  | none =>
      if c.toNat < 32 then ['\\', 'u', '0', '0', hexDigit (c.toNat / 16), hexDigit (c.toNat % 16)]
      else [c]

/-- A short escape that is found stands in the table. -/
theorem mem_of_lookup {c x : Char} (h : shortEscapes.lookup c = some x) : (c, x) ∈ shortEscapes := by
  obtain ⟨before, after, hSplit, _⟩ := List.lookup_eq_some_iff.mp h
  rw [hSplit]
  simp

/-- No two characters share a short escape. -/
theorem shortEscapes_injective : ∀ p ∈ shortEscapes, ∀ q ∈ shortEscapes, p.2 = q.2 → p.1 = q.1 := by
  decide

/-- No short escape is taken for a code point or is a line break. -/
theorem shortEscapes_ne : ∀ p ∈ shortEscapes, p.2 ≠ 'u' ∧ p.2 ≠ '\n' ∧ p.2 ≠ '\r' := by decide

theorem hexDigit_injective : ∀ m < 16, ∀ n < 16, hexDigit m = hexDigit n → m = n := by decide

theorem hexDigit_noBreak : ∀ m < 16, hexDigit m ≠ '\n' ∧ hexDigit m ≠ '\r' := by decide

/-- A character has a short escape, is another control character, or stands for itself. -/
theorem escapeChar_cases (c : Char) :
    (∃ x, (c, x) ∈ shortEscapes ∧ escapeChar c = ['\\', x]) ∨
    (c.toNat < 32 ∧
      escapeChar c = ['\\', 'u', '0', '0', hexDigit (c.toNat / 16), hexDigit (c.toNat % 16)]) ∨
    (c ≠ '\\' ∧ c ≠ '\"' ∧ 32 ≤ c.toNat ∧ escapeChar c = [c]) := by
  cases hShort : shortEscapes.lookup c with
  | some x => exact .inl ⟨x, mem_of_lookup hShort, by simp only [escapeChar, hShort]⟩
  | none =>
      by_cases hControl : c.toNat < 32
      · exact .inr (.inl ⟨hControl, by simp only [escapeChar, hShort, if_pos hControl]⟩)
      · refine .inr (.inr ⟨?_, ?_, not_lt.mp hControl, by simp only [escapeChar, hShort, if_neg hControl]⟩)
        · rintro rfl
          cases hShort
        · rintro rfl
          cases hShort

/-- An escaped character ends where it should, so equal texts have equal first characters
and rests. -/
theorem escapeChar_split (c d : Char) (r s : List Char) (h : escapeChar c ++ r = escapeChar d ++ s) :
    c = d ∧ r = s := by
  rcases escapeChar_cases c with ⟨x, hx, hc⟩ | ⟨hLow, hc⟩ | ⟨hSlash, _, _, hc⟩ <;>
    rcases escapeChar_cases d with ⟨y, hy, hd⟩ | ⟨hLow', hd⟩ | ⟨hSlash', _, _, hd⟩ <;>
    rw [hc, hd] at h <;>
    simp only [List.cons_append, List.nil_append, List.cons.injEq, true_and] at h
  · exact ⟨shortEscapes_injective _ hx _ hy h.1, h.2⟩
  · exact absurd h.1 (shortEscapes_ne _ hx).1
  · exact absurd h.1.symm hSlash'
  · exact absurd h.1.symm (shortEscapes_ne _ hy).1
  · obtain ⟨hHigh, hLast, hRest⟩ := h
    have hDiv := hexDigit_injective _ (by omega) _ (by omega) hHigh
    have hMod := hexDigit_injective _ (by omega) _ (by omega) hLast
    refine ⟨Char.toNat_inj.mp ?_, hRest⟩
    omega
  · exact absurd h.1.symm hSlash'
  · exact absurd h.1 hSlash
  · exact absurd h.1 hSlash
  · exact h

/-- The strings of `json.dumps(…, ensure_ascii=False)`. -/
def Escaping.unicode : Escaping where
  escape := escapeChar
  noQuote := by
    intro c r s h
    rcases escapeChar_cases c with ⟨x, _, hc⟩ | ⟨_, hc⟩ | ⟨_, hQuote, _, hc⟩ <;> rw [hc] at h <;> cases h
    exact hQuote rfl
  noBreak := by
    intro c x hx
    rcases escapeChar_cases c with ⟨y, hy, hc⟩ | ⟨hLow, hc⟩ | ⟨_, _, hHigh, hc⟩ <;>
      simp only [hc, List.mem_cons, List.not_mem_nil, or_false] at hx
    · rcases hx with rfl | rfl
      · exact ⟨by decide, by decide⟩
      · exact (shortEscapes_ne _ hy).2
    · rcases hx with rfl | rfl | rfl | rfl | rfl | rfl
      · exact ⟨by decide, by decide⟩
      · exact ⟨by decide, by decide⟩
      · exact ⟨by decide, by decide⟩
      · exact ⟨by decide, by decide⟩
      · exact hexDigit_noBreak _ (by omega)
      · exact hexDigit_noBreak _ (by omega)
    · subst hx
      constructor <;> rintro rfl <;> revert hHigh <;> decide
  split := escapeChar_split

end JsonText
