import Mathlib
import GeoLedger.CanonicalDecimals
import GeoLedger.Library.Outcomes
import GeoLedger.Signing

/-! `canonical_json`: the bytes of a payload determine it up to the order of its keys
and the spelling of its decimals. -/
namespace GeoLedger.CanonicalJson
open JsonText Outcomes DecimalNumerals

/-- What a payload holds; a dictionary lists its entries in the order of insertion. -/
inductive PyValue where
  | none
  | bool (value : Bool)
  | int (value : ℤ)
  | str (value : String)
  | decimal (value : PyDecimal)
  | nonFiniteDecimal
  | float (value : ℚ)
  | list (items : List PyValue)
  | dict (entries : List (String × PyValue))

/-- The text of an integer. -/
def intToken (n : ℤ) : NumberToken where
  chars := if n < 0 then '-' :: (natToken n.natAbs).chars else (natToken n.natAbs).chars
  nonempty := by
    split
    · exact List.cons_ne_nil _ _
    · exact (natToken n.natAbs).nonempty
  alphabet := by
    intro c hc
    split at hc
    · rcases List.mem_cons.mp hc with rfl | hDigit
      · decide
      · exact (natToken n.natAbs).alphabet c hDigit
    · exact (natToken n.natAbs).alphabet c hc

mutual

def normalize : PyValue → Except CanonicalError Json
  | .none => .ok .null
  | .bool value => .ok (.bool value)
  | .int value => .ok (.number (intToken value))
  | .str value => .ok (.text value)
  | .decimal value =>
      if value.hasExponent then .error (.badRequest "Exponent notation is not allowed in canonical JSON")
      else do return .text (← formatDecimal value)
  | .nonFiniteDecimal => .error (.badRequest "Non-finite Decimal is not allowed in canonical JSON")
  | .float _ => .error (.badRequest "Float is not allowed in canonical JSON")
  | .list items => do return .list (← normalizeItems items)
  | .dict entries => do return .dict (sortByKey (← normalizeEntries entries))

def normalizeItems : List PyValue → Except CanonicalError (List Json)
  | [] => .ok []
  | item :: rest => do
      let item ← normalize item
      return item :: (← normalizeItems rest)

def normalizeEntries : List (String × PyValue) → Except CanonicalError (List (String × Json))
  | [] => .ok []
  | (key, value) :: rest => do
      let value ← normalize value
      return (key, value) :: (← normalizeEntries rest)

end

/-- The keys of every dictionary are distinct. -/
inductive WellFormed : PyValue → Prop
  | none : WellFormed .none
  | bool (value : Bool) : WellFormed (.bool value)
  | int (value : ℤ) : WellFormed (.int value)
  | str (value : String) : WellFormed (.str value)
  | decimal (value : PyDecimal) : WellFormed (.decimal value)
  | nonFiniteDecimal : WellFormed .nonFiniteDecimal
  | float (value : ℚ) : WellFormed (.float value)
  | list {items} (hItems : ∀ v ∈ items, WellFormed v) : WellFormed (.list items)
  | dict {entries} (hKeys : (entries.map Prod.fst).Nodup) (hEntries : ∀ e ∈ entries, WellFormed e.2) :
      WellFormed (.dict entries)

/-- A dictionary that is signed. -/
structure Payload where
  entries : List (String × PyValue)
  wellFormed : WellFormed (.dict entries)

def Payload.value (p : Payload) : PyValue := .dict p.entries

/-- `canonical_json`; the entries are sorted already when they are printed. -/
def canonicalJson (payload : Payload) : Except CanonicalError ByteArray := do
  let normalized ← normalize payload.value
  return (String.ofList (dumps Escaping.unicode normalized)).toUTF8

/-- The values differ only in the order of their keys and in the spelling of their decimals. -/
inductive Agrees : PyValue → PyValue → Prop
  | refl (v : PyValue) : Agrees v v
  | decimal {a b : PyDecimal} (hValue : a.value = b.value) : Agrees (.decimal a) (.decimal b)
  | list {items others} (hLength : items.length = others.length)
      (hItems : ∀ (i : ℕ) (v w : PyValue), items[i]? = some v → others[i]? = some w → Agrees v w) :
      Agrees (.list items) (.list others)
  | dict {entries others} (hKeys : (entries.map Prod.fst).Perm (others.map Prod.fst))
      (hEntries : ∀ key v w, (key, v) ∈ entries → (key, w) ∈ others → Agrees v w) :
      Agrees (.dict entries) (.dict others)

/-- The decimal occurs in the value. -/
inductive Holds (d : PyDecimal) : PyValue → Prop
  | decimal : Holds d (.decimal d)
  | list {items v} (hMem : v ∈ items) (hItem : Holds d v) : Holds d (.list items)
  | dict {entries key v} (hMem : (key, v) ∈ entries) (hEntry : Holds d v) : Holds d (.dict entries)

section Induction

variable {P : PyValue → Prop} (hNone : P .none) (hBool : ∀ value, P (.bool value)) (hInt : ∀ value, P (.int value))
  (hStr : ∀ value, P (.str value)) (hDecimal : ∀ value, P (.decimal value)) (hNonFinite : P .nonFiniteDecimal)
  (hFloat : ∀ value, P (.float value)) (hList : ∀ items, (∀ v ∈ items, P v) → P (.list items))
  (hDict : ∀ entries, (∀ e ∈ entries, P e.2) → P (.dict entries))

include hNone hBool hInt hStr hDecimal hNonFinite hFloat hList hDict

/-- Induction over the values that a value holds. -/
theorem PyValue.inductOn (v : PyValue) : P v :=
  @PyValue.rec P (fun items => ∀ v ∈ items, P v) (fun entries => ∀ e ∈ entries, P e.2) (fun e => P e.2)
    hNone hBool hInt hStr hDecimal hNonFinite hFloat hList hDict
    (fun _ h => absurd h List.not_mem_nil)
    (fun _ _ hHead hTail v hMem => (List.mem_cons.mp hMem).elim (fun h => h ▸ hHead) (hTail v))
    (fun _ h => absurd h List.not_mem_nil)
    (fun _ _ hHead hTail e hMem => (List.mem_cons.mp hMem).elim (fun h => h ▸ hHead) (hTail e))
    (fun _ _ h => h) v

end Induction

section Normalized

theorem normalize_list {items : List PyValue} {j : Json} (h : normalize (.list items) = .ok j) :
    ∃ normalized, normalizeItems items = .ok normalized ∧ j = .list normalized := by
  obtain ⟨normalized, hItems, hEq⟩ := bind_eq_ok_iff.mp h
  exact ⟨normalized, hItems, (Except.ok.inj hEq).symm⟩

theorem normalize_dict {entries : List (String × PyValue)} {j : Json} (h : normalize (.dict entries) = .ok j) :
    ∃ normalized, normalizeEntries entries = .ok normalized ∧ j = .dict (sortByKey normalized) := by
  obtain ⟨normalized, hEntries, hEq⟩ := bind_eq_ok_iff.mp h
  exact ⟨normalized, hEntries, (Except.ok.inj hEq).symm⟩

/-- Items are normalized one by one. -/
theorem normalizeItems_get {items : List PyValue} {normalized : List Json}
    (h : normalizeItems items = .ok normalized) :
    normalized.length = items.length ∧
      ∀ (i : ℕ) v, items[i]? = some v → ∃ j, normalized[i]? = some j ∧ normalize v = .ok j := by
  induction items generalizing normalized with
  | nil =>
      cases h
      exact ⟨rfl, fun i v hv => by simp at hv⟩
  | cons item rest ih =>
      obtain ⟨first, hFirst, h⟩ := bind_eq_ok_iff.mp h
      obtain ⟨others, hOthers, h⟩ := bind_eq_ok_iff.mp h
      cases h
      obtain ⟨hLength, hGet⟩ := ih hOthers
      refine ⟨congrArg (· + 1) hLength, fun i v hv => ?_⟩
      cases i with
      | zero =>
          cases hv
          exact ⟨first, rfl, hFirst⟩
      | succ i => exact hGet i v hv

/-- Entries keep their keys. -/
theorem mem_normalizeEntries {entries : List (String × PyValue)} {normalized : List (String × Json)}
    (h : normalizeEntries entries = .ok normalized) (key : String) (j : Json) :
    (key, j) ∈ normalized ↔ ∃ v, (key, v) ∈ entries ∧ normalize v = .ok j := by
  induction entries generalizing normalized with
  | nil =>
      cases h
      simp
  | cons entry rest ih =>
      obtain ⟨first, value⟩ := entry
      obtain ⟨value', hValue, h⟩ := bind_eq_ok_iff.mp h
      obtain ⟨rest', hRest, h⟩ := bind_eq_ok_iff.mp h
      cases h
      constructor
      · intro hMem
        rcases List.mem_cons.mp hMem with hHead | hTail
        · cases hHead
          exact ⟨value, List.mem_cons_self, hValue⟩
        · obtain ⟨v, hv, hNormal⟩ := (ih hRest).mp hTail
          exact ⟨v, List.mem_cons_of_mem _ hv, hNormal⟩
      · rintro ⟨v, hMem, hNormal⟩
        rcases List.mem_cons.mp hMem with hHead | hTail
        · cases hHead
          rw [hValue] at hNormal
          cases hNormal
          exact List.mem_cons_self
        · exact List.mem_cons_of_mem _ ((ih hRest).mpr ⟨v, hTail, hNormal⟩)

theorem normalizeEntries_keys {entries : List (String × PyValue)} {normalized : List (String × Json)}
    (h : normalizeEntries entries = .ok normalized) : normalized.map Prod.fst = entries.map Prod.fst := by
  induction entries generalizing normalized with
  | nil =>
      cases h
      rfl
  | cons entry rest ih =>
      obtain ⟨key, value⟩ := entry
      obtain ⟨value', _, h⟩ := bind_eq_ok_iff.mp h
      obtain ⟨rest', hRest, h⟩ := bind_eq_ok_iff.mp h
      cases h
      simp [ih hRest]

/-- Every entry of an accepted dictionary was accepted. -/
theorem exists_normalized {entries : List (String × PyValue)} {normalized : List (String × Json)}
    (h : normalizeEntries entries = .ok normalized) {key : String} {v : PyValue} (hMem : (key, v) ∈ entries) :
    ∃ j, normalize v = .ok j := by
  induction entries generalizing normalized with
  | nil => cases hMem
  | cons entry rest ih =>
      obtain ⟨first, value⟩ := entry
      obtain ⟨value', hValue, h⟩ := bind_eq_ok_iff.mp h
      obtain ⟨rest', hRest, -⟩ := bind_eq_ok_iff.mp h
      rcases List.mem_cons.mp hMem with hHead | hTail
      · cases hHead
        exact ⟨value', hValue⟩
      · exact ih hRest hTail

/-- Two entries of one key are one entry. -/
theorem value_unique {V : Type*} {entries : List (String × V)} (hKeys : (entries.map Prod.fst).Nodup) {key : String}
    {v w : V} (hv : (key, v) ∈ entries) (hw : (key, w) ∈ entries) : v = w :=
  congrArg Prod.snd (List.inj_on_of_nodup_map hKeys hv hw rfl)

/-- Dictionaries with the same entries are sorted alike. -/
theorem sortByKey_eq {ps qs : List (String × Json)} (hPerm : ps.Perm qs) (hKeys : (ps.map Prod.fst).Nodup) :
    sortByKey ps = sortByKey qs := by
  have hSorted := ((sortByKey_perm ps).trans hPerm).trans (sortByKey_perm qs).symm
  refine hSorted.eq_of_pairwise (fun a b ha hb hab hba => ?_) (List.pairwise_insertionSort _ ps)
    (List.pairwise_insertionSort _ qs)
  have ha' := (sortByKey_perm ps).mem_iff.mp ha
  have hb' := hPerm.mem_iff.mpr ((sortByKey_perm qs).mem_iff.mp hb)
  exact List.inj_on_of_nodup_map hKeys ha' hb' (le_antisymm hab hba)

end Normalized

section Faithful

/-- Values that agree are normalized alike. -/
theorem normalize_agrees (v : PyValue) : ∀ {w : PyValue} {a b : Json}, WellFormed v → WellFormed w → Agrees v w →
    normalize v = .ok a → normalize w = .ok b → a = b := by
  have hSame {v : PyValue} {a b : Json} (ha : normalize v = .ok a) (hb : normalize v = .ok b) : a = b :=
    Except.ok.inj (ha.symm.trans hb)
  induction v using PyValue.inductOn with
  | hNone | hNonFinite =>
      intro w a b _ _ hAgrees ha hb
      cases hAgrees
      exact hSame ha hb
  | hBool value | hInt value | hStr value | hFloat value =>
      intro w a b _ _ hAgrees ha hb
      cases hAgrees
      exact hSame ha hb
  | hDecimal value =>
      intro w a b _ _ hAgrees ha hb
      cases hAgrees with
      | refl => exact hSame ha hb
      | decimal hValue =>
          simp only [normalize] at ha hb
          split at ha
          · cases ha
          split at hb
          · cases hb
          rw [formatDecimal_congr hValue] at ha
          exact Except.ok.inj (ha.symm.trans hb)
  | hList items ih =>
      intro w a b hv hw hAgrees ha hb
      cases hAgrees with
      | refl => exact hSame ha hb
      | @list _ others hLength hItems =>
          cases hv with
          | list hv =>
              cases hw with
              | list hw =>
                  obtain ⟨as, has, rfl⟩ := normalize_list ha
                  obtain ⟨bs, hbs, rfl⟩ := normalize_list hb
                  obtain ⟨hLengthA, hGetA⟩ := normalizeItems_get has
                  obtain ⟨hLengthB, hGetB⟩ := normalizeItems_get hbs
                  congr 1
                  refine List.ext_getElem? fun i => ?_
                  rcases Nat.lt_or_ge i items.length with hLt | hGe
                  · have hItem := List.getElem?_eq_getElem hLt
                    have hOther := List.getElem?_eq_getElem (hLength ▸ hLt)
                    obtain ⟨x, hx, hxNormal⟩ := hGetA i _ hItem
                    obtain ⟨y, hy, hyNormal⟩ := hGetB i _ hOther
                    rw [hx, hy, ih _ (List.getElem_mem hLt) (hv _ (List.getElem_mem hLt))
                      (hw _ (List.getElem_mem (hLength ▸ hLt))) (hItems i _ _ hItem hOther) hxNormal hyNormal]
                  · rw [List.getElem?_eq_none (by omega), List.getElem?_eq_none (by omega)]
  | hDict entries ih =>
      intro w a b hv hw hAgrees ha hb
      cases hAgrees with
      | refl => exact hSame ha hb
      | @dict _ others hKeys hEntries =>
          cases hv with
          | dict hNodup hv =>
              cases hw with
              | dict hNodup' hw =>
                  obtain ⟨ps, hps, rfl⟩ := normalize_dict ha
                  obtain ⟨qs, hqs, rfl⟩ := normalize_dict hb
                  have hKeysP := normalizeEntries_keys hps
                  have hKeysQ := normalizeEntries_keys hqs
                  have hNodupP : (ps.map Prod.fst).Nodup := hKeysP ▸ hNodup
                  have hSubset : ps ⊆ qs := by
                    rintro ⟨key, x⟩ hx
                    obtain ⟨value, hMem, hNormal⟩ := (mem_normalizeEntries hps key x).mp hx
                    obtain ⟨⟨key', other⟩, hOther, rfl⟩ :=
                      List.mem_map.mp (hKeys.mem_iff.mp (List.mem_map_of_mem hMem))
                    obtain ⟨y, hy⟩ := exists_normalized hqs hOther
                    have hEq := ih _ hMem (hv _ hMem) (hw _ hOther) (hEntries _ _ _ hMem hOther) hNormal hy
                    rw [hEq]
                    exact (mem_normalizeEntries hqs _ y).mpr ⟨other, hOther, hy⟩
                  have hLength : ps.length = qs.length := by
                    rw [← List.length_map Prod.fst, hKeysP, hKeys.length_eq, ← hKeysQ, List.length_map]
                  have hPerm : ps.Perm qs :=
                    (List.subperm_of_subset (List.Nodup.of_map _ hNodupP) hSubset).perm_of_length_le hLength.ge
                  rw [sortByKey_eq hPerm hNodupP]

theorem intToken_injective : Function.Injective intToken := by
  intro m n h
  have hChars : (if m < 0 then '-' :: Nat.toDigits 10 m.natAbs else Nat.toDigits 10 m.natAbs) =
      if n < 0 then '-' :: Nat.toDigits 10 n.natAbs else Nat.toDigits 10 n.natAbs := congrArg NumberToken.chars h
  have hMagnitude (hDigits : Nat.toDigits 10 m.natAbs = Nat.toDigits 10 n.natAbs) : m.natAbs = n.natAbs := by
    rw [← Nat.ofDigitChars_ten_toDigits (n := m.natAbs), hDigits, Nat.ofDigitChars_ten_toDigits]
  have hMinus (k : ℕ) (rest : List Char) : Nat.toDigits 10 k ≠ '-' :: rest := by
    intro hEq
    have hDigit := Nat.isDigit_of_mem_toDigits (c := '-') (b := 10) (n := k) (by norm_num) (by norm_num)
      (hEq ▸ List.mem_cons_self)
    exact absurd hDigit (by decide)
  by_cases hm : m < 0 <;> by_cases hn : n < 0
  · rw [if_pos hm, if_pos hn] at hChars
    have := hMagnitude (List.cons.inj hChars).2
    omega
  · rw [if_pos hm, if_neg hn] at hChars
    exact absurd hChars.symm (hMinus _ _)
  · rw [if_neg hm, if_pos hn] at hChars
    exact absurd hChars (hMinus _ _)
  · rw [if_neg hm, if_neg hn] at hChars
    have := hMagnitude hChars
    omega

/-- What a value without decimals was, by its normal form. -/
theorem normalize_shape {w : PyValue} {j : Json} (hPlain : ∀ d, ¬Holds d w) (h : normalize w = .ok j) :
    match j with
    | .null => w = .none
    | .bool value => w = .bool value
    | .number token => ∃ n, w = .int n ∧ token = intToken n
    | .text value => w = .str value
    | .list normalized => ∃ items, w = .list items ∧ normalizeItems items = .ok normalized
    | .dict sorted => ∃ entries normalized, w = .dict entries ∧ normalizeEntries entries = .ok normalized ∧
        sorted = sortByKey normalized := by
  cases w with
  | none =>
      cases h
      rfl
  | bool value =>
      cases h
      rfl
  | int value =>
      cases h
      exact ⟨value, rfl, rfl⟩
  | str value =>
      cases h
      rfl
  | decimal value => exact absurd .decimal (hPlain value)
  | nonFiniteDecimal | float value => cases h
  | list items =>
      obtain ⟨normalized, hItems, rfl⟩ := normalize_list h
      exact ⟨items, rfl, hItems⟩
  | dict entries =>
      obtain ⟨normalized, hEntries, rfl⟩ := normalize_dict h
      exact ⟨entries, normalized, rfl, hEntries, rfl⟩

/-- Values without decimals that are normalized alike agree. -/
theorem agrees_of_normalize (v : PyValue) : ∀ {w : PyValue} {j : Json}, WellFormed w →
    (∀ d, ¬Holds d v) → (∀ d, ¬Holds d w) → normalize v = .ok j → normalize w = .ok j → Agrees v w := by
  induction v using PyValue.inductOn with
  | hNone =>
      intro w j _ _ hPlain hv hw
      cases hv
      rw [normalize_shape hPlain hw]
      exact .refl _
  | hBool value | hStr value =>
      intro w j _ _ hPlain hv hw
      cases hv
      rw [normalize_shape hPlain hw]
      exact .refl _
  | hInt value =>
      intro w j _ _ hPlain hv hw
      cases hv
      obtain ⟨n, rfl, hToken⟩ := normalize_shape hPlain hw
      rw [intToken_injective hToken]
      exact .refl _
  | hDecimal value =>
      intro w j _ hPlain
      exact absurd .decimal (hPlain value)
  | hNonFinite =>
      intro w j _ _ _ hv
      cases hv
  | hFloat value =>
      intro w j _ _ _ hv
      cases hv
  | hList items ih =>
      intro w j hWell hPlain hPlain' hv hw
      obtain ⟨normalized, hNormal, rfl⟩ := normalize_list hv
      obtain ⟨others, rfl, hNormal'⟩ := normalize_shape hPlain' hw
      obtain ⟨hLength, hGet⟩ := normalizeItems_get hNormal
      obtain ⟨hLength', hGet'⟩ := normalizeItems_get hNormal'
      refine .list (hLength.symm.trans hLength') fun i x y hx hy => ?_
      obtain ⟨a, ha, hax⟩ := hGet i x hx
      obtain ⟨b, hb, hby⟩ := hGet' i y hy
      obtain rfl := Option.some.inj (ha.symm.trans hb)
      have hxMem := List.mem_of_getElem? hx
      have hyMem := List.mem_of_getElem? hy
      cases hWell with
      | list hWell =>
          exact ih x hxMem (hWell y hyMem) (fun d hd => hPlain d (.list hxMem hd))
            (fun d hd => hPlain' d (.list hyMem hd)) hax hby
  | hDict entries ih =>
      intro w j hWell hPlain hPlain' hv hw
      obtain ⟨ps, hps, rfl⟩ := normalize_dict hv
      obtain ⟨others, qs, rfl, hqs, hSorted⟩ := normalize_shape hPlain' hw
      have hPerm : ps.Perm qs := by
        have hFirst := (sortByKey_perm ps).symm
        rw [hSorted] at hFirst
        exact hFirst.trans (sortByKey_perm qs)
      cases hWell with
      | dict hNodup hWell =>
          refine .dict ?_ fun key x y hx hy => ?_
          · rw [← normalizeEntries_keys hps, ← normalizeEntries_keys hqs]
            exact hPerm.map Prod.fst
          · obtain ⟨a, hax⟩ := exists_normalized hps hx
            have hMem := hPerm.mem_iff.mp ((mem_normalizeEntries hps key a).mpr ⟨x, hx, hax⟩)
            obtain ⟨y', hy', hay⟩ := (mem_normalizeEntries hqs key a).mp hMem
            obtain rfl := value_unique hNodup hy hy'
            exact ih _ hx (hWell _ hy) (fun d hd => hPlain d (.dict hx hd)) (fun d hd => hPlain' d (.dict hy hd))
              hax hay

end Faithful

section Bytes

/-- Equal bytes were printed from equal normal forms. -/
theorem canonicalJson_eq_ok_iff {p : Payload} {m : ByteArray} :
    canonicalJson p = .ok m ↔
      ∃ j, normalize p.value = .ok j ∧ m = (String.ofList (dumps Escaping.unicode j)).toUTF8 := by
  unfold canonicalJson
  constructor
  · intro h
    obtain ⟨j, hj, hEq⟩ := bind_eq_ok_iff.mp h
    exact ⟨j, hj, (Except.ok.inj hEq).symm⟩
  · rintro ⟨j, hj, rfl⟩
    exact bind_eq_ok_iff.mpr ⟨j, hj, rfl⟩

theorem bytes_inj {a b : Json}
    (h : (String.ofList (dumps Escaping.unicode a)).toUTF8 = (String.ofList (dumps Escaping.unicode b)).toUTF8) :
    a = b :=
  dumps_injective _ (String.ofList_inj.mp (String.toByteArray_inj.mp h))

/-- The decimals of an accepted value are written. -/
theorem holds_written {v : PyValue} {d : PyDecimal} (h : Holds d v) :
    ∀ {j : Json}, normalize v = .ok j → ∃ s, normalize (.decimal d) = .ok (.text s) ∧ formatDecimal d = .ok s := by
  induction h with
  | decimal =>
      intro j hj
      have hWritten := hj
      simp only [normalize] at hWritten
      split at hWritten
      · cases hWritten
      · obtain ⟨s, hs, hEq⟩ := bind_eq_ok_iff.mp hWritten
        cases hEq
        exact ⟨s, hj, hs⟩
  | list hMem hItem ih =>
      intro j hj
      obtain ⟨normalized, hItems, -⟩ := normalize_list hj
      obtain ⟨i, hi⟩ := List.mem_iff_getElem?.mp hMem
      obtain ⟨a, -, ha⟩ := (normalizeItems_get hItems).2 i _ hi
      exact ih ha
  | dict hMem hEntry ih =>
      intro j hj
      obtain ⟨normalized, hEntries, -⟩ := normalize_dict hj
      obtain ⟨a, ha⟩ := exists_normalized hEntries hMem
      exact ih ha

/-- The decimal is written as a plain numeral of its value. -/
def Exact (d : PyDecimal) : Prop :=
  ∃ x : Numeral, normalize (.decimal d) = .ok (.text x.text) ∧ x.value = d.value

theorem exact_iff {v : PyValue} {d : PyDecimal} (h : Holds d v) {j : Json} (hj : normalize v = .ok j) :
    Exact d ↔ Fits d.coefficient := by
  obtain ⟨s, hNormal, hWritten⟩ := holds_written h hj
  rw [← formatDecimal_exact_iff hWritten]
  constructor
  · rintro ⟨x, hx, hValue⟩
    exact ⟨x, Json.text.inj (Except.ok.inj (hNormal.symm.trans hx)), hValue⟩
  · rintro ⟨x, rfl, hValue⟩
    exact ⟨x, hNormal, hValue⟩

/-- The bytes of two accepted payloads are the same for payloads that agree, and only for
these when there are no decimals; the decimals of a payload are written exactly if and only
if their coefficients have at most twenty-eight digits. -/
theorem canonical_faithful {p q : Payload} {m n : ByteArray} (hp : canonicalJson p = .ok m)
    (hq : canonicalJson q = .ok n) :
    ((Agrees p.value q.value → m = n) ∧ (∀ d, Holds d p.value → Exact d) ∧
        ((∀ d, ¬Holds d p.value) → (∀ d, ¬Holds d q.value) → m = n → Agrees p.value q.value)) ↔
      ∀ d, Holds d p.value → Fits d.coefficient := by
  obtain ⟨a, ha, rfl⟩ := canonicalJson_eq_ok_iff.mp hp
  obtain ⟨b, hb, rfl⟩ := canonicalJson_eq_ok_iff.mp hq
  have hSame : Agrees p.value q.value → (String.ofList (dumps Escaping.unicode a)).toUTF8 =
      (String.ofList (dumps Escaping.unicode b)).toUTF8 := by
    intro hAgrees
    rw [normalize_agrees p.value p.wellFormed q.wellFormed hAgrees ha hb]
  have hOnly (hPlain : ∀ d, ¬Holds d p.value) (hPlain' : ∀ d, ¬Holds d q.value)
      (hBytes : (String.ofList (dumps Escaping.unicode a)).toUTF8 =
        (String.ofList (dumps Escaping.unicode b)).toUTF8) : Agrees p.value q.value := by
    obtain rfl := bytes_inj hBytes
    exact agrees_of_normalize p.value q.wellFormed hPlain hPlain' ha hb
  constructor
  · rintro ⟨-, hExact, -⟩ d hd
    exact (exact_iff hd ha).mp (hExact d hd)
  · intro hFits
    exact ⟨hSame, fun d hd => (exact_iff hd ha).mpr (hFits d hd), hOnly⟩

/-- A payload of one amount. -/
def amountPayload (d : PyDecimal) : Payload where
  entries := [("amount", .decimal d)]
  wellFormed := .dict (List.nodup_singleton _) fun e he => by
    rw [List.mem_singleton.mp he]
    exact .decimal d

theorem canonicalJson_amount {d : PyDecimal} {s : String} (hSpelling : d.hasExponent = false)
    (h : formatDecimal d = .ok s) :
    canonicalJson (amountPayload d) =
      .ok (String.ofList (dumps Escaping.unicode (.dict [("amount", .text s)]))).toUTF8 := by
  refine canonicalJson_eq_ok_iff.mpr ⟨_, ?_, rfl⟩
  simp only [Payload.value, amountPayload, normalize, normalizeEntries, hSpelling, h]
  rfl

/-- Two spellings of one and a half. -/
theorem canonical_faithful_spellings :
    Agrees (amountPayload ⟨false, 150, -2⟩).value (amountPayload ⟨false, 15, -1⟩).value ∧
      Exact ⟨false, 150, -2⟩ := by
  have hFirst := canonicalJson_amount (d := ⟨false, 150, -2⟩) (s := "1.5") (by decide) (by decide +kernel)
  have hSecond := canonicalJson_amount (d := ⟨false, 15, -1⟩) (s := "1.5") (by decide) (by decide +kernel)
  have hAgrees : Agrees (amountPayload ⟨false, 150, -2⟩).value (amountPayload ⟨false, 15, -1⟩).value := by
    refine .dict (List.Perm.refl _) fun key v w hv hw => ?_
    cases List.mem_singleton.mp hv
    cases List.mem_singleton.mp hw
    exact .decimal (by norm_num [PyDecimal.value])
  have hHolds : Holds ⟨false, 150, -2⟩ (amountPayload ⟨false, 150, -2⟩).value :=
    .dict List.mem_cons_self .decimal
  refine ⟨hAgrees, ((canonical_faithful hFirst hSecond).mpr ?_).2.1 _ hHolds⟩
  intro d hd
  cases hd with
  | dict hMem hEntry =>
      cases List.mem_singleton.mp hMem
      cases hEntry
      exact ⟨150, 0, rfl, by decide⟩

/-- An amount of twenty-nine digits is rounded before it is signed. -/
theorem long_amount_rounded :
    ¬∀ (p : Payload) (m : ByteArray), canonicalJson p = .ok m → ∀ d, Holds d p.value → Exact d := by
  intro h
  have hBytes := canonicalJson_amount (d := ⟨false, 12345678901234567890123456789, 0⟩)
    (s := "12345678901234567890123456790") (by decide +kernel) (by decide +kernel)
  have hHolds : Holds ⟨false, 12345678901234567890123456789, 0⟩
      (amountPayload ⟨false, 12345678901234567890123456789, 0⟩).value := .dict List.mem_cons_self .decimal
  obtain ⟨j, hj, -⟩ := canonicalJson_eq_ok_iff.mp hBytes
  have hFits := (exact_iff hHolds hj).mp (h _ _ hBytes _ hHolds)
  exact absurd ((roundToContext_eq_iff _).mpr hFits) (by decide +kernel)

end Bytes

end GeoLedger.CanonicalJson
