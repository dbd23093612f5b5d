import Mathlib
import GeoLedger.Library.Outcomes
import GeoLedger.Repairs
import GeoLedger.Simulator.InjectSession

/-! What a flush of an event does to the tables. New rows are inserted one after
another, freezes commute with later inserts, and a flush has nothing left to do
after another one. -/
namespace GeoLedger
open Outcomes

variable {env : Env}

section Tables

/-- Freezing a line by two lists of ids is freezing it by both at once. -/
theorem TrustLine.freeze_freeze (l : TrustLine) (ids ids' : List Uuid) :
    (l.freeze ids).freeze ids' = l.freeze (ids ++ ids') := by
  by_cases h : l.id ∈ ids ∧ l.status = .active
  · have hFrozen : l.freeze ids = { l with status := .frozen } := if_pos h
    have hBoth : l.freeze (ids ++ ids') = { l with status := .frozen } := if_pos ⟨List.mem_append_left _ h.1, h.2⟩
    rw [hFrozen, hBoth]
    exact if_neg fun hActive => nomatch hActive.2
  · have hKeep : l.freeze ids = l := if_neg h
    rw [hKeep, TrustLine.freeze, TrustLine.freeze]
    refine if_congr ?_ rfl rfl
    rw [List.mem_append]
    tauto

/-- A line that is active after a freeze was left alone. -/
theorem TrustLine.freeze_eq_self {l : TrustLine} {ids : List Uuid} (h : (l.freeze ids).status = .active) :
    l.freeze ids = l := by
  rw [TrustLine.freeze] at h ⊢
  split at h
  · cases h
  · next hNot => exact if_neg hNot

namespace TrustTable

variable {tl tl' : TrustTable env} {ids ids' : List Uuid}

/-- A table of trust lines is determined by its rows and its number of issued ids. -/
theorem eq_of_rows (hRows : tl'.rows = tl.rows) (hGenerated : tl'.generated = tl.generated) : tl' = tl := by
  cases tl
  cases tl'
  cases hRows
  cases hGenerated
  rfl

/-- The keys of the lines that are not closed. -/
def liveKeys (tl : TrustTable env) : List (Uuid × Uuid × Uuid) :=
  (tl.rows.filter (·.status ≠ .closed)).map TrustLine.key

theorem mem_liveKeys_iff {key : Uuid × Uuid × Uuid} :
    key ∈ tl.liveKeys ↔ ∃ l ∈ tl.rows, l.status ≠ .closed ∧ l.key = key := by
  simp [liveKeys, and_assoc]

/-- A live line of a key is found exactly when the key is among the live ones. -/
theorem live_isSome_iff {a b e : Uuid} : (tl.live a b e).isSome ↔ (a, b, e) ∈ tl.liveKeys := by
  rw [mem_liveKeys_iff, live, List.find?_isSome]
  simp

/-- The live line of a key is the row that has it and is not closed. -/
theorem live_eq_some_iff {a b e : Uuid} {l : TrustLine} :
    tl.live a b e = some l ↔ l ∈ tl.rows ∧ l.status ≠ .closed ∧ l.key = (a, b, e) := by
  have hFind : tl.live a b e = (tl.rows.filter (·.status ≠ .closed)).find? (·.key = (a, b, e)) := by
    rw [live, List.find?_filter]
    simp
  rw [hFind, Rows.find?_eq_some_iff tl.live_unique]
  simp [and_assoc]

theorem freeze_nil (tl : TrustTable env) : tl.freeze [] = tl := by
  refine eq_of_rows ?_ rfl
  change tl.rows.map (TrustLine.freeze []) = tl.rows
  refine (List.map_congr_left fun l _ => ?_).trans (List.map_id _)
  simp [TrustLine.freeze]

/-- Freezing the lines of two lists is freezing those of both at once. -/
theorem freeze_freeze (tl : TrustTable env) (ids ids' : List Uuid) :
    (tl.freeze ids).freeze ids' = tl.freeze (ids ++ ids') := by
  refine eq_of_rows ?_ rfl
  change (tl.rows.map (TrustLine.freeze ids)).map (TrustLine.freeze ids') = tl.rows.map (TrustLine.freeze (ids ++ ids'))
  rw [List.map_map]
  refine List.map_congr_left fun l _ => ?_
  exact l.freeze_freeze ids ids'

/-- Only whether an active line is listed matters for freezing. -/
theorem freeze_congr (h : ∀ l ∈ tl.rows, l.status = .active → (l.id ∈ ids ↔ l.id ∈ ids')) :
    tl.freeze ids = tl.freeze ids' := by
  refine eq_of_rows (List.map_congr_left fun l hl => ?_) rfl
  rw [TrustLine.freeze, TrustLine.freeze]
  exact if_congr (and_congr_left (h l hl)) rfl rfl

@[simp] theorem liveKeys_freeze (tl : TrustTable env) (ids : List Uuid) : (tl.freeze ids).liveKeys = tl.liveKeys := by
  change ((tl.rows.map (TrustLine.freeze ids)).filter (·.status ≠ .closed)).map TrustLine.key = _
  rw [List.filter_map, List.map_map, List.map_congr_left fun l _ => l.freeze_key ids]
  simp [liveKeys, Function.comp_def]

/-- A line can be inserted when none is live and its limit fits. -/
theorem insert_eq_ok_iff {x y w : Uuid} {limit : Amount} {policy : Policy} :
    (∃ tl', tl.insert x y w limit policy = .ok tl') ↔
      (x, y, w) ∉ tl.liveKeys ∧ env.column.fits (env.column.round limit) = true ∧ 0 ≤ env.column.round limit := by
  unfold insert
  split
  · next hLive =>
      refine ⟨?_, fun h => absurd hLive h.1⟩
      rintro ⟨_, h⟩
      cases h
  · next hLive =>
      split
      · next hFits => simp [hFits]
      · next hFits =>
          split
          · next hLimit => simp [hLimit]
          · next hLimit =>
              exact ⟨fun _ => ⟨hLive, eq_true_of_ne_false hFits, not_lt.mp hLimit⟩, fun _ => ⟨_, rfl⟩⟩

/-- Inserting a line issues one id. -/
theorem generated_of_insert {x y w : Uuid} {limit : Amount} {policy : Policy}
    (h : tl.insert x y w limit policy = .ok tl') : tl'.generated = tl.generated + 1 := by
  unfold insert at h
  split at h
  · cases h
  · split at h
    · cases h
    · split at h
      · cases h
      · cases h
        rfl

/-- Freezing lines before an insert or after it is the same. -/
theorem insert_freeze {x y w : Uuid} {limit : Amount} {policy : Policy}
    (hFresh : env.uuid4 tl.generated ∉ ids) (h : tl.insert x y w limit policy = .ok tl') :
    (tl.freeze ids).insert x y w limit policy = .ok (tl'.freeze ids) := by
  have hOk := insert_eq_ok_iff.mp ⟨tl', h⟩
  rw [← liveKeys_freeze tl ids] at hOk
  obtain ⟨tl'', hInsert⟩ := insert_eq_ok_iff.mpr hOk
  have hEq : tl'' = tl'.freeze ids := by
    refine eq_of_rows ?_ ?_
    · rw [rows_of_insert hInsert]
      change tl.rows.map (TrustLine.freeze ids) ++ _ = tl'.rows.map (TrustLine.freeze ids)
      rw [rows_of_insert h, List.map_append, List.map_singleton, TrustLine.freeze, if_neg fun hIn => hFresh hIn.1]
      rfl
    · exact (generated_of_insert hInsert).trans (generated_of_insert h).symm
  rw [hInsert, hEq]

/-- Freezing lines before an insert or after it is the same, also when the insert is refused. -/
theorem insert_freeze_eq {x y w : Uuid} {limit : Amount} {policy : Policy} (hFresh : env.uuid4 tl.generated ∉ ids) :
    (tl.freeze ids).insert x y w limit policy = (tl.insert x y w limit policy).map (·.freeze ids) := by
  cases hInsert : tl.insert x y w limit policy with
  | ok tl' => exact insert_freeze hFresh hInsert
  | error err =>
      have hKeys : (x, y, w) ∈ ((tl.freeze ids).rows.filter (·.status ≠ .closed)).map TrustLine.key ↔
          (x, y, w) ∈ (tl.rows.filter (·.status ≠ .closed)).map TrustLine.key := by
        have := liveKeys_freeze tl ids
        rw [liveKeys, liveKeys] at this
        rw [this]
      unfold insert at hInsert ⊢
      by_cases hLive : (x, y, w) ∈ (tl.rows.filter (·.status ≠ .closed)).map TrustLine.key
      · rw [dif_pos hLive] at hInsert
        rw [dif_pos (hKeys.mpr hLive)]
        exact hInsert
      · rw [dif_neg hLive] at hInsert
        rw [dif_neg (fun h => hLive (hKeys.mp h))]
        split at hInsert
        · next hFits =>
            rw [dif_pos hFits]
            exact hInsert
        · next hFits =>
            split at hInsert
            · next hLimit =>
                rw [dif_neg hFits, dif_pos hLimit]
                exact hInsert
            · cases hInsert

end TrustTable

end Tables

section Inserts

namespace NewLine

variable {x : NewLine} {tl tl' : TrustTable env}

/-- The column holds the limit of the line. -/
def Storable (env : Env) (x : NewLine) : Prop :=
  ∃ limit, x.limit = some limit ∧ env.column.fits (env.column.round limit) = true

/-- A line whose insertion succeeds has a limit that is a number, and is inserted with the
default policy. -/
theorem insert_eq_ok (h : x.insert tl = .ok tl') : ∃ limit, x.limit = some limit ∧
    tl.insert x.key.1 x.key.2.1 x.key.2.2 limit defaultTlPolicy = .ok tl' := by
  unfold insert at h
  split at h
  · cases h
  · next limit hLimit => exact ⟨limit, hLimit, h⟩

/-- A new line can be inserted when none is live and its limit fits. -/
theorem insert_eq_ok_iff : (∃ tl', x.insert tl = .ok tl') ↔
    x.key ∉ tl.liveKeys ∧ x.Storable env ∧ ∀ limit ∈ x.limit, 0 ≤ env.column.round limit := by
  constructor
  · rintro ⟨tl', h⟩
    obtain ⟨limit, hLimit, hInsert⟩ := insert_eq_ok h
    obtain ⟨hLive, hFits, hNonneg⟩ := TrustTable.insert_eq_ok_iff.mp ⟨tl', hInsert⟩
    refine ⟨hLive, ⟨limit, hLimit, hFits⟩, fun other hOther => ?_⟩
    obtain rfl : limit = other := Option.some.inj (hLimit.symm.trans hOther)
    exact hNonneg
  · rintro ⟨hLive, ⟨limit, hLimit, hFits⟩, hNonneg⟩
    obtain ⟨tl', hInsert⟩ := (@TrustTable.insert_eq_ok_iff _ _ _ _ _ limit defaultTlPolicy).mpr
      ⟨hLive, hFits, hNonneg limit hLimit⟩
    refine ⟨tl', ?_⟩
    rw [insert, hLimit]
    exact hInsert

/-- Freezing old lines and inserting a new one may be exchanged. -/
theorem insert_freeze_eq {ids : List Uuid} (hFresh : env.uuid4 tl.generated ∉ ids) :
    x.insert (tl.freeze ids) = (x.insert tl).map (·.freeze ids) := by
  unfold insert
  split
  · rfl
  · exact TrustTable.insert_freeze_eq hFresh

end NewLine

namespace InjectState

variable {xs ys : List NewLine} {tl tl' : TrustTable env}

/-- Added lines are inserted one list after the other. -/
theorem insertAdded_append (xs ys : List NewLine) (tl : TrustTable env) :
    insertAdded (xs ++ ys) tl = insertAdded xs tl >>= insertAdded ys := by
  induction xs generalizing tl with
  | nil => rfl
  | cons x rest ih =>
      rw [List.cons_append, insertAdded, insertAdded]
      cases x.insert tl with
      | error e => rfl
      | ok tl => exact ih tl

theorem insertAdded_singleton (x : NewLine) (tl : TrustTable env) : insertAdded [x] tl = x.insert tl := by
  rw [insertAdded]
  cases x.insert tl with
  | error e => rfl
  | ok tl => rfl

/-- The row that a new line becomes. -/
structure Inserted (env : Env) (first last : Nat) (x : NewLine) (l : TrustLine) : Prop where
  key : l.key = x.key
  limit : ∃ limit, x.limit = some limit ∧ l.limit = env.column.round limit
  active : l.status = .active
  fresh : ∃ n, first ≤ n ∧ n < last ∧ l.id = env.uuid4 n

/-- A line that was inserted between two counts was inserted between any that enclose them. -/
theorem Inserted.mono {first first' last last' : Nat} {x : NewLine} {l : TrustLine}
    (h : Inserted env first last x l) (hFirst : first' ≤ first) (hLast : last ≤ last') :
    Inserted env first' last' x l := by
  obtain ⟨n, hn, hn', hId⟩ := h.fresh
  exact ⟨h.key, h.limit, h.active, n, hFirst.trans hn, hn'.trans_le hLast, hId⟩

/-- The inserted rows stand after the others, one for each new line. -/
theorem insertAdded_rows (h : insertAdded xs tl = .ok tl') :
    tl.generated ≤ tl'.generated ∧
      ∃ rows, tl'.rows = tl.rows ++ rows ∧ List.Forall₂ (Inserted env tl.generated tl'.generated) xs rows := by
  induction xs generalizing tl with
  | nil =>
      cases h
      exact ⟨le_refl _, [], (List.append_nil _).symm, List.Forall₂.nil⟩
  | cons x rest ih =>
      obtain ⟨tl₁, hNew, hRest⟩ := bind_eq_ok_iff.mp h
      obtain ⟨limit, hLimit, hInsert⟩ := NewLine.insert_eq_ok hNew
      obtain ⟨hLe, rows, hRows, hInserted⟩ := ih hRest
      have hGenerated := TrustTable.generated_of_insert hInsert
      have hFirst : tl.generated ≤ tl₁.generated := by omega
      have hHead : Inserted env tl.generated tl'.generated x ⟨env.uuid4 tl.generated, x.key.1, x.key.2.1,
          x.key.2.2, env.column.round limit, some defaultTlPolicy, .active⟩ :=
        ⟨rfl, ⟨limit, hLimit, rfl⟩, rfl, tl.generated, le_rfl, by omega, rfl⟩
      refine ⟨hFirst.trans hLe, _ :: rows, ?_,
        List.Forall₂.cons hHead (hInserted.imp fun y l hl => hl.mono hFirst le_rfl)⟩
      rw [hRows, TrustTable.rows_of_insert hInsert, List.append_assoc]
      rfl

/-- The live keys after the insertion are those before it and those of the inserted lines. -/
theorem mem_liveKeys_insertAdded (h : insertAdded xs tl = .ok tl') {key : Uuid × Uuid × Uuid} :
    key ∈ tl'.liveKeys ↔ key ∈ tl.liveKeys ∨ key ∈ xs.map NewLine.key := by
  obtain ⟨_, rows, hRows, hInserted⟩ := insertAdded_rows h
  have hKeys : (rows.filter (·.status ≠ .closed)).map TrustLine.key = xs.map NewLine.key := by
    clear h hRows
    induction hInserted with
    | nil => rfl
    | cons hHead _ ih =>
        rw [List.filter_cons_of_pos (by simp [hHead.active]), List.map_cons, List.map_cons, hHead.key, ih]
  rw [TrustTable.liveKeys, hRows, List.filter_append, List.map_append, hKeys, List.mem_append]
  rfl

/-- New lines can be inserted when their keys are new and different, and their limits fit. -/
theorem insertAdded_eq_ok_iff : (∃ tl', insertAdded xs tl = .ok tl') ↔ (xs.map NewLine.key).Nodup ∧
    ∀ x ∈ xs, x.key ∉ tl.liveKeys ∧ x.Storable env ∧ ∀ limit ∈ x.limit, 0 ≤ env.column.round limit := by
  induction xs using List.reverseRecOn generalizing tl with
  | nil => exact ⟨fun _ => ⟨List.nodup_nil, by simp⟩, fun _ => ⟨tl, rfl⟩⟩
  | append_singleton rest x ih =>
      rw [insertAdded_append, List.map_append, List.map_singleton]
      constructor
      · rintro ⟨tl', h⟩
        obtain ⟨tl₁, hRest, hLast⟩ := bind_eq_ok_iff.mp h
        rw [insertAdded_singleton] at hLast
        obtain ⟨hNodup, hAll⟩ := ih.mp ⟨tl₁, hRest⟩
        obtain ⟨hLive, hFits⟩ := NewLine.insert_eq_ok_iff.mp ⟨tl', hLast⟩
        rw [mem_liveKeys_insertAdded hRest, not_or] at hLive
        refine ⟨List.nodup_append.mpr ⟨hNodup, List.nodup_singleton _, ?_⟩, fun y hy => ?_⟩
        · intro key hKey key' hKey' hEq
          rw [hEq, List.mem_singleton.mp hKey'] at hKey
          exact hLive.2 hKey
        · rcases List.mem_append.mp hy with hOld | hNew
          · exact hAll y hOld
          · rw [List.mem_singleton.mp hNew]
            exact ⟨hLive.1, hFits⟩
      · rintro ⟨hNodup, hAll⟩
        obtain ⟨hOldNodup, _, hDisjoint⟩ := List.nodup_append.mp hNodup
        obtain ⟨tl₁, hRest⟩ := ih.mpr ⟨hOldNodup, fun y hy => hAll y (List.mem_append_left _ hy)⟩
        obtain ⟨hLive, hFits⟩ := hAll x (List.mem_append_right _ (List.mem_singleton.mpr rfl))
        have hNew : x.key ∉ rest.map NewLine.key := fun hIn =>
          hDisjoint _ hIn _ (List.mem_singleton.mpr rfl) rfl
        obtain ⟨tl', hLast⟩ := NewLine.insert_eq_ok_iff.mpr
          ⟨fun hIn => ((mem_liveKeys_insertAdded hRest).mp hIn).elim hLive hNew, hFits⟩
        exact ⟨tl', bind_eq_ok_iff.mpr ⟨tl₁, hRest, (insertAdded_singleton x tl₁).trans hLast⟩⟩

/-- Freezing lines before the inserts or after them is the same. -/
theorem insertAdded_freeze {ids : List Uuid} (hFresh : ∀ n, tl.generated ≤ n → env.uuid4 n ∉ ids) (xs : List NewLine) :
    insertAdded xs (tl.freeze ids) = (insertAdded xs tl).map (·.freeze ids) := by
  induction xs generalizing tl with
  | nil => rfl
  | cons x rest ih =>
      rw [insertAdded, insertAdded, NewLine.insert_freeze_eq (hFresh _ le_rfl)]
      cases hNew : x.insert tl with
      | error e => rfl
      | ok tl₁ =>
          obtain ⟨limit, _, hInsert⟩ := NewLine.insert_eq_ok hNew
          have hGenerated := TrustTable.generated_of_insert hInsert
          exact ih fun n hn => hFresh n (by omega)

end InjectState

end Inserts

section Debts

namespace DebtTable

variable {t t' : DebtTable env} {a b e : Uuid} {amount : Amount}

/-- A debt is inserted exactly when its rounded amount is positive and fits, its parties
differ and its key is free. -/
theorem insert_eq_ok_iff : (∃ t', t.insert a b e amount = .ok t') ↔
    env.column.fits (env.column.round amount) = true ∧ 0 < env.column.round amount ∧ a ≠ b ∧
      (a, b, e) ∉ t.rows.map Debt.key := by
  constructor
  · rintro ⟨t', h⟩
    unfold insert at h
    split at h
    · cases h
    · next hFits =>
        split at h
        · next hPos =>
            split at h
            · cases h
            · next hLoop =>
                split at h
                · cases h
                · next hKey => exact ⟨eq_true_of_ne_false hFits, hPos, hLoop, hKey⟩
        · cases h
  · rintro ⟨hFits, hPos, hLoop, hKey⟩
    exact insert_eq_ok hFits hPos hLoop (getDebt_eq_none_iff.mpr fun d hd hEq => hKey (List.mem_map.mpr ⟨d, hd, hEq⟩))

/-- No debt is found exactly for the keys that no row has. -/
theorem getDebt_eq_none_iff_keys : t.getDebt a b e = none ↔ (a, b, e) ∉ t.rows.map Debt.key := by
  rw [getDebt_eq_none_iff, List.mem_map]
  push Not
  rfl

/-- Writing an amount leaves the keys as they are. -/
theorem keys_of_write {id : Uuid} (h : t.write id amount = .ok t') : t'.rows.map Debt.key = t.rows.map Debt.key := by
  rw [(rows_of_write h).1]
  exact Rows.map_update Debt.key fun _ => rfl

/-- A write of a row before an insert or after it is the same. -/
theorem insert_write {d : Debt} {x : Amount} {t₁ u : DebtTable env} (hd : d ∈ t.rows)
    (hWrite : t.write d.id x = .ok t₁) (hInsert : t.insert a b e amount = .ok u) :
    ∃ u₁, t₁.insert a b e amount = .ok u₁ ∧ u.write d.id x = .ok u₁ := by
  have hOk := insert_eq_ok_iff.mp ⟨u, hInsert⟩
  rw [← keys_of_write hWrite] at hOk
  obtain ⟨u₁, hInsert₁⟩ := insert_eq_ok_iff.mpr hOk
  obtain ⟨u₂, hWrite₂⟩ := (@write_eq_ok_iff _ u d.id _).mpr (write_eq_ok_iff.mp ⟨t₁, hWrite⟩)
  obtain ⟨hRows, hGenerated, _⟩ := rows_of_write hWrite
  obtain ⟨hRows₁, hGenerated₁, _⟩ := rows_of_insert hInsert₁
  obtain ⟨hRows₂, hGenerated₂, _⟩ := rows_of_write hWrite₂
  obtain ⟨hRowsU, hGeneratedU, _⟩ := rows_of_insert hInsert
  have hFresh : env.uuid4 t.generated ≠ d.id := (t.uuid4_generated_ne hd).symm
  refine ⟨u₁, hInsert₁, ?_⟩
  have hEq : u₂ = u₁ := by
    refine eq_of_rows ?_ ?_
    · rw [hRows₂, hRowsU, hRows₁, hRows, hGenerated, Rows.update, Rows.update, List.map_append,
        List.map_singleton, if_neg hFresh]
    · rw [hGenerated₂, hGeneratedU, hGenerated₁, hGenerated]
  rw [hWrite₂, hEq]

end DebtTable

namespace InjectSession

variable {xs : List NewDebt} {t t' : DebtTable env}

/-- Added debts are inserted one list after the other. -/
theorem insertDebts_append (xs ys : List NewDebt) (t : DebtTable env) :
    insertDebts (xs ++ ys) t = insertDebts xs t >>= insertDebts ys := by
  induction xs generalizing t with
  | nil => rfl
  | cons x rest ih =>
      rw [List.cons_append, insertDebts, insertDebts]
      cases t.insert x.key.1 x.key.2.1 x.key.2.2 x.amount with
      | error e => rfl
      | ok t => exact ih t

theorem insertDebts_singleton (x : NewDebt) (t : DebtTable env) :
    insertDebts [x] t = t.insert x.key.1 x.key.2.1 x.key.2.2 x.amount := by
  rw [insertDebts]
  cases t.insert x.key.1 x.key.2.1 x.key.2.2 x.amount with
  | error e => rfl
  | ok t => rfl

/-- The keys after the insertion are those before it and those of the inserted debts. -/
theorem mem_keys_insertDebts (h : insertDebts xs t = .ok t') {key : Uuid × Uuid × Uuid} :
    key ∈ t'.rows.map Debt.key ↔ key ∈ t.rows.map Debt.key ∨ key ∈ xs.map NewDebt.key := by
  induction xs generalizing t with
  | nil =>
      cases h
      simp
  | cons x rest ih =>
      obtain ⟨t₁, hInsert, hRest⟩ := bind_eq_ok_iff.mp h
      rw [ih hRest, (DebtTable.rows_of_insert hInsert).1, List.map_append, List.map_singleton, List.map_cons,
        List.mem_append, List.mem_singleton, List.mem_cons]
      exact or_assoc

/-- Debts that could be inserted had no row before. -/
theorem not_mem_keys_of_insertDebts (h : insertDebts xs t = .ok t') {x : NewDebt} (hx : x ∈ xs) :
    x.key ∉ t.rows.map Debt.key := by
  induction xs generalizing t with
  | nil => cases hx
  | cons y rest ih =>
      obtain ⟨t₁, hInsert, hRest⟩ := bind_eq_ok_iff.mp h
      rcases List.mem_cons.mp hx with rfl | hTail
      · exact (DebtTable.insert_eq_ok_iff.mp ⟨t₁, hInsert⟩).2.2.2
      · intro hIn
        refine ih hRest hTail ?_
        rw [(DebtTable.rows_of_insert hInsert).1, List.map_append]
        exact List.mem_append_left _ hIn

/-- The rows that stood before the inserts still do. -/
theorem mem_insertDebts (h : insertDebts xs t = .ok t') {d : Debt} (hd : d ∈ t.rows) : d ∈ t'.rows := by
  induction xs generalizing t with
  | nil =>
      cases h
      exact hd
  | cons x rest ih =>
      obtain ⟨t₁, hInsert, hRest⟩ := bind_eq_ok_iff.mp h
      refine ih hRest ?_
      rw [(DebtTable.rows_of_insert hInsert).1]
      exact List.mem_append_left _ hd

/-- Whether debts can be inserted depends on the keys of the table. -/
theorem insertDebts_congr {u : DebtTable env} (hKeys : u.rows.map Debt.key = t.rows.map Debt.key)
    (h : insertDebts xs t = .ok t') : ∃ u', insertDebts xs u = .ok u' := by
  induction xs generalizing t u with
  | nil => exact ⟨u, rfl⟩
  | cons x rest ih =>
      obtain ⟨t₁, hInsert, hRest⟩ := bind_eq_ok_iff.mp h
      have hOk := DebtTable.insert_eq_ok_iff.mp ⟨t₁, hInsert⟩
      rw [← hKeys] at hOk
      obtain ⟨u₁, hInsert₁⟩ := DebtTable.insert_eq_ok_iff.mpr hOk
      have hKeys₁ : u₁.rows.map Debt.key = t₁.rows.map Debt.key := by
        rw [(DebtTable.rows_of_insert hInsert₁).1, (DebtTable.rows_of_insert hInsert).1, List.map_append,
          List.map_append, hKeys]
        rfl
      obtain ⟨u', hRest₁⟩ := ih hKeys₁ hRest
      exact ⟨u', bind_eq_ok_iff.mpr ⟨u₁, hInsert₁, hRest₁⟩⟩

/-- Writing an old debt and inserting new ones may be exchanged. -/
theorem insertDebts_write {d : Debt} {x : Amount} {t₁ : DebtTable env} (hd : d ∈ t.rows)
    (hWrite : t.write d.id x = .ok t₁) (h : insertDebts xs t = .ok t') :
    ∃ t₁', insertDebts xs t₁ = .ok t₁' ∧ t'.write d.id x = .ok t₁' := by
  induction xs generalizing t t₁ with
  | nil =>
      cases h
      exact ⟨t₁, rfl, hWrite⟩
  | cons y rest ih =>
      obtain ⟨u, hInsert, hRest⟩ := bind_eq_ok_iff.mp h
      obtain ⟨u₁, hInsert₁, hWrite₁⟩ := DebtTable.insert_write hd hWrite hInsert
      have hMem : d ∈ u.rows := by
        rw [(DebtTable.rows_of_insert hInsert).1]
        exact List.mem_append_left _ hd
      obtain ⟨t₁', hRest₁, hLast⟩ := ih hMem hWrite₁ hRest
      exact ⟨t₁', bind_eq_ok_iff.mpr ⟨u₁, hInsert₁, hRest₁⟩, hLast⟩

end InjectSession

end Debts

section Flush

namespace InjectState

variable (s : InjectState env)

/-- The lines that a flush leaves. -/
def lines : Except GeoError (TrustTable env) :=
  (insertAdded s.added s.flushed.db.trustLines).map (·.freeze s.frozen)

/-- The session with its lines flushed. -/
def settle (tl : TrustTable env) : InjectState env :=
  { s with flushed := s.flushed.setTrustLines tl, added := [], frozen := [] }

/-- A flush of a running session inserts the lines and then the debts, and fails where one
of them does. -/
theorem flush_eq (hRunning : s.failed = false) : s.flush =
    match s.lines with
    | .error _ => { s with failed := true }
    | .ok tl => s.settle tl := by
  rw [flush, if_neg (by simp [hRunning]), lines]
  cases insertAdded s.added s.flushed.db.trustLines with
  | error e => rfl
  | ok tl => rfl

/-- A settled session has no lines left to insert. -/
theorem lines_settle (tl : TrustTable env) : (s.settle tl).lines = .ok tl :=
  congrArg Except.ok tl.freeze_nil

end InjectState

namespace InjectSession

variable {s : InjectSession env} {tl : TrustTable env} {t : DebtTable env}

/-- The debts that a flush leaves. -/
def debts (s : InjectSession env) : Except GeoError (DebtTable env) := insertDebts s.addedDebts s.base.flushed.db.debts

/-- The session with nothing left to flush. -/
def settle (s : InjectSession env) (tl : TrustTable env) (t : DebtTable env) : InjectSession env :=
  { s with base := { s.base.settle tl with flushed := (s.base.flushed.setTrustLines tl).setDebts t }, addedDebts := [] }

/-- The flush of a session succeeds with these lines and debts. What is to be
frozen has been flushed. -/
structure Settles (s : InjectSession env) (tl : TrustTable env) (t : DebtTable env) : Prop where
  running : s.base.failed = false
  lines : s.base.lines = .ok tl
  debts : s.debts = .ok t
  issued : ∀ id ∈ s.base.frozen, ∃ n < s.base.flushed.db.trustLines.generated, id = env.uuid4 n

/-- The flush of a session that settles stores exactly the settled tables. -/
theorem Settles.flush_eq (h : s.Settles tl t) : s.flush = s.settle tl t := by
  have hBase : s.base.flush = s.base.settle tl := by rw [s.base.flush_eq h.running, h.lines]
  have hDebts : insertDebts s.addedDebts s.base.flushed.db.debts = .ok t := h.debts
  have hRunning : (s.base.settle tl).failed = false := h.running
  rw [flush, hBase, hRunning, if_neg Bool.false_ne_true, hDebts]
  rfl

/-- The tables in which a session settles are determined by it. -/
theorem Settles.unique {tl' : TrustTable env} {t' : DebtTable env} (h : s.Settles tl t) (h' : s.Settles tl' t') :
    tl' = tl ∧ t' = t := by
  have hLines := h.lines.symm.trans h'.lines
  have hDebts := h.debts.symm.trans h'.debts
  cases hLines
  cases hDebts
  exact ⟨rfl, rfl⟩

/-- A session that has settled settles again in the same tables. -/
theorem settles_settle (h : s.Settles tl t) : (s.settle tl t).Settles tl t where
  running := h.running
  lines := congrArg Except.ok tl.freeze_nil
  debts := rfl
  issued _ hId := nomatch hId

/-- The lines that wait to be frozen are flushed ones. -/
def Issued (s : InjectSession env) : Prop :=
  ∀ id ∈ s.base.frozen, ∃ n < s.base.flushed.db.trustLines.generated, id = env.uuid4 n

/-- A flush of a running session fails it, or succeeds. -/
theorem flush_cases (hRunning : s.base.failed = false) (hIssued : s.Issued) :
    s.flush = s.fail ∨ ∃ tl t, s.Settles tl t := by
  cases hLines : s.base.lines with
  | error e =>
      left
      have hBase : s.base.flush = { s.base with failed := true } := by rw [s.base.flush_eq hRunning, hLines]
      rw [flush, hBase, if_pos rfl]
      rfl
  | ok tl =>
      cases hDebts : s.debts with
      | error e =>
          left
          have hBase : s.base.flush = s.base.settle tl := by rw [s.base.flush_eq hRunning, hLines]
          have hInsert : insertDebts s.addedDebts s.base.flushed.db.debts = .error e := hDebts
          have hStill : (s.base.settle tl).failed = false := hRunning
          rw [flush, hBase, hStill, if_neg Bool.false_ne_true, hInsert]
      | ok t => exact Or.inr ⟨tl, t, hRunning, hLines, hDebts, hIssued⟩

/-- The flush of a session that has failed does nothing. -/
theorem flush_of_failed (h : s.base.failed = true) : s.flush = s := by
  have hBase : s.base.flush = s.base := if_pos h
  rw [flush, hBase, if_pos h]

/-- A flush fails the session, or the session was one that settles. -/
theorem flush_failed_iff (hIssued : s.Issued) : s.flush.base.failed = true ↔ ∀ tl t, ¬s.Settles tl t := by
  constructor
  · intro hFailed tl t h
    rw [h.flush_eq] at hFailed
    exact absurd (h.running.symm.trans hFailed) Bool.false_ne_true
  · intro hNone
    cases hRunning : s.base.failed with
    | true => rw [flush_of_failed hRunning, hRunning]
    | false =>
        rcases flush_cases hRunning hIssued with hFailed | ⟨tl, t, h⟩
        · rw [hFailed]
          rfl
        · exact absurd h (hNone tl t)

/-- A flush keeps that all ids of the session have been issued. -/
theorem flush_issued (hIssued : s.Issued) : s.flush.Issued := by
  cases hRunning : s.base.failed with
  | true =>
      rw [flush_of_failed hRunning]
      exact hIssued
  | false =>
      rcases flush_cases hRunning hIssued with hFailed | ⟨tl, t, h⟩
      · rw [hFailed]
        exact hIssued
      · rw [h.flush_eq]
        exact (settles_settle h).issued

end InjectSession

end Flush

end GeoLedger
