import ControlPlane.Memory.Store
import ControlPlane.Lib.Phases

/-! # Exporting and importing memories

An export is a file with one line for each record. The lines end in `'\n'`, while the reader cuts the
file at every Unicode line boundary, and three of these are not escaped in a JSON text: U+0085, U+2028
and U+2029. A record with one of them in a string or a key is cut into pieces, and no piece is read as
a record (`import_line`). So the import gives back the records of the store if and only if no record
holds one of the three characters (`roundTrip_iff`). -/

namespace ControlPlane.Memory.Export

open ControlPlane.Lib.Value ControlPlane.Lib.Print ControlPlane.Lib.RoundTrip ControlPlane.Lib.Dumps
open ControlPlane.Lib.Dynamic ControlPlane.Lib.Text ControlPlane.Lib.Phases ControlPlane.Lib.Runs
open ControlPlane.Lib.Grid ControlPlane.Environment ControlPlane.Instance ControlPlane.Memory.Store

variable {F : Type} {E : Env F} {overlong : Overlong}

/-! ### The lines of a file -/

variable (E overlong) in
/-- The records of a store after an export and an import into an empty store. -/
def roundTrip (t : Table F) : Except Failure (List (Record F)) := do
  let text ← lift (exportJsonl E overlong t)
  let (t', _) ← importJsonl E overlong (some text) empty
  lift (listRecords E overlong t')

/-- No string and no key of the record holds a line boundary that JSON leaves as it is. -/
def LineSafe (r : Record F) : Prop := ∀ c ∈ chars (.obj r.entries), ¬ RawBreak c

instance (r : Record F) : Decidable (LineSafe r) :=
  List.decidableBAll (fun c => ¬ RawBreak c) (chars (.obj r.entries))

variable (E) in
/-- The line of a record. -/
def lineOf (r : Record F) : List Char := print E.T.toFloatText (spaced false) 0 (.obj r.entries)

/-- A record that has a text. -/
def Printable (E : Env F) (r : Record F) : Prop :=
  printable E.T.toFloatText true (.obj r.entries) = true

theorem exportLines_eq {rs : List (Record F)} (h : ∀ r ∈ rs, Printable E r) :
    exportLines E rs = .ok (String.ofList (unlines (rs.map (lineOf E)))) := by
  induction rs with
  | nil => rfl
  | cons r rs ih =>
    rw [List.forall_mem_cons] at h
    have hl : jsonDumps E.T (spaced false) (.obj r.entries) = .ok (String.ofList (lineOf E r)) :=
      (jsonDumps_eq_ok E.T).mpr ⟨h.1, rfl⟩
    rw [exportLines, exportLine, hl, ih h.2]
    simp [unlines, bind, Except.bind, pure, Except.pure]

/-- The lines that the reader makes of the line of a record, blank ones apart. -/
def pieces (E : Env F) (r : Record F) : List String :=
  ((splitlines (lineOf E r ++ ['\n'])).map String.ofList).filter fun line => strip line != ""

theorem lines_eq (rs : List (Record F)) :
    (((splitlines (unlines (rs.map (lineOf E)))).map String.ofList).filter fun line =>
      strip line != "") = rs.flatMap (pieces E) := by
  have hr : ∀ l ∈ rs.map (lineOf E), '\r' ∉ l := by
    intro l hl
    obtain ⟨r, -, rfl⟩ := List.mem_map.mp hl
    exact no_return (oneLine_spaced false) _ _
  rw [splitlines_unlines_flatMap hr, List.flatMap_map, List.map_flatMap, List.filter_flatMap]
  rfl

/-! ### Reading the lines -/

theorem pieces_safe {r : Record F} (hs : LineSafe r) :
    pieces E r = [String.ofList (lineOf E r)] := by
  have hb : ∀ c ∈ lineOf E r, isBreak c = false := by
    intro c hc
    by_contra h
    rw [Bool.not_eq_false] at h
    obtain ⟨d, hd, hd'⟩ := (break_print (T := E.T.toFloatText) (oneLine_spaced false) rfl
      (.obj r.entries) 0).mp ⟨c, hc, h⟩
    exact hs d hd hd'
  have hne : strip (String.ofList (lineOf E r)) ≠ "" := by
    have hhead : ∃ cs, lineOf E r = '{' :: cs := by
      unfold lineOf
      cases r.entries with
      | nil => exact ⟨_, by rw [print]⟩
      | cons p d => exact ⟨_, by rw [print]⟩
    obtain ⟨cs, hcs⟩ := hhead
    have hstrip := @head?_strip (String.ofList (lineOf E r)) '{' cs
      (by rw [String.toList_ofList, hcs]) (by decide)
    intro he
    rw [he] at hstrip
    cases hstrip
  rw [pieces, splitlines_append hb]
  have hnil : splitlines [] = [] := rfl
  rw [hnil, List.map_cons, List.map_nil, List.filter_cons, if_pos (by simpa using hne),
    List.filter_nil]

theorem readRecord_line {r : Record F} (hp : Printable E r) :
    readRecord E overlong (String.ofList (lineOf E r)) = .ok (some r) := by
  have hd : dumps E.T.toFloatText (spaced false) true (.obj r.entries) =
      some (String.ofList (lineOf E r)) := dumps_eq_some.mpr ⟨hp, rfl⟩
  have hl := loads_dumps r.wellFormed hd (b := []) (by simp)
  rw [List.append_nil, String.ofList_toList] at hl
  exact readRecord_eq_some.mpr ((jsonLoads_eq_ok E).mpr hl)

/-- **No piece of a line that was cut is a record.** -/
theorem pieces_unsafe {r : Record F} (hs : ¬ LineSafe r) {text : String} (ht : text ∈ pieces E r)
    {d : Record F} (hd : readRecord E overlong text = .ok (some d)) : hasId E d = false := by
  have hbreak : ∃ c ∈ lineOf E r, isBreak c = true := by
    refine (break_print (oneLine_spaced false) rfl (.obj r.entries) 0).mpr ?_
    unfold LineSafe at hs
    push Not at hs
    exact hs
  obtain ⟨x, hx, rfl⟩ := List.mem_map.mp (List.mem_of_mem_filter ht)
  have htidy : Tidy .outside (lineOf E r) := by
    have h := tidy_print (T := E.T.toFloatText) (oneLine_spaced false) (.obj r.entries) 0
      (r := []) trivial
    rwa [List.append_nil] at h
  have hparse : parse E.T.toFloatText x = some (.obj d.entries) := by
    have hl := (jsonLoads_eq_ok E).mp (readRecord_eq_some.mp hd)
    rw [loads, String.toList_ofList] at hl
    exact (Option.filter_eq_some_iff.mp hl).1
  have hodd := lines_broken htidy (no_return (oneLine_spaced false) _ _) hbreak hx hparse
  have hid : lookup "id" d.entries = none := by
    rw [lookup_eq_none]
    intro hk
    obtain ⟨p, hp, he⟩ := List.mem_map.mp hk
    have hends := hodd p hp
    rw [he] at hends
    exact absurd (hends 'i' rfl) (by decide)
  rw [hasId, getKey, hid]
  rfl

/-- What an import reads of one line. -/
theorem import_line {r : Record F} (hid : hasId E r = true) (hp : Printable E r)
    {x : List (Record F)} (hx : readRecords E overlong (pieces E r) = .ok x) :
    x.filter (hasId E) = [r].filter fun r => decide (LineSafe r) := by
  by_cases hs : LineSafe r
  · have hr := @readRecords_map F E overlong _ (fun r => String.ofList (lineOf E r)) id [r]
      fun r' h => by
        rw [List.mem_singleton.mp h]
        exact readRecord_line hp
    rw [pieces_safe hs] at hx
    rw [List.map_singleton, hx] at hr
    cases hr
    simp [hid, hs]
  · have hnone : ∀ d ∈ x, hasId E d = false := by
      intro d hd
      obtain ⟨text, ht, hr⟩ := mem_readRecords hx hd
      exact pieces_unsafe hs ht hr
    have hf : x.filter (hasId E) = [] := List.filter_eq_nil_iff.mpr fun d hd => by simp [hnone d hd]
    simp [hf, hs]

/-- **What an import reads of an exported file**: the records that hold no raw line boundary. -/
theorem import_lines {rs x : List (Record F)} (h : ∀ r ∈ rs, hasId E r = true ∧ Printable E r)
    (hx : readRecords E overlong (rs.flatMap (pieces E)) = .ok x) :
    x.filter (hasId E) = rs.filter fun r => decide (LineSafe r) := by
  induction rs generalizing x with
  | nil =>
    cases hx
    rfl
  | cons r rs ih =>
    rw [List.forall_mem_cons] at h
    rw [List.flatMap_cons] at hx
    obtain ⟨a, b, ha, hb, rfl⟩ := readRecords_append.mp hx
    have h1 := import_line h.1.1 h.1.2 ha
    have h2 := ih h.2 hb
    have hcons : r :: rs = [r] ++ rs := rfl
    rw [List.filter_append, h1, h2, hcons, List.filter_append]

/-- The records without a raw line boundary are read. -/
theorem import_safe {rs : List (Record F)} (h : ∀ r ∈ rs, Printable E r)
    (hs : ∀ r ∈ rs, LineSafe r) : readRecords E overlong (rs.flatMap (pieces E)) = .ok rs := by
  have he : rs.flatMap (pieces E) = rs.map fun r => String.ofList (lineOf E r) := by
    rw [List.map_eq_flatMap]
    exact List.flatMap_congr fun r hr => pieces_safe (hs r hr)
  have hm := @readRecords_map F E overlong _ (fun r => String.ofList (lineOf E r)) id rs
    fun r hr => readRecord_line (h r hr)
  rw [List.map_id] at hm
  rw [he, hm]

/-! ### Filling the empty store -/

theorem toFloat_sortKeys (v : Json F) : E.toFloat (sortKeys v) = E.toFloat v := by
  cases v <;> simp [Env.toFloat, typeName]

/-- A string among the values of a record is the same among its sorted values. -/
theorem lookup_str {r : Record F} {k s : String} (h : lookup k r.sorted.entries = some (.str s)) :
    lookup k r.entries = some (.str s) := by
  rw [lookup_sorted] at h
  obtain ⟨v, hv, hs⟩ := Option.map_eq_some_iff.mp h
  cases v with
  | str s' => rw [hv, ← hs, sortKeys_str]
  | arr xs => rw [sortKeys_arr] at hs; cases hs
  | obj d => rw [sortKeys_obj] at hs; cases hs
  | _ => cases hs

theorem str_sortKeys {v : Json F} {text : String} (h : E.str v = .ok text) :
    ∃ text', E.str (sortKeys v) = .ok text' := by
  have hp := ((pyStr_eq_ok E.T).mp h).1
  exact ⟨_, (pyStr_eq_ok E.T).mpr ⟨by rwa [printable_sortKeys], rfl⟩⟩

theorem getD_sorted (r : Record F) (k : String) {v : Json F} (hv : sortKeys v = v) :
    (lookup k r.sorted.entries).getD v = sortKeys ((lookup k r.entries).getD v) := by
  rw [lookup_sorted]
  cases lookup k r.entries with
  | none => exact hv.symm
  | some w => rfl

/-- The row of a record that was read back. -/
theorem payload_sorted {r : Record F} {row : Row F} (h : payload E r = .ok row) :
    ∃ row', payload E r.sorted = .ok row' ∧ row'.recordJson = row.recordJson ∧
      row'.confidence = row.confidence ∧
      (∀ s, lookup "id" r.entries = some (.str s) → row'.id = row.id) ∧
      (∀ s, (lookup "created_at" r.entries).getD (.str "") = .str s →
        row'.createdAt = row.createdAt) := by
  unfold payload at h
  cases hk : lookup "id" r.entries with
  | none =>
    rw [hk] at h
    cases h
  | some key =>
    rw [hk] at h
    simp only [lift_eq_ok, bind_eq_ok] at h
    obtain ⟨id, hid, type, ht, created, hc, verified, hv, x, hx, text, htext, h⟩ := h
    cases h
    obtain ⟨id', hid'⟩ := str_sortKeys hid
    obtain ⟨type', ht'⟩ := str_sortKeys ht
    obtain ⟨created', hc'⟩ := str_sortKeys hc
    obtain ⟨verified', hv'⟩ := str_sortKeys hv
    have hkey : lookup "id" r.sorted.entries = some (sortKeys key) := by
      rw [lookup_sorted, hk]
      rfl
    have htype : E.strOr r.sorted.entries "type" "pattern" = .ok type' := by
      rw [Env.strOr, getD_sorted r "type" rfl]
      exact ht'
    have hcreated : E.strOr r.sorted.entries "created_at" "" = .ok created' := by
      rw [Env.strOr, getD_sorted r "created_at" rfl]
      exact hc'
    have hverified : E.str ((lookup "verified_at" r.sorted.entries).getD
        ((lookup "created_at" r.sorted.entries).getD (.str ""))) = .ok verified' := by
      rw [getD_sorted r "created_at" rfl, ← hv']
      congr 1
      rw [lookup_sorted]
      cases lookup "verified_at" r.entries <;> rfl
    have hconfidence : E.toFloat ((lookup "confidence" r.sorted.entries).getD
        (.float (E.T.ofRat 0))) = .ok x := by
      rw [getD_sorted r "confidence" rfl, toFloat_sortKeys]
      exact hx
    have hjson : jsonDumps E.T (spaced false) (sortKeys (.obj r.sorted.entries)) = .ok text := by
      have he : sortKeys (.obj r.sorted.entries) = sortKeys (.obj r.entries) := by
        rw [sortKeys_obj', sortKeys_obj']
        exact congrArg _ (sortDict_sortDict r.entries)
      rw [he]
      exact htext
    refine ⟨⟨id', type', created', verified', x, text⟩, ?_, rfl, rfl, fun s hs => ?_,
      fun s hs => ?_⟩
    · rw [payload, hkey]
      simp only [lift_eq_ok, bind_eq_ok]
      exact ⟨id', hid', type', htype, created', hcreated, verified', hverified, x, hconfidence, text,
        hjson, rfl⟩
    · rw [Option.some.injEq] at hs
      rw [hs, sortKeys_str] at hid'
      rw [hs] at hid
      exact Except.ok.inj (hid'.symm.trans hid)
    · rw [Env.strOr, hs] at hc
      rw [hs, sortKeys_str] at hc'
      exact Except.ok.inj (hc'.symm.trans hc)

/-- New rows are inserted. -/
theorem importRecords_new {rs : List (Record F)} {rows : List (Row F)}
    (hp : List.Forall₂ (fun r row => payload E r = .ok row) rs rows) :
    ∀ {t : Table F} {n : ℕ}, (∀ row ∈ rows, isNull E row.confidence = false) →
    ((t.rows ++ rows).map Row.id).Nodup →
    ∃ t' n', importRecords E t n rs = .ok (t', n') ∧ t'.rows = t.rows ++ rows := by
  induction hp with
  | nil =>
    intro t n _ _
    exact ⟨t, n, rfl, (List.append_nil _).symm⟩
  | @cons r row rs rows hr hp ih =>
    intro t n hn hd
    rw [List.forall_mem_cons] at hn
    have hf : t.has row.id = false := by
      rw [Table.has_eq_false]
      rw [List.map_append, List.nodup_append] at hd
      exact fun hm => hd.2.2 _ hm _ (by simp) rfl
    have hi : insertOrIgnore E t row = (t.push row hf, 1) := by
      rw [insertOrIgnore, if_neg (by simp [hn.1]), dif_pos hf]
    have hd' : (((t.push row hf).rows ++ rows).map Row.id).Nodup := by
      simpa [Table.push] using hd
    obtain ⟨t', n', h, ht'⟩ := @ih (t.push row hf) (n + 1) hn.2 hd'
    refine ⟨t', n', ?_, by simpa [Table.push] using ht'⟩
    rw [importRecords, hr]
    dsimp only [bind, Except.bind]
    rw [hi]
    exact h

theorem length_importRecords {rs : List (Record F)} : ∀ {t t' : Table F} {n n' : ℕ},
    importRecords E t n rs = .ok (t', n') → t'.rows.length ≤ t.rows.length + rs.length := by
  induction rs with
  | nil =>
    intro t t' n n' h
    cases h
    exact le_rfl
  | cons r rs ih =>
    intro t t' n n' h
    obtain ⟨row, -, h⟩ := bind_eq_ok.mp h
    have hl : t'.rows.length ≤ (insertOrIgnore E t row).1.rows.length + rs.length := ih h
    have hi : (insertOrIgnore E t row).1.rows.length ≤ t.rows.length + 1 := by
      unfold insertOrIgnore
      split_ifs
      · exact Nat.le_succ _
      · simp [Table.push]
      · exact Nat.le_succ _
    rw [List.length_cons]
    omega

/-! ### The round trip -/

/-- Rows are listed by text, and rows of one time by identifier. -/
theorem rowLE_total (a b : Row F) : rowLE a b ∨ rowLE b a := by
  rcases lt_trichotomy a.createdAt b.createdAt with h | h | h
  · exact Or.inl (Or.inl h)
  · rcases le_total a.id b.id with hi | hi
    · exact Or.inl (Or.inr ⟨h, hi⟩)
    · exact Or.inr (Or.inr ⟨h.symm, hi⟩)
  · exact Or.inr (Or.inl h)

theorem rowLE_trans {a b c : Row F} (h1 : rowLE a b) (h2 : rowLE b c) : rowLE a c := by
  rcases h1 with h1 | ⟨e1, h1⟩
  · rcases h2 with h2 | ⟨e2, -⟩
    · exact Or.inl (h1.trans h2)
    · exact Or.inl (e2 ▸ h1)
  · rcases h2 with h2 | ⟨e2, h2⟩
    · exact Or.inl (e1 ▸ h2)
    · exact Or.inr ⟨e1.trans e2, h1.trans h2⟩

instance : Std.Total (rowLE (F := F)) := ⟨rowLE_total⟩

instance : IsTrans (Row F) rowLE := ⟨fun _ _ _ => rowLE_trans⟩

/-- The records of a table that the methods built, as they are listed, and the rows that an import
makes of them. -/
theorem rows_again {t : Table F} (h : Held E t) {rs : List (Record F)}
    (hl : listRecords E overlong t = .ok rs)
    (hid : ∀ r ∈ rs, ∃ s, s ≠ "" ∧ lookup "id" r.entries = some (.str s)) :
    ∃ plus : Row F → Row F,
      rs = (t.rows.insertionSort rowLE).map (fun row => recordAt E overlong row.recordJson) ∧
      ∀ row ∈ t.rows, payload E (recordAt E overlong row.recordJson) = .ok (plus row) ∧
        Printable E (recordAt E overlong row.recordJson) ∧
        (plus row).recordJson = row.recordJson ∧ isNull E (plus row).confidence = false ∧
        (plus row).id = row.id ∧
        (∀ s, (lookup "created_at" (recordAt E overlong row.recordJson).entries).getD (.str "") =
          .str s → (plus row).createdAt = row.createdAt) := by
  have hrs : rs = (t.rows.insertionSort rowLE).map
      (fun row => recordAt E overlong row.recordJson) := by
    rw [listRecords_held h, Except.ok.injEq] at hl
    rw [← hl, Table.texts, List.map_map]
    rfl
  have key : ∀ row ∈ t.rows, ∃ row', payload E (recordAt E overlong row.recordJson) = .ok row' ∧
      Printable E (recordAt E overlong row.recordJson) ∧
      row'.recordJson = row.recordJson ∧ isNull E row'.confidence = false ∧
      row'.id = row.id ∧
      (∀ s, (lookup "created_at" (recordAt E overlong row.recordJson).entries).getD (.str "") =
        .str s → row'.createdAt = row.createdAt) := by
    intro row hrow
    obtain ⟨hn, r, hp⟩ := h row hrow
    obtain ⟨hpr, -, -, hj⟩ := payload_eq_ok hp
    have hat : recordAt E overlong row.recordJson = r.sorted := by
      have hread := @readRecord_text F E overlong r hpr
      rw [← hj] at hread
      rw [recordAt, hread]
    obtain ⟨row', hp', hjson, hconf, hident, htime⟩ := payload_sorted hp
    have hmem : r.sorted ∈ rs := by
      rw [hrs, ← hat]
      exact List.mem_map_of_mem ((List.perm_insertionSort rowLE t.rows).mem_iff.mpr hrow)
    obtain ⟨s, -, hs⟩ := hid _ hmem
    have hpr' : Printable E r.sorted := by
      rw [← printable_sortKeys, sortKeys_obj'] at hpr
      exact hpr
    rw [hat]
    refine ⟨row', hp', hpr', hjson, by rw [hconf, hn], hident s (lookup_str hs), fun u hu => ?_⟩
    refine htime u ?_
    rw [lookup_sorted] at hu
    cases hc : lookup "created_at" r.entries with
    | none =>
      rw [hc] at hu
      exact hu
    | some v =>
      rw [hc] at hu
      have hlk : lookup "created_at" r.sorted.entries = some (.str u) := by
        rw [lookup_sorted, hc]
        exact congrArg some hu
      have hv := lookup_str hlk
      rw [hc, Option.some.injEq] at hv
      exact hv
  choose! plus hplus using key
  exact ⟨plus, hrs, hplus⟩

section RoundTrip
variable {t : Table F} {rs : List (Record F)} (h : Held E t)
  (hl : listRecords E overlong t = .ok rs)
  (hid : ∀ r ∈ rs, ∃ s, s ≠ "" ∧ lookup "id" r.entries = some (.str s))
include h hl hid

theorem hasId_listed : ∀ r ∈ rs, hasId E r = true ∧ Printable E r := by
  obtain ⟨plus, hrs, hplus⟩ := rows_again h hl hid
  intro r hm
  obtain ⟨s, hs, hk⟩ := hid r hm
  refine ⟨by simp [hasId, getKey, hk, truthy, hs], ?_⟩
  rw [hrs] at hm
  obtain ⟨row, hrow, rfl⟩ := List.mem_map.mp hm
  exact (hplus row ((List.perm_insertionSort rowLE t.rows).mem_iff.mp hrow)).2.1

/-- What an import into the empty store does with the exported text. -/
theorem roundTrip_eq : roundTrip E overlong t = (do
    let records ← lift (readRecords E overlong (rs.flatMap (pieces E)))
    let (t', _) ← importRecords E empty 0 (records.filter (hasId E))
    lift (listRecords E overlong t')) := by
  have hexport : exportJsonl E overlong t =
      .ok (String.ofList (unlines (rs.map (lineOf E)))) := by
    rw [exportJsonl, hl]
    exact exportLines_eq fun r hm => (hasId_listed h hl hid r hm).2
  have hread : readJsonl E overlong (String.ofList (unlines (rs.map (lineOf E)))) = (do
      let records ← readRecords E overlong (rs.flatMap (pieces E))
      return records.filter (hasId E)) := by
    rw [readJsonl, String.toList_ofList, lines_eq]
  rw [roundTrip, hexport]
  dsimp only [lift, Except.mapError, bind, Except.bind]
  rw [importJsonl, hread]
  cases readRecords E overlong (rs.flatMap (pieces E)) <;> rfl

/-- Records without a raw line boundary are all inserted. -/
theorem roundTrip_safe (hs : ∀ r ∈ rs, LineSafe r) :
    ∃ t', roundTrip E overlong t = lift (listRecords E overlong t') ∧ Held E t' ∧
      t'.texts.Perm t.texts ∧
      ((∀ r ∈ rs, ∃ s, (lookup "created_at" r.entries).getD (.str "") = .str s) →
        t'.texts = t.texts) := by
  obtain ⟨plus, hrs, hplus⟩ := rows_again h hl hid
  have hsort : ∀ row, row ∈ t.rows.insertionSort rowLE ↔ row ∈ t.rows := fun row =>
    (List.perm_insertionSort rowLE t.rows).mem_iff
  set rows := t.rows.insertionSort rowLE with hrows
  have hpay : List.Forall₂ (fun r row => payload E r = .ok row) rs (rows.map plus) := by
    rw [hrs, List.forall₂_map_left_iff, List.forall₂_map_right_iff, List.forall₂_same]
    exact fun row hrow => (hplus row ((hsort row).mp hrow)).1
  have hnull : ∀ row ∈ rows.map plus, isNull E row.confidence = false := by
    intro row hrow
    obtain ⟨old, ho, rfl⟩ := List.mem_map.mp hrow
    exact (hplus old ((hsort old).mp ho)).2.2.2.1
  have hids : (rows.map plus).map Row.id = rows.map Row.id := by
    rw [List.map_map]
    exact List.map_congr_left fun row hrow => (hplus row ((hsort row).mp hrow)).2.2.2.2.1
  have hjson : (rows.map plus).map Row.recordJson = t.texts := by
    rw [List.map_map]
    exact List.map_congr_left fun row hrow => (hplus row ((hsort row).mp hrow)).2.2.1
  have hnodup : (((empty : Table F).rows ++ rows.map plus).map Row.id).Nodup := by
    have hperm := (List.perm_insertionSort rowLE t.rows).map Row.id
    rw [show (empty : Table F).rows = [] from rfl, List.nil_append, hids, hperm.nodup_iff]
    exact t.nodup
  obtain ⟨t', n', hi, ht'⟩ := @importRecords_new F E _ _ hpay empty 0 hnull hnodup
  have hrows' : t'.rows = rows.map plus := ht'
  have hx := @import_safe F E overlong rs (fun r hm => (hasId_listed h hl hid r hm).2) hs
  have hf : rs.filter (hasId E) = rs :=
    List.filter_eq_self.mpr fun r hm => (hasId_listed h hl hid r hm).1
  refine ⟨t', ?_, held_importRecords held_empty hi, ?_, fun hc => ?_⟩
  · rw [roundTrip_eq h hl hid, hx]
    dsimp only [lift, Except.mapError, bind, Except.bind]
    rw [hf, hi]
  · rw [← hjson, ← hrows']
    exact perm_texts t'
  · -- the rows are inserted in the order in which they were listed
    have hpair : (rows.map plus).Pairwise rowLE := by
      rw [List.pairwise_map]
      have hp : rows.Pairwise rowLE := List.pairwise_insertionSort rowLE t.rows
      refine hp.imp_of_mem fun {a b} ha hb hab => ?_
      have hka := hplus a ((hsort a).mp ha)
      have hkb := hplus b ((hsort b).mp hb)
      obtain ⟨u, hu⟩ := hc _ (by rw [hrs]; exact List.mem_map_of_mem ha)
      obtain ⟨w, hw⟩ := hc _ (by rw [hrs]; exact List.mem_map_of_mem hb)
      unfold rowLE
      rw [hka.2.2.2.2.2 u hu, hkb.2.2.2.2.2 w hw, hka.2.2.2.2.1, hkb.2.2.2.2.1]
      exact hab
    rw [Table.texts, hrows', hpair.insertionSort_eq]
    exact hjson

/-- The others are lost. -/
theorem roundTrip_length {rs' : List (Record F)} (hr : roundTrip E overlong t = .ok rs') :
    rs'.length ≤ (rs.filter fun r => decide (LineSafe r)).length := by
  rw [roundTrip_eq h hl hid] at hr
  obtain ⟨x, hx, hr⟩ := bind_eq_ok.mp hr
  obtain ⟨⟨t', n'⟩, hi, hr⟩ := bind_eq_ok.mp hr
  rw [lift_eq_ok] at hx hr
  have h1 := length_importRecords hi
  have h2 := length_readRecords hr
  have h3 : t'.texts.length = t'.rows.length := by
    rw [Table.texts, List.length_map, List.length_insertionSort]
  rw [import_lines (hasId_listed h hl hid) hx] at h1
  have h4 : (empty : Table F).rows.length = 0 := rfl
  omega

end RoundTrip

/-- **An export followed by an import into an empty store** gives the same records back if and only if
no string and no key of a record holds U+0085, U+2028 or U+2029; and then also in the same order, where
the times of creation are strings. -/
theorem roundTrip_iff {ops : List (Op F)} {t : Table F} {rs : List (Record F)}
    (hr : run (step E overlong) empty ops = .ok t) (hl : listRecords E overlong t = .ok rs)
    (hid : ∀ r ∈ rs, ∃ s, s ≠ "" ∧ lookup "id" r.entries = some (.str s)) :
    ((∃ rs', roundTrip E overlong t = .ok rs' ∧ rs'.Perm rs) ↔ ∀ r ∈ rs, LineSafe r) ∧
    ((∀ r ∈ rs, LineSafe r) →
      (∀ r ∈ rs, ∃ s, (lookup "created_at" r.entries).getD (.str "") = .str s) →
      roundTrip E overlong t = .ok rs) := by
  have h := held_run hr
  have hrs := @listRecords_held F E overlong t h
  rw [hl, Except.ok.injEq] at hrs
  refine ⟨⟨fun ⟨rs', hr', hperm⟩ r hm => ?_, fun hs => ?_⟩, fun hs hc => ?_⟩
  · by_contra hu
    have hlen := roundTrip_length h hl hid hr'
    have hlt : (rs.filter fun r => decide (LineSafe r)).length < rs.length := by
      refine List.length_filter_lt_length_iff_exists.mpr ⟨r, hm, by simpa using hu⟩
    rw [hperm.length_eq] at hlen
    omega
  · obtain ⟨t', he, ht', hperm, -⟩ := roundTrip_safe h hl hid hs
    refine ⟨t'.texts.map (recordAt E overlong), ?_, ?_⟩
    · rw [he, listRecords_held ht', lift_eq_ok]
    · rw [hrs]
      exact hperm.map _
  · obtain ⟨t', he, ht', -, hsame⟩ := roundTrip_safe h hl hid hs
    rw [he, listRecords_held ht', hsame hc, hrs, lift_eq_ok]

/-! ### Two stores -/

/-- A record with a line separator in its summary. -/
def separated : Record Cell where
  entries := [("id", .str "mem-1"), ("summary", .str "a\u2028b")]
  wellFormed := by decide

/-- A record without one. -/
def plain : Record Cell where
  entries := [("id", .str "mem-1"), ("summary", .str "ab")]
  wellFormed := by decide

/-- The row of a record without times, type and confidence. -/
def bareRow (text : String) : Row Cell where
  id := "mem-1"
  type := "pattern"
  createdAt := ""
  verifiedAt := ""
  confidence := .zero
  recordJson := text

/-- The store with one row. -/
def single (row : Row Cell) : Table Cell := ⟨[row], by simp⟩

/-- **A record with a line separator is lost.** -/
theorem separated_lost :
    ∃ t, run (step platform fun _ => false) empty [.insert separated] = .ok t ∧
      listRecords platform (fun _ => false) t = .ok [separated] ∧
      roundTrip platform (fun _ => false) t = .ok [] := by
  refine ⟨single (bareRow "\x7b\"id\": \"mem-1\", \"summary\": \"a\u2028b\"\x7d"), ?_, ?_, ?_⟩
  · decide +kernel
  · decide +kernel
  · decide +kernel

theorem plain_roundTrip :
    ∃ t, (∃ rs', roundTrip platform (fun _ => false) t = .ok rs' ∧ rs'.Perm [plain]) := by
  have hr : run (step platform fun _ => false) empty [.insert plain] =
      .ok (single (bareRow "\x7b\"id\": \"mem-1\", \"summary\": \"ab\"\x7d")) := by
    decide +kernel
  have hl : listRecords platform (fun _ => false)
      (single (bareRow "\x7b\"id\": \"mem-1\", \"summary\": \"ab\"\x7d")) = .ok [plain] := by
    decide +kernel
  have hid : ∀ r ∈ [plain], ∃ s, s ≠ "" ∧ lookup "id" r.entries = some (.str s) := by
    intro r hm
    rw [List.mem_singleton.mp hm]
    exact ⟨"mem-1", by decide, rfl⟩
  exact ⟨_, (roundTrip_iff hr hl hid).1.mpr (by decide)⟩

end ControlPlane.Memory.Export
