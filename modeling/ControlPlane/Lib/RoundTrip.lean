import ControlPlane.Lib.Print

/-! # JSON texts: reading undoes writing

A reader that keeps all entries of an object, also those with one key, returns the value that a text was written
from and what follows it, in any layout and before anything that does not continue a number (`rawValue_print`).
`parse` builds each object from these entries (`parse_eq`): a later one takes the place of an earlier one. So a
text reads as the well-formed value it was written from (`parse_print`), two values with one text are equal
(`print_injective`), and no object that was read has a key twice (`wellFormed_parse`). -/

namespace ControlPlane.Lib.RoundTrip

open ControlPlane.Lib.Value ControlPlane.Lib.Quote ControlPlane.Lib.Print

variable {F : Type} {T : FloatText F} {L : Layout}

/-! ### Tokens and white space -/

/-- The text does not continue a number or a word. -/
def Ends (r : List Char) : Prop := ∀ c, r.head? = some c → isTokenChar c = false

theorem ends_nil : Ends [] := by simp [Ends]

theorem ends_cons {c : Char} (h : isTokenChar c = false) (r : List Char) : Ends (c :: r) := by
  intro c' hc'
  rw [List.head?_cons, Option.some.injEq] at hc'
  exact hc' ▸ h

theorem blank_not_token {c : Char} (h : isBlank c = true) : isTokenChar c = false := by
  simp only [isBlank, Bool.or_eq_true, beq_iff_eq] at h
  rcases h with ((rfl | rfl) | rfl) | rfl <;> decide

theorem ends_blank {b r : List Char} (hb : ∀ c ∈ b, isBlank c = true) (hr : Ends r) :
    Ends (b ++ r) := by
  cases b with
  | nil => exact hr
  | cons c b => exact ends_cons (blank_not_token (hb c (by simp))) _

theorem takeWhile_token {t r : List Char} (ht : ∀ c ∈ t, isTokenChar c = true) (hr : Ends r) :
    (t ++ r).takeWhile isTokenChar = t ∧ (t ++ r).dropWhile isTokenChar = r := by
  rw [List.takeWhile_append_of_pos ht, List.dropWhile_append_of_pos ht]
  cases r with
  | nil => simp
  | cons c r => simp [hr c rfl]

/-- Skipping white space in front of something else. -/
theorem skipBlank_append {b r : List Char} (hb : ∀ c ∈ b, isBlank c = true)
    (hr : ∀ c, r.head? = some c → isBlank c = false) : skipBlank (b ++ r) = r := by
  rw [skipBlank, List.dropWhile_append_of_pos hb]
  cases r with
  | nil => rfl
  | cons c r => simp [hr c rfl]

theorem skipBlank_cons {c : Char} (h : isBlank c = false) (r : List Char) :
    skipBlank (c :: r) = c :: r := by
  simp [skipBlank, h]

theorem rawValue_token {t r : List Char} (n : ℕ) (hne : t ≠ [])
    (ht : ∀ c ∈ t, isTokenChar c = true) (hr : Ends r) :
    rawValue T (n + 1) (t ++ r) = (readToken T t).map fun v => (v, r) := by
  obtain ⟨c, t', rfl⟩ := List.exists_cons_of_ne_nil hne
  obtain ⟨h1, h2⟩ := takeWhile_token ht hr
  have hc : isTokenChar c = true := ht c (by simp)
  rw [rawValue.eq_def]
  simp only
  split
  case h_4 => rw [h1, h2]
  all_goals
    next heq =>
      obtain ⟨rfl, -⟩ := List.cons.inj heq
      exact absurd hc (by decide)

/-! ### The first character of a text -/

/-- A character a value can start with. -/
def starts (c : Char) : Bool := isTokenChar c || c == '"' || c == '[' || c == '{'

theorem head_token {t : List Char} (hne : t ≠ []) (ht : ∀ c ∈ t, isTokenChar c = true) :
    ∃ c t', t = c :: t' ∧ starts c = true := by
  obtain ⟨c, t', rfl⟩ := List.exists_cons_of_ne_nil hne
  exact ⟨c, t', rfl, by simp [starts, ht c (by simp)]⟩

theorem print_head (n : ℕ) : ∀ v : Json F, ∃ c t, print T L n v = c :: t ∧ starts c = true
  | .null => ⟨_, _, rfl, by decide⟩
  | .bool true => ⟨_, _, rfl, by decide⟩
  | .bool false => ⟨_, _, rfl, by decide⟩
  | .int z => head_token (printInt_ne_nil z) (printInt_token z)
  | .float x => head_token (T.write_ne_nil x) (T.write_token x)
  | .str _ => ⟨_, _, by rw [print, printStr], by decide⟩
  | .arr [] => ⟨_, _, by rw [print], by decide⟩
  | .arr (_ :: _) => ⟨_, _, by rw [print], by decide⟩
  | .obj [] => ⟨_, _, by rw [print], by decide⟩
  | .obj (_ :: _) => ⟨_, _, by rw [print], by decide⟩

theorem starts_not_blank {c : Char} (h : starts c = true) : isBlank c = false := by
  by_contra hb
  rw [Bool.not_eq_false] at hb
  simp only [isBlank, Bool.or_eq_true, beq_iff_eq] at hb
  rcases hb with ((rfl | rfl) | rfl) | rfl <;> revert h <;> decide

theorem skipBlank_print {b : List Char} (hb : ∀ c ∈ b, isBlank c = true) (n : ℕ) (v : Json F)
    (r : List Char) : skipBlank (b ++ (print T L n v ++ r)) = print T L n v ++ r := by
  obtain ⟨c, t, ht, hc⟩ := print_head (T := T) (L := L) n v
  refine skipBlank_append hb fun c' hc' => ?_
  rw [ht, List.cons_append, List.head?_cons, Option.some.injEq] at hc'
  exact hc' ▸ starts_not_blank hc

theorem skipBlank_str {b : List Char} (hb : ∀ c ∈ b, isBlank c = true) (a : Bool) (s : String)
    (r : List Char) : skipBlank (b ++ (printStr a s ++ r)) = printStr a s ++ r :=
  skipBlank_append hb fun c hc => by
    rw [printStr, List.cons_append, List.head?_cons, Option.some.injEq] at hc
    exact hc ▸ rfl

theorem ends_printElems (n : ℕ) (xs : List (Json F)) (r : List Char) :
    Ends (printElems T L n xs ++ r) := by
  cases xs with
  | nil =>
    rw [printElems, List.append_assoc]
    exact ends_blank (L.blank_closed n) (ends_cons (by decide) _)
  | cons x xs =>
    rw [printElems, List.cons_append]
    exact ends_cons (by decide) _

theorem ends_printEntries (n : ℕ) (d : Dict F) (r : List Char) :
    Ends (printEntries T L n d ++ r) := by
  cases d with
  | nil =>
    rw [printEntries, List.append_assoc]
    exact ends_blank (L.blank_closed n) (ends_cons (by decide) _)
  | cons p d =>
    rw [printEntries, List.cons_append]
    exact ends_cons (by decide) _

theorem scanString_printStr (a : Bool) (s : String) (r : List Char) :
    ∃ t, printStr a s ++ r = '"' :: t ∧ scanString t = some (s.toList, r) := by
  refine ⟨quote a s.toList ++ '"' :: r, by simp [printStr], scanString_quote a s.toList r⟩

/-! ### Reading undoes writing -/

mutual
/-- **Reading undoes writing**, for a value followed by anything that does not continue it. -/
theorem rawValue_print : ∀ (v : Json F) (m n : ℕ) (r : List Char), (print T L m v).length ≤ n →
    Ends r → rawValue T n (print T L m v ++ r) = some (v, r)
  | v, m, 0, r, hn, _ => by
    obtain ⟨c, t, ht, -⟩ := print_head (T := T) (L := L) m v
    rw [ht] at hn
    simp at hn
  | .null, m, n + 1, r, _, hr => by
    rw [print, rawValue_token n (by decide) (forall_chars (by decide)) hr]
    rfl
  | .bool true, m, n + 1, r, _, hr => by
    rw [print, rawValue_token n (by decide) (forall_chars (by decide)) hr]
    rfl
  | .bool false, m, n + 1, r, _, hr => by
    rw [print, rawValue_token n (by decide) (forall_chars (by decide)) hr]
    rfl
  | .int z, m, n + 1, r, _, hr => by
    rw [print, rawValue_token n (printInt_ne_nil z) (printInt_token z) hr, readToken_int]
    rfl
  | .float x, m, n + 1, r, _, hr => by
    rw [print, rawValue_token n (T.write_ne_nil x) (T.write_token x) hr, readToken_float]
    rfl
  | .str s, m, n + 1, r, _, _ => by
    obtain ⟨t, ht, hs⟩ := scanString_printStr L.ascii s r
    rw [print, ht, rawValue]
    simp [hs]
  | .arr [], m, n + 1, r, _, _ => by
    rw [print, List.cons_append, rawValue]
    simp [skipBlank_cons (show isBlank ']' = false by decide)]
  | .arr (x :: xs), m, n + 1, r, hn, _ => by
    rw [print] at hn ⊢
    simp only [List.length_cons, List.length_append] at hn
    have hx := rawElems_print x xs m n r (by rw [List.length_append]; omega)
    obtain ⟨c, t, ht, hc⟩ := print_head (T := T) (L := L) (m + 1) x
    rw [List.append_assoc] at hx
    rw [List.cons_append, List.append_assoc, List.append_assoc, rawValue]
    simp only [skipBlank_print (L.blank_opened m)]
    rw [ht, List.cons_append] at hx ⊢
    split
    · next heq =>
      obtain ⟨rfl, -⟩ := List.cons.inj heq
      exact absurd hc (by decide)
    · rw [hx]
      rfl
  | .obj [], m, n + 1, r, _, _ => by
    rw [print, List.cons_append, rawValue]
    simp [skipBlank_cons (show isBlank '}' = false by decide)]
  | .obj ((k, x) :: d), m, n + 1, r, hn, _ => by
    rw [print] at hn ⊢
    simp only [List.length_cons, List.length_append] at hn
    have hx := rawEntries_print k x d m n r
      (by simp only [List.length_append, List.length_cons]; omega)
    obtain ⟨t, ht, -⟩ := scanString_printStr L.ascii k
      (':' :: (L.colon ++ (print T L (m + 1) x ++ printEntries T L m d)) ++ r)
    rw [List.append_assoc, ht] at hx
    rw [List.cons_append, List.append_assoc, List.append_assoc, rawValue]
    simp only [skipBlank_str (L.blank_opened m)]
    rw [ht]
    simp [hx]
theorem rawElems_print : ∀ (x : Json F) (xs : List (Json F)) (m n : ℕ) (r : List Char),
    (print T L (m + 1) x ++ printElems T L m xs).length ≤ n →
    rawElems T n (print T L (m + 1) x ++ printElems T L m xs ++ r) = some (x :: xs, r)
  | x, xs, m, 0, r, hn => by
    obtain ⟨c, t, ht, -⟩ := print_head (T := T) (L := L) (m + 1) x
    rw [ht] at hn
    simp at hn
  | x, [], m, n + 1, r, hn => by
    simp only [printElems, List.length_append, List.length_cons, List.length_nil] at hn
    have hx := rawValue_print x (m + 1) n (printElems T L m [] ++ r) (by omega)
      (ends_printElems m [] r)
    rw [List.append_assoc, rawElems, hx, printElems, List.append_assoc]
    simp only [skipBlank_append (L.blank_closed m) (r := [']'] ++ r) (by simp [isBlank])]
    rfl
  | x, y :: ys, m, n + 1, r, hn => by
    have hn' : (print T L (m + 1) x).length +
        (1 + (L.comma m).length + (print T L (m + 1) y ++ printElems T L m ys).length) ≤ n + 1 := by
      simp only [printElems, List.length_append, List.length_cons] at hn ⊢
      omega
    have hx := rawValue_print x (m + 1) n (printElems T L m (y :: ys) ++ r) (by omega)
      (ends_printElems m (y :: ys) r)
    have hy := rawElems_print y ys m n r (by omega)
    rw [List.append_assoc] at hy
    rw [List.append_assoc, rawElems, hx, printElems, List.cons_append]
    simp only [skipBlank_cons (show isBlank ',' = false by decide), List.append_assoc,
      skipBlank_print (L.blank_comma m), hy, Option.map_some]
theorem rawEntries_print : ∀ (k : String) (x : Json F) (d : Dict F) (m n : ℕ) (r : List Char),
    (printStr L.ascii k ++ ':' :: (L.colon ++ (print T L (m + 1) x ++ printEntries T L m d))).length
      ≤ n →
    rawEntries T n (printStr L.ascii k ++
      ':' :: (L.colon ++ (print T L (m + 1) x ++ printEntries T L m d)) ++ r) =
        some ((k, x) :: d, r)
  | k, x, d, m, 0, r, hn => by simp [printStr] at hn
  | k, x, [], m, n + 1, r, hn => by
    simp only [printEntries, List.length_append, List.length_cons] at hn
    have hx := rawValue_print x (m + 1) n (printEntries T L m [] ++ r) (by omega)
      (ends_printEntries m [] r)
    obtain ⟨t, ht, hs⟩ := scanString_printStr L.ascii k
      (':' :: (L.colon ++ (print T L (m + 1) x ++ printEntries T L m [])) ++ r)
    rw [List.append_assoc, ht, rawEntries]
    simp only [hs, List.cons_append, skipBlank_cons (show isBlank ':' = false by decide),
      List.append_assoc, skipBlank_print L.blank_colon, hx]
    rw [printEntries, List.append_assoc]
    simp only [skipBlank_append (L.blank_closed m) (r := ['}'] ++ r) (by simp [isBlank])]
    simp
  | k, x, (l, y) :: d, m, n + 1, r, hn => by
    have hn' : (print T L (m + 1) x).length + (1 + (L.comma m).length +
        (printStr L.ascii l ++
          ':' :: (L.colon ++ (print T L (m + 1) y ++ printEntries T L m d))).length) ≤ n := by
      simp only [printEntries, printStr, List.length_append, List.length_cons] at hn ⊢
      omega
    have hx := rawValue_print x (m + 1) n (printEntries T L m ((l, y) :: d) ++ r) (by omega)
      (ends_printEntries m _ r)
    have hy := rawEntries_print l y d m n r (by omega)
    rw [List.append_assoc] at hy
    obtain ⟨t, ht, hs⟩ := scanString_printStr L.ascii k
      (':' :: (L.colon ++ (print T L (m + 1) x ++ printEntries T L m ((l, y) :: d))) ++ r)
    rw [List.append_assoc, ht, rawEntries]
    simp only [hs, List.cons_append, skipBlank_cons (show isBlank ':' = false by decide),
      List.append_assoc, skipBlank_print L.blank_colon, hx]
    rw [printEntries, List.cons_append]
    simp only [skipBlank_cons (show isBlank ',' = false by decide), List.append_assoc,
      skipBlank_str (L.blank_comma m)]
    rw [hy]
    simp
end

/-- **A text reads as the value it was written from, with all entries.** -/
theorem parseRaw_print (v : Json F) {b : List Char} (hb : ∀ c ∈ b, isBlank c = true) :
    parseRaw T (print T L 0 v ++ b) = some v := by
  have h := rawValue_print (T := T) (L := L) v 0 ((print T L 0 v ++ b).length + 1) b
    (by rw [List.length_append]; omega) (by simpa using ends_blank hb ends_nil)
  have hs := skipBlank_print (T := T) (L := L) (b := []) (by simp) 0 v b
  rw [List.nil_append] at hs
  have hb' : skipBlank b = [] := by
    have := skipBlank_append hb (r := []) (by simp)
    rwa [List.append_nil] at this
  rw [parseRaw, hs, h]
  simp [hb']

/-! ### Building the objects -/

mutual
/-- The value with each object built from its entries: a later one takes the place of an earlier one. -/
def collapse : Json F → Json F
  | .arr xs => .arr (collapseList xs)
  | .obj d => .obj (ofPairs (collapseDict d))
  | v => v
/-- `collapse` on the elements of an array. -/
def collapseList : List (Json F) → List (Json F)
  | [] => []
  | x :: xs => collapse x :: collapseList xs
/-- `collapse` on the values of the entries. -/
def collapseDict : Dict F → Dict F
  | [] => []
  | (k, x) :: d => (k, collapse x) :: collapseDict d
end

theorem collapseList_eq (xs : List (Json F)) : collapseList xs = xs.map collapse := by
  induction xs with
  | nil => rfl
  | cons x xs ih => rw [collapseList, ih, List.map_cons]

theorem collapseDict_eq (d : Dict F) : collapseDict d = d.map fun p => (p.1, collapse p.2) := by
  induction d with
  | nil => rfl
  | cons p d ih => rw [collapseDict, ih, List.map_cons]

theorem wellFormed_ofPairs {ps : List (String × Json F)} (h : ∀ p ∈ ps, wellFormed p.2 = true) :
    wellFormed (.obj (ofPairs ps)) = true :=
  (wellFormed_obj _).mpr ⟨nodup_keys_ofPairs ps, fun p hp => h p (mem_ofPairs hp)⟩

theorem wellFormed_collapse (v : Json F) : wellFormed (collapse v) = true := by
  induction v using Json.induct with
  | arr xs ih =>
    rw [collapse, collapseList_eq, wellFormed_arr]
    intro y hy
    obtain ⟨x, hx, rfl⟩ := List.mem_map.mp hy
    exact ih x hx
  | obj d ih =>
    rw [collapse, collapseDict_eq]
    refine wellFormed_ofPairs fun q hq => ?_
    obtain ⟨p, hp, rfl⟩ := List.mem_map.mp hq
    exact ih p hp
  | _ => rfl

/-- A well-formed value is built from its own entries. -/
theorem collapse_eq_self (v : Json F) (h : wellFormed v = true) : collapse v = v := by
  induction v using Json.induct with
  | arr xs ih =>
    rw [wellFormed_arr] at h
    rw [collapse, collapseList_eq]
    exact congrArg Json.arr ((List.map_congr_left fun x hx => ih x hx (h x hx)).trans (List.map_id _))
  | obj d ih =>
    rw [wellFormed_obj] at h
    have hd : d.map (fun p => (p.1, collapse p.2)) = d := by
      refine (List.map_congr_left fun p hp => ?_).trans (List.map_id d)
      rw [ih p hp (h.2 p hp)]
      rfl
    rw [collapse, collapseDict_eq, hd, ofPairs_eq h.1]
  | _ => rfl

theorem readToken_collapse {cs : List Char} {v : Json F} (h : readToken T cs = some v) : collapse v = v := by
  unfold readToken at h
  split_ifs at h
  · cases h
    rfl
  · cases h
    rfl
  · cases h
    rfl
  · split at h
    · cases h
      rfl
    · obtain ⟨x, -, rfl⟩ := Option.map_eq_some_iff.mp h
      rfl

/-- **The readers differ in the objects they build** and in nothing else. -/
theorem read_eq (n : ℕ) :
    (∀ cs, parseValue T n cs = (rawValue T n cs).map fun p => (collapse p.1, p.2)) ∧
    (∀ cs, parseElems T n cs = (rawElems T n cs).map fun p => (collapseList p.1, p.2)) ∧
    (∀ cs, parseEntries T n cs = (rawEntries T n cs).map fun p => (collapseDict p.1, p.2)) := by
  induction n with
  | zero => exact ⟨fun _ => rfl, fun _ => rfl, fun _ => rfl⟩
  | succ n ih =>
    obtain ⟨ihv, ihe, ihp⟩ := ih
    refine ⟨fun cs => ?_, fun cs => ?_, fun cs => ?_⟩
    · rw [parseValue.eq_def, rawValue.eq_def]
      simp only
      split
      · rw [Option.map_map]
        rfl
      · split
        · rfl
        · rw [ihe, Option.map_map, Option.map_map]
          rfl
      · split
        · rfl
        · rw [ihp, Option.map_map, Option.map_map]
          rfl
      · rw [Option.map_map]
        cases htoken : readToken T (List.takeWhile isTokenChar _) with
        | none => rfl
        | some v => simp [readToken_collapse htoken]
    · rw [parseElems, rawElems, ihv]
      cases rawValue T n cs with
      | none => rfl
      | some p =>
        simp only [Option.map_some]
        split
        · rw [ihe, Option.map_map, Option.map_map]
          rfl
        · rfl
        · rfl
    · rw [parseEntries.eq_def, rawEntries.eq_def]
      simp only
      split
      · cases scanString _ with
        | none => rfl
        | some key =>
          simp only
          split
          · rw [ihv]
            cases rawValue T n _ with
            | none => rfl
            | some p =>
              simp only [Option.map_some]
              split
              · rw [ihp, Option.map_map, Option.map_map]
                rfl
              · rfl
              · rfl
          · rfl
      · rfl

/-- **A text is read by building the objects** from all their entries. -/
theorem parse_eq (cs : List Char) : parse T cs = (parseRaw T cs).map collapse := by
  rw [parse, parseRaw, (read_eq _).1]
  cases rawValue T (cs.length + 1) (skipBlank cs) with
  | none => rfl
  | some p =>
    simp only [Option.map_some]
    split_ifs <;> rfl

/-- **A text reads as the value it was written from.** -/
theorem parse_print {v : Json F} (hv : wellFormed v = true) {b : List Char}
    (hb : ∀ c ∈ b, isBlank c = true) : parse T (print T L 0 v ++ b) = some v := by
  rw [parse_eq, parseRaw_print v hb, Option.map_some, collapse_eq_self v hv]

/-- **Two values with one text are equal.** -/
theorem print_injective {v w : Json F} (hv : wellFormed v = true) (hw : wellFormed w = true)
    (h : print T L 0 v = print T L 0 w) : v = w := by
  have h1 := parse_print (T := T) (L := L) hv (b := []) (by simp)
  have h2 := parse_print (T := T) (L := L) hw (b := []) (by simp)
  rw [h, h2] at h1
  exact (Option.some.inj h1).symm

/-- **What is read is well formed.** -/
theorem wellFormed_parse {cs : List Char} {v : Json F} (h : parse T cs = some v) :
    wellFormed v = true := by
  rw [parse_eq] at h
  obtain ⟨w, -, rfl⟩ := Option.map_eq_some_iff.mp h
  exact wellFormed_collapse w

end ControlPlane.Lib.RoundTrip
