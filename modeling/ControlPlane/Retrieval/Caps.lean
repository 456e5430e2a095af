import ControlPlane.Instance
import ControlPlane.Lib.Segments
import ControlPlane.Retrieval.Matching
import ControlPlane.Retrieval.Selection

/-! # Source caps

The items of a source are ordered for the query and kept until a number of characters is used up. What is
kept has different keys that were not seen, comes from the items and is within the cap (`capItems_capped`).

Something is kept, where something should be, if and only if the query of several items has a token and
some item that leads its key has a text (`capItems_iff`): a query without tokens loses all items
(`capItems_tokenless`). -/

namespace ControlPlane.Retrieval.Caps

open ControlPlane.Lib.Value ControlPlane.Lib.Text ControlPlane.Lib.Floats ControlPlane.Lib.Rounding
open ControlPlane.Lib.Magnitudes ControlPlane.Lib.Segments ControlPlane.Lib.Dynamic ControlPlane.Lib.Keyed ControlPlane.Environment
open ControlPlane.Instance ControlPlane.Retrieval.Items ControlPlane.Retrieval.Budget
open ControlPlane.Retrieval.Selection ControlPlane.Retrieval.Fusion ControlPlane.Retrieval.Matching

variable {F : Type} (E : Env F) (log : Num → Num) (blake2b : String → String) (isalnum : Char → Bool)

/-! ### Tokens -/

def isSmall (c : Char) : Bool := c.isLower || c.isDigit

/-- Whether an identifier is split between a character and those after it. -/
def isHump (before : Char) : List Char → Bool
  | [] => false
  | c :: cs => c.isUpper && (isSmall before || (before.isUpper && cs.head?.any Char.isLower))

/-- The parts of an identifier in camel case; `part` is what has been read of the current one. -/
def partsFrom (part : List Char) : List Char → List (List Char)
  | [] => [part]
  | c :: cs =>
    if part.getLast?.any fun before => isHump before (c :: cs) then part :: partsFrom [c] cs
    else partsFrom (part ++ [c]) cs

def tokensOf (raw : List Char) : List String :=
  let whole := E.lower (String.ofList raw)
  let parts := partsFrom [] raw
  (if 2 ≤ whole.length then [whole] else []) ++
    if 1 < parts.length then
      (parts.filter fun part => decide (2 ≤ part.length)).map fun part => E.lower (String.ofList part)
    else []

/-- `tokenize(text)`: the runs of letters and digits, whole and by their parts. -/
def tokenize (text : String) : List String := (segments isalnum text.toList).flatMap (tokensOf E)

/-! ### The order -/

/-- Whether the items are ranked for the query. -/
def isRanked (query : String) (items : List (ContextItem F)) : Bool :=
  !query.isEmpty && decide (1 < items.length)

/-- The items with a positive score, by falling score. -/
def sourceRank (items : List (ContextItem F)) : List (ContextItem F) :=
  byScore (fun item => E.T.view item.score) (items.filter fun item => (Num.fin 0).lt (E.T.view item.score))

/-- The ranks of source and words fused, and then diversified. -/
def rankedItems (query : String) (items : List (ContextItem F)) : Py (List (ContextItem F)) := do
  let bm25 ← fit E (tokenize E isalnum) (items.map ContextItem.text) items
  let lexicalRank := (rank E log (tokenize E isalnum) bm25 query).map Prod.snd
  let fused ← reciprocalRankFusion E [sourceRank E items, lexicalRank] (dedupeKey blake2b) 60 none
  let fusedItems := fused.map Prod.snd
  if fusedItems.isEmpty then return []
  else
    let fusedBm25 ← fit E (tokenize E isalnum) (fusedItems.map ContextItem.text) fusedItems
    maximalMarginalRelevance E.T (tokenize E isalnum query) fusedBm25.docs (fused.map Prod.fst)
      (E.T.lit (7 / 10)) fusedItems.length

def orderedItems (query : String) (items : List (ContextItem F)) : Py (List (ContextItem F)) :=
  if isRanked query items then rankedItems E log blake2b isalnum query items else .ok items

/-! ### The cap -/

/-- An item with its text within a limit; its provenance and evidence are not kept. -/
def cutItem (item : ContextItem F) (limit : ℕ) : ContextItem F :=
  let cut := truncate item.text limit
  ⟨item.source, cut.1, item.score, item.stale,
    if cut.2 then setKey "truncated" (.bool true) item.metadata else item.metadata, [], none⟩

/-- The loop over the ordered items; it returns what is kept and the keys that are seen then. -/
def capLoop (chars : ℕ) : ℕ → List String → List (ContextItem F) → List (ContextItem F) × List String
  | _, seen, [] => ([], seen)
  | used, seen, item :: items =>
    if chars ≤ used then ([], seen)
    else
      let k := dedupeKey blake2b item
      if k ∈ seen then capLoop chars used seen items
      else
        let text := (truncate item.text (chars - used)).1
        if text = "" then capLoop chars used (k :: seen) items
        else
          let rest := capLoop chars (used + text.length) (k :: seen) items
          (cutItem item (chars - used) :: rest.1, rest.2)

def capItems (items : List (ContextItem F)) (chars : ℕ) (seenKeys : List String) (query : String) :
    Py (List (ContextItem F) × List String) := do
  return capLoop blake2b chars 0 seenKeys (← orderedItems E log blake2b isalnum query items)

variable {E log blake2b isalnum}

/-! ### The loop -/

theorem truncate_eq_empty {text : String} {n : ℕ} (hn : 0 < n) : (truncate text n).1 = "" ↔ text = "" := by
  constructor
  · intro h
    by_contra hne
    have hpos : 0 < text.toList.length := by
      rw [List.length_pos_iff]
      exact fun he => hne (String.toList_inj.mp he)
    have hlen := congrArg (fun s : String => s.toList.length) h
    unfold truncate at hlen
    dsimp only at hlen
    split_ifs at hlen with h1 h2
    · exact hpos.ne' hlen
    · rw [String.toList_ofList, List.length_take, String.toList_empty, List.length_nil] at hlen
      omega
    · have hmark : truncationMark.length = 21 := by decide
      rw [String.toList_ofList, List.length_append, List.length_append, hmark, String.toList_empty,
        List.length_nil] at hlen
      omega
  · rintro rfl
    rfl

/-- What the loop keeps of `items`. -/
structure Kept (blake2b : String → String) (chars used : ℕ) (seen : List String)
    (items out : List (ContextItem F)) : Prop where
  length : totalChars out ≤ chars - used
  taken : ∃ taken, (∀ x ∈ taken, x ∈ items) ∧ (taken.map (dedupeKey blake2b)).Nodup ∧
    (∀ x ∈ taken, dedupeKey blake2b x ∉ seen) ∧ List.Forall₂ (fun x y => ∃ limit, y = cutItem x limit) taken out

theorem capLoop_kept (chars : ℕ) : ∀ (items : List (ContextItem F)) (used : ℕ) (seen : List String),
    Kept blake2b chars used seen items (capLoop blake2b chars used seen items).1
  | [], used, seen => ⟨by simp [capLoop, totalChars], [], by simp [capLoop]⟩
  | item :: items, used, seen => by
    rw [capLoop]
    dsimp only
    by_cases hused : chars ≤ used
    · rw [if_pos hused]
      exact ⟨by simp [totalChars], [], by simp⟩
    by_cases hkey : dedupeKey blake2b item ∈ seen
    · rw [if_neg hused, if_pos hkey]
      obtain ⟨hlen, taken, hin, hrest⟩ := capLoop_kept chars items used seen
      exact ⟨hlen, taken, fun x hx => List.mem_cons_of_mem _ (hin x hx), hrest⟩
    rw [if_neg hused, if_neg hkey]
    by_cases htext : (truncate item.text (chars - used)).1 = ""
    · rw [if_pos htext]
      obtain ⟨hlen, taken, hin, hnodup, hnew, hcut⟩ :=
        capLoop_kept chars items used (dedupeKey blake2b item :: seen)
      exact ⟨hlen, taken, fun x hx => List.mem_cons_of_mem _ (hin x hx), hnodup,
        fun x hx hs => hnew x hx (List.mem_cons_of_mem _ hs), hcut⟩
    · rw [if_neg htext]
      obtain ⟨hlen, taken, hin, hnodup, hnew, hcut⟩ := capLoop_kept chars items
        (used + (truncate item.text (chars - used)).1.length) (dedupeKey blake2b item :: seen)
      have hle := length_truncate_le item.text (chars - used)
      refine ⟨?_, item :: taken, ?_, ?_, ?_, List.Forall₂.cons ⟨_, rfl⟩ hcut⟩
      · have hsum : ∀ rest : List (ContextItem F), totalChars (cutItem item (chars - used) :: rest) =
            (truncate item.text (chars - used)).1.length + totalChars rest := fun _ => rfl
        rw [hsum]
        omega
      · exact fun x hx => List.mem_cons.mpr ((List.mem_cons.mp hx).imp id (hin x))
      · rw [List.map_cons, List.nodup_cons]
        refine ⟨fun hmem => ?_, hnodup⟩
        obtain ⟨x, hx, he⟩ := List.mem_map.mp hmem
        exact hnew x hx (he ▸ List.mem_cons_self)
      · rw [List.forall_mem_cons]
        exact ⟨hkey, fun x hx hs => hnew x hx (List.mem_cons_of_mem _ hs)⟩

/-- Nothing is kept only if no item with a new key has a text. -/
theorem capLoop_eq_nil (chars : ℕ) : ∀ (items : List (ContextItem F)) (used : ℕ) (seen : List String),
    (capLoop blake2b chars used seen items).1 = [] ↔
      chars ≤ used ∨ ∀ x ∈ dedupeFrom blake2b seen items, x.text = ""
  | [], used, seen => by simp [capLoop, dedupeFrom]
  | item :: items, used, seen => by
    rw [capLoop, dedupeFrom]
    dsimp only
    by_cases hused : chars ≤ used
    · simp [hused]
    have hpos : 0 < chars - used := by omega
    by_cases hkey : dedupeKey blake2b item ∈ seen
    · rw [if_neg hused, if_pos hkey, if_pos hkey]
      exact capLoop_eq_nil chars items used seen
    rw [if_neg hused, if_neg hkey, if_neg hkey, List.forall_mem_cons]
    by_cases htext : item.text = ""
    · rw [if_pos ((truncate_eq_empty hpos).mpr htext), capLoop_eq_nil chars items used]
      simp [htext]
    · rw [if_neg fun h => htext ((truncate_eq_empty hpos).mp h)]
      simp [htext, hused]

theorem mem_dedupeFrom : ∀ {items : List (ContextItem F)} {seen : List String} {x : ContextItem F},
    x ∈ dedupeFrom blake2b seen items ↔ dedupeKey blake2b x ∉ seen ∧
      items.find? (fun y => decide (dedupeKey blake2b y = dedupeKey blake2b x)) = some x
  | [], seen, x => by simp [dedupeFrom]
  | item :: items, seen, x => by
    rw [dedupeFrom]
    by_cases hkey : dedupeKey blake2b item ∈ seen
    · rw [if_pos hkey, mem_dedupeFrom]
      by_cases hx : dedupeKey blake2b x ∈ seen
      · simp [hx]
      · have hne : dedupeKey blake2b item ≠ dedupeKey blake2b x := fun he => hx (he ▸ hkey)
        rw [List.find?_cons_of_neg (by simpa using hne)]
    · rw [if_neg hkey, List.mem_cons, mem_dedupeFrom]
      by_cases hsame : dedupeKey blake2b item = dedupeKey blake2b x
      · rw [List.find?_cons_of_pos (by simpa using hsame), Option.some_inj]
        constructor
        · rintro (rfl | ⟨hnew, -⟩)
          · exact ⟨hkey, rfl⟩
          · exact absurd (hsame ▸ List.mem_cons_self) hnew
        · rintro ⟨-, rfl⟩
          exact Or.inl rfl
      · rw [List.find?_cons_of_neg (by simpa using hsame), List.mem_cons, not_or]
        constructor
        · rintro (rfl | ⟨⟨-, hnew⟩, hfind⟩)
          · exact absurd rfl hsame
          · exact ⟨hnew, hfind⟩
        · rintro ⟨hnew, hfind⟩
          exact Or.inr ⟨⟨fun he => hsame he.symm, hnew⟩, hfind⟩

theorem dedupeFrom_nodup {items : List (ContextItem F)} {seen : List String} {x : ContextItem F}
    (hnodup : (items.map (dedupeKey blake2b)).Nodup) :
    x ∈ dedupeFrom blake2b seen items ↔ dedupeKey blake2b x ∉ seen ∧ x ∈ items := by
  rw [mem_dedupeFrom]
  refine and_congr_right fun _ => ⟨List.mem_of_find?_eq_some, fun hx => ?_⟩
  obtain ⟨y, hy⟩ : ∃ y, items.find? (fun y => decide (dedupeKey blake2b y = dedupeKey blake2b x)) = some y := by
    rw [← Option.isSome_iff_exists, List.find?_isSome]
    exact ⟨x, hx, by simp⟩
  have hkey := List.find?_some hy
  rw [decide_eq_true_eq] at hkey
  rw [hy, List.inj_on_of_nodup_map hnodup (List.mem_of_find?_eq_some hy) hx hkey]

/-! ### The order -/

theorem perm_sourceRank (items : List (ContextItem F)) : (sourceRank E items).Perm
    (items.filter fun item => (Num.fin 0).lt (E.T.view item.score)) := perm_byScore _ _

/-- Whether an item shares a token with the query. -/
def Matches (E : Env F) (isalnum : Char → Bool) (query : String) (x : ContextItem F) : Prop :=
  ∃ t ∈ tokenize E isalnum query, t ∈ tokenize E isalnum x.text

/-- What the floats must resolve for some items. -/
def Fits (E : Env F) (isalnum : Char → Bool) (items : List (ContextItem F)) : Prop :=
  Resolves E.T (scoreBound (tokenize E isalnum) (items.map ContextItem.text))

section Order
variable {items : List (ContextItem F)} (hfits : Fits E isalnum items)
include hfits

theorem weighs_one (hne : items ≠ []) : Weighs E 60 items.length (Num.fin 1) := by
  refine ⟨by simp, fun rank _ hrank => ?_⟩
  have hvolume : items.length ≤ volume (tokenize E isalnum) (items.map ContextItem.text) := by
    rw [volume, List.length_map]
    omega
  have hpos := List.length_pos_of_ne_nil hne
  have hs : (1 : ℚ) ≤ (volume (tokenize E isalnum) (items.map ContextItem.text) : ℚ) := by
    have : 1 ≤ volume (tokenize E isalnum) (items.map ContextItem.text) := by omega
    exact_mod_cast this
  have hle : (items.length : ℚ) ≤ (volume (tokenize E isalnum) (items.map ContextItem.text) : ℚ) := by
    exact_mod_cast hvolume
  obtain ⟨h1, -, h3⟩ := pow_bounds hs
  have hbound : scoreBound (tokenize E isalnum) (items.map ContextItem.text) =
      2 ^ 24 * (volume (tokenize E isalnum) (items.map ContextItem.text) : ℚ) ^ 3 := rfl
  have hsized : Sized ((60 + items.length : ℕ) : ℚ) ((60 + rank : ℕ) : ℚ) := sized_nat (by omega) (by omega)
  rw [Nat.cast_add, Nat.cast_add, Nat.cast_ofNat] at hsized
  obtain ⟨r, hr, hrs⟩ := hfits.lit hsized (by rw [hbound]; linarith)
  have hone : Sized (1 : ℚ) 1 := ⟨by norm_num, by norm_num, by norm_num⟩
  obtain ⟨share, hshare, hshares⟩ := hfits.div hone hrs (by rw [hbound]; linarith)
  have hcast : (((60 : ℤ) + rank : ℤ) : ℚ) = 60 + (rank : ℚ) := by push_cast; rfl
  have hfloat : E.floatOfInt (60 + rank) = .ok (E.T.ofRat (60 + (rank : ℚ))) := by
    unfold Env.floatOfInt
    rw [hcast]
    exact if_pos ((E.T.finite_iff _).mpr ⟨r, hr⟩)
  refine ⟨.fin share, ?_, by simpa using hshares.pos⟩
  rw [shareOf, hfloat, ← hshare, ← hr]
  rfl

variable (hT : Stable E.T)
include hT

/-- What the fusion of the two ranks of some items is. -/
theorem fusion_of_ranks (query : String) (hne : items ≠ []) : ∃ bm25 fused,
    let lexicalRank := (rank E log (tokenize E isalnum) bm25 query).map Prod.snd
    fit E (tokenize E isalnum) (items.map ContextItem.text) items = .ok bm25 ∧
      reciprocalRankFusion E [sourceRank E items, lexicalRank] (dedupeKey blake2b) 60 none = .ok fused ∧
      (∀ x, x ∈ lexicalRank ↔ x ∈ items ∧ Matches E isalnum query x) ∧
      Distinct (dedupeKey blake2b) (sourceRank E items ++ lexicalRank) (fused.map Prod.snd) ∧
      ∀ p ∈ fused, (Num.fin 0).lt p.1 = true := by
  obtain ⟨bm25, hfit, -⟩ := @fit_texts _ _ E (tokenize E isalnum) items ContextItem.text
  set lexicalRank := (rank E log (tokenize E isalnum) bm25 query).map Prod.snd with hlexical
  have hmatch : ∀ x, x ∈ lexicalRank ↔ x ∈ items ∧ Matches E isalnum query x := fun x =>
    mem_rank_iff hT hfits hfit query x
  have hsource := @perm_sourceRank F E items
  have hmem : ∀ r ∈ [sourceRank E items, lexicalRank],
      (∀ x ∈ r, x ∈ items) ∧ r.length ≤ items.length := by
    simp only [List.forall_mem_cons]
    refine ⟨⟨fun x hx => (List.mem_filter.mp (hsource.subset hx)).1, ?_⟩,
      ⟨fun x hx => ((hmatch x).mp hx).1, ?_⟩, by simp⟩
    · rw [hsource.length_eq]
      exact List.length_filter_le _ _
    · rw [hlexical, List.length_map]
      exact length_rank_le E log hfit query
  -- The fusion covers what its ranks have.
  have hweights : ∀ w ∈ effectiveWeights E.T [sourceRank E items, lexicalRank].length none,
      Weighs E 60 items.length w := by
    intro w hw
    rw [List.eq_of_mem_replicate hw, hT.one]
    exact weighs_one hfits hne
  have hin : ∀ r ∈ [sourceRank E items, lexicalRank],
      (∀ x ∈ r, x ∈ sourceRank E items ++ lexicalRank) ∧ r.length ≤ items.length := by
    simp only [List.forall_mem_cons]
    exact ⟨⟨fun x hx => List.mem_append_left _ hx, (hmem _ (by simp)).2⟩,
      ⟨fun x hx => List.mem_append_right _ hx, (hmem _ (by simp)).2⟩, by simp⟩
  have hcover : ∀ x ∈ sourceRank E items ++ lexicalRank, ∃ r ∈ [sourceRank E items, lexicalRank],
      dedupeKey blake2b x ∈ r.map (dedupeKey blake2b) := by
    intro x hx
    rcases List.mem_append.mp hx with hx | hx
    · exact ⟨_, by simp, List.mem_map_of_mem hx⟩
    · exact ⟨_, List.mem_cons_of_mem _ (by simp), List.mem_map_of_mem hx⟩
  obtain ⟨fused, hfused, hdistinct, hpos⟩ :=
    fusion_spec hT (by norm_num) (by simp) hweights hin hcover
  exact ⟨bm25, fused, hfit, hfused, hmatch, hdistinct, hpos⟩

/-- **The ranked items** have different keys; of each key that the ranks have it is the first with it. -/
theorem rankedItems_spec {query : String} (hne : items ≠ []) (hquery : tokenize E isalnum query ≠ []) :
    ∃ lexicalRank ordered, rankedItems E log blake2b isalnum query items = .ok ordered ∧
      (∀ x, x ∈ lexicalRank ↔ x ∈ items ∧ Matches E isalnum query x) ∧
      (ordered.map (dedupeKey blake2b)).Nodup ∧ ∀ x, x ∈ ordered ↔ (sourceRank E items ++ lexicalRank).find?
        (fun y => decide (dedupeKey blake2b y = dedupeKey blake2b x)) = some x := by
  obtain ⟨bm25, fused, hfit, hfused, hmatch, hdistinct, hpos⟩ :=
    @fusion_of_ranks F E log blake2b isalnum items hfits hT query hne
  set lexicalRank := (rank E log (tokenize E isalnum) bm25 query).map Prod.snd with hlexical
  have hleaders := fusion_leaders hT hfused
  simp only [List.flatten_cons, List.flatten_nil, List.append_nil] at hleaders
  have hrun : ∀ ordered, (if (fused.map Prod.snd).isEmpty then (.ok [] : Py (List (ContextItem F)))
      else do
        let fusedBm25 ← fit E (tokenize E isalnum) ((fused.map Prod.snd).map ContextItem.text)
          (fused.map Prod.snd)
        maximalMarginalRelevance E.T (tokenize E isalnum query) fusedBm25.docs (fused.map Prod.fst)
          (E.T.lit (7 / 10)) (fused.map Prod.snd).length) = .ok ordered →
      rankedItems E log blake2b isalnum query items = .ok ordered := by
    intro ordered h
    rw [rankedItems, bind_eq_ok]
    exact ⟨bm25, hfit, bind_eq_ok.mpr ⟨fused, hfused, h⟩⟩
  by_cases hnone : fused.map Prod.snd = []
  · refine ⟨lexicalRank, [], hrun [] (by rw [hnone]; rfl), hmatch, by simp, fun x => ?_⟩
    rw [← hleaders, hnone]
  · obtain ⟨fusedBm25, hfit', hdocs'⟩ :=
      @fit_texts _ _ E (tokenize E isalnum) (fused.map Prod.snd) ContextItem.text
    have hscores : (fused.map Prod.fst).length = (fused.map Prod.snd).length := by
      rw [List.length_map, List.length_map]
    have hallpos : ∀ s ∈ fused.map Prod.fst, (Num.fin 0).lt s = true := List.forall_mem_map.mpr hpos
    obtain ⟨ordered, rest, hordered, hperm, hlen⟩ := @diverse_spec _ _ (tokenize E isalnum) E.T _
      ((fused.map Prod.snd).map ContextItem.text) (fused.map Prod.snd) _ (E.T.lit (7 / 10))
      (fused.map Prod.snd).length hquery (List.length_map _) hscores hallpos
    -- All fused items are selected, so nothing is left.
    have hrest : rest = [] := by
      have hcount := hperm.length_eq
      rw [List.length_append, hlen, min_self] at hcount
      rw [← List.length_eq_zero_iff]
      omega
    rw [hrest, List.append_nil] at hperm
    refine ⟨lexicalRank, ordered, hrun ordered ?_, hmatch, ?_, fun x => ?_⟩
    · rw [if_neg (by simpa using hnone), bind_eq_ok]
      exact ⟨fusedBm25, hfit', by rw [hdocs']; exact hordered⟩
    · exact (hperm.map (dedupeKey blake2b)).nodup_iff.mp hdistinct.nodup
    · rw [← hperm.mem_iff]
      exact hleaders x

/-- **A query without tokens** ranks nothing. -/
theorem rankedItems_tokenless {query : String} (hne : items ≠ []) (hquery : tokenize E isalnum query = []) :
    rankedItems E log blake2b isalnum query items = .ok [] := by
  obtain ⟨bm25, fused, hfit, hfused, -⟩ :=
    @fusion_of_ranks F E log blake2b isalnum items hfits hT query hne
  rw [rankedItems, bind_eq_ok]
  refine ⟨bm25, hfit, bind_eq_ok.mpr ⟨fused, hfused, ?_⟩⟩
  by_cases hnone : fused.map Prod.snd = []
  · exact if_pos (by rw [hnone]; rfl)
  · obtain ⟨fusedBm25, hfit', -⟩ :=
      @fit_texts _ _ E (tokenize E isalnum) (fused.map Prod.snd) ContextItem.text
    refine (if_neg (by simpa using hnone)).trans (bind_eq_ok.mpr ⟨fusedBm25, hfit', ?_⟩)
    rw [hquery, maximalMarginalRelevance, if_pos (by simp)]

end Order

/-! ### What is kept -/

section Caps
variable (E blake2b isalnum) (items : List (ContextItem F)) (chars : ℕ) (seenKeys : List String)
  (query : String)

/-- The item is the first with its key: of those with a positive score the best, or it shares a token with the
query and none has a positive score; in the order given if the items are not ranked. -/
def LeadsKey (x : ContextItem F) : Prop :=
  let isKey := fun y => decide (dedupeKey blake2b y = dedupeKey blake2b x)
  if isRanked query items then
    (sourceRank E items).find? isKey = some x ∨
      ((sourceRank E items).find? isKey = none ∧ Matches E isalnum query x)
  else items.find? isKey = some x

/-- Some item with a new key leads it and has a text, and the query of ranked items has a token. -/
def Reaches : Prop :=
  (isRanked query items = true → tokenize E isalnum query ≠ []) ∧
    ∃ x ∈ items, dedupeKey blake2b x ∉ seenKeys ∧ x.text ≠ "" ∧ LeadsKey E blake2b isalnum items query x

/-- Nothing has to be kept of the item: it is seen, has no text, or has neither a positive score nor a token
of the query. -/
def Excused (x : ContextItem F) : Prop :=
  dedupeKey blake2b x ∈ seenKeys ∨ x.text = "" ∨
    (isRanked query items = true ∧ ¬ (Num.fin 0).lt (E.T.view x.score) = true ∧
      ¬ Matches E isalnum query x)

variable {E blake2b isalnum items chars seenKeys query}

theorem tokenize_empty : tokenize E isalnum "" = [] := rfl

theorem text_ne_of_matches {x : ContextItem F} (h : Matches E isalnum query x) : x.text ≠ "" := by
  obtain ⟨t, -, ht⟩ := h
  intro he
  rw [he, tokenize_empty] at ht
  cases ht

section Ranked
variable {lexicalRank : List (ContextItem F)} {x : ContextItem F} (hranked : isRanked query items = true)
  (hmatch : ∀ x, x ∈ lexicalRank ↔ x ∈ items ∧ Matches E isalnum query x)
include hranked hmatch

theorem leads_of_find (hfind : (sourceRank E items ++ lexicalRank).find?
    (fun y => decide (dedupeKey blake2b y = dedupeKey blake2b x)) = some x) :
    x ∈ items ∧ LeadsKey E blake2b isalnum items query x := by
  rw [LeadsKey, if_pos hranked]
  rw [List.find?_append, Option.or_eq_some_iff] at hfind
  rcases hfind with hsource | ⟨hnone, hlexical⟩
  · have hin := (perm_sourceRank items).subset (List.mem_of_find?_eq_some hsource)
    exact ⟨(List.mem_filter.mp hin).1, Or.inl hsource⟩
  · have hin := (hmatch x).mp (List.mem_of_find?_eq_some hlexical)
    exact ⟨hin.1, Or.inr ⟨hnone, hin.2⟩⟩

/-- What leads a key has, among the ranks, the first item with the key, which has a text if the leader has. -/
theorem find_of_leads (hx : x ∈ items) (htext : x.text ≠ "") (h : LeadsKey E blake2b isalnum items query x) :
    ∃ y, (sourceRank E items ++ lexicalRank).find?
      (fun z => decide (dedupeKey blake2b z = dedupeKey blake2b y)) = some y ∧
        dedupeKey blake2b y = dedupeKey blake2b x ∧ y.text ≠ "" := by
  rw [LeadsKey, if_pos hranked] at h
  rcases h with hsource | ⟨hnone, hmatches⟩
  · refine ⟨x, ?_, rfl, htext⟩
    rw [List.find?_append, hsource]
    rfl
  · obtain ⟨y, hy⟩ : ∃ y, lexicalRank.find?
        (fun z => decide (dedupeKey blake2b z = dedupeKey blake2b x)) = some y := by
      rw [← Option.isSome_iff_exists, List.find?_isSome]
      exact ⟨x, (hmatch x).mpr ⟨hx, hmatches⟩, by simp⟩
    have hkey := List.find?_some hy
    rw [decide_eq_true_eq] at hkey
    refine ⟨y, ?_, hkey, text_ne_of_matches ((hmatch y).mp (List.mem_of_find?_eq_some hy)).2⟩
    rw [hkey, List.find?_append, hnone, hy]
    rfl

end Ranked

theorem Kept.of_subset {ordered out : List (ContextItem F)} (h : Kept blake2b chars 0 seenKeys ordered out)
    (hsub : ∀ x ∈ ordered, x ∈ items) : Kept blake2b chars 0 seenKeys items out := by
  obtain ⟨hlen, taken, hin, hrest⟩ := h
  exact ⟨hlen, taken, fun x hx => hsub x (hin x hx), hrest⟩

/-- **What is kept**: items with different new keys, cut to the cap, and nothing if and only if the cap is zero
or no item is reached. -/
theorem capItems_spec (hT : Stable E.T) (hfits : Fits E isalnum items) (chars : ℕ)
    (seenKeys : List String) (query : String) : ∃ out seen,
    capItems E log blake2b isalnum items chars seenKeys query = .ok (out, seen) ∧
      Kept blake2b chars 0 seenKeys items out ∧
      (out = [] ↔ chars = 0 ∨ ¬ Reaches E blake2b isalnum items seenKeys query) := by
  have hrun : ∀ ordered, orderedItems E log blake2b isalnum query items = .ok ordered →
      capItems E log blake2b isalnum items chars seenKeys query =
        .ok (capLoop blake2b chars 0 seenKeys ordered) := by
    intro ordered h
    rw [capItems, h]
    rfl
  by_cases hranked : isRanked query items = true
  · have hne : items ≠ [] := by
      rintro rfl
      simp [isRanked] at hranked
    by_cases hquery : tokenize E isalnum query = []
    · have horder : orderedItems E log blake2b isalnum query items = .ok [] := by
        rw [orderedItems, if_pos hranked]
        exact rankedItems_tokenless hfits hT hne hquery
      refine ⟨[], seenKeys, hrun [] horder, ⟨by simp [totalChars], [], by simp⟩, ?_⟩
      exact iff_of_true rfl (Or.inr fun h => h.1 hranked hquery)
    · obtain ⟨lexicalRank, ordered, hordered, hmatch, hnodup, hfirst⟩ :=
        @rankedItems_spec F E log blake2b isalnum items hfits hT query hne hquery
      have horder : orderedItems E log blake2b isalnum query items = .ok ordered := by
        rw [orderedItems, if_pos hranked]
        exact hordered
      have hkept := @capLoop_kept F blake2b chars ordered 0 seenKeys
      refine ⟨_, _, hrun ordered horder, hkept.of_subset fun x hx =>
        (leads_of_find hranked hmatch ((hfirst x).mp hx)).1, ?_⟩
      rw [capLoop_eq_nil, Nat.le_zero]
      refine or_congr_right ⟨fun hall hreach => ?_, fun hnot x hx => ?_⟩
      · obtain ⟨-, x, hx, hnew, htext, hlead⟩ := hreach
        obtain ⟨y, hfind, hkey, hytext⟩ := find_of_leads hranked hmatch hx htext hlead
        refine hytext (hall y ((dedupeFrom_nodup hnodup).mpr ⟨?_, (hfirst y).mpr hfind⟩))
        rwa [hkey]
      · obtain ⟨hnew, hin⟩ := (dedupeFrom_nodup hnodup).mp hx
        obtain ⟨hitem, hlead⟩ := leads_of_find hranked hmatch ((hfirst x).mp hin)
        by_contra htext
        exact hnot ⟨fun _ => hquery, x, hitem, hnew, htext, hlead⟩
  · have horder : orderedItems E log blake2b isalnum query items = .ok items := by
      rw [orderedItems, if_neg hranked]
    refine ⟨_, _, hrun items horder, capLoop_kept chars items 0 seenKeys, ?_⟩
    rw [capLoop_eq_nil, Nat.le_zero]
    refine or_congr_right ⟨fun hall hreach => ?_, fun hnot x hx => ?_⟩
    · obtain ⟨-, x, -, hnew, htext, hlead⟩ := hreach
      rw [LeadsKey, if_neg hranked] at hlead
      exact htext (hall x (mem_dedupeFrom.mpr ⟨hnew, hlead⟩))
    · obtain ⟨hnew, hfind⟩ := mem_dedupeFrom.mp hx
      by_contra htext
      refine hnot ⟨fun h => absurd h hranked, x, List.mem_of_find?_eq_some hfind, hnew, htext, ?_⟩
      rw [LeadsKey, if_neg hranked]
      exact hfind

/-- **Source caps lose nothing but what does not fit** if and only if nothing could be kept, or an item is
reached. -/
theorem capItems_iff (hT : Stable E.T) (hfits : Fits E isalnum items) (chars : ℕ)
    (seenKeys : List String) (query : String) :
    (∃ out seen, capItems E log blake2b isalnum items chars seenKeys query = .ok (out, seen) ∧
      Kept blake2b chars 0 seenKeys items out ∧
      (out = [] → chars = 0 ∨ ∀ x ∈ items, Excused E blake2b isalnum items seenKeys query x)) ↔
    chars = 0 ∨ (∀ x ∈ items, Excused E blake2b isalnum items seenKeys query x) ∨
      Reaches E blake2b isalnum items seenKeys query := by
  obtain ⟨out, seen, hout, hkept, hnil⟩ :=
    @capItems_spec F E log blake2b isalnum items hT hfits chars seenKeys query
  constructor
  · rintro ⟨out', seen', hout', -, honly⟩
    have hsame : out = out' := by
      rw [hout] at hout'
      exact congrArg Prod.fst (Except.ok.inj hout')
    rw [← hsame] at honly
    by_cases hreach : Reaches E blake2b isalnum items seenKeys query
    · exact Or.inr (Or.inr hreach)
    · exact (honly (hnil.mpr (Or.inr hreach))).imp id Or.inl
  · intro h
    refine ⟨out, seen, hout, hkept, fun he => ?_⟩
    rcases h with hzero | hall | hreach
    · exact Or.inl hzero
    · exact Or.inr hall
    · exact Or.inl ((hnil.mp he).resolve_right (not_not.mpr hreach))

/-- Two items with the best score. -/
def greekItems : List (ContextItem ℚ) :=
  [⟨"hot_cache", "alpha", 1, false, [], [], none⟩, ⟨"hot_cache", "beta", 1, false, [], [], none⟩]

theorem fits_exact {items : List (ContextItem ℚ)} : Fits exactPlatform isalnum items :=
  resolves_exact exact_rationals _

theorem capItems_greek :
    (∃ out seen, capItems exactPlatform id id Char.isAlphanum greekItems 10 [] "alpha" = .ok (out, seen) ∧
      Kept id 10 0 [] greekItems out ∧
      (out = [] → 10 = 0 ∨ ∀ x ∈ greekItems, Excused exactPlatform id Char.isAlphanum greekItems [] "alpha" x)) ↔
    10 = 0 ∨ (∀ x ∈ greekItems, Excused exactPlatform id Char.isAlphanum greekItems [] "alpha" x) ∨
      Reaches exactPlatform id Char.isAlphanum greekItems [] "alpha" :=
  capItems_iff exact_rationals.stable fits_exact 10 [] "alpha"

/-- **A query without tokens** loses items with positive scores that would fit. -/
theorem capItems_tokenless :
    ¬ ∃ out seen, capItems exactPlatform id id Char.isAlphanum greekItems 10 [] "?" = .ok (out, seen) ∧
      Kept id 10 0 [] greekItems out ∧
      (out = [] → 10 = 0 ∨ ∀ x ∈ greekItems, Excused exactPlatform id Char.isAlphanum greekItems [] "?" x) := by
  have hnone : rankedItems exactPlatform id id Char.isAlphanum "?" greekItems = .ok [] :=
    rankedItems_tokenless fits_exact exact_rationals.stable (by decide) (by decide)
  have hlost : capItems exactPlatform id id Char.isAlphanum greekItems 10 [] "?" = .ok ([], []) := by
    rw [capItems, orderedItems, if_pos (by decide), hnone]
    rfl
  rintro ⟨out, seen, hout, -, honly⟩
  rw [hlost] at hout
  have hempty : out = [] := (congrArg Prod.fst (Except.ok.inj hout)).symm
  rcases (honly hempty).resolve_left (by decide) _ (List.mem_cons_self) with hseen | htext | ⟨-, hscore, -⟩
  · cases hseen
  · exact absurd htext (by decide)
  · exact hscore (by decide)

end Caps

end ControlPlane.Retrieval.Caps
