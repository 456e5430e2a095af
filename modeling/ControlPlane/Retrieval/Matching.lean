import ControlPlane.Lib.Magnitudes
import ControlPlane.Retrieval.Fusion

/-! # What rankings have

Which items a ranking by words has, and which of the items with one key a fusion keeps. If the floats
resolve the numbers up to a bound that grows with the texts (`Resolves`), a ranking by words has the items
that share a word with the query (`mem_rank_iff`). A fusion keeps the first item with a key that its rankings
have, one ranking after the other (`fusion_leaders`). -/

namespace ControlPlane.Retrieval.Matching

open ControlPlane.Lib.Floats ControlPlane.Lib.Rounding ControlPlane.Lib.Magnitudes ControlPlane.Lib.Dynamic
open ControlPlane.Lib.Keyed ControlPlane.Environment ControlPlane.Retrieval.Fusion

variable {F α : Type} {E : Env F} {log : Num → Num} {tokenize : String → List String}

/-! ### Scores -/

section Fold
variable {T : FloatSys F} {count : String → ℕ} {gain : String → Num}

/-- The sum of what the tokens that occur gain. -/
def sumOf (T : FloatSys F) (count : String → ℕ) (gain : String → Num) (start : Num) (tokens : List String) :
    Num :=
  tokens.foldl (fun score token => if count token = 0 then score else T.add score (gain token)) start

theorem sumOf_none {tokens : List String} (start : Num) (h : ∀ t ∈ tokens, count t = 0) :
    sumOf T count gain start tokens = start := by
  induction tokens with
  | nil => rfl
  | cons t ts ih =>
    obtain ⟨ht, hts⟩ := List.forall_mem_cons.mp h
    rw [sumOf, List.foldl_cons, if_pos ht]
    exact ih hts

theorem sumOf_gains (hT : Stable T) : ∀ {tokens : List String} {start : Num},
    (∀ t ∈ tokens, count t ≠ 0 → Gains T (gain t)) → Gains T start →
    Gains T (sumOf T count gain start tokens)
  | [], _, _, hs => hs
  | t :: ts, start, h, hs => by
    obtain ⟨ht, hts⟩ := List.forall_mem_cons.mp h
    rw [sumOf, List.foldl_cons]
    by_cases hc : count t = 0
    · rw [if_pos hc]
      exact sumOf_gains hT hts hs
    · rw [if_neg hc]
      exact sumOf_gains hT hts (hs.add hT (ht hc))

/-- The sum is positive as soon as one token occurs. -/
theorem sumOf_found (hT : Stable T) : ∀ {tokens : List String},
    (∀ t ∈ tokens, count t ≠ 0 → Gains T (gain t)) → (∃ t ∈ tokens, count t ≠ 0) →
    Gains T (sumOf T count gain (.fin 0) tokens)
  | [], _, ⟨_, ht, _⟩ => absurd ht List.not_mem_nil
  | t :: ts, h, hex => by
    obtain ⟨ht, hts⟩ := List.forall_mem_cons.mp h
    rw [sumOf, List.foldl_cons]
    by_cases hc : count t = 0
    · rw [if_pos hc]
      refine sumOf_found hT hts ?_
      obtain ⟨u, hu, hcu⟩ := hex
      rcases List.mem_cons.mp hu with rfl | hu
      · exact absurd hc hcu
      · exact ⟨u, hu, hcu⟩
    · rw [if_neg hc]
      exact sumOf_gains hT hts (ht hc).first

end Fold

/-- The length of a document against the average one. -/
def lenNorm (T : FloatSys F) (scorer : Scorer α) (doc : TokenizedDoc α) : Num :=
  T.add (T.sub (T.lit 1) (T.lit (3 / 4)))
    (T.mul (T.lit (3 / 4)) (T.div (T.lit doc.tokens.length) scorer.avgdl))

/-- How much a frequency counts. -/
def saturation (T : FloatSys F) (scorer : Scorer α) (doc : TokenizedDoc α) (freq : ℕ) : Num :=
  T.div (T.mul (T.lit freq) (T.add (T.lit (3 / 2)) (T.lit 1)))
    (T.add (T.lit freq) (T.mul (T.lit (3 / 2)) (lenNorm T scorer doc)))

theorem scoreDocument_eq (scorer : Scorer α) (queryTokens : List String) (doc : TokenizedDoc α) :
    scoreDocument E log scorer queryTokens doc =
      if scorer.avgdl.le (.fin 0) then .fin 0
      else sumOf E.T doc.termFreq (fun token => E.T.mul (idf E log scorer token)
        (saturation E.T scorer doc (doc.termFreq token))) (.fin 0) queryTokens := rfl

theorem rounded_mul {T : FloatSys F} (hT : Stable T) (x y : Num) : Rounded T (T.mul x y) := by
  by_cases hfin : ∃ p q, x = .fin p ∧ y = .fin q
  · obtain ⟨p, q, rfl, rfl⟩ := hfin
    exact rounded_lit hT _
  · intro r hr
    exfalso
    revert hr
    unfold FloatSys.mul
    split
    · exact fun _ => hfin ⟨_, _, rfl, rfl⟩
    · split <;> exact fun h => by cases h

theorem idf_ge (scorer : Scorer α) (token : String) :
    (E.T.lit (1 / 100)).le (idf E log scorer token) = true := by
  have hself : (E.T.lit (1 / 100)).le (E.T.lit (1 / 100)) = true := E.T.lit_mono le_rfl
  unfold idf
  dsimp only
  split_ifs with h1 h2
  · exact hself
  · exact Num.le_of_lt h2
  · exact hself

/-! ### Bounds of scores -/

/-- How many texts and words there are. -/
def volume (tokenize : String → List String) (texts : List String) : ℕ :=
  texts.length + (texts.map fun text => (tokenize text).length).sum

/-- The bound up to which the scores of texts need floats. -/
def scoreBound (tokenize : String → List String) (texts : List String) : ℚ :=
  2 ^ 24 * (volume tokenize texts : ℚ) ^ 3

section Bounds
variable {T : FloatSys F} {s bound : ℚ} (hT : Stable T) (hres : Resolves T bound) (hs : 1 ≤ s)
  (hbound : 2 ^ 24 * s ^ 3 ≤ bound)

theorem pow_bounds (hs : 1 ≤ s) : s ≤ s ^ 3 ∧ s ^ 2 ≤ s ^ 3 ∧ 1 ≤ s ^ 3 := by
  have h2 : s ^ 2 ≤ s ^ 3 := pow_le_pow_right₀ hs (by norm_num)
  have h1 : s ^ 1 ≤ s ^ 3 := pow_le_pow_right₀ hs (by norm_num)
  have h0 : 1 ≤ s ^ 3 := one_le_pow₀ hs
  rw [pow_one] at h1
  exact ⟨h1, h2, h0⟩

include hT hres hs hbound

theorem lenNorm_sized {scorer : Scorer α} {doc : TokenizedDoc α} {avg : ℚ} (havg : scorer.avgdl = .fin avg)
    (hsize : Sized (2 * s) avg) (hlen : Sized s (doc.tokens.length : ℚ)) :
    ∃ r, lenNorm T scorer doc = .fin r ∧ Sized (98 * s ^ 2) r := by
  obtain ⟨h1, h2, h3⟩ := pow_bounds hs
  obtain ⟨len, hlenlit, hlens⟩ := hres.lit hlen (by linarith)
  obtain ⟨quot, hquot, hquots⟩ := hres.div hlens hsize (by nlinarith)
  have hb : Sized (4 / 3 : ℚ) (3 / 4) := ⟨by norm_num, by norm_num, by norm_num⟩
  obtain ⟨b, hblit, hbs⟩ := hres.lit hb (by linarith)
  obtain ⟨prod, hprod, hprods⟩ := hres.mul hbs hquots (by nlinarith)
  obtain ⟨u, hu, hu0, hu1⟩ := unit_lit hT (show (0 : ℚ) ≤ 3 / 4 by norm_num) (by norm_num)
  have hub : u = b := by
    rw [hblit] at hu
    exact (Num.fin.inj hu).symm
  obtain ⟨v, hv, hv0, hv1⟩ := unit_lit hT (show 0 ≤ 1 - u by linarith) (by linarith)
  obtain ⟨sum, hsum, hsums⟩ := hres.add hprods hv0 hv1 (by nlinarith)
  refine ⟨sum, ?_, hsums.mono (by nlinarith)⟩
  have hcomm : T.add (.fin v) (.fin prod) = T.add (.fin prod) (.fin v) := by
    show T.lit (v + prod) = T.lit (prod + v)
    rw [add_comm]
  have hsub : T.sub (.fin 1) (.fin b) = .fin v := by
    rw [← hub]
    exact hv
  rw [lenNorm, hlenlit, havg, hquot, hblit, hprod, hT.one, hsub, hcomm, hsum]

theorem saturation_sized {scorer : Scorer α} {doc : TokenizedDoc α} {avg : ℚ} (havg : scorer.avgdl = .fin avg)
    (hsize : Sized (2 * s) avg) (hlen : Sized s (doc.tokens.length : ℚ)) {freq : ℕ}
    (hfreq : Sized s (freq : ℚ)) :
    ∃ r, saturation T scorer doc freq = .fin r ∧ Sized (75520 * s ^ 3) r := by
  obtain ⟨h1, h2, h3⟩ := pow_bounds hs
  obtain ⟨norm, hnorm, hnorms⟩ := lenNorm_sized hT hres hs hbound havg hsize hlen
  obtain ⟨f, hflit, hfs⟩ := hres.lit hfreq (by linarith)
  have hk : Sized (3 / 2 : ℚ) (3 / 2) := ⟨by norm_num, by norm_num, by norm_num⟩
  obtain ⟨k, hklit, hks⟩ := hres.lit hk (by linarith)
  obtain ⟨ksum, hksum, hksums⟩ := hres.add hks zero_le_one le_rfl (by linarith)
  obtain ⟨num, hnum, hnums⟩ := hres.mul hfs hksums (by nlinarith)
  obtain ⟨knorm, hknorm, hknorms⟩ := hres.mul hks hnorms (by nlinarith)
  obtain ⟨den, hden, hdens⟩ := hres.add hfs hknorms.pos.le hknorms.up (by nlinarith)
  obtain ⟨quot, hquot, hquots⟩ := hres.div hnums hdens (by nlinarith)
  refine ⟨quot, ?_, hquots.mono (by nlinarith)⟩
  rw [saturation, hflit, hklit, hT.one, hksum, hnum, hnorm, hknorm, hden, hquot]

end Bounds

/-! ### Rankings by words -/

theorem fit_eq (items : List α) (text : α → String) :
    fit E tokenize (items.map text) items = .ok ⟨docsOf tokenize (items.map text) items,
      E.T.lit (((docsOf tokenize (items.map text) items).map fun doc => doc.tokens.length).sum /
        (max 1 (docsOf tokenize (items.map text) items).length : ℕ))⟩ := by
  unfold fit
  rw [if_neg (by simp)]

/-- The documents are the items with their words. -/
theorem docsOf_map (items : List α) (text : α → String) :
    (docsOf tokenize (items.map text) items).map (fun doc => (doc.tokens, doc.originalItem)) =
      items.map fun x => (tokenize (text x), x) := by
  have hzip : (items.map text).zip items = items.map fun x => (text x, x) := by
    induction items with
    | nil => rfl
    | cons x xs ih => rw [List.map_cons, List.zip_cons_cons, ih, List.map_cons]
  have hdocs : (docsOf tokenize (items.map text) items).map (fun doc => (doc.tokens, doc.originalItem)) =
      (((items.map text).zip items).zipIdx.map Prod.fst).map fun p => (tokenize p.1, p.2) := by
    rw [docsOf, List.map_map, List.map_map]
    rfl
  rw [hdocs, List.zipIdx_map_fst, hzip, List.map_map]
  rfl

theorem mem_docsOf {items : List α} {text : α → String} {doc : TokenizedDoc α}
    (h : doc ∈ docsOf tokenize (items.map text) items) :
    doc.originalItem ∈ items ∧ doc.tokens = tokenize (text doc.originalItem) := by
  have hin := List.mem_map_of_mem (f := fun doc : TokenizedDoc α => (doc.tokens, doc.originalItem)) h
  rw [docsOf_map] at hin
  obtain ⟨x, hx, he⟩ := List.mem_map.mp hin
  have h1 : tokenize (text x) = doc.tokens := congrArg Prod.fst he
  have h2 : x = doc.originalItem := congrArg Prod.snd he
  rw [← h2, ← h1]
  exact ⟨hx, rfl⟩

theorem exists_doc {items : List α} (text : α → String) {x : α} (h : x ∈ items) :
    ∃ doc ∈ docsOf tokenize (items.map text) items, doc.originalItem = x ∧ doc.tokens = tokenize (text x) := by
  have hin : (tokenize (text x), x) ∈ items.map fun x => (tokenize (text x), x) := List.mem_map_of_mem h
  rw [← docsOf_map] at hin
  obtain ⟨doc, hdoc, he⟩ := List.mem_map.mp hin
  exact ⟨doc, hdoc, congrArg Prod.snd he, congrArg Prod.fst he⟩

section Ranked
variable (hT : Stable E.T) {items : List α} {text : α → String}

/-- A document without a word of the query has no score. -/
theorem scoreDocument_none {scorer : Scorer α} {queryTokens : List String} {doc : TokenizedDoc α}
    (h : ∀ t ∈ queryTokens, t ∉ doc.tokens) : scoreDocument E log scorer queryTokens doc = .fin 0 := by
  rw [scoreDocument_eq]
  split_ifs
  · rfl
  · exact sumOf_none _ fun t ht => List.count_eq_zero.mpr (h t ht)

include hT

/-- A document with a word of the query has a positive score. -/
theorem scoreDocument_found (hres : Resolves E.T (scoreBound tokenize (items.map text)))
    {scorer : Scorer α} (hfit : fit E tokenize (items.map text) items = .ok scorer)
    {queryTokens : List String} {doc : TokenizedDoc α} (hdoc : doc ∈ scorer.docs)
    (h : ∃ t ∈ queryTokens, t ∈ doc.tokens) :
    (Num.fin 0).lt (scoreDocument E log scorer queryTokens doc) = true := by
  rw [fit_eq] at hfit
  have hscorer := Except.ok.inj hfit
  have hdocs : scorer.docs = docsOf tokenize (items.map text) items := by rw [← hscorer]
  have havg : scorer.avgdl = E.T.lit ((((scorer.docs.map fun doc => doc.tokens.length).sum : ℕ) : ℚ) /
      ((max 1 scorer.docs.length : ℕ) : ℚ)) := by rw [← hscorer]
  have htotal : (scorer.docs.map fun doc => doc.tokens.length).sum =
      ((items.map text).map fun t => (tokenize t).length).sum := by
    have hlens := congrArg (List.map fun p : List String × α => p.1.length) (@docsOf_map _ tokenize items text)
    rw [List.map_map, List.map_map] at hlens
    rw [hdocs, List.map_map]
    exact congrArg List.sum hlens
  have hcount : scorer.docs.length = items.length := by
    have hlens := congrArg List.length (@docsOf_map _ tokenize items text)
    rwa [List.length_map, List.length_map, ← hdocs] at hlens
  have hvolume : volume tokenize (items.map text) =
      scorer.docs.length + (scorer.docs.map fun doc => doc.tokens.length).sum := by
    rw [volume, htotal, hcount, List.length_map]
  set total := (scorer.docs.map fun doc => doc.tokens.length).sum
  set size := volume tokenize (items.map text)
  have hlen : doc.tokens.length ≤ total :=
    List.single_le_sum (by simp) _ (List.mem_map_of_mem hdoc)
  have hdocpos : 0 < scorer.docs.length := List.length_pos_of_mem hdoc
  obtain ⟨t, ht, htdoc⟩ := h
  have hlenpos : 0 < doc.tokens.length := List.length_pos_of_mem htdoc
  have hs : (1 : ℚ) ≤ (size : ℚ) := by
    have : 1 ≤ size := by omega
    exact_mod_cast this
  have hbound : 2 ^ 24 * (size : ℚ) ^ 3 ≤ scoreBound tokenize (items.map text) := le_rfl
  -- The average is positive.
  have hratio : Sized (size : ℚ) ((total : ℚ) / ((max 1 scorer.docs.length : ℕ) : ℚ)) := by
    have hn : max 1 scorer.docs.length = scorer.docs.length := by omega
    have hnpos : (0 : ℚ) < (scorer.docs.length : ℚ) := by exact_mod_cast hdocpos
    have htpos : (1 : ℚ) ≤ (total : ℚ) := by
      have : 1 ≤ total := by omega
      exact_mod_cast this
    have hnle : (scorer.docs.length : ℚ) ≤ (size : ℚ) := by
      have : scorer.docs.length ≤ size := by omega
      exact_mod_cast this
    have htle : (total : ℚ) ≤ (size : ℚ) := by
      have : total ≤ size := by omega
      exact_mod_cast this
    have hn1 : (1 : ℚ) ≤ (scorer.docs.length : ℚ) := by exact_mod_cast hdocpos
    rw [hn]
    refine ⟨?_, ?_, by positivity⟩
    · rw [← mul_div_assoc, le_div_iff₀ hnpos]
      nlinarith
    · rw [div_le_iff₀ hnpos]
      nlinarith
  obtain ⟨h1, h2, h3⟩ := pow_bounds hs
  obtain ⟨avg, havgfin, havgs⟩ := hres.lit hratio (by linarith)
  rw [havgfin] at havg
  have hlens : Sized (size : ℚ) (doc.tokens.length : ℚ) := sized_nat hlenpos (by omega)
  have hgains : ∀ t ∈ queryTokens, doc.termFreq t ≠ 0 →
      Gains E.T (E.T.mul (idf E log scorer t) (saturation E.T scorer doc (doc.termFreq t))) := by
    intro t _ hne
    have hle : doc.termFreq t ≤ doc.tokens.length := List.count_le_length
    obtain ⟨sat, hsat, hsats⟩ := saturation_sized hT hres hs hbound havg havgs hlens
      (sized_nat (Nat.pos_of_ne_zero hne) (by omega : doc.termFreq t ≤ size))
    have hc : Sized (100 : ℚ) (1 / 100) := ⟨by norm_num, by norm_num, by norm_num⟩
    obtain ⟨c, hclit, hcs⟩ := hres.lit hc (by linarith)
    have hge : (Num.fin c).le (idf E log scorer t) = true := by
      rw [← hclit]
      exact idf_ge scorer t
    refine ⟨?_, rounded_mul hT _ _⟩
    rw [hsat]
    exact hres.mul_pos hcs hsats (by linarith) hge
  have hsum := sumOf_found hT hgains ⟨t, ht, by
    rw [TokenizedDoc.termFreq, ne_eq, List.count_eq_zero, not_not]
    exact htdoc⟩
  have hnot : ¬ scorer.avgdl.le (.fin 0) = true := by
    have hpos := havgs.pos
    rw [havg, Num.le_fin, decide_eq_true_eq]
    linarith
  rw [scoreDocument_eq, if_neg hnot]
  exact hsum.positive

/-- **A ranking by words** has the items that share a word with the query. -/
theorem mem_rank_iff (hres : Resolves E.T (scoreBound tokenize (items.map text)))
    {scorer : Scorer α} (hfit : fit E tokenize (items.map text) items = .ok scorer) (query : String) (x : α) :
    x ∈ (rank E log tokenize scorer query).map Prod.snd ↔
      x ∈ items ∧ ∃ t ∈ tokenize query, t ∈ tokenize (text x) := by
  have hdocs : scorer.docs = docsOf tokenize (items.map text) items := (docs_of_fit E hfit).2
  rw [rank, List.map_map, List.mem_map]
  constructor
  · rintro ⟨r, hr, rfl⟩
    obtain ⟨doc, hdoc, hscore⟩ := List.mem_filterMap.mp ((perm_byScore Prod.fst _).subset hr)
    dsimp only at hscore
    split_ifs at hscore with hpos
    have hitem : r.2 = doc := by rw [← Option.some.inj hscore]
    have hin := hdocs ▸ hdoc
    obtain ⟨hmem, htokens⟩ := mem_docsOf hin
    refine ⟨by simpa [hitem] using hmem, ?_⟩
    by_contra hnone
    have hzero : ∀ t ∈ (tokenize query).dedup, t ∉ doc.tokens := by
      intro t ht htdoc
      refine hnone ⟨t, List.mem_dedup.mp ht, ?_⟩
      simpa [hitem, htokens] using htdoc
    rw [scoreDocument_none hzero] at hpos
    simp at hpos
  · rintro ⟨hx, t, ht, htx⟩
    obtain ⟨doc, hdoc, hitem, htokens⟩ := @exists_doc _ tokenize _ text _ hx
    rw [← hdocs] at hdoc
    have hpos : (Num.fin 0).lt (scoreDocument E log scorer (tokenize query).dedup doc) = true :=
      scoreDocument_found hT hres hfit hdoc ⟨t, List.mem_dedup.mpr ht, htokens ▸ htx⟩
    refine ⟨(scoreDocument E log scorer (tokenize query).dedup doc, doc), ?_, hitem⟩
    refine (perm_byScore Prod.fst _).symm.subset (List.mem_filterMap.mpr ⟨doc, hdoc, ?_⟩)
    exact if_pos hpos

end Ranked

/-! ### Leaders -/

section Leaders
variable {key : α → String}

/-- What has been fused of the items `done`: each key of theirs, with the first item that has it. -/
structure Leads (key : α → String) (done : List α) (fused : List (Fused α)) : Prop where
  keys : ∀ x ∈ done, key x ∈ fused.map Fused.key
  first : ∀ e ∈ fused, done.find? (fun x => decide (key x = e.key)) = some e.item

theorem mem_credit {T : FloatSys F} {k : String} {item : α} {share : Num} {e : Fused α} :
    ∀ {fused : List (Fused α)}, e ∈ credit T k item share fused →
      (∃ e' ∈ fused, e'.key = e.key ∧ e'.item = e.item) ∨
        (e.key = k ∧ e.item = item ∧ k ∉ fused.map Fused.key)
  | [], h => by
    rw [credit, List.mem_singleton] at h
    rw [h]
    exact Or.inr ⟨rfl, rfl, by simp⟩
  | d :: ds, h => by
    rw [credit] at h
    split_ifs at h with hd
    · rcases List.mem_cons.mp h with rfl | h
      · exact Or.inl ⟨d, List.mem_cons_self, rfl, rfl⟩
      · exact Or.inl ⟨e, List.mem_cons_of_mem _ h, rfl, rfl⟩
    · rcases List.mem_cons.mp h with rfl | h
      · exact Or.inl ⟨e, List.mem_cons_self, rfl, rfl⟩
      · rcases mem_credit h with ⟨e', he', hsame⟩ | ⟨hkey, hitem, hnew⟩
        · exact Or.inl ⟨e', List.mem_cons_of_mem _ he', hsame⟩
        · refine Or.inr ⟨hkey, hitem, ?_⟩
          rw [List.map_cons, List.mem_cons, not_or]
          exact ⟨fun he => hd he.symm, hnew⟩

/-- An item whose key is there already changes nothing. -/
theorem Leads.skip {done : List α} {fused : List (Fused α)} {item : α} (h : Leads key done fused)
    (hin : key item ∈ fused.map Fused.key) : Leads key (done ++ [item]) fused := by
  refine ⟨fun x hx => ?_, fun e he => ?_⟩
  · rcases List.mem_append.mp hx with hx | hx
    · exact h.keys x hx
    · rw [List.mem_singleton.mp hx]
      exact hin
  · rw [List.find?_append, h.first e he]
    rfl

theorem Leads.credit {T : FloatSys F} {done : List α} {fused : List (Fused α)} {item : α} {share : Num}
    (h : Leads key done fused) :
    Leads key (done ++ [item]) (Fusion.credit T (key item) item share fused) := by
  refine ⟨fun x hx => ?_, fun e he => ?_⟩
  · rw [mem_keys_credit]
    rcases List.mem_append.mp hx with hx | hx
    · exact Or.inr (h.keys x hx)
    · exact Or.inl (congrArg key (List.mem_singleton.mp hx))
  · rw [List.find?_append]
    rcases mem_credit he with ⟨e', he', hkey, hitem⟩ | ⟨hkey, hitem, hnew⟩
    · rw [← hkey, h.first e' he', hitem]
      rfl
    · have hnone : done.find? (fun x => decide (key x = e.key)) = none := by
        rw [List.find?_eq_none]
        intro x hx hsame
        rw [decide_eq_true_eq, hkey] at hsame
        exact hnew (hsame ▸ h.keys x hx)
      rw [hnone, hitem, Option.none_or, List.find?_cons_of_pos (by simp [hkey])]

theorem fuseRanking_leads {k : ℤ} {weight : Num} : ∀ {items : List α} {rank : ℕ} {seen : List String}
    {done : List α} {fused fused' : List (Fused α)},
    fuseRanking E key k weight rank seen items fused = .ok fused' →
    (∀ s ∈ seen, s ∈ fused.map Fused.key) → Leads key done fused → Leads key (done ++ items) fused'
  | [], _, _, done, fused, fused', h, _, hl => by
    rw [List.append_nil, ← Except.ok.inj h]
    exact hl
  | item :: items, rank, seen, done, fused, fused', h, hseen, hl => by
    have happend : done ++ item :: items = done ++ [item] ++ items := by simp
    rw [fuseRanking] at h
    rw [happend]
    split_ifs at h with hin
    · have hold := hl.skip (hseen _ (List.contains_iff_mem.mp hin))
      exact fuseRanking_leads h hseen hold
    · obtain ⟨share, -, h⟩ := bind_eq_ok.mp h
      refine fuseRanking_leads h (fun s hs => ?_) hl.credit
      rw [mem_keys_credit]
      exact (List.mem_cons.mp hs).imp id (hseen s)

theorem fuseRankings_leads {k : ℤ} : ∀ {rankings : List (List α × Num)} {done : List α}
    {fused fused' : List (Fused α)}, fuseRankings E key k rankings fused = .ok fused' →
    (∀ r ∈ rankings, r.2.eq (.fin 0) = false) → Leads key done fused →
    Leads key (done ++ rankings.flatMap Prod.fst) fused'
  | [], done, fused, fused', h, _, hl => by
    rw [List.flatMap_nil, List.append_nil, ← Except.ok.inj h]
    exact hl
  | (ranking, weight) :: rankings, done, fused, fused', h, hw, hl => by
    obtain ⟨hweight, hrest⟩ := List.forall_mem_cons.mp hw
    have hnot : ¬ weight.eq (.fin 0) = true := by
      rw [Bool.not_eq_true]
      exact hweight
    rw [fuseRankings, if_neg hnot] at h
    obtain ⟨fused₁, h₁, h₂⟩ := bind_eq_ok.mp h
    have hstep := fuseRanking_leads h₁ (by simp) hl
    have hrun := fuseRankings_leads h₂ hrest hstep
    rwa [List.append_assoc] at hrun

/-- **What a fusion keeps**: of each key the first item that the rankings have. -/
theorem fusion_leaders (hT : Stable E.T) {rankings : List (List α)} {k : ℤ} {fused : List (Num × α)}
    (h : reciprocalRankFusion E rankings key k none = .ok fused) (x : α) :
    x ∈ fused.map Prod.snd ↔ rankings.flatten.find? (fun y => decide (key y = key x)) = some x := by
  obtain ⟨_, -, h⟩ := bind_eq_ok.mp h
  obtain ⟨_, -, h⟩ := bind_eq_ok.mp h
  obtain ⟨entries, hentries, h⟩ := bind_eq_ok.mp h
  have hweights : effectiveWeights E.T rankings.length none = List.replicate rankings.length (.fin 1) := by
    rw [← hT.one]
    rfl
  rw [hweights] at hentries
  have hnonzero : ∀ r ∈ rankings.zip (List.replicate rankings.length (Num.fin 1)),
      r.2.eq (.fin 0) = false := by
    intro r hr
    rw [List.eq_of_mem_replicate (List.of_mem_zip hr).2]
    simp
  have hflat : (rankings.zip (List.replicate rankings.length (Num.fin 1))).flatMap Prod.fst =
      rankings.flatten := by
    rw [List.flatMap_def, List.map_fst_zip (by simp)]
  have hstart : Leads key [] ([] : List (Fused α)) := ⟨by simp, by simp⟩
  have hlead := fuseRankings_leads hentries hnonzero hstart
  rw [List.nil_append, hflat] at hlead
  set ordered := entries.zipIdx.insertionSort fun a b => fusedLE a b = true with hordered
  have hperm : (ordered.map Prod.fst).Perm entries := by
    have := (List.perm_insertionSort (fun a b => fusedLE a b = true) entries.zipIdx).map Prod.fst
    rwa [List.zipIdx_map_fst] at this
  have hitems : fused.map Prod.snd = (ordered.map Prod.fst).map Fused.item := by
    rw [← Except.ok.inj h, List.map_map, List.map_map]
    rfl
  rw [hitems, (hperm.map Fused.item).mem_iff, List.mem_map]
  constructor
  · rintro ⟨e, he, rfl⟩
    have hfirst := hlead.first e he
    have hkey := List.find?_some hfirst
    rw [decide_eq_true_eq] at hkey
    rwa [hkey]
  · intro hfirst
    obtain ⟨e, he, hkey⟩ := List.mem_map.mp (hlead.keys x (List.mem_of_find?_eq_some hfirst))
    have hsame := hlead.first e he
    rw [hkey, hfirst] at hsame
    exact ⟨e, he, (Option.some.inj hsame).symm⟩

end Leaders

end ControlPlane.Retrieval.Matching
