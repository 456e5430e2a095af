import Mathlib

/-! # Lazy greedy runs

A greedy run takes, again and again, the item of a pool that fits and has the greatest value, ties
broken by the smallest key, until no item that fits has a value above `zero` (`Greedy`). A lazy run keeps
a bound on the value of every item in a heap, looks at the item of the greatest bound only, and puts it
back with its value as long as the bound is from before the last choice (`Lazy`).

If taking an item makes no value grow and nothing fit that did not (`Shrinks`), bounds from before stay
bounds, and then a lazy run takes what the greedy run takes, in the same order (`Lazy.greedy`). A greedy
run is determined by its pool (`Greedy.unique`), and nothing that it leaves behind both fits and has a
value above `zero` (`Greedy.maximal`). -/

namespace ControlPlane.Lib.LazyGreedy

variable {σ α V κ : Type} [LinearOrder V] [LinearOrder κ]

/-- A state in which items have values, and what taking an item makes of it. -/
structure Problem (σ α V κ : Type) where
  value : σ → α → V
  zero : V
  key : α → κ
  Fits : σ → α → Prop
  take : σ → α → σ

variable (P : Problem σ α V κ)

/-- The first item is preferred to the second. -/
def Problem.Better (s : σ) (c d : α) : Prop :=
  P.value s d < P.value s c ∨ P.value s d = P.value s c ∧ P.key c < P.key d

/-- The pool without the items of a key. -/
def Problem.without (c : α) (pool : List α) : List α := pool.filter fun d => P.key d ≠ P.key c

omit [LinearOrder V] in
@[simp] theorem Problem.mem_without {c d : α} {pool : List α} :
    d ∈ P.without c pool ↔ d ∈ pool ∧ P.key d ≠ P.key c := by
  simp [Problem.without]

/-- **A greedy run** over a pool, and what it takes. -/
inductive Greedy : σ → List α → List α → Prop
  | stop {s pool} : (∀ c ∈ pool, P.Fits s c → P.value s c ≤ P.zero) → Greedy s pool []
  | pick {s pool picks c} : c ∈ pool → P.Fits s c → P.zero < P.value s c →
    (∀ d ∈ pool, P.Fits s d → P.key d ≠ P.key c → P.Better s c d) →
    Greedy (P.take s c) (P.without c pool) picks → Greedy s pool (c :: picks)

/-- Taking an item of `Item` in a state of `Inv` makes no value grow, and nothing fit. -/
structure Shrinks (Inv : σ → Prop) (Item : α → Prop) : Prop where
  step : ∀ {s c}, Inv s → Item c → P.Fits s c → Inv (P.take s c)
  value_le : ∀ {s c d}, Inv s → Item c → Item d → P.value (P.take s c) d ≤ P.value s d
  fits : ∀ {s c d}, P.Fits (P.take s c) d → P.Fits s d

variable {P} {Inv : σ → Prop} {Item : α → Prop}

/-! ### Greedy runs -/

/-- No two items are preferred to each other. -/
theorem Problem.Better.asymm {s : σ} {c d : α} (h : P.Better s c d) : ¬ P.Better s d c := by
  rcases h with h | ⟨he, h⟩
  · rintro (h' | ⟨he', -⟩)
    · exact lt_asymm h h'
    · exact h.ne he'.symm
  · rintro (h' | ⟨-, h'⟩)
    · exact h'.ne he.symm
    · exact lt_asymm h h'

/-- Only the items that fit matter. -/
theorem Greedy.congr (hP : Shrinks P Inv Item) {s : σ} {pool picks : List α} (h : Greedy P s pool picks) :
    ∀ {pool' : List α}, (∀ c, P.Fits s c → (c ∈ pool ↔ c ∈ pool')) → Greedy P s pool' picks := by
  induction h with
  | stop hstop =>
    intro pool' he
    exact Greedy.stop fun c hc hf => hstop c ((he c hf).mpr hc) hf
  | pick hc hf hpos hbest _ ih =>
    intro pool' he
    refine Greedy.pick ((he _ hf).mp hc) hf hpos (fun d hd hfd => hbest d ((he d hfd).mpr hd) hfd)
      (ih fun d hfd => ?_)
    rw [P.mem_without, P.mem_without, he d (hP.fits hfd)]

/-- **A greedy run is determined by its pool.** -/
theorem Greedy.unique {s : σ} {pool picks picks' : List α} (hkeys : ∀ c ∈ pool, ∀ d ∈ pool,
      P.key c = P.key d → c = d) (h : Greedy P s pool picks) (h' : Greedy P s pool picks') :
    picks = picks' := by
  induction h generalizing picks' with
  | stop hstop =>
    cases h' with
    | stop _ => rfl
    | pick hc hf hpos _ _ => exact absurd (hstop _ hc hf) (not_le.mpr hpos)
  | @pick s pool picks c hc hf hpos hbest _ ih =>
    cases h' with
    | stop hstop => exact absurd (hstop _ hc hf) (not_le.mpr hpos)
    | @pick _ _ picks' c' hc' hf' _ hbest' hrest' =>
      have hcc : c = c' := by
        by_contra hne
        have hkey : P.key c ≠ P.key c' := fun he => hne (hkeys c hc c' hc' he)
        exact (hbest c' hc' hf' hkey.symm).asymm (hbest' c hc hf hkey)
      subst hcc
      rw [ih (fun d hd e he => hkeys d ((P.mem_without).mp hd).1 e ((P.mem_without).mp he).1) hrest']

/-- What a greedy run takes is from the pool. -/
theorem Greedy.subset {s : σ} {pool picks : List α} (h : Greedy P s pool picks) :
    ∀ c ∈ picks, c ∈ pool := by
  induction h with
  | stop _ => simp
  | pick hc _ _ _ _ ih =>
    intro d hd
    rcases List.mem_cons.mp hd with rfl | hd
    · exact hc
    · exact ((P.mem_without).mp (ih d hd)).1

/-- What a greedy run takes fits from the start. -/
theorem Greedy.fits (hP : Shrinks P Inv Item) {s : σ} {pool picks : List α} (h : Greedy P s pool picks) :
    ∀ c ∈ picks, P.Fits s c := by
  induction h with
  | stop _ => simp
  | pick _ hf _ _ _ ih => exact List.forall_mem_cons.mpr ⟨hf, fun d hd => hP.fits (ih d hd)⟩

/-- **Nothing that is left behind fits and has a value above zero.** -/
theorem Greedy.maximal {s : σ} {pool picks : List α} (hkeys : ∀ c ∈ pool, ∀ d ∈ pool,
      P.key c = P.key d → c = d) (h : Greedy P s pool picks) : ∀ c ∈ pool, c ∉ picks →
    P.Fits (picks.foldl P.take s) c → P.value (picks.foldl P.take s) c ≤ P.zero := by
  induction h with
  | stop hstop =>
    intro c hc _ hf
    exact hstop c hc hf
  | @pick s pool picks c hc _ _ _ _ ih =>
    intro d hd hnot hf
    have hne : d ≠ c := fun he => hnot (he ▸ List.mem_cons_self ..)
    have hkey : P.key d ≠ P.key c := fun he => hne (hkeys d hd c hc he)
    exact ih (fun d hd e he => hkeys d ((P.mem_without).mp hd).1 e ((P.mem_without).mp he).1) d
      ((P.mem_without).mpr ⟨hd, hkey⟩) (fun h => hnot (List.mem_cons_of_mem _ h)) hf

/-! ### Lazy runs -/

/-- An item with a bound on its value, and the number of the choices it was made after. -/
structure Entry (α V : Type) where
  bound : V
  epoch : ℕ
  item : α

variable (P) in
/-- The entry comes first: no other has a greater bound, or the same and a smaller key. -/
structure Pops (heap : List (Entry α V)) (e : Entry α V) (rest : List (Entry α V)) : Prop where
  perm : (e :: rest).Perm heap
  first : ∀ d ∈ rest, d.bound < e.bound ∨ d.bound = e.bound ∧ P.key e.item ≤ P.key d.item

variable (P) in
/-- **A lazy run** over a heap, and what it takes. -/
inductive Lazy : ℕ → σ → List (Entry α V) → List α → Prop
  | done {n s} : Lazy n s [] []
  | drop {n s heap e rest picks} : Pops P heap e rest → ¬ P.Fits s e.item → Lazy n s rest picks →
    Lazy n s heap picks
  | renew {n s heap e rest picks} : Pops P heap e rest → P.Fits s e.item →
    Lazy n s (⟨P.value s e.item, n, e.item⟩ :: rest) picks → Lazy n s heap picks
  | stop {n s heap e rest} : Pops P heap e rest → P.Fits s e.item → e.epoch = n →
    P.value s e.item ≤ P.zero → Lazy n s heap []
  | pick {n s heap e rest picks} : Pops P heap e rest → P.Fits s e.item → e.epoch = n →
    P.zero < P.value s e.item → Lazy (n + 1) (P.take s e.item) rest picks →
    Lazy n s heap (e.item :: picks)

variable (P) in
/-- The bounds of a heap hold, and those made after the last choice are exact. -/
structure Bounded (Item : α → Prop) (n : ℕ) (s : σ) (heap : List (Entry α V)) : Prop where
  item : ∀ e ∈ heap, Item e.item
  le : ∀ e ∈ heap, P.value s e.item ≤ e.bound
  epoch : ∀ e ∈ heap, e.epoch ≤ n
  exact : ∀ e ∈ heap, e.epoch = n → e.bound = P.value s e.item
  keys : (heap.map fun e => P.key e.item).Nodup

omit [LinearOrder κ] in
theorem Bounded.perm {n : ℕ} {s : σ} {heap heap' : List (Entry α V)} (h : Bounded P Item n s heap)
    (hp : heap'.Perm heap) : Bounded P Item n s heap' where
  item e he := h.item e (hp.subset he)
  le e he := h.le e (hp.subset he)
  epoch e he := h.epoch e (hp.subset he)
  exact e he := h.exact e (hp.subset he)
  keys := ((hp.map _).nodup_iff).mpr h.keys

omit [LinearOrder κ] in
theorem Bounded.tail {n : ℕ} {s : σ} {e : Entry α V} {rest : List (Entry α V)}
    (h : Bounded P Item n s (e :: rest)) : Bounded P Item n s rest where
  item d hd := h.item d (List.mem_cons_of_mem _ hd)
  le d hd := h.le d (List.mem_cons_of_mem _ hd)
  epoch d hd := h.epoch d (List.mem_cons_of_mem _ hd)
  exact d hd := h.exact d (List.mem_cons_of_mem _ hd)
  keys := (List.nodup_cons.mp h.keys).2

omit [LinearOrder κ] in
/-- A renewed entry has its value as bound. -/
theorem Bounded.renew {n : ℕ} {s : σ} {e : Entry α V} {rest : List (Entry α V)}
    (h : Bounded P Item n s (e :: rest)) :
    Bounded P Item n s (⟨P.value s e.item, n, e.item⟩ :: rest) where
  item d hd := by
    rcases List.mem_cons.mp hd with rfl | hd
    · exact h.item e (List.mem_cons_self ..)
    · exact h.tail.item d hd
  le d hd := by
    rcases List.mem_cons.mp hd with rfl | hd
    · exact le_rfl
    · exact h.tail.le d hd
  epoch d hd := by
    rcases List.mem_cons.mp hd with rfl | hd
    · exact Nat.le_refl n
    · exact h.tail.epoch d hd
  exact d hd he := by
    rcases List.mem_cons.mp hd with rfl | hd
    · rfl
    · exact h.tail.exact d hd he
  keys := h.keys

omit [LinearOrder κ] in
/-- After a choice the bounds of the other entries still hold. -/
theorem Bounded.pick (hP : Shrinks P Inv Item) {n : ℕ} {s : σ} {e : Entry α V}
    {rest : List (Entry α V)} (hs : Inv s) (h : Bounded P Item n s (e :: rest)) :
    Bounded P Item (n + 1) (P.take s e.item) rest where
  item := h.tail.item
  le d hd := (hP.value_le hs (h.item e (List.mem_cons_self ..)) (h.tail.item d hd)).trans (h.tail.le d hd)
  epoch d hd := Nat.le_succ_of_le (h.tail.epoch d hd)
  exact d hd he := by
    have := h.tail.epoch d hd
    omega
  keys := h.tail.keys

/-- The first entry of a heap is preferred if its bound is exact. -/
theorem Pops.better {n : ℕ} {s : σ} {heap rest : List (Entry α V)} {e d : Entry α V}
    (hpop : Pops P heap e rest) (h : Bounded P Item n s (e :: rest)) (he : e.epoch = n) (hd : d ∈ rest) :
    P.Better s e.item d.item := by
  have hexact := h.exact e (List.mem_cons_self ..) he
  have hle := h.tail.le d hd
  have hne : P.key e.item ≠ P.key d.item := by
    have hnodup := (List.nodup_cons.mp h.keys).1
    exact fun hk => hnodup (List.mem_map.mpr ⟨d, hd, hk.symm⟩)
  rcases hpop.first d hd with hlt | ⟨heq, hkey⟩
  · exact Or.inl (hexact ▸ hle.trans_lt hlt)
  · rcases (hexact ▸ heq ▸ hle).lt_or_eq with hlt | heq'
    · exact Or.inl hlt
    · exact Or.inr ⟨heq', lt_of_le_of_ne hkey hne⟩

/-- **A lazy run takes what the greedy run takes.** -/
theorem Lazy.greedy (hP : Shrinks P Inv Item) {n : ℕ} {s : σ} {heap : List (Entry α V)} {picks : List α}
    (h : Lazy P n s heap picks) (hs : Inv s) (hb : Bounded P Item n s heap) :
    Greedy P s (heap.map Entry.item) picks := by
  induction h with
  | done => exact Greedy.stop (by simp)
  | @drop n s heap e rest picks hpop hf _ ih =>
    have hb' := hb.perm hpop.perm
    refine (ih hs hb'.tail).congr hP fun c hc => ?_
    rw [← (hpop.perm.map Entry.item).mem_iff, List.map_cons, List.mem_cons]
    exact ⟨Or.inr, fun h => h.resolve_left fun he => hf (he ▸ hc)⟩
  | @renew n s heap e rest picks hpop _ _ ih =>
    have hb' := hb.perm hpop.perm
    refine (ih hs hb'.renew).congr hP fun c _ => ?_
    rw [← (hpop.perm.map Entry.item).mem_iff, List.map_cons, List.map_cons]
  | @stop n s heap e rest hpop _ hn hle =>
    have hb' := hb.perm hpop.perm
    have hexact := hb'.exact e (List.mem_cons_self ..) hn
    refine Greedy.stop fun c hc _ => ?_
    rw [← (hpop.perm.map Entry.item).mem_iff] at hc
    obtain ⟨d, hd, rfl⟩ := List.mem_map.mp hc
    rcases List.mem_cons.mp hd with rfl | hd
    · exact hle
    · have hbound : d.bound ≤ e.bound := by
        rcases hpop.first d hd with hlt | ⟨heq, -⟩
        · exact hlt.le
        · exact heq.le
      exact ((hb'.tail.le d hd).trans hbound).trans (hexact ▸ hle)
  | @pick n s heap e rest picks hpop hf hn hpos _ ih =>
    have hb' := hb.perm hpop.perm
    have hmem := hpop.perm.map Entry.item
    refine Greedy.pick ?_ hf hpos (fun c hc _ hne => ?_) ?_
    · exact hmem.mem_iff.mp (List.mem_cons_self ..)
    · rw [← hmem.mem_iff] at hc
      obtain ⟨d, hd, rfl⟩ := List.mem_map.mp hc
      rcases List.mem_cons.mp hd with rfl | hd
      · exact absurd rfl hne
      · exact hpop.better hb' hn hd
    · refine (ih (hP.step hs (hb'.item e (List.mem_cons_self ..)) hf) (hb'.pick hP hs)).congr hP
        fun c _ => ?_
      rw [P.mem_without, ← hmem.mem_iff, List.map_cons, List.mem_cons]
      constructor
      · intro hc
        refine ⟨Or.inr hc, fun hk => ?_⟩
        obtain ⟨d, hd, rfl⟩ := List.mem_map.mp hc
        exact (List.nodup_cons.mp hb'.keys).1 (List.mem_map.mpr ⟨d, hd, hk⟩)
      · rintro ⟨rfl | hc, hk⟩
        · exact absurd rfl hk
        · exact hc

end ControlPlane.Lib.LazyGreedy
