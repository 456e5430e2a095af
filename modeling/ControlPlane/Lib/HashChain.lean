import Mathlib.Data.List.Basic

/-! # Hash chains

Each link of a chain is hashed together with its number and the hash of the link before it. `head` is the last
hash of a chain, `links` is what is hashed. If no two of the links of two chains of one length collide, and the
chains have the same last hash, then they are the same (`head_injective`). -/

namespace ControlPlane.Lib.HashChain

variable {β η : Type} {hash : ℕ → Option η → β → η}

/-- The last hash of the links from number `n` on, after the hash `previous`. -/
def head (hash : ℕ → Option η → β → η) (n : ℕ) (previous : Option η) : List β → Option η
  | [] => previous
  | body :: bodies => head hash (n + 1) (some (hash n previous body)) bodies

/-- What is hashed: each link with its number and the hash before it. -/
def links (hash : ℕ → Option η → β → η) (n : ℕ) (previous : Option η) : List β → List (ℕ × Option η × β)
  | [] => []
  | body :: bodies => (n, previous, body) :: links hash (n + 1) (some (hash n previous body)) bodies

/-- **The last hash determines the chain.** -/
theorem head_injective {n : ℕ} {p q : Option η} {xs ys : List β}
    (hinj : ∀ a ∈ links hash n p xs, ∀ b ∈ links hash n q ys, hash a.1 a.2.1 a.2.2 = hash b.1 b.2.1 b.2.2 → a = b)
    (hlen : xs.length = ys.length) (h : head hash n p xs = head hash n q ys) : p = q ∧ xs = ys := by
  induction xs generalizing n p q ys with
  | nil =>
    have hys : ys = [] := List.length_eq_zero_iff.mp hlen.symm
    rw [hys] at h ⊢
    exact ⟨h, rfl⟩
  | cons x xs ih =>
    obtain ⟨y, ys, rfl⟩ := List.exists_cons_of_length_pos (by rw [← hlen]; exact Nat.succ_pos _)
    rw [List.length_cons, List.length_cons] at hlen
    rw [links, links] at hinj
    obtain ⟨hhash, hrest⟩ := ih (fun a ha b hb => hinj a (List.mem_cons_of_mem _ ha) b (List.mem_cons_of_mem _ hb))
      (by omega) h
    have hsame := hinj _ (List.mem_cons_self ..) _ (List.mem_cons_self ..) (Option.some.inj hhash)
    rw [Prod.mk.injEq, Prod.mk.injEq] at hsame
    exact ⟨hsame.2.1, by rw [hsame.2.2, hrest]⟩

end ControlPlane.Lib.HashChain
