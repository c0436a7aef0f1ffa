/-!
Chains of enclosing frames. Frames are kept in an array and name the frame around them by its index;
the chain of a frame is that frame, the one around it, and so on. An index without a frame ends the
chain.
-/

namespace Arbor

universe u

variable {α : Type u}

/-- The first frames, at most `n`, of the chain that starts at index `i`. -/
def chainUpTo (frames : Array α) (parent : α → Option Nat) : Nat → Nat → List α
  | 0, _ => []
  | n + 1, i =>
    match frames[i]? with
    | none => []
    | some f =>
      f :: match parent f with
        | some p => chainUpTo frames parent n p
        | none => []

/-- The chain that starts at index `i`, the innermost frame first. A chain that never comes back to
one of its frames has no more frames than there are. -/
def chain (frames : Array α) (parent : α → Option Nat) (i : Nat) : List α :=
  chainUpTo frames parent frames.size i

section

variable {frames : Array α} {parent : α → Option Nat}
  (hdown : ∀ {i p : Nat} {f : α}, frames[i]? = some f → parent f = some p → p < i)

include hdown

/-- If the frames around a frame have smaller indices, a chain has no more frames than its first
index tells. -/
theorem chainUpTo_eq {m n i : Nat} (hm : i < m) (hn : i < n) :
    chainUpTo frames parent m i = chainUpTo frames parent n i := by
  induction m generalizing n i with
  | zero => exact absurd hm (Nat.not_lt_zero i)
  | succ m ih =>
    obtain ⟨n, rfl⟩ : ∃ k, n = k + 1 := ⟨n - 1, by omega⟩
    simp only [chainUpTo]
    cases hi : frames[i]? with
    | none => rfl
    | some f =>
      cases hp : parent f with
      | none => simp only [hp]
      | some p =>
        have hlt : p < i := hdown hi hp
        have hsame : chainUpTo frames parent m p = chainUpTo frames parent n p :=
          ih (by omega) (by omega)
        simp only [hp, hsame]

theorem chain_of_some {i : Nat} {f : α} (hi : frames[i]? = some f) :
    chain frames parent i = f :: ((parent f).map (chain frames parent)).getD [] := by
  obtain ⟨hlt, -⟩ := Array.getElem?_eq_some_iff.1 hi
  rw [chain, chainUpTo_eq hdown hlt (Nat.lt_succ_self _), chainUpTo, hi]
  cases hp : parent f with
  | none => simp [hp]
  | some p =>
    have hp' : p < i := hdown hi hp
    simp [hp, chain, chainUpTo_eq hdown hp' (Nat.lt_trans hp' hlt)]

end

theorem chain_of_none {frames : Array α} {parent : α → Option Nat} {i : Nat}
    (hi : frames[i]? = none) : chain frames parent i = [] := by
  rw [chain]
  cases frames.size with
  | zero => rfl
  | succ n => rw [chainUpTo, hi]

end Arbor
