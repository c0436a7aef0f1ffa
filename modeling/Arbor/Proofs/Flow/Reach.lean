import Arbor.Proofs.Flow.Report
import Mathlib.Data.Finset.Card
import Mathlib.Data.Finset.Range

/-!
# Reachability

The search for the points that can be reached goes in rounds along the arcs of the graph. Each round
but the last finds a new point, so there are never more rounds than points, and the search finds the
points to which a way leads from the entry, and no others.
-/

namespace Arbor.Flow

open Relation

namespace Graph

/-! ### The search -/

section Spread

variable {arcs : List (Nat × Nat)} {n size : Nat} {last seen : List Nat}

/-- The points that a round finds. -/
def found (arcs : List (Nat × Nat)) (last seen : List Nat) : List Nat :=
  ((arcs.filter fun a => last.contains a.1 && !seen.contains a.2).map (·.2)).eraseDups

lemma mem_found {v : Nat} : v ∈ found arcs last seen ↔ (∃ u ∈ last, (u, v) ∈ arcs) ∧ v ∉ seen := by
  simp only [found, List.mem_eraseDups, List.mem_map, List.mem_filter]
  constructor
  · rintro ⟨⟨u, v⟩, ⟨ha, hc⟩, rfl⟩
    simp only [List.contains_eq_mem, Bool.and_eq_true, decide_eq_true_eq, Bool.not_eq_true',
      decide_eq_false_iff_not] at hc
    exact ⟨⟨u, hc.1, ha⟩, hc.2⟩
  · rintro ⟨⟨u, hu, ha⟩, hv⟩
    exact ⟨(u, v), ⟨ha, by simp [hu, hv]⟩, rfl⟩

/-- How far a search has got that may go on for `n` rounds: arcs from points that were seen before
the last round lead to points that were seen, and there are rounds left for all other points. -/
structure Searched (arcs : List (Nat × Nat)) (size n : Nat) (last seen : List Nat) : Prop where
  bound : ∀ u ∈ seen, u < size
  rounds : size < seen.toFinset.card + n
  closed : ∀ u v, (u, v) ∈ arcs → u ∈ seen → u ∈ last ∨ v ∈ seen

lemma Searched.next (h : Searched arcs size (n + 1) last seen)
    (harcs : ∀ u v, (u, v) ∈ arcs → v < size) (hfound : found arcs last seen ≠ []) :
    Searched arcs size n (found arcs last seen) (found arcs last seen ++ seen) := by
  obtain ⟨x, hx⟩ := List.exists_mem_of_ne_nil _ hfound
  refine ⟨fun u hu => ?_, ?_, fun u v ha hu => ?_⟩
  · rcases List.mem_append.1 hu with hu | hu
    · obtain ⟨⟨w, -, ha⟩, -⟩ := mem_found.1 hu
      exact harcs w u ha
    · exact h.bound u hu
  · have hmore : seen.toFinset ⊂ (found arcs last seen ++ seen).toFinset := by
      rw [Finset.ssubset_iff_of_subset (by simp)]
      exact ⟨x, by simp [hx], by simpa using (mem_found.1 hx).2⟩
    have hcard := Finset.card_lt_card hmore
    have := h.rounds
    omega
  · rcases List.mem_append.1 hu with hu | hu
    · exact .inl hu
    · rcases h.closed u v ha hu with hlast | hv
      · by_cases hv : v ∈ seen
        · exact .inr (List.mem_append_right _ hv)
        · exact .inr (List.mem_append_left _ (mem_found.2 ⟨⟨u, hlast, ha⟩, hv⟩))
      · exact .inr (List.mem_append_right _ hv)

/-- There is always a round left. -/
lemma Searched.rounds_pos (h : Searched arcs size n last seen) : n ≠ 0 := by
  rintro rfl
  have hsub : seen.toFinset ⊆ Finset.range size := by
    intro u hu
    exact Finset.mem_range.2 (h.bound u (List.mem_toFinset.1 hu))
  have hcard := Finset.card_le_card hsub
  have := h.rounds
  rw [Finset.card_range] at hcard
  omega

lemma spread_closed (harcs : ∀ u v, (u, v) ∈ arcs → v < size)
    (h : Searched arcs size n last seen) :
    (∀ u ∈ seen, u ∈ spread arcs n last seen) ∧
      ∀ u v, (u, v) ∈ arcs → u ∈ spread arcs n last seen → v ∈ spread arcs n last seen := by
  induction n generalizing last seen with
  | zero => exact absurd rfl h.rounds_pos
  | succ n ih =>
    by_cases hfound : found arcs last seen = []
    · have hspread : spread arcs (n + 1) last seen = seen := by
        rw [spread]
        exact if_pos (by simpa [found] using hfound)
      rw [hspread]
      refine ⟨fun u hu => hu, fun u v ha hu => ?_⟩
      -- An arc out of what was seen starts at the last round, which would have found its target.
      by_contra hv
      have hlast := (h.closed u v ha hu).resolve_right hv
      have hmem : v ∈ found arcs last seen := mem_found.2 ⟨⟨u, hlast, ha⟩, hv⟩
      simp [hfound] at hmem
    · have hspread : spread arcs (n + 1) last seen =
          spread arcs n (found arcs last seen) (found arcs last seen ++ seen) := by
        rw [spread]
        exact if_neg (by simpa [found] using hfound)
      rw [hspread]
      obtain ⟨hseen, hclosed⟩ := ih (h.next harcs hfound)
      exact ⟨fun u hu => hseen u (List.mem_append_right _ hu), hclosed⟩

lemma spread_sound {P : Nat → Prop} (hP : ∀ u v, (u, v) ∈ arcs → P u → P v)
    (hlast : ∀ u ∈ last, P u) (hseen : ∀ u ∈ seen, P u) : ∀ u ∈ spread arcs n last seen, P u := by
  induction n generalizing last seen with
  | zero => exact hseen
  | succ n ih =>
    have hfound : ∀ u ∈ found arcs last seen, P u := by
      intro v hv
      obtain ⟨⟨u, hu, ha⟩, -⟩ := mem_found.1 hv
      exact hP u v ha (hlast u hu)
    rw [spread]
    split_ifs
    · exact hseen
    · refine ih hfound fun u hu => ?_
      rcases List.mem_append.1 hu with hu | hu
      · exact hfound u hu
      · exact hseen u hu

end Spread

/-! ### Points of a graph -/

variable {g : Graph} {u v : Nat}

/-- A way leads from the entry to the point. -/
def Reachable (g : Graph) (u : Nat) : Prop := ReflTransGen g.Arc g.entry u

namespace WellFormed

lemma mem_arcs_iff (h : g.WellFormed) : (u, v) ∈ g.arcs ↔ g.Arc u v := by
  have hid (i : Nat) (hi : i < g.points.size) : i ∈ g.points.toList.map (·.id) := by
    obtain ⟨p, hp⟩ : ∃ p, g.points[i]? = some p := ⟨_, Array.getElem?_eq_getElem hi⟩
    exact List.mem_map.2 ⟨p, Array.mem_toList_iff.2 (Array.mem_of_getElem? hp), h.ids i p hp⟩
  simp only [arcs, List.mem_map, List.mem_filter, Array.mem_toList_iff, Prod.mk.injEq]
  constructor
  · rintro ⟨e, ⟨he, -⟩, hends⟩
    exact ⟨e, he, hends⟩
  · rintro ⟨e, he, hends⟩
    obtain ⟨hs, ht⟩ := h.range e he
    refine ⟨e, ⟨he, ?_⟩, hends⟩
    rw [Bool.and_eq_true, List.contains_iff_mem, List.contains_iff_mem]
    exact ⟨hid _ hs, hid _ ht⟩

/-- The search finds the points to which a way leads. -/
lemma mem_reach_iff (h : g.WellFormed) : u ∈ g.reach g.entry ↔ g.Reachable u := by
  have hentry : g.entry < g.points.size := by
    rw [h.entry]
    exact lt_size_of_kind? ((h.kind_entry 0).2 rfl)
  have harcs (u v : Nat) (ha : (u, v) ∈ g.arcs) : v < g.points.size := by
    obtain ⟨e, he, -, rfl⟩ := h.mem_arcs_iff.1 ha
    exact (h.range e he).2
  have hstart : Searched g.arcs g.points.size g.points.size [g.entry] [g.entry] :=
    ⟨by simp [hentry], by simp, fun u v _ hu => .inl hu⟩
  obtain ⟨hseen, hclosed⟩ := spread_closed harcs hstart
  constructor
  · refine spread_sound (fun u v ha hu => ?_) (fun u hu => ?_) (fun u hu => ?_) u
    · exact hu.tail (h.mem_arcs_iff.1 ha)
    · rw [List.mem_singleton.1 hu]
      exact .refl
    · rw [List.mem_singleton.1 hu]
      exact .refl
  · intro hu
    induction hu with
    | refl => exact hseen _ (by simp)
    | tail _ ha ih => exact hclosed _ _ (h.mem_arcs_iff.2 ha) ih

/-- Control falls off the end of a function if it gets to a point in front of the exit that is no
return and no throw. -/
lemma fallsOffEnd_marked_iff (h : g.WellFormed) :
    g.marked.fallsOffEnd ↔ ∃ u k, g.Arc u 1 ∧ g.Reachable u ∧ g.kind? u = some k ∧
      k.isExplicitExit = false := by
  have hpoint (u : Nat) : g.marked.point? u = (g.points[u]?).map fun p =>
      { p with reachable := (g.reach g.entry).contains u } := marked_point? u
  simp only [fallsOffEnd, marked_exits, h.exits, List.any_cons, List.any_nil, Bool.or_false,
    List.any_eq_true, marked_predecessors, h.predecessors, hpoint]
  refine exists_congr fun u => ?_
  cases hu : g.points[u]? with
  | none => simp [kind?, point?, hu]
  | some p => simp [kind?, point?, hu, h.mem_reach_iff]

end WellFormed

end Graph

end Arbor.Flow
