import Arbor.Proofs.Flow.Agreement
import Arbor.Proofs.Flow.Report

/-!
# Enough depth

The depth at which a walk stops makes no difference to a tree that is low enough. A step into a part
of a node uses up one level of depth and leads at least one level down the tree. Only a function
uses up two levels on the way to its parts, one where it is met and one where it is built, so two
levels of depth for each level of the tree are always enough.
-/

namespace Arbor.Flow

variable {o : Options} {n : Node} {d d' : Nat}

lemma draftProgram_eq_of_depth (hd : 2 * (n.height - 1) ≤ d) (hd' : 2 * (n.height - 1) ≤ d') :
    draftProgram { o with maxDepth := d' } n = draftProgram { o with maxDepth := d } n := by
  have hstart : (Draft.start n).Alike Eq true [] (.start n) :=
    Draft.alike_eq_iff.2 ⟨rfl, fun _ => rfl, rfl⟩
  have hdepth : 2 * n.height ≤ d + 1 + 1 ∧ 2 * n.height ≤ d' + 1 + 1 := by omega
  exact (agrees_buildProgram mirrors_self _ _ rfl (.inr hdepth) [] _ _ hstart).2.eq

lemma draftFunction_eq_of_depth (hd : 2 * (n.height - 1) ≤ d) (hd' : 2 * (n.height - 1) ≤ d') :
    draftFunction { o with maxDepth := d' } n = draftFunction { o with maxDepth := d } n := by
  have hstart : (Draft.start n).Alike Eq true [] (.start n) :=
    Draft.alike_eq_iff.2 ⟨rfl, fun _ => rfl, rfl⟩
  have hdepth : 2 * n.height ≤ d + 1 + 2 ∧ 2 * n.height ≤ d' + 1 + 2 := by omega
  exact (agrees_buildRootFunction mirrors_self _ _ rfl (.inr hdepth) [] _ _ hstart).2.eq

/-- Whatever is analyzed, two options that differ in depth only give the same report, provided that
each has two levels of depth for every level of the tree below its root. -/
theorem analyses_depth_inert (o : Options) (n : Node) {d d' : Nat}
    (hd : 2 * (n.height - 1) ≤ d) (hd' : 2 * (n.height - 1) ≤ d') :
    (∃ r, analyze { o with maxDepth := d } n = .ok r ∧
      analyze { o with maxDepth := d' } n = .ok r) ∧
    (∃ r, analyzeFunction { o with maxDepth := d } n = .ok r ∧
      analyzeFunction { o with maxDepth := d' } n = .ok r) := by
  constructor
  · obtain ⟨r, hr, -⟩ := (wellFormed_draftProgram { o with maxDepth := d } n).report_shows o
    refine ⟨r, hr, ?_⟩
    rw [← draftProgram_eq_of_depth hd hd'] at hr
    exact hr
  · obtain ⟨r, hr, -⟩ := (wellFormed_draftFunction { o with maxDepth := d } n).report_shows o
    refine ⟨r, hr, ?_⟩
    rw [← draftFunction_eq_of_depth hd hd'] at hr
    exact hr

/-- A function inside a function whose innermost value is just low enough to be found. With one
level of depth less it is missed. -/
theorem analyses_depth_inert_function_in_function :
    let inner : Tree := ⟨"arrow_function", "y => x", .zero,
      [.leaf "identifier" "y", .leaf "identifier" "x"], .ofList [("parameter", 0), ("body", 1)]⟩
    let n := Node.root ⟨"arrow_function", "x => y => x", .zero, [.leaf "identifier" "x", inner],
      .ofList [("parameter", 0), ("body", 1)]⟩
    (2 * (n.height - 1) ≤ 4 ∧ 2 * (n.height - 1) ≤ 100) ∧
    ((analyze { maxDepth := 4 } n).toOption.map (·.reads.size) = some 1 ∧
      (analyze { maxDepth := 3 } n).toOption.map (·.reads.size) = some 0) ∧
    (∃ r, analyze { maxDepth := 4 } n = .ok r ∧ analyze { maxDepth := 100 } n = .ok r) ∧
    (∃ r, analyzeFunction { maxDepth := 4 } n = .ok r ∧
      analyzeFunction { maxDepth := 100 } n = .ok r) := by
  intro inner n
  have hd : 2 * (n.height - 1) ≤ 4 := by decide
  have hd' : 2 * (n.height - 1) ≤ 100 := by decide
  exact ⟨⟨hd, hd'⟩, ⟨by decide +kernel, by decide +kernel⟩, analyses_depth_inert {} n hd hd'⟩

end Arbor.Flow
