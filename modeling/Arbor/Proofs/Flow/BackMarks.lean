import Arbor.Proofs.Flow.Completion
import Arbor.Proofs.Flow.Jumps

/-!
# Edges that lead back

An edge is marked as leading back for one of three reasons: it is that of a `continue`, it leads
from an open end behind the body of a loop to the head, or it leads from the head into the body
again. Such an edge repeats the loop: one of its ends is the head, the other is the head too or
belongs to the body. The only exception is a loop that decides after each round and whose body is
passed over.
The open ends in front of the loop are then those behind its body, and the edges by which control
enters the loop are marked.
-/

namespace Arbor.Flow

open Relation Flow.Graph

/-! ### Open ends that are passed on -/

/-- Whether some way through the skeleton meets no point, so that open ends in front of it are left
behind it. Open ends that start at different points meet in a new one where they are joined. -/
def Skeleton.passes : Skeleton → Bool
  | .pass => true
  | .plain _ | .leave _ _ | .branch _ _ _ | .joined _ _ | .bareLoop _ | .loop _ _ | .doWhile _ _
  | .switch _ _ => false
  | .andThen a _ b | .finally a b => a.passes && b.passes
  | .attempt a b => a.passes || b.passes

/-- Open ends start at more than one point. -/
def Spread (ends : List OpenEnd) : Prop :=
  ∃ x ∈ OpenEnd.points ends, ∃ y ∈ OpenEnd.points ends, x ≠ y

lemma Spread.mono {ends ends' : List OpenEnd} (h : Spread ends)
    (hsub : OpenEnd.points ends ⊆ OpenEnd.points ends') : Spread ends' := by
  obtain ⟨x, hx, y, hy, hne⟩ := h
  exact ⟨x, hsub hx, y, hsub hy, hne⟩

/-- The open end is at a new point and does not lead back, or it is one of those in front of the
skeleton but for its label. If these start at more than one point, the skeleton passes them on. -/
def PassedOn (passes : Bool) (ends : List OpenEnd) (g : Graph) (r : List OpenEnd × Graph)
    (x : OpenEnd) : Prop :=
  (g.IsNew r.2 x.point ∧ x.back = false) ∨
    (∃ o ∈ ends, o.point = x.point ∧ o.back = x.back) ∧ (Spread ends → passes = true)

namespace PassedOn

variable {p q : Bool} {ends ends' : List OpenEnd} {g g₁ : Graph} {r : List OpenEnd × Graph}
  {x : OpenEnd}

lemma new (hle : g.points.size ≤ x.point) (hlt : x.point < r.2.points.size)
    (hback : x.back = false) : PassedOn p ends g r x :=
  .inl ⟨⟨hle, hlt⟩, hback⟩

lemma back_eq_false (h : PassedOn p ends g r x) (hends : ∀ o ∈ ends, o.back = false) :
    x.back = false := by
  rcases h with ⟨-, hback⟩ | ⟨⟨o, ho, -, hback⟩, -⟩
  · exact hback
  · rw [← hback]
    exact hends o ho

lemma of_relabel {l : Label} (h : PassedOn p (ends.map (·.relabel l)) g r x) :
    PassedOn p ends g r x := by
  refine h.imp_right fun ⟨⟨o, ho, hsame⟩, hspread⟩ => ?_
  obtain ⟨o', ho', rfl⟩ := List.mem_map.1 ho
  refine ⟨⟨o', ho', hsame⟩, fun hs => hspread (hs.mono ?_)⟩
  rw [OpenEnd.points_relabel]
  exact List.Subset.refl _

lemma mono {r' : List OpenEnd × Graph} (h : PassedOn p ends g₁ r x)
    (hle : g.points.size ≤ g₁.points.size) (hle' : r.2.points.size ≤ r'.2.points.size)
    (hpq : p = true → q = true) : PassedOn q ends g r' x := by
  rcases h with ⟨hnew, hback⟩ | ⟨hold, hp⟩
  · exact .new (Nat.le_trans hle hnew.1) (Nat.lt_of_lt_of_le hnew.2 hle') hback
  · exact .inr ⟨hold, fun hspread => hpq (hp hspread)⟩

/-- Open ends that start at new points and do not lead back are as good as none. -/
lemma of_new (h : PassedOn p ends' g₁ r x) (hle : g.points.size ≤ g₁.points.size)
    (hsize : g₁.points.size ≤ r.2.points.size)
    (hends : ∀ o ∈ ends', g.IsNew g₁ o.point ∧ o.back = false) : PassedOn q ends g r x := by
  rcases h with ⟨hnew, hback⟩ | ⟨⟨o, ho, hpoint, hback⟩, -⟩
  · exact .new (Nat.le_trans hle hnew.1) hnew.2 hback
  · obtain ⟨hnew, ho⟩ := hends o ho
    rw [hpoint] at hnew
    exact .new hnew.1 (Nat.lt_of_lt_of_le hnew.2 hsize) (hback ▸ ho)

/-- What is built first passes on the open ends from which the second starts. -/
lemma seq {r' : List OpenEnd × Graph} (h : ∀ o ∈ r.1, PassedOn p ends g r o)
    (hsub : p = true → OpenEnd.points ends ⊆ OpenEnd.points r.1)
    (hle : g.points.size ≤ r.2.points.size) (hle' : r.2.points.size ≤ r'.2.points.size)
    (h' : PassedOn q r.1 r.2 r' x) : PassedOn (p && q) ends g r' x := by
  rcases h' with ⟨hnew, hback⟩ | ⟨⟨o, ho, hpoint, hback⟩, hq⟩
  · exact .new (Nat.le_trans hle hnew.1) hnew.2 hback
  · rcases h o ho with ⟨hnew, hold⟩ | ⟨⟨o', ho', hpoint', hback'⟩, hp⟩
    · rw [hpoint] at hnew
      exact .new hnew.1 (Nat.lt_of_lt_of_le hnew.2 hle') (hback ▸ hold)
    · refine .inr ⟨⟨o', ho', hpoint'.trans hpoint, hback'.trans hback⟩, fun hspread => ?_⟩
      have hpass := hp hspread
      rw [hpass, hq (hspread.mono (hsub hpass)), Bool.and_self]

end PassedOn

/-- A skeleton that passes open ends on leaves all of them. -/
lemma Skeleton.points_subset (s : Skeleton) (h : s.passes = true) (t : Targets)
    (ends : List OpenEnd) (g : Graph) :
    OpenEnd.points ends ⊆ OpenEnd.points (s.build t ends g).1 := by
  match s with
  | .pass => exact fun _ hx => hx
  | .andThen a dead b =>
    obtain ⟨ha, hb⟩ := Bool.and_eq_true_iff.1 h
    have hfirst := a.points_subset ha t ends g
    simp only [build]
    split_ifs with hnone
    · rwa [List.isEmpty_iff.1 hnone] at hfirst
    · exact fun x hx => b.points_subset hb t _ _ (hfirst hx)
  | .finally a b =>
    obtain ⟨ha, hb⟩ := Bool.and_eq_true_iff.1 h
    have hfirst := a.points_subset ha t ends g
    simp only [build]
    split_ifs with hnone
    · rwa [List.isEmpty_iff.1 hnone] at hfirst
    · intro x hx
      apply b.points_subset hb t
      rw [OpenEnd.points_relabel]
      exact hfirst hx
  | .attempt a b =>
    intro x hx
    simp only [build, OpenEnd.points, List.map_append, List.mem_append]
    rcases Bool.or_eq_true_iff.1 h with ha | hb
    · exact .inl (a.points_subset ha t ends g hx)
    · right
      apply b.points_subset hb t
      rw [OpenEnd.points_relabel]
      exact hx

/-- Open ends that are joined start at one point, or there is a new point behind them. -/
lemma Graph.join_ends {g : Graph} {n : Node} {ends : List OpenEnd} {x : OpenEnd}
    (hx : x ∈ (g.join n ends).1) :
    (x ∈ ends ∧ ¬Spread ends) ∨ (x = .plain g.points.size ∧ g.IsNew (g.join n ends).2 x.point) := by
  cases ends with
  | nil => cases hx
  | cons first rest =>
    simp only [join] at hx ⊢
    split_ifs at hx ⊢ with hall
    · obtain rfl : x = first := List.mem_singleton.1 hx
      refine .inl ⟨List.mem_cons_self, ?_⟩
      rintro ⟨a, ha, b, hb, hne⟩
      have hsame : ∀ y ∈ OpenEnd.points (x :: rest), y = x.point := by
        simpa [OpenEnd.points] using hall
      exact hne ((hsame a ha).trans (hsame b hb).symm)
    · obtain rfl : x = .plain g.points.size := List.mem_singleton.1 hx
      exact .inr ⟨rfl, Nat.le_refl _, by simp [OpenEnd.plain]⟩

lemma Skeleton.size_le (s : Skeleton) (t : Targets) (ends : List OpenEnd) (g : Graph) :
    g.points.size ≤ (s.build t ends g).2.points.size :=
  (s.threaded t ends g).grown.size_le

/-- Every open end behind a skeleton is at a new point or is one of those in front of it. -/
theorem Skeleton.passedOn (s : Skeleton) (t : Targets) (ends : List OpenEnd) (g : Graph)
    (x : OpenEnd) (hx : x ∈ (s.build t ends g).1) :
    PassedOn s.passes ends g (s.build t ends g) x := by
  match s with
  | .pass => exact .inr ⟨⟨x, hx, rfl, rfl⟩, fun _ => rfl⟩
  | .plain n =>
    simp only [build, List.mem_singleton] at hx ⊢
    subst hx
    exact .new (Nat.le_refl _) (by simp [OpenEnd.plain]) rfl
  | .leave k n => simp [build] at hx
  | .andThen a dead b =>
    simp only [build] at hx ⊢
    split_ifs at hx ⊢ with hnone
    · cases hx
    · exact .seq (a.passedOn t ends g) (a.points_subset · t ends g) (a.size_le t ends g)
        (b.size_le t _ _) (b.passedOn t _ _ x hx)
  | .branch n a b =>
    simp only [build, List.mem_append] at hx ⊢
    -- Both sides start at the point of the branch.
    have hstart (l : Label) {g₁ : Graph} (hlt : g.points.size < g₁.points.size) :
        ∀ o ∈ [OpenEnd.labelled g.points.size l], g.IsNew g₁ o.point ∧ o.back = false := by
      intro o ho
      rw [List.mem_singleton.1 ho]
      exact ⟨⟨Nat.le_refl _, hlt⟩, rfl⟩
    have hbranch : g.points.size < (g.pointAfter .branch n ends).points.size := by
      rw [pointAfter_size]
      exact Nat.lt_succ_self _
    rcases hx with hx | hx
    · have hyes : PassedOn false ends g _ x := (a.passedOn t _ _ x hx).of_new
        (Nat.le_of_lt hbranch) (a.size_le t _ _) (hstart .whenTrue hbranch)
      exact hyes.mono (Nat.le_refl _) (b.size_le t _ _) fun h => h
    · have hyes := Nat.lt_of_lt_of_le hbranch (a.size_le t [.labelled g.points.size .whenTrue] _)
      exact (b.passedOn t _ _ x hx).of_new (Nat.le_of_lt hyes) (b.size_le t _ _)
        (hstart .whenFalse hyes)
  | .attempt a b =>
    simp only [build, List.mem_append] at hx ⊢
    rcases hx with hx | hx
    · refine (a.passedOn t ends g x hx).mono (Nat.le_refl _) (b.size_le t _ _) fun ha => ?_
      rw [passes, ha, Bool.true_or]
    · have hcaught := (b.passedOn t _ _ x hx).of_relabel
      refine hcaught.mono (a.size_le t ends g) (Nat.le_refl _) fun hb => ?_
      rw [passes, hb, Bool.or_true]
  | .joined n a =>
    simp only [build] at hx ⊢
    have hjoin : (a.build t ends g).2.points.size ≤
        ((a.build t ends g).2.join n (a.build t ends g).1).2.points.size :=
      ((Threaded.pass _ t _).join n).grown.size_le
    rcases join_ends hx with ⟨hx, hone⟩ | ⟨rfl, hnew⟩
    · rcases a.passedOn t ends g x hx with ⟨hnew, hback⟩ | ⟨hold, hpasses⟩
      · exact .new hnew.1 (Nat.lt_of_lt_of_le hnew.2 hjoin) hback
      · refine .inr ⟨hold, fun hspread => absurd ?_ hone⟩
        exact hspread.mono (a.points_subset (hpasses hspread) t ends g)
    · exact .new (Nat.le_trans (a.size_le t ends g) hnew.1) hnew.2 rfl
  | .bareLoop n =>
    simp only [build, List.mem_singleton] at hx ⊢
    subst hx
    exact .new (Nat.le_succ _) (by simp [OpenEnd.plain]) rfl
  | .loop n a =>
    simp only [build, List.mem_singleton] at hx ⊢
    subst hx
    refine .new (Nat.le_succ _) ?_ rfl
    rw [closeLoop_size]
    refine Nat.lt_of_lt_of_le ?_ (a.size_le _ _ _)
    simp [OpenEnd.plain]
  | .doWhile n a =>
    simp only [build, List.mem_singleton] at hx ⊢
    subst hx
    refine .new (Nat.le_succ _) ?_ rfl
    rw [closeLoop_size]
    refine Nat.lt_of_lt_of_le ?_ (a.size_le _ _ _)
    simp [OpenEnd.plain]
  | .switch n cs =>
    simp only [build, endAt] at hx ⊢
    split_ifs at hx with hnone
    · cases hx
    · obtain rfl := List.mem_singleton.1 hx
      refine .new (by simp [OpenEnd.plain]) ?_ rfl
      rw [closeSwitch_size]
      refine Nat.lt_of_lt_of_le ?_ (cs.threaded _ _ _ _).grown.size_le
      simp [OpenEnd.plain]
  | .finally a b =>
    simp only [build] at hx ⊢
    split_ifs at hx ⊢ with hnone
    · cases hx
    · exact .seq (a.passedOn t ends g) (a.points_subset · t ends g) (a.size_le t ends g)
        (b.size_le t _ _) (b.passedOn t _ _ x hx).of_relabel

/-- A case is entered from the open ends behind the case before and from the branch. -/
lemma OpenEnd.forward_append {ends : List OpenEnd} (hends : ∀ o ∈ ends, o.back = false)
    (branch : Nat) (l : Label) : ∀ o ∈ ends ++ [.labelled branch l], o.back = false :=
  List.forall_mem_append.2 ⟨hends, by simp [labelled]⟩

/-- Open ends behind cases do not lead back if those in front of them do not. -/
lemma Cases.back_eq_false (cs : Cases) {branch : Nat} {t : Targets} {ends : List OpenEnd}
    {g : Graph} (hends : ∀ o ∈ ends, o.back = false) {x : OpenEnd}
    (hx : x ∈ (cs.build branch t ends g).1) : x.back = false := by
  match cs with
  | .nil => exact hends x hx
  | .cons label body rest =>
    rw [Cases.build] at hx
    refine rest.back_eq_false (fun o ho => ?_) hx
    exact (body.passedOn t _ g o ho).back_eq_false (OpenEnd.forward_append hends branch label)

/-! ### Reasons to lead back -/

lemma Graph.mem_addEdges {g : Graph} {es : List Edge} {e : Edge} (h : e ∈ (g.addEdges es).edges) :
    e ∈ g.edges ∨ e ∈ es := by
  induction es generalizing g with
  | nil => exact .inl h
  | cons e' es ih =>
    rcases ih h with h | h
    · obtain ⟨heq, -⟩ | ⟨heq, -⟩ := addEdge_cases g e'
      · exact .inl (heq ▸ h)
      · rw [heq] at h
        rcases Array.mem_push.1 h with h | rfl
        · exact .inl h
        · exact .inr List.mem_cons_self
    · exact .inr (List.mem_cons_of_mem e' h)

/-- The edge is added for the skeleton of the site itself, and leads back. -/
inductive Site.Turns (s : Site) : Edge → Prop where
  /-- Control flows on from an open end that leads back already. -/
  | onward {e : Edge} {o : OpenEnd} (ho : o ∈ s.ends) (hback : o.back = true)
      (hsource : e.source = o.point) (htarget : s.graph.IsNew s.build.2 e.target) : Turns s e
  /-- A jump to the head of a loop. -/
  | continues {e : Edge} {x : Node} (hs : s.skeleton = .leave .continues x)
      (hsource : e.source = s.graph.points.size)
      (htarget : (Frame.targets s.frames).continueTo = some e.target) : Turns s e
  /-- The end of a round. -/
  | round {n : Node} {body : Site} {o : OpenEnd} (hs : s.skeleton.IsLoop n) (hbody : s.Part body)
      (ho : o ∈ body.build.1) : Turns s (o.backTo s.graph.points.size)

/-- Edges from open ends to a new point. -/
lemma Site.Turns.of_mem_map {s : Site} {e : Edge} {ends : List OpenEnd} {p : Nat}
    (he : e ∈ ends.map (·.edgeTo p)) (hback : e.back = true)
    (hends : ∀ x ∈ ends, x.back = true → ∃ o ∈ s.ends, o.point = x.point ∧ o.back = x.back)
    (hp : s.graph.IsNew s.build.2 p) : s.Turns e := by
  obtain ⟨x, hx, rfl⟩ := List.mem_map.1 he
  obtain ⟨o, ho, hpoint, hsame⟩ := hends x hx hback
  exact .onward ho (hsame.trans hback) hpoint.symm hp

lemma Graph.addDead_edges (g : Graph) (ns : List Node) : (g.addDead ns).edges = g.edges := by
  induction ns generalizing g with
  | nil => rfl
  | cons n ns ih => exact ih _

/-- The edge is added while building at the site. -/
def Site.Gains (s : Site) (e : Edge) : Prop := e ∈ s.build.2.edges ∧ e ∉ s.graph.edges

lemma Site.mem_or_gains {s : Site} {e : Edge} (he : e ∈ s.build.2.edges) :
    e ∈ s.graph.edges ∨ s.Gains e := by
  by_cases hold : e ∈ s.graph.edges
  · exact .inl hold
  · exact .inr ⟨he, hold⟩

/-- An edge that cases add is added in one of them. -/
lemma Cases.mem_or_gains (cs : Cases) {branch : Nat} (fs : List Frame) {ends : List OpenEnd}
    {g : Graph} {e : Edge} (he : e ∈ (cs.build branch (Frame.targets fs) ends g).2.edges) :
    e ∈ g.edges ∨ ∃ s, cs.Part branch fs ends g s ∧ s.Gains e := by
  match cs with
  | .nil => exact .inl he
  | .cons label body rest =>
    rw [Cases.build] at he
    rcases rest.mem_or_gains fs he with he | ⟨s, hs, hgains⟩
    · refine (Site.mem_or_gains (s := ⟨body, fs, _, g⟩) he).imp_right fun hgains => ?_
      exact ⟨_, .here label body rest ends g, hgains⟩
    · exact .inr ⟨s, .later rfl hs, hgains⟩

/-- Closing a loop adds edges from the open ends to the head, and one from the head. -/
lemma Graph.mem_closeLoop {g : Graph} {head : Nat} {ends : List OpenEnd} {e : Edge}
    (he : e ∈ (g.closeLoop head ends).edges) :
    e ∈ g.edges ∨ (∃ o ∈ ends, e = o.backTo head) ∨
      e = ⟨head, head + 1, some .whenFalse, false⟩ := by
  rw [closeLoop, ← addEdges_nil (g := addEdge _ _), ← addEdges_cons] at he
  rcases mem_addEdges he with he | he
  · refine (mem_addEdges he).imp_right fun he => .inl ?_
    obtain ⟨o, ho, rfl⟩ := List.mem_map.1 he
    exact ⟨o, ho, rfl⟩
  · exact .inr (.inr (List.mem_singleton.1 he))

lemma Graph.back_mem_closeLoop {g : Graph} {head : Nat} {ends : List OpenEnd} {e : Edge}
    (he : e ∈ (g.closeLoop head ends).edges) (hback : e.back = true) :
    e ∈ g.edges ∨ ∃ o ∈ ends, e = o.backTo head := by
  rcases mem_closeLoop he with he | he | rfl
  · exact .inl he
  · exact .inr he
  · cases hback

/-- Closing a switch adds edges that lead back from such open ends only. -/
lemma Graph.mem_closeSwitch {g : Graph} {branch merge : Nat} {d : Bool} {ends : List OpenEnd}
    {e : Edge} (he : e ∈ (g.closeSwitch branch merge d ends).edges) (hback : e.back = true) :
    e ∈ g.edges ∨ ∃ o ∈ ends, o.back = true := by
  rcases mem_addEdges he with he | he
  · refine (mem_addEdges he).imp_right fun he => ?_
    obtain ⟨o, ho, rfl⟩ := List.mem_map.1 he
    exact ⟨o, ho, hback⟩
  · cases d with
    | true => cases he
    | false =>
      rw [List.mem_singleton.1 he] at hback
      cases hback

lemma Graph.mem_join {g : Graph} {n : Node} {ends : List OpenEnd} {e : Edge}
    (he : e ∈ (g.join n ends).2.edges) :
    e ∈ g.edges ∨ (e ∈ ends.map (·.edgeTo g.points.size) ∧
      g.points.size < (g.join n ends).2.points.size) := by
  cases ends with
  | nil => exact .inl he
  | cons first rest =>
    simp only [join] at he ⊢
    split_ifs at he ⊢
    · exact .inl he
    · refine (mem_addEdges he).imp_right fun he => ⟨he, ?_⟩
      rw [pointAfter_size]
      exact Nat.lt_succ_self _

/-- An edge that leads back was there, is added for the skeleton itself or is added for a part. -/
lemma Site.back_cases (s : Site) {e : Edge} (he : e ∈ s.build.2.edges) (hback : e.back = true) :
    e ∈ s.graph.edges ∨ s.Turns e ∨ ∃ s', s.Part s' ∧ s'.Gains e := by
  obtain ⟨skeleton, fs, ends, g⟩ := s
  have hown (x : OpenEnd) (hx : x ∈ ends) (_ : x.back = true) :
      ∃ o ∈ ends, o.point = x.point ∧ o.back = x.back := ⟨x, hx, rfl, rfl⟩
  -- Open ends flow on to the first point of a skeleton.
  have hfirst (hlt : g.points.size < (Site.build ⟨skeleton, fs, ends, g⟩).2.points.size)
      (he : e ∈ ends.map (·.edgeTo g.points.size)) : Site.Turns ⟨skeleton, fs, ends, g⟩ e :=
    .of_mem_map he hback hown ⟨Nat.le_refl _, hlt⟩
  cases skeleton with
  | pass => exact .inl he
  | plain n =>
    have hlt : g.points.size < (Site.build ⟨.plain n, fs, ends, g⟩).2.points.size :=
      (Adds.plain n fs ends g).isNew.2
    rcases mem_addEdges he with he | he
    · exact .inl he
    · exact .inr (.inl (hfirst hlt he))
  | leave k n =>
    have hlt : g.points.size < (Site.build ⟨.leave k n, fs, ends, g⟩).2.points.size :=
      (Adds.leave k n fs ends g).isNew.2
    rcases mem_addEdges he with he | he
    · rcases mem_addEdges he with he | he
      · exact .inl he
      · exact .inr (.inl (hfirst hlt he))
    · obtain ⟨x, hx, rfl⟩ := List.mem_map.1 he
      cases k with
      | continues => exact .inr (.inl (.continues rfl rfl (Option.mem_toList.1 hx)))
      | returns | throws | breaks => cases hback
  | andThen a dead b =>
    have ha (he : e ∈ (a.build (Frame.targets fs) ends g).2.edges) :
        e ∈ g.edges ∨ ∃ s', Site.Part ⟨.andThen a dead b, fs, ends, g⟩ s' ∧ s'.Gains e :=
      (mem_or_gains (s := ⟨a, fs, ends, g⟩) he).imp_right fun h => ⟨_, .first a b dead fs ends g, h⟩
    simp only [build, Skeleton.build] at he
    split_ifs at he with hnone
    · rw [addDead_edges] at he
      exact (ha he).imp_right .inr
    · have hrest : Site.Part ⟨.andThen a dead b, fs, ends, g⟩ ⟨b, fs, _, _⟩ :=
        .rest rfl (by simpa using hnone)
      rcases mem_or_gains (s := ⟨b, fs, _, _⟩) he with he | hgains
      · exact (ha he).imp_right .inr
      · exact .inr (.inr ⟨_, hrest, hgains⟩)
  | branch n a b =>
    rcases mem_or_gains (s := ⟨b, fs, [.labelled g.points.size .whenFalse], _⟩) he with he | hgains
    · rcases mem_or_gains (s := ⟨a, fs, [.labelled g.points.size .whenTrue], _⟩) he with he | hgains
      · rcases mem_addEdges he with he | he
        · exact .inl he
        · exact .inr (.inl (hfirst (Adds.branch n a b fs ends g).isNew.2 he))
      · exact .inr (.inr ⟨_, .yes n a b fs ends g, hgains⟩)
    · exact .inr (.inr ⟨_, .no rfl, hgains⟩)
  | attempt a b =>
    rcases mem_or_gains (s := ⟨b, fs, ends.map (·.relabel .onCatch), _⟩) he with he | hgains
    · exact (mem_or_gains (s := ⟨a, fs, ends, g⟩) he).imp_right fun hgains =>
        .inr ⟨_, .tried a b fs ends g, hgains⟩
    · exact .inr (.inr ⟨_, .handler rfl, hgains⟩)
  | joined n a =>
    rcases mem_join he with he | ⟨he, hlt⟩
    · refine (mem_or_gains (s := ⟨a, fs, ends, g⟩) he).imp_right fun hgains => ?_
      exact .inr ⟨_, .joined n a fs ends g, hgains⟩
    · refine .inr (.inl (.of_mem_map he hback (fun x hx hxback => ?_) ⟨a.size_le _ _ _, hlt⟩))
      rcases a.passedOn _ _ _ x hx with ⟨-, hnew⟩ | ⟨hold, -⟩
      · rw [hxback] at hnew
        cases hnew
      · exact hold
  | bareLoop n =>
    have hlt := (Adds.head (Skeleton.IsLoop.bare (n := n)) fs ends g).isNew.2
    rcases back_mem_closeLoop he hback with he | ⟨o, ho, -⟩
    · exact (mem_addEdges he).imp_right fun he => .inl (hfirst hlt he)
    · cases ho
  | loop n a =>
    have hlt := (Adds.head (.before (n := n) a) fs ends g).isNew.2
    rcases back_mem_closeLoop he hback with he | ⟨o, ho, rfl⟩
    · rcases mem_or_gains (s := ⟨a, .loop n g.points.size :: fs, _, _⟩) he with he | hgains
      · exact (mem_addEdges he).imp_right fun he => .inl (hfirst hlt he)
      · exact .inr (.inr ⟨_, .loop n a fs ends g, hgains⟩)
    · exact .inr (.inl (.round (.before a) (.loop n a fs ends g) ho))
  | doWhile n a =>
    rcases back_mem_closeLoop he hback with he | ⟨o, ho, rfl⟩
    · refine (mem_or_gains (s := ⟨a, .loop n g.points.size :: fs, _, _⟩) he).imp_right fun h => ?_
      exact .inr ⟨_, .doWhile n a fs ends g, h⟩
    · exact .inr (.inl (.round (.after a) (.doWhile n a fs ends g) ho))
  | switch n cs =>
    have hlt := (Adds.switch n cs fs ends g).isNew.2
    rcases mem_closeSwitch he hback with he | ⟨o, ho, hoback⟩
    · rcases cs.mem_or_gains (.switch n (g.pointAfter .branch n ends).points.size :: fs) he with
        he | ⟨s, hs, hgains⟩
      · exact (mem_addEdges he).imp_right fun he => .inl (hfirst hlt he)
      · exact .inr (.inr ⟨s, .case rfl hs, hgains⟩)
    · rw [cs.back_eq_false (by simp) ho] at hoback
      cases hoback
  | «finally» a b =>
    rw [build, Skeleton.build_finally] at he
    rcases mem_or_gains (s := ⟨b, fs, _, _⟩) he with he | hgains
    · refine (mem_or_gains (s := ⟨a, fs, ends, g⟩) he).imp_right fun hgains => ?_
      exact .inr ⟨_, .guarded a b fs ends g, hgains⟩
    · exact .inr (.inr ⟨_, .last rfl, hgains⟩)

/-- An edge that leads back was there or is added for the skeleton of some site. -/
theorem Site.exists_turns (s : Site) {e : Edge} (he : s.Gains e) (hback : e.back = true) :
    ∃ s', s.Meets s' ∧ s'.Turns e := by
  rcases s.back_cases he.1 hback with hold | hturns | ⟨s₁, hpart, hgains⟩
  · exact absurd hold he.2
  · exact ⟨s, .refl, hturns⟩
  · obtain ⟨s', hmeets, hturns⟩ := s₁.exists_turns hgains hback
    exact ⟨s', .head hpart hmeets, hturns⟩
termination_by sizeOf s.skeleton
decreasing_by exact hpart.sizeOf_lt

/-! ### Loops around a site -/

/-- At the site `body` the body of a loop is built. The point `h` is the head of the loop, which
stands for the node `n`. -/
def LoopAt (start : Site) (n : Node) (h : Nat) (body : Site) : Prop :=
  ∃ s, start.Meets s ∧ s.skeleton.IsLoop n ∧ s.Part body ∧ s.graph.points.size = h

/-- The edge repeats the loop: it leads to the head from the head itself or from the body, or from
the head into the body. -/
def Edge.Repeats (e : Edge) (h : Nat) (body : Site) : Prop :=
  (e.target = h ∧ (e.source = h ∨ body.graph.IsNew body.build.2 e.source)) ∨
    (e.source = h ∧ body.graph.IsNew body.build.2 e.target)

/-- The point is the head of a loop in whose body the site is. -/
def InLoop (start s : Site) (h : Nat) : Prop := ∃ n body, LoopAt start n h body ∧ body.Meets s

/-- Heads of frames are those of loops around the site, and so are the open ends that lead back. -/
structure Site.Looped (s start : Site) : Prop where
  heads : ∀ f ∈ s.frames, ∀ h ∈ f.head, InLoop start s h
  ends : ∀ o ∈ s.ends, o.back = true → InLoop start s o.point

variable {start s s' : Site} {h : Nat} {e : Edge}

lemma InLoop.part (hin : InLoop start s h) (hpart : s.Part s') : InLoop start s' h := by
  obtain ⟨n, body, hloop, hmeets⟩ := hin
  exact ⟨n, body, hloop, hmeets.tail hpart⟩

/-- Cases are entered from open ends that do not lead back. -/
lemma Cases.Part.back_eq_false {branch : Nat} {fs : List Frame} {cs : Cases} {ends : List OpenEnd}
    {g : Graph} (hpart : cs.Part branch fs ends g s) (hends : ∀ o ∈ ends, o.back = false) :
    ∀ o ∈ s.ends, o.back = false := by
  induction hpart with
  | here label body rest ends g => exact OpenEnd.forward_append hends branch label
  | @later label body rest ends g s r hr hpart ih =>
    subst hr
    refine ih fun o ho => ?_
    exact (body.passedOn _ _ g o ho).back_eq_false (OpenEnd.forward_append hends branch label)

namespace Site

/-- The open ends behind a part that lead back are among those in front of it. -/
lemma Looped.built {a : Skeleton} (hs : s.Looped start) {t : Targets} {g : Graph} {x : OpenEnd}
    (hx : x ∈ (a.build t s.ends g).1) (hback : x.back = true) : InLoop start s x.point := by
  rcases a.passedOn t s.ends g x hx with ⟨-, hnew⟩ | ⟨⟨o, ho, hpoint, hsame⟩, -⟩
  · rw [hback] at hnew
    cases hnew
  · rw [← hpoint]
    exact hs.ends o ho (hsame.trans hback)

lemma Part.looped (hpart : s.Part s') (hmeets : start.Meets s) (hs : s.Looped start) :
    s'.Looped start := by
  have hframes : ∀ f ∈ s.frames, ∀ h ∈ f.head, InLoop start s' h :=
    fun f hf h hh => (hs.heads f hf h hh).part hpart
  have hends : ∀ o ∈ s.ends, o.back = true → InLoop start s' o.point :=
    fun o ho hback => (hs.ends o ho hback).part hpart
  have hbuilt {a : Skeleton} {t : Targets} {g : Graph} :
      ∀ x ∈ (a.build t s.ends g).1, x.back = true → InLoop start s' x.point :=
    fun x hx hback => (hs.built hx hback).part hpart
  have hrelabel {ends : List OpenEnd} (l : Label)
      (h : ∀ o ∈ ends, o.back = true → InLoop start s' o.point) :
      ∀ o ∈ ends.map (·.relabel l), o.back = true → InLoop start s' o.point := by
    intro o ho hback
    obtain ⟨o', ho', rfl⟩ := List.mem_map.1 ho
    exact h o' ho' hback
  cases hpart with
  | first | tried | joined | guarded => exact ⟨hframes, hends⟩
  | rest hr =>
    subst hr
    exact ⟨hframes, hbuilt⟩
  | yes | no => exact ⟨hframes, by simp [OpenEnd.labelled]⟩
  | handler => exact ⟨hframes, hrelabel _ hends⟩
  | loop n a fs ends g =>
    have hhead : InLoop start _ g.points.size :=
      ⟨n, _, ⟨_, hmeets, .before a, .loop n a fs ends g, rfl⟩, .refl⟩
    -- The new frame has the head of this loop, and the end at the head does not lead back.
    refine ⟨List.forall_mem_cons.2 ⟨fun h hh => ?_, hframes⟩, by simp [OpenEnd.labelled]⟩
    cases hh
    exact hhead
  | doWhile n a fs ends g =>
    have hhead : InLoop start _ g.points.size :=
      ⟨n, _, ⟨_, hmeets, .after a, .doWhile n a fs ends g, rfl⟩, .refl⟩
    refine ⟨List.forall_mem_cons.2 ⟨fun h hh => ?_, hframes⟩, fun o ho hback => ?_⟩
    · cases hh
      exact hhead
    · -- Here the end at the head leads back: it is taken after a round.
      rcases List.mem_append.1 ho with ho | ho
      · exact hends o ho hback
      · rw [List.mem_singleton.1 ho]
        exact hhead
  | @case n cs fs ends g g' s' hg h =>
    -- The frame of a switch has no head, and its cases start at the branch.
    refine ⟨?_, fun o ho hback => ?_⟩
    · rw [h.frames_eq]
      exact List.forall_mem_cons.2 ⟨nofun, hframes⟩
    · rw [h.back_eq_false (by simp) o ho] at hback
      cases hback
  | last hr =>
    subst hr
    refine ⟨hframes, hrelabel _ fun o ho hback => ?_⟩
    split_ifs at ho
    · exact hends o ho hback
    · exact hbuilt o ho hback

theorem Meets.looped (hmeets : start.Meets s) (hs : start.Looped start) : s.Looped start := by
  induction hmeets with
  | refl => exact hs
  | tail hmeets hpart ih => exact hpart.looped hmeets ih

end Site

/-! ### Loops that are passed over -/

/-- At the site a loop is built that decides after each round, and whose body is passed over. -/
def Site.PassedOver (s : Site) (n : Node) : Prop :=
  ∃ body, s.skeleton = .doWhile n body ∧ body.passes = true

/-- The edge leads to the head of such a loop, from an open end in front of the loop. -/
def Edge.EntersPassed (e : Edge) (start : Site) : Prop :=
  ∃ s n, start.Meets s ∧ s.PassedOver n ∧ e.target = s.graph.points.size ∧
    ∃ o ∈ s.ends, e.source = o.point

/-- An edge that leads back at the end of a round, if not from an open end in front of the loop that
the body passes on. -/
lemma Site.round_cases {n : Node} {body : Site} {o : OpenEnd} (hmeets : start.Meets s)
    (hready : s.Ready) (hloop : s.skeleton.IsLoop n) (hbody : s.Part body)
    (ho : o ∈ body.build.1) :
    (o.backTo s.graph.points.size).Repeats s.graph.points.size body ∨
      (o.backTo s.graph.points.size).EntersPassed start := by
  rcases body.skeleton.passedOn _ _ _ o ho with ⟨hnew, -⟩ | ⟨⟨x, hx, hpoint, -⟩, hpasses⟩
  · exact .inl (.inl ⟨rfl, .inr hnew⟩)
  · cases hbody with
    | loop n a fs ends g =>
      obtain rfl := List.mem_singleton.1 hx
      exact .inl (.inl ⟨rfl, .inl hpoint.symm⟩)
    | doWhile n a fs ends g =>
      rcases List.mem_append.1 hx with hx | hx
      · have hlt : x.point < g.points.size := (hready.flows x hx).lt_size
        have hspread : Spread (ends ++ [⟨g.points.size, some .whenTrue, true⟩]) := by
          refine ⟨x.point, ?_, g.points.size, ?_, Nat.ne_of_lt hlt⟩
          · exact List.mem_map_of_mem (List.mem_append_left _ hx)
          · simp [OpenEnd.points]
        exact .inr ⟨_, n, hmeets, ⟨a, rfl, hpasses hspread⟩, rfl, x, hx, hpoint.symm⟩
      · obtain rfl := List.mem_singleton.1 hx
        exact .inl (.inl ⟨rfl, .inl hpoint.symm⟩)
    | _ => cases hloop

/-- An edge that leads back repeats a loop or enters one that is passed over. -/
theorem Site.Turns.repeats (hturns : s.Turns e) (hstart : start.Ready) (hmeets : start.Meets s)
    (hs : s.Looped start) :
    (∃ n h body, LoopAt start n h body ∧ e.Repeats h body) ∨ e.EntersPassed start := by
  -- What is new at a site is new in the bodies of all loops around it.
  have hinside {h i : Nat} (hin : InLoop start s h) (hi : s.graph.IsNew s.build.2 i) :
      ∃ n body, LoopAt start n h body ∧ body.graph.IsNew body.build.2 i := by
    obtain ⟨n, body, ⟨s₀, hs₀, hloop, hpart, hsize⟩, hbody⟩ := hin
    have hready := (Site.Meets.within (hs₀.tail hpart) hstart).ready
    exact ⟨n, body, ⟨s₀, hs₀, hloop, hpart, hsize⟩, (Site.Meets.within hbody hready).isNew hi⟩
  cases hturns with
  | onward ho hback hsource htarget =>
    obtain ⟨n, body, hloop, hnew⟩ := hinside (hs.ends _ ho hback) htarget
    exact .inl ⟨n, _, body, hloop, .inr ⟨hsource, hnew⟩⟩
  | @continues _ x hskeleton hsource htarget =>
    obtain ⟨f, hf, hhead⟩ := List.exists_of_findSome?_eq_some htarget
    have hnew : s.graph.IsNew s.build.2 e.source := by
      rw [hsource]
      obtain ⟨_, fs, ends, g⟩ := s
      obtain rfl : _ = Skeleton.leave .continues x := hskeleton
      exact (Adds.leave .continues x fs ends g).isNew
    obtain ⟨n, body, hloop, hnew⟩ := hinside (hs.heads f hf _ hhead) hnew
    exact .inl ⟨n, _, body, hloop, .inl ⟨rfl, .inr hnew⟩⟩
  | @round n body o hloop hbody ho =>
    have hready := (Site.Meets.within hmeets hstart).ready
    refine (Site.round_cases hmeets hready hloop hbody ho).imp_left fun hrepeats => ?_
    exact ⟨n, _, body, ⟨s, hmeets, hloop, hbody, rfl⟩, hrepeats⟩

/-- Control flows back to the head of a loop whose body is passed over from where it enters it. -/
lemma Site.PassedOver.exists_edge {n : Node} (hpassed : s.PassedOver n) (hready : s.Ready)
    (hg : s.graph.WellFormed) {o : OpenEnd} (ho : o ∈ s.ends) :
    ∃ e ∈ s.build.2.edges, e.back = true ∧ e.source = o.point ∧ e.target = s.graph.points.size := by
  obtain ⟨_, fs, ends, g⟩ := s
  obtain ⟨body, rfl, hpasses⟩ := hpassed
  have hhead := hready.loopPoints n (e := ⟨g.points.size, some .whenTrue, true⟩) rfl
  have hpoints : (g.loopPoints n).WellFormed := (Built.loopPoints g n).keeps WellFormed.step hg
  have hbody := body.continues hhead
  have hgrown := (body.threaded (Targets.inLoop g.points.size)
    (ends ++ [⟨g.points.size, some .whenTrue, true⟩]) (g.loopPoints n)).grown
  have hsize := hgrown.size_le
  rw [loopPoints_size] at hsize
  have hend : o.point ∈ OpenEnd.points (body.build (Targets.inLoop g.points.size)
      (ends ++ [⟨g.points.size, some .whenTrue, true⟩]) (g.loopPoints n)).1 :=
    body.points_subset hpasses _ _ _ (List.mem_map_of_mem (List.mem_append_left _ ho))
  have harc := (hbody.built.keeps WellFormed.step hpoints).successors
  have hclosed := (Faithful.closeLoop_arc harc (fun e he => (hbody.flows e he).lt_size) hsize).2
    (.inr (.inl ⟨hend, rfl⟩))
  obtain ⟨e, he, hsource, htarget⟩ := hclosed
  refine ⟨e, he, ?_, hsource, htarget⟩
  -- Before the loop is closed, only its own `continue` leads to the head.
  rcases mem_closeLoop he with he | ⟨x, -, rfl⟩ | rfl
  · have hlt : o.point < g.points.size := (hready.flows o ho).lt_size
    rcases hgrown.mem_edges he with hold | hadded
    · have : e.target < g.points.size := (hg.range e hold).2
      exact absurd htarget (Nat.ne_of_lt this)
    · have := hadded.enters (by rw [hsource, loopPoints_size]; omega)
      rw [loopPoints_size] at this
      omega
  · rfl
  · exact absurd htarget (Nat.succ_ne_self _)

/-- Nothing of a loop is older than its head. -/
lemma LoopAt.le_of_repeats {n : Node} {body : Site} (hloop : LoopAt start n h body)
    (hstart : start.Ready) (hrepeats : e.Repeats h body) : h ≤ e.source ∧ h ≤ e.target := by
  obtain ⟨s, hmeets, -, hpart, rfl⟩ := hloop
  have hready := (Site.Meets.within hmeets hstart).ready
  have hle := (hpart.within hready).before.size_le
  rcases hrepeats with ⟨htarget, hsource | hnew⟩ | ⟨hsource, hnew⟩
  · exact ⟨Nat.le_of_eq hsource.symm, Nat.le_of_eq htarget.symm⟩
  · exact ⟨Nat.le_trans hle hnew.1, Nat.le_of_eq htarget.symm⟩
  · exact ⟨Nat.le_of_eq hsource.symm, Nat.le_trans hle hnew.1⟩

/-- The head of a loop stands for it. -/
lemma Skeleton.IsLoop.head_standsFor {sk : Skeleton} {sp : Span} {n : Node}
    (hloop : s.skeleton.IsLoop n) (hmeets : (Site.start sk sp).Meets s) :
    (sk.graphFrom (.fresh sp)).StandsFor s.graph.points.size .loop n :=
  (Site.Adds.head hloop s.frames s.ends s.graph).graphFrom hmeets

/-! ### Analyses -/

/-- The marks of the edges of `G`, which is built from the site `start` on. An edge that leads back
repeats a loop, or it enters a loop that is passed over. Every edge that enters such a loop is
marked, and repeats no loop unless it comes from the head of one. -/
structure BackMarks (start : Site) (G : Graph) : Prop where
  repeats : ∀ e ∈ G.edges, e.back = true →
    (∃ n h body, LoopAt start n h body ∧ G.StandsFor h .loop n ∧ e.Repeats h body) ∨
      e.EntersPassed start
  passed : ∀ {s n o}, start.Meets s → s.PassedOver n → o ∈ s.ends →
    G.StandsFor s.graph.points.size .loop n ∧ o.point < s.graph.points.size ∧
      ∃ e ∈ G.edges, e.back = true ∧ e.source = o.point ∧ e.target = s.graph.points.size ∧
        ∀ {m h body}, LoopAt start m h body → e.Repeats h body → h = o.point

theorem Skeleton.backMarks (sk : Skeleton) (sp : Span) :
    BackMarks (.start sk sp) (sk.graphFrom (.fresh sp)) := by
  have hstart := Site.start_ready sk sp
  have hlooped : (Site.start sk sp).Looped (.start sk sp) :=
    ⟨by simp [Site.start], by simp [Site.start, OpenEnd.plain]⟩
  constructor
  case repeats =>
    intro e he hback
    rw [sk.graphFrom_fresh] at he
    rcases mem_addEdges he with he | he
    · -- A fresh graph has no edges.
      have hgains : (Site.start sk sp).Gains e := ⟨he, Array.not_mem_empty e⟩
      obtain ⟨s, hmeets, hturns⟩ := (Site.start sk sp).exists_turns hgains hback
      refine (hturns.repeats hstart hmeets (Site.Meets.looped hmeets hlooped)).imp_left ?_
      rintro ⟨n, h, body, hloop, hrepeats⟩
      obtain ⟨s₀, hs₀, hsk, hpart, rfl⟩ := hloop
      exact ⟨n, _, body, ⟨s₀, hs₀, hsk, hpart, rfl⟩, hsk.head_standsFor hs₀, hrepeats⟩
    · obtain ⟨o, ho, rfl⟩ := List.mem_map.1 he
      have hforward : o.back = false :=
        (sk.passedOn _ _ _ o ho).back_eq_false (by simp [OpenEnd.plain])
      rw [OpenEnd.edgeTo, hforward] at hback
      cases hback
  case passed =>
    intro s n o hmeets hpassed ho
    have hwithin := Site.Meets.within hmeets hstart
    have hlt : o.point < s.graph.points.size := (hwithin.ready.flows o ho).lt_size
    have hloop : s.skeleton.IsLoop n := by
      obtain ⟨body, heq, -⟩ := hpassed
      rw [heq]
      exact .after body
    obtain ⟨e, he, hback, hsource, htarget⟩ :=
      hpassed.exists_edge hwithin.ready (.built hwithin.built) ho
    obtain ⟨added, hedges, -⟩ := (hwithin.after.trans (sk.kept_graphFrom sp)).edges
    refine ⟨hloop.head_standsFor hmeets, hlt, e, ?_, hback, hsource, htarget, ?_⟩
    · rw [← Array.mem_toList_iff, hedges]
      exact List.mem_append_left _ (Array.mem_toList_iff.2 he)
    · intro m h body hloop hrepeats
      obtain ⟨hle, -⟩ := hloop.le_of_repeats hstart hrepeats
      rcases hrepeats with ⟨hhead, -⟩ | ⟨hhead, -⟩ <;> omega

lemma BackMarks.marked {start : Site} {G : Graph} (h : BackMarks start G) :
    BackMarks start G.marked := by
  constructor
  case repeats =>
    intro e he hback
    refine (h.repeats e he hback).imp_left ?_
    rintro ⟨n, p, body, hloop, hstands, hrepeats⟩
    exact ⟨n, p, body, hloop, hstands.marked, hrepeats⟩
  case passed =>
    intro s n o hmeets hpassed ho
    obtain ⟨hstands, hrest⟩ := h.passed hmeets hpassed ho
    exact ⟨hstands.marked, hrest⟩

/-- Whatever is analyzed, an edge that leads back repeats a loop, unless it enters a loop whose body
is passed over. -/
theorem analyses_backMarks (o : Options) (n : Node) :
    (∃ r, analyze o n = .ok r ∧
      BackMarks (.start (skeleton (o.maxDepth + 1) n) n.span) r.graph) ∧
    (∃ r, analyzeFunction o n = .ok r ∧
      BackMarks (.start (.ofBody (skeleton o.maxDepth) n) n.span) r.graph) := by
  constructor
  · obtain ⟨r, hr, hgraph, -⟩ := (wellFormed_draftProgram o n).report_eq o
    refine ⟨r, hr, ?_⟩
    rw [hgraph, draftProgram_graph]
    exact (Skeleton.backMarks _ _).marked
  · obtain ⟨r, hr, hgraph, -⟩ := (wellFormed_draftFunction o n).report_eq o
    refine ⟨r, hr, ?_⟩
    rw [hgraph, draftFunction_graph]
    exact (Skeleton.backMarks _ _).marked

/-- A call and behind it a loop with an empty body that decides after each round. The edge by which
control enters the loop is marked, and there is no loop that it repeats. -/
theorem doWhile_entered_back :
    let call : Tree := .leaf "expression_statement" "f();"
    let loop : Tree := ⟨"do_statement", "", .zero,
      [.leaf "statement_block" "", .leaf "identifier" "c"], .ofList [("body", 0), ("condition", 1)]⟩
    let root := Node.root ⟨"program", "", .zero, [call, loop], ∅⟩
    ∃ r, analyze {} root = .ok r ∧
      r.graph.StandsFor 2 .statement ⟨1, call⟩ ∧ r.graph.StandsFor 3 .loop ⟨2, loop⟩ ∧
      ∃ e ∈ r.graph.edges, e.back = true ∧ e.source = 2 ∧ e.target = 3 ∧
        ∀ {n h body}, LoopAt (.start (skeleton 257 root) root.span) n h body →
          ¬e.Repeats h body := by
  intro call loop root
  have hroot : skeleton 257 root =
      .andThen (.plain ⟨1, call⟩) [⟨2, loop⟩] (.andThen (.doWhile ⟨2, loop⟩ .pass) [] .pass) := rfl
  -- The site of the call and that of the loop.
  have hcall : (Site.start (skeleton 257 root) root.span).Meets
      ⟨.plain ⟨1, call⟩, [], [.plain 0], .fresh root.span⟩ := by
    rw [hroot]
    exact .single (.first _ _ _ _ _ _)
  have hloop : (Site.start (skeleton 257 root) root.span).Meets
      ⟨.doWhile ⟨2, loop⟩ .pass, [], [.plain 2],
        (Graph.fresh root.span).pointAfter .statement ⟨1, call⟩ [.plain 0]⟩ := by
    rw [hroot]
    exact .tail (.single (.rest rfl rfl)) (.first _ _ _ _ _ _)
  obtain ⟨r, hr, hgraph, -⟩ := (wellFormed_draftProgram {} root).report_eq {}
  have hgraph : r.graph = ((skeleton 257 root).graphFrom (.fresh root.span)).marked := by
    rw [hgraph, draftProgram_graph]
    rfl
  have hpoint : r.graph.StandsFor 2 .statement ⟨1, call⟩ :=
    hgraph ▸ ((Site.Adds.plain _ _ _ _).graphFrom hcall).marked
  have hmarks : BackMarks (.start (skeleton 257 root) root.span) r.graph :=
    hgraph ▸ (Skeleton.backMarks _ _).marked
  obtain ⟨hhead, -, e, he, hback, hsource, htarget, hother⟩ :=
    hmarks.passed hloop ⟨.pass, rfl, rfl⟩ List.mem_cons_self
  refine ⟨r, hr, hpoint, hhead, e, he, hback, hsource, htarget, ?_⟩
  intro n h body hat hrepeats
  obtain rfl : h = 2 := hother hat hrepeats
  obtain ⟨s, hmeets, hsk, -, hsize⟩ := hat
  have hkind := (hsk.head_standsFor hmeets).marked.kind?
  rw [hsize, ← hgraph, hpoint.kind?] at hkind
  cases hkind

end Arbor.Flow
