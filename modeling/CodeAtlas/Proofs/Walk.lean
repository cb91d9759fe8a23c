import CodeAtlas.Syntax.Walk
import Mathlib.Data.List.Perm.Basic

/-!
# Breadth-first walks

A walk works off a queue: it visits the first node waiting and lets the nodes below it wait at the
end (`Drains`). Nodes that look alike are told apart by the way to them (`Site`).
-/

namespace CodeAtlas.Syntax

open List

variable {c n : Node} {ns : List Node}

/-! ### Working off a queue -/

/-- The queue is worked off: these are visited, in order, until nothing waits. -/
inductive Drains {α : Type} (below : α → List α) : List α → List α → Prop
  | nil : Drains below [] []
  | cons {v : α} {queue visited : List α} :
    Drains below (queue ++ below v) visited → Drains below (v :: queue) (v :: visited)

namespace Drains

variable {α β : Type} {below : α → List α} {below' : β → List β} {visited : List α}

/-- What waits in front is visited first, and what is below it joins the end of the queue. -/
lemma front {front rest : List α} (h : Drains below (front ++ rest) visited) :
    ∃ later, visited = front ++ later ∧ Drains below (rest ++ front.flatMap below) later := by
  induction front generalizing rest visited with
  | nil => exact ⟨visited, rfl, by simpa using h⟩
  | cons v front ih =>
    rw [cons_append] at h
    cases h with
    | cons h =>
      rw [append_assoc] at h
      obtain ⟨later, rfl, hlater⟩ := ih h
      exact ⟨later, rfl, by simpa using hlater⟩

lemma forall_mem {P : α → Prop} (hbelow : ∀ v, P v → ∀ w ∈ below v, P w) {queue : List α}
    (h : Drains below queue visited) (hqueue : ∀ v ∈ queue, P v) : ∀ v ∈ visited, P v := by
  induction h with
  | nil => exact hqueue
  | @cons v queue visited _ ih =>
    have hv : P v := hqueue v mem_cons_self
    refine forall_mem_cons.mpr ⟨hv, ih fun w hw => ?_⟩
    rcases mem_append.mp hw with hw | hw
    · exact hqueue w (mem_cons_of_mem _ hw)
    · exact hbelow v hv w hw

lemma lift {f : α → β} (hf : ∀ v, below' (f v) = (below v).map f) {queue : List α} {images : List β}
    (h : Drains below' (queue.map f) images) :
    ∃ visited, Drains below queue visited ∧ visited.map f = images := by
  generalize hq : queue.map f = queue' at h
  induction h generalizing queue with
  | nil => exact ⟨[], by rw [map_eq_nil_iff.mp hq]; exact .nil, rfl⟩
  | cons _ ih =>
    obtain ⟨v, rest, rfl, rfl, rfl⟩ := map_eq_cons_iff.mp hq
    have hnext : (rest ++ below v).map f = rest.map f ++ below' (f v) := by rw [map_append, hf]
    obtain ⟨visited, hvisited, rfl⟩ := ih hnext
    exact ⟨v :: visited, .cons hvisited, rfl⟩

end Drains

/-! ### Counting nodes -/

lemma nodesCount_append (ns ms : List Node) :
    nodesCount (ns ++ ms) = nodesCount ns + nodesCount ms := by
  induction ns with
  | nil => simp [nodesCount]
  | cons n ns ih =>
    rw [cons_append, nodesCount, nodesCount, ih]
    omega

lemma nodesCount_map_stmt (body : List Stmt) : nodesCount (body.map .stmt) = bodyCount body := by
  induction body with
  | nil => rfl
  | cons s body ih => rw [map_cons, nodesCount, Node.count, bodyCount, ih]

/-- A node counts for one, besides those below it. -/
lemma Node.count_eq (n : Node) : n.count = 1 + nodesCount n.children := by
  cases n with
  | clause body => rw [Node.count, Node.children, nodesCount_map_stmt]
  | stmt s => cases s <;>
      simp only [Node.count, Stmt.nodeCount, Node.children, nodesCount_map_stmt, nodesCount]

lemma count_le_nodesCount (h : c ∈ ns) : c.count ≤ nodesCount ns := by
  obtain ⟨before, after, rfl⟩ := append_of_mem h
  rw [nodesCount_append, nodesCount]
  omega

lemma Node.count_lt_of_mem_children (h : c ∈ n.children) : c.count < n.count := by
  have hle := count_le_nodesCount h
  rw [n.count_eq]
  omega

/-! ### The nodes of a tree -/

/-- A node and all nodes below it, in the order of the text. -/
def Node.inOrder (depth : Nat) (n : Node) : List Visit :=
  ⟨depth, n⟩ :: n.children.attach.flatMap fun c => c.1.inOrder (depth + 1)
termination_by n.count
decreasing_by exact Node.count_lt_of_mem_children c.2

lemma Node.inOrder_eq (depth : Nat) (n : Node) :
    n.inOrder depth = ⟨depth, n⟩ :: n.children.flatMap (Node.inOrder (depth + 1)) := by
  rw [Node.inOrder, flatMap_subtype (g := Node.inOrder (depth + 1)) (fun _ _ => rfl),
    unattach_attach]

lemma Node.le_depth_inOrder {depth : Nat} {v : Visit} (h : v ∈ n.inOrder depth) :
    depth ≤ v.depth := by
  induction hk : n.count using Nat.strongRecOn generalizing n depth with
  | ind k ih =>
    rw [n.inOrder_eq, mem_cons, mem_flatMap] at h
    rcases h with rfl | ⟨c, hc, hv⟩
    · exact Nat.le_refl _
    · have hlt := Node.count_lt_of_mem_children hc
      exact Nat.le_of_succ_le (ih c.count (hk ▸ hlt) hv rfl)

/-- All nodes of a module with their depths, in the order of the text. -/
def Module.inOrder (m : Module) : List Visit := m.body.flatMap fun s => (Node.stmt s).inOrder 1

/-! ### Levels -/

def Visit.below (v : Visit) : List Visit := v.node.children.map (Visit.mk (v.depth + 1))

lemma flatMap_below (d : Nat) :
    (ns.map (Visit.mk d)).flatMap Visit.below =
      (ns.flatMap Node.children).map (Visit.mk (d + 1)) := by
  rw [flatMap_map, map_flatMap]
  rfl

lemma filter_inOrder (d k : Nat) (ns : List Node) :
    (ns.flatMap (Node.inOrder d)).filter (·.depth = k) =
      if k = d then ns.map (Visit.mk d)
      else ((ns.flatMap Node.children).flatMap (Node.inOrder (d + 1))).filter (·.depth = k) := by
  have hnode : ∀ n : Node, (n.inOrder d).filter (·.depth = k) = if k = d then [⟨d, n⟩]
      else (n.children.flatMap (Node.inOrder (d + 1))).filter (·.depth = k) := by
    intro n
    rw [n.inOrder_eq]
    split
    · next hk =>
      subst hk
      rw [filter_cons_of_pos (by simp), filter_eq_nil_iff.mpr]
      intro v hv
      obtain ⟨c, -, hc⟩ := mem_flatMap.mp hv
      have hle := Node.le_depth_inOrder hc
      simp only [decide_eq_true_eq]
      omega
    · next hk => rw [filter_cons_of_neg (by simpa using Ne.symm hk)]
  rw [filter_flatMap]
  simp only [hnode]
  split
  · exact (map_eq_flatMap ..).symm
  · rw [flatMap_assoc, filter_flatMap]

/-- Trees that wait at one depth are walked level by level: every node is met once, no node before
one of less depth, and the nodes of one depth in the order of the text. -/
lemma levels_of_drains {d : Nat} {visited : List Visit}
    (h : Drains Visit.below (ns.map (Visit.mk d)) visited) :
    visited.Perm (ns.flatMap (Node.inOrder d)) ∧ visited.Pairwise (fun v w => v.depth ≤ w.depth) ∧
      ∀ k, visited.filter (·.depth = k) = (ns.flatMap (Node.inOrder d)).filter (·.depth = k) := by
  induction hl : visited.length using Nat.strongRecOn generalizing d ns visited with
  | ind l ih =>
    rcases ns with _ | ⟨n, ns⟩
    · cases h
      simp
    · rw [← append_nil (List.map _ _)] at h
      obtain ⟨later, rfl, hlater⟩ := h.front
      rw [nil_append, flatMap_below] at hlater
      have hshort : later.length < l := by
        rw [← hl, length_append, length_map, length_cons]
        omega
      obtain ⟨hperm, hsorted, hfilter⟩ := ih _ hshort hlater rfl
      have hdeeper : ∀ v ∈ later, d + 1 ≤ v.depth := by
        intro v hv
        obtain ⟨c, -, hc⟩ := mem_flatMap.mp (hperm.mem_iff.mp hv)
        exact Node.le_depth_inOrder hc
      have hfront : ∀ v ∈ (n :: ns).map (Visit.mk d), v.depth = d := by simp
      refine ⟨?_, pairwise_append.mpr ⟨?_, hsorted, fun v hv w hw => ?_⟩, fun k => ?_⟩
      · refine (hperm.append_left _).trans ?_
        rw [flatMap_assoc, funext (Node.inOrder_eq d)]
        exact map_append_flatMap_perm ..
      · refine pairwise_of_forall_mem_list fun v hv w hw => ?_
        exact Nat.le_of_eq ((hfront v hv).trans (hfront w hw).symm)
      · rw [hfront v hv]
        exact Nat.le_of_succ_le (hdeeper w hw)
      · rw [filter_append, filter_inOrder d k (n :: ns)]
        by_cases hk : k = d
        · rw [if_pos hk, filter_eq_self.mpr, filter_eq_nil_iff.mpr, append_nil]
          · intro v hv
            have hle := hdeeper v hv
            simp only [decide_eq_true_eq]
            omega
          · exact fun v hv => decide_eq_true ((hfront v hv).trans hk.symm)
        · rw [if_neg hk, hfilter, filter_eq_nil_iff.mpr, nil_append]
          intro v hv
          simpa [hfront v hv] using Ne.symm hk

/-! ### The walk over a module -/

lemma drains_walkFrom {fuel : Nat} {queue : List Visit}
    (h : nodesCount (queue.map (·.node)) ≤ fuel) :
    Drains Visit.below queue (walkFrom fuel queue) := by
  induction fuel generalizing queue with
  | zero =>
    rcases queue with _ | ⟨v, queue⟩
    · exact .nil
    · rw [map_cons, nodesCount, Node.count_eq] at h
      omega
  | succ fuel ih =>
    rcases queue with _ | ⟨v, queue⟩
    · exact .nil
    · refine .cons (ih ?_)
      have hnodes : v.below.map (·.node) = v.node.children := by
        rw [Visit.below, map_map]
        exact map_id' _
      rw [map_cons, nodesCount, Node.count_eq] at h
      rw [map_append, nodesCount_append, hnodes]
      omega

namespace Module

/-- The walk over a module comes to an end. -/
lemma drains_walk (m : Module) : Drains Visit.below (m.body.map fun s => ⟨1, .stmt s⟩) m.walk := by
  refine drains_walkFrom (Nat.le_of_eq ?_)
  rw [map_map]
  exact nodesCount_map_stmt m.body

end Module

/-! ### Sites -/

/-- A node of a tree, told from others that look alike by the way to it: its place among the
statements of the module, then from node to node its place among those directly below. -/
structure Site where
  way : List Nat
  node : Node

namespace Site

/-- The sites directly below a site. -/
def below (s : Site) : List Site := s.node.children.zipIdx.map fun c => ⟨s.way ++ [c.2], c.1⟩

def visit (s : Site) : Visit := ⟨s.way.length, s.node⟩

lemma below_visit (s : Site) : s.visit.below = s.below.map visit := by
  unfold below Visit.below
  conv_lhs => rw [← zipIdx_map_fst 0 (visit s).node.children]
  rw [map_map, map_map]
  refine map_congr_left fun c _ => ?_
  simp [visit]

end Site

namespace Module

/-- The sites of the statements that stand in a module. -/
def tops (m : Module) : List Site := m.body.zipIdx.map fun s => ⟨[s.2], .stmt s.1⟩

/-- The walk over a module is a walk over its sites. -/
lemma exists_drains_sites (m : Module) :
    ∃ sites, Drains Site.below m.tops sites ∧ sites.map Site.visit = m.walk := by
  have hstart : m.tops.map Site.visit = m.body.map fun s => ⟨1, .stmt s⟩ := by
    conv_rhs => rw [← zipIdx_map_fst 0 m.body]
    rw [tops, map_map, map_map]
    rfl
  exact Drains.lift Site.below_visit (hstart ▸ m.drains_walk)

end Module

end CodeAtlas.Syntax
