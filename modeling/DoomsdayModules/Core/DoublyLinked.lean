import Mathlib.Tactic
import Mathlib.Data.List.Chain

/-!
# Doubly linked lists

Nodes with a forward and a backward pointer, read through two functions.
`Links next prev nodes` says that following `next` from the first node visits
`nodes` in order and that `prev` undoes each of those steps; the forward
pointer of the last node and the backward pointer of the first are left open.
-/

namespace DoomsdayModules.DoublyLinked

variable {Node : Type*}

/-- Each node and its successor point at each other. -/
def Links (next prev : Node → Node) (nodes : List Node) : Prop :=
  nodes.IsChain fun node successor => next node = successor ∧ prev successor = node

variable {next prev next' prev' : Node → Node} {node successor : Node}
  {nodes before after : List Node}

theorem mem_middle : successor ∈ before ++ node :: after ↔
    successor = node ∨ successor ∈ before ++ after :=
  List.perm_middle.mem_iff.trans List.mem_cons

/-- Only forward pointers of nodes before the last and backward pointers of
nodes after the first are read. -/
theorem Links.congr (hlinks : Links next prev nodes)
    (hnext : ∀ node ∈ nodes.dropLast, next' node = next node)
    (hprev : ∀ node ∈ nodes.tail, prev' node = prev node) : Links next' prev' nodes := by
  induction nodes with
  | nil => exact List.IsChain.nil
  | cons node rest ih =>
      cases rest with
      | nil => exact List.IsChain.singleton _
      | cons successor rest =>
          obtain ⟨⟨hforward, hback⟩, hrest⟩ := List.isChain_cons_cons.mp hlinks
          refine List.isChain_cons_cons.mpr ⟨⟨?_, ?_⟩, ih hrest ?_ ?_⟩
          · rw [hnext node (by simp), hforward]
          · rw [hprev successor (by simp), hback]
          · intro other hother
            exact hnext other (by simp [hother])
          · intro other hother
            exact hprev other (by simpa using Or.inr hother)

/-- A successor in the list is the node behind the forward pointer. -/
theorem Links.adjacent (hlinks : Links next prev (before ++ node :: successor :: after)) :
    next node = successor ∧ prev successor = node :=
  (List.isChain_append_cons_cons.mp hlinks).2.1

theorem Links.left (hlinks : Links next prev (before ++ node :: after)) :
    Links next prev (before ++ [node]) := (List.isChain_split.mp hlinks).1

theorem Links.right (hlinks : Links next prev (before ++ node :: after)) :
    Links next prev (node :: after) := (List.isChain_split.mp hlinks).2

/-- Linking a new node behind the last. -/
theorem Links.append (hlinks : Links next prev (before ++ [node]))
    (hforward : next node = successor) (hback : prev successor = node) :
    Links next prev (before ++ [node, successor]) :=
  List.isChain_append_cons_cons.mpr
    ⟨hlinks, ⟨hforward, hback⟩, List.IsChain.singleton _⟩

/-- Linking the neighbours of a node to each other takes it off the list. -/
theorem Links.bypass {removed : Node}
    (hlinks : Links next prev (before ++ node :: removed :: successor :: after))
    (hnodup : (before ++ node :: removed :: successor :: after).Nodup)
    (hforward : next' node = successor) (hback : prev' successor = node)
    (hnext : ∀ other ∈ before ++ node :: successor :: after, other ≠ node →
      next' other = next other)
    (hprev : ∀ other ∈ before ++ node :: successor :: after, other ≠ successor →
      prev' other = prev other) :
    Links next' prev' (before ++ node :: successor :: after) := by
  have hleft := hlinks.left
  have hright := (List.isChain_cons_cons.mp (List.isChain_cons_cons.mp hlinks.right).2).2
  simp only [List.nodup_append, List.nodup_cons, List.mem_cons, not_or] at hnodup
  obtain ⟨-, ⟨⟨-, hne, hnodeAfter⟩, -, hsuccessorAfter, -⟩, hapart⟩ := hnodup
  refine List.isChain_append_cons_cons.mpr
    ⟨hleft.congr ?_ ?_, ⟨hforward, hback⟩, Links.congr hright ?_ ?_⟩
  · intro other hother
    rw [List.dropLast_concat] at hother
    exact hnext other (List.mem_append_left _ hother) (hapart other hother node (.inl rfl))
  · intro other hother
    rcases List.mem_append.mp (List.mem_of_mem_tail hother) with hbefore | hnode
    · exact hprev other (List.mem_append_left _ hbefore)
        (hapart other hbefore successor (.inr (.inr (.inl rfl))))
    · obtain rfl := List.mem_singleton.mp hnode
      exact hprev other (by simp) hne
  · intro other hother
    have hmem := List.mem_of_mem_dropLast hother
    refine hnext other (List.mem_append_right _ (List.mem_cons_of_mem _ hmem)) ?_
    rcases List.mem_cons.mp hmem with rfl | hafter
    · exact Ne.symm hne
    · rintro rfl
      exact hnodeAfter hafter
  · intro other hother
    refine hprev other (by simp [List.mem_of_mem_tail hother]) ?_
    rintro rfl
    exact hsuccessorAfter hother

end DoomsdayModules.DoublyLinked
