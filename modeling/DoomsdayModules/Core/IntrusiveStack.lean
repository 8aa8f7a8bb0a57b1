import DoomsdayModules.Core.ByteMemory

/-!
# Stacks threaded through memory

A stack of nodes whose first word links to the next node and whose last link
is zero.  `IsStack memory head nodes` says that the chain from `head` visits
exactly `nodes`; it reads the first word of each node and nothing else.
-/

namespace DoomsdayModules.IntrusiveStack

open DoomsdayModules.ByteMemory

/-- The chain from `head` visits `nodes` in order and then ends. -/
def IsStack (memory : Memory) : ℕ → List ℕ → Prop
  | head, [] => head = 0
  | head, node :: rest =>
      head = node ∧ node ≠ 0 ∧ IsStack memory (readWord memory node) rest

instance decidableIsStack (memory : Memory) : ∀ head nodes, Decidable (IsStack memory head nodes)
  | head, [] => inferInstanceAs (Decidable (head = 0))
  | head, node :: rest =>
      have := decidableIsStack memory (readWord memory node) rest
      inferInstanceAs (Decidable (head = node ∧ node ≠ 0 ∧ _))

theorem IsStack.nil_iff {memory : Memory} {head : ℕ} :
    IsStack memory head [] ↔ head = 0 := Iff.rfl

theorem IsStack.head_eq_zero_iff {memory : Memory} {head : ℕ} {nodes : List ℕ}
    (hstack : IsStack memory head nodes) : head = 0 ↔ nodes = [] := by
  cases nodes with
  | nil => simpa [IsStack] using hstack
  | cons node rest =>
      obtain ⟨rfl, hne, -⟩ := hstack
      simp [hne]

/-- A chain visits one list of nodes only. -/
theorem IsStack.unique {memory : Memory} {head : ℕ} {left right : List ℕ}
    (hleft : IsStack memory head left) (hright : IsStack memory head right) :
    left = right := by
  induction left generalizing head right with
  | nil => exact ((hright.head_eq_zero_iff).mp hleft).symm
  | cons node rest ih =>
      obtain ⟨rfl, hne, hrest⟩ := hleft
      cases right with
      | nil => exact absurd hright hne
      | cons node' rest' =>
          obtain ⟨rfl, -, hrest'⟩ := hright
          rw [ih hrest hrest']

/-- Only the first words of the nodes matter. -/
theorem IsStack.frame {before after : Memory} {head : ℕ} {nodes : List ℕ}
    (hstack : IsStack before head nodes)
    (hagree : ∀ node ∈ nodes, readWord after node = readWord before node) :
    IsStack after head nodes := by
  induction nodes generalizing head with
  | nil => exact hstack
  | cons node rest ih =>
      obtain ⟨rfl, hne, hrest⟩ := hstack
      refine ⟨rfl, hne, ?_⟩
      rw [hagree head List.mem_cons_self]
      exact ih hrest fun other hother => hagree other (List.mem_cons_of_mem _ hother)

/-- A list of nodes is visited from one head only. -/
theorem IsStack.head_unique {before after : Memory} {head head' : ℕ} {nodes : List ℕ}
    (hbefore : IsStack before head nodes) (hafter : IsStack after head' nodes) :
    head' = head := by
  cases nodes with
  | nil =>
      rw [IsStack.nil_iff] at hbefore hafter
      rw [hbefore, hafter]
  | cons node rest => rw [hbefore.1, hafter.1]

/-- A chain that visits the same nodes has the same links. -/
theorem IsStack.link_eq {before after : Memory} {head head' : ℕ} {nodes : List ℕ}
    (hbefore : IsStack before head nodes) (hafter : IsStack after head' nodes) :
    ∀ node ∈ nodes, readWord after node = readWord before node := by
  induction nodes generalizing head head' with
  | nil => simp
  | cons node rest ih =>
      obtain ⟨-, -, hrest⟩ := hbefore
      obtain ⟨-, -, hrest'⟩ := hafter
      intro other hother
      rcases List.mem_cons.mp hother with rfl | hother
      · exact hrest.head_unique hrest'
      · exact ih hrest hrest' other hother

/-- Linking a node in front of the chain. -/
theorem IsStack.push {before after : Memory} {head node : ℕ} {nodes : List ℕ}
    (hstack : IsStack before head nodes) (hne : node ≠ 0)
    (hlink : readWord after node = head)
    (hagree : ∀ other ∈ nodes, readWord after other = readWord before other) :
    IsStack after node (node :: nodes) :=
  ⟨rfl, hne, by rw [hlink]; exact hstack.frame hagree⟩

end DoomsdayModules.IntrusiveStack
