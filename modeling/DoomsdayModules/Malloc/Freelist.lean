import DoomsdayModules.Core.IntrusiveStack

/-!
# Free lists

The helpers of `freelist.c`.  A list is the address of the word that holds its
head; the nodes live in the first word of the free blocks.  Under the
conditions the allocators keep (the head word and the first words of the
blocks are disjoint) a push and a pop are the push and the pop of a stack.
-/

namespace DoomsdayModules.Freelist

open DoomsdayModules.ByteMemory DoomsdayModules.IntrusiveStack

def freelistGetNext (memory : Memory) (node : ℕ) : ℕ :=
  if node = 0 then 0 else readWord memory node

def freelistSetNext (memory : Memory) (node next : ℕ) : Memory :=
  if node = 0 then memory else writeWord memory node next

def freelistPush (memory : Memory) (list block : ℕ) : Memory :=
  if list = 0 then memory
  else writeWord (freelistSetNext memory block (readWord memory list)) list block

def freelistPop (memory : Memory) (list : ℕ) : ℕ × Memory :=
  if list = 0 then (0, memory)
  else
    let res := readWord memory list
    if res = 0 then (0, memory)
    else (res, writeWord memory list (freelistGetNext memory (readWord memory list)))

/-- Two words share no byte. -/
def WordsApart (left right : ℕ) : Prop := left + 8 ≤ right ∨ right + 8 ≤ left

theorem freelistPush_unchangedOutside (memory : Memory) (list block : ℕ) :
    UnchangedOutside memory (freelistPush memory list block) fun query =>
      (list ≤ query ∧ query < list + 8) ∨ (block ≤ query ∧ query < block + 8) := by
  intro query houtside
  simp only [freelistPush, freelistSetNext]
  split_ifs
  · rfl
  · exact writeWord_of_outside (by omega)
  · rw [writeWord_of_outside (by omega), writeWord_of_outside (by omega)]

theorem freelistPop_unchangedOutside (memory : Memory) (list : ℕ) :
    UnchangedOutside memory (freelistPop memory list).2 fun query =>
      list ≤ query ∧ query < list + 8 := by
  intro query houtside
  simp only [freelistPop]
  split_ifs
  · rfl
  · rfl
  · exact writeWord_of_outside (by omega)

/-- Pushing a block puts it in front of the list. -/
theorem freelistPush_isStack {memory : Memory} {list block : ℕ} {nodes : List ℕ}
    (hstack : IsStack memory (readWord memory list) nodes)
    (hlist : list ≠ 0) (hblock : block ≠ 0) (hword : block < 2 ^ 64)
    (hhead : WordsApart list block) (hnodes : ∀ node ∈ nodes, WordsApart list node)
    (hfresh : ∀ node ∈ nodes, WordsApart block node) :
    IsStack (freelistPush memory list block)
      (readWord (freelistPush memory list block) list) (block :: nodes) := by
  simp only [freelistPush, freelistSetNext, if_neg hlist, if_neg hblock]
  rw [readWord_writeWord_same hword]
  apply hstack.push hblock
  · rw [readWord_writeWord_of_disjoint hhead.symm,
      readWord_writeWord_same (readWord_lt _ _)]
  · intro node hnode
    rw [readWord_writeWord_of_disjoint (hnodes node hnode).symm,
      readWord_writeWord_of_disjoint (hfresh node hnode).symm]

theorem freelistPop_nil {memory : Memory} {list : ℕ}
    (hstack : IsStack memory (readWord memory list) []) :
    freelistPop memory list = (0, memory) := by
  have hempty : readWord memory list = 0 := hstack
  simp [freelistPop, hempty]

/-- Popping a non-empty list returns its first block. -/
theorem freelistPop_cons {memory : Memory} {list node : ℕ} {nodes : List ℕ}
    (hstack : IsStack memory (readWord memory list) (node :: nodes))
    (hlist : list ≠ 0) (hnodes : ∀ other ∈ nodes, WordsApart list other) :
    (freelistPop memory list).1 = node ∧
      IsStack (freelistPop memory list).2
        (readWord (freelistPop memory list).2 list) nodes := by
  obtain ⟨hhead, hne, hrest⟩ := hstack
  simp only [freelistPop, freelistGetNext, hhead, if_neg hlist, if_neg hne, true_and]
  rw [readWord_writeWord_same (readWord_lt _ _)]
  apply hrest.frame
  intro other hother
  exact readWord_writeWord_of_disjoint (hnodes other hother).symm

end DoomsdayModules.Freelist
