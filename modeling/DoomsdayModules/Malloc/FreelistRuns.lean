import DoomsdayModules.Core.Runs
import DoomsdayModules.Malloc.Freelist

/-!
# A free list over whole runs

A client pushes and pops on one list, which starts empty, and writes memory of
its own in between.  A stack of block addresses keeps the books: what was
pushed and has not been popped.  The list in memory follows it step by step,
except that `freelist_push` stores a null block in the head word like any
other: `freelist_set_next` passes over a null node, but the head is overwritten
all the same, and the blocks that were on the list are lost.
-/

namespace DoomsdayModules.FreelistRuns

open DoomsdayModules.ByteMemory DoomsdayModules.IntrusiveStack DoomsdayModules.Runs
open DoomsdayModules.Freelist

inductive Op where
  | push (block : ℕ)
  | pop
  /-- The client stores a byte of its own. -/
  | write (address : ℕ) (byte : UInt8)
  deriving DecidableEq, Repr

/-- The memory, and the books: the non-null blocks pushed and not yet popped,
most recent first, what each pop returned and what it should have returned. -/
structure State where
  memory : Memory
  stack : List ℕ
  returned : List ℕ
  expected : List ℕ

def start (memory : Memory) : State := ⟨memory, [], [], []⟩

/-- The block is null or a block with room for a link that is not on the list. -/
def Pushable (list : ℕ) (stack : List ℕ) (block : ℕ) : Prop :=
  block = 0 ∨ block + 8 ≤ 2 ^ 64 ∧ WordsApart list block ∧ ∀ node ∈ stack, WordsApart block node

/-- The byte belongs neither to the head word nor to the link of a listed block. -/
def Writable (list : ℕ) (stack : List ℕ) (address : ℕ) : Prop :=
  (address < list ∨ list + 8 ≤ address) ∧
    ∀ node ∈ stack, address < node ∨ node + 8 ≤ address

instance (left right : ℕ) : Decidable (WordsApart left right) :=
  inferInstanceAs (Decidable (_ ∨ _))

instance (list : ℕ) (stack : List ℕ) (block : ℕ) : Decidable (Pushable list stack block) :=
  inferInstanceAs (Decidable (_ ∨ _))

instance (list : ℕ) (stack : List ℕ) (address : ℕ) : Decidable (Writable list stack address) :=
  inferInstanceAs (Decidable (_ ∧ _))

/-- One call or one write of the client; `none` is what a client may not do. -/
def step (list : ℕ) (state : State) : Op → Option State
  | .push block =>
      if Pushable list state.stack block then
        some { state with
          memory := freelistPush state.memory list block
          stack := if block = 0 then state.stack else block :: state.stack }
      else none
  | .pop =>
      let popped := freelistPop state.memory list
      some ⟨popped.2, state.stack.tail, popped.1 :: state.returned,
        state.stack.headD 0 :: state.expected⟩
  | .write address byte =>
      if Writable list state.stack address then
        some { state with memory := writeByte state.memory address byte }
      else none

/-- The list is the stack, and the pops returned what they should. -/
def State.Faithful (list : ℕ) (state : State) : Prop :=
  IsStack state.memory (readWord state.memory list) state.stack ∧
    state.returned = state.expected

/-- What an operation may write: the head word and the pushed block's link. -/
def Op.Region (list : ℕ) : Op → ℕ → Prop
  | .push block => fun query =>
      (list ≤ query ∧ query < list + 8) ∨ (block ≠ 0 ∧ block ≤ query ∧ query < block + 8)
  | .pop => fun query => list ≤ query ∧ query < list + 8
  | .write address _ => fun query => query = address

variable {list : ℕ} {state next : State} {op : Op}

/-! ## One step -/

theorem step_push_eq_some {block : ℕ} (hstep : step list state (.push block) = some next) :
    Pushable list state.stack block ∧
      next = { state with
        memory := freelistPush state.memory list block
        stack := if block = 0 then state.stack else block :: state.stack } := by
  rw [step] at hstep
  split at hstep
  next hpushable => exact ⟨hpushable, (Option.some.inj hstep).symm⟩
  next => cases hstep

theorem step_pop_eq_some (hstep : step list state .pop = some next) :
    next = ⟨(freelistPop state.memory list).2, state.stack.tail,
      (freelistPop state.memory list).1 :: state.returned,
      state.stack.headD 0 :: state.expected⟩ :=
  (Option.some.inj hstep).symm

theorem step_write_eq_some {address : ℕ} {byte : UInt8}
    (hstep : step list state (.write address byte) = some next) :
    Writable list state.stack address ∧
      next = { state with memory := writeByte state.memory address byte } := by
  rw [step] at hstep
  split at hstep
  next hwritable => exact ⟨hwritable, (Option.some.inj hstep).symm⟩
  next => cases hstep

theorem freelistPush_null (memory : Memory) (hlist : list ≠ 0) :
    freelistPush memory list 0 = writeWord memory list 0 := by
  rw [freelistPush, if_neg hlist, freelistSetNext, if_pos rfl]

/-- After a null push the list is empty, whatever was on it. -/
theorem freelistPush_null_isStack_iff (memory : Memory) (hlist : list ≠ 0) (nodes : List ℕ) :
    IsStack (freelistPush memory list 0) (readWord (freelistPush memory list 0) list) nodes ↔
      nodes = [] := by
  rw [freelistPush_null memory hlist, readWord_writeWord_same (by norm_num)]
  constructor
  · exact fun hstack => hstack.head_eq_zero_iff.mp rfl
  · rintro rfl
    rfl

theorem step_unchangedOutside (hlist : list ≠ 0) (hstep : step list state op = some next) :
    UnchangedOutside state.memory next.memory (op.Region list) := by
  cases op with
  | push block =>
      obtain ⟨-, rfl⟩ := step_push_eq_some hstep
      by_cases hblock : block = 0
      · subst hblock
        simp only [freelistPush_null state.memory hlist]
        exact (writeWord_unchangedOutside _ _ _).mono fun query hquery => .inl hquery
      · exact (freelistPush_unchangedOutside state.memory list block).mono fun query hquery =>
          hquery.imp_right fun hquery => ⟨hblock, hquery⟩
  | pop =>
      obtain rfl := step_pop_eq_some hstep
      exact freelistPop_unchangedOutside state.memory list
  | write address byte =>
      obtain ⟨-, rfl⟩ := step_write_eq_some hstep
      intro query houtside
      exact writeByte_of_ne houtside

/-- Blocks on the books do not overlap the head word. -/
theorem step_apart (hapart : ∀ node ∈ state.stack, WordsApart list node)
    (hstep : step list state op = some next) : ∀ node ∈ next.stack, WordsApart list node := by
  cases op with
  | push block =>
      obtain ⟨hpushable, rfl⟩ := step_push_eq_some hstep
      by_cases hblock : block = 0
      · simpa [hblock] using hapart
      · obtain ⟨-, hhead, -⟩ := hpushable.resolve_left hblock
        intro node hnode
        simp only [if_neg hblock] at hnode
        rcases List.mem_cons.mp hnode with rfl | hnode
        · exact hhead
        · exact hapart node hnode
  | pop =>
      obtain rfl := step_pop_eq_some hstep
      exact fun node hnode => hapart node (List.mem_of_mem_tail hnode)
  | write address byte =>
      obtain ⟨-, rfl⟩ := step_write_eq_some hstep
      exact hapart

/-- On a list that follows the books a pop returns the first block, or null. -/
theorem freelistPop_isStack {memory : Memory} {stack : List ℕ} (hlist : list ≠ 0)
    (hapart : ∀ node ∈ stack, WordsApart list node)
    (hstack : IsStack memory (readWord memory list) stack) :
    (freelistPop memory list).1 = stack.headD 0 ∧
      IsStack (freelistPop memory list).2 (readWord (freelistPop memory list).2 list)
        stack.tail := by
  cases stack with
  | nil =>
      rw [freelistPop_nil hstack]
      exact ⟨rfl, hstack⟩
  | cons node nodes =>
      exact freelistPop_cons hstack hlist
        fun other hother => hapart other (List.mem_cons_of_mem _ hother)

/-- A step keeps the list faithful to the books exactly unless it pushes a null
block on a list that has blocks. -/
theorem step_faithful_iff (hlist : list ≠ 0) (hapart : ∀ node ∈ state.stack, WordsApart list node)
    (hfaithful : state.Faithful list) (hstep : step list state op = some next) :
    next.Faithful list ↔ (op = .push 0 → state.stack = []) := by
  cases op with
  | push block =>
      obtain ⟨hpushable, rfl⟩ := step_push_eq_some hstep
      by_cases hblock : block = 0
      · subst hblock
        have hiff := freelistPush_null_isStack_iff state.memory hlist state.stack
        simpa [State.Faithful, hfaithful.2] using hiff
      · obtain ⟨hroom, hhead, hfresh⟩ := hpushable.resolve_left hblock
        refine iff_of_true ⟨?_, hfaithful.2⟩ (fun hnull => absurd (Op.push.inj hnull) hblock)
        simp only [if_neg hblock]
        exact freelistPush_isStack hfaithful.1 hlist hblock (by omega) hhead hapart hfresh
  | pop =>
      obtain rfl := step_pop_eq_some hstep
      obtain ⟨hres, hrest⟩ := freelistPop_isStack hlist hapart hfaithful.1
      refine iff_of_true ⟨hrest, ?_⟩ (fun hnull => nomatch hnull)
      exact congrArg₂ List.cons hres hfaithful.2
  | write address byte =>
      obtain ⟨⟨hhead, hlinks⟩, rfl⟩ := step_write_eq_some hstep
      refine iff_of_true ⟨?_, hfaithful.2⟩ (fun hnull => nomatch hnull)
      have hword : readWord (writeByte state.memory address byte) list =
          readWord state.memory list := readWord_writeByte_of_disjoint (by omega)
      simp only [hword]
      apply hfaithful.1.frame
      intro node hnode
      have := hlinks node hnode
      exact readWord_writeByte_of_disjoint (by omega)

/-! ## Whole runs -/

/-- At every point of the run the list is the stack and every pop so far has
returned the right block, and no step has written more than it may. -/
def FollowsBooks (list : ℕ) (memory : Memory) (ops : List Op) : Prop :=
  (∀ done, done <+: ops → ∀ reached, run (step list) (start memory) done = some reached →
    reached.Faithful list) ∧
  AllSteps (step list) (fun state op => ∀ next, step list state op = some next →
    UnchangedOutside state.memory next.memory (op.Region list)) (start memory) ops

theorem reached_apart {memory : Memory} {done : List Op} {reached : State}
    (hrun : run (step list) (start memory) done = some reached) :
    ∀ node ∈ reached.stack, WordsApart list node :=
  run_invariant (fun state : State => ∀ node ∈ state.stack, WordsApart list node)
    (fun _ _ _ hapart (_ : True) hstep => step_apart hapart hstep) (by simp [start])
    (AllSteps.of_forall (fun _ _ => trivial) _ _) hrun

/-- In every run of a client that keeps off the listed blocks, from any memory
with an empty list: the list follows the books exactly if no null block is
pushed while blocks are listed. -/
theorem freelistRun_follows_iff {memory : Memory} {ops : List Op} {final : State}
    (hlist : list ≠ 0) (hempty : readWord memory list = 0)
    (hrun : run (step list) (start memory) ops = some final) :
    FollowsBooks list memory ops ↔
      AllSteps (step list) (fun state op => op = .push 0 → state.stack = []) (start memory)
        ops := by
  have hinit : (start memory).Faithful list ∧
      ∀ node ∈ (start memory).stack, WordsApart list node := ⟨⟨hempty, rfl⟩, by simp [start]⟩
  have hframe := @AllSteps.of_forall _ _ (step list) _
    (fun state op next hstep => @step_unchangedOutside list state next op hlist hstep)
    (start memory) ops
  rw [FollowsBooks, and_iff_left hframe]
  have hthroughout := run_throughout_iff
    (fun state : State => state.Faithful list ∧ ∀ node ∈ state.stack, WordsApart list node)
    (fun state op next hinv hstep =>
      (and_iff_left (step_apart hinv.2 hstep)).trans
        (step_faithful_iff hlist hinv.2 hinv.1 hstep)) hinit hrun
  rw [← hthroughout]
  constructor
  · intro hfaithful done hdone reached hreached
    exact ⟨hfaithful done hdone reached hreached, reached_apart hreached⟩
  · intro hboth done hdone reached hreached
    exact (hboth done hdone reached hreached).1

/-- Null pushes on an empty list, and blocks pushed and popped. -/
theorem freelistRun_follows_of_nulls : FollowsBooks 4096 (fun _ => 0)
    [.push 0, .push 8192, .write 8200 1, .push 8256, .pop, .pop, .push 0, .pop] :=
  (freelistRun_follows_iff (by decide) (by decide +kernel) rfl).mpr (by decide +kernel)

/-- A null push on a list with one block loses the block. -/
theorem freelistRun_loses_block :
    ¬ ∀ (list : ℕ) (memory : Memory) (ops : List Op) (final : State), list ≠ 0 →
      readWord memory list = 0 → run (step list) (start memory) ops = some final →
      FollowsBooks list memory ops := by
  intro hall
  have hlist : (4096 : ℕ) ≠ 0 := by decide
  have hfollows := hall 4096 (fun _ => 0) [.push 8192, .push 0] _ hlist (by decide +kernel) rfl
  have hfaithful := hfollows.1 _ List.prefix_rfl _ rfl
  have hlost := (freelistPush_null_isStack_iff _ hlist [8192]).mp hfaithful.1
  cases hlost

end DoomsdayModules.FreelistRuns
