import DoomsdayModules.Telegram.ChatLog
import Mathlib.Data.List.Sort

/-!
# The order of the log and the order of the queue

A write takes its place in the log under one lock and its place in the queue
under another, and nothing keeps a second writer from passing it in between.
The two orders agree as long as the writers of a chat reach the queue in the
order in which they left the log.
-/

namespace DoomsdayModules.Telegram.SendOrder

open DoomsdayModules.KernelText DoomsdayModules.Runs
open DoomsdayModules.Telegram.Devices DoomsdayModules.Telegram.System
open DoomsdayModules.Telegram.ChatLog

/-- The writes with a line in the log of the chat, in the order of the lines. -/
def userLines (state : State) (chat : ℕ) : List ℕ :=
  (state.history.pieces chat).filterMap fun piece =>
    if piece.stored = [] then none else piece.ticket

/-- The writes to the chat whose frames entered the queue, in that order. -/
def outFrames (state : State) (chat : ℕ) : List ℕ :=
  (state.history.accepted.filter fun entry => entry.chat = chat).map Accepted.ticket

/-- The frames entered the queue in the order of their lines. -/
def SameOrder (state : State) (chat : ℕ) : Prop :=
  ((outFrames state chat).filter fun ticket => ticket ∈ userLines state chat).Sublist
    (userLines state chat)

instance (state : State) (chat : ℕ) : Decidable (SameOrder state chat) := by
  unfold SameOrder
  infer_instance

/-- A writer goes on to the queue only if no write to its chat that is before
it in the log still has to. -/
def NoOvertaking (state : State) : Op → Prop
  | .enqueue process => ∀ pending, state.writers process = some pending →
      ∀ other waiting, state.writers other = some waiting → waiting.chat = pending.chat →
        pending.ticket ≤ waiting.ticket
  | _ => True

/-! ## Tickets -/

def pieceTickets (pieces : List Piece) : List ℕ := pieces.filterMap Piece.ticket

/-- Tickets are given out in the order of the logs, and the queue takes those of
a chat in that order and before the ones still waiting. -/
structure OrderInvariant (state : State) : Prop where
  pieces_lt : ∀ chat, ∀ ticket ∈ pieceTickets (state.history.pieces chat),
    ticket < state.history.tickets
  pieces_increasing : ∀ chat, (pieceTickets (state.history.pieces chat)).Pairwise (· < ·)
  waiting_lt : ∀ process waiting, state.writers process = some waiting →
    waiting.ticket < state.history.tickets
  waiting_unique : ∀ process other waiting waiting', state.writers process = some waiting →
    state.writers other = some waiting' → waiting.ticket = waiting'.ticket → process = other
  accepted_lt : ∀ chat, ∀ ticket ∈ outFrames state chat, ticket < state.history.tickets
  accepted_increasing : ∀ chat, (outFrames state chat).Pairwise (· < ·)
  accepted_before : ∀ process waiting, state.writers process = some waiting →
    ∀ ticket ∈ outFrames state waiting.chat, ticket < waiting.ticket

theorem orderInvariant_init (opened : ℕ → ℕ) : OrderInvariant (telegramInit opened) := by
  constructor <;> simp [telegramInit, pieceTickets, outFrames]

theorem pieceTickets_append (pieces : List Piece) (piece : Piece) :
    pieceTickets (pieces ++ [piece]) = pieceTickets pieces ++ piece.ticket.toList := by
  cases hticket : piece.ticket <;> simp [pieceTickets, hticket]

theorem userLines_sublist (pieces : List Piece) :
    (pieces.filterMap fun piece => if piece.stored = [] then none else piece.ticket).Sublist
      (pieceTickets pieces) := by
  induction pieces with
  | nil => exact List.Sublist.refl _
  | cons piece pieces ih =>
      cases hticket : piece.ticket with
      | none => simpa [pieceTickets, List.filterMap_cons, hticket] using ih
      | some ticket =>
          by_cases hstored : piece.stored = []
          · simpa [pieceTickets, List.filterMap_cons, hticket, hstored] using ih.cons ticket
          · simpa [pieceTickets, List.filterMap_cons, hticket, hstored] using ih

/-- A new write gets a ticket above all others. -/
theorem OrderInvariant.chatWrite {state : State} (hinv : OrderInvariant state)
    (process chat : ℕ) (tmp : Text) : OrderInvariant (stepChatWrite state process chat tmp) where
  pieces_lt := by
    intro other ticket hticket
    by_cases hsame : other = chat
    · subst hsame
      simp only [stepChatWrite, assign_self, pieceTickets_append, Option.toList_some,
        List.mem_append, List.mem_singleton] at hticket ⊢
      rcases hticket with hold | rfl
      · exact (hinv.pieces_lt other ticket hold).trans (Nat.lt_succ_self _)
      · exact Nat.lt_succ_self _
    · simp only [stepChatWrite, assign_of_ne _ hsame] at hticket ⊢
      exact (hinv.pieces_lt other ticket hticket).trans (Nat.lt_succ_self _)
  pieces_increasing := by
    intro other
    by_cases hsame : other = chat
    · subst hsame
      simp only [stepChatWrite, assign_self, pieceTickets_append, Option.toList_some]
      rw [List.pairwise_append]
      refine ⟨hinv.pieces_increasing other, List.pairwise_singleton _ _, ?_⟩
      intro ticket hold new hnew
      rw [List.mem_singleton.mp hnew]
      exact hinv.pieces_lt other ticket hold
    · simp only [stepChatWrite, assign_of_ne _ hsame]
      exact hinv.pieces_increasing other
  waiting_lt := by
    intro other waiting hwaiting
    by_cases hsame : other = process
    · subst hsame
      simp only [stepChatWrite, assign_self, Option.some.injEq] at hwaiting
      subst hwaiting
      exact Nat.lt_succ_self _
    · simp only [stepChatWrite, assign_of_ne _ hsame] at hwaiting
      exact (hinv.waiting_lt other waiting hwaiting).trans (Nat.lt_succ_self _)
  waiting_unique := by
    intro first second waiting waiting' hfirst hsecond hticket
    by_cases hfirstNew : first = process
    · by_cases hsecondNew : second = process
      · rw [hfirstNew, hsecondNew]
      · subst hfirstNew
        simp only [stepChatWrite, assign_self, Option.some.injEq] at hfirst
        simp only [stepChatWrite, assign_of_ne _ hsecondNew] at hsecond
        have hold := hinv.waiting_lt second waiting' hsecond
        rw [← hticket, ← hfirst] at hold
        exact absurd hold (lt_irrefl _)
    · simp only [stepChatWrite, assign_of_ne _ hfirstNew] at hfirst
      by_cases hsecondNew : second = process
      · subst hsecondNew
        simp only [stepChatWrite, assign_self, Option.some.injEq] at hsecond
        have hold := hinv.waiting_lt first waiting hfirst
        rw [hticket, ← hsecond] at hold
        exact absurd hold (lt_irrefl _)
      · simp only [stepChatWrite, assign_of_ne _ hsecondNew] at hsecond
        exact hinv.waiting_unique first second waiting waiting' hfirst hsecond hticket
  accepted_lt := fun other ticket hticket =>
    (hinv.accepted_lt other ticket hticket).trans (Nat.lt_succ_self _)
  accepted_increasing := hinv.accepted_increasing
  accepted_before := by
    intro other waiting hwaiting ticket hticket
    by_cases hsame : other = process
    · subst hsame
      simp only [stepChatWrite, assign_self, Option.some.injEq] at hwaiting
      subst hwaiting
      exact hinv.accepted_lt chat ticket hticket
    · simp only [stepChatWrite, assign_of_ne _ hsame] at hwaiting
      exact hinv.accepted_before other waiting hwaiting ticket hticket

theorem OrderInvariant.busWrite {state : State} (hinv : OrderInvariant state)
    (command : BusCommand) : OrderInvariant (stepBusWrite state command) := by
  have hsame : ∀ chat, pieceTickets ((stepBusWrite state command).history.pieces chat) =
      pieceTickets (state.history.pieces chat) := by
    intro other
    cases command with
    | incoming chat sender message =>
        simp only [stepBusWrite, commandPieces]
        by_cases hchat : other = chat
        · subst hchat
          rw [assign_self, pieceTickets_append, Option.toList_none, List.append_nil]
        · rw [assign_of_ne _ hchat]
    | set chat id => rfl
  exact {
    pieces_lt := fun chat ticket hticket => hinv.pieces_lt chat ticket (hsame chat ▸ hticket)
    pieces_increasing := fun chat => by
      rw [hsame chat]
      exact hinv.pieces_increasing chat
    waiting_lt := hinv.waiting_lt
    waiting_unique := hinv.waiting_unique
    accepted_lt := hinv.accepted_lt
    accepted_increasing := hinv.accepted_increasing
    accepted_before := hinv.accepted_before }

/-- The frames after an enqueue: one more, if it was to this chat and accepted. -/
theorem outFrames_stepEnqueue (state : State) (process : ℕ) (pending : Pending) (chat : ℕ) :
    outFrames (stepEnqueue state process pending) chat = outFrames state chat ∨
      pending.chat = chat ∧ outFrames (stepEnqueue state process pending) chat =
        outFrames state chat ++ [pending.ticket] := by
  by_cases hfull : busQueueSize ≤ state.bus.count
  · exact .inl (by simp only [outFrames, stepEnqueue, if_pos hfull])
  · by_cases hchat : pending.chat = chat
    · exact .inr ⟨hchat, by simp [outFrames, stepEnqueue, hfull, hchat]⟩
    · exact .inl (by simp [outFrames, stepEnqueue, hfull, hchat])

/-- A waiting writer of an enqueued state is one that waited before. -/
theorem waiting_of_stepEnqueue {state : State} {process other : ℕ} {pending waiting : Pending}
    (hwaiting : (stepEnqueue state process pending).writers other = some waiting) :
    other ≠ process ∧ state.writers other = some waiting := by
  by_cases hsame : other = process
  · subst hsame
    simp [stepEnqueue] at hwaiting
  · exact ⟨hsame, by simpa only [stepEnqueue, assign_of_ne _ hsame] using hwaiting⟩

/-- The first writer of its chat that still waits may go on to the queue. -/
theorem OrderInvariant.enqueue {state : State} (hinv : OrderInvariant state) {process : ℕ}
    {pending : Pending} (hpending : state.writers process = some pending)
    (hfirst : ∀ other waiting, state.writers other = some waiting →
      waiting.chat = pending.chat → pending.ticket ≤ waiting.ticket) :
    OrderInvariant (stepEnqueue state process pending) where
  pieces_lt := hinv.pieces_lt
  pieces_increasing := hinv.pieces_increasing
  waiting_lt := fun other waiting hwaiting =>
    hinv.waiting_lt other waiting (waiting_of_stepEnqueue hwaiting).2
  waiting_unique := fun first second waiting waiting' hwaiting hwaiting' =>
    hinv.waiting_unique first second waiting waiting' (waiting_of_stepEnqueue hwaiting).2
      (waiting_of_stepEnqueue hwaiting').2
  accepted_lt := by
    intro chat ticket hticket
    rcases outFrames_stepEnqueue state process pending chat with hsame | ⟨-, hmore⟩
    · exact hinv.accepted_lt chat ticket (hsame ▸ hticket)
    · rw [hmore, List.mem_append, List.mem_singleton] at hticket
      rcases hticket with hold | rfl
      · exact hinv.accepted_lt chat ticket hold
      · exact hinv.waiting_lt process pending hpending
  accepted_increasing := by
    intro chat
    rcases outFrames_stepEnqueue state process pending chat with hsame | ⟨rfl, hmore⟩
    · rw [hsame]
      exact hinv.accepted_increasing chat
    · rw [hmore, List.pairwise_append]
      refine ⟨hinv.accepted_increasing _, List.pairwise_singleton _ _, ?_⟩
      intro ticket hold new hnew
      rw [List.mem_singleton.mp hnew]
      exact hinv.accepted_before process pending hpending ticket hold
  accepted_before := by
    intro other waiting hwaiting ticket hticket
    obtain ⟨hother, hwaited⟩ := waiting_of_stepEnqueue hwaiting
    rcases outFrames_stepEnqueue state process pending waiting.chat with hsame | ⟨hchat, hmore⟩
    · exact hinv.accepted_before other waiting hwaited ticket (hsame ▸ hticket)
    · rw [hmore, List.mem_append, List.mem_singleton] at hticket
      rcases hticket with hold | rfl
      · exact hinv.accepted_before other waiting hwaited ticket hold
      · have hle := hfirst other waiting hwaited hchat.symm
        have hne : pending.ticket ≠ waiting.ticket := fun hsame =>
          hother (hinv.waiting_unique process other pending waiting hpending hwaited hsame).symm
        omega

theorem orderInvariant_step (state : State) (op : Op) (hinv : OrderInvariant state)
    (hordered : NoOvertaking state op) : OrderInvariant (step state op) := by
  have hchange := change_step state op
  generalize step state op = next at hchange
  cases hchange with
  | chatWrite process chat tmp _ => exact hinv.chatWrite process chat tmp
  | enqueue process pending hpending => exact hinv.enqueue hpending (hordered pending hpending)
  | busWrite command => exact hinv.busWrite command
  | nothing => exact hinv
  | _ => exact ⟨hinv.1, hinv.2, hinv.3, hinv.4, hinv.5, hinv.6, hinv.7⟩

theorem OrderInvariant.sameOrder {state : State} (hinv : OrderInvariant state) (chat : ℕ) :
    SameOrder state chat := by
  have hincreasing := (hinv.pieces_increasing chat).sublist
    (userLines_sublist (state.history.pieces chat))
  have hframes := (hinv.accepted_increasing chat).filter
    fun ticket => decide (ticket ∈ userLines state chat)
  refine List.sublist_of_subperm_of_pairwise ?_ (hframes.imp le_of_lt) (hincreasing.imp le_of_lt)
  exact List.subperm_of_subset (hframes.imp ne_of_lt) fun ticket hticket => by
    simpa using (List.mem_filter.mp hticket).2

/-! ## Runs -/

theorem run_some_step (state : State) (ops : List Op) :
    run (fun current op => some (step current op)) state ops = some (execute state ops) := by
  induction ops generalizing state with
  | nil => rfl
  | cons op ops ih => exact ih (step state op)

/-- In every state of a run in which no writer overtakes another, the frames of
a chat are queued in the order of its log, which is that of its pieces. -/
theorem sameOrder_of_noOvertaking (opened : ℕ → ℕ) (ops : List Op)
    (hordered : AllSteps (fun state op => some (step state op)) NoOvertaking
      (telegramInit opened) ops) :
    ∀ done, done <+: ops → LogOfPieces (execute (telegramInit opened) done) ∧
      ∀ chat, SameOrder (execute (telegramInit opened) done) chat := by
  intro done hdone
  refine ⟨execute_invariant logOfPieces_step (logOfPieces_init opened) done, fun chat => ?_⟩
  have hinv := run_invariant OrderInvariant
    (fun state op next hinv hadmissible hnext => by
      cases hnext
      exact orderInvariant_step state op hinv hadmissible)
    (orderInvariant_init opened) (hordered.of_prefix hdone)
    (run_some_step (telegramInit opened) done)
  exact hinv.sameOrder chat

/-- Two users write one letter each, and the second is first at the queue. -/
def overtaking : List Op :=
  [.chatWrite 0 0 [0x61] true, .chatWrite 1 0 [0x62] true, .enqueue 1, .enqueue 0]

/-- The same users, one after the other. -/
def inTurn : List Op :=
  [.chatWrite 0 0 [0x61] true, .enqueue 0, .chatWrite 1 0 [0x62] true, .enqueue 1]

theorem noOvertaking_of_alone {state : State} {process : ℕ}
    (halone : ∀ other ≠ process, state.writers other = none) :
    NoOvertaking state (.enqueue process) := by
  intro pending hpending other waiting hwaiting _
  by_cases hsame : other = process
  · rw [hsame, hpending, Option.some.injEq] at hwaiting
    rw [hwaiting]
  · rw [halone other hsame] at hwaiting
    cases hwaiting

theorem noOvertaking_inTurn : AllSteps (fun state op => some (step state op)) NoOvertaking
    (telegramInit fun _ => 0) inTurn := by
  refine ⟨trivial, fun _ hfirst => ?_⟩
  cases hfirst
  refine ⟨noOvertaking_of_alone fun other hother => assign_of_ne _ hother, fun _ hsecond => ?_⟩
  cases hsecond
  refine ⟨trivial, fun _ hthird => ?_⟩
  cases hthird
  refine ⟨noOvertaking_of_alone fun other hother => ?_, fun _ _ => trivial⟩
  by_cases hzero : other = 0
  · subst hzero
    rfl
  · exact (assign_of_ne _ hother).trans ((assign_of_ne _ hzero).trans (assign_of_ne _ hzero))

theorem sameOrder_inTurn : SameOrder (execute (telegramInit fun _ => 0) inTurn) 0 :=
  (sameOrder_of_noOvertaking (fun _ => 0) inTurn noOvertaking_inTurn inTurn (List.prefix_refl _)).2 0

theorem not_sameOrder_overtaking :
    ¬ ∀ (opened : ℕ → ℕ) (ops : List Op) (chat : ℕ),
      SameOrder (execute (telegramInit opened) ops) chat := by
  intro hclaim
  exact absurd (hclaim (fun _ => 0) overtaking 0) (by decide +kernel)

end DoomsdayModules.Telegram.SendOrder
