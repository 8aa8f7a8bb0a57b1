import Mathlib.Tactic

/-!
# Items kept until they are acknowledged

A server takes in items under increasing keys and lets go of those in front of an
offset that its client names in a request.  A client that starts anew begins
with the first item the server still has.  A session is what a client handles
from one start on: the items that follow the start in order, without a gap and
without a repetition, and nothing that the server has let go of was handled by
no session.

The server itself is a parameter, of which only what is promised to its client
is used.
-/

namespace DoomsdayModules.Redelivery

variable {State Event α Key : Type*}

/-! ## The server -/

/-- A server as its client knows it: the items it has taken in and how many of
them it has let go of, what becomes of it while nobody asks, and what a request
with an offset makes of it and is answered. -/
structure Server (State Event α Key : Type*) where
  arrived : State → List α
  confirmed : State → ℕ
  meanwhile : Event → State → State
  request : Event → Key → State → State × List α

/-- The items the server has let go of. -/
def Server.released (server : Server State Event α Key) (state : State) : List α :=
  (server.arrived state).take (server.confirmed state)

/-- The items it still has. -/
def Server.pending (server : Server State Event α Key) (state : State) : List α :=
  (server.arrived state).drop (server.confirmed state)

/-- What the client is promised.  Items have positive and increasing keys, and
are kept until a request comes.  A request lets go of the items in front of its
offset and of no others, for good, and is answered with some of those that are
left, from the first one on. -/
structure Documented [LinearOrder Key] [Zero Key] (server : Server State Event α Key)
    (key : α → Key) : Prop where
  positive : ∀ state, ∀ item ∈ server.arrived state, 0 < key item
  increasing : ∀ state, (server.arrived state).Pairwise fun earlier later =>
    key earlier < key later
  confirmed_le : ∀ state, server.confirmed state ≤ (server.arrived state).length
  arrived_meanwhile : ∀ event state,
    server.arrived state <+: server.arrived (server.meanwhile event state)
  confirmed_meanwhile : ∀ event state,
    server.confirmed (server.meanwhile event state) = server.confirmed state
  arrived_request : ∀ event offset state, 0 ≤ offset →
    server.arrived (server.request event offset state).1 = server.arrived state
  for_good : ∀ event offset state, 0 ≤ offset →
    server.confirmed state ≤ server.confirmed (server.request event offset state).1
  lets_go : ∀ event offset state, 0 ≤ offset →
    ∀ item ∈ server.pending (server.request event offset state).1, offset ≤ key item
  keeps : ∀ event offset state, 0 ≤ offset →
    ∀ item ∈ (server.released (server.request event offset state).1).drop
      (server.confirmed state), key item < offset
  answers : ∀ event offset state, 0 ≤ offset →
    (server.request event offset state).2 <+:
      server.pending (server.request event offset state).1

/-- An offset between two parts of what there is lets go of just the first. -/
theorem Documented.confirmed_request [LinearOrder Key] [Zero Key]
    {server : Server State Event α Key} {key : α → Key} (hserver : Documented server key)
    (event : Event) {offset : Key} {state : State} (hoffset : 0 ≤ offset) {handled rest : List α}
    (hsplit : server.arrived state = handled ++ rest)
    (hbefore : server.confirmed state ≤ handled.length)
    (hhandled : ∀ item ∈ handled.drop (server.confirmed state), key item < offset)
    (hrest : ∀ item ∈ rest, offset ≤ key item) :
    server.confirmed (server.request event offset state).1 = handled.length := by
  have hgoes := hserver.lets_go event offset state hoffset
  have hstays := hserver.keeps event offset state hoffset
  have hmore := hserver.for_good event offset state hoffset
  have hinside := hserver.confirmed_le (server.request event offset state).1
  rw [Server.pending, hserver.arrived_request event offset state hoffset, hsplit] at hgoes
  rw [Server.released, hserver.arrived_request event offset state hoffset, hsplit] at hstays
  rw [hserver.arrived_request event offset state hoffset, hsplit] at hinside
  generalize server.confirmed (server.request event offset state).1 = released at *
  rcases Nat.lt_trichotomy released handled.length with hless | hsame | hgreater
  · have hkept : handled[released] ∈ (handled ++ rest).drop released := by
      rw [List.drop_append_of_le_length hless.le, List.drop_eq_getElem_cons hless]
      exact List.mem_cons_self
    have hacknowledged : handled[released] ∈ handled.drop (server.confirmed state) := by
      rw [← Nat.add_sub_cancel' hmore] at hless
      exact List.mem_drop_iff_getElem.mpr ⟨released - server.confirmed state, by omega, by
        congr 1
        omega⟩
    exact absurd (hgoes _ hkept) (not_le.mpr (hhandled _ hacknowledged))
  · exact hsame
  · cases rest with
    | nil =>
        rw [List.append_nil] at hinside
        omega
    | cons first later =>
        have hgone : first ∈ ((handled ++ first :: later).take released).drop
            (server.confirmed state) := by
          rw [List.take_append, List.take_of_length_le hgreater.le,
            List.drop_append_of_le_length hbefore]
          refine List.mem_append_right _ ?_
          obtain ⟨count, hcount⟩ := Nat.exists_eq_add_of_lt hgreater
          rw [show released - handled.length = count + 1 by omega, List.take_succ_cons]
          exact List.mem_cons_self
        exact absurd (hstays _ hgone) (not_lt.mpr (hrest _ List.mem_cons_self))

/-! ## Sessions -/

/-- A session that began behind `resumed` of the items that arrived has handled
the next ones, and the server has not let go of others. -/
structure Session (arrived : List α) (confirmed resumed : ℕ) (handled : List α) : Prop where
  in_order : handled <+: arrived.drop resumed
  resumed_le : resumed ≤ confirmed
  confirmed_le : confirmed ≤ resumed + handled.length

/-- What a session has still to handle. -/
def unhandled (arrived : List α) (resumed : ℕ) (handled : List α) : List α :=
  arrived.drop (resumed + handled.length)

namespace Session

variable {arrived later : List α} {confirmed resumed : ℕ} {handled : List α}

/-- A session begins with the first item that is still there. -/
theorem begin_ (arrived : List α) (confirmed : ℕ) : Session arrived confirmed confirmed [] where
  in_order := List.nil_prefix
  resumed_le := le_rfl
  confirmed_le := le_rfl

theorem arrive (hsession : Session arrived confirmed resumed handled) (hmore : arrived <+: later) :
    Session later confirmed resumed handled where
  in_order := hsession.in_order.trans (hmore.drop resumed)
  resumed_le := hsession.resumed_le
  confirmed_le := hsession.confirmed_le

theorem drop_eq (hsession : Session arrived confirmed resumed handled) :
    arrived.drop resumed = handled ++ unhandled arrived resumed handled := by
  obtain ⟨rest, hrest⟩ := hsession.in_order
  rw [unhandled, ← List.drop_drop, ← hrest, List.drop_left]

/-- The items in front of the session, those of the session, and those to come. -/
theorem arrived_eq (hsession : Session arrived confirmed resumed handled) :
    arrived = (arrived.take resumed ++ handled) ++ unhandled arrived resumed handled := by
  rw [List.append_assoc, ← hsession.drop_eq, List.take_append_drop]

/-- The next item is the first one not yet handled. -/
theorem handle {item : α} {rest : List α} (hsession : Session arrived confirmed resumed handled)
    (hnext : unhandled arrived resumed handled = item :: rest) :
    Session arrived confirmed resumed (handled ++ [item]) where
  in_order := by
    rw [hsession.drop_eq, hnext]
    exact ⟨rest, by rw [List.append_assoc, List.singleton_append]⟩
  resumed_le := hsession.resumed_le
  confirmed_le := by
    have hle := hsession.confirmed_le
    rw [List.length_append]
    omega

theorem unhandled_handle {item : α} {rest : List α}
    (hnext : unhandled arrived resumed handled = item :: rest) :
    unhandled arrived resumed (handled ++ [item]) = rest := by
  rw [unhandled, List.length_append, ← Nat.add_assoc, ← List.drop_drop]
  rw [unhandled] at hnext
  rw [hnext]
  rfl

theorem length_front (handled : List α) (hresumed : resumed ≤ arrived.length) :
    (arrived.take resumed ++ handled).length = resumed + handled.length := by
  rw [List.length_append, List.length_take, Nat.min_eq_left hresumed]

/-- The server has let go of all that the session handled. -/
theorem acknowledge (hsession : Session arrived confirmed resumed handled) :
    Session arrived (resumed + handled.length) resumed handled where
  in_order := hsession.in_order
  resumed_le := Nat.le_add_right _ _
  confirmed_le := le_rfl

/-- What the server let go of since the beginning was handled by this session or
by earlier ones. -/
theorem released_sublist {earlier : List α} {beginning : ℕ}
    (hsession : Session arrived confirmed resumed handled)
    (hearlier : ((arrived.take resumed).drop beginning).Sublist earlier) :
    ((arrived.take confirmed).drop beginning).Sublist (earlier ++ handled) := by
  have hresumed := hsession.resumed_le
  have hconfirmed := hsession.confirmed_le
  have hsplit : confirmed = resumed + (confirmed - resumed) := by omega
  rw [hsplit, List.take_add, hsession.drop_eq, List.take_append_of_le_length (by omega),
    List.drop_append]
  exact hearlier.append ((List.drop_sublist _ _).trans (List.take_sublist _ _))

end Session

end DoomsdayModules.Redelivery
