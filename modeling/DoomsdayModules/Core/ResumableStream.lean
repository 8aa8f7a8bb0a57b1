import Mathlib.Data.List.ReduceOption
import Mathlib.Tactic

/-!
# Streams read in parts

A producer walks a list of slots, some of which hold an item, and offers the
items to a consumer that may refuse one after any number of them.  The position
of the stream is the index of the first slot not yet passed, so that a refused
item is offered again by the next call.  Whatever the refusals, what has been
delivered and what is still ahead of the position make up all items.
-/

namespace DoomsdayModules.ResumableStream

variable {α : Type*}

/-- What one call delivers, how many slots it passes and whether it was refused. -/
structure Served (α : Type*) where
  items : List α
  passed : ℕ
  refused : Bool

/-- One call: `room` is how many items are taken before one is refused, `none`
if none is. -/
def serve (room : Option ℕ) : List (Option α) → Served α
  | [] => ⟨[], 0, false⟩
  | none :: slots =>
      let rest := serve room slots
      ⟨rest.items, rest.passed + 1, rest.refused⟩
  | some item :: slots =>
      if room = some 0 then ⟨[], 0, true⟩
      else
        let rest := serve (room.map (· - 1)) slots
        ⟨item :: rest.items, rest.passed + 1, rest.refused⟩

/-- The calls one after the other, each at the position the last one left. -/
def serveAll : List (Option α) → ℕ → List (Option ℕ) → List α × ℕ
  | _, position, [] => ([], position)
  | slots, position, room :: rooms =>
      let served := serve room (slots.drop position)
      let rest := serveAll slots (position + served.passed) rooms
      (served.items ++ rest.1, rest.2)

@[simp]
theorem serve_nil (room : Option ℕ) : serve room ([] : List (Option α)) = ⟨[], 0, false⟩ := rfl

theorem serve_none_cons (room : Option ℕ) (slots : List (Option α)) :
    serve room (none :: slots) =
      ⟨(serve room slots).items, (serve room slots).passed + 1, (serve room slots).refused⟩ := rfl

theorem serve_some_cons_of_refused (item : α) (slots : List (Option α)) :
    serve (some 0) (some item :: slots) = ⟨[], 0, true⟩ := by
  rw [serve, if_pos rfl]

theorem serve_some_cons {room : Option ℕ} (item : α) (slots : List (Option α))
    (hroom : room ≠ some 0) :
    serve room (some item :: slots) =
      ⟨item :: (serve (room.map (· - 1)) slots).items,
        (serve (room.map (· - 1)) slots).passed + 1,
        (serve (room.map (· - 1)) slots).refused⟩ := by
  rw [serve, if_neg hroom]

/-- Delivered items and items ahead make up all of them. -/
theorem serve_items_append (room : Option ℕ) (slots : List (Option α)) :
    (serve room slots).items ++ (slots.drop (serve room slots).passed).reduceOption =
      slots.reduceOption := by
  induction slots generalizing room with
  | nil => rfl
  | cons slot slots ih =>
      cases slot with
      | none =>
          rw [serve_none_cons, List.drop_succ_cons, List.reduceOption_cons_of_none]
          exact ih room
      | some item =>
          by_cases hroom : room = some 0
          · rw [hroom, serve_some_cons_of_refused]
            rfl
          · rw [serve_some_cons item slots hroom, List.drop_succ_cons,
              List.reduceOption_cons_of_some, List.cons_append, ih]

/-- A call that is not refused passes every slot. -/
theorem serve_passed_of_not_refused (room : Option ℕ) (slots : List (Option α))
    (haccepted : (serve room slots).refused = false) :
    (serve room slots).passed = slots.length := by
  induction slots generalizing room with
  | nil => rfl
  | cons slot slots ih =>
      cases slot with
      | none =>
          rw [serve_none_cons] at haccepted ⊢
          rw [List.length_cons, ih room haccepted]
      | some item =>
          by_cases hroom : room = some 0
          · rw [hroom, serve_some_cons_of_refused] at haccepted
            cases haccepted
          · rw [serve_some_cons item slots hroom] at haccepted ⊢
            rw [List.length_cons, ih _ haccepted]

theorem serve_unlimited (slots : List (Option α)) :
    serve none slots = ⟨slots.reduceOption, slots.length, false⟩ := by
  induction slots with
  | nil => rfl
  | cons slot slots ih =>
      cases slot with
      | none => rw [serve_none_cons, ih, List.reduceOption_cons_of_none, List.length_cons]
      | some item =>
          rw [serve_some_cons item slots (by simp), Option.map_none, ih,
            List.reduceOption_cons_of_some, List.length_cons]

/-- No item is lost or delivered twice between calls. -/
theorem serveAll_items_append (slots : List (Option α)) (position : ℕ)
    (rooms : List (Option ℕ)) :
    (serveAll slots position rooms).1 ++
        (slots.drop (serveAll slots position rooms).2).reduceOption =
      (slots.drop position).reduceOption := by
  induction rooms generalizing position with
  | nil => rfl
  | cons room rooms ih =>
      simp only [serveAll]
      rw [List.append_assoc, ih, ← List.drop_drop, serve_items_append]

end DoomsdayModules.ResumableStream
