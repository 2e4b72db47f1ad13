import Mathlib.Data.List.Basic

/-!
# Incremental readers

A reader finds one item at the front of its input, asks for more input, or fails. Its answer does
not change when more input arrives behind what it has looked at (`Reader.stable`), so it does not
matter in which chunks the input arrives (`Reader.feed_eq`).
-/

namespace LatentMesh.Lib

/-- A reader of items from a buffer: it finds an item and how much it takes, or waits for more
input, or fails. -/
structure Reader (α β ε : Type) where
  read : List α → Except ε (Option (β × Nat))
  /-- An item takes some of the input. -/
  consumes : ∀ {input item consumed}, read input = .ok (some (item, consumed)) →
    0 < consumed ∧ consumed ≤ input.length
  /-- More input changes no answer but a request for it. -/
  stable : ∀ {input} more, read input ≠ .ok none → read (input ++ more) = read input

namespace Reader

variable {α β ε : Type} {reader : Reader α β ε} {input left : List α}

/-- The items at the front of an input, what is left of it, and the error behind them, if there is
one. -/
def drain (reader : Reader α β ε) (input : List α) : List β × List α × Option ε :=
  match hread : reader.read input with
  | .error error => ([], input, some error)
  | .ok none => ([], input, none)
  | .ok (some (item, consumed)) =>
      have _hconsumed := reader.consumes hread
      let rest := reader.drain (input.drop consumed)
      (item :: rest.1, rest.2)
termination_by input.length
decreasing_by
  rw [List.length_drop]
  omega

/-- One turn of the loop. -/
theorem drain_step (reader : Reader α β ε) (input : List α) :
    reader.drain input =
      match reader.read input with
      | .error error => ([], input, some error)
      | .ok none => ([], input, none)
      | .ok (some (item, consumed)) =>
          (item :: (reader.drain (input.drop consumed)).1,
            (reader.drain (input.drop consumed)).2) := by
  rw [drain]
  split
  · rename_i herror
    rw [herror]
  · rename_i hnone
    rw [hnone]
  · rename_i hitem
    simp only [hitem]

/-- A drain stops where the reader fails. -/
theorem drain_error {error : ε} (h : reader.read input = .error error) :
    reader.drain input = ([], input, some error) := by
  rw [drain_step, h]

/-- A drain stops where the reader waits for more input. -/
theorem drain_incomplete (h : reader.read input = .ok none) :
    reader.drain input = ([], input, none) := by
  rw [drain_step, h]

/-- A drain goes on behind an item. -/
theorem drain_item {item : β} {consumed : Nat}
    (h : reader.read input = .ok (some (item, consumed))) :
    reader.drain input = (item :: (reader.drain (input.drop consumed)).1,
      (reader.drain (input.drop consumed)).2) := by
  rw [drain_step, h]

/-- What is left without an error is incomplete. -/
theorem read_left (h : (reader.drain input).2.2 = none) :
    reader.read (reader.drain input).2.1 = .ok none := by
  induction input using drain.induct reader with
  | case1 input error hread =>
      rw [drain_error hread] at h
      cases h
  | case2 input hread =>
      rw [drain_incomplete hread]
      exact hread
  | case3 input item consumed hread _ ih =>
      rw [drain_item hread] at h ⊢
      exact ih h

/-- More input behind an item leaves the item. -/
theorem read_append {item : β} {consumed : Nat}
    (h : reader.read input = .ok (some (item, consumed))) (more : List α) :
    reader.read (input ++ more) = .ok (some (item, consumed)) ∧
      (input ++ more).drop consumed = input.drop consumed ++ more := by
  have hstable := reader.stable more (by rw [h]; simp)
  exact ⟨hstable.trans h, List.drop_append_of_le_length (reader.consumes h).2⟩

/-- With more input the reader goes on from what was left. -/
theorem drain_append (h : (reader.drain input).2.2 = none) (more : List α) :
    reader.drain (input ++ more) =
      ((reader.drain input).1 ++ (reader.drain ((reader.drain input).2.1 ++ more)).1,
        (reader.drain ((reader.drain input).2.1 ++ more)).2) := by
  induction input using drain.induct reader with
  | case1 input error hread =>
      rw [drain_error hread] at h
      cases h
  | case2 input hread =>
      rw [drain_incomplete hread]
      rfl
  | case3 input item consumed hread _ ih =>
      obtain ⟨hmore, hdrop⟩ := read_append hread more
      rw [drain_item hread] at h ⊢
      rw [drain_item hmore, hdrop, ih h]
      rfl

/-- More input behind an error changes neither the items nor the error. -/
theorem drain_append_error {error : ε} (h : (reader.drain input).2.2 = some error)
    (more : List α) : (reader.drain (input ++ more)).1 = (reader.drain input).1 ∧
      (reader.drain (input ++ more)).2.2 = some error := by
  induction input using drain.induct reader with
  | case1 input other hread =>
      have hmore := reader.stable more (by rw [hread]; simp)
      rw [hread] at hmore
      rw [drain_error hread] at h ⊢
      rw [drain_error hmore]
      exact ⟨rfl, h⟩
  | case2 input hread =>
      rw [drain_incomplete hread] at h
      cases h
  | case3 input item consumed hread _ ih =>
      obtain ⟨hmore, hdrop⟩ := read_append hread more
      rw [drain_item hread] at h ⊢
      rw [drain_item hmore, hdrop]
      obtain ⟨hitems, herror⟩ := ih h
      exact ⟨congrArg (item :: ·) hitems, herror⟩

/-- Drain what is left and a chunk, chunk by chunk, up to the first error. -/
def feed (reader : Reader α β ε) (left : List α) : List (List α) → List β × List α × Option ε
  | [] => ([], left, none)
  | chunk :: chunks =>
      match reader.drain (left ++ chunk) with
      | (items, left, some error) => (items, left, some error)
      | (items, left, none) =>
          let rest := reader.feed left chunks
          (items ++ rest.1, rest.2)

/-- The chunks do not matter: the items and the error are those of the whole input, and so is what
is left if there is no error. -/
theorem feed_eq (hleft : reader.read left = .ok none) (chunks : List (List α)) :
    (reader.feed left chunks).1 = (reader.drain (left ++ chunks.flatten)).1 ∧
      (reader.feed left chunks).2.2 = (reader.drain (left ++ chunks.flatten)).2.2 ∧
      ((reader.feed left chunks).2.2 = none →
        reader.feed left chunks = reader.drain (left ++ chunks.flatten)) := by
  induction chunks generalizing left with
  | nil =>
      rw [List.flatten_nil, List.append_nil, drain_incomplete hleft]
      exact ⟨rfl, rfl, fun _ => rfl⟩
  | cons chunk chunks ih =>
      rw [List.flatten_cons, ← List.append_assoc, feed]
      cases hdrain : reader.drain (left ++ chunk) with
      | mk items rest =>
          obtain ⟨rest, error⟩ := rest
          cases error with
          | some error =>
              obtain ⟨hitems, herror⟩ := drain_append_error (congrArg (fun d => d.2.2) hdrain)
                chunks.flatten
              rw [hdrain] at hitems
              exact ⟨hitems.symm, herror.symm, fun h => by cases h⟩
          | none =>
              have hok : (reader.drain (left ++ chunk)).2.2 = none := by rw [hdrain]
              have hrest := read_left hok
              rw [drain_append hok, hdrain]
              rw [hdrain] at hrest
              obtain ⟨hitems, herror, hsame⟩ := ih hrest
              dsimp only
              refine ⟨congrArg (items ++ ·) hitems, herror, fun h => ?_⟩
              rw [hsame h]

end Reader

end LatentMesh.Lib
