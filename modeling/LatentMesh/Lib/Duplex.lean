import Mathlib.Logic.Function.Basic

/-!
# Duplex links

Two endpoints, and a lane to each of them. A `Lane` says how a message is encoded, how it enters the
lane and what the receiver takes out of it. When one kind of lane simulates another, every run of
calls on the duplex has the same outcomes on both (`Simulates.outcomes_eq`).
-/

namespace LatentMesh.Lib

/-- The two ends of a link. -/
inductive Side where
  | left
  | right
  deriving DecidableEq, Repr

/-- The other end. -/
def Side.peer : Side → Side
  | .left => .right
  | .right => .left

/-- Messages `α` are carried as `γ` in a lane `σ` and received as `β`. -/
structure Lane (σ α γ β ε : Type) where
  empty : σ
  encode : α → Except ε γ
  push : γ → σ → σ
  /-- Receive, with whether the sender is still there. -/
  recv : Bool → σ → σ × Except ε (Option β)
  /-- The error for a message to an endpoint that is gone. -/
  closed : ε

/-- What the owner of an endpoint does with it. -/
inductive Call (α : Type) where
  | send (message : α)
  | recv
  | drop

/-- What an operation on the link answers. -/
inductive Outcome (β ε : Type) where
  | sent (result : Except ε Unit)
  | received (result : Except ε (Option β))
  | dropped

/-- The lane to each side, while its endpoint is there. -/
abbrev Duplex (σ : Type) := Side → Option σ

variable {σ τ α γ δ β ε : Type}

namespace Lane

/-- A connected pair of endpoints. -/
def pair (lane : Lane σ α γ β ε) : Duplex σ := fun _ => some lane.empty

/-- A call of one side. An endpoint that is gone makes no call. -/
def step (lane : Lane σ α γ β ε) (duplex : Duplex σ) (side : Side) :
    Call α → Duplex σ × Option (Outcome β ε)
  | .send message =>
      match duplex side, lane.encode message, duplex side.peer with
      | none, _, _ => (duplex, none)
      | some _, .error error, _ => (duplex, some (.sent (.error error)))
      | some _, .ok _, none => (duplex, some (.sent (.error lane.closed)))
      | some _, .ok encoded, some outbound =>
          (Function.update duplex side.peer (some (lane.push encoded outbound)),
            some (.sent (.ok ())))
  | .recv =>
      match duplex side with
      | none => (duplex, none)
      | some inbound =>
          let received := lane.recv (duplex side.peer).isSome inbound
          (Function.update duplex side (some received.1), some (.received received.2))
  | .drop =>
      match duplex side with
      | none => (duplex, none)
      | some _ => (Function.update duplex side none, some .dropped)

/-- What a sequence of calls, of both sides in any order, returns. -/
def outcomes (lane : Lane σ α γ β ε) (duplex : Duplex σ) :
    List (Side × Call α) → List (Option (Outcome β ε))
  | [] => []
  | (side, call) :: calls =>
      (lane.step duplex side call).2 :: lane.outcomes (lane.step duplex side call).1 calls

/-- The lanes behave alike on the messages that are sent. -/
structure Simulates (concrete : Lane σ α γ β ε) (abstract : Lane τ α δ β ε)
    (Sent : α → Prop) (Related : σ → τ → Prop) : Prop where
  empty : Related concrete.empty abstract.empty
  refused : ∀ message error, concrete.encode message = .error error →
    abstract.encode message = .error error
  accepted : ∀ message encoded, Sent message → concrete.encode message = .ok encoded →
    ∃ plain, abstract.encode message = .ok plain ∧
      ∀ lane queue, Related lane queue →
        Related (concrete.push encoded lane) (abstract.push plain queue)
  received : ∀ connected lane queue, Related lane queue →
    (concrete.recv connected lane).2 = (abstract.recv connected queue).2 ∧
      Related (concrete.recv connected lane).1 (abstract.recv connected queue).1
  closed : concrete.closed = abstract.closed

namespace Simulates

variable {concrete : Lane σ α γ β ε} {abstract : Lane τ α δ β ε} {Sent : α → Prop}
  {Related : σ → τ → Prop}

/-- Both endpoints are gone, or both are there with related lanes. -/
def Matches (Related : σ → τ → Prop) (concrete : Duplex σ) (abstract : Duplex τ) : Prop :=
  ∀ side, Option.Rel Related (concrete side) (abstract side)

/-- Related ends may be replaced by related ends. -/
theorem Matches.update {duplex : Duplex σ} {queues : Duplex τ} (h : Matches Related duplex queues)
    (side : Side) {lane : Option σ} {queue : Option τ} (hside : Option.Rel Related lane queue) :
    Matches Related (Function.update duplex side lane) (Function.update queues side queue) := by
  intro other
  by_cases heq : other = side
  · subst heq
    simpa using hside
  · simpa [heq] using h other

/-- What stands at a side of both duplexes. -/
theorem Matches.side {duplex : Duplex σ} {queues : Duplex τ} (h : Matches Related duplex queues)
    (side : Side) : (duplex side = none ∧ queues side = none) ∨
      ∃ lane queue, duplex side = some lane ∧ queues side = some queue ∧ Related lane queue := by
  have hside := h side
  cases hlane : duplex side with
  | none =>
      cases hqueue : queues side with
      | none => exact Or.inl ⟨rfl, rfl⟩
      | some queue =>
          rw [hlane, hqueue] at hside
          cases hside
  | some lane =>
      rw [hlane] at hside
      cases hqueue : queues side with
      | none =>
          rw [hqueue] at hside
          cases hside
      | some queue =>
          rw [hqueue] at hside
          cases hside with
          | some hrelated => exact Or.inr ⟨lane, queue, rfl, rfl, hrelated⟩

/-- One call has one outcome, and the duplexes still match. -/
theorem step (h : Simulates concrete abstract Sent Related) {duplex : Duplex σ}
    {queues : Duplex τ} (hmatch : Matches Related duplex queues) (side : Side) (call : Call α)
    (hsent : ∀ message, call = .send message → Sent message) :
    (concrete.step duplex side call).2 = (abstract.step queues side call).2 ∧
      Matches Related (concrete.step duplex side call).1 (abstract.step queues side call).1 := by
  rcases hmatch.side side with ⟨hlane, hqueue⟩ | ⟨lane, queue, hlane, hqueue, hrelated⟩
  · -- the owner of the endpoint is gone
    cases call <;> simp only [Lane.step, hlane, hqueue] <;> exact ⟨trivial, hmatch⟩
  · cases call with
    | send message =>
        cases hencode : concrete.encode message with
        | error error =>
            simp only [Lane.step, hlane, hqueue, hencode, h.refused _ _ hencode]
            exact ⟨trivial, hmatch⟩
        | ok encoded =>
            obtain ⟨plain, hplain, hpush⟩ := h.accepted _ _ (hsent _ rfl) hencode
            rcases hmatch.side side.peer with
              ⟨hout, hother⟩ | ⟨outbound, other, hout, hother, hpeer⟩
            · simp only [Lane.step, hlane, hqueue, hencode, hplain, hout, hother, h.closed]
              exact ⟨trivial, hmatch⟩
            · simp only [Lane.step, hlane, hqueue, hencode, hplain, hout, hother]
              exact ⟨trivial, hmatch.update _ (.some (hpush _ _ hpeer))⟩
    | recv =>
        have hconnected : (duplex side.peer).isSome = (queues side.peer).isSome := by
          rcases hmatch.side side.peer with ⟨hout, hother⟩ | ⟨_, _, hout, hother, _⟩ <;>
            rw [hout, hother] <;> rfl
        obtain ⟨hresult, hleft⟩ := h.received (queues side.peer).isSome _ _ hrelated
        simp only [Lane.step, hlane, hqueue, hconnected, hresult]
        exact ⟨trivial, hmatch.update _ (.some hleft)⟩
    | drop =>
        simp only [Lane.step, hlane, hqueue]
        exact ⟨trivial, hmatch.update _ .none⟩

/-- Whatever the sides do in whatever order, the calls return the same. -/
theorem outcomes_eq (h : Simulates concrete abstract Sent Related) {duplex : Duplex σ}
    {queues : Duplex τ} (hmatch : Matches Related duplex queues)
    {calls : List (Side × Call α)}
    (hsent : ∀ side message, (side, .send message) ∈ calls → Sent message) :
    concrete.outcomes duplex calls = abstract.outcomes queues calls := by
  induction calls generalizing duplex queues with
  | nil => rfl
  | cons first calls ih =>
      obtain ⟨side, call⟩ := first
      obtain ⟨houtcome, hnext⟩ := h.step hmatch side call fun message hcall =>
        hsent side message (hcall ▸ List.mem_cons_self ..)
      rw [outcomes, outcomes, houtcome, ih hnext fun side message hmem =>
        hsent side message (List.mem_cons_of_mem _ hmem)]

/-- The new pairs of the two levels are related. -/
theorem pair_matches (h : Simulates concrete abstract Sent Related) :
    Matches Related concrete.pair abstract.pair :=
  fun _ => .some h.empty

end Simulates

end Lane

end LatentMesh.Lib
