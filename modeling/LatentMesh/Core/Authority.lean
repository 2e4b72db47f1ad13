import Mathlib.Order.Basic
import Mathlib.Order.Lattice
import LatentMesh.Core.LatentFrame

/-!
# The authority ladder

The derived order of `Authority`: a rung is below another when its `rank` is.
-/

namespace LatentMesh.Core

namespace Authority

/-- The discriminant of an authority. -/
def rank : Authority → Nat
  | observeOnly => 0
  | contextInject => 1
  | latentPrefix => 2
  | actionInfluencing => 3

/-- The discriminant tells the authority. -/
theorem rank_injective : Function.Injective rank := by
  intro first second h
  cases first <;> cases second <;> first | rfl | cases h

instance : LinearOrder Authority := LinearOrder.lift' rank rank_injective

/-- Authorities are ordered by their discriminants. -/
theorem le_iff_rank_le {first second : Authority} : first ≤ second ↔ first.rank ≤ second.rank :=
  Iff.rfl

/-- The `Debug` text. -/
def debug : Authority → String
  | observeOnly => "ObserveOnly"
  | contextInject => "ContextInject"
  | latentPrefix => "LatentPrefix"
  | actionInfluencing => "ActionInfluencing"

end Authority

end LatentMesh.Core
