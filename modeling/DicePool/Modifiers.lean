import DicePool.Modifier

/-!
# The modifiers of a roll

At most one modifier of each kind. Inserting replaces the one of the same kind and leaves all
others; the listing follows the order of the kinds.
-/

namespace DicePool

/-- The modifiers of a roll, at most one of each kind. -/
structure Modifiers where
  boost? : Option Boost := none
  adjust? : Option Int := none
  success? : Option Condition := none
  keep? : Option Selection := none
  drop? : Option Selection := none
  explode? : Option Explosion := none
  reroll? : Option Reroll := none
  fail? : Option Condition := none
  naturalSuccess? : Option Condition := none
  naturalFail? : Option Condition := none
  totalCheck? : Option Condition := none
  deriving Repr, DecidableEq

namespace Modifiers

/-- No modifiers. -/
def empty : Modifiers := {}

/-- The modifier of a kind, if there is one. -/
def get? (m : Modifiers) : ModifierKind → Option Modifier
  | .boost => m.boost?.map .boost
  | .adjust => m.adjust?.map .adjust
  | .success => m.success?.map .success
  | .keep => m.keep?.map .keep
  | .drop => m.drop?.map .drop
  | .explode => m.explode?.map .explode
  | .reroll => m.reroll?.map .reroll
  | .fail => m.fail?.map .fail
  | .naturalSuccess => m.naturalSuccess?.map .naturalSuccess
  | .naturalFail => m.naturalFail?.map .naturalFail
  | .totalCheck => m.totalCheck?.map .totalCheck

/-- Puts a modifier in the place of its kind. -/
def insert (m : Modifiers) : Modifier → Modifiers
  | .boost b => { m with boost? := some b }
  | .adjust a => { m with adjust? := some a }
  | .success c => { m with success? := some c }
  | .keep s => { m with keep? := some s }
  | .drop s => { m with drop? := some s }
  | .explode e => { m with explode? := some e }
  | .reroll r => { m with reroll? := some r }
  | .fail c => { m with fail? := some c }
  | .naturalSuccess c => { m with naturalSuccess? := some c }
  | .naturalFail c => { m with naturalFail? := some c }
  | .totalCheck c => { m with totalCheck? := some c }

/-- The modifiers in the order of their kinds (`iter`). -/
def toList (m : Modifiers) : List Modifier := ModifierKind.all.filterMap m.get?

/-- The number of modifiers (`len`). -/
def size (m : Modifiers) : Nat := m.toList.length

/-- Whether there is a modifier of a kind. -/
def contains (m : Modifiers) (k : ModifierKind) : Bool := (m.get? k).isSome

/-- The boost, or the one that adds zero (`boost_or_identity`). -/
def boost (m : Modifiers) : Boost := m.boost?.getD Boost.identity

/-- The amount added to the total. -/
def adjustment (m : Modifiers) : Int := m.adjust?.getD 0

/-- Whether some dice are kept or dropped (`has_pool`). -/
def selects (m : Modifiers) : Bool := m.keep?.isSome || m.drop?.isSome

/-- An inserted modifier is found under its own kind. -/
theorem get?_insert_self (m : Modifiers) (x : Modifier) : (m.insert x).get? x.kind = some x := by
  cases x <;> rfl

/-- An inserted modifier leaves all other kinds alone. -/
theorem get?_insert_of_ne (m : Modifiers) (x : Modifier) {k : ModifierKind} (h : k ≠ x.kind) :
    (m.insert x).get? k = m.get? k := by
  cases x <;> cases k <;> first | rfl | exact absurd rfl h

/-- A modifier is stored under its own kind. -/
theorem kind_of_get? {m : Modifiers} {k : ModifierKind} {x : Modifier} (h : m.get? k = some x) :
    x.kind = k := by
  cases k <;> simp only [get?, Option.map_eq_some_iff] at h <;> obtain ⟨_, _, rfl⟩ := h <;> rfl

/-- The listed modifiers are those that are found under their kinds. -/
theorem mem_toList_iff {m : Modifiers} {x : Modifier} : x ∈ m.toList ↔ m.get? x.kind = some x := by
  constructor
  · intro hx
    obtain ⟨k, _, hk⟩ := List.mem_filterMap.mp hx
    rwa [kind_of_get? hk]
  · intro hx
    exact List.mem_filterMap.mpr ⟨x.kind, ModifierKind.mem_all _, hx⟩

end Modifiers
end DicePool
