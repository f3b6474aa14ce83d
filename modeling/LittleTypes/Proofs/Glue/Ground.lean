import LittleTypes.Proofs.Glue.Denotes

/-!
# The ground of a gluing

Next to the sides of a logic there is one more, for values that may be unknown, in the model that
has unknown values.  Before the sides are glued to each other something has to be known of them:
that the components are types and elements, that the new side can be read back, and what can only be
said of whole types and elements and not of their parts.  All this is the ground on which they are
glued.
-/

namespace LittleTypes.Idealized

/-- All sides but the new one. -/
abbrev others {I α : Type} (v : Option I → α) : I → α := fun i ↦ v (some i)

/-- Which sides have unknown values: the new one does. -/
def Logic.glueModel (L : Logic) : Option L.Index → Prop
  | none => True
  | some i => L.model i

/-- What is known of types and elements before they are glued, and how normal forms are spelled. -/
structure Ground (L : Logic) where
  /-- Whether all elements of the empty type are spelled alike. -/
  blurs : Bool
  /-- Types of a size. -/
  type : Size → GlueWorld L → (Option L.Index → Value) → Prop
  /-- Elements of a type. -/
  elem : GlueWorld L → (Option L.Index → Value) → (Option L.Index → Value) → Prop

namespace Ground

variable {L : Logic}

/-- The ground is a logic itself. -/
abbrev logic (K : Ground L) : Logic where
  Index := Option L.Index
  World := GlueWorld L
  le := GlueWorld.le
  model := L.glueModel
  type := K.type
  elem := K.elem
  preType := K.type
  preElem := K.elem

/-- What is required of a ground. -/
structure Good (K : Ground L) : Prop extends K.logic.Sound where
  base : L.Sound
  typeOthers : ∀ {s W X}, K.type s W X → L.type s W.base (others X)
  elemOthers : ∀ {W X v}, K.elem W X v → L.elem W.base (others X) (others v)
  readsType : ∀ {s W X}, K.type s W X →
    ∃ N, Reads W.size (.type (X none)) N ∧ AssuresType K.blurs s W N (others X)
  reads : ∀ {W X v}, K.elem W X v →
    ∃ N, Reads W.size (.value (X none) (v none)) N ∧ Assures K.blurs W N (others X) (others v)
  var : ∀ {W X v k}, K.type .large W X → W.values[k]? = some (others v) →
    Looks (v none) (.ofLevel k (X none)) → L.elem W.base (others X) (others v) → K.elem W X v

end Ground

end LittleTypes.Idealized
