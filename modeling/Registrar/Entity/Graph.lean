import Registrar.Entity.Basic

/-!
# The class graph

The entities of a run by name, with the parent links between them. A class is derived from another
when the other is reached through parent links; a parent may be known by name only. The role that an
editor gives a class follows from the root it is derived from.
-/

namespace Registrar

/-- How an editor offers a class. -/
inductive Role
  | none
  /-- To be placed in a world. -/
  | spawnable
  /-- To be attached to an actor. -/
  | component
deriving DecidableEq, Repr

namespace Role

/-- The macro that marks a class for the editor. -/
def markMacro? : Role → Option Text
  | none => Option.none
  | spawnable => some "MARK_AS_SPAWNABLE"
  | component => some "MARK_AS_COMPONENT"

end Role

/-- The entities of a run, each under its own name. -/
structure ClassGraph where
  classes : Dict Entity
  named : ∀ name e, classes.get? name = some e → e.name = name
deriving DecidableEq

namespace ClassGraph

/-- The graph without entities. -/
def empty : ClassGraph where
  classes := Dict.empty
  named := by simp

/-- The graph with an entity, in place of one with the same name. -/
def insert (g : ClassGraph) (e : Entity) : ClassGraph where
  classes := g.classes.insert e.name e
  named := by
    intro name found h
    rw [Dict.get?_insert] at h
    split at h
    · next heq =>
      cases h
      exact heq
    · exact g.named name found h

/-- The entity with a name. -/
def get? (g : ClassGraph) (name : Text) : Option Entity :=
  g.classes.get? name

/-- The entities, by name. -/
def entities (g : ClassGraph) : List Entity :=
  g.classes.entries.map Prod.snd

/-- The names of the classes that a walk through parent links has not passed. -/
def unpassed (g : ClassGraph) (passed : List Text) : List Text :=
  g.classes.keys.filter fun name => !passed.contains name

/-- A walk that comes to another class has fewer before it. -/
theorem length_unpassed_cons_lt {g : ClassGraph} {passed : List Text} {name : Text} {e : Entity}
    (h : g.get? name = some e) (hnew : name ∉ passed) :
    (g.unpassed (name :: passed)).length < (g.unpassed passed).length := by
  have hrest : g.unpassed (name :: passed) = (g.unpassed passed).filter (· ≠ name) := by
    simp [unpassed, List.filter_filter]
  have hmem : name ∈ g.unpassed passed :=
    List.mem_filter.mpr
      ⟨List.mem_map_of_mem (Dict.mem_entries_of_get? h), by simp [hnew]⟩
  rw [hrest, List.length_filter_lt_length_iff_exists]
  exact ⟨name, hmem, by simp⟩

/-- Parent links are followed from a class in search of `base`. The walk ends where a class has no
parent, where the parent is in no header, and where it was passed before. -/
def climb (g : ClassGraph) (base : Text) (passed : List Text) (e : Entity) : Bool :=
  if e.parent = [] then false
  else if e.parent = base then true
  else if _hpassed : e.parent ∈ passed then false
  else
    match _hparent : g.get? e.parent with
    | none => false
    | some next => g.climb base (e.parent :: passed) next
termination_by (g.unpassed passed).length
decreasing_by exact length_unpassed_cons_lt _hparent _hpassed

/-- The class is the base, or reaches it through parent links. -/
def derivesFrom (g : ClassGraph) (name base : Text) : Bool :=
  if name = base then true
  else
    match g.get? name with
    | none => false
    | some e => g.climb base [name] e

/-- The role of an entity. The roots, abstract classes and classes that must not be spawned have
none. -/
def roleOf (g : ClassGraph) (e : Entity) : Role :=
  if e.isAbstract || e.isNotSpawnable then .none
  else if e.name = Entity.actorRoot ∨ e.name = Entity.componentRoot then .none
  else if g.derivesFrom e.name Entity.actorRoot then .spawnable
  else if g.derivesFrom e.name Entity.componentRoot then .component
  else .none

/-- The role of every entity, by name. -/
def roles (g : ClassGraph) : List (Text × Role) :=
  g.entities.map fun e => (e.name, g.roleOf e)

end ClassGraph

end Registrar
