/-!
# Schemas

A schema describes the entities that rows belong to: their fields, each of a kind,
and their relations to other entities.  Entities are named by a type of the user's
choice, so relations may lead back to entities on the way.

Main results:

- Theorems `mem_of_field?` and `name_of_field?`: a look-up finds a declared field of
  the name sought.
- Theorems `mem_of_relation?` and `name_of_relation?`: the same for relations.
-/

namespace EntityQuery

/-! ## Fields -/

/-- An enumeration: a name and its members in order. -/
structure EnumType where
  name : String
  variants : List String
deriving DecidableEq, Repr

namespace EnumType

/-- The place of the first member of a name. -/
def ordinalOf? (e : EnumType) (name : String) : Option Nat :=
  e.variants.findIdx? (· == name)

/-- The name of the member at a place. -/
def variantAt? (e : EnumType) (ordinal : Nat) : Option String :=
  e.variants[ordinal]?

end EnumType

/-- The kind of a field's values. -/
inductive FieldKind where
  | bool
  | enum (type : EnumType)
  | float
  | int
  | text
  | timestamp
  | uuid
deriving DecidableEq, Repr

namespace FieldKind

/-- Whether the values of a kind can be told to be smaller or larger in a criterion. -/
def isOrderable : FieldKind → Bool
  | bool => false
  | _ => true

/-- The name of a kind without its enumeration. -/
def label : FieldKind → String
  | bool => "bool"
  | enum _ => "enum"
  | float => "float"
  | int => "int"
  | text => "text"
  | timestamp => "timestamp"
  | uuid => "uuid"

/-- The name of a kind, with the enumeration's name. -/
def display : FieldKind → String
  | enum type => "enum " ++ type.name
  | kind => kind.label

end FieldKind

/-- A named field of an entity. -/
structure Field where
  name : String
  kind : FieldKind
deriving DecidableEq, Repr

/-! ## Relations and entities -/

/-- How many rows a row can be related to. -/
inductive Cardinality where
  | one
  | many
deriving DecidableEq, Repr

/-- A named relation to an entity. -/
structure Relation (E : Type) where
  name : String
  target : E
  cardinality : Cardinality
deriving DecidableEq, Repr

/-- The description of an entity.  The path names it in reports, the short name in
messages. -/
structure Entity (E : Type) where
  path : String
  name : String
  primaryKey : String
  fields : List Field
  relations : List (Relation E)

namespace Entity

variable {E : Type}

/-- The first declared field of a name. -/
def field? (e : Entity E) (name : String) : Option Field :=
  e.fields.find? (·.name == name)

/-- The first declared relation of a name. -/
def relation? (e : Entity E) (name : String) : Option (Relation E) :=
  e.relations.find? (·.name == name)

/-- A field that is found is declared. -/
theorem mem_of_field? {e : Entity E} {name : String} {f : Field} (h : e.field? name = some f) :
    f ∈ e.fields :=
  List.mem_of_find?_eq_some h

/-- A field that is found has the name sought. -/
theorem name_of_field? {e : Entity E} {name : String} {f : Field} (h : e.field? name = some f) :
    f.name = name := by
  simpa using List.find?_some h

/-- A relation that is found is declared. -/
theorem mem_of_relation? {e : Entity E} {name : String} {r : Relation E}
    (h : e.relation? name = some r) : r ∈ e.relations :=
  List.mem_of_find?_eq_some h

/-- A relation that is found has the name sought. -/
theorem name_of_relation? {e : Entity E} {name : String} {r : Relation E}
    (h : e.relation? name = some r) : r.name = name := by
  simpa using List.find?_some h

end Entity

/-- The entities of a data model. -/
structure Schema (E : Type) where
  entity : E → Entity E

namespace Schema

variable {E : Type}

/-- Relations are the same when names, cardinalities and the paths of the targets are. -/
def sameRelation (schema : Schema E) (a b : Relation E) : Bool :=
  a.name == b.name && a.cardinality == b.cardinality &&
    (schema.entity a.target).path == (schema.entity b.target).path

/-- The text that describes a relation for diagnosis. -/
def relationText (schema : Schema E) (r : Relation E) : String :=
  let cardinality := match r.cardinality with
    | .one => "One"
    | .many => "Many"
  "RelationModel \x7b name: \"" ++ r.name ++ "\", target: \"" ++ (schema.entity r.target).path ++
    "\", cardinality: " ++ cardinality ++ " \x7d"

end Schema

end EntityQuery
