import EntityQuery.Predicate.Basic

/-!
# Texts of predicates

Predicates are shown in the style of a query language, for diagnosis only.

Main results:

- Definition `Predicate.text`: the text of a predicate.
-/

namespace EntityQuery

/-- The text of a source: `root`, or `j` and the place of a join. -/
def Source.text : Source → String
  | root => "root"
  | join id => "j" ++ toString id

/-- The text of a field. -/
def FieldRef.text (f : FieldRef) : String :=
  f.source.text ++ "." ++ f.name

/-- The text of a test of a field. -/
def Test.text (field : String) : Test → String
  | compare comparison operand => field ++ " " ++ comparison.symbol ++ " " ++ operand.display
  | like pattern escape =>
    "LOWER(" ++ field ++ ") LIKE " ++ Value.quoted pattern ++
      (match escape with
      | none => ""
      | some c => " ESCAPE '" ++ c.toString ++ "'")
  | isNull => field ++ " IS NULL"
  | isNotNull => field ++ " IS NOT NULL"
  | isTrue => field ++ " IS TRUE"

namespace Predicate

/-- The texts of the parts of a group, joined by a word.  A group of one part is that
part. -/
def groupText (joiner empty : String) : List String → String
  | [] => empty
  | [single] => single
  | texts => "(" ++ (" " ++ joiner ++ " ").intercalate texts ++ ")"

mutual

/-- The text of a predicate. -/
def text : Predicate → String
  | const true => "TRUE"
  | const false => "FALSE"
  | all parts => groupText "AND" "TRUE" (textOfEach parts)
  | any parts => groupText "OR" "FALSE" (textOfEach parts)
  | not part => "NOT " ++ part.text
  | test field t => t.text field.text

/-- The texts of the parts of a group. -/
def textOfEach : List Predicate → List String
  | [] => []
  | part :: parts => part.text :: textOfEach parts

end

end Predicate

end EntityQuery
