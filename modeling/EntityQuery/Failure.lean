import EntityQuery.Config.Basic
import EntityQuery.Criteria.Validation
import EntityQuery.Criteria.Wire
import EntityQuery.Table

/-!
# Failures

What a caller of a service is told when a call fails: a class, the part that failed, a
message, and the faults behind it.  A storage that does not support an operator or a
value fails with one fixed message; the fault itself is a cause.  A message may end with
the words of a reader of texts, which are left out of a report.

Main results:

- Definitions `Failure.kind`, `Failure.origin`, `Failure.message`, `Failure.causes`.
- Definition `Failure.ownMessage`: the message without the words of a reader.
-/

namespace EntityQuery

/-- The kinds of failures. -/
inductive FailureClass where
  | illegalArgument
  | invalidValue
  | missingValue
  | unsupportedOperator
  | validation
deriving DecidableEq, Repr

/-- The name of a kind of failure. -/
def FailureClass.name : FailureClass → String
  | illegalArgument => "illegal_argument"
  | invalidValue => "invalid_value"
  | missingValue => "missing_value"
  | unsupportedOperator => "unsupported_operator"
  | validation => "validation"

/-- The parts that can fail. -/
inductive FailureOrigin where
  | config
  | executor
  | query
  | request
  | store
deriving DecidableEq, Repr

/-- The name of a part. -/
def FailureOrigin.name : FailureOrigin → String
  | config => "config"
  | executor => "executor"
  | query => "query"
  | request => "request"
  | store => "store"

/-- Why a call failed. -/
inductive Failure where
  | plain (kind : FailureClass) (origin : FailureOrigin) (message : String)
  | body (fault : BodyError)
  | request (fault : RequestError)
  | criterion (fault : CriterionError)
  | selection (fault : SelectionError)
  | config (fault : ConfigError)
deriving DecidableEq, Repr

namespace Failure

/-- The kind of a failure. -/
def kind : Failure → FailureClass
  | plain kind _ _ => kind
  | body (.unknownOperator _) => .unsupportedOperator
  | body .malformed => .validation
  | request _ => .validation
  | criterion (.missingValue _ _) => .missingValue
  | criterion (.invalidValue _ _) => .invalidValue
  | criterion (.invalidPath _) => .validation
  | criterion (.name _) => .validation
  | selection (.kind _) => .illegalArgument
  | selection (.sort _) => .validation
  | config _ => .validation

/-- The part that failed. -/
def origin : Failure → FailureOrigin
  | plain _ origin _ => origin
  | body _ => .request
  | request _ => .request
  | criterion _ => .query
  | selection (.kind _) => .executor
  | selection (.sort _) => .store
  | config _ => .config

/-- The text of the fault in a body. -/
def bodyText : BodyError → String
  | .unknownOperator token => "unsupported operator token '" ++ token ++ "'"
  | .malformed => "malformed filter request: "

/-- What the caller is told. -/
def message : Failure → String
  | plain _ _ message => message
  | body fault => bodyText fault
  | request fault => fault.message
  | criterion fault => fault.message
  | selection (.kind _) => "field type not support operator or value"
  | selection (.sort fault) => fault.message
  | config fault => fault.message

/-- The faults behind a failure, the nearest first. -/
def causes : Failure → List String
  | plain _ _ _ => []
  | body fault => [bodyText fault]
  | request fault => [fault.message]
  | criterion (.invalidValue field cause) =>
    [CriterionError.message (.invalidValue field cause), cause.message]
  | criterion fault => [fault.message]
  | selection fault => [fault.message]
  | config fault => [fault.message]

/-! ## Reports -/

/-- How a message begins that goes on with the words of a reader of texts, which are not
part of this library. -/
def readerOpenings : List String :=
  [bodyText .malformed, ConfigError.message .unreadable]

/-- The opening of a message that quotes a reader. -/
def quotedOpening? (message : String) : Option String :=
  readerOpenings.find? fun opening => opening.toList.isPrefixOf message.toList

/-- Whether the message quotes a reader. -/
def quotesReader (f : Failure) : Bool :=
  (quotedOpening? f.message).isSome

/-- The message up to the words of a reader. -/
def ownMessage (f : Failure) : String :=
  (quotedOpening? f.message).getD f.message

/-- Part, kind and message in one line. -/
def display (f : Failure) : String :=
  f.origin.name ++ ":" ++ f.kind.name ++ ": " ++ f.ownMessage

end Failure

end EntityQuery
