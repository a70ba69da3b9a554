import EntityQuery.Criteria.Request

/-!
# Configuration

The settings of a query service: the largest page, how criteria are combined when a
request does not say so, and the character that escapes wildcards in patterns.

Main results:

- Theorem `validate_eq_ok_iff`: a configuration is accepted exactly when pages can be
  non-empty and the escape character is no wildcard.
-/

namespace EntityQuery

/-- The version of the query format. -/
def version : String := "0.4.0"

/-- The page size of a request that does not limit its page. -/
def largestPageSize : UInt32 := 2147483647

/-- The character that escapes wildcards unless another one is configured. -/
def defaultEscape : Char := '\\'

/-- The settings of a query service. -/
structure Config where
  maxPageSize : UInt32 := largestPageSize
  defaultOperator : GroupOperator := .and
  escape : Char := defaultEscape
deriving DecidableEq

/-- Why a configuration is refused. -/
inductive ConfigError where
  | unreadable
  | wildcardEscape (escape : Char)
  | zeroPageSize
deriving DecidableEq, Repr

namespace ConfigError

/-- What the fault is called. -/
def message : ConfigError → String
  | unreadable => "invalid filter config: "
  | wildcardEscape escape => "escape_char '" ++ escape.toString ++ "' is a LIKE wildcard"
  | zeroPageSize => "max_page_size must be greater than zero"

end ConfigError

namespace Config

/-- Refuse a configuration without room on a page or with a wildcard as escape. -/
def validate (c : Config) : Except ConfigError Unit :=
  if c.maxPageSize = 0 then .error .zeroPageSize
  else if c.escape = '%' ∨ c.escape = '_' then .error (.wildcardEscape c.escape)
  else .ok ()

/-- Exactly the configurations with a positive page size and an escape character that
is no wildcard are accepted. -/
theorem validate_eq_ok_iff {c : Config} :
    c.validate = .ok () ↔ c.maxPageSize ≠ 0 ∧ c.escape ≠ '%' ∧ c.escape ≠ '_' := by
  unfold validate
  by_cases h : c.maxPageSize = 0
  · simp [h]
  · by_cases he : c.escape = '%' ∨ c.escape = '_'
    · simp only [h, he, if_true, if_false, reduceCtorEq, false_iff]
      grind
    · simp only [h, he, if_false, ne_eq, not_false_eq_true, true_and, true_iff]
      grind

end Config

end EntityQuery
