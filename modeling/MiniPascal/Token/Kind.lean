import MiniPascal.Token.Keyword
import MiniPascal.Token.Operator

/-!
# Kinds of tokens
-/

namespace MiniPascal

/-- What sort of token a lexeme is. -/
inductive TokenKind where
  | identifier
  | numConst
  | realConst
  | charConst
  | boolConst
  | operator (op : Operator)
  | keyword (word : Keyword)
  deriving DecidableEq

namespace TokenKind

/-- The name of a kind. -/
def name : TokenKind → String
  | .identifier => "Identifier"
  | .numConst => "NumConst"
  | .realConst => "RealConst"
  | .charConst => "CharConst"
  | .boolConst => "BoolConst"
  | .operator op => op.name
  | .keyword word => word.name

/-- Whether tokens of a kind are reserved words. -/
def isReserved : TokenKind → Bool
  | .keyword _ => true
  | _ => false

/-- The kinds whose tokens carry a value of their own. -/
def valued : List TokenKind :=
  [.identifier, .numConst, .realConst, .charConst, .boolConst]

/-- All kinds: first those with a value, then operators, then keywords. -/
def all : List TokenKind :=
  valued ++ Operator.all.map .operator ++ Keyword.all.map .keyword

/-- Every kind is listed. -/
theorem mem_all (kind : TokenKind) : kind ∈ all := by
  cases kind with
  | operator op => exact List.mem_append_left _ (List.mem_append_right _
      (List.mem_map_of_mem (Operator.mem_all op)))
  | keyword word => exact List.mem_append_right _ (List.mem_map_of_mem (Keyword.mem_all word))
  | _ => decide

/-- The kind with a given name. -/
def ofName? (name : String) : Option TokenKind :=
  all.find? fun kind => kind.name == name

end TokenKind

end MiniPascal
