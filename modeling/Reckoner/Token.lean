import Reckoner.Number.Numeral
import Reckoner.SymbolTable

/-!
# Tokens

A lexeme becomes a symbol by its first character alone: with a digit it must be a numeral
throughout, and otherwise it must be in the table. So `.5` is no number, and no name can hide one.
-/

namespace Reckoner

namespace SymbolTable

def classify (table : SymbolTable) (lexeme : Lexeme) : Except EvalError (Symbol Float) :=
  let found :=
    if lexeme.chars.head?.any Char.isDigit then (readFloat? lexeme.chars).map Symbol.literal
    else table.lookup lexeme.text
  match found with
  | some symbol => .ok symbol
  | none => .error (.unknownSymbol lexeme.text)

/-- The tokens of a text, each a symbol or the error that it is none. -/
def tokens (table : SymbolTable) (source : String) : List (Except EvalError (Symbol Float)) :=
  (Lexeme.split source.toList).map table.classify

end SymbolTable

end Reckoner
