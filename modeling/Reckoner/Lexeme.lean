import Reckoner.Blank
import Reckoner.Error

/-!
# Lexemes

A text falls apart into lexemes: each of `+ - * / , ( )` is one by itself, and the characters
between two of them make a word, whatever they are. Nothing is lost, so the text can be put together
again. Before an expression is split it is prepared: its blanks are removed, and one pair of
parentheses is put around it, so that the last of them settles whatever waits.
-/

namespace Reckoner

inductive Lexeme where
  | delimiter (c : Char)
  | word (chars : List Char)
deriving DecidableEq

namespace Lexeme

/-- The characters that end a word. -/
def delimiters : List Char := ['+', '-', '*', '/', ',', '(', ')']

/-- Whether a character is a lexeme by itself. -/
def isDelimiter (c : Char) : Bool :=
  delimiters.contains c

def chars : Lexeme → List Char
  | delimiter c => [c]
  | word chars => chars

def text (lexeme : Lexeme) : String :=
  String.ofList lexeme.chars

/-- Puts a character in front of lexemes. It joins a word that follows, unless it is a delimiter. -/
def consChar (c : Char) (lexemes : List Lexeme) : List Lexeme :=
  if isDelimiter c then delimiter c :: lexemes
  else match lexemes with
    | word chars :: rest => word (c :: chars) :: rest
    | _ => word [c] :: lexemes

def split (text : List Char) : List Lexeme :=
  text.foldr consChar []

end Lexeme

/-- The text of an expression that is split into lexemes: without blanks, in one pair of
parentheses. -/
def prepare (expression : String) : Except EvalError String :=
  let kept := expression.toList.filter fun c => !isBlank c
  if kept.isEmpty then .error .emptyExpression
  else .ok (String.ofList ('(' :: kept ++ [')']))

end Reckoner
