import Reckoner.Blank

/-!
# Scripts

A script has one expression a line. Blanks around it do not count, and neither do empty lines and
those that start with `#`.
-/

namespace Reckoner.CommandLine

/-- The lines of a text: what stands between its line feeds. -/
def textLines : List Char → List (List Char)
  | [] => [[]]
  | c :: rest =>
    if c = '\n' then [] :: textLines rest
    else match textLines rest with
      | line :: lines => (c :: line) :: lines
      | [] => [[c]]

theorem textLines_append {line : List Char} (h : '\n' ∉ line) (rest : List Char) :
    textLines (line ++ '\n' :: rest) = line :: textLines rest := by
  induction line with
  | nil => rfl
  | cons c line ih =>
    obtain ⟨hc, hline⟩ := not_or.1 (mt List.mem_cons.2 h)
    rw [List.cons_append, textLines, if_neg (Ne.symm hc), ih hline]

/-- Whether a line without the blanks around it is an expression. -/
def isExpressionLine : List Char → Bool
  | [] => false
  | c :: _ => c ≠ '#'

def scriptExpressions (script : String) : List String :=
  (((textLines script.toList).map trimBlanks).filter isExpressionLine).map String.ofList

end Reckoner.CommandLine
