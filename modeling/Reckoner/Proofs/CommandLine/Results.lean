import Reckoner.Proofs.CommandLine.Batch
import Reckoner.Proofs.Number.RoundTrip

/-!
# Results as expressions

What is printed for a result is an expression again, and one with the same result if the result is
finite and has no sign (`SymbolTable.Built.evaluate_write`). Its text is then a row of digits with
at most a point among them (`Spells`), so it begins with a digit and no delimiter divides it: it is
one literal, and that is read as the double it was written for. A sign in front would be an operator.
-/

namespace Reckoner

/-- Neither a digit nor a point ends a word. -/
theorem Spells.isDelimiter {text : List Char} {x : ℚ} (h : Spells text x) :
    ∀ c ∈ text, Lexeme.isDelimiter c = false := by
  intro c hc
  rcases h.isDigit_or_eq_point c hc with hd | rfl
  · exact Lexeme.isDelimiter_of_isDigit hd
  · rfl

theorem Reads.exists_head {text : List Char} {x : ℚ} (h : Reads text x) :
    ∃ c ∈ text.head?, c.isDigit = true := by
  obtain ⟨d, rest, rfl, hd⟩ := h.head
  exact ⟨d, rfl, hd⟩

theorem kept_write (v : Float) : kept (Layout.plain.write v) = Layout.plain.chars v := by
  rw [kept, Layout.write, String.toList_ofList, List.filter_eq_self]
  intro c hc
  rw [(isBlank_of_mem_plain c hc).1]
  rfl

/-- A finite double without a sign is written as a row of digits. -/
theorem Layout.exists_spells_plain {v : Float} (finite : v.isFinite = true)
    (unsigned : v.toBits.toNat < Binary64.signWeight) :
    ∃ x, Spells (Layout.plain.chars v) x := by
  obtain ⟨m, e, hview⟩ := Binary64.exists_view_eq_finite finite unsigned
  obtain ⟨x, spells⟩ := exists_spells_magnitudeText m e
  rw [Layout.chars, hview]
  exact ⟨x, spells⟩

namespace SymbolTable

open CommandLine (reportOutput)

theorem scan_plain (table : SymbolTable) {v : Float} (finite : v.isFinite = true)
    (unsigned : v.toBits.toNat < Binary64.signWeight) :
    table.scan (Layout.plain.chars v) = [.ok (.literal v)] := by
  obtain ⟨x, spells⟩ := Layout.exists_spells_plain finite unsigned
  exact scan_number spells.reads.exists_head spells.isDelimiter (readFloat?_chars .plain v)

namespace Built

variable {table : SymbolTable} (built : table.Built) (A : Arithmetic Float) {v : Float}

include built

/-- A literal by itself is its value. -/
theorem evaluate_of_scan_literal {expression : String}
    (h : table.scan (kept expression) = [.ok (.literal v)]) :
    table.evaluate A expression = .ok v := by
  have hne : kept expression ≠ [] := by
    intro hnil
    rw [hnil] at h
    cases h
  rw [built.evaluate_eq, if_neg hne, h]
  rfl

/-- **Printed results can be fed back**: the text of a finite double without a sign has that double
for its value, whatever the table, and so has the line that is printed for it. -/
theorem evaluate_write (finite : v.isFinite = true)
    (unsigned : v.toBits.toNat < Binary64.signWeight) :
    table.evaluate A (Layout.plain.write v) = .ok v ∧
    ∀ (verbosity : Nat) (report : Report), report.outcome = .ok v →
      (reportOutput verbosity report).stdout = Layout.plain.write v ++ "\n" ∧
      table.evaluate A (reportOutput verbosity report).stdout = .ok v := by
  have hscan := table.scan_plain finite unsigned
  rw [← kept_write] at hscan
  refine ⟨built.evaluate_of_scan_literal A hscan, fun verbosity report houtcome => ?_⟩
  have hline : (reportOutput verbosity report).stdout = Layout.plain.write v ++ "\n" := by
    rw [CommandLine.stdout_reportOutput, houtcome, CommandLine.resultLine]
  have hnewline : kept "\n" = [] := rfl
  refine ⟨hline, built.evaluate_of_scan_literal A ?_⟩
  rw [hline, kept_append, hnewline, List.append_nil, hscan]

end Built

/-- The largest double, which has 309 digits, and the least positive one, which has 324 behind the
point. -/
theorem evaluate_write_extremes :
    standard.evaluate .ieee (Layout.plain.write (Float.ofBits 0x7FEFFFFFFFFFFFFF)) =
      .ok (Float.ofBits 0x7FEFFFFFFFFFFFFF) ∧
    standard.evaluate .ieee (Layout.plain.write (Float.ofBits 1)) = .ok (Float.ofBits 1) := by
  constructor
  · exact (Built.standard.evaluate_write .ieee
      ((Binary64.isFinite_iff _).2 (by decide)) (by decide)).1
  · exact (Built.standard.evaluate_write .ieee
      ((Binary64.isFinite_iff _).2 (by decide)) (by decide)).1

end SymbolTable

end Reckoner
