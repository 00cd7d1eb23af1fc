import Reckoner.CommandLine.Arguments
import Reckoner.Ieee
import Reckoner.CommandLine.Batch
import Reckoner.Proofs.Text.Trimming

/-!
# The expressions of a script

A line feed anywhere in a script cuts it into two scripts, whatever stands on either side
(`expressionsOf_append`). What else may belong to the end of a line is trimmed off
(`scriptExpressions_eq_endedLines`). So a script that is joined from texts has the expressions of
these, one after the other (`scriptExpressions_intercalate`), and it is enough to know one line: a
line that is blank or a comment has none, any other has its trimmed text. The lines that come out
(`IsItem`) are those that come out as they are (`scriptExpressions_item`).

A request with a script asks for the expressions among its arguments and then for those of the
script (`requestedExpressions_script`), which could as well be arguments (`execute_script`).
-/

namespace Reckoner

namespace CommandLine

/-! ## Lines -/

theorem textLines_ne_nil (text : List Char) : textLines text ≠ [] := by
  cases text with
  | nil => exact List.cons_ne_nil _ _
  | cons c text =>
    rw [textLines]
    split
    · exact List.cons_ne_nil _ _
    · split <;> exact List.cons_ne_nil _ _

theorem textLines_cons {c : Char} (hc : c ≠ '\n') {text line : List Char}
    {lines : List (List Char)} (h : textLines text = line :: lines) :
    textLines (c :: text) = (c :: line) :: lines := by
  rw [textLines, if_neg hc, h]

theorem textLines_append_newline (front back : List Char) :
    textLines (front ++ '\n' :: back) = textLines front ++ textLines back := by
  induction front with
  | nil => rfl
  | cons c front ih =>
    by_cases hc : c = '\n'
    · subst hc
      exact congrArg ([] :: ·) ih
    · obtain ⟨line, lines, h⟩ := List.exists_cons_of_ne_nil (textLines_ne_nil front)
      rw [h, List.cons_append] at ih
      rw [List.cons_append, textLines_cons hc ih, textLines_cons hc h, List.cons_append]

theorem textLines_of_not_mem {line : List Char} (h : '\n' ∉ line) : textLines line = [line] := by
  induction line with
  | nil => rfl
  | cons c line ih =>
    obtain ⟨hc, hline⟩ := not_or.1 (mt List.mem_cons.2 h)
    exact textLines_cons (Ne.symm hc) (ih hline)

theorem newline_not_mem_of_mem_textLines {text : List Char} :
    ∀ line ∈ textLines text, '\n' ∉ line := by
  induction text with
  | nil => simp [textLines]
  | cons c text ih =>
    by_cases hc : c = '\n'
    · subst hc
      exact List.forall_mem_cons.2 ⟨List.not_mem_nil, ih⟩
    · obtain ⟨line, lines, h⟩ := List.exists_cons_of_ne_nil (textLines_ne_nil text)
      rw [h] at ih
      rw [textLines_cons hc h]
      obtain ⟨head, tail⟩ := List.forall_mem_cons.1 ih
      exact List.forall_mem_cons.2 ⟨by simp [head, Ne.symm hc], tail⟩

/-! ## Scripts in parts -/

/-- The expressions of a script, given by its characters. -/
def expressionsOf (text : List Char) : List String :=
  (((textLines text).map trimBlanks).filter isExpressionLine).map String.ofList

theorem scriptExpressions_eq (script : String) :
    scriptExpressions script = expressionsOf script.toList :=
  rfl

theorem expressionsOf_append (front back : List Char) :
    expressionsOf (front ++ '\n' :: back) = expressionsOf front ++ expressionsOf back := by
  rw [expressionsOf, textLines_append_newline, List.map_append, List.filter_append, List.map_append]
  rfl

theorem scriptExpressions_append (front back : String) :
    scriptExpressions (front ++ "\n" ++ back) =
      scriptExpressions front ++ scriptExpressions back := by
  have text : (front ++ "\n" ++ back).toList = front.toList ++ '\n' :: back.toList := by
    rw [String.toList_append, String.toList_append, List.append_assoc]
    rfl
  rw [scriptExpressions_eq, text, expressionsOf_append]
  rfl

/-- **A script that is joined from texts** has their expressions. -/
theorem scriptExpressions_intercalate (texts : List String) :
    scriptExpressions ("\n".intercalate texts) = texts.flatMap scriptExpressions := by
  induction texts with
  | nil => rfl
  | cons text texts ih =>
    cases texts with
    | nil => rw [String.intercalate_singleton, List.flatMap_singleton]
    | cons next texts =>
      rw [String.intercalate_cons_cons, scriptExpressions_append, ih]
      exact List.flatMap_cons.symm

/-! ## Line ends -/

/-- A line without the carriage return that belongs to its end. -/
def withoutReturn (line : List Char) : List Char :=
  if line.getLast? = some '\r' then line.dropLast else line

/-- The lines of a text, each of them ended by a line feed, with a carriage return in front of it or
not. What stands behind the last end is a line if it is anything. -/
def endedLines (text : List Char) : List (List Char) :=
  (textLines text).dropLast.map withoutReturn ++
    ((textLines text).getLast?.filter (· ≠ [])).toList

theorem trimBlanks_withoutReturn (line : List Char) :
    trimBlanks (withoutReturn line) = trimBlanks line := by
  unfold withoutReturn
  split
  · next h =>
    obtain ⟨front, rfl⟩ := List.getLast?_eq_some_iff.1 h
    rw [List.dropLast_concat, trimBlanks_concat rfl]
  · rfl

/-- It makes no difference how lines end, nor whether the last one does. -/
theorem scriptExpressions_eq_endedLines (script : String) :
    scriptExpressions script =
      (((endedLines script.toList).map trimBlanks).filter isExpressionLine).map String.ofList := by
  obtain ⟨front, last, hlines⟩ :=
    (List.eq_nil_or_concat (textLines script.toList)).resolve_left (textLines_ne_nil _)
  have trimmed : (front.map withoutReturn).map trimBlanks = front.map trimBlanks := by
    rw [List.map_map]
    exact List.map_congr_left fun line _ => trimBlanks_withoutReturn line
  have behind : (((some last).filter (· ≠ [])).toList.map trimBlanks).filter isExpressionLine =
      ([last].map trimBlanks).filter isExpressionLine := by
    cases last <;> rfl
  rw [scriptExpressions_eq, expressionsOf, endedLines, hlines, List.concat_eq_append,
    List.dropLast_concat, List.getLast?_concat, List.map_append, List.map_append,
    List.filter_append, List.filter_append, trimmed, behind]

/-! ## One line -/

theorem expressionsOf_line {line : List Char} (h : '\n' ∉ line) :
    expressionsOf line =
      if isExpressionLine (trimBlanks line) then [String.ofList (trimBlanks line)] else [] := by
  rw [expressionsOf, textLines_of_not_mem h]
  cases hline : isExpressionLine (trimBlanks line) <;> simp [hline]

theorem isExpressionLine_iff {line : List Char} :
    isExpressionLine line = true ↔ line ≠ [] ∧ ∀ c ∈ line.head?, c ≠ '#' := by
  cases line <;> simp [isExpressionLine]

/-- A line that is blank or whose first character that is not blank is `#`. -/
structure IsIdle (line : List Char) : Prop where
  newline : '\n' ∉ line
  comment : ∀ c ∈ line.find? fun c => !isBlank c, c = '#'

/-- A text that a script can have for an expression. -/
structure IsItem (item : List Char) : Prop where
  ne_nil : item ≠ []
  trimmed : IsTrimmed item
  head : ∀ c ∈ item.head?, c ≠ '#'
  newline : '\n' ∉ item

theorem isItem_singleton {c : Char} (hblank : isBlank c = false) (hcomment : c ≠ '#') :
    IsItem [c] := by
  refine ⟨List.cons_ne_nil _ _, ⟨?_, ?_⟩, ?_, ?_⟩
  · rintro d ⟨⟩
    exact hblank
  · rintro d ⟨⟩
    exact hblank
  · rintro d ⟨⟩
    exact hcomment
  · intro hmem
    cases List.mem_singleton.1 hmem
    cases hblank

theorem scriptExpressions_idle {line : String} (h : IsIdle line.toList) :
    scriptExpressions line = [] := by
  rw [scriptExpressions_eq, expressionsOf_line h.newline, if_neg]
  rw [isExpressionLine_iff]
  rintro ⟨hne, hhead⟩
  obtain ⟨c, rest, hcons⟩ := List.exists_cons_of_ne_nil hne
  have first : (trimBlanks line.toList).head? = some c := by
    rw [hcons]
    rfl
  exact hhead c first (h.comment c (head?_trimBlanks line.toList ▸ first))

theorem scriptExpressions_item {item : String} (h : IsItem item.toList) :
    scriptExpressions item = [item] := by
  rw [scriptExpressions_eq, expressionsOf_line h.newline, trimBlanks_eq_self h.trimmed,
    if_pos (isExpressionLine_iff.2 ⟨h.ne_nil, h.head⟩), String.ofList_toList]

/-- **Every expression of a script is an item.** -/
theorem isItem_of_mem {script item : String} (h : item ∈ scriptExpressions script) :
    IsItem item.toList := by
  obtain ⟨text, hmem, rfl⟩ := List.mem_map.1 h
  obtain ⟨hmem, hexpression⟩ := List.mem_filter.1 hmem
  obtain ⟨line, hline, rfl⟩ := List.mem_map.1 hmem
  obtain ⟨hne, hhead⟩ := isExpressionLine_iff.1 hexpression
  rw [String.toList_ofList]
  exact ⟨hne, isTrimmed_trimBlanks line, hhead, fun hc =>
    newline_not_mem_of_mem_textLines line hline (mem_of_mem_trimBlanks hc)⟩

/-- **Items that are joined** come out again. -/
theorem scriptExpressions_items {items : List String} (h : ∀ item ∈ items, IsItem item.toList) :
    scriptExpressions ("\n".intercalate items) = items := by
  rw [scriptExpressions_intercalate]
  calc items.flatMap scriptExpressions
      = items.flatMap fun item => [item] :=
        List.flatMap_congr fun item hmem => scriptExpressions_item (h item hmem)
    _ = items := List.flatMap_singleton' items

/-! ## Other line ends, and more lines -/

/-- The second text is the first with a carriage return in front of some of its line feeds. -/
inductive Recoded : List Char → List Char → Prop where
  | nil : Recoded [] []
  | char (c : Char) {text text' : List Char} (rest : Recoded text text') :
      Recoded (c :: text) (c :: text')
  | lineEnd {text text' : List Char} (rest : Recoded text text') :
      Recoded ('\n' :: text) ('\r' :: '\n' :: text')

/-- A script with a carriage return in front of every line feed. -/
def withReturns (script : String) : String :=
  String.ofList (script.toList.flatMap fun c => if c = '\n' then ['\r', '\n'] else [c])

/-- The second lines are the first with idle lines in front, between or behind. -/
inductive Padded : List String → List String → Prop where
  | nil : Padded [] []
  | line (line : String) {lines lines' : List String} (rest : Padded lines lines') :
      Padded (line :: lines) (line :: lines')
  | idle {line : String} (idle : IsIdle line.toList) {lines lines' : List String}
      (rest : Padded lines lines') : Padded lines (line :: lines')

theorem recoded_flatMap (text : List Char) :
    Recoded text (text.flatMap fun c => if c = '\n' then ['\r', '\n'] else [c]) := by
  induction text with
  | nil => exact .nil
  | cons c text ih =>
    rw [List.flatMap_cons]
    by_cases hc : c = '\n'
    · subst hc
      exact .lineEnd ih
    · rw [if_neg hc]
      exact .char c ih

theorem expressionsOf_return {line : List Char} (h : '\n' ∉ line) :
    expressionsOf (line ++ ['\r']) = expressionsOf line := by
  have h' : '\n' ∉ line ++ ['\r'] := by simp [h]
  rw [expressionsOf_line h', expressionsOf_line h, trimBlanks_concat rfl]

/-- A carriage return at the end of a line is trimmed off. -/
theorem Recoded.expressionsOf_eq {text text' : List Char} (h : Recoded text text') :
    expressionsOf text' = expressionsOf text := by
  -- `line` is what the line that is being read holds so far
  suffices ∀ line : List Char, '\n' ∉ line →
      expressionsOf (line ++ text') = expressionsOf (line ++ text) from this [] List.not_mem_nil
  induction h with
  | nil => exact fun _ _ => rfl
  | @char c text text' _ ih =>
    intro line hline
    by_cases hc : c = '\n'
    · subst hc
      rw [expressionsOf_append, expressionsOf_append]
      exact congrArg _ (ih [] List.not_mem_nil)
    · have := ih (line ++ [c]) (by simp [hline, Ne.symm hc])
      rwa [List.append_assoc, List.append_assoc] at this
  | @lineEnd text text' _ ih =>
    intro line hline
    have split : line ++ '\r' :: '\n' :: text' = (line ++ ['\r']) ++ '\n' :: text' := by simp
    rw [split, expressionsOf_append, expressionsOf_append, expressionsOf_return hline]
    exact congrArg _ (ih [] List.not_mem_nil)

theorem Padded.flatMap_eq {lines lines' : List String} (h : Padded lines lines') :
    lines'.flatMap scriptExpressions = lines.flatMap scriptExpressions := by
  induction h with
  | nil => rfl
  | line line _ ih => rw [List.flatMap_cons, List.flatMap_cons, ih]
  | idle idle _ ih => rw [List.flatMap_cons, scriptExpressions_idle idle, List.nil_append, ih]

/-! ## From a script and from the arguments -/

theorem foldlM_take_operands (options : Options) (expressions : List String) :
    expressions.foldlM Progress.take ⟨options, true, none⟩ =
      .ok ⟨{ options with expressions := options.expressions ++ expressions }, true, none⟩ := by
  induction expressions generalizing options with
  | nil =>
    rw [List.append_nil]
    rfl
  | cons expression expressions ih =>
    rw [List.foldlM_cons]
    exact (ih _).trans (by rw [List.append_assoc, List.singleton_append])

/-- Behind `--` any texts are taken for expressions. -/
theorem parseArguments_expressions (expressions : List String) :
    parseArguments ("--" :: expressions) =
      .ok { Options.none with expressions := expressions } := by
  unfold parseArguments
  rw [List.foldlM_cons]
  change (expressions.foldlM Progress.take ⟨.none, true, none⟩ >>= _) = _
  rw [foldlM_take_operands]
  rfl

/-- **The script of a request** adds its expressions to those among the arguments. -/
theorem requestedExpressions_script {options : Options} {path : String}
    (file : options.file = some path) (script : String) :
    requestedExpressions options (.ok script) =
      .ok (options.expressions ++ scriptExpressions script) := by
  unfold requestedExpressions
  rw [file]

/-- **A script is its expressions among the arguments.** -/
theorem execute_script (A : Arithmetic Float) (options : Options) (path : String) {script : String}
    (some : options.expressions ++ scriptExpressions script ≠ [])
    (unused : Except ReadError String) :
    execute A { options with file := .some path } (.ok script) =
      execute A { options with
        file := none, expressions := options.expressions ++ scriptExpressions script } unused := by
  have arguments : requestedExpressions { options with
      file := none, expressions := options.expressions ++ scriptExpressions script } unused =
      .ok (options.expressions ++ scriptExpressions script) := by
    unfold requestedExpressions
    dsimp only
    rw [if_neg (mt List.isEmpty_iff.1 some)]
  unfold execute
  rw [requestedExpressions_script rfl, arguments]

/-- **Reading a script takes line feeds for joints.** What a request takes from a script are the
lines of the script without the blanks around them, but for empty lines and comments. A script that
two are joined to by a line feed has the expressions of the first and then those of the second.
Carriage returns in front of line feeds, and lines that are blank or comments, make no difference.
Every expression is trimmed, not empty, no comment and on one line; and texts like that, joined by
line feeds, are the expressions of their script. All of them are evaluated behind the arguments, and
can as well be given as arguments. -/
theorem scriptExpressions_exact (A : Arithmetic Float) :
    (∀ (options : Options) (path script : String), options.file = some path →
      requestedExpressions options (.ok script) =
        .ok (options.expressions ++ scriptExpressions script)) ∧
    (∀ script, scriptExpressions script =
      (((endedLines script.toList).map trimBlanks).filter isExpressionLine).map String.ofList) ∧
    (∀ front back, scriptExpressions (front ++ "\n" ++ back) =
      scriptExpressions front ++ scriptExpressions back) ∧
    (∀ script script' : String, Recoded script.toList script'.toList →
      scriptExpressions script' = scriptExpressions script) ∧
    (∀ script, scriptExpressions (withReturns script) = scriptExpressions script) ∧
    (∀ lines lines', Padded lines lines' →
      scriptExpressions ("\n".intercalate lines') = scriptExpressions ("\n".intercalate lines)) ∧
    (∀ script, ∀ item ∈ scriptExpressions script, IsItem item.toList) ∧
    (∀ items : List String, (∀ item ∈ items, IsItem item.toList) →
      scriptExpressions ("\n".intercalate items) = items) ∧
    (∀ items, parseArguments ("--" :: items) = .ok { Options.none with expressions := items }) ∧
    (∀ (options : Options) (path script : String),
      options.expressions ++ scriptExpressions script ≠ [] → ∀ unused,
      execute A { options with file := some path } (.ok script) =
        execute A { options with
          file := none, expressions := options.expressions ++ scriptExpressions script } unused) ∧
    ∀ (options : Options) (path script : String) (table : SymbolTable),
      options.file = some path → options.list = false →
      SymbolTable.standard.defineAll options.definitions = .ok table →
      execute A options (.ok script) =
        reportsOutput options.verbosity ((Evaluator.new table).evaluateAll A
          (options.expressions ++ scriptExpressions script)) := by
  refine ⟨fun _ _ script file => requestedExpressions_script file script,
    scriptExpressions_eq_endedLines, scriptExpressions_append, fun _ _ h => h.expressionsOf_eq,
    fun script => ?_, fun lines lines' h => ?_, fun _ _ => isItem_of_mem,
    fun _ => scriptExpressions_items, parseArguments_expressions,
    fun options path _ some unused => execute_script A options path some unused,
    fun _ _ script _ file noList defined =>
      execute_of_requested A defined noList (requestedExpressions_script file script)⟩
  · rw [scriptExpressions_eq, withReturns, String.toList_ofList]
    exact (recoded_flatMap script.toList).expressionsOf_eq
  · rw [scriptExpressions_intercalate, scriptExpressions_intercalate, h.flatMap_eq]

/-- A carriage return, a comment and two expressions, from a script and among the arguments. -/
theorem scriptExpressions_exact_comment :
    requestedExpressions { Options.none with file := some "in", expressions := ["1"] }
        (.ok "x\r\n #\n2") = .ok ["1", "x", "2"] ∧
      (∀ item ∈ scriptExpressions "x\r\n #\n2", IsItem item.toList) ∧
      execute .ieee { Options.none with file := some "in" } (.ok "x\r\n #\n2") =
        execute .ieee { Options.none with expressions := ["x", "2"] } (.ok "") ∧
      execute .ieee { Options.none with file := some "in" } (.ok "x\r\n #\n2") =
        ⟨"10\n2\n", "", 0⟩ := by
  obtain ⟨requested, -, -, recoded, -, padded, isItem, items, -, same, evaluated⟩ :=
    scriptExpressions_exact .ieee
  have ends : Recoded "x\n #\n2".toList "x\r\n #\n2".toList :=
    .char 'x' (.lineEnd (.char ' ' (.char '#' (.char '\n' (.char '2' .nil)))))
  have idle : IsIdle " #".toList := ⟨by decide, by rintro c ⟨⟩; rfl⟩
  have comment : Padded ["x", "2"] ["x", " #", "2"] := .line "x" (.idle idle (.line "2" .nil))
  have each : ∀ item ∈ ["x", "2"], IsItem item.toList :=
    List.forall_mem_cons.2 ⟨isItem_singleton rfl (by decide),
      List.forall_mem_cons.2 ⟨isItem_singleton rfl (by decide), by simp⟩⟩
  have taken : scriptExpressions "x\r\n #\n2" = ["x", "2"] :=
    calc scriptExpressions "x\r\n #\n2"
        = scriptExpressions "x\n #\n2" := recoded _ _ ends
      _ = scriptExpressions "x\n2" := padded _ _ comment
      _ = ["x", "2"] := items _ each
  refine ⟨?_, isItem _, ?_, ?_⟩
  · rw [requested _ "in" _ rfl, taken]
    rfl
  · rw [same .none "in" _ (by rw [taken]; exact List.cons_ne_nil _ _) (.ok ""), taken]
    rfl
  · rw [evaluated _ "in" _ .standard rfl rfl rfl, taken]
    decide +kernel

end CommandLine

end Reckoner
