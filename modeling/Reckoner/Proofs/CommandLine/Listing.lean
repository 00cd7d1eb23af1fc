import Reckoner.CommandLine.Batch
import Reckoner.Proofs.CommandLine.Definitions
import Reckoner.Proofs.Table.Bindings

/-!
# A listing gives its table back

The line of a variable in a listing holds its name in front of the first space and its value behind
the last `= ` (`shownDefinition?`). No name breaks this: it has no blank, and no `=` since it was read
in front of one (`isApart_of_lookup`). The definitions read off a listing are those of the variables
of the table (`shownDefinitions_listing`), and given as arguments they make the same table again
(`listing_reads_back`).
-/

namespace Reckoner

namespace CommandLine

/-! ## Reading a listing -/

/-- A line of a listing behind the name. -/
def behindName (line : List Char) : List Char :=
  (line.dropWhile (· ≠ ' ')).dropWhile (· = ' ')

/-- Whether a line of a listing is that of a variable. -/
def isVariableLine (line : List Char) : Bool :=
  "variable".toList.isPrefixOf (behindName line)

/-- The text behind the last `= `, if there is one. -/
def afterEquals? : List Char → Option (List Char)
  | [] => none
  | c :: text =>
    (afterEquals? text).or
      (if c = '=' ∧ text.head? = some ' ' then some text.tail else none)

/-- The definition that a line of a listing shows: the name is the text in front of the first space,
the value the text behind the last `= `. -/
def shownDefinition? (line : List Char) : Option String :=
  (afterEquals? line).map fun value =>
    String.ofList (line.takeWhile (· ≠ ' ') ++ '=' :: value)

/-- The definitions that the variables of a listing show. -/
def shownDefinitions (text : String) : List String :=
  ((textLines text.toList).filter isVariableLine).filterMap shownDefinition?

theorem afterEquals?_of_not_mem {text : List Char} (h : '=' ∉ text) : afterEquals? text = none := by
  induction text with
  | nil => rfl
  | cons c text ih =>
    obtain ⟨hc, htext⟩ := not_or.1 (mt List.mem_cons.2 h)
    rw [afterEquals?, ih htext, if_neg fun hand => hc hand.1.symm]
    rfl

theorem afterEquals?_append (front : List Char) {value : List Char} (h : '=' ∉ value) :
    afterEquals? (front ++ '=' :: ' ' :: value) = some value := by
  induction front with
  | nil =>
    have tail : '=' ∉ ' ' :: value := by simpa using h
    rw [List.nil_append, afterEquals?, afterEquals?_of_not_mem tail]
    rfl
  | cons c front ih => rw [List.cons_append, afterEquals?, ih, Option.some_or]

/-! ## The lines of a listing -/

/-- What stands behind the kind of a symbol in a listing. -/
def valueText : Symbol Float → List Char
  | .named value => " = ".toList ++ Layout.plain.chars value
  | _ => []

/-- The line of an entry in a listing, without its end. -/
def entryText (name : String) (symbol : Symbol Float) : List Char :=
  name.toList ++ (List.replicate (8 - name.length + 1) ' ' ++
    (symbol.kind.toList ++ valueText symbol))

theorem toList_entryLine (name : String) (symbol : Symbol Float) :
    (entryLine (name, symbol)).toList = entryText name symbol ++ ['\n'] := by
  unfold entryLine entryText nameColumn
  rw [List.replicate_succ']
  cases symbol <;> simp [Layout.write, valueText]

theorem toList_listing (table : SymbolTable) :
    (listing table).toList =
      table.symbols.flatMap fun entry => entryText entry.1 entry.2 ++ ['\n'] := by
  rw [listing, String.toList_join, List.flatMap_map]
  exact List.flatMap_congr fun entry _ => toList_entryLine entry.1 entry.2

/-- Lines, each with its end, and the empty text behind the last of them. -/
theorem textLines_flatMap {lines : List (List Char)} (h : ∀ line ∈ lines, '\n' ∉ line) :
    textLines (lines.flatMap (· ++ ['\n'])) = lines ++ [[]] := by
  induction lines with
  | nil => rfl
  | cons line lines ih =>
    obtain ⟨hline, hlines⟩ := List.forall_mem_cons.1 h
    rw [List.flatMap_cons, List.append_assoc, List.singleton_append, textLines_append hline,
      ih hlines, List.cons_append]

section Entry

variable {name : String} (apart : IsApart name.toList)

include apart

theorem decide_ne_space : ∀ c ∈ name.toList, decide (c ≠ ' ') = true := by
  intro c hc
  refine decide_eq_true fun heq => ?_
  have := (apart c hc).1
  rw [heq] at this
  cases this

theorem takeWhile_entryText (symbol : Symbol Float) :
    (entryText name symbol).takeWhile (· ≠ ' ') = name.toList := by
  rw [entryText, List.takeWhile_append_of_pos (decide_ne_space apart), List.replicate_succ]
  simp

theorem behindName_entryText (symbol : Symbol Float) :
    behindName (entryText name symbol) = symbol.kind.toList ++ valueText symbol := by
  have gap : ∀ c ∈ List.replicate (8 - name.length + 1) ' ', decide (c = ' ') = true := fun c hc =>
    decide_eq_true (List.eq_of_mem_replicate hc)
  have start : ∀ tail, (List.replicate (8 - name.length + 1) ' ' ++ tail).dropWhile (· ≠ ' ') =
      List.replicate (8 - name.length + 1) ' ' ++ tail := fun _ => rfl
  rw [behindName, entryText, List.dropWhile_append_of_pos (decide_ne_space apart), start,
    List.dropWhile_append_of_pos gap]
  cases symbol <;> simp [Symbol.kind]

theorem isVariableLine_entryText (symbol : Symbol Float) :
    isVariableLine (entryText name symbol) = true ↔ ∃ value, symbol = .named value := by
  rw [isVariableLine, behindName_entryText apart]
  cases symbol with
  | named value => simp [Symbol.kind]
  | literal | parenLeft | parenRight | comma | operator | function =>
    simp [Symbol.kind, List.isPrefixOf]

theorem newline_not_mem_entryText (symbol : Symbol Float) : '\n' ∉ entryText name symbol := by
  have hname : '\n' ∉ name.toList := fun h => absurd (apart _ h).1 (by decide)
  have hgap : '\n' ∉ List.replicate (8 - name.length + 1) ' ' := fun h =>
    absurd (List.eq_of_mem_replicate h) (by decide)
  have hkind : '\n' ∉ symbol.kind.toList := by
    cases symbol <;> simp [Symbol.kind]
  have hvalue : '\n' ∉ valueText symbol := by
    cases symbol with
    | named value =>
      intro h
      rcases List.mem_append.1 h with h | h
      · exact absurd h (by decide)
      · exact absurd (isBlank_of_mem_plain _ h).1 (by decide)
    | literal | parenLeft | parenRight | comma | operator | function => exact List.not_mem_nil
  simp [entryText, hname, hgap, hkind, hvalue]

theorem shownDefinition?_named (value : Float) :
    shownDefinition? (entryText name (.named value)) = some (definitionText name.toList value) := by
  have equals : '=' ∉ Layout.plain.chars value := fun h => (isBlank_of_mem_plain _ h).2 rfl
  have line : entryText name (.named value) =
      (name.toList ++ (List.replicate (8 - name.length + 1) ' ' ++ "variable ".toList)) ++
        '=' :: ' ' :: Layout.plain.chars value := by
    simp [entryText, valueText, Symbol.kind]
  rw [shownDefinition?, takeWhile_entryText apart, line, afterEquals?_append _ equals]
  rfl

end Entry

/-- **A listing shows the variables** of its table. -/
theorem shownDefinitions_listing {table : SymbolTable}
    (apart : ∀ name symbol, table.lookup name = some symbol → IsApart name.toList) :
    shownDefinitions (listing table) =
      table.bindings.map fun binding => definitionText binding.1.toList binding.2 := by
  have lines : textLines (listing table).toList =
      table.symbols.map (fun entry => entryText entry.1 entry.2) ++ [[]] := by
    rw [toList_listing, ← textLines_flatMap, List.flatMap_map]
    intro line hline
    obtain ⟨⟨name, symbol⟩, hm, rfl⟩ := List.mem_map.1 hline
    exact newline_not_mem_entryText (apart name symbol (SymbolTable.mem_symbols_iff.1 hm)) symbol
  -- behind the last line feed stands an empty line, which is no variable's
  have last : List.filter isVariableLine [[]] = [] := rfl
  rw [shownDefinitions, lines, List.filter_append, last, List.append_nil, List.filterMap_filter,
    List.filterMap_map, SymbolTable.bindings, List.map_filterMap]
  refine List.filterMap_congr fun entry hm => ?_
  obtain ⟨name, symbol⟩ := entry
  have hname := apart name symbol (SymbolTable.mem_symbols_iff.1 hm)
  have hvariable := isVariableLine_entryText hname symbol
  dsimp only [Function.comp_apply]
  cases symbol with
  | named value =>
    rw [if_pos (hvariable.2 ⟨value, rfl⟩), shownDefinition?_named hname]
    rfl
  | literal | parenLeft | parenRight | comma | operator | function =>
    rw [if_neg (by simpa using hvariable)]
    rfl

/-! ## The round trip -/

/-- A name that was read as the name of a definition has no equals sign. -/
theorem equals_not_mem_of_parseDefinition {argument name : String} {value : Float}
    (h : parseDefinition argument = .ok (name, value)) : '=' ∉ name.toList := by
  intro hc
  unfold parseDefinition at h
  dsimp only at h
  split at h
  · cases h
  split at h
  · cases h
    rw [String.toList_ofList] at hc
    have := List.all_eq_true.1 List.all_takeWhile '=' (mem_of_mem_trimBlanks hc)
    exact of_decide_eq_true this rfl
  · cases h

theorem equals_not_mem_of_mem_standardEntries :
    ∀ entry ∈ SymbolTable.standardEntries, '=' ∉ entry.1.toList := by
  decide

theorem exists_parsed {arguments : List String} {definitions : List (String × Float)}
    (parsed : List.Forall₂ (fun argument definition => parseDefinition argument = .ok definition)
      arguments definitions) :
    ∀ definition ∈ definitions, ∃ argument, parseDefinition argument = .ok definition := by
  induction parsed with
  | nil => exact fun _ hd => absurd hd List.not_mem_nil
  | cons head _ ih => exact List.forall_mem_cons.2 ⟨⟨_, head⟩, ih⟩

/-- The definition of a name that an expression can mention does not look like an option. -/
theorem ne_dash_of_isName {name : List Char} (h : SymbolTable.IsName name) (value : Float) :
    ∀ c ∈ (definitionText name value).toList.head?, c ≠ '-' := by
  intro c hc
  cases name with
  | nil => exact absurd rfl h.ne_nil
  | cons d name =>
    rw [definitionText, String.toList_ofList, List.cons_append, List.head?_cons, Option.mem_def,
      Option.some_inj] at hc
    subst hc
    rintro rfl
    cases h.isDelimiter '-' List.mem_cons_self

section Table

variable {arguments : List String} {definitions : List (String × Float)} {table : SymbolTable}
  (parsed : List.Forall₂ (fun argument definition => parseDefinition argument = .ok definition)
    arguments definitions)
  (defined : SymbolTable.standard.defineAll definitions = .ok table)

include parsed defined

/-- Every name of a table whose definitions were read from arguments stands apart. -/
theorem isApart_of_lookup (name : String) (symbol : Symbol Float)
    (h : table.lookup name = some symbol) : IsApart name.toList := by
  have equals : '=' ∉ name.toList := by
    refine SymbolTable.forall_name_defineAll (P := fun name => '=' ∉ name.toList)
      (fun name symbol hl => ?_) (fun definition hd => ?_) defined name symbol h
    · exact equals_not_mem_of_mem_standardEntries _ (SymbolTable.mem_of_lookup_standard hl)
    · obtain ⟨argument, read⟩ := exists_parsed parsed definition hd
      exact equals_not_mem_of_parseDefinition read
  intro c hc
  exact ⟨(SymbolTable.built_of_defineAll defined).isBlank_of_lookup h c hc, fun heq =>
    equals (heq ▸ hc)⟩

/-- The definitions that the listing shows are read as the variables of the table. -/
theorem parseArguments_shownDefinitions :
    parseArguments (definitionArguments (shownDefinitions (listing table))) =
      .ok { Options.none with definitions := table.bindings } := by
  have apart := isApart_of_lookup parsed defined
  rw [shownDefinitions_listing apart]
  refine parseArguments_definitionArguments ?_ ?_
  · refine List.forall₂_map_left_iff.2 (List.forall₂_same.2 fun binding hm => ?_)
    obtain ⟨name, value⟩ := binding
    have hname := apart name _ (SymbolTable.mem_bindings_iff.1 hm)
    rw [parseDefinition_definitionText hname, String.ofList_toList]
  · intro argument harg
    obtain ⟨⟨name, value⟩, hm, rfl⟩ := List.mem_map.1 harg
    have hname := (SymbolTable.built_of_defineAll defined).isName_of_lookup
      (SymbolTable.mem_bindings_iff.1 hm)
    exact ne_dash_of_isName hname value

end Table

/-- **A listing gives its table back.** Read the definitions off the lines of its variables and give
them as arguments: all are taken, and they make a table with the same entries. -/
theorem listing_reads_back (A : Arithmetic Float) (options : Options)
    (script : Except ReadError String) {arguments : List String}
    (parsed : List.Forall₂ (fun argument definition => parseDefinition argument = .ok definition)
      arguments options.definitions)
    {table : SymbolTable}
    (defined : SymbolTable.standard.defineAll options.definitions = .ok table)
    (list : options.list = true) :
    ∃ definitions table',
      parseArguments (definitionArguments (shownDefinitions (execute A options script).stdout)) =
        .ok { Options.none with definitions := definitions } ∧
      SymbolTable.standard.defineAll definitions = .ok table' ∧
      table'.symbols = table.symbols ∧ SymbolTable.Agree table table' := by
  have output : (execute A options script).stdout = listing table := by
    unfold execute
    rw [defined]
    dsimp only
    rw [if_pos list]
    rfl
  have built := SymbolTable.built_of_defineAll defined
  obtain ⟨table', again⟩ := built.exists_defineAll_of_subset .standard (List.Subset.refl _)
  have agree := SymbolTable.agree_defineAll_bindings defined again
  refine ⟨table.bindings, table', ?_, again, agree.symbols_eq.symm, agree⟩
  rw [output]
  exact parseArguments_shownDefinitions parsed defined

/-- A negative zero, an infinity, the least positive double and what is no number come back, under
names that needed trimming or are wider than their column. -/
theorem listing_reads_back_signs :
    ∃ options, options.list = true ∧ ∃ definitions table',
      parseArguments
        (definitionArguments (shownDefinitions (execute .ieee options (.ok "")).stdout)) =
          .ok { Options.none with definitions := definitions } ∧
      SymbolTable.standard.defineAll definitions = .ok table' ∧
      table'.lookup "zero" = some (.named (Float.ofBits 0x8000000000000000)) ∧
      table'.lookup "far" = some (.named (Binary64.infinity true)) ∧
      table'.lookup "x" = some (.named Binary64.nan) ∧
      table'.lookup "least_step" = some (.named (Float.ofBits 1)) := by
  let definitions : List (String × Float) := [("zero", Float.ofBits 0x8000000000000000),
    ("far", Binary64.infinity true), ("x", Binary64.nan), ("least_step", Float.ofBits 1)]
  have parsed : List.Forall₂ (fun argument definition => parseDefinition argument = .ok definition)
      ["zero=-0", "far= -infinity", " x = nan", "least_step\t=5e-324"] definitions :=
    .cons (by decide +kernel) (.cons (by decide +kernel) (.cons (by decide +kernel)
      (.cons (by decide +kernel) .nil)))
  obtain ⟨table, defined⟩ : ∃ table, SymbolTable.standard.defineAll definitions = .ok table :=
    ⟨_, rfl⟩
  obtain ⟨definitions', table', taken, again, -, agree⟩ := listing_reads_back .ieee
    ⟨definitions, true, none, 0, []⟩ (.ok "") parsed defined rfl
  obtain rfl := Except.ok.inj defined
  exact ⟨_, rfl, definitions', table', taken, again, (agree "zero").symm, (agree "far").symm,
    (agree "x").symm, (agree "least_step").symm⟩

end CommandLine

end Reckoner
