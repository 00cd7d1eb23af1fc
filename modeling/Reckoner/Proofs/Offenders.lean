import Reckoner.Ieee
import Reckoner.Proofs.Parentheses
import Reckoner.Proofs.Table.Definition
import Reckoner.Proofs.Text.Alternation
import Reckoner.Proofs.Uniformity

/-!
# Which lexeme a failure names

An unknown symbol is the first lexeme of the expression that stands for nothing, and a function
without arguments is the first that no opening parenthesis follows; up to there nothing of either
kind is wrong (`Built.evaluate_blames`). This is so although tokens are found to be symbols one at a
time, each just before the machine turns to it, and a function is found to have no arguments one
token late: behind a word stands a delimiter, which always is a symbol, so the two cannot overtake
each other.
-/

namespace Reckoner

/-! ## Functions in a script -/

/-- Behind a function that is not the last of them comes an opening parenthesis. -/
theorem Script.isChain_of_ofTokens {α : Type} {frames left : List Frame}
    {symbols program : List (Symbol α)}
    (h : ofTokens frames (symbols.map .ok) = ⟨program, .ok left⟩) :
    symbols.IsChain fun symbol next => symbol.function?.isSome = true → next = .parenLeft := by
  induction symbols generalizing frames program with
  | nil => exact .nil
  | cons symbol symbols ih =>
    obtain ⟨frame, outer, _, first, next, second, rfl, ⟨⟩, ht, hs, rfl⟩ := ofTokens_cons_eq_ok h
    refine List.isChain_cons.2 ⟨?_, ih hs⟩
    intro follower hfollower hfunction
    obtain ⟨symbols, rfl⟩ : ∃ rest, symbols = follower :: rest :=
      ⟨symbols.tail, List.eq_cons_of_mem_head? hfollower⟩
    obtain ⟨frame', outer', _, _, _, _, rfl, ⟨⟩, ht', -, -⟩ := ofTokens_cons_eq_ok hs
    rcases (Frame.turn_ok ht').2 with hopens | hnone
    · exact Symbol.eq_parenLeft hopens
    · rw [← Frame.function_of_turn ht frame' rfl, hnone] at hfunction
      cases hfunction

/-- A function that waits for its arguments was the last symbol. -/
theorem Script.exists_concat_of_function {α : Type} {symbols program : List (Symbol α)}
    {frame : Frame} {outer : List Frame} {f : Builtin}
    (h : ofTokens [Frame.opened] (symbols.map .ok) = ⟨program, .ok (frame :: outer)⟩)
    (hf : frame.function = some f) : ∃ front, symbols = front ++ [.function f] := by
  rcases List.eq_nil_or_concat symbols with rfl | ⟨front, last, rfl⟩
  · cases h
    cases hf
  · rw [List.concat_eq_append, List.map_append, List.map_singleton] at h
    have top := function_of_ofTokens (congrArg groups h) frame rfl
    rw [hf] at top
    obtain rfl := Symbol.eq_function top.symm
    exact ⟨front, List.concat_eq_append⟩

/-! ## Lexemes and what they stand for -/

/-- A lexeme that is the name of a function. -/
def Lexeme.IsFunction (lexeme : Lexeme) : Prop :=
  ∃ f : Builtin, lexeme.text = f.name

/-- Every function among lexemes is followed by an opening parenthesis, unless it is the last. -/
def Lexeme.Called (lexemes : List Lexeme) : Prop :=
  lexemes.IsChain fun lexeme next => lexeme.IsFunction → next = .delimiter '('

namespace Lexeme

theorem Called.concat {lexemes : List Lexeme} {lexeme : Lexeme} (h : Called lexemes)
    (hlast : ∀ last ∈ lexemes.getLast?, last.IsFunction → lexeme = .delimiter '(') :
    Called (lexemes ++ [lexeme]) := by
  refine List.isChain_append.2 ⟨h, .singleton _, ?_⟩
  rintro last hmem _ ⟨⟩ hfunction
  exact hlast last hmem hfunction

theorem Alternating.isWord_of_append {before after : List Lexeme} {lexeme : Lexeme}
    (h : Alternating (before ++ lexeme :: after)) :
    ∀ last ∈ before.getLast?, last.isWord = true → lexeme.isWord = false := by
  intro last hlast hword
  exact (List.isChain_append.1 h.apart).2.2 last hlast lexeme rfl hword

theorem mem_of_isDelimiter {c : Char} (h : isDelimiter c = true) (hne : c ≠ '(') :
    c ∈ ['+', '-', '*', '/', ',', ')'] := by
  simp only [isDelimiter, delimiters, List.contains_iff_mem, List.mem_cons, List.not_mem_nil,
    or_false] at h ⊢
  tauto

end Lexeme

namespace SymbolTable

/-- A lexeme that stands for something: a word that begins with a digit for a number, any other
lexeme for what the table says. -/
def Knows (table : SymbolTable) (lexeme : Lexeme) : Prop :=
  lexeme.IsNumeral ∨
    lexeme.chars.head?.any Char.isDigit = false ∧ ∃ symbol, table.lookup lexeme.text = some symbol

variable {table : SymbolTable}

theorem knows_iff {lexeme : Lexeme} :
    table.Knows lexeme ↔ ∃ symbol, table.classify lexeme = .ok symbol := by
  constructor
  · rintro (⟨hdigit, value, hvalue⟩ | ⟨hdigit, symbol, hsymbol⟩)
    · rw [classify_of_digit hdigit, hvalue]
      exact ⟨_, rfl⟩
    · rw [classify_of_not_digit hdigit, hsymbol]
      exact ⟨_, rfl⟩
  · rintro ⟨symbol, hsymbol⟩
    rcases classify_eq_ok hsymbol with ⟨hdigit, value, hvalue, -⟩ | ⟨hdigit, hlookup⟩
    · exact .inl ⟨hdigit, value, hvalue⟩
    · exact .inr ⟨hdigit, symbol, hlookup⟩

namespace Built

variable (built : table.Built) {lexeme next : Lexeme} {symbol : Symbol Float}

include built

theorem isFunction_of_classify {f : Builtin} (h : table.classify lexeme = .ok (.function f)) :
    lexeme.text = f.name := by
  rcases classify_eq_ok h with ⟨-, _, -, ⟨⟩⟩ | ⟨-, hlookup⟩
  rcases built.mem_of_lookup hlookup with ⟨_, ⟨⟩⟩ | hmem
  exact (mem_standardEntries_iff.1 hmem).name_eq

theorem classify_of_isFunction {f : Builtin} (h : lexeme.text = f.name) :
    table.classify lexeme = .ok (.function f) := by
  obtain ⟨c, hc, hdigit⟩ := (isName_builtin f).head
  rw [← h, Lexeme.text, String.toList_ofList] at hc
  have hplain : lexeme.chars.head?.any Char.isDigit = false := by
    rw [Option.mem_def.1 hc]
    exact hdigit
  rw [classify_of_not_digit hplain, h, built.lookup_function f]

theorem isFunction_iff (h : table.classify lexeme = .ok symbol) :
    lexeme.IsFunction ↔ symbol.function?.isSome = true := by
  constructor
  · rintro ⟨f, hf⟩
    rw [built.classify_of_isFunction hf] at h
    cases h
    rfl
  · intro hs
    obtain ⟨f, hf⟩ := Option.isSome_iff_exists.1 hs
    obtain rfl := Symbol.eq_function hf
    exact ⟨f, built.isFunction_of_classify h⟩

/-- Words are what no delimiter spells. -/
theorem isWord_eq (h : lexeme.IsPiece) :
    lexeme.isWord = (tokenDelimiter? (table.classify lexeme)).isNone := by
  have spelled := built.tokenDelimiter?_classify h
  cases h with
  | delimiter hc =>
    rw [Lexeme.chars, List.filter_cons_of_pos hc] at spelled
    cases hd : tokenDelimiter? (table.classify _) with
    | none =>
      rw [hd] at spelled
      cases spelled
    | some c => rfl
  | word hne hplain =>
    rw [Lexeme.chars, List.filter_eq_nil_iff.2 fun c hc => by simp [hplain c hc]] at spelled
    rw [Option.toList_eq_nil_iff.1 spelled]
    rfl

theorem eq_delimiter_of_classify (h : lexeme.IsPiece) (hclass : table.classify lexeme = .ok symbol)
    {c : Char} (hc : symbol.delimiter? = some c) : lexeme = .delimiter c := by
  have spelled := built.tokenDelimiter?_classify h
  have hword := built.isWord_eq h
  rw [hclass] at spelled hword
  change symbol.delimiter?.toList = _ at spelled
  change _ = symbol.delimiter?.isNone at hword
  rw [hc] at spelled hword
  cases h with
  | delimiter hd =>
    rw [Lexeme.chars, List.filter_cons_of_pos hd] at spelled
    rw [(List.cons.inj spelled).1]
  | word _ _ => cases hword

theorem isWord_of_isFunction (h : lexeme.IsPiece) (hf : lexeme.IsFunction) :
    lexeme.isWord = true := by
  obtain ⟨f, hf⟩ := hf
  rw [built.isWord_eq h, built.classify_of_isFunction hf]
  rfl

/-! ## Lexemes that are taken -/

/-- The functions among lexemes are followed by parentheses if those among their symbols are. -/
theorem called_of_isChain {lexemes : List Lexeme} {symbols : List (Symbol Float)}
    (pieces : ∀ lexeme ∈ lexemes, lexeme.IsPiece)
    (hclass : lexemes.map table.classify = symbols.map .ok)
    (h : symbols.IsChain fun symbol next => symbol.function?.isSome = true → next = .parenLeft) :
    Lexeme.Called lexemes := by
  induction lexemes generalizing symbols with
  | nil => exact .nil
  | cons lexeme lexemes ih =>
    obtain ⟨symbol, symbols, rfl⟩ : ∃ symbol rest, symbols = symbol :: rest := by
      cases symbols with
      | nil => cases hclass
      | cons symbol rest => exact ⟨symbol, rest, rfl⟩
    obtain ⟨hfirst, hrest⟩ := List.cons.inj hclass
    obtain ⟨hnext, hchain⟩ := List.isChain_cons.1 h
    refine List.isChain_cons.2 ⟨?_, ih (List.forall_mem_cons.1 pieces).2 hrest hchain⟩
    intro next hmem hfunction
    obtain ⟨lexemes, rfl⟩ : ∃ rest, lexemes = next :: rest :=
      ⟨lexemes.tail, List.eq_cons_of_mem_head? hmem⟩
    cases symbols with
    | nil => cases hrest
    | cons follower symbols =>
      have hparen := hnext follower rfl ((built.isFunction_iff hfirst).1 hfunction)
      have hpiece := pieces next (by simp)
      refine built.eq_delimiter_of_classify hpiece (List.cons.inj hrest).1 ?_
      rw [hparen]
      rfl

/-- **Lexemes that are all taken** stand for something, and their functions have arguments. -/
theorem knows_of_groups {source : String} {before after : List Lexeme}
    {program : List (Symbol Float)} {left : List Frame}
    (hsplit : Lexeme.split source.toList = .delimiter '(' :: before ++ after)
    (h : Script.ofTokens [Frame.opened] (before.map table.classify) = ⟨program, .ok left⟩) :
    (∀ lexeme ∈ .delimiter '(' :: before, table.Knows lexeme) ∧
      Lexeme.Called (.delimiter '(' :: before) := by
  have opening : table.classify (.delimiter '(') = .ok .parenLeft :=
    classify_delimiter rfl built.lookup_parenLeft
  have pieces : ∀ lexeme ∈ .delimiter '(' :: before, lexeme.IsPiece := by
    intro lexeme hmem
    have hall : lexeme ∈ Lexeme.split source.toList := by
      rw [hsplit]
      exact List.mem_append_left _ hmem
    exact Lexeme.isPiece_of_mem_split lexeme hall
  obtain ⟨symbols, hclass, -⟩ := Script.length_of_ofTokens h
  have all : (Lexeme.delimiter '(' :: before).map table.classify =
      (.parenLeft :: symbols).map .ok := by
    rw [List.map_cons, List.map_cons, opening, hclass]
  rw [hclass] at h
  constructor
  · intro lexeme hmem
    have hmap := List.mem_map_of_mem (f := table.classify) hmem
    rw [all] at hmap
    obtain ⟨symbol, -, hsymbol⟩ := List.mem_map.1 hmap
    exact knows_iff.2 ⟨symbol, hsymbol.symm⟩
  · refine built.called_of_isChain pieces all (List.isChain_cons.2 ⟨?_, ?_⟩)
    · intro _ _ hfunction
      cases hfunction
    · exact Script.isChain_of_ofTokens h

/-! ## The first lexeme that is not taken -/

section Lexemes

variable {A : Arithmetic Float} {expression source : String} (hs : prepare expression = .ok source)

include hs

/-- The script of an expression is that of its lexemes behind the first parenthesis. -/
theorem exists_lexemes : ∃ lexemes,
    Lexeme.split source.toList = .delimiter '(' :: lexemes ∧
      table.script expression = Script.ofTokens [Frame.opened] (lexemes.map table.classify) := by
  have htokens := built.tokens_of_prepare hs
  cases hsplit : Lexeme.split source.toList with
  | nil =>
    rw [tokens, hsplit] at htokens
    cases htokens
  | cons first lexemes =>
    rw [tokens, hsplit] at htokens
    obtain ⟨hfirst, hrest⟩ := List.cons.inj htokens
    have hpiece := Lexeme.isPiece_of_mem_split first (hsplit ▸ List.mem_cons_self)
    obtain rfl := built.eq_delimiter_of_classify hpiece hfirst rfl
    exact ⟨lexemes, rfl, by rw [script, hrest]⟩

theorem knows_of_taken {left : List Frame} (h : (table.script expression).groups = .ok left) :
    (∀ lexeme ∈ Lexeme.split source.toList, table.Knows lexeme) ∧
      Lexeme.Called (Lexeme.split source.toList) := by
  obtain ⟨lexemes, hsplit, hscript⟩ := built.exists_lexemes hs
  rw [hscript] at h
  rw [hsplit]
  exact built.knows_of_groups (by rw [List.append_nil]; exact hsplit) (Script.eq_of_groups h)

/-- **The first lexeme that is not taken** stands for nothing, or comes behind the last group, or
comes behind a function. All those in front of it are in order. -/
theorem exists_offender {e : EvalError} (h : (table.script expression).groups = .error e) :
    ∃ before lexeme after, Lexeme.split source.toList = before ++ lexeme :: after ∧
      (∀ other ∈ before, table.Knows other) ∧ Lexeme.Called before ∧
      (table.classify lexeme = .error e ∨ e = .unmatchedParenthesis .right ∨
        ∃ front name f, before = front ++ [name] ∧ name.text = f.name ∧
          (∃ symbol, table.classify lexeme = .ok symbol ∧ symbol.opens = false) ∧
          e = .danglingFunction f) := by
  obtain ⟨lexemes, hsplit, hscript⟩ := built.exists_lexemes hs
  rw [hscript] at h
  obtain ⟨front, token, back, program, left, hmap, hfront, htoken⟩ := Script.ofTokens_eq_error h
  obtain ⟨before, rest, rfl, rfl, hrest⟩ := List.map_eq_append_iff.1 hmap
  obtain ⟨lexeme, after, rfl, rfl, rfl⟩ := List.map_eq_cons_iff.1 hrest
  obtain ⟨hknows, hcalled⟩ := built.knows_of_groups hsplit hfront
  refine ⟨.delimiter '(' :: before, lexeme, after, hsplit, hknows, hcalled, ?_⟩
  rcases Script.ofToken_eq_error htoken with
    herror | ⟨-, rfl⟩ | ⟨frame, outer, f, symbol, rfl, hf, hsymbol, hopens, rfl⟩
  · exact .inl herror
  · exact .inr (.inl rfl)
  · obtain ⟨symbols, hclass, -⟩ := Script.length_of_ofTokens hfront
    rw [hclass] at hfront
    obtain ⟨front, rfl⟩ := Script.exists_concat_of_function hfront hf
    rw [List.map_append, List.map_singleton] at hclass
    obtain ⟨names, last, rfl, -, hlast⟩ := List.map_eq_append_iff.1 hclass
    obtain ⟨name, rfl, hname⟩ := List.map_eq_singleton_iff.1 hlast
    exact .inr (.inr ⟨.delimiter '(' :: names, name, f, rfl, built.isFunction_of_classify hname,
      ⟨symbol, hsymbol, hopens⟩, rfl⟩)

/-! ## What an evaluation blames -/

theorem blames_unknown {t : String}
    (h : (table.script expression).groups = .error (.unknownSymbol t)) :
    ∃ before lexeme after, Lexeme.split source.toList = before ++ lexeme :: after ∧
      lexeme.text = t ∧ ¬ table.Knows lexeme ∧ (∀ other ∈ before, table.Knows other) ∧
      Lexeme.Called (before ++ [lexeme]) := by
  obtain ⟨before, lexeme, after, hsplit, hknows, hcalled, hreason⟩ := built.exists_offender hs h
  have alternating := Lexeme.alternating_split source.toList
  rw [hsplit] at alternating
  rcases hreason with hclass | ⟨⟨⟩⟩ | ⟨_, _, _, _, _, _, ⟨⟩⟩
  have hpiece := alternating.pieces lexeme (by simp)
  refine ⟨before, lexeme, after, hsplit, ?_, ?_, hknows, hcalled.concat ?_⟩
  · exact (EvalError.unknownSymbol.inj (classify_error hclass)).symm
  · rw [knows_iff, hclass]
    rintro ⟨symbol, ⟨⟩⟩
  · -- a function is a word, and so is what is unknown, but no word follows another
    intro last hlast hfunction
    have hmem : last ∈ before ++ lexeme :: after :=
      List.mem_append_left _ (List.mem_of_getLast? hlast)
    have hword := built.isWord_of_isFunction (alternating.pieces last hmem) hfunction
    have hplain := alternating.isWord_of_append last hlast hword
    rw [built.isWord_eq hpiece, hclass] at hplain
    cases hplain

theorem blames_function {f : Builtin}
    (h : (table.script expression).groups = .error (.danglingFunction f)) :
    ∃ before name c after,
      Lexeme.split source.toList = before ++ name :: .delimiter c :: after ∧
      name.text = f.name ∧ c ∈ ['+', '-', '*', '/', ',', ')'] ∧
      (∀ other ∈ before ++ [name], table.Knows other) ∧ Lexeme.Called (before ++ [name]) := by
  obtain ⟨before, lexeme, after, hsplit, hknows, hcalled, hreason⟩ := built.exists_offender hs h
  have alternating := Lexeme.alternating_split source.toList
  rw [hsplit] at alternating
  rcases hreason with hclass | ⟨⟨⟩⟩ | ⟨front, name, _, rfl, hname, ⟨symbol, hclass, hopens⟩, ⟨⟩⟩
  · cases classify_error hclass
  · have hword := built.isWord_of_isFunction (alternating.pieces name (by simp)) ⟨f, hname⟩
    have hplain := alternating.isWord_of_append name (by simp) hword
    cases alternating.pieces lexeme (by simp) with
    | word _ _ => cases hplain
    | @delimiter c hc =>
      refine ⟨front, name, c, after, by rw [hsplit]; simp, hname, ?_, hknows, hcalled⟩
      refine Lexeme.mem_of_isDelimiter hc ?_
      rintro rfl
      rw [classify_delimiter rfl built.lookup_parenLeft] at hclass
      cases hclass
      cases hopens

/-- A failure that is neither for want of values nor found at the end is that of a token. -/
theorem groups_of_evaluate {e : EvalError} (h : table.evaluate A expression = .error e) :
    e = .stackUnderflow ∨ (table.script expression).groups = .error e ∨
      ((e = .unmatchedParenthesis .left ∨ ∃ count, e = .leftoverValues count) ∧
        ∃ left, (table.script expression).groups = .ok left) := by
  rw [built.evaluate_of_prepare hs] at h
  rcases Script.outcome_eq_error h with
    hvalues | herror | ⟨hleft, frame, outer, hopen⟩ | ⟨values, hclosed, -, -, hcount⟩
  · exact .inl hvalues
  · exact .inr (.inl herror)
  · exact .inr (.inr ⟨.inl hleft, _, hopen⟩)
  · exact .inr (.inr ⟨.inr ⟨_, hcount⟩, _, hclosed⟩)

/-- An evaluation that comes to its end, or only misses closing parentheses, has taken all
lexemes. -/
theorem exists_groups (h : (∃ value, table.evaluate A expression = .ok value) ∨
    (∃ count, table.evaluate A expression = .error (.leftoverValues count)) ∨
    table.evaluate A expression = .error (.unmatchedParenthesis .left)) :
    ∃ left, (table.script expression).groups = .ok left := by
  rcases h with ⟨value, h⟩ | ⟨count, h⟩ | h
  · rw [built.evaluate_of_prepare hs] at h
    exact ⟨[], (Script.outcome_eq_ok h).1⟩
  all_goals
    rcases built.groups_of_evaluate hs h with ⟨⟨⟩⟩ | herror | ⟨-, hgroups⟩
    · rcases built.groups_error herror with ⟨⟨⟩⟩ | ⟨⟨⟩, -⟩
    · exact hgroups

omit built in
theorem getLast?_split : (Lexeme.split source.toList).getLast? = some (.delimiter ')') := by
  rw [prepare_eq] at hs
  split at hs
  · cases hs
  · cases hs
    rw [String.toList_ofList, split_group, ← List.cons_append, List.getLast?_concat]

/-- **A failure names the first lexeme that is to blame.** An unknown symbol is the first lexeme
that stands for nothing, and the functions in front of it have arguments. A function without
arguments is the first, all lexemes up to it stand for something, and a delimiter other than an
opening parenthesis is behind it. If nothing worse is wrong than the number of values or a missing
closing parenthesis, then all lexemes stand for something and all functions have arguments. -/
theorem evaluate_blames (A : Arithmetic Float) :
    (∀ t, table.evaluate A expression = .error (.unknownSymbol t) →
      ∃ before lexeme after, Lexeme.split source.toList = before ++ lexeme :: after ∧
        lexeme.text = t ∧ ¬ table.Knows lexeme ∧ (∀ other ∈ before, table.Knows other) ∧
        Lexeme.Called (before ++ [lexeme])) ∧
    (∀ f, table.evaluate A expression = .error (.danglingFunction f) →
      ∃ before name c after,
        Lexeme.split source.toList = before ++ name :: .delimiter c :: after ∧
        name.text = f.name ∧ c ∈ ['+', '-', '*', '/', ',', ')'] ∧
        (∀ other ∈ before ++ [name], table.Knows other) ∧ Lexeme.Called (before ++ [name])) ∧
    ((∃ value, table.evaluate A expression = .ok value) ∨
        (∃ count, table.evaluate A expression = .error (.leftoverValues count)) ∨
        table.evaluate A expression = .error (.unmatchedParenthesis .left) →
      (∀ lexeme ∈ Lexeme.split source.toList, table.Knows lexeme) ∧
        Lexeme.Called (Lexeme.split source.toList) ∧
        (Lexeme.split source.toList).getLast? = some (.delimiter ')')) := by
  refine ⟨fun t h => ?_, fun f h => ?_, fun h => ?_⟩
  · rcases built.groups_of_evaluate hs h with ⟨⟨⟩⟩ | herror | ⟨⟨⟨⟩⟩ | ⟨_, ⟨⟩⟩, -⟩
    exact built.blames_unknown hs herror
  · rcases built.groups_of_evaluate hs h with ⟨⟨⟩⟩ | herror | ⟨⟨⟨⟩⟩ | ⟨_, ⟨⟩⟩, -⟩
    exact built.blames_function hs herror
  · obtain ⟨left, hgroups⟩ := built.exists_groups hs h
    obtain ⟨hknows, hcalled⟩ := built.knows_of_taken hs hgroups
    exact ⟨hknows, hcalled, getLast?_split hs⟩

end Lexemes

end Built

/-- In `sin(2) + cos * y` the function comes first, and in `1) $` the word that stands for nothing
comes before the parenthesis that does. -/
theorem evaluate_blames_first :
    (∃ before name c after, Lexeme.split "(sin(2)+cos*y)".toList =
      before ++ name :: .delimiter c :: after ∧ name.text = "cos") ∧
    ∃ before lexeme after, Lexeme.split "(1)$)".toList = before ++ lexeme :: after ∧
      lexeme.text = "$" ∧ ∀ other ∈ before, standard.Knows other := by
  have hs : prepare "sin(2) + cos * y" = .ok "(sin(2)+cos*y)" := rfl
  have hs' : prepare "1) $" = .ok "(1)$)" := rfl
  have dangling : standard.evaluate .ieee "sin(2) + cos * y" =
      .error (.danglingFunction (.unary .cos)) := by
    decide +kernel
  have unknown : standard.evaluate .ieee "1) $" = .error (.unknownSymbol "$") := by
    decide +kernel
  obtain ⟨-, hcos, -⟩ := Built.standard.evaluate_blames hs .ieee
  obtain ⟨before, name, c, after, hsplit, hname, -⟩ := hcos _ dangling
  obtain ⟨hdollar, -⟩ := Built.standard.evaluate_blames hs' .ieee
  obtain ⟨before', lexeme, after', hsplit', ht, -, hknows, -⟩ := hdollar _ unknown
  exact ⟨⟨before, name, c, after, hsplit, hname⟩, before', lexeme, after', hsplit', ht, hknows⟩

end SymbolTable

end Reckoner
