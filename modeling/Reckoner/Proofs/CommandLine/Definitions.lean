import Mathlib.Data.List.Forall2
import Reckoner.CommandLine.Arguments
import Reckoner.Proofs.Number.RoundTrip

/-!
# Definitions among the arguments

A name without blanks and `=`, an `=` and the text of a double are a definition
(`parseDefinition_definitionText`). Definitions that are given one by one, each behind `-D`, are all
taken, in their order, unless one of them looks like an option (`parseArguments_definitionArguments`).
-/

namespace Reckoner.CommandLine

/-- What keeps a name apart from what stands behind it in a definition or a listing. -/
def IsApart (name : List Char) : Prop :=
  ∀ c ∈ name, isBlank c = false ∧ c ≠ '='

/-- The definition of a variable as it is given. -/
def definitionText (name : List Char) (value : Float) : String :=
  String.ofList (name ++ '=' :: Layout.plain.chars value)

theorem parseDefinition_definitionText {name : List Char} (h : IsApart name) (value : Float) :
    parseDefinition (definitionText name value) = .ok (String.ofList name, value) := by
  have blank : ∀ c ∈ Layout.plain.chars value, isBlank c = false := fun c hc =>
    (isBlank_of_mem_plain c hc).1
  have before : ∀ c ∈ name, decide (c ≠ '=') = true := fun c hc => decide_eq_true (h c hc).2
  unfold parseDefinition definitionText
  simp only [String.toList_ofList, List.takeWhile_append_of_pos before,
    List.dropWhile_append_of_pos before]
  simp [trimBlanks_of_isBlank blank, readFloat?_chars,
    trimBlanks_of_isBlank fun c hc => (h c hc).1]

/-- The arguments that give definitions. -/
def definitionArguments (definitions : List String) : List String :=
  definitions.flatMap fun definition => ["-D", definition]

section Reading

variable {p : Progress} {options : Options}

theorem take_define (all : p.operandsOnly = false)
    (resolved : p.resolve = .ok ⟨options, false, none⟩) :
    p.take "-D" = .ok ⟨options, false, some (.define, none)⟩ := by
  unfold Progress.take
  rw [all]
  change p.await .define = _
  rw [Progress.await, resolved]
  rfl

/-- What does not begin with a dash is taken for the value that an option waits for. -/
theorem take_value {argument : String} (dash : ∀ c ∈ argument.toList.head?, c ≠ '-')
    (option : ValueOption) :
    Progress.take ⟨options, false, some (option, none)⟩ argument =
      .ok ⟨options, false, some (option, some argument)⟩ := by
  unfold Progress.take
  rw [if_neg Bool.false_ne_true]
  split
  · next h => exact absurd rfl (dash '-' (by rw [h]; rfl))
  · next h => exact absurd rfl (dash '-' (by rw [h]; rfl))
  · next h => exact absurd rfl (dash '-' (by rw [h]; rfl))
  · rfl

theorem resolve_define (options : Options) {argument : String} {definition : String × Float}
    (parsed : parseDefinition argument = .ok definition) :
    Progress.resolve ⟨options, false, some (.define, some argument)⟩ =
      .ok ⟨{ options with definitions := options.definitions ++ [definition] }, false, none⟩ := by
  unfold Progress.resolve Options.accept
  simp only [parsed]
  rfl

theorem exists_foldlM_take {arguments : List String} {definitions : List (String × Float)}
    (parsed : List.Forall₂ (fun argument definition => parseDefinition argument = .ok definition)
      arguments definitions)
    (dash : ∀ argument ∈ arguments, ∀ c ∈ argument.toList.head?, c ≠ '-')
    (all : p.operandsOnly = false) (resolved : p.resolve = .ok ⟨options, false, none⟩) :
    ∃ q, (definitionArguments arguments).foldlM Progress.take p = .ok q ∧
      q.resolve = .ok
        ⟨{ options with definitions := options.definitions ++ definitions }, false, none⟩ := by
  -- `p` may still hold the value taken last, which is only read when the next `-D` comes
  induction parsed generalizing p options with
  | nil => exact ⟨p, rfl, by rw [resolved, List.append_nil]⟩
  | @cons argument definition arguments definitions head _ ih =>
    obtain ⟨q, taken, hq⟩ := ih (fun a ha => dash a (List.mem_cons_of_mem _ ha)) rfl
      (resolve_define options head)
    refine ⟨q, ?_, ?_⟩
    · change (p.take "-D" >>= fun p => p.take argument >>= fun p =>
        (definitionArguments arguments).foldlM Progress.take p) = _
      rw [take_define all resolved]
      change (Progress.take _ argument >>= _) = _
      rw [take_value (dash argument List.mem_cons_self)]
      exact taken
    · rw [hq, List.append_assoc]
      rfl

/-- **Definitions behind `-D`** are all taken. -/
theorem parseArguments_definitionArguments {arguments : List String}
    {definitions : List (String × Float)}
    (parsed : List.Forall₂ (fun argument definition => parseDefinition argument = .ok definition)
      arguments definitions)
    (dash : ∀ argument ∈ arguments, ∀ c ∈ argument.toList.head?, c ≠ '-') :
    parseArguments (definitionArguments arguments) =
      .ok { Options.none with definitions := definitions } := by
  have start : Progress.start.resolve = .ok ⟨.none, false, none⟩ := rfl
  obtain ⟨q, taken, resolved⟩ := exists_foldlM_take parsed dash rfl start
  unfold parseArguments
  rw [taken]
  change (q.resolve >>= fun p => pure p.options) = _
  rw [resolved]
  rfl

end Reading

end Reckoner.CommandLine
