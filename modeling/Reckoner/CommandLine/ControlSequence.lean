/-!
# Control sequences

A text for a terminal can hold control characters, and sequences of characters that are commands to
the terminal. `visible` is the text without them, as it goes to a file. `Place` says in what kind of
sequence a character stands, and `Place.next` how a sequence goes on and where it ends.

Escape and control sequences hide their characters but for white space, which is shown and
interrupts them: what follows is shown as well, up to the next control character, where the sequence
goes on. A character beyond ASCII ends an interrupted sequence for good. Control strings hide all
their characters. `visible_eq_self` says that nothing else is changed.
-/

namespace Reckoner.CommandLine

/-- Where a character of a text stands. -/
inductive Place where
  /-- In no sequence. -/
  | outside
  /-- Behind the escape character. -/
  | escape
  /-- In an escape sequence that only its last character can end. -/
  | escapeTail
  /-- In a control sequence, behind escape and `[`. -/
  | control
  /-- Behind escape and `P`, which start a device control string. -/
  | deviceStart
  /-- In the parameters of a device control string. -/
  | deviceParameters
  /-- Behind the parameters of a device control string. -/
  | deviceTail
  /-- In an operating system command, behind escape and `]`. -/
  | command
  /-- In the text of any other control string. -/
  | string
deriving DecidableEq

def isWithin (first last : Nat) (c : Char) : Bool :=
  first ≤ c.toNat && c.toNat ≤ last

/-- Whether a character is white space among the controls: tab, line feed, form feed and carriage
return. The vertical tab is not. -/
def isSpacingControl (c : Char) : Bool :=
  c = '\t' || c = '\n' || c = '\x0c' || c = '\r'

/-- The byte that ends a control string. -/
def terminatorByte : UInt8 := 0x9C

/-- Whether a character beyond ASCII has the terminator among its bytes. -/
def holdsTerminator (c : Char) : Bool :=
  (String.utf8EncodeChar c).contains terminatorByte

namespace Place

/-- The place of what follows the character `c`, which stands at `place`. Cancel and substitute end
every sequence, and escape starts one anew. -/
def next (place : Place) (c : Char) : Place :=
  if c = '\x18' || c = '\x1a' then outside
  else if c = '\x1b' then escape
  else match place with
    | outside => outside
    | escape =>
      if isWithin 0x20 0x2F c then escapeTail
      else if c = '[' then control
      else if c = ']' then command
      else if c = 'P' then deviceStart
      else if c = 'X' || c = '^' || c = '_' then string
      else if isWithin 0x30 0x7E c then outside
      else escape
    | escapeTail => if isWithin 0x30 0x7E c then outside else escapeTail
    | control => if isWithin 0x40 0x7E c then outside else control
    | deviceStart =>
      if isWithin 0x20 0x2F c then deviceTail
      else if isWithin 0x30 0x3F c then deviceParameters
      else if isWithin 0x40 0x7E c then string
      else deviceStart
    | deviceParameters =>
      if isWithin 0x20 0x2F c then deviceTail
      else if isWithin 0x3C 0x7E c then string
      else deviceParameters
    | deviceTail => if isWithin 0x30 0x7E c then string else deviceTail
    | command => if c = '\x07' then outside else command
    | string => if holdsTerminator c then outside else string

/-- Whether a character is shown at a place: outside of sequences all but the controls that are no
white space, in escape and control sequences only white space, and in control strings nothing. -/
def shows (place : Place) (c : Char) : Bool :=
  match place with
  | outside => isSpacingControl c || (0x20 ≤ c.toNat && c.toNat ≠ 0x7F)
  | escape | escapeTail | control => isSpacingControl c
  | _ => false

end Place

/-- What is known in front of a character: its place, and whether the sequence that it stands in is
interrupted. -/
structure Scan where
  place : Place
  interrupted : Bool

namespace Scan

def start : Scan := ⟨.outside, false⟩

/-- Whether the character `c` is shown, and what is known behind it. -/
def step (s : Scan) (c : Char) : Bool × Scan :=
  if s.interrupted && Place.outside.shows c then
    (true, if c.toNat < 0x80 then s else start)
  else
    let shown := s.place.shows c
    (shown, ⟨s.place.next c, shown && s.place ≠ .outside⟩)

def shown (s : Scan) : List Char → List Char
  | [] => []
  | c :: rest =>
    let (isShown, behind) := s.step c
    if isShown then c :: behind.shown rest else behind.shown rest

end Scan

/-- A text without its control characters and sequences. -/
def visible (text : String) : String :=
  String.ofList (Scan.start.shown text.toList)

/-- A text that is emphasized on a terminal. -/
def emphasized (text : String) : String :=
  "\x1b[1m" ++ text ++ "\x1b[0m"

/-! ## What is left alone -/

theorem Scan.step_start {c : Char} (h : Place.outside.shows c) :
    start.step c = (true, start) := by
  have hc : c ≠ '\x18' ∧ c ≠ '\x1a' ∧ c ≠ '\x1b' := by
    refine ⟨?_, ?_, ?_⟩ <;> rintro rfl <;> exact absurd h (by decide)
  simp [step, start, h, Place.next, hc]

/-- A text without control characters is visible as it is. -/
theorem visible_eq_self {text : String} (h : text.toList.all Place.outside.shows) :
    visible text = text := by
  have shown_eq : ∀ cs : List Char, cs.all Place.outside.shows → Scan.start.shown cs = cs := by
    intro cs hcs
    induction cs with
    | nil => rfl
    | cons c rest ih =>
      simp only [List.all_cons, Bool.and_eq_true] at hcs
      simp [Scan.shown, Scan.step_start hcs.1, ih hcs.2]
  rw [visible, shown_eq _ h, String.ofList_toList]

end Reckoner.CommandLine
