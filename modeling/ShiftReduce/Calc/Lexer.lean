import ShiftReduce.Parse.Basic
import ShiftReduce.Text.Letter
/-!
# The lexer of arithmetic

White space separates pieces and is dropped. A piece that begins with a digit is the longest run of
digits with at most one point among them, and is the terminal `num`. One that begins with a letter
or `_` is the longest run of letters, numerals and `_`, and is the terminal `id`. Any other piece is
a single character, and is the terminal of that name. A piece without a terminal is an error; the
lexer goes on behind it.

The lexer goes over the characters with their byte offsets, and remembers the offset at which the
line begins. By these offsets it cuts the pieces out of the text, and also what stands before a
piece on its line, whose code points make up the column. A text can be cut between characters only.

The lexer serves any grammar and takes the numbers of the terminals from it.
-/

namespace ShiftReduce.Calc

/-! ## Bytes of a text -/

/-- The text behind its first bytes, if these are whole characters. -/
def dropBytes : Nat → List Char → Option (List Char)
  | 0, s => some s
  | _ + 1, [] => none
  | n + 1, c :: s => if c.utf8Size ≤ n + 1 then dropBytes (n + 1 - c.utf8Size) s else none

/-- The first bytes of a text, if these are whole characters. -/
def takeBytes : Nat → List Char → Option (List Char)
  | 0, _ => some []
  | _ + 1, [] => none
  | n + 1, c :: s =>
    if c.utf8Size ≤ n + 1 then (takeBytes (n + 1 - c.utf8Size) s).map (c :: ·) else none

/-- The text from one byte offset to another. It is refused if they are not in this order, or not
both between characters. -/
def slice (text : List Char) (start stop : Nat) : Option (List Char) :=
  if start ≤ stop then (dropBytes start text).bind (takeBytes (stop - start)) else none

/-- The characters of a text that begins at a byte offset, with their own offsets. -/
def indexed : Nat → List Char → List (Nat × Char)
  | _, [] => []
  | i, c :: s => (i, c) :: indexed (i + c.utf8Size) s

/-! ## Pieces -/

/-- What a piece is, by its first character. -/
inductive PieceKind where
  | number
  | word
  | single
  deriving DecidableEq

/-- The kind of piece that a character begins. -/
def PieceKind.ofFirst (c : Char) : PieceKind :=
  if Text.isAsciiDigit c then .number
  else if Text.isLetter c || c == '_' then .word
  else .single

/-- Does a number go on with the character? It is kept whether there was a point. -/
def inNumber (pointSeen : Bool) (c : Char) : Option Bool :=
  if c = '.' ∧ pointSeen = false then some true
  else if Text.isAsciiDigit c then some pointSeen
  else none

/-- Does a word go on with the character? -/
def inWord (_ : Unit) (c : Char) : Option Unit :=
  if Text.isWordChar c then some () else none

theorem inNumber_of_digit {c : Char} (h : Text.isAsciiDigit c = true) :
    inNumber false c = some (c == '.') := by
  by_cases hc : c = '.' <;> simp [inNumber, hc, h]

theorem inWord_of_first {c : Char} (h : (Text.isLetter c || c == '_') = true) :
    inWord () c = some () := by
  rw [inWord, if_pos]
  rw [Bool.or_eq_true] at h
  rcases h with hc | hc <;> simp [Text.isWordChar, hc]

/-- Takes characters as long as they are accepted. Returns the offset behind the last one taken, or
the given one if none is, and the characters that are left. -/
def takeAccepted {σ : Type} (accept : σ → Char → Option σ) :
    σ → Nat → List (Nat × Char) → Nat × List (Nat × Char)
  | _, stop, [] => (stop, [])
  | state, stop, (i, c) :: rest =>
    match accept state c with
    | some state => takeAccepted accept state (i + c.utf8Size) rest
    | none => (stop, (i, c) :: rest)

/-- The offset behind a piece, and the characters that are left. -/
def PieceKind.take (kind : PieceKind) (start : Nat) (chars : List (Nat × Char)) :
    Nat × List (Nat × Char) :=
  match kind with
  | number => takeAccepted inNumber false start chars
  | word => takeAccepted inWord () start chars
  | single =>
    match chars with
    | [] => (start, [])
    | (_, c) :: rest => (start + c.utf8Size, rest)

/-- The terminal of a piece. No character stands for one of the two reserved terminals. -/
def terminal? (symbols : SymbolTable) (kind : PieceKind) (text : String) : Option SymbolId :=
  match kind with
  | .number => symbols.find? .terminal "num"
  | .word => symbols.find? .terminal "id"
  | .single =>
    (symbols.find? .terminal text).filter fun s => s != SymbolId.eoi && s != SymbolId.epsilon

/-- The token of a piece, or the error that there is no terminal for it. -/
def lexeme (terminal : Option SymbolId) (text : String) (line column : Nat) : Lexeme :=
  match terminal with
  | some s => .ok ⟨s, text, line, column⟩
  | none => .error ⟨"unexpected `" ++ text ++ "`", line, column⟩

/-! ## Scanning -/

/-- A text that is being divided. -/
structure Scanner where
  /-- The characters that were not read yet. -/
  chars : List (Nat × Char)
  line : Nat
  /-- The byte offset at which the line begins. -/
  lineStart : Nat
  deriving DecidableEq

namespace Scanner

/-- The scanner before the first character. -/
def start (text : List Char) : Scanner := ⟨indexed 0 text, 1, 0⟩

/-- Goes on to the next character that is not white space. Lines are 32-bit words. -/
def skipBlanks (line lineStart : Nat) : List (Nat × Char) → Scanner
  | [] => ⟨[], line, lineStart⟩
  | (i, c) :: rest =>
    if c = '\n' then skipBlanks ((line + 1) % wordRange) (i + 1) rest
    else if Text.isBlank c then skipBlanks line lineStart rest
    else ⟨(i, c) :: rest, line, lineStart⟩

/-- The column of a byte offset. Columns are 32-bit words. -/
def column? (text : List Char) (lineStart index : Nat) : Option Nat :=
  (slice text lineStart index).map fun s => (s.length % wordRange + 1) % wordRange

/-- The next item and the scanner behind it, if there is one more, unless a slice is refused. -/
def next (symbols : SymbolTable) (text : List Char) (s : Scanner) :
    Option (Option (Lexeme × Scanner)) :=
  let s := skipBlanks s.line s.lineStart s.chars
  match s.chars with
  | [] => some none
  | (i, c) :: rest =>
    let kind := PieceKind.ofFirst c
    let taken := kind.take i ((i, c) :: rest)
    (slice text i taken.1).bind fun piece =>
      (column? text s.lineStart i).map fun column =>
        let piece := String.ofList piece
        some (lexeme (terminal? symbols kind piece) piece s.line column,
          { s with chars := taken.2 })

/-! Every item takes a character, so that there is a last one. -/

theorem length_skipBlanks_le (line lineStart : Nat) (chars : List (Nat × Char)) :
    (skipBlanks line lineStart chars).chars.length ≤ chars.length := by
  induction chars generalizing line lineStart with
  | nil => exact Nat.le_refl _
  | cons entry rest ih =>
    rw [skipBlanks]
    split
    · exact Nat.le_succ_of_le (ih _ _)
    · split
      · exact Nat.le_succ_of_le (ih _ _)
      · exact Nat.le_refl _

theorem length_takeAccepted_le {σ : Type} (accept : σ → Char → Option σ) (state : σ) (stop : Nat)
    (chars : List (Nat × Char)) :
    (takeAccepted accept state stop chars).2.length ≤ chars.length := by
  induction chars generalizing state stop with
  | nil => exact Nat.le_refl _
  | cons entry rest ih =>
    rw [takeAccepted]
    split
    · exact Nat.le_succ_of_le (ih _ _)
    · exact Nat.le_refl _

theorem length_take_lt (i : Nat) (c : Char) (rest : List (Nat × Char)) :
    ((PieceKind.ofFirst c).take i ((i, c) :: rest)).2.length < rest.length + 1 := by
  rw [PieceKind.ofFirst]
  split
  · next hdigit =>
    rw [PieceKind.take, takeAccepted, inNumber_of_digit hdigit]
    exact Nat.lt_succ_of_le (length_takeAccepted_le _ _ _ _)
  · split
    · next hletter =>
      rw [PieceKind.take, takeAccepted, inWord_of_first hletter]
      exact Nat.lt_succ_of_le (length_takeAccepted_le _ _ _ _)
    · exact Nat.lt_succ_self _

theorem length_next_lt {symbols : SymbolTable} {text : List Char} {s s' : Scanner} {item : Lexeme}
    (h : s.next symbols text = some (some (item, s'))) : s'.chars.length < s.chars.length := by
  have hskip := length_skipBlanks_le s.line s.lineStart s.chars
  rw [next] at h
  dsimp only at h
  split at h
  · cases h
  · next i c rest hchars =>
    rw [hchars] at hskip
    simp only [Option.bind_eq_some_iff, Option.map_eq_some_iff, Option.some.injEq,
      Prod.mk.injEq] at h
    obtain ⟨-, -, -, -, -, rfl⟩ := h
    exact Nat.lt_of_lt_of_le (length_take_lt i c rest) hskip

/-- All items to the end of the text, unless a slice is refused. -/
def items (symbols : SymbolTable) (text : List Char) (s : Scanner) : Option (List Lexeme) :=
  match _h : s.next symbols text with
  | none => none
  | some none => some []
  | some (some (item, s')) => (items symbols text s').map (item :: ·)
  termination_by s.chars.length
  decreasing_by exact length_next_lt _h

end Scanner

/-- The items of a text, unless a slice is refused. -/
def scan (symbols : SymbolTable) (text : String) : Option (List Lexeme) :=
  (Scanner.start text.toList).items symbols text.toList

/-- The tokens of a text, with an error in the place of every piece that is none. No slice is
refused on the way. -/
def lex (symbols : SymbolTable) (text : String) : List Lexeme :=
  (scan symbols text).getD []

end ShiftReduce.Calc
