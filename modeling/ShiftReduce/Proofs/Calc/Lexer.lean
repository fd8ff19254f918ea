import ShiftReduce.Calc.Lexer
import ShiftReduce.Proofs.Calc.Grammar
import Mathlib.Data.List.DropRight
import Mathlib.Data.String.Basic
/-!
# How a text is divided

The lexer divides a text into pieces with white space between them, and locates every piece. A
number is as long as it can be, and so is a word; every other piece is one character.

Offsets count bytes and columns count code points. The invariant is about what was read of the
text: the characters left have the offsets behind it, as many lines were begun as it has newlines,
and the last of them begins behind the last newline. So all offsets that the text is cut at are
those of characters, and no slice is refused.

No piece begins with white space, and the first character tells what a piece is. So a text has one
division only, which is that of the lexer.

Main statements: `Divided.unique`, `Grammar.Valid.lex_divided`.
-/

namespace ShiftReduce

namespace Calc

open String (utf8Len utf8Len_nil utf8Len_cons utf8Len_append)

/-! ## Divisions of a text -/

/-- The property holds of the list, and of no longer one that the list with what follows begins
with. -/
def Longest (P : List Char → Prop) (x rest : List Char) : Prop :=
  P x ∧ ∀ y, y <+: x ++ rest → P y → y.length ≤ x.length

/-- Digits with at most one point among them. -/
def IsNumber (x : List Char) : Prop :=
  (∀ c ∈ x, Text.isAsciiDigit c = true ∨ c = '.') ∧ x.count '.' ≤ 1

/-- Letters, numerals and `_`. -/
def IsWord (x : List Char) : Prop := ∀ c ∈ x, Text.isWordChar c = true

/-- A piece of a text, with the text behind it and the terminal that it is, if it is one. -/
inductive IsPiece (symbols : SymbolTable) : List Char → List Char → Option SymbolId → Prop
  | number {c : Char} {x rest : List Char} : Text.isAsciiDigit c = true →
      Longest IsNumber (c :: x) rest →
      IsPiece symbols (c :: x) rest (symbols.find? .terminal "num")
  | word {c : Char} {x rest : List Char} : Text.isLetter c = true ∨ c = '_' →
      Longest IsWord (c :: x) rest →
      IsPiece symbols (c :: x) rest (symbols.find? .terminal "id")
  | single {c : Char} {rest : List Char} {t : Option SymbolId} : Text.isAsciiDigit c = false →
      Text.isLetter c = false → c ≠ '_' → Text.isBlank c = false →
      (∀ s, t = some s ↔ symbols.find? .terminal (String.ofList [c]) = some s ∧
        s ≠ SymbolId.eoi ∧ s ≠ SymbolId.epsilon) →
      IsPiece symbols [c] rest t

/-- The item for a piece, located by what stands before it: the line by the newlines, the column by
the code points behind the last of them. -/
def located (before x : List Char) (t : Option SymbolId) : Lexeme :=
  lexeme t (String.ofList x) (1 + before.count '\n')
    (1 + (before.rtakeWhile (· != '\n')).length)

/-- What follows in a text is divided into pieces with white space between them, and these are the
items for the pieces. -/
inductive Divided (symbols : SymbolTable) : List Char → List Char → List Lexeme → Prop
  | done {before blanks : List Char} : (∀ c ∈ blanks, Text.isBlank c = true) →
      Divided symbols before blanks []
  | item {before blanks x rest : List Char} {t : Option SymbolId} {items : List Lexeme} :
      (∀ c ∈ blanks, Text.isBlank c = true) → IsPiece symbols x rest t →
      Divided symbols (before ++ blanks ++ x) rest items →
      Divided symbols before (blanks ++ x ++ rest) (located (before ++ blanks) x t :: items)

variable {symbols : SymbolTable} {c : Char} {x y x' left' before rest left : List Char}
  {i line lineStart : Nat} {t t' : Option SymbolId} {items items' : List Lexeme} {s : Scanner}

/-! ## One division only -/

/-- The ranges of the letters, those of ASCII included. -/
def letterRanges : List (Nat × Nat) := (65, 90) :: (97, 122) :: Text.letters

lemma isLetter_eq_inRanges (c : Char) : Text.isLetter c = Text.inRanges letterRanges c.toNat := by
  have halpha : c.isAlpha = Text.inRanges [(65, 90), (97, 122)] c.toNat := by
    show (decide ('A'.val ≤ c.val ∧ c.val ≤ 'Z'.val) ||
      (decide ('a'.val ≤ c.val) && decide (c.val ≤ 'z'.val))) = _
    simp [Text.inRanges, UInt32.le_iff_toNat_le]
  rw [Text.isLetter, halpha, Text.inRanges, Text.inRanges, ← List.any_append]
  rfl

lemma isAsciiDigit_eq_inRanges (c : Char) :
    Text.isAsciiDigit c = Text.inRanges [(48, 57)] c.toNat := by
  simp [Text.isAsciiDigit, Text.inRanges, Char.le_def, UInt32.le_iff_toNat_le]

/-- A number is in no range of two lists if every range of the one is apart from those of the
other. -/
lemma inRanges_eq_false_of_apart {a b : List (Nat × Nat)} {n : Nat}
    (h : (a.all fun p => b.all fun q => decide (p.2 < q.1) || decide (q.2 < p.1)) = true)
    (hn : Text.inRanges a n = true) : Text.inRanges b n = false := by
  simp only [Text.inRanges, List.any_eq_true, List.any_eq_false, Bool.and_eq_true,
    decide_eq_true_eq, List.all_eq_true, Bool.or_eq_true] at h hn ⊢
  obtain ⟨p, hp, hlow, hhigh⟩ := hn
  intro q hq
  have hapart := h p hp q hq
  omega

lemma isLetter_eq_false_of_isBlank (h : Text.isBlank c = true) : Text.isLetter c = false := by
  rw [isLetter_eq_inRanges]
  exact inRanges_eq_false_of_apart (by decide +kernel) h

lemma isLetter_eq_false_of_isAsciiDigit (h : Text.isAsciiDigit c = true) :
    Text.isLetter c = false := by
  rw [isAsciiDigit_eq_inRanges] at h
  rw [isLetter_eq_inRanges]
  exact inRanges_eq_false_of_apart (by decide +kernel) h

lemma isAsciiDigit_eq_false_of_isBlank (h : Text.isBlank c = true) :
    Text.isAsciiDigit c = false := by
  rw [isAsciiDigit_eq_inRanges]
  exact inRanges_eq_false_of_apart (by decide +kernel) h

lemma Longest.unique {P : List Char → Prop} (h : Longest P x left) (h' : Longest P x' left')
    (heq : x ++ left = x' ++ left') : x = x' := by
  have hle : x'.length ≤ x.length := h.2 x' (by rw [heq]; exact List.prefix_append x' left') h'.1
  have hge : x.length ≤ x'.length := h'.2 x (by rw [← heq]; exact List.prefix_append x left) h.1
  exact (List.append_inj heq (Nat.le_antisymm hge hle)).1

lemma isAsciiDigit_eq_false_of_first (h : Text.isLetter c = true ∨ c = '_') :
    Text.isAsciiDigit c = false := by
  rcases h with h | rfl
  · cases hdigit : Text.isAsciiDigit c with
    | false => rfl
    | true =>
      rw [isLetter_eq_false_of_isAsciiDigit hdigit] at h
      cases h
  · rfl

/-- The first character tells what a piece is. -/
lemma IsPiece.of_first (h : IsPiece symbols (c :: x) left t) :
    match PieceKind.ofFirst c with
    | .number => Longest IsNumber (c :: x) left ∧ t = symbols.find? .terminal "num"
    | .word => Longest IsWord (c :: x) left ∧ t = symbols.find? .terminal "id"
    | .single => x = [] ∧ ∀ s, t = some s ↔ symbols.find? .terminal (String.ofList [c]) = some s ∧
        s ≠ SymbolId.eoi ∧ s ≠ SymbolId.epsilon := by
  rw [PieceKind.ofFirst]
  cases h with
  | number hdigit hlongest =>
    rw [if_pos hdigit]
    exact ⟨hlongest, rfl⟩
  | word hletter hlongest =>
    rw [if_neg (by simp [isAsciiDigit_eq_false_of_first hletter]), if_pos (by simpa using hletter)]
    exact ⟨hlongest, rfl⟩
  | single hdigit hletter hne hblank hterminal =>
    rw [if_neg (by simp [hdigit]), if_neg (by simp [hletter, hne])]
    exact ⟨rfl, hterminal⟩

/-- White space begins no piece. -/
lemma IsPiece.exists_cons (h : IsPiece symbols x left t) :
    ∃ c x', x = c :: x' ∧ Text.isBlank c = false := by
  have hno : ∀ {c}, (Text.isAsciiDigit c = true ∨ Text.isLetter c = true ∨ c = '_') →
      Text.isBlank c = false := by
    rintro c (hdigit | hletter | rfl)
    · refine Bool.eq_false_iff.mpr fun hblank => ?_
      rw [isAsciiDigit_eq_false_of_isBlank hblank] at hdigit
      cases hdigit
    · refine Bool.eq_false_iff.mpr fun hblank => ?_
      rw [isLetter_eq_false_of_isBlank hblank] at hletter
      cases hletter
    · rfl
  cases h with
  | number hdigit => exact ⟨_, _, rfl, hno (.inl hdigit)⟩
  | word hletter => exact ⟨_, _, rfl, hno (.inr hletter)⟩
  | single _ _ _ hblank => exact ⟨_, _, rfl, hblank⟩

lemma IsPiece.length_pos (h : IsPiece symbols x left t) : 0 < x.length := by
  obtain ⟨c, x, rfl, -⟩ := h.exists_cons
  exact Nat.succ_pos _

/-- A piece and its terminal are determined by the text from its first character on. -/
lemma IsPiece.unique (h : IsPiece symbols x left t) (h' : IsPiece symbols x' left' t')
    (heq : x ++ left = x' ++ left') : x = x' ∧ t = t' := by
  obtain ⟨c, x, rfl, -⟩ := h.exists_cons
  obtain ⟨c', x', rfl, -⟩ := h'.exists_cons
  obtain ⟨rfl, -⟩ := List.cons.inj heq
  have hfirst := h.of_first
  have hfirst' := h'.of_first
  cases hkind : PieceKind.ofFirst c with
  | number =>
    rw [hkind] at hfirst hfirst'
    exact ⟨hfirst.1.unique hfirst'.1 heq, hfirst.2.trans hfirst'.2.symm⟩
  | word =>
    rw [hkind] at hfirst hfirst'
    exact ⟨hfirst.1.unique hfirst'.1 heq, hfirst.2.trans hfirst'.2.symm⟩
  | single =>
    rw [hkind] at hfirst hfirst'
    obtain ⟨rfl, hterminal⟩ := hfirst
    obtain ⟨rfl, hterminal'⟩ := hfirst'
    exact ⟨rfl, Option.ext fun s => (hterminal s).trans (hterminal' s).symm⟩

/-- The white space before a piece is all that there is. -/
lemma IsPiece.takeWhile_blanks {blanks : List Char} (h : IsPiece symbols x left t)
    (hblanks : ∀ c ∈ blanks, Text.isBlank c = true) :
    (blanks ++ (x ++ left)).takeWhile Text.isBlank = blanks := by
  obtain ⟨c, x, rfl, hblank⟩ := h.exists_cons
  rw [List.takeWhile_append_of_pos hblanks, List.cons_append,
    List.takeWhile_cons_of_neg (by simp [hblank]), List.append_nil]

/-- A text is divided in one way only. -/
theorem Divided.unique (h : Divided symbols before rest items)
    (h' : Divided symbols before rest items') : items = items' := by
  induction h generalizing items' with
  | @done before blanks hblanks =>
    cases h' with
    | done => rfl
    | @item _ blanks' x left t items' hblanks' hpiece =>
      obtain ⟨c, x, rfl, hblank⟩ := hpiece.exists_cons
      rw [hblanks c (by simp)] at hblank
      cases hblank
  | @item before blanks x left t items hblanks hpiece hdivided ih =>
    generalize hrest : blanks ++ x ++ left = rest at h'
    cases h' with
    | done hblanks' =>
      obtain ⟨c, x, rfl, hblank⟩ := hpiece.exists_cons
      rw [hblanks' c (by rw [← hrest]; simp)] at hblank
      cases hblank
    | @item _ blanks' x' left' t' items' hblanks' hpiece' hdivided' =>
      rw [List.append_assoc, List.append_assoc] at hrest
      have hsame : blanks = blanks' := by
        rw [← hpiece.takeWhile_blanks hblanks, hrest, hpiece'.takeWhile_blanks hblanks']
      subst hsame
      have heq : x ++ left = x' ++ left' := List.append_cancel_left hrest
      obtain ⟨rfl, rfl⟩ := hpiece.unique hpiece' heq
      obtain rfl := List.append_cancel_left heq
      rw [ih hdivided']

/-! ## Bytes -/

lemma dropBytes_utf8Len (x y : List Char) : dropBytes (utf8Len x) (x ++ y) = some y := by
  induction x with
  | nil => rw [utf8Len_nil, dropBytes, List.nil_append]
  | cons c x ih =>
    obtain ⟨n, hn⟩ := Nat.exists_eq_add_of_lt c.utf8Size_pos
    rw [utf8Len_cons, List.cons_append, show utf8Len x + c.utf8Size = n + utf8Len x + 1 by omega,
      dropBytes, if_pos (by omega), show n + utf8Len x + 1 - c.utf8Size = utf8Len x by omega, ih]

lemma takeBytes_utf8Len (x y : List Char) : takeBytes (utf8Len x) (x ++ y) = some x := by
  induction x with
  | nil => rw [utf8Len_nil, takeBytes]
  | cons c x ih =>
    obtain ⟨n, hn⟩ := Nat.exists_eq_add_of_lt c.utf8Size_pos
    rw [utf8Len_cons, List.cons_append, show utf8Len x + c.utf8Size = n + utf8Len x + 1 by omega,
      takeBytes, if_pos (by omega), show n + utf8Len x + 1 - c.utf8Size = utf8Len x by omega, ih]
    rfl

/-- Between the offsets before and behind it a text is cut out. -/
lemma slice_utf8Len (before x rest : List Char) :
    slice (before ++ x ++ rest) (utf8Len before) (utf8Len (before ++ x)) = some x := by
  rw [slice, utf8Len_append, if_pos (Nat.le_add_right _ _), Nat.add_sub_cancel_left,
    List.append_assoc, dropBytes_utf8Len, Option.bind_some, takeBytes_utf8Len]

/-! ## Pieces -/

/-- Characters are taken as long as they are accepted. -/
lemma takeAccepted_indexed {σ : Type} (accept : σ → Char → Option σ) (state : σ) (i : Nat)
    (rest : List Char) : ∃ x left, rest = x ++ left ∧
      takeAccepted accept state i (indexed i rest) =
        (i + utf8Len x, indexed (i + utf8Len x) left) ∧
      ∃ state', x.foldlM accept state = some state' ∧ ∀ c ∈ left.head?, accept state' c = none := by
  induction rest generalizing state i with
  | nil => exact ⟨[], [], rfl, rfl, state, rfl, by simp⟩
  | cons c rest ih =>
    rw [indexed, takeAccepted]
    cases haccept : accept state c with
    | none =>
      refine ⟨[], c :: rest, rfl, rfl, state, rfl, fun c' hc' => ?_⟩
      obtain rfl := Option.some.inj hc'
      exact haccept
    | some state₁ =>
      obtain ⟨x, left, rfl, htake, state', hfold, hleft⟩ := ih state₁ (i + c.utf8Size)
      refine ⟨c :: x, left, rfl, ?_, state', ?_, hleft⟩
      · rw [utf8Len_cons, Nat.add_comm (utf8Len x), ← Nat.add_assoc]
        exact htake
      · rw [List.foldlM_cons, haccept]
        exact hfold

/-- What was taken until a character was not accepted is the longest that is accepted. -/
lemma longest_of_foldlM {σ : Type} {accept : σ → Char → Option σ} {state state' : σ}
    {P : List Char → Prop} (hP : ∀ x, P x ↔ (x.foldlM accept state).isSome = true)
    (hx : x.foldlM accept state = some state') (hleft : ∀ c ∈ left.head?, accept state' c = none) :
    Longest P x left := by
  refine ⟨(hP x).mpr (by rw [hx]; rfl), fun y hy hPy => ?_⟩
  by_contra hlt
  obtain ⟨z, rfl⟩ := List.prefix_of_prefix_length_le (List.prefix_append x left) hy
    (Nat.le_of_not_le hlt)
  cases z with
  | nil => exact hlt (by rw [List.append_nil])
  | cons c z =>
    obtain ⟨w, hw⟩ := hy
    rw [List.append_assoc, List.append_cancel_left_eq] at hw
    have hnone := hleft c (by rw [← hw]; rfl)
    rw [hP, List.foldlM_append, hx, Option.bind_eq_bind, Option.bind_some, List.foldlM_cons,
      hnone] at hPy
    cases hPy

lemma isWord_iff (x : List Char) : IsWord x ↔ (x.foldlM inWord ()).isSome = true := by
  induction x with
  | nil => simp [IsWord]
  | cons c x ih =>
    rw [IsWord, List.forall_mem_cons, List.foldlM_cons, inWord]
    cases Text.isWordChar c with
    | true => simpa [IsWord] using ih
    | false => simp

/-- A point is not a digit. -/
lemma isAsciiDigit_point : Text.isAsciiDigit '.' = false := rfl

lemma isNumber_iff_of (pointSeen : Bool) (x : List Char) :
    ((∀ c ∈ x, Text.isAsciiDigit c = true ∨ c = '.') ∧ x.count '.' + pointSeen.toNat ≤ 1) ↔
      (x.foldlM inNumber pointSeen).isSome = true := by
  induction x generalizing pointSeen with
  | nil => cases pointSeen <;> simp
  | cons c x ih =>
    rw [List.forall_mem_cons, List.foldlM_cons, inNumber, List.count_cons]
    by_cases hpoint : c = '.'
    · subst hpoint
      cases pointSeen with
      | true => simp [isAsciiDigit_point]
      | false => simpa [Nat.add_assoc] using ih true
    · cases hdigit : Text.isAsciiDigit c with
      | true => simpa [hpoint] using ih pointSeen
      | false => simp [hpoint]

lemma isNumber_iff (x : List Char) : IsNumber x ↔ (x.foldlM inNumber false).isSome = true :=
  isNumber_iff_of false x

/-! ### What is taken for a piece -/

lemma newline_notMem_of_isNumber (h : IsNumber x) : '\n' ∉ x := by
  intro hmem
  rcases h.1 '\n' hmem with hdigit | hpoint
  · cases hdigit
  · exact absurd hpoint (by decide)

lemma isWordChar_newline : Text.isWordChar '\n' = false := by decide +kernel

lemma newline_notMem_of_isWord (h : IsWord x) : '\n' ∉ x := fun hmem => by
  have hword := h '\n' hmem
  rw [isWordChar_newline] at hword
  cases hword

lemma isBlank_newline : Text.isBlank '\n' = true := rfl

/-- A run whose first character is accepted begins with it. -/
lemma cons_of_takeAccepted {σ : Type} {accept : σ → Char → Option σ} {state state' : σ}
    (hsplit : c :: rest = x ++ left) (hx : x.foldlM accept state = some state')
    (hleft : ∀ c ∈ left.head?, accept state' c = none) (hfirst : accept state c ≠ none) :
    ∃ x', x = c :: x' := by
  cases x with
  | nil =>
    cases hx
    rw [List.nil_append] at hsplit
    exact absurd (hleft c (by rw [← hsplit]; rfl)) hfirst
  | cons c' x' =>
    rw [List.cons_append] at hsplit
    obtain ⟨rfl, -⟩ := List.cons.inj hsplit
    exact ⟨x', rfl⟩

/-- What is taken from a character on that is not white space is a piece on one line. -/
lemma take_indexed (symbols : SymbolTable) (i : Nat) (hblank : Text.isBlank c = false)
    (rest : List Char) : ∃ x left, c :: rest = x ++ left ∧
      (PieceKind.ofFirst c).take i (indexed i (c :: rest)) =
        (i + utf8Len x, indexed (i + utf8Len x) left) ∧
      IsPiece symbols x left (terminal? symbols (PieceKind.ofFirst c) (String.ofList x)) ∧
      '\n' ∉ x := by
  rw [PieceKind.ofFirst]
  cases hdigit : Text.isAsciiDigit c with
  | true =>
    obtain ⟨x, left, hsplit, htake, state', hfold, hleft⟩ :=
      takeAccepted_indexed inNumber false i (c :: rest)
    obtain ⟨x, rfl⟩ := cons_of_takeAccepted hsplit hfold hleft (by simp [inNumber_of_digit hdigit])
    have hlongest := longest_of_foldlM isNumber_iff hfold hleft
    exact ⟨c :: x, left, hsplit, htake, .number hdigit hlongest,
      newline_notMem_of_isNumber hlongest.1⟩
  | false =>
    rw [if_neg Bool.false_ne_true]
    cases hletter : Text.isLetter c || c == '_' with
    | true =>
      have hfirst : Text.isLetter c = true ∨ c = '_' := by simpa using hletter
      obtain ⟨x, left, hsplit, htake, state', hfold, hleft⟩ :=
        takeAccepted_indexed inWord () i (c :: rest)
      obtain ⟨x, rfl⟩ := cons_of_takeAccepted hsplit hfold hleft (by simp [inWord_of_first hletter])
      have hlongest := longest_of_foldlM isWord_iff hfold hleft
      exact ⟨c :: x, left, hsplit, htake, .word hfirst hlongest,
        newline_notMem_of_isWord hlongest.1⟩
    | false =>
      obtain ⟨hnot, hne⟩ : Text.isLetter c = false ∧ c ≠ '_' := by simpa using hletter
      refine ⟨[c], rest, rfl, ?_, .single hdigit hnot hne hblank fun s => ?_, fun hmem => ?_⟩
      · rw [if_neg Bool.false_ne_true, utf8Len_cons, utf8Len_nil, Nat.zero_add]
        rfl
      · rw [if_neg Bool.false_ne_true, terminal?, Option.filter_eq_some_iff]
        simp
      · rw [← List.mem_singleton.mp hmem, isBlank_newline] at hblank
        cases hblank

/-! ## Where the scanner is -/

/-- The scanner has read the first part of a text and has the second before it. -/
structure Scanner.At (s : Scanner) (before rest : List Char) : Prop where
  chars : s.chars = indexed (utf8Len before) rest
  line : s.line = 1 + before.count '\n'
  lineStart : s.lineStart = utf8Len (before.rdropWhile (· != '\n'))

lemma rdropWhile_append_of_notMem (before : List Char) (h : '\n' ∉ x) :
    (before ++ x).rdropWhile (· != '\n') = before.rdropWhile (· != '\n') := by
  induction x using List.reverseRecOn with
  | nil => rw [List.append_nil]
  | append_singleton x c ih =>
    rw [List.mem_append, not_or, List.mem_singleton] at h
    rw [← List.append_assoc, List.rdropWhile_concat_pos _ _ _ (by simpa using Ne.symm h.2), ih h.1]

/-- Within a line only the characters change. -/
lemma Scanner.At.append (h : s.At before rest) (hx : '\n' ∉ x) (left : List Char) :
    { s with chars := indexed (utf8Len (before ++ x)) left }.At (before ++ x) left where
  chars := rfl
  line := by rw [List.count_append, List.count_eq_zero_of_not_mem hx, Nat.add_zero, h.line]
  lineStart := by rw [rdropWhile_append_of_notMem before hx, h.lineStart]

/-- Behind a newline the next line begins. -/
lemma Scanner.At.newline (h : s.At before rest) (hfits : before.length + 2 < wordRange)
    (left : List Char) : Scanner.At ⟨indexed (utf8Len (before ++ ['\n'])) left,
      (s.line + 1) % wordRange, utf8Len before + 1⟩ (before ++ ['\n']) left where
  chars := rfl
  line := by
    have hcount : before.count '\n' ≤ before.length := List.count_le_length
    show (s.line + 1) % wordRange = _
    rw [h.line, Nat.mod_eq_of_lt (by omega), List.count_append, List.count_singleton_self]
    omega
  lineStart := by
    rw [List.rdropWhile_concat_neg _ _ _ (by simp), utf8Len_append]
    rfl

/-- White space is skipped, with the newlines in it, up to a character that is none. -/
lemma skipBlanks_at (h : Scanner.At ⟨indexed (utf8Len before) rest, line, lineStart⟩ before rest)
    (hfits : (before ++ rest).length + 1 < wordRange) :
    ∃ blanks left, rest = blanks ++ left ∧ (∀ c ∈ blanks, Text.isBlank c = true) ∧
      (∀ c ∈ left.head?, Text.isBlank c = false) ∧
      (Scanner.skipBlanks line lineStart (indexed (utf8Len before) rest)).At
        (before ++ blanks) left := by
  induction rest generalizing before line lineStart with
  | nil => exact ⟨[], [], rfl, by simp, by simp, by rwa [List.append_nil]⟩
  | cons c rest ih =>
    have hsucc : utf8Len before + c.utf8Size = utf8Len (before ++ [c]) := by simp
    have hfits' : (before ++ [c] ++ rest).length + 1 < wordRange := by
      rwa [List.append_assoc]
    -- the characters behind this one are looked at from the place behind it
    have hgo : ∀ {line' lineStart'}, Text.isBlank c = true →
        Scanner.At ⟨indexed (utf8Len (before ++ [c])) rest, line', lineStart'⟩
          (before ++ [c]) rest →
        ∃ blanks left, c :: rest = blanks ++ left ∧ (∀ c ∈ blanks, Text.isBlank c = true) ∧
          (∀ c ∈ left.head?, Text.isBlank c = false) ∧
          (Scanner.skipBlanks line' lineStart' (indexed (utf8Len (before ++ [c])) rest)).At
            (before ++ blanks) left := by
      intro line' lineStart' hblank hat
      obtain ⟨blanks, left, rfl, hblanks, hleft, hat'⟩ := ih hat hfits'
      rw [List.append_assoc] at hat'
      exact ⟨c :: blanks, left, rfl, List.forall_mem_cons.mpr ⟨hblank, hblanks⟩, hleft, hat'⟩
    rw [indexed, Scanner.skipBlanks, hsucc]
    split
    · next hnewline =>
      subst hnewline
      refine hgo isBlank_newline (h.newline ?_ rest)
      rw [List.length_append, List.length_cons] at hfits
      omega
    · next hne =>
      split
      · next hblank => exact hgo hblank (h.append (by simpa using Ne.symm hne) rest)
      · next hblank =>
        refine ⟨[], c :: rest, rfl, by simp, fun c' hc' => ?_, ?_⟩
        · obtain rfl := Option.some.inj hc'
          simpa using hblank
        · rw [List.append_nil]
          rw [indexed, hsucc] at h
          exact h

/-- The column is found by a slice, from where the line begins. -/
lemma column?_at (h : s.At before rest) (hfits : before.length + 1 < wordRange) (left : List Char) :
    Scanner.column? (before ++ left) s.lineStart (utf8Len before) =
      some (1 + (before.rtakeWhile (· != '\n')).length) := by
  have hsplit : before.rdropWhile (· != '\n') ++ before.rtakeWhile (· != '\n') = before :=
    List.rdropWhile_append_rtakeWhile
  have hle : (before.rtakeWhile (· != '\n')).length ≤ before.length :=
    (List.rtakeWhile_suffix _ _).length_le
  have hslice := slice_utf8Len (before.rdropWhile (· != '\n')) (before.rtakeWhile (· != '\n')) left
  rw [hsplit] at hslice
  have hlt : (before.rtakeWhile (· != '\n')).length < wordRange := by omega
  rw [Scanner.column?, h.lineStart, hslice, Option.map_some, Nat.mod_eq_of_lt hlt,
    Nat.mod_eq_of_lt (by omega), Nat.add_comm]

/-! ## The items of a text -/

/-- No slice is refused: either only white space is left, or there is an item for the next piece and
the scanner is behind it. -/
lemma next_at (symbols : SymbolTable) (h : s.At before rest)
    (hfits : (before ++ rest).length + 1 < wordRange) :
    ((∀ c ∈ rest, Text.isBlank c = true) ∧ s.next symbols (before ++ rest) = some none) ∨
    ∃ blanks x left t s', rest = blanks ++ x ++ left ∧ (∀ c ∈ blanks, Text.isBlank c = true) ∧
      IsPiece symbols x left t ∧ s'.At (before ++ blanks ++ x) left ∧
      s.next symbols (before ++ rest) = some (some (located (before ++ blanks) x t, s')) := by
  obtain ⟨blanks, left, rfl, hblanks, hleft, hat⟩ := skipBlanks_at
    (⟨rfl, h.line, h.lineStart⟩ : Scanner.At ⟨_, s.line, s.lineStart⟩ before rest) hfits
  rw [← h.chars] at hat
  generalize hskip : Scanner.skipBlanks s.line s.lineStart s.chars = s₁ at hat
  cases left with
  | nil =>
    left
    rw [List.append_nil]
    refine ⟨hblanks, ?_⟩
    have hchars : s₁.chars = [] := hat.chars
    simp only [Scanner.next, hskip, hchars]
  | cons c left =>
    right
    obtain ⟨x, left', hsplit, htake, hpiece, hline⟩ :=
      take_indexed symbols (utf8Len (before ++ blanks)) (hleft c rfl) left
    have hchars : s₁.chars = (utf8Len (before ++ blanks), c) ::
        indexed (utf8Len (before ++ blanks) + c.utf8Size) left := hat.chars
    have htext : before ++ (blanks ++ c :: left) = before ++ blanks ++ x ++ left' := by
      rw [hsplit, List.append_assoc, List.append_assoc]
    have hfits' : (before ++ blanks).length + 1 < wordRange := by
      simp only [List.length_append] at hfits ⊢
      omega
    have hslice := slice_utf8Len (before ++ blanks) x left'
    have hcolumn := column?_at hat hfits' (x ++ left')
    rw [← List.append_assoc] at hcolumn
    rw [indexed] at htake
    refine ⟨blanks, x, left', _, _, by rw [hsplit, List.append_assoc], hblanks, hpiece,
      hat.append hline left', ?_⟩
    rw [utf8Len_append (before ++ blanks) x] at hslice ⊢
    simp only [Scanner.next, hskip, hchars, htake, htext, hslice, hcolumn, hat.line,
      Option.bind_some, Option.map_some]
    rfl

lemma Scanner.items_eq_nil {text : List Char} (h : s.next symbols text = some none) :
    s.items symbols text = some [] := by
  rw [Scanner.items, h]

lemma Scanner.items_eq_cons {text : List Char} {item : Lexeme} {s' : Scanner}
    (h : s.next symbols text = some (some (item, s'))) :
    s.items symbols text = (s'.items symbols text).map (item :: ·) := by
  rw [Scanner.items, h]

/-- All items are found, and divide what is left of the text. -/
lemma items_at (symbols : SymbolTable) (h : s.At before rest)
    (hfits : (before ++ rest).length + 1 < wordRange) :
    ∃ items, s.items symbols (before ++ rest) = some items ∧ Divided symbols before rest items := by
  induction hn : rest.length using Nat.strong_induction_on generalizing s before rest with
  | _ n ih =>
    rcases next_at symbols h hfits with ⟨hblanks, hnext⟩ |
      ⟨blanks, x, left, t, s', rfl, hblanks, hpiece, hat, hnext⟩
    · exact ⟨[], Scanner.items_eq_nil hnext, .done hblanks⟩
    · have hpos : 0 < x.length := hpiece.length_pos
      have htext : before ++ (blanks ++ x ++ left) = before ++ blanks ++ x ++ left := by
        simp only [List.append_assoc]
      rw [htext] at hfits hnext ⊢
      obtain ⟨items, hitems, hdivided⟩ := ih left.length (by
        rw [← hn, List.length_append, List.length_append]
        omega) hat hfits rfl
      refine ⟨_ :: items, ?_, .item hblanks hpiece hdivided⟩
      rw [Scanner.items_eq_cons hnext, hitems, Option.map_some]

lemma scan_divided (symbols : SymbolTable) {text : String} (hfits : text.length + 1 < wordRange) :
    scan symbols text = some (lex symbols text) ∧
      Divided symbols [] text.toList (lex symbols text) := by
  have hat : (Scanner.start text.toList).At [] text.toList := ⟨rfl, rfl, rfl⟩
  obtain ⟨items, hitems, hdivided⟩ := items_at symbols hat (by
    rwa [List.nil_append, String.length_toList])
  have hscan : scan symbols text = some items := hitems
  rw [lex, hscan]
  exact ⟨rfl, hdivided⟩

/-- The items of a text are those of its division. -/
theorem divided_iff_eq_lex (symbols : SymbolTable) {text : String}
    (hfits : text.length + 1 < wordRange) :
    Divided symbols [] text.toList items ↔ items = lex symbols text := by
  have hlex := (scan_divided symbols hfits).2
  exact ⟨fun h => h.unique hlex, fun h => h ▸ hlex⟩

/-! ## Reserved terminals -/

lemma ne_reserved_of_find? {g : Grammar} (hg : g.Valid) {name : String} {t : SymbolId}
    (h : g.symbols.find? .terminal name = some t) (heoi : name ≠ "$") (hepsilon : name ≠ "ε") :
    t ≠ SymbolId.eoi ∧ t ≠ SymbolId.epsilon := by
  have hget : g.symbols.get? t = some ⟨.terminal, name⟩ := by
    obtain ⟨hlt, heq, -⟩ := List.idxOf?_eq_some_iff.mp h
    rw [SymbolTable.get?, List.getElem?_eq_getElem hlt, heq]
  have hreserved : ∀ {s : SymbolId} {e : Symbol}, SymbolTable.initial.get? s = some e →
      e.name ≠ name → t ≠ s := by
    rintro s e he hne rfl
    have he' := SymbolTable.getElem?_of_prefix hg.reserved he
    rw [hget] at he'
    exact hne (congrArg Symbol.name (Option.some.inj he').symm)
  exact ⟨hreserved (e := ⟨.terminal, "$"⟩) rfl heoi.symm,
    hreserved (e := ⟨.terminal, "ε"⟩) rfl hepsilon.symm⟩

/-- A piece is not one of the reserved terminals: if it is a single character they are left out, and
otherwise the terminal has another name. -/
lemma IsPiece.ne_reserved {g : Grammar} (hg : g.Valid) {t : SymbolId}
    (h : IsPiece g.symbols x left (some t)) : t ≠ SymbolId.eoi ∧ t ≠ SymbolId.epsilon := by
  generalize ht : some t = t' at h
  cases h with
  | number hfirst hlongest => exact ne_reserved_of_find? hg ht.symm (by decide) (by decide)
  | word hfirst hlongest => exact ne_reserved_of_find? hg ht.symm (by decide) (by decide)
  | single hdigit hletter hne hblank hterminal => exact ((hterminal t).mp ht.symm).2

lemma Divided.ne_reserved {g : Grammar} (hg : g.Valid) {items : List Lexeme}
    (h : Divided g.symbols before rest items) {token : Token} (htoken : .ok token ∈ items) :
    token.symbol ≠ SymbolId.eoi ∧ token.symbol ≠ SymbolId.epsilon := by
  induction h with
  | done => cases htoken
  | @item before blanks x rest t items hblanks hpiece hdivided ih =>
    rcases List.mem_cons.mp htoken with heq | hmem
    · cases t with
      | none => cases heq
      | some s =>
        cases heq
        exact hpiece.ne_reserved hg
    · exact ih hmem

end Calc

/-- The lexer comes to the end of every text that has fewer code points than there are 32-bit words,
but for one, and cuts it between characters only. Its items are those for pieces with white space
between them, each in its place, and no token is for one of the reserved terminals. -/
theorem Grammar.Valid.lex_divided {g : Grammar} (hg : g.Valid) (text : String)
    (hfits : text.length < wordRange - 1) :
    Calc.scan g.symbols text = some (Calc.lex g.symbols text) ∧
      Calc.Divided g.symbols [] text.toList (Calc.lex g.symbols text) ∧
      ∀ token, .ok token ∈ Calc.lex g.symbols text →
        token.symbol ≠ SymbolId.eoi ∧ token.symbol ≠ SymbolId.epsilon := by
  obtain ⟨hscan, hdivided⟩ :=
    Calc.scan_divided g.symbols (show text.length + 1 < wordRange by omega)
  exact ⟨hscan, hdivided, fun token => hdivided.ne_reserved hg⟩

/-- A number, a reserved terminal, which is an error, and a number on the next line. -/
theorem Calc.lex_divided_lines : Calc.arithmetic.Valid ∧ "1 $\n 2".length < wordRange - 1 ∧
    Calc.lex Calc.arithmetic.symbols "1 $\n 2" =
      [.ok ⟨12, "1", 1, 1⟩, .error ⟨"unexpected `$`", 1, 3⟩, .ok ⟨12, "2", 2, 2⟩] ∧
    Calc.Divided Calc.arithmetic.symbols [] "1 $\n 2".toList
      [.ok ⟨12, "1", 1, 1⟩, .error ⟨"unexpected `$`", 1, 3⟩, .ok ⟨12, "2", 2, 2⟩] := by
  have hfits : "1 $\n 2".length < wordRange - 1 := by decide
  obtain ⟨hscan, hdivided, -⟩ := Calc.valid_arithmetic.lex_divided "1 $\n 2" hfits
  have hlex : Calc.lex Calc.arithmetic.symbols "1 $\n 2" =
      [.ok ⟨12, "1", 1, 1⟩, .error ⟨"unexpected `$`", 1, 3⟩, .ok ⟨12, "2", 2, 2⟩] := by
    have hone : (Calc.Scanner.start "1 $\n 2".toList).next Calc.arithmetic.symbols
        "1 $\n 2".toList = some (some (.ok ⟨12, "1", 1, 1⟩,
          ⟨[(1, ' '), (2, '$'), (3, '\n'), (4, ' '), (5, '2')], 1, 0⟩)) := by decide +kernel
    have hdollar : Calc.Scanner.next Calc.arithmetic.symbols "1 $\n 2".toList
        ⟨[(1, ' '), (2, '$'), (3, '\n'), (4, ' '), (5, '2')], 1, 0⟩ =
        some (some (.error ⟨"unexpected `$`", 1, 3⟩,
          ⟨[(3, '\n'), (4, ' '), (5, '2')], 1, 0⟩)) := by decide +kernel
    have htwo : Calc.Scanner.next Calc.arithmetic.symbols "1 $\n 2".toList
        ⟨[(3, '\n'), (4, ' '), (5, '2')], 1, 0⟩ =
        some (some (.ok ⟨12, "2", 2, 2⟩, ⟨[], 2, 4⟩)) := by decide +kernel
    rw [Calc.scan, Calc.Scanner.items_eq_cons hone, Calc.Scanner.items_eq_cons hdollar,
      Calc.Scanner.items_eq_cons htwo, Calc.Scanner.items_eq_nil rfl] at hscan
    exact (Option.some.inj hscan).symm
  exact ⟨Calc.valid_arithmetic, hfits, hlex, hlex ▸ hdivided⟩

end ShiftReduce
