import ShiftReduce.Grammar.Basic
import ShiftReduce.Text.Sha256
/-!
# Fingerprints

Two grammars of one fingerprint have one action table. The fingerprint is the hash of a string of
bytes that writes down all that shapes the table: the symbols, the accepted symbol, the rules with
their effective levels and arbitrations, and the declared levels. The grammar's name, the names of
rules, and callbacks stay out of it.

In the string every item ends with the byte 0. Numbers are decimal, and a name is preceded by its
length in bytes and a colon, so that the string can be read back in one way only.
-/

namespace ShiftReduce

/-- The identity of a grammar's table. -/
structure Fingerprint where
  digest : Sha256.Digest
  deriving DecidableEq

instance : Inhabited Fingerprint := ⟨⟨Vector.replicate 32 0⟩⟩

/-- The bytes of a fingerprint. -/
def Fingerprint.bytes (f : Fingerprint) : Bytes := f.digest.toList

/-- A fingerprint is shown as sixty-four hexadecimal digits. -/
def Fingerprint.hex (f : Fingerprint) : String := Bytes.hex f.bytes

/-- The fingerprint of thirty-two bytes. -/
def Fingerprint.ofBytes? (b : Bytes) : Option Fingerprint :=
  if h : b.toArray.size = 32 then some ⟨⟨b.toArray, h⟩⟩ else none

namespace Grammar

/-! ## The string that is hashed -/

/-- An item that is a word of the format. -/
def encodeTag (tag : String) : Bytes := Bytes.ofText tag ++ [0]

/-- An item that is a number. -/
def encodeNumber (n : Nat) : Bytes := Bytes.ofText (toString n) ++ [0]

/-- An item that is a name of any length and content. -/
def encodeName (name : String) : Bytes :=
  Bytes.ofText (toString name.utf8ByteSize) ++ Bytes.ofText ":" ++ Bytes.ofText name ++ [0]

/-- A symbol of the table: its kind, then its name. -/
def encodeSymbol (s : Symbol) : Bytes :=
  encodeTag (match s.kind with | .terminal => "t" | .nonterminal => "n") ++ encodeName s.name

/-- The accepted symbol. -/
def encodeTarget : Option SymbolId → Bytes
  | some s => encodeNumber s
  | none => encodeTag "none"

/-- The word for an arbitration. -/
def arbitrationTag : Arbitration → String
  | .shift => "shift"
  | .reduce => "reduce"
  | .fail => "fail"

/-- A rule: number, target, clause, effective level and arbitration. -/
def encodeRule (r : Rule) : Bytes :=
  encodeNumber r.id ++ encodeNumber r.target ++ encodeNumber r.clause.length ++
    r.clause.flatMap encodeNumber ++ encodeNumber r.level ++
    encodeTag (arbitrationTag r.arbitration)

/-- The string of bytes that stands for the structure of a grammar. -/
def encode (g : Grammar) : Bytes :=
  encodeTag "symbols" ++ encodeNumber g.symbols.size ++ g.symbols.entries.flatMap encodeSymbol ++
    (encodeTag "target" ++ encodeTarget g.target) ++
    (encodeTag "rules" ++ encodeNumber g.rules.length ++ g.rules.flatMap encodeRule) ++
    (encodeTag "precedence" ++ encodeNumber g.levels.length ++
      g.levels.flatMap fun p => encodeNumber p.1 ++ encodeNumber p.2)

/-- The fingerprint of a grammar. -/
def fingerprint (g : Grammar) : Fingerprint := ⟨Sha256.hash g.encode⟩

end Grammar

end ShiftReduce
