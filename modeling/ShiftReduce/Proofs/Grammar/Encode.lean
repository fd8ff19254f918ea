import ShiftReduce.Fingerprint
import ShiftReduce.Proofs.Table.Bare
import ShiftReduce.Proofs.Text.Bytes
/-!
# The string behind a fingerprint

The string that is hashed can be read back in one way only. Every item ends with a zero byte that
cannot be part of it, or tells its length before it begins, and every list tells the number of its
members. So two grammars with one string have the same symbols, the same accepted symbol, the same
levels and, but for names and callbacks, the same rules. These are what a table is made from.

Main statements: `Grammar.bare_eq_of_encode_eq` and `Grammar.table_eq_of_encode_eq`.
-/

namespace ShiftReduce

/-! ## Digits -/

/-- The bytes of a number are those of its digits. -/
lemma mem_ofText_toString {n : Nat} {b : UInt8} (h : b ∈ Bytes.ofText (toString n)) :
    48 ≤ b.toNat ∧ b.toNat ≤ 57 := by
  have hascii : ∀ c ∈ (toString n).toList, Bytes.IsAscii c := fun c hc =>
    Nat.lt_of_le_of_lt (toNat_of_isDigit (isDigit_of_mem_toString hc)).2 (by decide)
  rw [← String.ofList_toList (s := toString n), Bytes.ofText_ofList hascii] at h
  obtain ⟨c, hc, rfl⟩ := List.mem_map.mp h
  have hbounds := toNat_of_isDigit (isDigit_of_mem_toString hc)
  have hbyte : c.toUInt8.toNat = c.toNat := by
    show c.val.toUInt8.toNat = c.val.toNat
    rw [UInt32.toNat_toUInt8]
    exact Nat.mod_eq_of_lt (Nat.lt_of_le_of_lt hbounds.2 (by decide))
  rwa [hbyte]

/-! ## Items that end where they say -/

/-- What comes before the first of some mark is known. -/
lemma eq_of_append_cons_eq {α : Type} {a : α} {u v x y : List α} (hu : a ∉ u) (hv : a ∉ v)
    (h : u ++ a :: x = v ++ a :: y) : u = v ∧ x = y := by
  rcases List.append_eq_append_iff.mp h with ⟨l, rfl, hl⟩ | ⟨l, rfl, hl⟩
  · cases l with
    | nil => exact ⟨(List.append_nil u).symm, (List.cons.inj hl).2⟩
    | cons b l =>
      rw [(List.cons.inj hl).1] at hv
      exact absurd (List.mem_append_right u List.mem_cons_self) hv
  · cases l with
    | nil => exact ⟨List.append_nil v, (List.cons.inj hl).2.symm⟩
    | cons b l =>
      rw [(List.cons.inj hl).1] at hu
      exact absurd (List.mem_append_right v List.mem_cons_self) hu

/-- What is written tells where it ends, and gives back what the key says of the value. -/
def Delimited {α β : Type} (key : α → β) (write : α → Bytes) : Prop :=
  ∀ ⦃a b : α⦄ ⦃x y : Bytes⦄, write a ++ x = write b ++ y → key a = key b ∧ x = y

namespace Grammar

variable {α β : Type} {key : α → β} {write : α → Bytes}

/-- A word without zero bytes ends at the next zero byte. -/
lemma delimited_encodeTag {word : α → String} (hword : Function.Injective word)
    (hzero : ∀ a, 0 ∉ Bytes.ofText (word a)) : Delimited id fun a => encodeTag (word a) := by
  intro a b x y h
  simp only [encodeTag, List.append_assoc, List.singleton_append] at h
  obtain ⟨hbytes, hrest⟩ := eq_of_append_cons_eq (hzero a) (hzero b) h
  exact ⟨hword (Bytes.ofText_injective hbytes), hrest⟩

lemma zero_notMem_ofText_toString (n : Nat) : 0 ∉ Bytes.ofText (toString n) := fun h =>
  absurd (mem_ofText_toString h).1 (by decide)

lemma delimited_encodeNumber : Delimited id encodeNumber :=
  delimited_encodeTag toString_injective zero_notMem_ofText_toString

/-- The colon ends the length of a name, and the length tells where the name ends. -/
lemma delimited_encodeName : Delimited id encodeName := by
  intro s t x y h
  have hcolon : Bytes.ofText ":" = [58] := rfl
  simp only [encodeName, hcolon, List.append_assoc, List.singleton_append] at h
  have hnot : ∀ n : Nat, 58 ∉ Bytes.ofText (toString n) := fun n hn =>
    absurd (mem_ofText_toString hn).2 (by decide)
  obtain ⟨hlength, hrest⟩ := eq_of_append_cons_eq (hnot _) (hnot _) h
  have hsize : s.utf8ByteSize = t.utf8ByteSize :=
    toString_injective (Bytes.ofText_injective hlength)
  rw [← Bytes.length_ofText, ← Bytes.length_ofText] at hsize
  obtain ⟨hname, hrest⟩ := List.append_inj hrest hsize
  exact ⟨Bytes.ofText_injective hname, (List.cons.inj hrest).2⟩

/-- A list that begins with its length ends with its last member. -/
lemma delimited_list (h : Delimited key write) :
    Delimited (List.map key) fun l => encodeNumber l.length ++ l.flatMap write := by
  have hmembers : ∀ (l l' : List α) (x y : Bytes), l.length = l'.length →
      l.flatMap write ++ x = l'.flatMap write ++ y → l.map key = l'.map key ∧ x = y := by
    intro l
    induction l with
    | nil =>
      intro l' x y hlength heq
      cases List.length_eq_zero_iff.mp hlength.symm
      exact ⟨rfl, heq⟩
    | cons a l ih =>
      intro l' x y hlength heq
      cases l' with
      | nil => cases hlength
      | cons b l' =>
        rw [List.flatMap_cons, List.flatMap_cons, List.append_assoc, List.append_assoc] at heq
        obtain ⟨hkey, heq⟩ := h heq
        obtain ⟨hkeys, heq⟩ := ih l' x y (Nat.succ.inj hlength) heq
        exact ⟨by rw [List.map_cons, List.map_cons, hkey, hkeys], heq⟩
  intro l l' x y heq
  simp only [List.append_assoc] at heq
  obtain ⟨hlength, heq⟩ := delimited_encodeNumber heq
  exact hmembers l l' x y hlength heq

/-! ## The parts of the string -/

lemma delimited_encodeSymbol : Delimited id encodeSymbol := by
  have hkind : Delimited id fun k : SymbolKind => encodeTag (if k = .terminal then "t" else "n") :=
    delimited_encodeTag (by intro a b h; cases a <;> cases b <;> simp_all)
      (by intro a; cases a <;> decide)
  have heq : ∀ s : Symbol, encodeSymbol s =
      encodeTag (if s.kind = .terminal then "t" else "n") ++ encodeName s.name := by
    rintro ⟨kind, name⟩
    cases kind <;> rfl
  rintro ⟨kind, name⟩ ⟨kind', name'⟩ x y h
  simp only [heq, List.append_assoc] at h
  obtain ⟨hk, h⟩ := hkind h
  obtain ⟨hname, h⟩ := delimited_encodeName h
  exact ⟨congrArg₂ Symbol.mk hk hname, h⟩

lemma delimited_encodeTarget : Delimited id encodeTarget := by
  have heq : encodeTarget = fun o : Option SymbolId =>
      encodeTag (o.elim "none" toString) := by
    funext o
    cases o <;> rfl
  -- no number is written like the word for none
  have hnone : ∀ s : Nat, toString s ≠ "none" := by
    intro s hs
    have hdigit := isDigit_of_mem_toString (n := s) (c := 'n') (by rw [hs]; decide)
    exact absurd hdigit (by decide)
  rw [heq]
  refine delimited_encodeTag ?_ ?_
  · intro a b h
    cases a with
    | none =>
      cases b with
      | none => rfl
      | some t => exact absurd h.symm (hnone t)
    | some s =>
      cases b with
      | none => exact absurd h (hnone s)
      | some t => exact congrArg some (toString_injective h)
  · intro o
    cases o with
    | none => decide
    | some s => exact zero_notMem_ofText_toString s

/-- The string has of a rule what a table sees of it. -/
lemma delimited_encodeRule : Delimited Rule.bare encodeRule := by
  have harbitration : Delimited id fun a => encodeTag (arbitrationTag a) :=
    delimited_encodeTag (by intro a b h; cases a <;> cases b <;> simp_all [arbitrationTag])
      (by intro a; cases a <;> decide)
  intro r r' x y h
  simp only [encodeRule, List.append_assoc] at h
  obtain ⟨hid, h⟩ := delimited_encodeNumber h
  obtain ⟨htarget, h⟩ := delimited_encodeNumber h
  rw [← List.append_assoc, ← List.append_assoc (encodeNumber r'.clause.length)] at h
  obtain ⟨hclause, h⟩ := delimited_list delimited_encodeNumber h
  obtain ⟨hlevel, h⟩ := delimited_encodeNumber h
  obtain ⟨harb, h⟩ := harbitration h
  simp only [id_eq, List.map_id] at hid htarget hclause hlevel harb
  refine ⟨?_, h⟩
  rw [Rule.bare, Rule.bare, hid, htarget, hclause, hlevel, harb]

lemma delimited_encodeLevel : Delimited id fun p : SymbolId × Nat =>
    encodeNumber p.1 ++ encodeNumber p.2 := by
  rintro ⟨s, level⟩ ⟨s', level'⟩ x y h
  simp only [List.append_assoc] at h
  obtain ⟨hs, h⟩ := delimited_encodeNumber h
  obtain ⟨hlevel, h⟩ := delimited_encodeNumber h
  exact ⟨Prod.ext hs hlevel, h⟩

variable {g g' : Grammar}

/-- Grammars with one string are the same but for their names and for what a table does not see of
their rules. -/
lemma bare_eq_of_encode_eq (h : g.encode = g'.encode) :
    g'.mapRules Rule.bare = { g.mapRules Rule.bare with name := g'.name } := by
  have hstring := congrArg (· ++ ([] : Bytes)) h
  simp only [encode, List.append_assoc, SymbolTable.size] at hstring
  replace hstring := List.append_cancel_left hstring
  rw [← List.append_assoc, ← List.append_assoc (encodeNumber g'.symbols.entries.length)] at hstring
  obtain ⟨hsymbols, hstring⟩ := delimited_list delimited_encodeSymbol hstring
  replace hstring := List.append_cancel_left hstring
  obtain ⟨htarget, hstring⟩ := delimited_encodeTarget hstring
  replace hstring := List.append_cancel_left hstring
  rw [← List.append_assoc, ← List.append_assoc (encodeNumber g'.rules.length)] at hstring
  obtain ⟨hrules, hstring⟩ := delimited_list delimited_encodeRule hstring
  replace hstring := List.append_cancel_left hstring
  rw [← List.append_assoc, ← List.append_assoc (encodeNumber g'.levels.length)] at hstring
  obtain ⟨hlevels, -⟩ := delimited_list delimited_encodeLevel hstring
  simp only [id_eq, List.map_id] at hsymbols htarget hlevels
  simp only [mapRules, hrules, htarget, hlevels, Grammar.mk.injEq, true_and, and_true]
  exact (congrArg SymbolTable.mk hsymbols).symm

/-- The name of a grammar has no part in its table. -/
lemma table_renamed (g : Grammar) (name : Option String) : { g with name }.table = g.table := by
  have hreach : ∀ s, { g with name }.reach s = g.reach s := by
    intro s
    have hmentions : { g with name }.mentions = g.mentions := rfl
    exact explore_congr hmentions _ _ _
  have hautomaton : { g with name }.automaton = g.automaton := by
    simp only [automaton, validate, hreach]
    rfl
  rw [table, hautomaton]
  rfl

/-- A table is made from what is hashed, and so is the error if there is none. -/
theorem table_eq_of_encode_eq (h : g.encode = g'.encode) : g.table = g'.table := by
  rw [← table_bare g, ← table_bare g', bare_eq_of_encode_eq h]
  exact (table_renamed _ _).symm

end Grammar

end ShiftReduce
