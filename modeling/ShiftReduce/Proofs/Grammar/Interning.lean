import ShiftReduce.Proofs.Grammar.Names
import Mathlib.Data.Prod.Basic
/-!
# Interning

A symbol table is made by calls that intern a terminal, a non-terminal or a fresh non-terminal. In
whatever order they come, the numbers stay dense, a symbol has one number and a number one symbol,
and what is in the table is never changed.

The same table can be kept as a map in both directions. A pair that is put into such a map throws
out whatever agrees with it in the number or in the symbol, and the number of a new symbol is the
number of pairs, cut to one word. This goes well only as long as nothing is ever thrown out: a
symbol is put in where it is missing, and its number is not taken while there are words left. Fresh
names are searched without a bound there, with a counter that is a word with a sign. The search ends
because every name that is taken belongs to a symbol of the table.

A table that `HasRoom` is one for which words suffice; `intern_full` is what happens to the first
symbol for which they do not.

Main statement: `SymbolTable.interned_exactly`.
-/

namespace ShiftReduce

/-- A call that interns a symbol. -/
inductive Naming where
  | terminal (name : String)
  | nonterminal (name : String)
  | fresh (base : String)

namespace SymbolTable

/-- The number that a call returns, and the table behind it. -/
def call (t : SymbolTable) : Naming → SymbolId × SymbolTable
  | .terminal name => t.intern .terminal name
  | .nonterminal name => t.intern .nonterminal name
  | .fresh base => t.internFresh base

/-- The table behind some calls, one after another. -/
def after (t : SymbolTable) (calls : List Naming) : SymbolTable :=
  calls.foldl (fun t c => (t.call c).2) t

/-- The name is the base, or the base with the least number from 2 on with which it is no name of a
non-terminal. -/
def IsFreshName (t : SymbolTable) (base name : String) : Prop :=
  (⟨.nonterminal, base⟩ ∉ t.entries ∧ name = base) ∨
  (⟨.nonterminal, base⟩ ∈ t.entries ∧ ∃ n, 2 ≤ n ∧ n ≤ t.size + 1 ∧
    name = base ++ "#" ++ toString n ∧ ⟨.nonterminal, name⟩ ∉ t.entries ∧
    ∀ m, 2 ≤ m → m < n → ⟨.nonterminal, base ++ "#" ++ toString m⟩ ∈ t.entries)

/-- Numbers and symbols are in one-to-one correspondence, and interning goes by it. -/
structure Interned (t : SymbolTable) : Prop where
  dense : ∀ s, s < t.size ↔ ∃ e, t.get? s = some e
  reserved : t.get? SymbolId.eoi = some ⟨.terminal, "$"⟩ ∧
    t.get? SymbolId.epsilon = some ⟨.terminal, "ε"⟩
  injective : ∀ s s' e, t.get? s = some e → t.get? s' = some e → s = s'
  inverse : ∀ kind name s, t.find? kind name = some s ↔ t.get? s = some ⟨kind, name⟩
  known : ∀ kind name s, t.get? s = some ⟨kind, name⟩ → t.intern kind name = (s, t)
  new : ∀ kind name, (∀ s, t.get? s ≠ some ⟨kind, name⟩) →
    t.intern kind name = (t.size, ⟨t.entries ++ [⟨kind, name⟩]⟩)
  fresh : ∀ base, ∃ name, t.IsFreshName base name ∧
    t.internFresh base = (t.size, ⟨t.entries ++ [⟨.nonterminal, name⟩]⟩)

variable {t : SymbolTable} {s : SymbolId} {e : Symbol} {kind : SymbolKind} {name : String}

/-! ## Looking up -/

lemma find?_eq_none_iff : t.find? kind name = none ↔ ⟨kind, name⟩ ∉ t.entries :=
  List.idxOf?_eq_none_iff

lemma isNone_find?_of_mem (h : ⟨kind, name⟩ ∈ t.entries) : (t.find? kind name).isNone = false := by
  rw [Option.isNone_eq_false_iff, Option.isSome_iff_ne_none]
  exact fun hnone => find?_eq_none_iff.mp hnone h

lemma mem_entries_iff : e ∈ t.entries ↔ ∃ s, t.get? s = some e := List.mem_iff_getElem?

lemma get?_injective (h : t.entries.Nodup) {s' : SymbolId} (hs : t.get? s = some e)
    (hs' : t.get? s' = some e) : s = s' :=
  (List.getElem?_inj (List.getElem?_eq_some_iff.mp hs).1 h).mp (hs.trans hs'.symm)

lemma find?_eq_some_iff (h : t.entries.Nodup) :
    t.find? kind name = some s ↔ t.get? s = some ⟨kind, name⟩ := by
  constructor
  · intro hfind
    obtain ⟨hlt, heq, -⟩ := List.idxOf?_eq_some_iff.mp hfind
    exact List.getElem?_eq_some_iff.mpr ⟨hlt, heq⟩
  · intro hget
    obtain ⟨hlt, heq⟩ := List.getElem?_eq_some_iff.mp hget
    refine List.idxOf?_eq_some_iff.mpr ⟨hlt, heq, fun j hj hsame => ?_⟩
    have hget' : t.get? j = some ⟨kind, name⟩ :=
      List.getElem?_eq_some_iff.mpr ⟨Nat.lt_trans hj hlt, hsame⟩
    exact absurd (get?_injective h hget' hget) (Nat.ne_of_lt hj)

/-! ## Fresh names -/

/-- A fresh name is searched among the base and the base with a number. -/
lemma isFreshName_freshName (t : SymbolTable) (base : String) :
    t.IsFreshName base (t.freshName base) := by
  have hfree := t.find?_freshName base
  rw [find?_eq_none_iff] at hfree
  by_cases hbase : (⟨.nonterminal, base⟩ : Symbol) ∈ t.entries
  · refine .inr ⟨hbase, ?_⟩
    have hsome := isNone_find?_of_mem hbase
    have hname : t.freshName base = (((List.range t.size).find? fun n =>
        (t.find? .nonterminal (base ++ "#" ++ toString (n + 2))).isNone).map fun n =>
          base ++ "#" ++ toString (n + 2)).getD base := by
      rw [freshName, candidateNames, List.find?_cons_of_neg (by simp [hsome]), List.find?_map]
      rfl
    cases hfind : (List.range t.size).find? fun n =>
        (t.find? .nonterminal (base ++ "#" ++ toString (n + 2))).isNone with
    | none =>
      -- the name would be the base, which is taken
      rw [hfind] at hname
      exact absurd (hname ▸ hbase) hfree
    | some n =>
      rw [hfind] at hname
      obtain ⟨-, hn, hleast⟩ := List.find?_range_eq_some.mp hfind
      have hlt := List.mem_range.mp hn
      refine ⟨n + 2, by omega, by omega, hname, hfree, fun m hm hmn => ?_⟩
      obtain ⟨m, rfl⟩ := Nat.exists_eq_add_of_le' hm
      by_contra hnot
      have htaken := hleast m (by omega)
      rw [find?_eq_none_iff.mpr hnot] at htaken
      cases htaken
  · refine .inl ⟨hbase, ?_⟩
    have hnone := find?_eq_none_iff.mpr hbase
    rw [freshName, candidateNames, List.find?_cons_of_pos (by simp [hnone]), Option.getD_some]

/-! ## Calls -/

lemma prefix_call (t : SymbolTable) (c : Naming) : t.entries <+: (t.call c).2.entries := by
  cases c with
  | terminal name => exact t.prefix_intern _ _
  | nonterminal name => exact t.prefix_intern _ _
  | fresh base => exact t.prefix_intern _ _

lemma nodup_call (h : t.entries.Nodup) (c : Naming) : (t.call c).2.entries.Nodup := by
  cases c with
  | terminal name => exact nodup_intern h _ _
  | nonterminal name => exact nodup_intern h _ _
  | fresh base => exact nodup_intern h _ _

lemma prefix_after (t : SymbolTable) (calls : List Naming) :
    t.entries <+: (t.after calls).entries := by
  induction calls generalizing t with
  | nil => exact List.prefix_rfl
  | cons c calls ih => exact (t.prefix_call c).trans (ih _)

lemma nodup_after (h : t.entries.Nodup) (calls : List Naming) : (t.after calls).entries.Nodup := by
  induction calls generalizing t with
  | nil => exact h
  | cons c calls ih => exact ih (nodup_call h c)

/-- A table that begins with the reserved symbols and has no symbol twice is interned. -/
lemma interned_of_nodup (hreserved : initial.entries <+: t.entries) (h : t.entries.Nodup) :
    t.Interned where
  dense s := by
    rw [← Option.isSome_iff_exists, get?, size, isSome_getElem?]
  reserved := by
    constructor
    · exact getElem?_of_prefix hreserved rfl
    · exact getElem?_of_prefix hreserved rfl
  injective _ _ _ := get?_injective h
  inverse _ _ _ := find?_eq_some_iff h
  known kind name s hs := by
    rw [intern, (find?_eq_some_iff h).mpr hs]
  new kind name hno := by
    have hnone : t.find? kind name = none := by
      rw [find?_eq_none_iff, mem_entries_iff]
      exact not_exists.mpr hno
    rw [intern, hnone]
  fresh base := ⟨_, t.isFreshName_freshName base, t.internFresh_eq base⟩

end SymbolTable

/-! ## A map in both directions -/

/-- Pairs of a number and a symbol, found by either of them. -/
structure SymbolMap where
  pairs : List (SymbolId × Symbol)

namespace SymbolMap

/-- The number of symbols in the map. -/
def size (m : SymbolMap) : Nat := m.pairs.length

/-- The symbol of a number. -/
def symbol? (m : SymbolMap) (s : SymbolId) : Option Symbol :=
  (m.pairs.find? fun p => p.1 == s).map Prod.snd

/-- The number of a symbol. -/
def number? (m : SymbolMap) (e : Symbol) : Option SymbolId :=
  (m.pairs.find? fun p => p.2 == e).map Prod.fst

/-- Puts in a pair. The pairs with this number or with this symbol give way. -/
def insert (m : SymbolMap) (s : SymbolId) (e : Symbol) : SymbolMap :=
  ⟨m.pairs.filter (fun p => p.1 != s && p.2 != e) ++ [(s, e)]⟩

/-- The number of a symbol. A missing symbol is put in under the number of pairs, cut to a word. -/
def intern (m : SymbolMap) (kind : SymbolKind) (name : String) : SymbolId × SymbolMap :=
  match m.number? ⟨kind, name⟩ with
  | some s => (s, m)
  | none => (m.size % wordRange, m.insert (m.size % wordRange) ⟨kind, name⟩)

/-- Tries a name, and as long as one is taken, the base with the next number. The counter is a word
with a sign. -/
def searchName (m : SymbolMap) (base : String) : Nat → Int32 → String → Option String
  | 0, _, _ => none
  | fuel + 1, n, name =>
    match m.number? ⟨.nonterminal, name⟩ with
    | none => some name
    | some _ => searchName m base fuel (n + 1) (base ++ "#" ++ toString (n + 1))

/-- The number that a call returns, and the map behind it, if the fuel suffices for the search. -/
def call (m : SymbolMap) (fuel : Nat) : Naming → Option (SymbolId × SymbolMap)
  | .terminal name => some (m.intern .terminal name)
  | .nonterminal name => some (m.intern .nonterminal name)
  | .fresh base => (m.searchName base fuel 1 base).map (m.intern .nonterminal)

/-- The map behind some calls, one after another. -/
def after (m : SymbolMap) (fuel : Nat) (calls : List Naming) : Option SymbolMap :=
  calls.foldlM (fun m c => (m.call fuel c).map Prod.snd) m

/-- The map every grammar starts from. -/
def initial : SymbolMap := ((SymbolMap.mk []).intern .terminal "$").2.intern .terminal "ε" |>.2

/-- The name is the base, or the base with the least number from 2 on with which it is no name of a
non-terminal. The counter gets to this number. -/
def IsFreshName (m : SymbolMap) (base name : String) : Prop :=
  m.number? ⟨.nonterminal, name⟩ = none ∧ (name = base ∨
    m.number? ⟨.nonterminal, base⟩ ≠ none ∧ ∃ n, 2 ≤ n ∧ n < 2 ^ 31 ∧
      name = base ++ "#" ++ toString n ∧
      ∀ k, 2 ≤ k → k < n → m.number? ⟨.nonterminal, base ++ "#" ++ toString k⟩ ≠ none)

/-- Numbers and symbols are in one-to-one correspondence, and every further call goes by it. A new
symbol comes behind the others, as long as there is a word for it. -/
structure Interned (m : SymbolMap) : Prop where
  dense : ∀ s, s < m.size ↔ ∃ e, m.symbol? s = some e
  reserved : m.symbol? SymbolId.eoi = some ⟨.terminal, "$"⟩ ∧
    m.symbol? SymbolId.epsilon = some ⟨.terminal, "ε"⟩
  injective : ∀ s s' e, m.symbol? s = some e → m.symbol? s' = some e → s = s'
  inverse : ∀ e s, m.number? e = some s ↔ m.symbol? s = some e
  known : ∀ kind name s, m.symbol? s = some ⟨kind, name⟩ → m.intern kind name = (s, m)
  new : m.size < wordRange → ∀ kind name, m.number? ⟨kind, name⟩ = none →
    m.intern kind name = (m.size, ⟨m.pairs ++ [(m.size, ⟨kind, name⟩)]⟩)
  fresh : m.size < wordRange → ∀ base, ∃ name, m.IsFreshName base name ∧
    ∀ fuel, m.size < fuel → m.call fuel (.fresh base) =
      some (m.size, ⟨m.pairs ++ [(m.size, ⟨.nonterminal, name⟩)]⟩)

end SymbolMap

namespace SymbolTable

variable {t : SymbolTable} {s : SymbolId} {e : Symbol} {kind : SymbolKind} {name : String}

/-! ### Room for numbers -/

/-- Words suffice for the table: there is one for each symbol, and the counter of the search for a
fresh name does not run over before it comes to a name that is free. -/
structure HasRoom (t : SymbolTable) : Prop where
  size_le : t.size ≤ wordRange
  free : ∀ base, ⟨.nonterminal, base⟩ ∈ t.entries →
    ∃ n, 2 ≤ n ∧ n < 2 ^ 31 ∧ ⟨.nonterminal, base ++ "#" ++ toString n⟩ ∉ t.entries

/-- The search tries one number more than there are symbols at most. -/
lemma hasRoom_of_size (h : t.size + 1 < 2 ^ 31) : t.HasRoom where
  size_le := by
    rw [wordRange]
    omega
  free base hbase := by
    rcases t.isFreshName_freshName base with ⟨hfree, -⟩ | ⟨-, n, h2, hn, hname, hfree, -⟩
    · exact absurd hbase hfree
    · exact ⟨n, h2, by omega, hname ▸ hfree⟩

lemma size_mono {t' : SymbolTable} (h : t.entries <+: t'.entries) : t.size ≤ t'.size :=
  h.length_le

/-- A table had room for whatever it began with. -/
lemma HasRoom.of_prefix {t' : SymbolTable} (h : t'.HasRoom) (hgrown : t.entries <+: t'.entries) :
    t.HasRoom where
  size_le := Nat.le_trans (size_mono hgrown) h.size_le
  free base hbase := by
    obtain ⟨n, h2, hn, hfree⟩ := h.free base (hgrown.subset hbase)
    exact ⟨n, h2, hn, fun hmem => hfree (hgrown.subset hmem)⟩

/-! ### The map of a table -/

/-- The numbers and symbols of a table in pairs. -/
def toMap (t : SymbolTable) : SymbolMap := ⟨t.entries.zipIdx.map Prod.swap⟩

lemma mem_toMap : (s, e) ∈ t.toMap.pairs ↔ t.get? s = some e :=
  (List.mem_map_of_injective Prod.swap_injective (a := (e, s))).trans
    List.mk_mem_zipIdx_iff_getElem?

@[simp] lemma size_toMap (t : SymbolTable) : t.toMap.size = t.size := by
  rw [SymbolMap.size, toMap, List.length_map, List.length_zipIdx, size]

lemma toMap_append (t : SymbolTable) (e : Symbol) :
    (⟨t.entries ++ [e]⟩ : SymbolTable).toMap = ⟨t.toMap.pairs ++ [(t.size, e)]⟩ := by
  simp [toMap, List.zipIdx_append, size]

/-- Where all that is found comes to one, it does not matter which is found first. -/
lemma map_find?_eq_some_iff {α β : Type} {l : List α} {p : α → Bool} {f : α → β} {b : β}
    (hunique : ∀ x ∈ l, ∀ y ∈ l, p x = true → p y = true → f x = f y) :
    (l.find? p).map f = some b ↔ ∃ x ∈ l, p x = true ∧ f x = b := by
  rw [Option.map_eq_some_iff]
  constructor
  · rintro ⟨x, hfind, rfl⟩
    exact ⟨x, List.mem_of_find?_eq_some hfind, List.find?_some hfind, rfl⟩
  · rintro ⟨x, hx, hpx, rfl⟩
    obtain ⟨y, hfind⟩ := Option.isSome_iff_exists.mp (List.find?_isSome.mpr ⟨x, hx, hpx⟩)
    exact ⟨y, hfind,
      hunique y (List.mem_of_find?_eq_some hfind) x hx (List.find?_some hfind) hpx⟩

@[simp] lemma symbol?_toMap (t : SymbolTable) (s : SymbolId) : t.toMap.symbol? s = t.get? s := by
  refine Option.ext fun e => ?_
  rw [SymbolMap.symbol?, map_find?_eq_some_iff]
  · simp only [Prod.exists, beq_iff_eq, mem_toMap]
    constructor
    · rintro ⟨s', e', hget, rfl, rfl⟩
      exact hget
    · exact fun hget => ⟨s, e, hget, rfl, rfl⟩
  · rintro ⟨s₁, e₁⟩ h₁ ⟨s₂, e₂⟩ h₂ hs₁ hs₂
    obtain rfl : s₁ = s₂ := (beq_iff_eq.mp hs₁).trans (beq_iff_eq.mp hs₂).symm
    exact Option.some.inj ((mem_toMap.mp h₁).symm.trans (mem_toMap.mp h₂))

lemma number?_toMap (h : t.entries.Nodup) (kind : SymbolKind) (name : String) :
    t.toMap.number? ⟨kind, name⟩ = t.find? kind name := by
  refine Option.ext fun s => ?_
  rw [SymbolMap.number?, find?_eq_some_iff h, map_find?_eq_some_iff]
  · simp only [Prod.exists, beq_iff_eq, mem_toMap]
    constructor
    · rintro ⟨s', e', hget, rfl, rfl⟩
      exact hget
    · exact fun hget => ⟨s, _, hget, rfl, rfl⟩
  · rintro ⟨s₁, e₁⟩ h₁ ⟨s₂, e₂⟩ h₂ he₁ he₂
    obtain rfl : e₁ = e₂ := (beq_iff_eq.mp he₁).trans (beq_iff_eq.mp he₂).symm
    exact get?_injective h (mem_toMap.mp h₁) (mem_toMap.mp h₂)

lemma number?_toMap_eq_none_iff (h : t.entries.Nodup) :
    t.toMap.number? ⟨kind, name⟩ = none ↔ ⟨kind, name⟩ ∉ t.entries := by
  rw [number?_toMap h, find?_eq_none_iff]

/-- Only what has this number gives way to a symbol that is missing. -/
lemma insert_toMap (hnew : e ∉ t.entries) (s : SymbolId) :
    t.toMap.insert s e = ⟨t.toMap.pairs.filter (fun p => p.1 != s) ++ [(s, e)]⟩ := by
  rw [SymbolMap.insert]
  congr 2
  refine List.filter_congr fun ⟨s', e'⟩ hp => ?_
  have he : e' ≠ e := fun heq => hnew (mem_entries_iff.mpr ⟨s', heq ▸ mem_toMap.mp hp⟩)
  simp [he]

/-- Nothing gives way to a symbol that is missing, under the next number. -/
lemma insert_size_toMap (hnew : e ∉ t.entries) :
    t.toMap.insert t.size e = (⟨t.entries ++ [e]⟩ : SymbolTable).toMap := by
  have hkept : t.toMap.pairs.filter (fun p => p.1 != t.size) = t.toMap.pairs := by
    refine List.filter_eq_self.mpr fun ⟨s, e'⟩ hp => ?_
    have hs : s ≠ t.size := Nat.ne_of_lt (List.getElem?_eq_some_iff.mp (mem_toMap.mp hp)).1
    simp [hs]
  rw [insert_toMap hnew, hkept, toMap_append]

/-- While there is a word for the next symbol, the map goes with the table. -/
lemma intern_toMap (h : t.entries.Nodup) (hroom : ⟨kind, name⟩ ∉ t.entries → t.size < wordRange) :
    t.toMap.intern kind name = ((t.intern kind name).1, (t.intern kind name).2.toMap) := by
  rw [SymbolMap.intern, number?_toMap h, intern, size_toMap]
  cases hfind : t.find? kind name with
  | some s => rfl
  | none =>
    have hnew := find?_eq_none_iff.mp hfind
    simp only [Nat.mod_eq_of_lt (hroom hnew), insert_size_toMap hnew]

/-- The first symbol for which there is no word is put in under the number of the end of input,
which is thrown out. -/
lemma intern_full (h : t.entries.Nodup) (hfull : t.size = wordRange)
    (hnew : ⟨kind, name⟩ ∉ t.entries) :
    t.toMap.intern kind name =
      (SymbolId.eoi, ⟨t.toMap.pairs.filter (fun p => p.1 != SymbolId.eoi) ++
        [(SymbolId.eoi, ⟨kind, name⟩)]⟩) := by
  rw [SymbolMap.intern, (number?_toMap_eq_none_iff h).mpr hnew, size_toMap, hfull, Nat.mod_self]
  simp only [insert_toMap hnew]

/-! ### The search for a name -/

section Search

variable {base : String} {fuel n : Nat}

lemma toString_ofNat (hn : n < 2 ^ 31) : toString (Int32.ofNat n) = toString n := by
  show toString (Int32.ofNat n).toInt = toString n
  rw [Int32.toInt_ofNat_of_lt hn]
  rfl

lemma searchName_of_notMem (h : t.entries.Nodup) (hfree : ⟨.nonterminal, name⟩ ∉ t.entries)
    (i : Int32) : t.toMap.searchName base (fuel + 1) i name = some name := by
  rw [SymbolMap.searchName, (number?_toMap_eq_none_iff h).mpr hfree]

/-- Behind a name that is taken comes the base with the next number, as long as the counter does not
run over. -/
lemma searchName_of_mem (h : t.entries.Nodup) (htaken : ⟨.nonterminal, name⟩ ∈ t.entries)
    (hn : n + 1 < 2 ^ 31) :
    t.toMap.searchName base (fuel + 1) (Int32.ofNat n) name =
      t.toMap.searchName base fuel (Int32.ofNat (n + 1)) (base ++ "#" ++ toString (n + 1)) := by
  obtain ⟨s, hs⟩ := mem_entries_iff.mp htaken
  have hnext : Int32.ofNat n + 1 = Int32.ofNat (n + 1) := (Int32.ofNat_add n 1).symm
  rw [SymbolMap.searchName, number?_toMap h, (find?_eq_some_iff h).mpr hs]
  dsimp only
  rw [hnext, toString_ofNat hn]

/-- The names with a number are tried up to the first that is not taken. -/
lemma searchName_numbered (h : t.entries.Nodup) {d : Nat} (hd : d < fuel) (hn : n + d < 2 ^ 31)
    (hfree : ⟨.nonterminal, base ++ "#" ++ toString (n + d)⟩ ∉ t.entries)
    (htaken : ∀ m, n ≤ m → m < n + d →
      ⟨.nonterminal, base ++ "#" ++ toString m⟩ ∈ t.entries) :
    t.toMap.searchName base fuel (Int32.ofNat n) (base ++ "#" ++ toString n) =
      some (base ++ "#" ++ toString (n + d)) := by
  induction d generalizing fuel n with
  | zero =>
    obtain ⟨fuel, rfl⟩ := Nat.exists_eq_add_of_le' hd
    exact searchName_of_notMem h hfree _
  | succ d ih =>
    obtain ⟨fuel, rfl⟩ := Nat.exists_eq_add_of_le' (Nat.one_le_of_lt hd)
    have hshift : n + (d + 1) = n + 1 + d := by omega
    rw [hshift] at hfree htaken hn ⊢
    rw [searchName_of_mem h (htaken n (Nat.le_refl n) (by omega)) (by omega)]
    exact ih (by omega) hn hfree fun m hm hmd => htaken m (by omega) hmd

/-- In a table with room, the number of a fresh name is one that the counter gets to. -/
lemma HasRoom.lt_of_least (hroom : t.HasRoom) (hbase : ⟨.nonterminal, base⟩ ∈ t.entries)
    (hleast : ∀ m, 2 ≤ m → m < n → ⟨.nonterminal, base ++ "#" ++ toString m⟩ ∈ t.entries) :
    n < 2 ^ 31 := by
  obtain ⟨k, h2, hk, hfree⟩ := hroom.free base hbase
  have hle : n ≤ k := Nat.le_of_not_lt fun hlt => hfree (hleast k h2 hlt)
  omega

/-- A search with more steps than there are symbols ends, with the fresh name. -/
lemma searchName_toMap (h : t.entries.Nodup) (hroom : t.HasRoom) (base : String)
    (hfuel : t.size < fuel) : t.toMap.searchName base fuel 1 base = some (t.freshName base) := by
  obtain ⟨fuel, rfl⟩ := Nat.exists_eq_add_of_le' (Nat.one_le_of_lt hfuel)
  rcases t.isFreshName_freshName base with
    ⟨hfree, hname⟩ | ⟨htaken, n, h2, hn, hname, hfree, hleast⟩
  · rw [searchName_of_notMem h hfree, hname]
  · have hlt := hroom.lt_of_least htaken hleast
    obtain ⟨d, rfl⟩ := Nat.exists_eq_add_of_le h2
    have hone : (1 : Int32) = Int32.ofNat 1 := rfl
    rw [hone, searchName_of_mem h htaken (by omega), hname]
    exact searchName_numbered h (by omega) hlt (hname ▸ hfree) hleast

end Search

/-! ### Runs -/

/-- If there are words for the symbols behind a call, there was one for the symbol it made. -/
lemma size_lt_of_intern (hnext : (t.intern kind name).2.size ≤ wordRange)
    (hnew : ⟨kind, name⟩ ∉ t.entries) : t.size < wordRange := by
  rw [intern, find?_eq_none_iff.mpr hnew, size, List.length_append] at hnext
  exact hnext

/-- While there is room, a call returns what it returns on the table. -/
lemma call_toMap (h : t.entries.Nodup) (hroom : t.HasRoom) {fuel : Nat} (hfuel : t.size < fuel)
    {c : Naming} (hnext : (t.call c).2.size ≤ wordRange) :
    t.toMap.call fuel c = some ((t.call c).1, (t.call c).2.toMap) := by
  cases c with
  | terminal name => rw [SymbolMap.call, intern_toMap h (size_lt_of_intern hnext), call]
  | nonterminal name => rw [SymbolMap.call, intern_toMap h (size_lt_of_intern hnext), call]
  | fresh base =>
    rw [SymbolMap.call, searchName_toMap h hroom base hfuel, Option.map_some,
      intern_toMap h (size_lt_of_intern hnext), call, internFresh]

lemma size_call_le (t : SymbolTable) (c : Naming) : (t.call c).2.size ≤ t.size + 1 := by
  have hintern : ∀ kind name, (t.intern kind name).2.size ≤ t.size + 1 := by
    intro kind name
    rw [intern]
    split
    · exact Nat.le_succ _
    · simp [size]
  cases c with
  | terminal name => exact hintern _ _
  | nonterminal name => exact hintern _ _
  | fresh base => exact hintern _ _

/-- The map goes with the table through all calls, as long as there is room. -/
lemma after_toMap (h : t.entries.Nodup) (calls : List Naming) (hroom : (t.after calls).HasRoom)
    {fuel : Nat} (hfuel : wordRange < fuel) :
    t.toMap.after fuel calls = some (t.after calls).toMap := by
  induction calls generalizing t with
  | nil => rfl
  | cons c calls ih =>
    have hbehind : (t.call c).2.entries <+: (t.after (c :: calls)).entries := prefix_after _ calls
    have hnext := hroom.of_prefix hbehind
    have ht := hnext.of_prefix (t.prefix_call c)
    rw [SymbolMap.after, List.foldlM_cons,
      call_toMap h ht (Nat.lt_of_le_of_lt ht.size_le hfuel) hnext.size_le]
    exact ih (nodup_call h c) hroom

lemma size_after_le (t : SymbolTable) (calls : List Naming) :
    (t.after calls).size ≤ t.size + calls.length := by
  induction calls generalizing t with
  | nil => exact Nat.le_refl _
  | cons c calls ih =>
    have hcall := t.size_call_le c
    have hafter := ih (t.call c).2
    rw [List.length_cons]
    show ((t.call c).2.after calls).size ≤ _
    omega

/-- The map of a table that begins with the reserved symbols, has no symbol twice and has room for
the counter of a search. -/
lemma interned_toMap (hreserved : initial.entries <+: t.entries) (h : t.entries.Nodup)
    (hroom : t.HasRoom) : t.toMap.Interned := by
  have ht := interned_of_nodup hreserved h
  refine ⟨by simpa using ht.dense, by simpa using ht.reserved, by simpa using ht.injective,
    fun ⟨kind, name⟩ s => ?_, fun kind name s hs => ?_, fun hsize kind name hnone => ?_,
    fun hsize base => ?_⟩
  · rw [number?_toMap h, symbol?_toMap]
    exact ht.inverse kind name s
  · rw [symbol?_toMap] at hs
    have hmem := mem_entries_iff.mpr ⟨s, hs⟩
    rw [intern_toMap h fun hnew => absurd hmem hnew, ht.known kind name s hs]
  · rw [size_toMap] at hsize ⊢
    have hnew := (number?_toMap_eq_none_iff h).mp hnone
    have hno : ∀ s, t.get? s ≠ some ⟨kind, name⟩ := fun s hs => hnew (mem_entries_iff.mpr ⟨s, hs⟩)
    rw [intern_toMap h fun _ => hsize, ht.new kind name hno, toMap_append]
  · rw [size_toMap] at hsize ⊢
    refine ⟨t.freshName base, ?_, fun fuel hfuel => ?_⟩
    · rw [SymbolMap.IsFreshName, number?_toMap h, t.find?_freshName base]
      rcases t.isFreshName_freshName base with
        ⟨-, hname⟩ | ⟨htaken, n, h2, -, hname, -, hleast⟩
      · exact ⟨rfl, .inl hname⟩
      · refine ⟨rfl, .inr ⟨?_, n, h2, hroom.lt_of_least htaken hleast, hname, fun k hk hkn => ?_⟩⟩
        · exact fun hnone => (number?_toMap_eq_none_iff h).mp hnone htaken
        · exact fun hnone => (number?_toMap_eq_none_iff h).mp hnone (hleast k hk hkn)
    · have hnext : (t.call (.fresh base)).2.size ≤ wordRange :=
        Nat.le_trans (t.size_call_le _) hsize
      rw [call_toMap h hroom hfuel hnext, call, internFresh_eq, toMap_append]

/-- Whatever calls are made on the map that every grammar starts from, numbers and symbols are in
one-to-one correspondence behind them, and no further call changes what a number means, as long as
words suffice for them. Each search for a name ends, and the map is that of the table all along,
whose numbers are not cut to words. -/
theorem interned_exactly (calls : List Naming) (hroom : (initial.after calls).HasRoom) :
    let t := initial.after calls
    (∀ fuel, wordRange < fuel → SymbolMap.initial.after fuel calls = some t.toMap) ∧
      t.toMap.Interned ∧ t.Interned ∧ (∀ s, t.toMap.symbol? s = t.get? s) ∧
      (∀ kind name, t.toMap.number? ⟨kind, name⟩ = t.find? kind name) ∧
      ∀ more, (t.after more).HasRoom →
        (∀ fuel, wordRange < fuel → t.toMap.after fuel more = some (t.after more).toMap) ∧
          ∀ s e, t.toMap.symbol? s = some e → (t.after more).toMap.symbol? s = some e := by
  intro t
  have hreserved : initial.entries <+: t.entries := initial.prefix_after calls
  have hnodup : t.entries.Nodup := nodup_after nodup_initial calls
  have hstart : SymbolMap.initial = initial.toMap := rfl
  refine ⟨fun fuel hfuel => ?_, interned_toMap hreserved hnodup hroom,
    interned_of_nodup hreserved hnodup, symbol?_toMap t, number?_toMap hnodup,
    fun more hmore => ⟨fun fuel hfuel => ?_, fun s e hs => ?_⟩⟩
  · rw [hstart]
    exact after_toMap nodup_initial calls hroom hfuel
  · exact after_toMap hnodup more hmore hfuel
  · rw [symbol?_toMap] at hs ⊢
    exact getElem?_of_prefix (prefix_after t more) hs

/-- A number in a name that was given by hand is passed over. -/
theorem interned_exactly_suffixed :
    let calls : List Naming := [.nonterminal "A", .nonterminal "A#2", .fresh "A", .fresh "A#2"]
    (initial.after calls).HasRoom ∧
      (initial.after calls).entries = initial.entries ++ [⟨.nonterminal, "A"⟩,
        ⟨.nonterminal, "A#2"⟩, ⟨.nonterminal, "A#3"⟩, ⟨.nonterminal, "A#2#2"⟩] ∧
      (initial.after calls).toMap.Interned := by
  intro calls
  have hsize : (initial.after calls).size ≤ 2 + 4 := initial.size_after_le calls
  have hroom : (initial.after calls).HasRoom := hasRoom_of_size (by omega)
  exact ⟨hroom, by decide +kernel, (interned_exactly calls hroom).2.1⟩

end SymbolTable

end ShiftReduce
