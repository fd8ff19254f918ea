import ShiftReduce.Proofs.Grammar.Valid
import ShiftReduce.Proofs.Text.Bytes
import Mathlib.Data.List.Nodup
import Mathlib.Data.List.Perm.Subperm
/-!
# Names of symbols

A symbol is interned once, so that a terminal is known by its name, and so is a non-terminal. No
operation on grammars changes this.

More names are tried for a fresh non-terminal than there are symbols, so that one of them is new and
the non-terminal is appended to the table.

Main statements: `SymbolTable.eq_of_name_eq` and `SymbolTable.internFresh_eq`.
-/

namespace ShiftReduce

namespace SymbolTable

variable {t : SymbolTable} {s s' : SymbolId}

lemma nodup_initial : initial.entries.Nodup := by decide

lemma nodup_intern (h : t.entries.Nodup) (kind : SymbolKind) (name : String) :
    (t.intern kind name).2.entries.Nodup := by
  rw [intern]
  split
  · exact h
  · next hnew =>
    rw [find?, List.idxOf?_eq_none_iff] at hnew
    exact h.append (List.nodup_singleton _) (List.disjoint_singleton.mpr hnew)

/-- Two terminals do not share a name. -/
lemma eq_of_name_eq (h : t.entries.Nodup) (hs : t.isTerminal s = true)
    (hs' : t.isTerminal s' = true) (hname : t.name s = t.name s') : s = s' := by
  simp only [isTerminal, kind?, get?, beq_iff_eq, Option.map_eq_some_iff] at hs hs'
  obtain ⟨⟨kind, n⟩, he, hkind⟩ := hs
  obtain ⟨⟨kind', n'⟩, he', hkind'⟩ := hs'
  obtain ⟨rfl, rfl⟩ : kind = .terminal ∧ kind' = .terminal := ⟨hkind, hkind'⟩
  simp only [name, get?, he, he'] at hname
  subst hname
  exact (List.getElem?_inj (List.getElem?_eq_some_iff.mp he).1 h).mp (he.trans he'.symm)

/-! ## Fresh names -/

lemma nodup_candidateNames (t : SymbolTable) (base : String) : (t.candidateNames base).Nodup := by
  refine List.nodup_cons.mpr ⟨fun h => ?_, List.nodup_range.map fun m n h => ?_⟩
  · obtain ⟨n, -, hn⟩ := List.mem_map.mp h
    have hlength := congrArg String.length hn
    have hmark : "#".length = 1 := rfl
    rw [String.length_append, String.length_append, hmark] at hlength
    omega
  · exact Nat.succ_inj.mp (Nat.succ_inj.mp (toString_injective ((String.append_right_inj _).mp h)))

/-- Among the names tried one is new. -/
lemma find?_freshName (t : SymbolTable) (base : String) :
    t.find? .nonterminal (t.freshName base) = none := by
  have hexists : ∃ n ∈ t.candidateNames base, (t.find? .nonterminal n).isNone = true := by
    by_contra hno
    simp only [not_exists, not_and, Bool.not_eq_true, Option.isNone_eq_false_iff] at hno
    have hmem : ∀ n ∈ t.candidateNames base, (⟨.nonterminal, n⟩ : Symbol) ∈ t.entries := by
      intro n hn
      by_contra hnot
      have hnone := List.idxOf?_eq_none_iff.mpr hnot
      have hsome := hno n hn
      rw [find?, hnone] at hsome
      cases hsome
    have hnodup : ((t.candidateNames base).map (Symbol.mk .nonterminal)).Nodup :=
      (t.nodup_candidateNames base).map fun _ _ h => (Symbol.mk.inj h).2
    have hle := (hnodup.subperm (List.forall_mem_map.mpr hmem)).length_le
    rw [List.length_map, candidateNames, List.length_cons, List.length_map,
      List.length_range] at hle
    exact Nat.lt_irrefl _ hle
  obtain ⟨n, hn⟩ := Option.isSome_iff_exists.mp (List.find?_isSome.mpr hexists)
  have hnone := List.find?_some hn
  rw [freshName, hn, Option.getD_some]
  exact Option.isNone_iff_eq_none.mp hnone

/-- A fresh non-terminal is appended. -/
lemma internFresh_eq (t : SymbolTable) (base : String) : t.internFresh base =
    (t.size, ⟨t.entries ++ [⟨.nonterminal, t.freshName base⟩]⟩) := by
  rw [internFresh, intern, find?_freshName]

end SymbolTable

namespace Grammar

variable {g g' : Grammar}

lemma symbols_of_addRule {target : SymbolId} {clause : List SymbolId}
    {settings : List RuleSetting} {id : RuleId}
    (h : g.addRule target clause settings = .ok (id, g')) : g'.symbols = g.symbols := by
  rw [addRule] at h
  split at h
  · split at h
    · cases h
    · cases h
      rfl
  · cases h

lemma symbols_addAlternatives (g : Grammar) (target : SymbolId) (l : List Alternative) :
    (g.addAlternatives target l).1.symbols = g.symbols := by
  induction l generalizing g with
  | nil => rfl
  | cons a l ih =>
    rw [addAlternatives]
    split
    · rfl
    · next hadd => rw [ih, symbols_of_addRule hadd]

lemma symbols_define (g : Grammar) (name : String) (alternatives : SymbolId → List Alternative) :
    (g.define name alternatives).1.symbols = (g.freshNonterminal name).2.symbols := by
  rw [define]
  exact symbols_addAlternatives _ _ _

lemma symbols_of_acceptRule {id : RuleId} (h : g.acceptRule id = .ok g') :
    g'.symbols = g.symbols := by
  rw [acceptRule] at h
  split at h
  · cases h
  · dsimp only at h
    split at h
    · cases h
      rfl
    · cases h

lemma symbols_fragment (g : Grammar) (s : SymbolId) : (g.fragment s).1.symbols = g.symbols := by
  rw [fragment]
  split
  · rfl
  · split
    · next haccept => exact (symbols_of_acceptRule haccept).trans rfl
    · rfl
  · rfl

end Grammar

end ShiftReduce
