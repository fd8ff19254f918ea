import ShiftReduce.Proofs.Parse.Size
import Mathlib.Data.Finset.Insert
/-!
# Safe grammars

A rule leads from its target to a symbol of its clause if what stands in front of that symbol can
vanish. A grammar is safe if no chain of such rules leads from a symbol back to itself with a symbol
in front that has to vanish, which would be hidden left recursion, and none does with everything
behind vanishing as well, by which the symbol would derive itself. Left recursion as such is safe.

In a derivation tree of a safe grammar no symbol is repeated on the way down where the leaves stay
the same.

Main statement: `Grammar.Safe.sparing`.
-/

namespace ShiftReduce

namespace Grammar

/-- The string derives the empty string. -/
def Nullable (g : Grammar) (α : List SymbolId) : Prop := g.Derives α []

/-- A rule of the first symbol has the second one in its clause, behind what can vanish. -/
inductive Leads (g : Grammar) : SymbolId → SymbolId → Prop
  | rule {r : Rule} {s : SymbolId} {α β : List SymbolId} : r ∈ g.rules →
      r.symbols = α ++ s :: β → g.Nullable α → Leads g r.target s

/-- The same, with something in front that has to vanish. -/
inductive LeadsHidden (g : Grammar) : SymbolId → SymbolId → Prop
  | rule {r : Rule} {s : SymbolId} {α β : List SymbolId} : r ∈ g.rules →
      r.symbols = α ++ s :: β → g.Nullable α → α ≠ [] → LeadsHidden g r.target s

/-- The same, with what stands behind vanishing too. -/
inductive LeadsAlone (g : Grammar) : SymbolId → SymbolId → Prop
  | rule {r : Rule} {s : SymbolId} {α β : List SymbolId} : r ∈ g.rules →
      r.symbols = α ++ s :: β → g.Nullable α → g.Nullable β → LeadsAlone g r.target s

/-- A chain of rules leads from one symbol to the other and hides it at some place. -/
def Hides (g : Grammar) (s t : SymbolId) : Prop :=
  ∃ u v, Relation.ReflTransGen g.Leads s u ∧ g.LeadsHidden u v ∧ Relation.ReflTransGen g.Leads v t

/-- There is no hidden left recursion, and no symbol derives itself. -/
structure Safe (g : Grammar) : Prop where
  not_hides : ∀ s, ¬ g.Hides s s
  not_alone : ∀ s, ¬ Relation.TransGen g.LeadsAlone s s

variable {g : Grammar} {s t u : SymbolId} {α β : List SymbolId} {tree : Tree} {forest : List Tree}

/-! ## What can vanish -/

lemma nullable_of_forall (h : ∀ s ∈ α, g.Nullable [s]) : g.Nullable α := by
  induction α with
  | nil => exact .refl
  | cons s α ih =>
    obtain ⟨hs, hα⟩ := List.forall_mem_cons.mp h
    exact hs.append (ih hα)

/-- A derivation tree without leaves is for a symbol that can vanish. -/
lemma IsDerivation.nullable (h : g.IsDerivation tree) (hyield : tree.yield = []) :
    g.Nullable [tree.symbol] := by
  have hderives := h.derives
  rwa [hyield, List.map_nil] at hderives

lemma nullable_of_forest (h : ∀ tree ∈ forest, g.IsDerivation tree)
    (hyield : Tree.yieldAll forest = []) : g.Nullable (forest.map Tree.symbol) := by
  refine nullable_of_forall (List.forall_mem_map.mpr fun tree htree => ?_)
  exact (h tree htree).nullable (Tree.yieldAll_eq_nil_iff.mp hyield tree htree)

/-- What can vanish consists of non-terminals. -/
lemma Valid.isNonterminal_of_nullable (hg : g.Valid) (h : g.Nullable α) (hs : s ∈ α) :
    g.symbols.isNonterminal s = true := by
  have hderives : g.Derives α (List.map Token.symbol []) := h
  obtain ⟨forest, rfl, hyield, hforest⟩ := hderives.exists_forest hg (by simp)
  obtain ⟨tree, htree, rfl⟩ := List.mem_map.mp hs
  cases hforest tree htree with
  | leaf _ => cases Tree.yieldAll_eq_nil_iff.mp hyield _ htree
  | node hr _ _ => exact hg.target_nonterminal _ (List.mem_of_getElem? hr)

/-- Without an empty clause nothing vanishes. -/
lemma eq_nil_of_nullable (hempty : ∀ r ∈ g.rules, r.symbols ≠ []) (h : g.Nullable α) : α = [] := by
  induction h using Relation.ReflTransGen.head_induction_on with
  | refl => rfl
  | head hstep _ ih =>
    cases hstep with
    | expand before after hr => simp [hempty _ hr] at ih

/-! ## Chains of rules -/

lemma LeadsHidden.leads (h : g.LeadsHidden s t) : g.Leads s t := by
  cases h with
  | rule hr hsymbols hα _ => exact .rule hr hsymbols hα

lemma Hides.head (h : g.Leads s t) (h' : g.Hides t u) : g.Hides s u := by
  obtain ⟨v, w, htv, hvw, hwu⟩ := h'
  exact ⟨v, w, .head h htv, hvw, hwu⟩

lemma LeadsHidden.hides (h : g.LeadsHidden s t) : g.Hides s t := ⟨s, t, .refl, h, .refl⟩

/-- A grammar without empty clauses is safe if no rule has a non-terminal as its clause. -/
lemma safe_of_no_empty (hempty : ∀ r ∈ g.rules, r.symbols ≠ [])
    (hunit : ∀ r ∈ g.rules, ∀ s, r.symbols = [s] → s ∉ g.defined) : g.Safe where
  not_hides := by
    rintro s ⟨t, u, -, hhidden, -⟩
    cases hhidden with
    | rule _ _ hα hne => exact hne (eq_nil_of_nullable hempty hα)
  not_alone := by
    intro s h
    obtain ⟨t, -, hlast⟩ := Relation.TransGen.tail'_iff.mp h
    obtain ⟨u, hfirst, -⟩ := Relation.TransGen.head'_iff.mp h
    have hdefined : s ∈ g.defined := by
      cases hfirst with
      | rule hr _ _ _ => exact List.mem_toFinset.mpr (List.mem_map_of_mem hr)
    cases hlast with
    | rule hr hsymbols hα hβ =>
      rw [eq_nil_of_nullable hempty hα, eq_nil_of_nullable hempty hβ] at hsymbols
      exact hunit _ hr _ hsymbols hdefined

/-! ## Trees -/

/-- In a safe grammar a symbol that leads to the root with nothing else left is not the root's. -/
theorem Safe.sparing (hsafe : g.Safe) (h : g.IsDerivation tree) {symbols : Finset SymbolId}
    (hsymbols : ∀ s ∈ symbols, Relation.TransGen g.LeadsAlone s tree.symbol) :
    g.Sparing symbols tree := by
  have hinduction := h
  induction hinduction generalizing symbols with
  | leaf _ => exact .leaf
  | @node id r children hr hchildren hderivations ih =>
    obtain ⟨hdefined, hlength, -⟩ := h.node_inv
    refine .node hdefined (fun hmem => hsafe.not_alone _ (hsymbols _ hmem)) hlength
      (fun child hchild => ih child hchild (hderivations child hchild) (by simp))
      fun child hchild hyield => ih child hchild (hderivations child hchild) ?_
    -- the children beside this one have no leaves, so their symbols can vanish
    obtain ⟨l₁, l₂, rfl⟩ := List.append_of_mem hchild
    have hlengths := congrArg List.length hyield
    rw [Tree.yieldAll_middle, List.length_append, List.length_append] at hlengths
    have h₁ : Tree.yieldAll l₁ = [] := List.eq_nil_of_length_eq_zero (by omega)
    have h₂ : Tree.yieldAll l₂ = [] := List.eq_nil_of_length_eq_zero (by omega)
    rw [List.map_append, List.map_cons] at hchildren
    have hleads : g.LeadsAlone r.target child.symbol :=
      .rule (List.mem_of_getElem? hr) hchildren.symm
        (nullable_of_forest (fun tree htree => hderivations tree (by simp [htree])) h₁)
        (nullable_of_forest (fun tree htree => hderivations tree (by simp [htree])) h₂)
    intro s hs
    rcases Finset.mem_insert.mp hs with rfl | hs
    · exact .single hleads
    · exact (hsymbols s hs).tail hleads

end Grammar

end ShiftReduce
