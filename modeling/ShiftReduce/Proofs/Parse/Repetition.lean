import ShiftReduce.Proofs.Parse.Fragment
import ShiftReduce.Proofs.Parse.Operators
import ShiftReduce.Proofs.Parse.Stream
import ShiftReduce.Proofs.Table.Repetition
/-!
# Parsing repetitions

The parser of a repetition of terminals builds the row from the left: the first `v` by `s → v`, and
each further one with what there is by `s → s v`. In front of the first `v` it could also reduce
`s → ε`, but it shifts. Where the tokens end before the first one, `s → ε` is reduced after all,
unless the row is too long for the keys of items.

Main statements: `Grammar.Valid.shorthands_exact` and `Grammar.Repeats.parse_nil_ne_ok`.
-/

namespace ShiftReduce

namespace Parser

variable {p : Parser} {start s : SymbolId} {v labels : List SymbolId} {c c' : Configuration}
  {st : State} {i : Dotted} {row tokens : List Token} {β : List Part} {r : Rule} {dest : StateId}
  {tree : Tree}

/-- In front of further rows there is the end of input or the row. -/
lemma next_of_repeated {n : Nat} (hne : v ≠ [])
    (htokens : tokens.map Token.symbol = Grammar.repeated n v) :
    next tokens = SymbolId.eoi ∨ v.head? = some (next tokens) := by
  cases n with
  | zero =>
    obtain rfl := List.map_eq_nil_iff.mp htokens
    exact .inl rfl
  | succ n =>
    obtain ⟨t, w, rfl⟩ := List.exists_cons_of_ne_nil hne
    rw [Grammar.repeated_succ, List.cons_append, List.map_eq_cons_iff] at htokens
    obtain ⟨token, tokens, rfl, rfl, -⟩ := htokens
    exact .inr rfl

section Run

variable (hb : p.grammar.Builds start p.table) (h : p.grammar.Repeats start s v)

include hb h

/-- Over terminals of the row the dot moves, as they are shifted. -/
lemma Stands.shift_row (hstands : p.Stands start c labels st i)
    (hrest : (p.grammar.productions start).rest i =
      row.map (fun token => p.grammar.part token.symbol) ++ β)
    (hrow : ∀ token ∈ row, token.symbol ∈ v) (hsees : Sees c (row ++ tokens)) :
    ∃ c' st' frames, p.Runs row.length c c' ∧ c'.frames = frames ++ c.frames ∧ Sees c' tokens ∧
      p.Stands start c' ((row.map Token.symbol).reverse ++ labels) st'
        ⟨i.production, i.dot + row.length⟩ ∧
      ∀ t, (p.grammar.productions start).Lalr (st.kernelSet (p.grammar.productions start)) i t →
        (p.grammar.productions start).Lalr (st'.kernelSet (p.grammar.productions start))
          ⟨i.production, i.dot + row.length⟩ t := by
  induction row generalizing c labels st i with
  | nil => exact ⟨c, st, [], .refl p c, rfl, hsees, hstands, fun _ => id⟩
  | cons token row ih =>
    obtain ⟨htoken, hrow⟩ := List.forall_mem_cons.mp hrow
    obtain ⟨dest, htarget⟩ : ∃ dest, st.target? (p.grammar.part token.symbol) = some dest :=
      hstands.exists_target hb hrest
    have hpart : p.grammar.part token.symbol = .terminal token.symbol :=
      Grammar.part_eq_terminal_of_isTerminal (h.terminal _ htoken).1
    have hshift := Grammar.Repeats.action?_shift hb h hstands.path hstands.state htoken
      (hpart ▸ htarget)
    obtain ⟨c₁, st₁, hruns₁, hframes₁, hsees₁, hstands₁, hlalr₁⟩ :=
      hstands.shift hb hrest htarget hsees hshift
    obtain ⟨c₂, st₂, frames, hruns₂, hframes₂, hsees₂, hstands₂, hlalr₂⟩ :=
      ih hstands₁ (Productions.rest_advance hrest) hrow hsees₁
    have hdot : i.advance.dot + row.length = i.dot + (token :: row).length :=
      Nat.succ_add_eq_add_succ _ _
    rw [hdot] at hstands₂ hlalr₂
    refine ⟨c₂, st₂, frames ++ [⟨.leaf token, dest⟩], ?_, ?_, hsees₂, ?_, fun t ht =>
      hlalr₂ t (hlalr₁ t ht)⟩
    · rw [List.length_cons, Nat.add_comm]
      exact hruns₁.trans hruns₂
    · rw [hframes₂, hframes₁, List.append_assoc]
      rfl
    · rw [List.map_cons, List.reverse_cons, List.append_assoc]
      exact hstands₂

/-- The tokens that a rule needs behind the labels are shifted and the rule is reduced, where no
rule goes on. Then one tree is on the stack. -/
lemma Stands.reduce_row (hstands : p.Stands start c labels st i) (hr : r ∈ p.grammar.rules)
    (hp : (p.grammar.productions start).get? i.production = some (p.grammar.production r))
    (hsymbols : r.symbols = labels.reverse ++ row.map Token.symbol)
    (hrow : ∀ token ∈ row, token.symbol ∈ v)
    (hlalr : (p.grammar.productions start).Lalr (st.kernelSet (p.grammar.productions start)) i
      (next tokens))
    (hnext : next tokens = SymbolId.eoi ∨ next tokens ∈ v ∧ (r.symbols = v ∨ r.symbols = s :: v))
    (hsees : Sees c (row ++ tokens)) (hgoto : p.table.goto? 0 r.target = some dest) :
    ∃ c' tree, p.Runs (row.length + 1) c c' ∧ c'.frames = [⟨tree, dest⟩] ∧ Sees c' tokens := by
  obtain ⟨hdot, -⟩ := hb.labels_of_front h.nonterminalsInFront hstands.path hstands.state
    hstands.item hp
  have hrest : (p.grammar.productions start).rest i =
      row.map (fun token => p.grammar.part token.symbol) ++ [] := by
    rw [Productions.rest_eq hp, ← hdot, Grammar.production, hsymbols, List.map_append,
      List.drop_left' (by rw [List.length_map, List.length_reverse]), List.append_nil, List.map_map]
    rfl
  obtain ⟨c₁, st₁, frames, hruns₁, hframes₁, hsees₁, hstands₁, hlalr₁⟩ :=
    hstands.shift_row hb h hrest hrow hsees
  have harity : i.dot + row.length = r.arity := by
    rw [Rule.arity, hsymbols, List.length_append, List.length_reverse, List.length_map, hdot]
  have hcalls := hb.calls_reduce (List.mem_of_getElem? hstands₁.state) hstands₁.item hp harity
    (hlalr₁ _ hlalr)
  have hreduce := Grammar.Repeats.action?_reduce hb h hstands₁.path hstands₁.state hr
    (by rw [hsymbols, List.reverse_append, List.reverse_reverse]) (hnext.imp_right And.left)
    (fun r' hr' => h.symbols_ne (hnext.imp_right And.right) hr') hcalls
  -- the whole stack is reduced
  have hlength : c₁.frames.length = r.arity := by
    rw [← hstands₁.path.length_eq, List.length_append, List.length_reverse, List.length_map,
      ← harity, hdot, Nat.add_comm]
  obtain ⟨c₂, hruns₂, hsees₂, hframes₂⟩ := hsees₁.reduce_top (h.valid.rule?_id hr) (h.plain hr).1
    hreduce (List.append_nil _).symm hlength hgoto
  exact ⟨c₂, _, hruns₁.trans hruns₂, hframes₂, hsees₂⟩

/-- At the end of input a rule is reduced whose symbols are on the stack. -/
lemma Stands.reduce (hstands : p.Stands start c labels st i) (hr : r ∈ p.grammar.rules)
    (hp : (p.grammar.productions start).get? i.production = some (p.grammar.production r))
    (hsymbols : r.symbols = labels.reverse)
    (hlalr : (p.grammar.productions start).Lalr (st.kernelSet (p.grammar.productions start)) i
      SymbolId.eoi)
    (hsees : Sees c []) (hgoto : p.table.goto? 0 r.target = some dest) :
    ∃ c' tree, p.Runs 1 c c' ∧ c'.frames = [⟨tree, dest⟩] ∧ Sees c' [] := by
  have hsymbols' : r.symbols = labels.reverse ++ ([] : List Token).map Token.symbol :=
    hsymbols.trans (List.append_nil _).symm
  have hlalr' : (p.grammar.productions start).Lalr
      (st.kernelSet (p.grammar.productions start)) i (next []) := hlalr
  exact hstands.reduce_row hb h hr hp hsymbols' (List.forall_mem_nil _) hlalr' (.inl rfl)
    hsees hgoto

omit hb in
/-- A row is not empty. -/
lemma length_row_pos (hrow : row.map Token.symbol = v) : 0 < row.length := by
  rw [← List.length_map Token.symbol, hrow]
  exact List.length_pos_iff.mpr h.ne_nil

section Start

variable {input : List Lexeme} {t : SymbolId}
  (hstands : p.Stands start (.start input) [] st Dotted.start)
  (hlalr : (p.grammar.productions start).Lalr (st.kernelSet (p.grammar.productions start))
    Dotted.start SymbolId.eoi)

include hstands hlalr

omit h in
/-- The rule of the start symbol begins where the parse begins. -/
lemma exists_opening_start (hr : r ∈ p.grammar.rules) (htarget : r.target = start) :
    ∃ q, (p.grammar.productions start).get? q = some (p.grammar.production r) ∧
      p.Stands start (.start input) [] st ⟨q, 0⟩ ∧
      (p.grammar.productions start).Lalr (st.kernelSet (p.grammar.productions start)) ⟨q, 0⟩
        SymbolId.eoi := by
  obtain ⟨q, hq⟩ := Grammar.exists_productions_get?_of_rule start hr
  have hrest : (p.grammar.productions start).rest Dotted.start = [.nonterminal start] := by
    rw [Productions.rest_eq hb.proper.start]
    rfl
  have hopening : (p.grammar.productions start).Opening start ⟨q, 0⟩ := ⟨rfl, _, hq, htarget⟩
  have hfollows : Follows (p.grammar.productions start) st Dotted.start [] SymbolId.eoi :=
    .inr ⟨.refl, hlalr⟩
  exact ⟨q, hq, hstands.opening hrest hopening, hfollows.lalr_opening
    (hb.isLalr.reachable st (List.mem_of_getElem? hstands.state)) hstands.item hrest hopening⟩

/-- The rules of the repetition begin there too. They are followed by the end of input, or by the
row of the recursive rule. -/
lemma exists_opening_repeated (hr : r ∈ p.grammar.rules) (htarget : r.target = s)
    (ht : t = SymbolId.eoi ∨ v.head? = some t) :
    ∃ q, (p.grammar.productions start).get? q = some (p.grammar.production r) ∧
      p.Stands start (.start input) [] st ⟨q, 0⟩ ∧
      (p.grammar.productions start).Lalr (st.kernelSet (p.grammar.productions start)) ⟨q, 0⟩
        t := by
  have hreachable := hb.isLalr.reachable st (List.mem_of_getElem? hstands.state)
  have hpart : p.grammar.part s = .nonterminal s :=
    Grammar.part_eq_nonterminal h.isNonterminal_repeated
  obtain ⟨top, htop, htoptarget, htopsymbols⟩ := h.exists_rule_start
  obtain ⟨q₀, hq₀, hstands₀, hlalr₀⟩ := exists_opening_start hb hstands hlalr htop htoptarget
  have hrest₀ : (p.grammar.productions start).rest ⟨q₀, 0⟩ = [.nonterminal s] := by
    rw [Productions.rest_eq (i := ⟨q₀, 0⟩) hq₀, Grammar.production, htopsymbols, ← hpart]
    rfl
  obtain ⟨q, hq⟩ := Grammar.exists_productions_get?_of_rule start hr
  have hopening : (p.grammar.productions start).Opening s ⟨q, 0⟩ := ⟨rfl, _, hq, htarget⟩
  refine ⟨q, hq, hstands₀.opening hrest₀ hopening, ?_⟩
  rcases ht with rfl | hhead
  · have hfollows : Follows (p.grammar.productions start) st ⟨q₀, 0⟩ [] SymbolId.eoi :=
      .inr ⟨.refl, hlalr₀⟩
    exact hfollows.lalr_opening hreachable hstands₀.item hrest₀ hopening
  · -- the recursive rule has the row behind the repetition
    obtain ⟨more, hmore, hmoretarget, hmoresymbols⟩ := h.exists_rule (.inr (.inl rfl))
    obtain ⟨q₂, hq₂⟩ := Grammar.exists_productions_get?_of_rule start hmore
    have hstands₂ := hstands₀.opening hrest₀ (j := ⟨q₂, 0⟩) ⟨rfl, _, hq₂, hmoretarget⟩
    have hrest₂ : (p.grammar.productions start).rest ⟨q₂, 0⟩ =
        .nonterminal s :: v.map p.grammar.part := by
      rw [Productions.rest_eq (i := ⟨q₂, 0⟩) hq₂, Grammar.production, hmoresymbols, ← hpart]
      rfl
    have hbegins : (p.grammar.productions start).Begins (v.map p.grammar.part) t := by
      obtain ⟨w, rfl⟩ := List.head?_eq_some_iff.mp hhead
      rw [List.map_cons, Grammar.part_eq_terminal_of_isTerminal (h.terminal t List.mem_cons_self).1]
      exact ⟨_, .refl⟩
    exact Follows.lalr_opening hreachable hstands₂.item hrest₂ hopening (.inl hbegins)

section Rows

variable (htarget : st.target? (.nonterminal s) = some dest)
  (hgoto : p.table.goto? 0 s = some dest)

include htarget hgoto

/-- Behind the repetition the parser takes in further rows. -/
lemma exists_rows (n : Nat) (hframes : c.frames = [⟨tree, dest⟩]) (hsees : Sees c tokens)
    (htokens : tokens.map Token.symbol = Grammar.repeated n v) :
    ∃ m c' tree', m ≤ 2 * tokens.length ∧ p.Runs m c c' ∧ c'.frames = [⟨tree', dest⟩] ∧
      Sees c' [] := by
  have hpart : p.grammar.part s = .nonterminal s :=
    Grammar.part_eq_nonterminal h.isNonterminal_repeated
  induction n generalizing c tokens tree with
  | zero =>
    obtain rfl := List.map_eq_nil_iff.mp htokens
    exact ⟨0, c, tree, Nat.le_refl 0, .refl p c, hframes, hsees⟩
  | succ n ih =>
    rw [Grammar.repeated_succ] at htokens
    obtain ⟨row, tokens, rfl, hrow, htokens⟩ := List.map_eq_append_iff.mp htokens
    have hnext := next_of_repeated h.ne_nil htokens
    obtain ⟨r, hr, hrtarget, hsymbols⟩ := h.exists_rule (.inr (.inl rfl))
    obtain ⟨q, hq, hstands₀, hlalr₀⟩ :=
      exists_opening_repeated hb h hstands hlalr hr hrtarget hnext
    -- the dot stands behind the repetition
    have hrest : (p.grammar.productions start).rest ⟨q, 0⟩ =
        p.grammar.part s :: v.map p.grammar.part := by
      rw [Productions.rest_eq (i := ⟨q, 0⟩) hq, Grammar.production, hsymbols]
      rfl
    obtain ⟨st₁, hstands₁, hlalr₁⟩ := hstands₀.push hb hrest (hpart ▸ htarget) hframes
    have hsymbols₁ : r.symbols = [s].reverse ++ row.map Token.symbol := by
      rw [hsymbols, hrow]
      rfl
    obtain ⟨c₂, tree₂, hruns₂, hframes₂, hsees₂⟩ := hstands₁.reduce_row hb h hr hq hsymbols₁
      (fun token htoken => hrow ▸ List.mem_map_of_mem htoken) (hlalr₁ _ hlalr₀)
      (hnext.imp_right fun hhead => ⟨List.mem_of_head? hhead, .inr hsymbols⟩) hsees
      (hrtarget.symm ▸ hgoto)
    obtain ⟨m, c₃, tree₃, hle, hruns₃, hframes₃, hsees₃⟩ := ih hframes₂ hsees₂ htokens
    refine ⟨_, c₃, tree₃, ?_, hruns₂.trans hruns₃, hframes₃, hsees₃⟩
    have hpos := length_row_pos h hrow
    rw [List.length_append]
    omega

/-- From the start the parser comes to have the repetition alone on its stack, with no token
left. -/
lemma exists_repetition {n : Nat} (htokens : tokens.map Token.symbol = Grammar.repeated n v)
    (hsees : Sees (.start input) tokens) : ∃ m c' tree', m ≤ 2 * tokens.length + 1 ∧
      p.Runs m (.start input) c' ∧ c'.frames = [⟨tree', dest⟩] ∧ Sees c' [] := by
  cases n with
  | zero =>
    obtain rfl := List.map_eq_nil_iff.mp htokens
    obtain ⟨r, hr, hrtarget, hsymbols⟩ := h.exists_rule (.inr (.inr rfl))
    obtain ⟨q, hq, hstands₀, hlalr₀⟩ :=
      exists_opening_repeated hb h hstands hlalr hr hrtarget (.inl rfl)
    obtain ⟨c', tree', hruns, hframes, hsees'⟩ := hstands₀.reduce hb h hr hq hsymbols hlalr₀ hsees
      (hrtarget.symm ▸ hgoto)
    exact ⟨1, c', tree', Nat.le_refl 1, hruns, hframes, hsees'⟩
  | succ n =>
    rw [Grammar.repeated_succ] at htokens
    obtain ⟨row, tokens, rfl, hrow, htokens⟩ := List.map_eq_append_iff.mp htokens
    have hnext := next_of_repeated h.ne_nil htokens
    obtain ⟨r, hr, hrtarget, hsymbols⟩ := h.exists_rule (.inl rfl)
    obtain ⟨q, hq, hstands₀, hlalr₀⟩ :=
      exists_opening_repeated hb h hstands hlalr hr hrtarget hnext
    have hsymbols₀ : r.symbols = [].reverse ++ row.map Token.symbol := by
      rw [hsymbols, hrow]
      rfl
    obtain ⟨c₁, tree₁, hruns₁, hframes₁, hsees₁⟩ := hstands₀.reduce_row hb h hr hq hsymbols₀
      (fun token htoken => hrow ▸ List.mem_map_of_mem htoken) hlalr₀
      (hnext.imp_right fun hhead => ⟨List.mem_of_head? hhead, .inl hsymbols⟩) hsees
      (hrtarget.symm ▸ hgoto)
    obtain ⟨m, c₂, tree₂, hle, hruns₂, hframes₂, hsees₂⟩ :=
      exists_rows hb h hstands hlalr htarget hgoto n hframes₁ hsees₁ htokens
    refine ⟨_, c₂, tree₂, ?_, hruns₁.trans hruns₂, hframes₂, hsees₂⟩
    have hpos := length_row_pos h hrow
    rw [List.length_append]
    omega

omit hgoto in
/-- With the repetition alone on the stack the parser accepts. -/
lemma accepts_repetition (hframes : c.frames = [⟨tree, dest⟩]) (hsees : Sees c []) (fuel : Nat) :
    ∃ tree', p.run (fuel + 2) c = .ok tree' := by
  have hpart : ∀ {t}, p.grammar.symbols.isNonterminal t = true →
      p.grammar.part t = .nonterminal t := Grammar.part_eq_nonterminal
  obtain ⟨top, htop, htoptarget, hsymbols⟩ := h.exists_rule_start
  obtain ⟨q, hq, hstands₀, hlalr₀⟩ := exists_opening_start hb hstands hlalr htop htoptarget
  have hrest₀ : (p.grammar.productions start).rest ⟨q, 0⟩ = [p.grammar.part s] := by
    rw [Productions.rest_eq (i := ⟨q, 0⟩) hq, Grammar.production, hsymbols]
    rfl
  obtain ⟨st₁, hstands₁, hlalr₁⟩ :=
    hstands₀.push hb hrest₀ (hpart h.isNonterminal_repeated ▸ htarget) hframes
  -- the rule of the start symbol is reduced
  have hrest : (p.grammar.productions start).rest Dotted.start = [.nonterminal start] := by
    rw [Productions.rest_eq hb.proper.start]
    rfl
  obtain ⟨dest', hgoto', htarget'⟩ := hb.goto_of_rest hstands.state hstands.item hrest
  obtain ⟨c₂, tree₂, hruns₂, hframes₂, hsees₂⟩ := hstands₁.reduce hb h htop hq hsymbols
    (hlalr₁ _ hlalr₀) hsees (htoptarget.symm ▸ hgoto')
  rw [← hpart h.isNonterminal_start] at hrest htarget'
  obtain ⟨st₃, hstands₃, -⟩ := hstands.push hb hrest htarget' hframes₂
  have hcalls := hb.calls_accept (List.mem_of_getElem? hstands₃.state) hstands₃.item
  have haccept :=
    Grammar.Repeats.action?_accept hb h hstands₃.path hstands₃.state rfl hcalls
  refine ⟨tree₂, ?_⟩
  rw [Nat.add_comm fuel 2, Nat.add_assoc 1 1 fuel, Nat.add_comm 1 fuel]
  exact (hruns₂ (fuel + 1)).trans (hsees₂.accept haccept hframes₂ fuel)

end Rows

end Start

/-- Rows are accepted, whatever stands behind the end of input. -/
lemma exists_parse_of_repeated {n : Nat} {rest : List Lexeme}
    (htokens : tokens.map Token.symbol = Grammar.repeated n v) (hrest : Ending rest) :
    ∃ tree, p.parse (tokens.map .ok ++ rest) = .ok tree := by
  obtain ⟨st, hstands, hlalr⟩ := Stands.start hb (tokens.map .ok)
  obtain ⟨top, htop, htoptarget, hsymbols⟩ := h.exists_rule_start
  obtain ⟨q, hq, hstands₀, -⟩ := exists_opening_start hb hstands hlalr htop htoptarget
  have hrest₀ : (p.grammar.productions start).rest ⟨q, 0⟩ = [.nonterminal s] := by
    rw [Productions.rest_eq (i := ⟨q, 0⟩) hq, Grammar.production, hsymbols,
      ← Grammar.part_eq_nonterminal h.isNonterminal_repeated]
    rfl
  obtain ⟨dest, hgoto, htarget⟩ := hb.goto_of_rest hstands₀.state hstands₀.item hrest₀
  obtain ⟨m, c, tree, hle, hruns, hframes, hsees⟩ :=
    exists_repetition hb h hstands hlalr htarget hgoto htokens rfl
  obtain ⟨tree', hrun⟩ := accepts_repetition hb h hstands hlalr htarget hframes hsees 0
  have hrun' : p.run (m + 2) (.start (tokens.map .ok ++ rest)) = .ok tree' :=
    run_append hb (fun r hr => h.eoi_notMem hr) hrest ((hruns 2).trans hrun)
  have hlimit : m + 2 ≤ stepLimit p.grammar (tokens.map .ok ++ rest : List Lexeme).length := by
    refine Nat.le_trans ?_ (le_stepLimit _ _)
    rw [List.length_append, List.length_map]
    omega
  obtain ⟨more, hmore⟩ := Nat.exists_eq_add_of_le hlimit
  rw [parse, hmore]
  exact ⟨tree', run_add hrun' more⟩

/-- And nothing else is. -/
lemma exists_repeated_of_parse {input : List Lexeme} (hparse : p.parse input = .ok tree) :
    ∃ (n : Nat) (tokens : List Token) (rest : List Lexeme), input = tokens.map .ok ++ rest ∧
      Ending rest ∧ tokens.map Token.symbol = Grammar.repeated n v := by
  obtain ⟨hsymbol, hd, rest, hinput, hrest⟩ :=
    leaves_of_run hb (fun r hr => h.eoi_notMem hr) (fun r hr => (h.plain hr).1) hparse
  have hderives := hd.derives
  rw [hsymbol] at hderives
  obtain ⟨n, hn⟩ := h.exists_repeated hderives (List.forall_mem_map.mpr hd.isTerminal)
  rw [← tree.leaves_eq_yield] at hn
  exact ⟨n, tree.leaves, rest, hinput, hrest, hn⟩

end Run

end Parser

namespace Grammar

variable {g g' : Grammar} {start s : SymbolId} {v : List SymbolId}

/-- The grammar of a repetition is not refused. -/
lemma Repeats.exists_parser (h : g.Repeats start s v) : ∃ p, g.parser = .ok p := by
  have hstart : ∃ r ∈ g.rules, r.target = start := h.valid.exists_rule_of_target h.accepts
  have hrepeated : ∃ r ∈ g.rules, r.target = s := by
    obtain ⟨r, hr, htarget, -⟩ := h.exists_rule (.inl rfl)
    exact ⟨r, hr, htarget⟩
  have hdefined : ∀ r ∈ g.rules, ∀ t ∈ r.clause, g.symbols.isNonterminal t = true →
      ∃ r' ∈ g.rules, r'.target = t := by
    intro r hr t ht hnonterminal
    suffices hs : t = s from hs ▸ hrepeated
    rcases h.rule_cases hr with rfl | rfl | rfl | rfl
    · exact List.mem_singleton.mp ht
    · exact absurd ht (h.notMem hnonterminal)
    · exact (List.mem_cons.mp ht).resolve_right (h.notMem hnonterminal)
    · exact absurd (List.mem_singleton.mp ht)
        (SymbolTable.ne_of_kinds hnonterminal h.valid.isTerminal_epsilon)
  obtain ⟨t, ht⟩ := exists_table h.accepts hstart hdefined
  exact parser_exists_of_table ht

lemma Repeats.builds (h : g.Repeats start s v) (hfit : 4 * (v.length + 2) < wordRange)
    {p : Parser} (hp : g.parser = .ok p) : p.grammar = g ∧ p.grammar.Builds start p.table := by
  obtain ⟨hgrammar, target, htarget, hb⟩ := builds_of_parser_eq_ok h.valid (h.keysFit hfit) hp
  obtain rfl := Option.some.inj (htarget.symm.trans h.accepts)
  exact ⟨hgrammar.trans h.inheritLevels_eq, hb⟩

/-- With a row that is so long that keys wrap around, the parser refuses the empty stream. -/
lemma Repeats.parse_nil_ne_ok (h : g.Repeats start s v) (hwrap : 4 * (v.length + 2) = wordRange)
    {p : Parser} (hp : g.parser = .ok p) (tree : Tree) : p.parse [] ≠ .ok tree := by
  obtain ⟨hgrammar, ht⟩ := parser_eq_ok hp
  rw [h.inheritLevels_eq] at hgrammar ht
  have hspares : p.SparesEnd := Parser.sparesEnd_of_own_table (hgrammar ▸ h.valid)
    (hgrammar ▸ ht) (fun r hr => h.eoi_notMem (hgrammar ▸ hr))
  have hfails : ∀ token action, p.executed (.start []) = some (token, action) →
      action = .fail := by
    intro token action hexec
    obtain ⟨t, ha, -⟩ := Parser.action_of_executed hexec
    rcases h.action?_start hwrap ht ha with hfail | ⟨dest, rfl⟩
    · exact hfail
    · obtain ⟨c, hfetch, -⟩ := Parser.choose_of_executed hexec
      cases hfetch
      exact absurd rfl (hspares _ _ _ hexec)
  rw [Parser.parse]
  cases Parser.stepLimit p.grammar ([] : List Lexeme).length with
  | zero => exact fun hrun => by cases hrun
  | succ fuel =>
    rw [Parser.run]
    cases hstep : p.step (.start []) with
    | failed e => exact fun hrun => by cases hrun
    | accepted tree' =>
      obtain ⟨token, hexec⟩ := Parser.executed_of_accepted hstep
      cases hfails _ _ hexec
    | running c =>
      obtain ⟨token, action, hexec⟩ := Parser.executed_of_step hstep
      obtain rfl := hfails _ _ hexec
      obtain ⟨state, hfailed⟩ := Parser.step_fail hexec
      cases hstep.symm.trans hfailed

section ZeroOrMore

variable (hg : g.Valid) (hlevels : g.levels = []) (hne : v ≠ [])
  (hterminal : ∀ t ∈ v, g.symbols.isTerminal t = true ∧ t ≠ SymbolId.eoi ∧ t ≠ SymbolId.epsilon)

include hg hlevels hne hterminal

/-- The parser for a repetition of terminals is that of four rules. -/
lemma Valid.exists_repeats : ∃ g' s start h, g.zeroOrMore v = (g', .ok s) ∧
    (g'.parserFor s).2 = h.parser ∧ Repeats h start s v := by
  have hknown : ∀ t ∈ v, g.symbols.contains t = true := fun t ht =>
    decide_eq_true (SymbolTable.lt_size_of_isTerminal (hterminal t ht).1)
  obtain ⟨g', hcall, hdefines⟩ :=
    exists_repetition true ("zeroOrMore(" ++ g.nameList v ++ ")") hknown
  have hg' : g'.Valid := by
    have hdefine := hg.define ("zeroOrMore(" ++ g.nameList v ++ ")") (repetition true v)
    rwa [hcall] at hdefine
  refine ⟨g', _, _, _, hcall, parserFor_of_two_rules ?_,
    hg.repeats_extract hlevels hne hterminal hg' hdefines⟩
  rw [hdefines.rulesOf_repetition hg hne]
  exact Nat.le_succ 2

/-- The parser for a repetition of terminals accepts the rows and nothing else. -/
lemma Valid.parserFor_zeroOrMore (hfit : 4 * (v.length + 2) < wordRange) :
    ∃ g' s p, g.zeroOrMore v = (g', .ok s) ∧ (g'.parserFor s).2 = .ok p ∧ ∀ input,
      (∃ tree, p.parse input = .ok tree) ↔
        ∃ (n : Nat) (tokens : List Token) (rest : List Lexeme),
          input = tokens.map .ok ++ rest ∧ Ending rest ∧
            tokens.map Token.symbol = repeated n v := by
  obtain ⟨g', s, start, h, hcall, hparser, hrepeats⟩ :=
    hg.exists_repeats hlevels hne hterminal
  obtain ⟨p, hp⟩ := hrepeats.exists_parser
  obtain ⟨rfl, hb⟩ := hrepeats.builds hfit hp
  refine ⟨g', s, p, hcall, hparser.trans hp, fun input => ⟨?_, ?_⟩⟩
  · rintro ⟨tree, hparse⟩
    exact Parser.exists_repeated_of_parse hb hrepeats hparse
  · rintro ⟨n, tokens, rest, rfl, hrest, htokens⟩
    exact Parser.exists_parse_of_repeated hb hrepeats htokens hrest

end ZeroOrMore

/-- The shorthands stand for what their names say, whatever the grammar that they are added to.
They leave its symbols, its rules and what these derive alone. And the parser for a repetition of
terminals accepts the rows of any length, although its grammar is ambiguous, if no levels are
declared. -/
theorem Valid.shorthands_exact (hg : g.Valid) (hknown : ∀ t ∈ v, g.symbols.contains t = true)
    (hne : SymbolId.epsilon ∉ v) :
    g.Denotes (g.oneOf v) (fun α => ∃ t ∈ v, α = [t]) ∧
    g.Denotes (g.optional v) (fun α => α = v ∨ α = []) ∧
    g.Denotes (g.oneOrMore v) (fun α => ∃ n, 1 ≤ n ∧ α = repeated n v) ∧
    g.Denotes (g.zeroOrMore v) (fun α => ∃ n, α = repeated n v) ∧
    (∀ separator item, v = [separator, item] →
      g.Denotes (g.listOf false separator item) (IsList separator item)) ∧
    ((∀ t ∈ v, g.symbols.isTerminal t = true ∧ t ≠ SymbolId.eoi) → v ≠ [] → g.levels = [] →
      4 * (v.length + 2) < wordRange →
      ∃ g' s p, g.zeroOrMore v = (g', .ok s) ∧ (g'.parserFor s).2 = .ok p ∧ ∀ input,
        (∃ tree, p.parse input = .ok tree) ↔
          ∃ (n : Nat) (tokens : List Token) (rest : List Lexeme),
            input = tokens.map .ok ++ rest ∧ Ending rest ∧
              tokens.map Token.symbol = repeated n v) := by
  refine ⟨hg.denotes_oneOf hknown hne, hg.denotes_optional hknown hne,
    hg.denotes_oneOrMore hknown hne, hg.denotes_zeroOrMore hknown hne, ?_, ?_⟩
  · rintro separator item rfl
    have hitem : item ∈ [separator, item] := List.mem_cons_of_mem _ List.mem_cons_self
    exact hg.denotes_listOf (hknown _ List.mem_cons_self) (hknown _ hitem) fun heq =>
      hne (heq ▸ hitem)
  · intro hterminal hnil hlevels hfit
    refine hg.parserFor_zeroOrMore hlevels hnil (fun t ht => ?_) hfit
    exact ⟨(hterminal t ht).1, (hterminal t ht).2, fun heq => hne (heq ▸ ht)⟩

/-- Of `, x` and `,` the parser for the repetition of `, x` accepts the first only. -/
theorem shorthands_exact_commas : commas.Valid ∧
    (∀ t ∈ [2, 3], commas.symbols.contains t = true) ∧ SymbolId.epsilon ∉ [2, 3] ∧
    (∀ t ∈ [2, 3], commas.symbols.isTerminal t = true ∧ t ≠ SymbolId.eoi) ∧
    [2, 3] ≠ ([] : List SymbolId) ∧ commas.levels = [] ∧
    4 * (([2, 3] : List SymbolId).length + 2) < wordRange ∧
    commas.Denotes (commas.listOf false 2 3) (IsList 2 3) ∧
    ∃ g' s p, commas.zeroOrMore [2, 3] = (g', .ok s) ∧ (g'.parserFor s).2 = .ok p ∧
      (∃ tree, p.parse [.ok ⟨2, ",", 1, 1⟩, .ok ⟨3, "x", 1, 2⟩] = .ok tree) ∧
      ¬ ∃ tree, p.parse [.ok ⟨2, ",", 1, 1⟩] = .ok tree := by
  have hknown : ∀ t ∈ [2, 3], commas.symbols.contains t = true := by decide
  have hterminal : ∀ t ∈ [2, 3], commas.symbols.isTerminal t = true ∧ t ≠ SymbolId.eoi := by
    decide
  have hnil : [2, 3] ≠ ([] : List SymbolId) := List.cons_ne_nil _ _
  have hfit : 4 * (([2, 3] : List SymbolId).length + 2) < wordRange := by decide
  obtain ⟨-, -, -, -, hlist, hparser⟩ := valid_commas.shorthands_exact hknown (by decide)
  obtain ⟨g', s, p, hcall, hp, haccepts⟩ := hparser hterminal hnil rfl hfit
  refine ⟨valid_commas, hknown, by decide, hterminal, hnil, rfl, hfit, hlist 2 3 rfl,
    g', s, p, hcall, hp, ?_, fun htree => ?_⟩
  · exact (haccepts _).mpr ⟨1, [⟨2, ",", 1, 1⟩, ⟨3, "x", 1, 2⟩], [], rfl, .inl rfl, rfl⟩
  · obtain ⟨n, tokens, rest, hinput, hrest, htokens⟩ := (haccepts _).mp htree
    cases n with
    | zero =>
      -- no token was read, and what is left does not end
      obtain rfl := List.map_eq_nil_iff.mp htokens
      obtain rfl : [.ok ⟨2, ",", 1, 1⟩] = rest := hinput
      rcases hrest with hnil | ⟨token, rest', heq, heoi⟩
      · cases hnil
      · cases heq
        cases heoi
    | succ n =>
      have hlength := congrArg List.length htokens
      rw [repeated_succ, List.length_map, List.length_append] at hlength
      have hone := congrArg List.length hinput
      rw [List.length_append, List.length_map] at hone
      simp only [List.length_cons, List.length_nil] at hlength hone
      omega

/-- What is accepted is not a row over and over if something stands behind the end of input. And the
row that is left out is not accepted if the row is too long for the keys. -/
theorem repetition_overlong :
    (∃ g' s p, commas.zeroOrMore [3] = (g', .ok s) ∧ (g'.parserFor s).2 = .ok p ∧
      (∃ tree, p.parse [.ok ⟨0, "$", 1, 1⟩, .ok ⟨3, "x", 1, 2⟩] = .ok tree) ∧
      ¬ ∃ n, [0, 3] = repeated n [3]) ∧
    commas.Valid ∧ commas.levels = [] ∧
    (∀ t ∈ List.replicate 1073741822 3,
      commas.symbols.isTerminal t = true ∧ t ≠ SymbolId.eoi ∧ t ≠ SymbolId.epsilon) ∧
    ∃ g' s p, commas.zeroOrMore (List.replicate 1073741822 3) = (g', .ok s) ∧
      (g'.parserFor s).2 = .ok p ∧ [] = repeated 0 (List.replicate 1073741822 3) ∧
      ¬ ∃ tree, p.parse [] = .ok tree := by
  have hx : commas.symbols.isTerminal 3 = true ∧ 3 ≠ SymbolId.eoi ∧ 3 ≠ SymbolId.epsilon := by
    decide
  refine ⟨?_, valid_commas, rfl, fun t ht => List.eq_of_mem_replicate ht ▸ hx, ?_⟩
  · obtain ⟨g', s, start, h, hcall, hparser, hrepeats⟩ := valid_commas.exists_repeats rfl
      (List.cons_ne_nil 3 []) (List.forall_mem_singleton.mpr hx)
    obtain ⟨p, hp⟩ := hrepeats.exists_parser
    obtain ⟨rfl, hb⟩ := hrepeats.builds (by decide) hp
    have hnone : ([] : List Token).map Token.symbol = repeated 0 [3] := rfl
    have hrest : Ending [.ok ⟨0, "$", 1, 1⟩, .ok ⟨3, "x", 1, 2⟩] := .inr ⟨_, _, rfl, rfl⟩
    have haccepted := Parser.exists_parse_of_repeated hb hrepeats hnone hrest
    refine ⟨g', s, p, hcall, hparser.trans hp, haccepted, ?_⟩
    rintro ⟨n, hn⟩
    have hmem : 0 ∈ repeated n [3] := hn ▸ List.mem_cons_self
    exact notMem_repeated (by decide) n hmem
  · have hne : List.replicate 1073741822 3 ≠ ([] : List SymbolId) := by
      rw [← List.length_pos_iff, List.length_replicate]
      decide
    obtain ⟨g', s, start, h, hcall, hparser, hrepeats⟩ := valid_commas.exists_repeats rfl hne
      fun t ht => List.eq_of_mem_replicate ht ▸ hx
    obtain ⟨p, hp⟩ := hrepeats.exists_parser
    refine ⟨g', s, p, hcall, hparser.trans hp, rfl, ?_⟩
    rintro ⟨tree, hparse⟩
    refine hrepeats.parse_nil_ne_ok ?_ hp tree hparse
    rw [List.length_replicate]

end Grammar

end ShiftReduce
