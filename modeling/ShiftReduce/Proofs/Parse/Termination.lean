import ShiftReduce.Proofs.Grammar.Safe
import ShiftReduce.Proofs.Parse.Fallback
import ShiftReduce.Proofs.Parse.Lockstep
import ShiftReduce.Proofs.Table.Relapsing
/-!
# Parses end

A step of the parser puts a leaf or a node on a forest over the labels of its stack, whatever the
callbacks of rules make of the trees, so the steps are counted by the size of that forest. In a safe
grammar it is bounded by the number of its leaves. The trees are sparing. And the trees without
leaves that stand in a row on the stack are not many: an item of the state on top can be followed
down the stack, from the dot to the beginning of its rule and on in the rule in which that one
begins, and if this went on for long over what can vanish, some symbol would come again and be
hidden from itself. Neither lookaheads nor conflicts matter for this, nor does it rest on the `ε`
column being entered only once in every state.

Main statement: `Parser.ends_of_own_table`.
-/

namespace ShiftReduce

namespace Tree

variable {forest : List Tree}

lemma sizeAll_reverse : sizeAll forest.reverse = sizeAll forest := by
  induction forest with
  | nil => rfl
  | cons tree forest ih =>
    rw [List.reverse_cons, sizeAll_append, ih, sizeAll, sizeAll, sizeAll, Nat.add_zero,
      Nat.add_comm]

lemma length_yieldAll_reverse : (yieldAll forest.reverse).length = (yieldAll forest).length := by
  induction forest with
  | nil => rfl
  | cons tree forest ih =>
    rw [List.reverse_cons, yieldAll_append, List.length_append, ih, yieldAll, yieldAll, yieldAll,
      List.append_nil, List.length_append, Nat.add_comm]

lemma leafyCount_le : leafyCount forest ≤ (yieldAll forest).length := by
  induction forest with
  | nil => exact Nat.le_refl 0
  | cons tree forest ih =>
    rw [yieldAll, List.length_append, leafyCount, List.countP_cons]
    rw [leafyCount] at ih
    split
    · next hleafy =>
      have hpos : 0 < tree.yield.length := List.length_pos_iff.mpr (by simpa using hleafy)
      omega
    · omega

/-- If rows of trees without leaves are no longer than this, the trees with leaves bound all. -/
lemma length_le_of_rows {bound : Nat}
    (h : ∀ row, row <:+: forest → yieldAll row = [] → row.length ≤ bound) :
    forest.length ≤ bound + leafyCount forest * (bound + 1) := by
  have hrow : ∃ row rest, forest = row ++ rest ∧ yieldAll row = [] ∧
      forest.length ≤ row.length + leafyCount forest * (bound + 1) := by
    induction forest with
    | nil => exact ⟨[], [], rfl, rfl, Nat.zero_le _⟩
    | cons tree forest ih =>
      obtain ⟨row, rest, rfl, hbare, hlength⟩ :=
        ih fun row hwithin => h row (hwithin.trans (List.suffix_cons tree _).isInfix)
      by_cases hyield : tree.yield = []
      · refine ⟨tree :: row, rest, rfl, by rw [yieldAll, hyield, hbare, List.nil_append], ?_⟩
        have hcount : leafyCount (tree :: (row ++ rest)) = leafyCount (row ++ rest) := by
          rw [leafyCount, List.countP_cons_of_neg (by simp [hyield]), leafyCount]
        rw [hcount, List.length_cons, List.length_cons]
        omega
      · -- the row ends at this tree, and another one begins
        refine ⟨[], tree :: (row ++ rest), rfl, rfl, ?_⟩
        have hcount : leafyCount (tree :: (row ++ rest)) = leafyCount (row ++ rest) + 1 := by
          rw [leafyCount, List.countP_cons_of_pos (by simpa using hyield), leafyCount]
        have hwithin : row <:+: tree :: (row ++ rest) :=
          (List.prefix_append row rest).isInfix.trans (List.suffix_cons tree _).isInfix
        have hbound := h row hwithin hbare
        rw [hcount, List.length_cons, Nat.succ_mul, List.length_nil]
        omega
  obtain ⟨row, rest, rfl, hbare, hlength⟩ := hrow
  have hbound := h row (List.prefix_append row rest).isInfix hbare
  omega

end Tree

namespace Grammar

variable {g : Grammar} {target s : SymbolId} {t : ActionTable} {labels : List SymbolId}
  {frames : List Frame} {st : State} {i : Dotted} {β : List Part} {r : Rule} {prod : Production}

/-- The symbols of a rule, parted at the dot of an item with a non-terminal behind it. -/
lemma symbols_of_rest (hp : (g.productions target).get? i.production = some (g.production r))
    (hrest : (g.productions target).rest i = .nonterminal s :: β) :
    r.symbols = r.symbols.take i.dot ++ s :: r.symbols.drop (i.dot + 1) := by
  obtain ⟨prod, hp', hpart, -⟩ := Productions.exists_production_of_rest hrest
  cases hp.symm.trans hp'
  rw [production, List.getElem?_map, Option.map_eq_some_iff] at hpart
  obtain ⟨s', hs', hpart⟩ := hpart
  have hs : s' = s := by rw [← g.part_symbol s', hpart, Part.symbol]
  obtain ⟨hlt, rfl⟩ := List.getElem?_eq_some_iff.mp hs'
  rw [← hs, ← List.drop_eq_getElem_cons hlt, List.take_append_drop]

namespace Builds

/-- The labels on top are the symbols of a rule up to the dot of an item. -/
lemma take_labels (h : g.Builds target t) (hpath : (g.automatonOf target).Path g labels frames)
    (hst : (g.automatonOf target).states[Configuration.topState frames]? = some st)
    (hi : i ∈ (g.productions target).closure (st.kernelSet (g.productions target)))
    (hp : (g.productions target).get? i.production = some (g.production r)) :
    labels.take i.dot = (r.symbols.take i.dot).reverse := by
  obtain ⟨hlabels, -⟩ := h.viable hpath hst hi hp
  have hinj : Function.Injective g.part := fun s s' heq => by
    rw [← g.part_symbol s, heq, g.part_symbol]
  rw [production, ← List.map_take, ← List.map_reverse] at hlabels
  exact List.map_injective_iff.mpr hinj hlabels

/-- Below them, if anything is there, an item has the dot in front of the target. -/
lemma exists_below (h : g.Builds target t) (hpath : (g.automatonOf target).Path g labels frames)
    (hst : (g.automatonOf target).states[Configuration.topState frames]? = some st)
    (hi : i ∈ (g.productions target).closure (st.kernelSet (g.productions target)))
    (hp : (g.productions target).get? i.production = some prod) :
    i.dot ≤ labels.length ∧ (labels.length = i.dot ∨ ∃ st' j β,
      (g.automatonOf target).states[Configuration.topState (frames.drop i.dot)]? = some st' ∧
      j ∈ (g.productions target).closure (st'.kernelSet (g.productions target)) ∧
      (g.productions target).rest j = .nonterminal prod.lhs :: β) := by
  obtain ⟨-, hlength, st', hst', hbegin⟩ := h.viable hpath hst hi hp
  refine ⟨hlength, ?_⟩
  cases hbegin with
  | kernel hkernel =>
    left
    have hnil := h.frames_eq_nil (hpath.drop i.dot) hst' hkernel rfl
    have hzero := (hpath.drop i.dot).length_eq
    rw [hnil, List.length_nil, List.length_drop] at hzero
    omega
  | @opening j _ s β hj hrest hopen =>
    obtain ⟨-, prod', hp', rfl⟩ := hopen
    cases hp.symm.trans hp'
    exact .inr ⟨st', j, β, hst', hj, hrest⟩

/-- The rule of an item with a non-terminal behind its dot and something in front of it. If what is
in front can vanish, the rule hides the non-terminal from its target. -/
lemma exists_rule_of_moved (h : g.Builds target t)
    (hpath : (g.automatonOf target).Path g labels frames)
    (hst : (g.automatonOf target).states[Configuration.topState frames]? = some st)
    (hi : i ∈ (g.productions target).closure (st.kernelSet (g.productions target)))
    (hrest : (g.productions target).rest i = .nonterminal s :: β) (hpos : 0 < i.dot) :
    ∃ r ∈ g.rules, i.dot ≤ labels.length ∧ i.dot ≤ g.longest ∧
      ((∀ u ∈ labels.take i.dot, g.Nullable [u]) → g.LeadsHidden r.target s) ∧
      (labels.length = i.dot ∨ ∃ st' j γ,
        (g.automatonOf target).states[Configuration.topState (frames.drop i.dot)]? = some st' ∧
        j ∈ (g.productions target).closure (st'.kernelSet (g.productions target)) ∧
        (g.productions target).rest j = .nonterminal r.target :: γ) := by
  obtain ⟨prod, hp, -⟩ := Productions.exists_production_of_rest hrest
  have hne : i.production ≠ 0 := by
    intro h0
    rw [h0, h.proper.start, Option.some.injEq] at hp
    subst hp
    rw [Productions.rest_eq (h0 ▸ h.proper.start),
      List.drop_of_length_le (Nat.succ_le_of_lt hpos)] at hrest
    cases hrest
  obtain ⟨r, hr, rfl⟩ := exists_rule_of_productions_get? hp hne
  have hlabels := h.take_labels hpath hst hi hp
  obtain ⟨hdot, hbelow⟩ := h.exists_below hpath hst hi hp
  have hfront : (r.symbols.take i.dot).length = i.dot := by
    rw [← List.length_reverse, ← hlabels, List.length_take_of_le hdot]
  have hdot' : i.dot ≤ g.longest := by
    rw [List.length_take] at hfront
    exact Nat.le_trans (min_eq_left_iff.mp hfront) (arity_le_longest hr)
  refine ⟨r, hr, hdot, hdot', fun hnullable => ?_, hbelow⟩
  refine .rule hr (symbols_of_rest hp hrest) (nullable_of_forall fun u hu => hnullable u ?_) ?_
  · rwa [hlabels, List.mem_reverse]
  · rwa [← List.length_pos_iff, hfront]

/-- A row of labels that can vanish, below an item with a non-terminal behind its dot: every rule in
which the item is followed down hides that non-terminal from its target, or has nothing in front of
the dot. The set has symbols that were met above. -/
lemma length_le_of_nullable (h : g.Builds target t) (hsafe : g.Safe)
    (hpath : (g.automatonOf target).Path g labels frames)
    (hst : (g.automatonOf target).states[Configuration.topState frames]? = some st)
    (hi : i ∈ (g.productions target).closure (st.kernelSet (g.productions target)))
    (hrest : (g.productions target).rest i = .nonterminal s :: β) (hs : s ∈ g.defined)
    {met : Finset SymbolId} (hmet : met ⊆ g.defined) (hhides : ∀ u ∈ met, g.Hides s u) {k : Nat}
    (hk : k ≤ labels.length) (hnullable : ∀ u ∈ labels.take k, g.Nullable [u]) :
    k ≤ ((g.defined \ met).card + 1) * g.longest := by
  induction hlength : labels.length using Nat.strong_induction_on
    generalizing labels frames st i s β met k with
  | _ n ih =>
  subst hlength
  induction hi generalizing s β met with
  | @kernel i hkernel =>
    rcases (h.isLalr.reachable st (List.mem_of_getElem? hst)).start_or_moved hkernel with
      hstart | hpos
    · -- nothing is below the item of the start
      have hnil := h.frames_eq_nil hpath hst hkernel (congrArg Dotted.dot hstart)
      rw [hpath.length_eq, hnil] at hk
      exact Nat.le_trans hk (Nat.zero_le _)
    · obtain ⟨r, hr, hdot, hlongest, hleads, hbelow⟩ :=
        h.exists_rule_of_moved hpath hst (.kernel hkernel) hrest hpos
      rcases Nat.lt_or_ge i.dot k with hlt | hle
      · -- the symbols in front of the dot are all among the labels that can vanish
        have hhidden := hleads fun u hu =>
          hnullable u ((List.take_sublist_take_left (Nat.le_of_lt hlt)).subset hu)
        have hnot : s ∉ met := fun hmem => hsafe.not_hides s (hhides s hmem)
        rcases hbelow with hnone | ⟨st', j, γ, hst', hj, hrestj⟩
        · omega
        have hbound := ih (labels.drop i.dot).length (by rw [List.length_drop]; omega)
          (hpath.drop i.dot) hst' hj hrestj (List.mem_toFinset.mpr (List.mem_map_of_mem hr))
          (Finset.insert_subset hs hmet)
          (fun u hu => (Finset.mem_insert.mp hu).elim (fun heq => heq ▸ hhidden.hides)
            fun hu => (hhides u hu).head hhidden.leads)
          (k := k - i.dot) (by rw [List.length_drop]; omega)
          (fun u hu => hnullable u (by
            rw [← List.drop_take] at hu
            exact List.mem_of_mem_drop hu)) rfl
        rw [card_sdiff_insert hs hnot, Nat.succ_mul]
        omega
      · rw [Nat.succ_mul]
        omega
  | @opening j i u γ hj hrestj hopen ihj =>
    -- the rule of the item begins here, so that nothing is in front of its dot
    obtain ⟨hdot, prod, hp, rfl⟩ := hopen
    obtain ⟨r, hr, rfl⟩ := exists_rule_of_productions_get? hp
      (h.proper.opening_ne_start hrestj ⟨hdot, prod, hp, rfl⟩)
    have hsymbols := symbols_of_rest hp hrest
    have hleads : g.Leads r.target s := .rule hr hsymbols (by rw [hdot]; exact .refl)
    exact ihj hrestj (List.mem_toFinset.mpr (List.mem_map_of_mem hr)) hmet
      fun u hu => (hhides u hu).head hleads

end Builds

/-- The bound on the trees without leaves that stand in a row. -/
def rowBound (g : Grammar) : Nat := (g.defined.card + 2) * (g.longest + 1)

/-- No more labels than these that can vanish are on top of a stack. -/
lemma Builds.length_le_rowBound (h : g.Builds target t) (hsafe : g.Safe)
    (hpath : (g.automatonOf target).Path g labels frames) {k : Nat} (hk : k ≤ labels.length)
    (hnullable : ∀ u ∈ labels.take k, g.Nullable [u]) : k ≤ g.rowBound := by
  obtain ⟨st, hst⟩ := h.exists_topState hpath
  have hreachable := h.isLalr.reachable st (List.mem_of_getElem? hst)
  obtain ⟨i, hkernel⟩ := hreachable.nonempty
  have hi : i ∈ (g.productions target).closure (st.kernelSet (g.productions target)) :=
    Productions.subset_closure _ hkernel
  obtain ⟨prod, hp, hdot⟩ := hreachable.isDotted h.proper hi
  have hlongest : prod.rhs.length ≤ g.longest + 1 := by
    by_cases hne : i.production = 0
    · cases h.proper.start.symm.trans (hne ▸ hp)
      exact Nat.le_add_left 1 _
    · obtain ⟨r, hr, rfl⟩ := exists_rule_of_productions_get? hp hne
      rw [production, List.length_map]
      exact Nat.le_succ_of_le (arity_le_longest hr)
  obtain ⟨hle, hbelow⟩ := h.exists_below hpath hst hi hp
  rcases Nat.lt_or_ge i.dot k with hlt | hge
  · rcases hbelow with hnone | ⟨st', j, β, hst', hj, hrest⟩
    · omega
    -- the item is one of a rule, and its target is looked for below the dot
    have hne : i.production ≠ 0 := by
      intro h0
      cases h.proper.start.symm.trans (h0 ▸ hp)
      exact absurd (h.proper.symbol_lt_of_rest hrest).1 (Nat.lt_irrefl _)
    obtain ⟨r, hr, rfl⟩ := exists_rule_of_productions_get? hp hne
    have hbound := h.length_le_of_nullable hsafe (hpath.drop i.dot) hst' hj hrest
      (List.mem_toFinset.mpr (List.mem_map_of_mem hr)) (Finset.empty_subset _) (by simp)
      (k := k - i.dot) (by rw [List.length_drop]; omega)
      (fun u hu => hnullable u (by
        rw [← List.drop_take] at hu
        exact List.mem_of_mem_drop hu))
    rw [Finset.sdiff_empty] at hbound
    calc k = i.dot + (k - i.dot) := by omega
      _ ≤ (g.longest + 1) + (g.defined.card + 1) * g.longest :=
        Nat.add_le_add (hdot.trans hlongest) hbound
      _ ≤ g.rowBound := by rw [rowBound]; linarith
  · exact (hge.trans (hdot.trans hlongest)).trans (Nat.le_mul_of_pos_left _ (Nat.succ_pos _))

/-- The trees are derivation trees for the labels of a stack, topmost first. -/
structure Covers (g : Grammar) (forest : List Tree) (labels : List SymbolId) : Prop where
  symbols : forest.map Tree.symbol = labels
  derivations : ∀ tree ∈ forest, g.IsDerivation tree

/-- The bound on a forest over a stack, by the number of its leaves. -/
def forestBound (g : Grammar) (leaves : Nat) : Nat :=
  (g.rowBound + leaves * (g.rowBound + 1)) * g.bareBound + 2 * g.chainBound * leaves

lemma forestBound_mono (g : Grammar) {m n : Nat} (h : m ≤ n) : g.forestBound m ≤ g.forestBound n :=
  Nat.add_le_add
    (Nat.mul_le_mul_right _ (Nat.add_le_add_left (Nat.mul_le_mul_right _ h) _))
    (Nat.mul_le_mul_left _ h)

/-- In a safe grammar the leaves of a forest over a stack bound its size. -/
lemma Covers.sizeAll_le {forest : List Tree} (hcovers : g.Covers forest labels)
    (h : g.Builds target t) (hsafe : g.Safe)
    (hpath : (g.automatonOf target).Path g labels frames) :
    Tree.sizeAll forest ≤ g.forestBound (Tree.yieldAll forest).length := by
  have hsparing : ∀ tree ∈ forest, g.Sparing ∅ tree := fun tree htree =>
    hsafe.sparing (hcovers.derivations tree htree) (by simp)
  have hsize := sizeAll_add_le (fun tree htree => (hsparing tree htree).size_le_bareBound)
    fun tree htree => (hsparing tree htree).size_add_chainBound_le
  have hlength : forest.length ≤ g.rowBound + Tree.leafyCount forest * (g.rowBound + 1) := by
    refine Tree.length_le_of_rows fun row hwithin hbare => ?_
    obtain ⟨above, below, rfl⟩ := hwithin
    have hlabels : labels.drop above.length = (row ++ below).map Tree.symbol := by
      rw [← hcovers.symbols, List.append_assoc, List.map_append,
        List.drop_left' (List.length_map _)]
    refine h.length_le_rowBound hsafe (hpath.drop above.length) (by simp [hlabels]) ?_
    rw [hlabels, List.map_append, List.take_left' (List.length_map _), List.forall_mem_map]
    intro tree htree
    exact (hcovers.derivations tree (by simp [htree])).nullable
      (Tree.yieldAll_eq_nil_iff.mp hbare tree htree)
  have hcount : Tree.leafyCount forest * (g.rowBound + 1) ≤
      (Tree.yieldAll forest).length * (g.rowBound + 1) :=
    Nat.mul_le_mul_right _ Tree.leafyCount_le
  calc Tree.sizeAll forest
      ≤ forest.length * g.bareBound + 2 * g.chainBound * (Tree.yieldAll forest).length :=
        (Nat.le_add_right _ _).trans hsize
    _ ≤ g.forestBound (Tree.yieldAll forest).length :=
        Nat.add_le_add_right (Nat.mul_le_mul_right _ (hlength.trans (Nat.add_le_add_left hcount _)))
          _

/-- A forest with a leaf for each token is smaller than the number of steps allowed. -/
lemma forestBound_lt_stepLimit (g : Grammar) (tokens : Nat) :
    g.forestBound tokens < Parser.stepLimit g tokens := by
  have hunit := longest_mul_bareBound_le g
  have hchain := chainBound_le g
  have hcard := card_defined_le g
  have hpos := stepUnit_pos g
  have hone : g.bareBound ≤ g.stepUnit := (Nat.le_mul_of_pos_left _ (Nat.succ_pos _)).trans hunit
  have hrow : g.rowBound * g.bareBound ≤ (g.rules.length + 2) * g.stepUnit := by
    rw [rowBound, Nat.mul_assoc]
    refine Nat.mul_le_mul (by omega) (Nat.le_trans ?_ hunit)
    exact Nat.mul_le_mul_right _ (Nat.le_succ _)
  rw [stepLimit_eq, forestBound]
  generalize g.stepUnit = unit at *
  calc (g.rowBound + tokens * (g.rowBound + 1)) * g.bareBound + 2 * g.chainBound * tokens
      = g.rowBound * g.bareBound + tokens * (g.rowBound * g.bareBound + g.bareBound) +
          2 * g.chainBound * tokens := by ring
    _ ≤ (g.rules.length + 2) * unit + tokens * ((g.rules.length + 2) * unit + unit) +
          2 * (unit * (g.rules.length + 1)) * tokens :=
        Nat.add_le_add (Nat.add_le_add hrow (Nat.mul_le_mul_left _ (Nat.add_le_add hrow hone)))
          (Nat.mul_le_mul_right _ (Nat.mul_le_mul_left 2 hchain))
    _ = unit * ((g.rules.length + 2) + tokens * (3 * g.rules.length + 5)) := by ring
    _ < unit * (16 * (tokens + 2) * (g.rules.length + 2)) := by
      refine Nat.mul_lt_mul_of_pos_left ?_ hpos
      nlinarith [Nat.zero_le (g.rules.length * tokens)]
    _ = 16 * (tokens + 2) * (g.rules.length + 2) * unit := by ring

end Grammar

/-- The tokens of the stream that are not shifted yet. -/
def Configuration.unread (c : Configuration) : Nat :=
  c.input.length + (match c.held with
    | some token => if token.symbol = SymbolId.eoi then 0 else 1
    | none => 0)

namespace Parser

variable {p : Parser} {c c' c₁ : Configuration} {token : Token} {action : Action}
  {target : SymbolId} {labels : List SymbolId} {input : List Lexeme} {forest : List Tree}
  {m n : Nat}

/-- The step from one configuration to the other is a reduction. -/
def Reduces (p : Parser) (c c' : Configuration) : Prop :=
  (∃ token id, p.executed c = some (token, .reduce id)) ∧ p.step c = .running c'

/-- So many reductions, one after another, lead from one configuration to the other. -/
inductive Reductions (p : Parser) : Nat → Configuration → Configuration → Prop
  | refl (c : Configuration) : Reductions p 0 c c
  | head {n : Nat} {c c' c'' : Configuration} : p.Reduces c c' → Reductions p n c' c'' →
      Reductions p (n + 1) c c''

lemma unread_of_fetch (h : c.fetch = .ok (token, c₁)) :
    c₁.input.length + (if token.symbol = SymbolId.eoi then 0 else 1) ≤ c.unread ∧
      c₁.held = none := by
  obtain ⟨frames, held, input, finish, fallen⟩ := c
  cases held with
  | some token =>
    cases h
    exact ⟨Nat.le_refl _, rfl⟩
  | none =>
    rcases input with _ | ⟨lexeme, input⟩
    · cases h
      exact ⟨Nat.le_refl _, rfl⟩
    · cases lexeme with
      | error e => cases h
      | ok token =>
        cases h
        refine ⟨?_, rfl⟩
        simp only [Configuration.unread, List.length_cons]
        split <;> omega

/-- A step puts one leaf or one node on the forest. -/
lemma exists_covers_step (hb : p.grammar.Builds target p.table)
    (hpath : (p.grammar.automatonOf target).Path p.grammar labels c.frames)
    (h : p.grammar.Covers forest labels) (hexec : p.executed c = some (token, action))
    (hstep : p.step c = .running c') :
    ∃ forest', p.grammar.Covers forest' (p.relabel labels token action) ∧
      Tree.sizeAll forest' = Tree.sizeAll forest + 1 ∧
      (Tree.yieldAll forest').length = (Tree.yieldAll forest).length + action.takes := by
  cases action with
  | shift dest =>
    obtain ⟨hterminal, -⟩ := shift_clause hb hpath hexec
    refine ⟨.leaf token :: forest, ⟨?_, List.forall_mem_cons.mpr ⟨.leaf hterminal, h.derivations⟩⟩,
      Nat.add_comm _ _, ?_⟩
    · rw [List.map_cons, h.symbols]
      rfl
    · rw [Tree.yieldAll, Tree.yield, List.length_append, List.length_singleton, Nat.add_comm]
      rfl
  | reduce id =>
    obtain ⟨r, hr, -, hlabels, -⟩ := (agrees_of_path hb hpath).reduces token id hexec
    have hsplit := List.take_append_drop r.arity forest
    refine ⟨.node id r.target (forest.take r.arity).reverse :: forest.drop r.arity, ⟨?symbols,
      List.forall_mem_cons.mpr ⟨.node hr ?roots fun child hchild =>
        h.derivations child (List.mem_of_mem_take (List.mem_reverse.mp hchild)),
        fun tree htree => h.derivations tree (List.mem_of_mem_drop htree)⟩⟩, ?size, ?leaves⟩
    case symbols =>
      rw [List.map_cons, List.map_drop, h.symbols, relabel, hr]
      rfl
    case roots =>
      rw [List.map_reverse, List.map_take, h.symbols, hlabels, List.reverse_reverse]
    case size =>
      rw [Tree.sizeAll, Tree.size, Tree.sizeAll_reverse, ← hsplit, Tree.sizeAll_append, hsplit]
      omega
    case leaves =>
      rw [Tree.yieldAll, Tree.yield, List.length_append, Tree.length_yieldAll_reverse, ← hsplit,
        Tree.yieldAll_append, hsplit, List.length_append]
      rfl
  | accept =>
    rcases step_accept hexec with ⟨frame, frames, -, haccept⟩ | ⟨-, state, hfail⟩
    · cases hstep.symm.trans haccept
    · cases hstep.symm.trans hfail
  | fail =>
    obtain ⟨state, hfail⟩ := step_fail hexec
    cases hstep.symm.trans hfail

/-- A step takes what it shifts from the tokens that are not shifted yet. -/
lemma unread_of_step (hb : p.grammar.Builds target p.table)
    (hpath : (p.grammar.automatonOf target).Path p.grammar labels c.frames)
    (heoi : ∀ r ∈ p.grammar.rules, SymbolId.eoi ∉ r.clause)
    (hexec : p.executed c = some (token, action)) (hstep : p.step c = .running c') :
    action.takes + c'.unread ≤ c.unread := by
  cases action with
  | shift dest =>
    obtain ⟨-, hne⟩ := shift_symbol hb hpath heoi hexec
    obtain ⟨c₁, hfetch, hshift⟩ := step_shift hexec
    cases hstep.symm.trans hshift
    obtain ⟨hunread, hheld⟩ := unread_of_fetch hfetch
    rw [if_neg hne] at hunread
    simp only [Configuration.unread, hheld, Action.takes]
    rw [Configuration.unread] at hunread
    omega
  | reduce id =>
    obtain ⟨c₁, hfetch, ⟨e, -, hfail⟩ | ⟨frames, fallen, -, hrun⟩⟩ := step_reduce hexec
    · cases hstep.symm.trans hfail
    · cases hstep.symm.trans hrun
      exact (Nat.zero_add _).trans_le (unread_of_fetch hfetch).1
  | accept =>
    rcases step_accept hexec with ⟨frame, frames, -, haccept⟩ | ⟨-, state, hfail⟩
    · cases hstep.symm.trans haccept
    · cases hstep.symm.trans hfail
  | fail =>
    obtain ⟨state, hfail⟩ := step_fail hexec
    cases hstep.symm.trans hfail

/-- The steps are counted by the size of a forest over the stack, which has a leaf for every token
shifted. -/
lemma exists_covers_after (hb : p.grammar.Builds target p.table)
    (h : p.after input n = some (c, labels)) :
    ∃ forest, p.grammar.Covers forest labels ∧ Tree.sizeAll forest = n ∧
      ((∀ r ∈ p.grammar.rules, SymbolId.eoi ∉ r.clause) →
        (Tree.yieldAll forest).length + c.unread ≤ input.length) := by
  induction n generalizing c labels with
  | zero =>
    cases h
    exact ⟨[], ⟨rfl, by simp⟩, rfl, fun _ => Nat.le_of_eq (Nat.zero_add _)⟩
  | succ n ih =>
    rw [after] at h
    split at h
    · cases h
    · next c₀ labels₀ hafter =>
      split at h
      · next c' token action hstep hexec =>
        cases h
        obtain ⟨forest, hcovers, hsize, hunread⟩ := ih hafter
        have hpath := path_after hb hafter
        obtain ⟨forest', hcovers', hsize', hleaves⟩ :=
          exists_covers_step hb hpath hcovers hexec hstep
        refine ⟨forest', hcovers', hsize'.trans (congrArg (· + 1) hsize), fun heoi => ?_⟩
        have := unread_of_step hb hpath heoi hexec hstep
        have := hunread heoi
        omega
      · cases h

/-- Reductions put so many nodes on the forest, and no leaf. -/
lemma Reductions.exists_covers (hb : p.grammar.Builds target p.table) (h : p.Reductions m c c')
    (hpath : (p.grammar.automatonOf target).Path p.grammar labels c.frames)
    (hcovers : p.grammar.Covers forest labels) :
    ∃ labels' forest', (p.grammar.automatonOf target).Path p.grammar labels' c'.frames ∧
      p.grammar.Covers forest' labels' ∧ Tree.sizeAll forest' = Tree.sizeAll forest + m ∧
      (Tree.yieldAll forest').length = (Tree.yieldAll forest).length := by
  induction h generalizing labels forest with
  | refl c => exact ⟨labels, forest, hpath, hcovers, rfl, rfl⟩
  | head hreduces _ ih =>
    obtain ⟨⟨token, id, hexec⟩, hstep⟩ := hreduces
    obtain ⟨forest₁, hcovers₁, hsize₁, hleaves₁⟩ :=
      exists_covers_step hb hpath hcovers hexec hstep
    obtain ⟨labels', forest', hpath', hcovers', hsize, hleaves⟩ :=
      ih (path_step hb hpath hexec hstep) hcovers₁
    exact ⟨labels', forest', hpath', hcovers', by omega, hleaves.trans hleaves₁⟩

/-- A run that comes to the end of its fuel has made that many steps. -/
lemma exists_after_of_stepLimit (hb : p.grammar.Builds target p.table) {fuel : Nat}
    (h : p.run fuel c = .error .stepLimit) (hafter : p.after input n = some (c, labels)) :
    ∃ c' labels', p.after input (n + fuel) = some (c', labels') := by
  induction fuel generalizing n c labels with
  | zero => exact ⟨c, labels, hafter⟩
  | succ fuel ih =>
    rw [run] at h
    split at h
    · next c' hstep =>
      obtain ⟨token, action, hexec⟩ := executed_of_step hstep
      have hafter' : p.after input (n + 1) = some (c', p.relabel labels token action) := by
        rw [after, hafter]
        simp only [hstep, hexec]
      obtain ⟨c'', labels'', hafter''⟩ := ih h hafter'
      exact ⟨c'', labels'', by rw [← hafter'', Nat.add_right_comm, Nat.add_assoc]⟩
    · cases h
    · next e hstep =>
      cases h
      rcases step_failed hb (path_after hb hafter) hstep with ⟨x, hx⟩ | ⟨state, token, hx⟩
      · cases hx
      · cases hx

/-- A parser with the table of its own grammar, if that is safe, makes only so many reductions from
any configuration it comes to, whatever token is ahead, be it one of the symbol `ε`. If moreover no
clause mentions the end of input, then for any stream the parse ends, within the steps allowed. -/
theorem ends_of_own_table (hg : p.grammar.Valid) (hk : p.grammar.KeysFit)
    (hp : p.grammar.table = .ok p.table) (hsafe : p.grammar.Safe) (input : List Lexeme) :
    (∀ n c labels, p.after input n = some (c, labels) →
      ∃ bound, ∀ m c', p.Reductions m c c' → m ≤ bound) ∧
    ((∀ r ∈ p.grammar.rules, SymbolId.eoi ∉ r.clause) → p.parse input ≠ .error .stepLimit) := by
  obtain ⟨target, hb⟩ := Grammar.exists_builds hg hk hp
  refine ⟨fun n c labels hafter => ?_, fun heoi hlimit => ?_⟩
  · obtain ⟨forest, hcovers, -, -⟩ := exists_covers_after hb hafter
    refine ⟨p.grammar.forestBound (Tree.yieldAll forest).length, fun m c' h => ?_⟩
    obtain ⟨labels', forest', hpath', hcovers', hsize, hleaves⟩ :=
      h.exists_covers hb (path_after hb hafter) hcovers
    have hbound := hcovers'.sizeAll_le hb hsafe hpath'
    rw [hleaves, hsize] at hbound
    exact (Nat.le_add_left _ _).trans hbound
  · have hstart : p.after input 0 = some (.start input, []) := rfl
    obtain ⟨c, labels, hafter⟩ := exists_after_of_stepLimit hb hlimit hstart
    obtain ⟨forest, hcovers, hsize, hunread⟩ := exists_covers_after hb hafter
    have hbound := hcovers.sizeAll_le hb hsafe (path_after hb hafter)
    have hleaves : (Tree.yieldAll forest).length ≤ input.length :=
      (Nat.le_add_right _ _).trans (hunread heoi)
    have hmono := p.grammar.forestBound_mono hleaves
    have hlt := p.grammar.forestBound_lt_stepLimit input.length
    omega

end Parser

namespace Grammar

lemma safe_balanced : balanced.Safe := by
  -- `(` stands in front, and does not vanish
  have hsplit : ∀ r ∈ balanced.rules, ∀ α β s, r.symbols = α ++ s :: β → balanced.Nullable α →
      α = [] ∧ 4 ∈ β := by
    intro r hr α β s hsymbols hα
    have hsymbols' : r.symbols = [] ∨ r.symbols = [3, 2, 4, 2] := by
      rcases List.mem_cons.mp hr with rfl | hr
      · exact .inr rfl
      · rw [List.mem_singleton.mp hr]
        exact .inl rfl
    rcases hsymbols' with hnil | hcons
    · simp [hnil] at hsymbols
    · rw [hcons] at hsymbols
      cases α with
      | nil =>
        cases hsymbols
        exact ⟨rfl, by decide⟩
      | cons t α =>
        cases (List.cons.inj hsymbols).1
        have := valid_balanced.isNonterminal_of_nullable hα List.mem_cons_self
        exact absurd this (by decide)
  refine ⟨?_, fun s h => ?_⟩
  · rintro s ⟨t, u, -, hhidden, -⟩
    cases hhidden with
    | rule hr hsymbols hα hne => exact hne (hsplit _ hr _ _ _ hsymbols hα).1
  · obtain ⟨u, hfirst, -⟩ := Relation.TransGen.head'_iff.mp h
    cases hfirst with
    | rule hr hsymbols hα hβ =>
      have := valid_balanced.isNonterminal_of_nullable hβ (hsplit _ hr _ _ _ hsymbols hα).2
      exact absurd this (by decide)

lemma safe_relapsing {n m : Nat} (hn : 2 ≤ n) : (relapsing n m).Safe := by
  have hn0 : n ≠ 0 := by omega
  have hempty : Rule.isEmpty (.plain 2 3 (.replicate n 3)) = false := by
    simp [Rule.isEmpty, Rule.plain, hn0, SymbolId.epsilon]
  have hlong : Rule.symbols (.plain 2 3 (.replicate n 3)) = .replicate n 3 := by
    rw [Rule.symbols, hempty]
    rfl
  have hlength : (List.replicate n (3 : SymbolId)).length = n := List.length_replicate
  refine safe_of_no_empty (forall_mem_headed (by decide) (by decide)
    (forall_mem_crowded (by decide) (by decide) ?_ (fun _ => List.cons_ne_nil _ _)
      (List.cons_ne_nil _ _))) ?_
  · rw [hlong]
    simpa using hn0
  · -- no rule has a single non-terminal as its clause
    have hunit : ∀ r ∈ (relapsing n m).rules, ∀ s, r.symbols = [s] →
        (relapsing n m).symbols.isNonterminal s = false := by
      refine forall_mem_headed ?_ ?_ (forall_mem_crowded ?_ ?_ ?_ (fun _ => ?_) ?_)
      · rintro s ⟨⟩; rfl
      · rintro s ⟨⟩
      · rintro s ⟨⟩; rfl
      · rintro s ⟨⟩
      · intro s hs
        rw [hlong] at hs
        rw [hs, List.length_singleton] at hlength
        omega
      · rintro s ⟨⟩; rfl
      · rintro s ⟨⟩; rfl
    intro r hr s hsymbols hdefined
    obtain ⟨r', hr', rfl⟩ := List.mem_map.mp (List.mem_toFinset.mp hdefined)
    have htarget := (valid_relapsing hn0).target_nonterminal r' hr'
    rw [hunit r hr _ hsymbols] at htarget
    cases htarget

end Grammar

namespace Parser

/-- The parse of `( ( )` ends. -/
theorem ends_balanced : balanced.grammar.Valid ∧ balanced.grammar.KeysFit ∧
    balanced.grammar.table = .ok balanced.table ∧ balanced.grammar.Safe ∧
    (∀ r ∈ balanced.grammar.rules, SymbolId.eoi ∉ r.clause) ∧
    (∀ n c labels,
      balanced.after [.ok ⟨3, "(", 1, 1⟩, .ok ⟨3, "(", 1, 2⟩, .ok ⟨4, ")", 1, 3⟩] n =
        some (c, labels) → ∃ bound, ∀ m c', balanced.Reductions m c c' → m ≤ bound) ∧
    balanced.parse [.ok ⟨3, "(", 1, 1⟩, .ok ⟨3, "(", 1, 2⟩, .ok ⟨4, ")", 1, 3⟩] ≠
      .error .stepLimit := by
  have heoi : ∀ r ∈ balanced.grammar.rules, SymbolId.eoi ∉ r.clause := by decide
  obtain ⟨hreductions, hparse⟩ := ends_of_own_table (p := balanced) Grammar.valid_balanced
    Grammar.keysFit_balanced rfl Grammar.safe_balanced
    [.ok ⟨3, "(", 1, 1⟩, .ok ⟨3, "(", 1, 2⟩, .ok ⟨4, ")", 1, 3⟩]
  exact ⟨Grammar.valid_balanced, Grammar.keysFit_balanced, rfl, Grammar.safe_balanced, heoi,
    hreductions, hparse heoi⟩

/-- With `S` on the stack and `y` ahead the parser reduces `S → x` and is where it was. -/
lemma run_relapsing (n m fuel : Nat) (tree : Tree) (token : Token) (htoken : token.symbol = 7)
    (input : List Lexeme) (finish : Nat × Nat) :
    run ⟨.relapsing n m, Grammar.relapsingTable n m⟩ fuel
      ⟨[⟨tree, 1⟩], some token, input, finish, []⟩ = .error .stepLimit := by
  induction fuel generalizing tree with
  | zero => rfl
  | succ fuel ih =>
    obtain ⟨_, text, line, column⟩ := token
    cases htoken
    exact ih (.node 0 2 [tree])

/-- Where keys wrap around a parser for a safe grammar may reduce without end. -/
theorem stalls_relapsed : Grammar.relapsed.Valid ∧ Grammar.relapsed.Safe ∧
    (∀ r ∈ Grammar.relapsed.rules, SymbolId.eoi ∉ r.clause) ∧
    ∃ p, Grammar.relapsed.parser = .ok p ∧ p.grammar = Grammar.relapsed ∧
      p.grammar.table = .ok p.table ∧
        ∀ fuel, p.run fuel (.start [.ok ⟨6, "x", 1, 1⟩, .ok ⟨7, "y", 1, 3⟩]) =
          .error .stepLimit := by
  have hrun : ∀ n m fuel, run ⟨.relapsing n m, Grammar.relapsingTable n m⟩ fuel
      (.start [.ok ⟨6, "x", 1, 1⟩, .ok ⟨7, "y", 1, 3⟩]) = .error .stepLimit := by
    rintro n m (_ | _ | fuel)
    · rfl
    · rfl
    · exact run_relapsing n m fuel _ ⟨7, "y", 1, 3⟩ rfl _ _
  have htable := Grammar.relapsing_table Grammar.relapses_relapsed
  exact ⟨Grammar.valid_relapsing (by decide), Grammar.safe_relapsing (by decide),
    Grammar.eoi_notMem_relapsing, _, Grammar.parser_relapsing Grammar.relapses_relapsed, rfl,
    htable, hrun _ _⟩

end Parser

end ShiftReduce
