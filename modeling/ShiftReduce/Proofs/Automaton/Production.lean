import ShiftReduce.Proofs.Grammar.Valid
import ShiftReduce.Automaton.Production
import Mathlib.Data.List.Nodup
/-!
# The productions of a grammar

What the construction of states relies on: production 0 is the only one of `^`, the productions of
a symbol stand side by side, and every production but the first is one rule of the grammar.
-/

namespace ShiftReduce

namespace Productions

/-- The facts about productions that the construction of states relies on. -/
structure Proper (ps : Productions) (target : SymbolId) : Prop where
  start : ps.get? 0 = some ⟨ps.width, [.nonterminal target], none⟩
  lhs_lt : ∀ {p : Nat} {prod : Production}, ps.get? p = some prod → p ≠ 0 → prod.lhs < ps.width
  symbol_lt : ∀ {p : Nat} {prod : Production}, ps.get? p = some prod → ∀ part ∈ prod.rhs,
    part.symbol < ps.width
  mem_range : ∀ {s : SymbolId} {p : Nat}, p ∈ ps.range s ↔
    ∃ prod, ps.get? p = some prod ∧ prod.lhs = s
  eoi_lt : SymbolId.eoi < ps.width

/-! ## Blocks -/

/-- Where the members of a list that satisfy a test form one block, the positions of the block are
as many as there are of them, from the first on. -/
lemma range'_block {α : Type} (test : α → Bool) (before block after : List α)
    (hbefore : ∀ x ∈ before, test x = false) (hblock : ∀ x ∈ block, test x = true)
    (hafter : ∀ x ∈ after, test x = false) :
    List.range' ((before ++ block ++ after).findIdx test)
        ((before ++ block ++ after).countP test) = List.range' before.length block.length := by
  have hcount : (before ++ block ++ after).countP test = block.length := by
    rw [List.countP_append, List.countP_append, List.countP_eq_length.mpr hblock,
      List.countP_eq_zero.mpr (by simpa using hbefore),
      List.countP_eq_zero.mpr (by simpa using hafter)]
    omega
  rw [hcount]
  cases block with
  | nil => rfl -- an empty block has no first member, and then the position does not matter
  | cons x block =>
    have hfind : (before ++ x :: block ++ after).findIdx test = before.length := by
      clear hcount
      induction before with
      | nil => simp [List.findIdx_cons, hblock x (by simp)]
      | cons y before ih =>
        have ih := ih (fun z hz => hbefore z (by simp [hz]))
        simpa [List.findIdx_cons, hbefore y (by simp)] using ih
    rw [hfind]

lemma mem_range'_block {α : Type} (test : α → Bool) (before block after : List α)
    (hbefore : ∀ x ∈ before, test x = false) (hblock : ∀ x ∈ block, test x = true)
    (hafter : ∀ x ∈ after, test x = false) (i : Nat) :
    i ∈ List.range' ((before ++ block ++ after).findIdx test)
        ((before ++ block ++ after).countP test) ↔
      ∃ x, (before ++ block ++ after)[i]? = some x ∧ test x = true := by
  rw [range'_block test before block after hbefore hblock hafter, List.mem_range'_1]
  constructor
  · intro hi
    have hlt : i - before.length < block.length := by omega
    refine ⟨block[i - before.length], ?_, hblock _ (List.getElem_mem hlt)⟩
    rw [List.append_assoc, List.getElem?_append_right hi.1, List.getElem?_append_left hlt,
      List.getElem?_eq_getElem hlt]
  · rintro ⟨x, hx, htest⟩
    have hnot : ∀ l : List α, (∀ y ∈ l, test y = false) → x ∉ l := by
      intro l hl hxl
      simp [hl x hxl] at htest
    have hge : before.length ≤ i := by
      by_contra hlt
      rw [List.append_assoc, List.getElem?_append_left (by omega)] at hx
      exact hnot before hbefore (List.mem_of_getElem? hx)
    rw [List.append_assoc, List.getElem?_append_right hge] at hx
    have hlt : i - before.length < block.length := by
      by_contra hge
      rw [List.getElem?_append_right (by omega)] at hx
      exact hnot after hafter (List.mem_of_getElem? hx)
    omega

end Productions

namespace Grammar

variable {g : Grammar} {target : SymbolId}

/-! ## The symbols that rules define -/

lemma mem_foldl_distinct (l acc : List SymbolId) (s : SymbolId) :
    s ∈ l.foldl (fun seen s => if seen.contains s then seen else seen ++ [s]) acc ↔
      s ∈ acc ∨ s ∈ l := by
  induction l generalizing acc with
  | nil => simp
  | cons t l ih =>
    rw [List.foldl_cons, ih]
    by_cases h : acc.contains t
    · rw [if_pos h]
      have hmem : t ∈ acc := by simpa using h
      aesop
    · rw [if_neg h]
      simp [or_assoc]

/-- Gathering symbols behind one that is not among them leaves it in front. -/
lemma foldl_distinct_cons {l acc : List SymbolId} {s : SymbolId} (h : s ∉ l) :
    l.foldl (fun seen s => if seen.contains s then seen else seen ++ [s]) (s :: acc) =
      s :: l.foldl (fun seen s => if seen.contains s then seen else seen ++ [s]) acc := by
  induction l generalizing acc with
  | nil => rfl
  | cons t l ih =>
    rw [List.mem_cons, not_or] at h
    have hcontains : (s :: acc).contains t = acc.contains t := by simp [Ne.symm h.1]
    rw [List.foldl_cons, List.foldl_cons, hcontains, ← ih h.2]
    split <;> rfl

lemma foldl_distinct_of_subset {l acc : List SymbolId} (h : ∀ s ∈ l, s ∈ acc) :
    l.foldl (fun seen s => if seen.contains s then seen else seen ++ [s]) acc = acc := by
  induction l with
  | nil => rfl
  | cons s l ih =>
    obtain ⟨hs, hl⟩ := List.forall_mem_cons.mp h
    rw [List.foldl_cons, if_pos (List.contains_iff_mem.mpr hs), ih hl]

lemma nodup_foldl_distinct (l acc : List SymbolId) (hacc : acc.Nodup) :
    (l.foldl (fun seen s => if seen.contains s then seen else seen ++ [s]) acc).Nodup := by
  induction l generalizing acc with
  | nil => exact hacc
  | cons t l ih =>
    rw [List.foldl_cons]
    refine ih _ ?_
    split
    · exact hacc
    · next h => exact List.nodup_append.mpr ⟨hacc, by simp, by aesop⟩

lemma mem_targets {s : SymbolId} : s ∈ g.targets ↔ ∃ r ∈ g.rules, r.target = s := by
  rw [targets, mem_foldl_distinct]
  simp

lemma nodup_targets (g : Grammar) : g.targets.Nodup :=
  nodup_foldl_distinct _ _ List.nodup_nil

/-! ## Productions and rules -/

/-- The productions of the rules that define a symbol. -/
def block (g : Grammar) (s : SymbolId) : List Production := (g.rulesOf s).map g.production

lemma mem_block {s : SymbolId} {prod : Production} :
    prod ∈ g.block s ↔ ∃ r ∈ g.rules, r.target = s ∧ g.production r = prod := by
  simp [block, mem_rulesOf, and_assoc]

lemma lhs_of_mem_block {s : SymbolId} {prod : Production} (h : prod ∈ g.block s) :
    prod.lhs = s := by
  obtain ⟨r, -, hs, rfl⟩ := mem_block.mp h
  exact hs

/-- The production `^ → target`. -/
def startProduction (g : Grammar) (target : SymbolId) : Production :=
  ⟨g.symbols.size, [g.part target], none⟩

lemma productions_list (g : Grammar) (target : SymbolId) :
    (g.productions target).list.toList =
      g.startProduction target :: g.targets.flatMap g.block := rfl

lemma productions_get? (g : Grammar) (target : SymbolId) (p : Nat) :
    (g.productions target).get? p =
      (g.startProduction target :: g.targets.flatMap g.block)[p]? := by
  rw [Productions.get?, ← productions_list, Array.getElem?_toList]

/-- Every production but the first stands for one rule. -/
lemma exists_rule_of_productions_get? {p : Nat} {prod : Production}
    (h : (g.productions target).get? p = some prod) (hp : p ≠ 0) :
    ∃ r ∈ g.rules, g.production r = prod := by
  rw [productions_get?] at h
  obtain ⟨p, rfl⟩ := Nat.exists_eq_succ_of_ne_zero hp
  rw [List.getElem?_cons_succ] at h
  obtain ⟨s, -, hs⟩ := List.mem_flatMap.mp (List.mem_of_getElem? h)
  obtain ⟨r, hr, -, hprod⟩ := mem_block.mp hs
  exact ⟨r, hr, hprod⟩

/-- Every rule has a production. -/
lemma exists_productions_get?_of_rule (target : SymbolId) {r : Rule} (h : r ∈ g.rules) :
    ∃ p, (g.productions target).get? p = some (g.production r) := by
  have hmem : g.production r ∈ g.startProduction target :: g.targets.flatMap g.block :=
    List.mem_cons_of_mem _ (List.mem_flatMap.mpr
      ⟨r.target, mem_targets.mpr ⟨r, h, rfl⟩, mem_block.mpr ⟨r, h, rfl, rfl⟩⟩)
  obtain ⟨p, hp⟩ := List.mem_iff_getElem?.mp hmem
  exact ⟨p, by rw [productions_get?, hp]⟩

lemma part_symbol (g : Grammar) (s : SymbolId) : (g.part s).symbol = s := by
  unfold part
  split <;> rfl

lemma map_symbol_part (g : Grammar) (α : List SymbolId) :
    (α.map g.part).map Part.symbol = α := by
  rw [List.map_map]
  exact (List.map_congr_left fun s _ => g.part_symbol s).trans (List.map_id α)

lemma part_injective (g : Grammar) : Function.Injective g.part :=
  Function.LeftInverse.injective g.part_symbol

lemma eq_of_part_eq_terminal {s t : SymbolId} (h : g.part s = .terminal t) : s = t := by
  rw [← g.part_symbol s, h, Part.symbol]

lemma part_eq_nonterminal {s : SymbolId} (h : g.symbols.isNonterminal s = true) :
    g.part s = .nonterminal s := by
  rw [part, if_pos h]

lemma part_eq_terminal {s : SymbolId} (h : g.symbols.isNonterminal s = false) :
    g.part s = .terminal s := by
  rw [part, if_neg (by simp [h])]

lemma isNonterminal_of_part_eq {s : SymbolId} (h : g.part s = .nonterminal s) :
    g.symbols.isNonterminal s = true := by
  by_contra hne
  rw [Bool.not_eq_true] at hne
  cases (part_eq_terminal hne).symm.trans h

lemma part_eq_terminal_of_isTerminal {s : SymbolId} (h : g.symbols.isTerminal s = true) :
    g.part s = .terminal s :=
  part_eq_terminal (SymbolTable.isNonterminal_eq_false_of_isTerminal h)

/-! ## The productions of a valid grammar are proper -/

lemma Valid.mem_range_productions (hg : g.Valid) {s : SymbolId} {p : Nat} :
    p ∈ (g.productions target).range s ↔
      ∃ prod, (g.productions target).get? p = some prod ∧ prod.lhs = s := by
  have hblocks : ∀ l : List SymbolId, s ∉ l → ∀ x ∈ l.flatMap g.block, (x.lhs == s) = false := by
    intro l hl x hx
    obtain ⟨t, ht, hxt⟩ := List.mem_flatMap.mp hx
    rw [lhs_of_mem_block hxt, beq_eq_false_iff_ne]
    rintro rfl
    exact hl ht
  have hblock : ∀ x ∈ g.block s, (x.lhs == s) = true := by
    intro x hx
    rw [lhs_of_mem_block hx, beq_self_eq_true]
  have hsize : ∀ t ∈ g.targets, t < g.symbols.size := by
    intro t ht
    obtain ⟨r, hr, rfl⟩ := mem_targets.mp ht
    exact SymbolTable.lt_size_of_isNonterminal (hg.target_nonterminal r hr)
  simp only [Productions.range, Productions.first, Productions.count, productions_list,
    productions_get?]
  by_cases hstart : s = g.symbols.size
  · -- the block of `^` is its one production, in front of all others
    have hnot : s ∉ g.targets := fun h => Nat.lt_irrefl _ (hstart ▸ hsize s h)
    have := Productions.mem_range'_block (fun x : Production => x.lhs == s) []
      [g.startProduction target] _ (by simp) (by simp [startProduction, hstart])
      (hblocks _ hnot) p
    simpa using this
  · have hbefore : ∀ l : List SymbolId, s ∉ l →
        ∀ x ∈ g.startProduction target :: l.flatMap g.block, (x.lhs == s) = false := by
      intro l hl x hx
      rcases List.mem_cons.mp hx with rfl | hx
      · simpa [startProduction] using fun h => hstart h.symm
      · exact hblocks l hl x hx
    by_cases hs : s ∈ g.targets
    · -- a target comes once, so its block stands between those of other targets
      obtain ⟨l₁, l₂, hl⟩ := List.append_of_mem hs
      have hnodup := g.nodup_targets
      rw [hl, List.nodup_append] at hnodup
      have h₁ : s ∉ l₁ := fun h => hnodup.2.2 s h s (by simp) rfl
      have h₂ : s ∉ l₂ := (List.nodup_cons.mp hnodup.2.1).1
      have := Productions.mem_range'_block (fun x : Production => x.lhs == s) _ _ _
        (hbefore l₁ h₁) hblock (hblocks l₂ h₂) p
      simpa [hl] using this
    · have := Productions.mem_range'_block (fun x : Production => x.lhs == s) _ [] []
        (hbefore _ hs) (by simp) (by simp) p
      simpa using this

lemma Valid.proper_productions (hg : g.Valid) (ht : g.target = some target) :
    (g.productions target).Proper target where
  start := by
    rw [productions_get?, List.getElem?_cons_zero, startProduction,
      part_eq_nonterminal (hg.isNonterminal_target ht)]
    rfl
  lhs_lt h hp := by
    obtain ⟨r, hr, rfl⟩ := exists_rule_of_productions_get? h hp
    exact SymbolTable.lt_size_of_isNonterminal (hg.target_nonterminal r hr)
  symbol_lt {p prod} h part hpart := by
    by_cases hp : p = 0
    · subst hp
      rw [productions_get?, List.getElem?_cons_zero, Option.some.injEq] at h
      subst h
      rw [startProduction, List.mem_singleton] at hpart
      rw [hpart, part_symbol]
      exact SymbolTable.lt_size_of_isNonterminal (hg.isNonterminal_target ht)
    · obtain ⟨r, hr, rfl⟩ := exists_rule_of_productions_get? h hp
      obtain ⟨s, hs, rfl⟩ := List.mem_map.mp hpart
      rw [part_symbol]
      exact hg.symbol_lt_size hr hs
  mem_range := hg.mem_range_productions
  eoi_lt := Nat.lt_of_lt_of_le (by decide) hg.two_le_size

/-- The parts of a production are the parts of its symbols. -/
lemma Valid.part_symbol_of_mem (hg : g.Valid) (ht : g.target = some target) {p : Nat}
    {prod : Production} (hp : (g.productions target).get? p = some prod) {part : Part}
    (hpart : part ∈ prod.rhs) : g.part part.symbol = part := by
  by_cases h0 : p = 0
  · rw [h0, (hg.proper_productions ht).start, Option.some.injEq] at hp
    subst hp
    rw [List.mem_singleton.mp hpart]
    exact part_eq_nonterminal (hg.isNonterminal_target ht)
  · obtain ⟨r, -, rfl⟩ := exists_rule_of_productions_get? hp h0
    obtain ⟨s, -, rfl⟩ := List.mem_map.mp hpart
    rw [part_symbol]

end Grammar

end ShiftReduce
