import ShiftReduce.Proofs.Table.Front
import ShiftReduce.Proofs.Table.Overflow
/-!
# Crowded grammars with other rules for their first symbol

Where keys wrap around, the production of `A → y` can be taken for any item at all, which one being
a matter of how many rules stand in front of it. What comes of this depends on the rules of `S`. So
the grammars of the family have two of these as parameters. The productions of the symbol that no
sentence has keep their places, so a table over the few others is the table of the grammar.
-/

namespace ShiftReduce

lemma Productions.range_congr {ps ps' : Productions}
    (h : ps.list.toList.map Production.lhs = ps'.list.toList.map Production.lhs) (s : SymbolId) :
    ps.range s = ps'.range s := by
  have hfirst : ∀ l : List Production, (l.findIdx fun p => p.lhs == s) =
      (l.map Production.lhs).findIdx (· == s) := fun l => by
    rw [List.findIdx_map]
    rfl
  have hcount : ∀ l : List Production, (l.countP fun p => p.lhs == s) =
      (l.map Production.lhs).countP (· == s) := fun l => by
    rw [List.countP_map]
    rfl
  rw [range, range, first, first, count, count, hfirst, hfirst, hcount, hcount, h]

namespace Grammar

/-- The rules `S → a`, `S → b` and `A → y`, and before the last of them, for a non-terminal that no
sentence has, a rule of `n` symbols and `m` rules of one symbol. -/
def headed (a b : List SymbolId) (n m : Nat) : Grammar :=
  { crowded n m with rules := [.plain 0 2 a, .plain 1 2 b] ++ (crowded n m).rules.drop 2 }

variable {a b : List SymbolId} {n m : Nat}

lemma forall_mem_headed {P : Rule → Prop} (h₀ : P (.plain 0 2 a)) (h₁ : P (.plain 1 2 b))
    (h : ∀ r ∈ (crowded n m).rules, P r) : ∀ r ∈ (headed a b n m).rules, P r := by
  intro r hr
  rcases List.mem_append.mp hr with hr | hr
  · simp only [List.mem_cons, List.not_mem_nil, or_false] at hr
    rcases hr with rfl | rfl
    · exact h₀
    · exact h₁
  · exact h r (List.mem_of_mem_drop hr)

lemma hasCrowd_headed (a b : List SymbolId) (n m : Nat) :
    (headed a b n m).HasCrowd (crowd n m) (.plain 0 2 a) (.plain 1 2 b) where
  accepts := rfl
  rules := rfl
  first := ⟨rfl, rfl⟩
  second := ⟨rfl, rfl⟩
  nonterminals := (hasCrowd_crowded n m).nonterminals
  terminals := (hasCrowd_crowded n m).terminals
  nodup := (hasCrowd_crowded n m).nodup
  epsilon_notMem := (hasCrowd_crowded n m).epsilon_notMem

lemma valid_headed (hn : n ≠ 0) (ha : a ≠ []) (hb : b ≠ []) (ha9 : ∀ s ∈ a, s < 9)
    (hb9 : ∀ s ∈ b, s < 9) : (headed a b n m).Valid :=
  (hasCrowd_headed a b n m).valid hn ⟨_, rfl⟩ ⟨ha, fun s hs => decide_eq_true (ha9 s hs)⟩
    ⟨hb, fun s hs => decide_eq_true (hb9 s hs)⟩

lemma headed_inheritLevels (a b : List SymbolId) (n m : Nat) :
    (headed a b n m).inheritLevels = headed a b n m :=
  inheritLevels_of_no_levels rfl
    (forall_mem_headed rfl rfl (forall_mem_crowded rfl rfl rfl (fun _ => rfl) rfl))

lemma headed_validate (a b : List SymbolId) (n m : Nat) : (headed a b n m).validate = .ok () :=
  (hasCrowd_headed a b n m).validate (by decide : ∀ s < (crowded 0 0).symbols.size,
    (crowded 0 0).symbols.isNonterminal s = true → s ∈ [2, 3, 4])

/-- The productions of the first symbol, that of `^` in front. -/
def heads (a b : List SymbolId) : List Production :=
  [⟨9, [.nonterminal 2], none⟩, (crowded 0 0).production (.plain 0 2 a),
    (crowded 0 0).production (.plain 1 2 b)]

lemma headed_productions (hn : n ≠ 0) (a b : List SymbolId) :
    ((headed a b n m).productions 2).list.toList =
      heads a b ++ idle n m ++ [⟨4, [.terminal 7], some (m + 3)⟩] :=
  (hasCrowd_headed a b n m).productions hn

lemma headed_range (hn : n ≠ 0) (a b : List SymbolId) (s : SymbolId) :
    ((headed a b n m).productions 2).range s = ((crowded n m).productions 2).range s := by
  refine Productions.range_congr ?_ s
  rw [headed_productions hn, crowded_productions hn]
  rfl

/-! ## A table over the first few productions -/

/-- The items of the first three productions. -/
def headItems (a b : List SymbolId) : Set Dotted :=
  {i | ∃ prod, (heads a b)[i.production]? = some prod ∧ i.dot ≤ prod.rhs.length}

/-- A basis whose first three productions say what those of the grammar say, with a stride of its
own, and in which the symbols of some set, to which all non-terminals of these belong, open with the
same items. -/
structure HeadBasis (a b : List SymbolId) (n m : Nat) (S : Set SymbolId) (small : Basis) : Prop
    where
  two_le : 2 ≤ n
  width : small.productions.width = 9
  fits : 3 * (n + 1) ≤ wordRange
  fits_small : 3 * small.stride ≤ wordRange
  short : ∀ prod ∈ heads a b, prod.rhs.length ≤ n ∧ prod.rhs.length < small.stride
  same : ∀ p prod, (heads a b)[p]? = some prod → ∃ prod', small.productions.get? p = some prod' ∧
    prod'.rhs = prod.rhs ∧ prod'.rule = prod.rule
  demand : ∀ prod ∈ heads a b, ∀ dot s β, prod.rhs.drop dot = .nonterminal s :: β → s ∈ S ∧
    ∀ set, (FirstSets.compute ((headed a b n m).productions 2)).ahead β set =
      small.firsts.ahead β set
  openings : ∀ s ∈ S, ∃ items : List Dotted,
    ((small.productions.range s).map fun p => small.dotted (small.key p 0)) = items ∧
      (((crowded n m).productions 2).range s).map (fun p => p * (n + 1) % wordRange) =
        items.map (fun i => (i.production * (n + 1) + i.dot) % wordRange) ∧
          ∀ i ∈ items, i ∈ headItems a b

namespace HeadBasis

lemma lt_three {p : Nat} {prod : Production} (hp : (heads a b)[p]? = some prod) : p < 3 :=
  (List.getElem?_eq_some_iff.mp hp).1

variable {S : Set SymbolId} {small : Basis} (h : HeadBasis a b n m S small)

include h

lemma ne_zero : n ≠ 0 := by
  have := h.two_le
  omega

lemma frontBasis : FrontBasis (headed a b n m) 2 (heads a b) S small := by
  have hstride : ((headed a b n m).productions 2).stride = n + 1 :=
    (hasCrowd_headed a b n m).stride (Nat.le_of_succ_le h.two_le)
      fun prod hprod => (h.short prod hprod).1
  exact {
    target := rfl
    first := ⟨_, (List.append_assoc ..).symm.trans (headed_productions h.ne_zero a b).symm⟩
    width := h.width
    fits := by
      rw [hstride]
      exact h.fits
    fits_small := h.fits_small
    short := fun prod hprod => (h.short prod hprod).2
    same := h.same
    demand := h.demand
    openings := by
      rw [hstride]
      simp only [headed_range h.ne_zero]
      exact h.openings }

/-- The rows of the table are those over the small basis, if the queue runs empty there. -/
lemma table {d : Discovery}
    (hrun : Discovery.run small 9 ⟨[State.ofKernel small.startKernel], [0]⟩ = d)
    (hqueue : d.queue = []) {rows : List Row}
    (hrows : (d.states.mapIdx fun i st => Row.ofState (headed a b n m) small i st) = rows) :
    (headed a b n m).table = .ok ⟨(headed a b n m).fingerprint, 9, rows.map Row.actions,
      rows.map Row.gotos, rows.map (Row.expected (headed a b n m)), rows.flatMap Row.conflicts⟩ :=
  h.frontBasis.table (List.cons_ne_nil _ _) (headed_validate a b n m)
    ((hasCrowd_headed a b n m).visitBound h.ne_zero) hrun hqueue hrows

end HeadBasis

end Grammar

end ShiftReduce
