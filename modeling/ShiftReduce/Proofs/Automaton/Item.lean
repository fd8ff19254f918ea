import ShiftReduce.Automaton.Item
import ShiftReduce.Proofs.Automaton.ItemSet
/-!
# Items and their keys

A key is a word of 32 bits. As long as the greatest key is one, keys and productions with a dot
correspond to each other: the key of an item gives back its production and its dot, and advancing an
item and opening the productions of a symbol do to keys what they do to items. In a grammar so large
that keys wrap around, items are taken for others.
-/

namespace ShiftReduce

/-- The key of every item is below the range of words. -/
def Productions.KeysFit (ps : Productions) : Prop :=
  ∀ p prod, ps.get? p = some prod → p * ps.stride + prod.rhs.length < wordRange

/-- The item keys of a grammar fit in a word. -/
def Grammar.KeysFit (g : Grammar) : Prop :=
  ∀ target, g.target = some target → (g.productions target).KeysFit

/-- The item of a key. -/
def Basis.dotted (b : Basis) (key : Nat) : Dotted := ⟨b.productionOf key, b.dotOf key⟩

lemma Basis.dotted_key_of_lt {b : Basis} {p dot : Nat} (hfit : p * b.stride + dot < wordRange)
    (hdot : dot < b.stride) : b.dotted (b.key p dot) = ⟨p, dot⟩ := by
  have hkey : b.key p dot = p * b.stride + dot := Nat.mod_eq_of_lt hfit
  have hdiv : (p * b.stride + dot) / b.stride = p := by
    rw [Nat.mul_comm, Nat.mul_add_div (by omega), Nat.div_eq_of_lt hdot, Nat.add_zero]
  have hmod : (p * b.stride + dot) % b.stride = dot := by
    rw [Nat.mul_comm, Nat.mul_add_mod, Nat.mod_eq_of_lt hdot]
  rw [hkey]
  simp only [dotted, productionOf, dotOf, hdiv, hmod]

/-- The item that begins the first production. -/
lemma Basis.dotted_start (b : Basis) : b.dotted (b.key 0 0) = Dotted.start := by
  simp [key, dotted, productionOf, dotOf, Dotted.start]

lemma Basis.production_eq {b : Basis} {key : Nat} {prod : Production}
    (h : b.productions.get? (b.dotted key).production = some prod) : b.production key = prod := by
  show (b.productions.get? (b.dotted key).production).getD default = prod
  rw [h]
  rfl

/-- The maximum of some measure over a list. -/
lemma le_foldl_max {α : Type} (f : α → Nat) (l : List α) (n : Nat) :
    n ≤ l.foldl (fun n x => max n (f x)) n ∧ ∀ x ∈ l, f x ≤ l.foldl (fun n x => max n (f x)) n := by
  induction l generalizing n with
  | nil => simp
  | cons x l ih =>
    obtain ⟨h₁, h₂⟩ := ih (max n (f x))
    rw [List.foldl_cons]
    refine ⟨by omega, fun y hy => ?_⟩
    rcases List.mem_cons.mp hy with rfl | hy
    · omega
    · exact h₂ y hy

lemma foldl_max_le {α : Type} {f : α → Nat} {l : List α} {n k : Nat} (hl : ∀ x ∈ l, f x ≤ n)
    (hk : k ≤ n) : l.foldl (fun n x => max n (f x)) k ≤ n := by
  induction l generalizing k with
  | nil => exact hk
  | cons x l ih =>
    obtain ⟨hx, hl⟩ := List.forall_mem_cons.mp hl
    exact ih hl (Nat.max_le.mpr ⟨hk, hx⟩)

namespace Productions

variable {ps : Productions} {target s t : SymbolId} {i : Dotted} {item : Item} {key : Nat}

lemma length_lt_stride {p : Nat} {prod : Production} (h : ps.get? p = some prod) :
    prod.rhs.length < ps.stride := by
  have hmem : prod ∈ ps.list.toList := FirstSets.mem_list_iff.mpr ⟨p, h⟩
  exact Nat.lt_succ_of_le ((le_foldl_max (fun p : Production => p.rhs.length) _ 0).2 prod hmem)

/-! ## Keys -/

lemma dotted_injective (ps : Productions) : Function.Injective ps.basis.dotted := by
  intro k k' h
  simp only [Basis.dotted, Dotted.mk.injEq, Basis.productionOf, Basis.dotOf] at h
  rw [← Nat.div_add_mod k ps.basis.stride, ← Nat.div_add_mod k' ps.basis.stride, h.1, h.2]

lemma dotted_key_of_lt {p dot : Nat} (hfit : p * ps.stride + dot < wordRange)
    (hdot : dot < ps.stride) : ps.basis.dotted (ps.basis.key p dot) = ⟨p, dot⟩ :=
  Basis.dotted_key_of_lt (b := ps.basis) hfit hdot

lemma dotted_key (hk : ps.KeysFit) (hi : ps.IsDotted i) :
    ps.basis.dotted (ps.basis.key i.production i.dot) = i := by
  obtain ⟨prod, hp, hdot⟩ := hi
  have hfit := hk _ _ hp
  have hlt := length_lt_stride hp
  exact dotted_key_of_lt (by omega) (by omega)

lemma basis_productions (ps : Productions) : ps.basis.productions = ps := rfl

lemma basis_firsts (ps : Productions) : ps.basis.firsts = FirstSets.compute ps := rfl

lemma production_eq {prod : Production}
    (h : ps.get? (ps.basis.dotted key).production = some prod) :
    ps.basis.production key = prod := Basis.production_eq (b := ps.basis) h

lemma remaining_eq_rest (ps : Productions) (key : Nat) :
    ps.basis.remaining key = ps.rest (ps.basis.dotted key) := by
  show ((ps.get? (ps.basis.productionOf key)).getD default).rhs.drop _ =
    (((ps.get? (ps.basis.productionOf key)).map Production.rhs).getD []).drop _
  cases ps.get? (ps.basis.productionOf key) with
  | none => rfl
  | some prod => rfl

lemma dotted_advance {part : Part} {β : List Part} (hk : ps.KeysFit)
    (h : ps.rest (ps.basis.dotted item.key) = part :: β) :
    ps.basis.dotted (ps.basis.advance item).key = (ps.basis.dotted item.key).advance :=
  dotted_key (i := (ps.basis.dotted item.key).advance) hk (IsDotted.advance h)

lemma opening_of_mem_openings (hps : ps.Proper target) (hk : ps.KeysFit) {set : TerminalSet}
    (h : item ∈ ps.basis.openings s set) : ps.Opening s (ps.basis.dotted item.key) := by
  obtain ⟨p, hp, rfl⟩ := List.mem_map.mp h
  have hopen : ps.Opening s ⟨p, 0⟩ := ⟨rfl, hps.mem_range.mp hp⟩
  have hdotted : ps.basis.dotted (ps.basis.key p 0) = ⟨p, 0⟩ := dotted_key hk hopen.isDotted
  rw [hdotted]
  exact hopen

lemma lookaheads_of_mem_openings {set : TerminalSet} (h : item ∈ ps.basis.openings s set) :
    item.lookaheads = set := by
  obtain ⟨p, -, rfl⟩ := List.mem_map.mp h
  rfl

/-- The item that begins a production of a symbol. -/
lemma exists_opening (hps : ps.Proper target) (hk : ps.KeysFit) (set : TerminalSet)
    (h : ps.Opening s i) : ∃ item ∈ ps.basis.openings s set,
      ps.basis.dotted item.key = i ∧ item.lookaheads = set := by
  obtain ⟨p, d⟩ := i
  obtain ⟨rfl, hprod⟩ := h
  refine ⟨⟨ps.basis.key p 0, set⟩, List.mem_map.mpr ⟨p, hps.mem_range.mpr hprod, rfl⟩, ?_, rfl⟩
  exact dotted_key (i := ⟨p, 0⟩) hk (Opening.isDotted ⟨rfl, hprod⟩)

/-! ## Demands -/

lemma demand?_eq_some_iff {set : TerminalSet} : ps.basis.demand? item = some (s, set) ↔
    ∃ β, ps.rest (ps.basis.dotted item.key) = .nonterminal s :: β ∧
      (FirstSets.compute ps).ahead β item.lookaheads = set := by
  unfold Basis.demand?
  rw [remaining_eq_rest]
  split
  · next s' β h =>
    rw [h]
    simp [basis_firsts]
  · next h =>
    simp only [reduceCtorEq, false_iff, not_exists, not_and]
    exact fun β hβ _ => h s β hβ

/-- An item demands what can begin the rest, and its own lookaheads if the rest can vanish. -/
lemma mem_ahead (hps : ps.Proper target) {part : Part} {β : List Part} {set : TerminalSet}
    (h : ps.rest i = part :: β) : t ∈ (FirstSets.compute ps).ahead β set ↔
      ps.Begins β t ∨ ps.Nullable β ∧ t ∈ set := by
  have hβ := (hps.symbol_lt_of_rest h).2
  rw [FirstSets.mem_ahead, FirstSets.mem_compute hps hβ, FirstSets.nullable_compute hps hβ]

end Productions

end ShiftReduce
