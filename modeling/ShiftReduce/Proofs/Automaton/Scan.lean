import ShiftReduce.Proofs.Automaton.Lr1
/-!
# The item set after a string of parts

Over a string of parts one canonical item set is reached, and it speaks for every stack with these
labels. Each of its items tells how the string can be continued to what the accepted symbol derives.
It expects the terminals that stand after a dot and the lookaheads of the items with nothing after
the dot. These lookaheads are exact, so a reduction never comes to a set that expects a terminal
which was not expected before.

Main statements: `Productions.expects_of_reduce` and `Productions.exists_derives_of_mem_scan`.
-/

namespace ShiftReduce

namespace Productions

/-- The canonical item set reached over some parts, the last of them first. -/
def scan (ps : Productions) : List Part → ItemSet
  | [] => ps.closeSet startSet
  | part :: γ => ps.closeSet (ps.gotoSet (scan ps γ) part)

/-- Some item of the set has the terminal after its dot, or has nothing after its dot and the
terminal among its lookaheads. -/
def Expects (ps : Productions) (I : ItemSet) (t : SymbolId) : Prop :=
  ∃ i ∈ I.core, (∃ β, ps.rest i = .terminal t :: β) ∨ ps.rest i = [] ∧ t ∈ I.lookaheads i

variable {ps : Productions} {I J : ItemSet} {i j : Dotted} {part : Part} {s t target : SymbolId}
  {α β γ δ : List Part} {prod : Production} {p : Nat}

lemma Opening.derives_rest (h : ps.Opening s j) : ps.Derives [.nonterminal s] (ps.rest j) := by
  obtain ⟨hdot, prod, hp, rfl⟩ := h
  rw [rest_eq hp, hdot, List.drop_zero]
  exact .of_production hp

lemma Begins.of_derives (h : ps.Begins β t) (hα : ps.Derives α β) : ps.Begins α t := by
  obtain ⟨γ, hγ⟩ := h
  exact ⟨γ, hα.trans hγ⟩

/-! ## Canonical sets along a string -/

lemma nonempty_of_closure {K : Set Dotted} (h : (ps.closure K).Nonempty) : K.Nonempty := by
  obtain ⟨i, hi⟩ := h
  induction hi with
  | kernel hi => exact ⟨_, hi⟩
  | opening _ _ _ ih => exact ih

lemma canonical_scan (h : (ps.scan γ).core.Nonempty) : ps.Canonical (ps.scan γ) := by
  induction γ with
  | nil => exact .start
  | cons part γ ih =>
    have hne : (ps.gotoSet (ps.scan γ) part).core.Nonempty := nonempty_of_closure h
    obtain ⟨i, hi, -⟩ := hne.some_mem
    exact .goto (ih ⟨i, hi⟩) hne

/-- A lookahead of an item stays with it when its dot is moved. -/
lemma lookaheads_scan_cons (ht : t ∈ (ps.scan γ).lookaheads i) (hrest : ps.rest i = part :: β)
    (hi : i ∈ (ps.scan γ).core) : t ∈ (ps.scan (part :: γ)).lookaheads i.advance :=
  .kernel ⟨i, hi, β, hrest, rfl⟩ ⟨i, hi, β, hrest, rfl, ht⟩

/-- A lookahead of an item that begins a production stays with it over the whole right-hand
side. -/
lemma lookaheads_scan_append (hp : ps.get? p = some prod) (hδ : ps.Canonical (ps.scan δ))
    (ht : t ∈ (ps.scan δ).lookaheads ⟨p, 0⟩) :
    t ∈ (ps.scan (prod.rhs.reverse ++ δ)).lookaheads ⟨p, prod.rhs.length⟩ := by
  have hmoved : ∀ n ≤ prod.rhs.length, ps.Canonical (ps.scan ((prod.rhs.take n).reverse ++ δ)) ∧
      t ∈ (ps.scan ((prod.rhs.take n).reverse ++ δ)).lookaheads ⟨p, n⟩ := by
    intro n hn
    induction n with
    | zero => exact ⟨hδ, ht⟩
    | succ n ih =>
      obtain ⟨hcanonical, hla⟩ := ih (Nat.le_of_succ_le hn)
      have hrest : ps.rest ⟨p, n⟩ = prod.rhs[n] :: prod.rhs.drop (n + 1) := by
        rw [rest_eq (i := ⟨p, n⟩) hp]
        exact List.drop_eq_getElem_cons hn
      have hstring : (prod.rhs.take (n + 1)).reverse ++ δ =
          prod.rhs[n] :: ((prod.rhs.take n).reverse ++ δ) := by
        rw [List.take_add_one, List.getElem?_eq_getElem hn, Option.toList_some,
          List.reverse_append, List.reverse_singleton, List.singleton_append, List.cons_append]
      have hnext := lookaheads_scan_cons hla hrest (hcanonical.mem_core hla)
      rw [hstring]
      exact ⟨canonical_scan ⟨_, Lookahead.mem_closure hnext⟩, hnext⟩
  have hall := (hmoved prod.rhs.length (Nat.le_refl _)).2
  rwa [List.take_length] at hall

/-! ## What is expected -/

/-- What can begin the rest of an item of a closure can begin that of an item of the kernel. -/
lemma exists_kernel_of_begins {K : Set Dotted} (hi : i ∈ ps.closure K)
    (ht : ps.Begins (ps.rest i) t) : ∃ k ∈ K, ps.Begins (ps.rest k) t := by
  induction hi with
  | kernel hi => exact ⟨_, hi, ht⟩
  | @opening i j s β _ hrest hj ih =>
    refine ih ?_
    rw [hrest]
    exact (ht.of_derives hj.derives_rest).append_right β

/-- A lookahead of an item whose rest can vanish comes from the kernel: it can begin the rest of an
item there, or is a lookahead of one whose rest can vanish. -/
lemma exists_kernel_of_lookahead (h : ps.Lookahead J i t) (hnull : ps.Nullable (ps.rest i)) :
    ∃ k ∈ J.core, ps.Begins (ps.rest k) t ∨ ps.Nullable (ps.rest k) ∧ t ∈ J.lookaheads k := by
  induction h with
  | kernel hi ht => exact ⟨_, hi, .inr ⟨hnull, ht⟩⟩
  | @ahead i j s t β hi hrest hj ht =>
    have hs : ps.Nullable [.nonterminal s] := hj.derives_rest.trans hnull
    obtain ⟨k, hk, hbegins⟩ := exists_kernel_of_begins (t := t) hi (by
      rw [hrest]
      exact hs.begins_append ht)
    exact ⟨k, hk, .inl hbegins⟩
  | @inherited i j s t β _ hrest hj hβ ih =>
    have hs : ps.Nullable [.nonterminal s] := hj.derives_rest.trans hnull
    refine ih ?_
    rw [hrest]
    exact hs.append hβ

/-- What is expected after a non-terminal is a lookahead of the productions of the non-terminal. -/
lemma lookahead_of_expects (hI : ps.Canonical I)
    (h : ps.Expects (ps.closeSet (ps.gotoSet I (.nonterminal s))) t) (hj : ps.Opening s j) :
    t ∈ I.lookaheads j := by
  have hkernel : ∃ k ∈ (ps.gotoSet I (.nonterminal s)).core, ps.Begins (ps.rest k) t ∨
      ps.Nullable (ps.rest k) ∧ t ∈ (ps.gotoSet I (.nonterminal s)).lookaheads k := by
    obtain ⟨i, hi, ⟨β, hβ⟩ | ⟨hnil, ht⟩⟩ := h
    · obtain ⟨k, hk, hbegins⟩ := exists_kernel_of_begins (t := t) hi (by
        rw [hβ]
        exact begins_terminal t β)
      exact ⟨k, hk, .inl hbegins⟩
    · refine exists_kernel_of_lookahead ht ?_
      rw [hnil]
      exact Relation.ReflTransGen.refl
  obtain ⟨_, ⟨i, hi, β, hrest, rfl⟩, hfirst⟩ := hkernel
  rw [rest_advance hrest] at hfirst
  rcases hfirst with hbegins | ⟨hnull, i', -, β', hrest', hadvance, ht⟩
  · exact hI.ahead hi hrest hj hbegins
  · rw [Dotted.advance_injective hadvance] at ht
    exact hI.inherited ht hrest hj hnull

/-- After a reduction nothing is expected that was not expected before it. -/
lemma expects_of_reduce (hp : ps.get? p = some prod)
    (h : ps.Expects (ps.scan (.nonterminal prod.lhs :: δ)) t) :
    ps.Expects (ps.scan (prod.rhs.reverse ++ δ)) t := by
  have hδ : ps.Canonical (ps.scan δ) := by
    obtain ⟨i, hi, -⟩ := h
    obtain ⟨_, j, hj, -⟩ := nonempty_of_closure ⟨i, hi⟩
    exact canonical_scan ⟨j, hj⟩
  have hopening : ps.Opening prod.lhs ⟨p, 0⟩ := ⟨rfl, prod, hp, rfl⟩
  have ht := lookaheads_scan_append hp hδ (lookahead_of_expects hδ h hopening)
  have hcomplete : ps.rest ⟨p, prod.rhs.length⟩ = [] := by
    rw [rest_eq (i := ⟨p, prod.rhs.length⟩) hp]
    exact List.drop_length
  refine ⟨_, ?_, .inr ⟨hcomplete, ht⟩⟩
  cases hγ : prod.rhs.reverse ++ δ with
  | nil => exact (hγ ▸ ht : ps.Lookahead _ _ _).mem_closure
  | cons part γ => exact (hγ ▸ ht : ps.Lookahead _ _ _).mem_closure

/-- The production of `^` is followed by the end of input only. -/
lemma Canonical.eq_eoi (hps : ps.Proper target) (h : ps.Canonical I) (ht : t ∈ I.lookaheads i)
    (h0 : i.production = 0) : t = SymbolId.eoi := by
  induction h generalizing i with
  | start =>
    cases ht with
    | kernel _ ht => exact ht.2
    | ahead _ hrest hj _ => exact absurd h0 (hps.opening_ne_start hrest hj)
    | inherited _ hrest hj _ => exact absurd h0 (hps.opening_ne_start hrest hj)
  | goto _ _ ih =>
    cases ht with
    | kernel _ ht =>
      obtain ⟨i', -, β, -, rfl, ht⟩ := ht
      exact ih ht h0
    | ahead _ hrest hj _ => exact absurd h0 (hps.opening_ne_start hrest hj)
    | inherited _ hrest hj _ => exact absurd h0 (hps.opening_ne_start hrest hj)

/-- And it is followed by the end of input wherever it is met. -/
lemma ReachableKernel.lalr_iff_eq_eoi (hps : ps.Proper target) {K : Set Dotted}
    (hK : ps.ReachableKernel K) (hi : i ∈ ps.closure K) (h0 : i.production = 0) :
    ps.Lalr K i t ↔ t = SymbolId.eoi := by
  constructor
  · rintro ⟨I, hI, -, ht⟩
    exact hI.eq_eoi hps ht h0
  rintro rfl
  induction hK generalizing i with
  | start =>
    rcases hps.mem_closure hi with rfl | ⟨-, hne⟩
    · exact .start
    · exact absurd h0 hne
  | goto _ _ ih =>
    rcases hps.mem_closure hi with ⟨j, hj, β, hrest, rfl⟩ | ⟨-, hne⟩
    · exact (ih hj h0).goto hrest
    · exact absurd h0 hne

lemma Expects.lt_width (hps : ps.Proper target) (h : ps.Expects (ps.scan γ) t) :
    t < ps.width := by
  obtain ⟨i, hi, ⟨β, hβ⟩ | ⟨-, ht⟩⟩ := h
  · exact (hps.symbol_lt_of_rest hβ).1
  · exact (canonical_scan ⟨i, hi⟩).lt_width hps ht

/-! ## How a string can be continued -/

/-- If a string can be continued by the rest of each item of a kernel, it can be by the rest of
each item of the closure. -/
lemma exists_derives_of_closure {K : Set Dotted} {x : Part}
    (h : ∀ k ∈ K, ∃ ω, ps.Derives [x] (α ++ ps.rest k ++ ω)) (hi : i ∈ ps.closure K) :
    ∃ ω, ps.Derives [x] (α ++ ps.rest i ++ ω) := by
  induction hi with
  | kernel hi => exact h _ hi
  | @opening i j s β _ hrest hj ih =>
    obtain ⟨ω, hω⟩ := ih
    have hexpand : ps.Derives (α ++ ps.rest i ++ ω) (α ++ ps.rest j ++ (β ++ ω)) := by
      rw [hrest]
      simpa using hj.derives_rest.context α (β ++ ω)
    exact ⟨β ++ ω, hω.trans hexpand⟩

/-- The string, the rest of an item and something more are derived from the accepted symbol. -/
lemma exists_derives_of_mem_scan (hps : ps.Proper target) (hi : i ∈ (ps.scan γ).core) :
    ∃ ω, ps.Derives [.nonterminal target] (γ.reverse ++ ps.rest i ++ ω) := by
  induction γ generalizing i with
  | nil =>
    refine exists_derives_of_closure ?_ hi
    intro k hk
    rw [Set.mem_singleton_iff.mp hk, rest_eq (i := Dotted.start) hps.start]
    exact ⟨[], .refl⟩
  | cons part γ ih =>
    refine exists_derives_of_closure ?_ hi
    rintro _ ⟨k, hk, β, hβ, rfl⟩
    obtain ⟨ω, hω⟩ := ih hk
    rw [hβ] at hω
    rw [rest_advance hβ]
    exact ⟨ω, by simpa using hω⟩

end Productions

end ShiftReduce
