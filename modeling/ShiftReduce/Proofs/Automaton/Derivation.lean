import ShiftReduce.Automaton.Production
import Mathlib.Logic.Relation
/-!
# What strings of parts derive

A string of parts is rewritten by replacing a non-terminal by the right-hand side of one of its
productions. A string can vanish if it derives the empty string, and a terminal can begin it if it
derives a string with the terminal in front.
-/

namespace ShiftReduce

namespace Productions

variable (ps : Productions)

/-- One non-terminal of a string is replaced by the right-hand side of one of its productions. -/
inductive Rewrites : List Part → List Part → Prop
  | expand (before after : List Part) {p : Nat} {prod : Production} :
    ps.get? p = some prod →
      Rewrites (before ++ .nonterminal prod.lhs :: after) (before ++ prod.rhs ++ after)

/-- Any number of replacements, one after another. -/
def Derives : List Part → List Part → Prop := Relation.ReflTransGen ps.Rewrites

/-- The string derives the empty string. -/
def Nullable (α : List Part) : Prop := ps.Derives α []

/-- The string derives a string that begins with the terminal. -/
def Begins (α : List Part) (t : SymbolId) : Prop := ∃ β, ps.Derives α (.terminal t :: β)

/-- The non-terminal derives a string of terminals. -/
def Productive (s : SymbolId) : Prop :=
  ∃ w : List SymbolId, ps.Derives [.nonterminal s] (w.map .terminal)

variable {ps} {α α' β β' γ : List Part} {t : SymbolId}

/-! ## Derivations side by side -/

lemma Rewrites.context (h : ps.Rewrites α α') (before after : List Part) :
    ps.Rewrites (before ++ α ++ after) (before ++ α' ++ after) := by
  cases h with
  | expand u v hp =>
    have := Rewrites.expand (before ++ u) (v ++ after) hp
    simpa only [List.append_assoc, List.cons_append] using this

lemma Derives.context (h : ps.Derives α α') (before after : List Part) :
    ps.Derives (before ++ α ++ after) (before ++ α' ++ after) :=
  Relation.ReflTransGen.lift (r := ps.Rewrites) (fun x => before ++ x ++ after)
    (fun _ _ hx => hx.context before after) _ _ h

lemma Derives.append (hα : ps.Derives α α') (hβ : ps.Derives β β') :
    ps.Derives (α ++ β) (α' ++ β') := by
  have h₁ := hα.context [] β
  have h₂ := hβ.context α' []
  simp only [List.nil_append] at h₁
  simp only [List.append_nil] at h₂
  exact h₁.trans h₂

lemma Derives.of_production {p : Nat} {prod : Production} (h : ps.get? p = some prod) :
    ps.Derives [.nonterminal prod.lhs] prod.rhs := by
  have := Rewrites.expand [] [] h
  simp only [List.nil_append, List.append_nil] at this
  exact Relation.ReflTransGen.single this

/-- What a string of two pieces derives is made of what the pieces derive. -/
lemma Derives.split (h : ps.Derives (α ++ β) γ) :
    ∃ α' β', γ = α' ++ β' ∧ ps.Derives α α' ∧ ps.Derives β β' := by
  induction h with
  | refl => exact ⟨α, β, rfl, .refl, .refl⟩
  | tail _ hstep ih =>
    obtain ⟨α', β', rfl, hα, hβ⟩ := ih
    generalize hδ : α' ++ β' = δ at hstep
    cases hstep with
    | @expand u v p prod hp =>
      rcases List.append_eq_append_iff.mp hδ with ⟨w, rfl, rfl⟩ | ⟨w, rfl, hw⟩
      · -- the non-terminal stands in the second piece
        exact ⟨α', w ++ prod.rhs ++ v, by simp only [List.append_assoc], hα,
          hβ.tail (.expand w v hp)⟩
      · -- it stands in the first piece, or `w` is empty and it is the first of the second
        cases w with
        | nil =>
          subst hw
          refine ⟨u, prod.rhs ++ v, by simp, ?_, hβ.tail (.expand [] v hp)⟩
          rw [List.append_nil] at hα
          exact hα
        | cons x w =>
          rw [List.cons_append, List.cons.injEq] at hw
          obtain ⟨rfl, rfl⟩ := hw
          exact ⟨u ++ prod.rhs ++ w, β', by simp only [List.append_assoc],
            hα.tail (.expand u w hp), hβ⟩

lemma Derives.eq_of_terminals {w : List SymbolId} (h : ps.Derives (w.map .terminal) γ) :
    γ = w.map .terminal := by
  induction h with
  | refl => rfl
  | tail _ hstep ih =>
    subst ih
    generalize hw : w.map Part.terminal = δ at hstep
    cases hstep with
    | @expand u v p prod _ =>
      have hmem : Part.nonterminal prod.lhs ∈ w.map Part.terminal := by simp [hw]
      simp at hmem

/-! ## Vanishing and beginning -/

lemma Nullable.append (hα : ps.Nullable α) (hβ : ps.Nullable β) : ps.Nullable (α ++ β) :=
  Derives.append hα hβ

lemma Begins.append_right (h : ps.Begins α t) (β : List Part) : ps.Begins (α ++ β) t := by
  obtain ⟨γ, hγ⟩ := h
  exact ⟨γ ++ β, hγ.append .refl⟩

lemma Nullable.begins_append (hα : ps.Nullable α) (hβ : ps.Begins β t) :
    ps.Begins (α ++ β) t := by
  obtain ⟨γ, hγ⟩ := hβ
  exact ⟨γ, Derives.append hα hγ⟩

lemma begins_terminal (t : SymbolId) (β : List Part) : ps.Begins (.terminal t :: β) t :=
  ⟨β, .refl⟩

lemma begins_append_iff :
    ps.Begins (α ++ β) t ↔ ps.Begins α t ∨ ps.Nullable α ∧ ps.Begins β t := by
  constructor
  · rintro ⟨γ, hγ⟩
    obtain ⟨α', β', heq, hα, hβ⟩ := hγ.split
    cases α' with
    | nil => exact .inr ⟨hα, γ, by rw [heq]; exact hβ⟩
    | cons x α' =>
      rw [List.cons_append, List.cons.injEq] at heq
      exact .inl ⟨α', by rw [heq.1]; exact hα⟩
  · rintro (h | ⟨hα, hβ⟩)
    · exact h.append_right β
    · exact hα.begins_append hβ

lemma begins_terminal_iff {u : SymbolId} : ps.Begins [.terminal t] u ↔ u = t := by
  constructor
  · rintro ⟨γ, hγ⟩
    have := Derives.eq_of_terminals (w := [t]) hγ
    exact (by simpa using this : u = t ∧ γ = []).1
  · rintro rfl
    exact begins_terminal u []

/-- A string of productive parts vanishes or begins with some terminal. -/
lemma nullable_or_begins (h : ∀ s, Part.nonterminal s ∈ α → ps.Productive s) :
    ps.Nullable α ∨ ∃ t, ps.Begins α t := by
  induction α with
  | nil => exact .inl .refl
  | cons part α ih =>
    have ih := ih fun s hs => h s (List.mem_cons_of_mem _ hs)
    cases part with
    | terminal t => exact .inr ⟨t, begins_terminal t α⟩
    | nonterminal s =>
      obtain ⟨w, hw⟩ := h s List.mem_cons_self
      cases w with
      | cons t w => exact .inr ⟨t, Begins.append_right ⟨w.map .terminal, hw⟩ α⟩
      | nil =>
        have hs : ps.Nullable [.nonterminal s] := hw
        rcases ih with hα | ⟨t, ht⟩
        · exact .inl (hs.append hα)
        · exact .inr ⟨t, hs.begins_append ht⟩

end Productions

end ShiftReduce
