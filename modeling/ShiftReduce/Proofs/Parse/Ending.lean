import ShiftReduce.Proofs.Parse.Exact
/-!
# What stands behind the end of input

A token that stands for the end of input ends the stream like the end itself. Where no clause
mentions it, it is never shifted, so that nothing behind it is looked at.

Main statements: `Parser.run_append` and `Parser.leaves_of_run`.
-/

namespace ShiftReduce

/-- What may stand behind the tokens of a stream without being looked at: nothing, or a token that
stands for the end of input, with anything behind it. -/
def Ending (rest : List Lexeme) : Prop :=
  rest = [] ∨ ∃ token rest', rest = .ok token :: rest' ∧ token.symbol = SymbolId.eoi

/-- The configurations differ in what stands behind the stream of the first one, or look at tokens
that both stand for the end of input. -/
structure Configuration.Longer (rest : List Lexeme) (c c' : Configuration) : Prop where
  frames : c'.frames = c.frames
  fallen : c'.fallen = c.fallen
  ahead : (c'.held = c.held ∧ c'.input = c.input ++ rest) ∨
    (∃ token ∈ c.held, token.symbol = SymbolId.eoi) ∧
      ∃ token ∈ c'.held, token.symbol = SymbolId.eoi

/-- The outcomes are one tree, or configurations that differ in this way, unless the first is an
error. -/
inductive Outcome.Longer (rest : List Lexeme) : Outcome → Outcome → Prop
  | running {c c' : Configuration} : c.Longer rest c' → Longer rest (.running c) (.running c')
  | accepted {tree : Tree} : Longer rest (.accepted tree) (.accepted tree)
  | failed {e : ParseError} {out : Outcome} : Longer rest (.failed e) out

variable {p : Parser} {c c' c₁ : Configuration} {token token' : Token} {rest : List Lexeme}
  {target : SymbolId} {labels : List SymbolId} {tree : Tree}

/-- Tokens of one symbol are looked at, and if they are not one and the same, they stand for the end
of input. -/
lemma Configuration.Longer.fetch (hrest : Ending rest) (h : c.Longer rest c')
    (hfetch : c.fetch = .ok (token, c₁)) : ∃ token' c₁', c'.fetch = .ok (token', c₁') ∧
      token'.symbol = token.symbol ∧ c₁'.frames = c₁.frames ∧ c₁'.fallen = c₁.fallen ∧
      (token' = token ∧ c₁'.held = c₁.held ∧ c₁'.input = c₁.input ++ rest ∨
        token.symbol = SymbolId.eoi) := by
  rw [Configuration.fetch] at hfetch
  rw [Configuration.fetch]
  rcases h.ahead with ⟨hheld, hinput⟩ | ⟨⟨token₁, hheld, heoi⟩, token₂, hheld', heoi'⟩
  · rw [hheld, hinput]
    cases hc : c.held with
    | some token₁ =>
      rw [hc] at hfetch
      cases hfetch
      exact ⟨_, _, rfl, rfl, h.frames, h.fallen, .inl ⟨rfl, rfl, rfl⟩⟩
    | none =>
      rw [hc] at hfetch
      cases hin : c.input with
      | cons lexeme input =>
        rw [hin] at hfetch
        cases lexeme with
        | error e => cases hfetch
        | ok token₁ =>
          cases hfetch
          exact ⟨_, _, rfl, rfl, h.frames, h.fallen, .inl ⟨rfl, rfl, rfl⟩⟩
      | nil =>
        -- the end of the shorter stream
        rw [hin] at hfetch
        cases hfetch
        rw [List.nil_append]
        rcases hrest with rfl | ⟨token₁, rest', rfl, heoi⟩
        · exact ⟨_, _, rfl, rfl, h.frames, h.fallen, .inr rfl⟩
        · exact ⟨_, _, rfl, heoi, h.frames, h.fallen, .inr rfl⟩
  · rw [Option.mem_def] at hheld hheld'
    rw [hheld] at hfetch
    rw [hheld']
    cases hfetch
    exact ⟨_, _, rfl, heoi'.trans heoi.symm, h.frames, h.fallen, .inr heoi⟩

namespace Parser

/-- A step that does not shift the end of input leads to configurations that differ in this way
again. -/
lemma step_longer (hrest : Ending rest)
    (hshift : ∀ token dest, p.executed c = some (token, .shift dest) →
      token.symbol ≠ SymbolId.eoi)
    (h : c.Longer rest c') : (p.step c).Longer rest (p.step c') := by
  cases hfetch : c.fetch with
  | error e =>
    simp only [step, hfetch]
    exact .failed
  | ok fetched =>
    obtain ⟨token, c₁⟩ := fetched
    obtain ⟨token', c₁', hfetch', hsymbol, hframes, hfallen, hahead⟩ := h.fetch hrest hfetch
    have hstate : c₁'.state = c₁.state := by
      rw [Configuration.state, hframes]
      rfl
    -- the token is held back, with whatever is left through the `ε` column
    have hreduce : ∀ fallen fallen' id, fallen' = fallen →
        (p.reduce { c₁ with fallen } token id).Longer rest
          (p.reduce { c₁' with fallen := fallen' } token' id) := by
      rintro fallen _ id rfl
      simp only [reduce, hframes]
      cases p.reduceFrames c₁.frames id with
      | error e => exact .failed
      | ok frames =>
        refine .running ⟨rfl, rfl, ?_⟩
        rcases hahead with ⟨rfl, -, hinput⟩ | heoi
        · exact .inl ⟨rfl, hinput⟩
        · exact .inr ⟨⟨token, rfl, heoi⟩, token', rfl, hsymbol.trans heoi⟩
    simp only [step, hfetch, hfetch', hstate, hsymbol, hfallen]
    cases hchoose : p.choose c₁.state token.symbol c₁.fallen with
    | stuck => exact .failed
    | fallback id => exact hreduce _ _ id rfl
    | direct action =>
      cases action with
      | shift dest =>
        have hne := hshift token dest (by simp only [executed, hfetch, hchoose])
        obtain ⟨rfl, hheld, hinput⟩ := hahead.resolve_right hne
        exact .running ⟨by simp only [hframes], rfl, .inl ⟨hheld, hinput⟩⟩
      | reduce id => exact hreduce c₁.fallen c₁'.fallen id hfallen
      | fail => exact .failed
      | accept =>
        simp only [hframes]
        cases c₁.frames with
        | nil => exact .failed
        | cons frame frames => exact .accepted

section Own

variable (hb : p.grammar.Builds target p.table)
  (heoi : ∀ r ∈ p.grammar.rules, SymbolId.eoi ∉ r.clause)

include hb heoi

/-- Without callbacks a tree that is returned is a derivation tree of the tokens in front of the end
of input. -/
lemma leaves_of_run (hactions : ∀ r ∈ p.grammar.rules, r.action = none) {fuel : Nat}
    {input : List Lexeme} (h : p.run fuel (.start input) = .ok tree) :
    tree.symbol = target ∧ p.grammar.IsDerivation tree ∧
      ∃ rest, input = tree.leaves.map .ok ++ rest ∧ Ending rest := by
  obtain ⟨hsymbol, hd, -, token, rest, hlooking, htoken⟩ := run_sound hb hactions heoi
    (path_start p target input) (traces_start p.grammar input) h
  rw [tree.leaves_eq_yield]
  refine ⟨hsymbol, hd, ?_⟩
  rcases hlooking with hinput | ⟨hinput, -, -⟩
  · exact ⟨_, hinput, .inr ⟨token, rest, rfl, htoken⟩⟩
  · exact ⟨[], by rw [hinput, List.append_nil], .inl rfl⟩

variable (hrest : Ending rest)

include hrest

lemma run_longer {fuel : Nat}
    (hpath : (p.grammar.automatonOf target).Path p.grammar labels c.frames)
    (h : c.Longer rest c') (hrun : p.run fuel c = .ok tree) : p.run fuel c' = .ok tree := by
  induction fuel generalizing c c' labels with
  | zero => cases hrun
  | succ fuel ih =>
    rw [run] at hrun ⊢
    have hstep := step_longer hrest
      (fun token dest hexec => (shift_symbol hb hpath heoi hexec).2) h
    cases hout : p.step c with
    | failed e =>
      rw [hout] at hrun
      cases hrun
    | accepted tree' =>
      rw [hout] at hrun hstep
      generalize p.step c' = out at hstep
      cases hstep
      exact hrun
    | running c₁ =>
      rw [hout] at hrun hstep
      obtain ⟨token, action, hexec⟩ := executed_of_step hout
      generalize p.step c' = out at hstep
      cases hstep with
      | running h₁ => exact ih (path_step hb hpath hexec hout) h₁ hrun

/-- A tree that is returned for a stream is returned too with the end of input behind the stream,
and anything behind that. -/
lemma run_append {fuel : Nat} {input : List Lexeme} (h : p.run fuel (.start input) = .ok tree) :
    p.run fuel (.start (input ++ rest)) = .ok tree :=
  run_longer hb heoi hrest (path_start p target input) ⟨rfl, rfl, .inl ⟨rfl, rfl⟩⟩ h

end Own

end Parser

end ShiftReduce
