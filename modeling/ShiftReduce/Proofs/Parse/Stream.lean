import ShiftReduce.Proofs.Parse.Fragment
import ShiftReduce.Proofs.Parse.Prefix
import ShiftReduce.Proofs.Table.Clash
/-!
# How the stream is read

A parser takes the items of its stream one by one. What it has read at any time are the tokens it
has shifted and at most one more, the token it looks at, which is held back by any number of
reductions. The rest of the stream has no say in what it does.

So an error is decided by the items up to the one it is about. An error of the lexer is returned as
it is when all tokens before it have been shifted. And where no clause mentions the end of input,
nothing behind a token for the end of input is read: such a token where the stream ends, with
anything behind it, makes no difference.

Main statement: `Parser.readsOnce_of_own_table`.
-/

namespace ShiftReduce

/-- What a parser has before it: the token held back, if there is one, and the items not yet read.
A token for the end of input may be held back when there are none. -/
def Configuration.Faces (c : Configuration) (rest : List Lexeme) : Prop :=
  match c.held with
  | none => rest = c.input
  | some token => rest = .ok token :: c.input ∨
      rest = [] ∧ c.input = [] ∧ token.symbol = SymbolId.eoi

/-- The outcomes are the same but for the configurations if the parse goes on. -/
inductive Outcome.Matches (R : Configuration → Configuration → Prop) : Outcome → Outcome → Prop
  | running {c c' : Configuration} : R c c' → Matches R (.running c) (.running c')
  | accepted {tree : Tree} : Matches R (.accepted tree) (.accepted tree)
  | failed {e : ParseError} : Matches R (.failed e) (.failed e)

/-- The position just past the last token, or that of the first character if there is none. -/
def EndsAt (input : List Lexeme) (line column : Nat) : Prop :=
  match (input.filterMap Except.toOption).getLast? with
  | none => line = 1 ∧ column = 1
  | some token => line = token.line ∧ column = token.column + token.text.length ∧
      column < wordRange

namespace Parser

/-- The tokens that the first steps shift, in order. -/
def shifted (p : Parser) (input : List Lexeme) : Nat → List Token
  | 0 => []
  | n + 1 => p.shifted input n ++
    match (p.after input n).bind fun reached => p.executed reached.1 with
    | some (token, .shift _) => [token]
    | _ => []

/-- The parse fails when it looks at the item behind the first `k`, which are tokens and shifted. -/
def StopsAt (p : Parser) (input : List Lexeme) (k : Nat) (e : ParseError) : Prop :=
  ∃ n c labels, p.after input n = some (c, labels) ∧ p.step c = .failed e ∧
    (p.shifted input n).length = k

/-- A token for the end of input is not shifted. -/
def SparesEnd (p : Parser) : Prop :=
  ∀ c token dest, p.executed c = some (token, .shift dest) → token.symbol ≠ SymbolId.eoi

/-- The stream is read once, in order, with one token of lookahead. -/
structure ReadsOnce (p : Parser) : Prop where
  /-- The items read are the tokens shifted, and at most one that is held back. -/
  in_order : ∀ input n c labels, p.after input n = some (c, labels) →
    ∃ rest, input = (p.shifted input n).map .ok ++ rest ∧ c.Faces rest
  /-- A token for the end of input in its place, with anything behind it, makes no difference. -/
  ending : ∀ input line column more, EndsAt input line column → ∀ result,
    p.Returns (input ++ .ok (.endOfInput line column) :: more) result ↔ p.Returns input result
  /-- So it is also with a limit to the steps, unless that is reached. -/
  ending_parse : ∀ input line column more, EndsAt input line column →
    p.parse input ≠ .error .stepLimit →
      p.parse (input ++ .ok (.endOfInput line column) :: more) = p.parse input
  /-- An error other than a want of steps stops the parse at some item, or at the end. -/
  stops : ∀ input e, p.Returns input (.error e) ↔ ∃ k ≤ input.length, p.StopsAt input k e
  /-- This is the item that the error is about. -/
  about : ∀ input k e, p.StopsAt input k e →
    (∀ x, e = .lexical x → input[k]? = some (.error x)) ∧
      ∀ token tokenType expected, e = .unexpected token tokenType expected →
        input[k]? = some (.ok token) ∨ k = input.length ∧ token.symbol = SymbolId.eoi
  /-- The items up to this one decide the result. -/
  decided : ∀ input k e, p.StopsAt input k e → k < input.length →
    ∀ input', input'.take (k + 1) = input.take (k + 1) → p.Returns input' (.error e)
  /-- An error of the lexer is returned if the tokens before it are shifted. -/
  lexical : ∀ input x, p.Returns input (.error (.lexical x)) ↔
    ∃ tokens rest n, input = tokens.map .ok ++ .error x :: rest ∧
      p.shifted input n = tokens ∧ (p.after input n).isSome

variable {p : Parser} {c c' c₁ c₁' : Configuration} {token : Token} {action : Action}
  {input rest more : List Lexeme} {labels : List SymbolId} {n k : Nat} {e : ParseError}
  {R : Configuration → Configuration → Prop}

/-! ## What lies ahead -/

lemma faces_start (input : List Lexeme) : (Configuration.start input).Faces input := rfl

/-- The first item ahead is looked at, or the end of input if there is none. -/
lemma faces_fetch (h : c.Faces rest) :
    (∃ x rest', rest = .error x :: rest' ∧ c.fetch = .error x) ∨
      ∃ token c₁, c.fetch = .ok (token, c₁) ∧ c₁.held = none ∧
        (rest = .ok token :: c₁.input ∨
          rest = [] ∧ c₁.input = [] ∧ token.symbol = SymbolId.eoi) := by
  rw [Configuration.Faces] at h
  rw [Configuration.fetch]
  cases hheld : c.held with
  | some token =>
    rw [hheld] at h
    exact .inr ⟨token, _, rfl, rfl, h⟩
  | none =>
    rw [hheld] at h
    cases hinput : c.input with
    | nil => exact .inr ⟨_, c, rfl, hheld, .inr ⟨h.trans hinput, hinput, rfl⟩⟩
    | cons item input =>
      rw [hinput] at h
      cases item with
      | error x => exact .inl ⟨x, input, h, rfl⟩
      | ok token => exact .inr ⟨token, _, rfl, rfl, .inl h⟩

/-- A shift takes the first item, and whatever else a step does leaves the items as they are. -/
lemma faces_step (hspares : p.SparesEnd) (h : c.Faces rest)
    (hexec : p.executed c = some (token, action)) (hstep : p.step c = .running c') :
    (∃ dest rest', action = .shift dest ∧ rest = .ok token :: rest' ∧ c'.Faces rest') ∨
      (∀ dest, action ≠ .shift dest) ∧ c'.Faces rest := by
  obtain ⟨c₀, hfetch₀, -⟩ := choose_of_executed hexec
  obtain ⟨x, -, -, hfetch⟩ | ⟨token₁, c₁, hfetch, hheld, hrest⟩ := faces_fetch h
  · cases hfetch.symm.trans hfetch₀
  cases hfetch.symm.trans hfetch₀
  cases action with
  | shift dest =>
    obtain ⟨c₂, hfetch₂, hshift⟩ := step_shift hexec
    cases hfetch.symm.trans hfetch₂
    cases hstep.symm.trans hshift
    have hrest := hrest.resolve_right fun hend => hspares c token dest hexec hend.2.2
    refine .inl ⟨dest, _, rfl, hrest, ?_⟩
    simp only [Configuration.Faces, hheld]
  | reduce id =>
    obtain ⟨c₂, hfetch₂, ⟨e, -, hfail⟩ | ⟨frames, fallen, -, hrun⟩⟩ := step_reduce hexec
    · cases hstep.symm.trans hfail
    · cases hfetch.symm.trans hfetch₂
      cases hstep.symm.trans hrun
      exact .inr ⟨by simp, hrest⟩
  | accept =>
    rcases step_accept hexec with ⟨frame, frames, -, haccept⟩ | ⟨-, state, hfail⟩
    · cases hstep.symm.trans haccept
    · cases hstep.symm.trans hfail
  | fail =>
    obtain ⟨state, hfail⟩ := step_fail hexec
    cases hstep.symm.trans hfail

/-- The items read are the tokens shifted, and the one held back. -/
lemma faces_after (hspares : p.SparesEnd) (h : p.after input n = some (c, labels)) :
    ∃ rest, input = (p.shifted input n).map .ok ++ rest ∧ c.Faces rest := by
  induction n generalizing c labels with
  | zero =>
    cases h
    exact ⟨input, rfl, faces_start input⟩
  | succ n ih =>
    rw [after] at h
    split at h
    · cases h
    · next c₀ labels₀ hafter =>
      split at h
      · next c₁ token action hstep hexec =>
        cases h
        obtain ⟨rest, hinput, hfaces⟩ := ih hafter
        obtain ⟨dest, rest', rfl, rfl, hfaces'⟩ | ⟨hnot, hfaces'⟩ :=
          faces_step hspares hfaces hexec hstep
        · refine ⟨rest', ?_, hfaces'⟩
          rw [shifted, hafter, Option.bind_some, hexec, List.map_append, List.append_assoc]
          exact hinput
        · refine ⟨rest, ?_, hfaces'⟩
          rw [shifted, hafter, Option.bind_some, hexec]
          cases action with
          | shift dest => exact absurd rfl (hnot dest)
          | reduce | accept | fail => rwa [List.append_nil]
      · cases h

/-! ## Two streams -/

/-- Looking at the same token with the same stack, parsers do the same. It is left to show that the
configurations are related again, whether the token is held back or shifted. -/
lemma step_matches (hfetch : c.fetch = .ok (token, c₁)) (hfetch' : c'.fetch = .ok (token, c₁'))
    (hframes : c₁'.frames = c₁.frames) (hfallen : c₁'.fallen = c₁.fallen)
    (hback : ∀ frames fallen, R { c₁ with frames, fallen, held := some token }
      { c₁' with frames, fallen, held := some token })
    (hoff : ∀ dest, p.executed c = some (token, .shift dest) → ∀ frames,
      R { c₁ with frames, fallen := [] } { c₁' with frames, fallen := [] }) :
    (p.step c).Matches R (p.step c') := by
  have hstate : c₁'.state = c₁.state := by rw [Configuration.state, hframes, Configuration.state]
  have hreduce : ∀ fallen fallen' (id : RuleId), fallen' = fallen →
      (p.reduce { c₁ with fallen := fallen } token id).Matches R
        (p.reduce { c₁' with fallen := fallen' } token id) := by
    rintro fallen _ id rfl
    simp only [reduce, hframes]
    cases p.reduceFrames c₁.frames id with
    | error e => exact .failed
    | ok frames => exact .running (hback frames _)
  simp only [step, hfetch, hfetch', hstate, hfallen]
  cases hchoose : p.choose c₁.state token.symbol c₁.fallen with
  | stuck => exact .failed
  | fallback id => exact hreduce _ _ id rfl
  | direct action =>
    cases action with
    | shift dest =>
      simp only [hframes]
      exact .running (hoff dest (by simp only [executed, hfetch, hchoose]) _)
    | reduce id => exact hreduce c₁.fallen c₁'.fallen id hfallen
    | fail => exact .failed
    | accept =>
      simp only [hframes]
      cases c₁.frames with
      | nil => exact .failed
      | cons frame frames => exact .accepted

lemma step_matches_error {x : LexicalError} (hfetch : c.fetch = .error x)
    (hfetch' : c'.fetch = .error x) : (p.step c).Matches R (p.step c') := by
  simp only [step, hfetch, hfetch']
  exact .failed

/-- If every step leads from related configurations to related ones, the runs end alike. -/
lemma run_eq_of_matches (hstep : ∀ c c', R c c' → (p.step c).Matches R (p.step c'))
    (h : R c c') (n : Nat) : p.run n c' = p.run n c := by
  induction n generalizing c c' with
  | zero => rfl
  | succ n ih =>
    have hmatches := hstep c c' h
    rw [run, run]
    generalize p.step c = out at hmatches
    generalize p.step c' = out' at hmatches
    cases hmatches with
    | running hR => exact ih hR
    | accepted => rfl
    | failed => rfl

/-! ## A token for the end of input -/

/-- The position just past the last token, if the stream goes on from a position. -/
def endFrom (finish : Nat × Nat) (input : List Lexeme) : Nat × Nat :=
  ((input.filterMap Except.toOption).getLast?.map Token.finish).getD finish

lemma endFrom_cons (finish : Nat × Nat) (token : Token) (input : List Lexeme) :
    endFrom finish (.ok token :: input) = endFrom token.finish input := by
  have htokens : (.ok token :: input : List Lexeme).filterMap Except.toOption =
      token :: input.filterMap Except.toOption := List.filterMap_cons_some rfl
  rw [endFrom, endFrom, htokens, List.getLast?_cons]
  cases (input.filterMap Except.toOption).getLast? <;> rfl

lemma endFrom_of_endsAt {line column : Nat} (h : EndsAt input line column) :
    endFrom (1, 1) input = (line, column) := by
  rw [EndsAt] at h
  rw [endFrom]
  cases hlast : (input.filterMap Except.toOption).getLast? with
  | none =>
    rw [hlast] at h
    obtain ⟨rfl, rfl⟩ := h
    rfl
  | some token =>
    rw [hlast] at h
    obtain ⟨rfl, rfl, hlt⟩ := h
    exact congrArg (Prod.mk token.line) (Nat.mod_eq_of_lt hlt)

/-- The configurations differ in what stands behind the stream of the first one, where the second
has a token for the end of input in its place, or look at this token. -/
structure Closed (last : Token) (more : List Lexeme) (c c' : Configuration) : Prop where
  frames : c'.frames = c.frames
  fallen : c'.fallen = c.fallen
  ahead : (c'.held = c.held ∧ c'.input = c.input ++ .ok last :: more ∧ c'.finish = c.finish ∧
      last = .endOfInput (endFrom c.finish c.input).1 (endFrom c.finish c.input).2) ∨
    c.held = some last ∧ c'.held = some last

lemma step_closed {last : Token} (hspares : p.SparesEnd) (hlast : last.symbol = SymbolId.eoi)
    (h : Closed last more c c') : (p.step c).Matches (Closed last more) (p.step c') := by
  -- once the token is looked at it stays held back
  have hend : ∀ c₁ c₁', c.fetch = .ok (last, c₁) → c'.fetch = .ok (last, c₁') →
      c₁'.frames = c₁.frames → c₁'.fallen = c₁.fallen →
      (p.step c).Matches (Closed last more) (p.step c') := by
    intro c₁ c₁' hfetch hfetch' hframes hfallen
    refine step_matches hfetch hfetch' hframes hfallen
      (fun _ _ => ⟨rfl, rfl, .inr ⟨rfl, rfl⟩⟩) fun dest hexec => ?_
    exact absurd hlast (hspares c last dest hexec)
  rcases h.ahead with ⟨hheld, hinput, hfinish, hplace⟩ | ⟨hheld, hheld'⟩
  · cases hc : c.held with
    | some token =>
      have hfetch : c.fetch = .ok (token, { c with held := none }) := by
        simp only [Configuration.fetch, hc]
      have hfetch' : c'.fetch = .ok (token, { c' with held := none }) := by
        simp only [Configuration.fetch, hheld, hc]
      exact step_matches hfetch hfetch' h.frames h.fallen
        (fun _ _ => ⟨rfl, rfl, .inl ⟨rfl, hinput, hfinish, hplace⟩⟩)
        fun _ _ _ => ⟨rfl, rfl, .inl ⟨rfl, hinput, hfinish, hplace⟩⟩
    | none =>
      rw [hc] at hheld
      cases hin : c.input with
      | nil =>
        rw [hin] at hinput hplace
        refine hend c { c' with input := more, finish := last.finish } ?_ ?_ h.frames h.fallen
        · simp only [Configuration.fetch, hc, hin]
          rw [hplace]
          rfl
        · simp only [Configuration.fetch, hheld, hinput, List.nil_append]
      | cons item input =>
        rw [hin] at hinput hplace
        cases item with
        | error x =>
          refine step_matches_error (x := x) ?_ ?_
          · simp only [Configuration.fetch, hc, hin]
          · simp only [Configuration.fetch, hheld, hinput, List.cons_append]
        | ok token =>
          rw [endFrom_cons] at hplace
          have hfetch : c.fetch = .ok (token, { c with input, finish := token.finish }) := by
            simp only [Configuration.fetch, hc, hin]
          have hfetch' : c'.fetch = .ok (token, { c' with
              input := input ++ .ok last :: more, finish := token.finish }) := by
            simp only [Configuration.fetch, hheld, hinput, List.cons_append]
          exact step_matches hfetch hfetch' h.frames h.fallen
            (fun _ _ => ⟨rfl, rfl, .inl ⟨rfl, rfl, rfl, hplace⟩⟩)
            fun _ _ _ => ⟨rfl, rfl, .inl ⟨hheld.trans hc.symm, rfl, rfl, hplace⟩⟩
  · refine hend { c with held := none } { c' with held := none } ?_ ?_ h.frames h.fallen
    · simp only [Configuration.fetch, hheld]
    · simp only [Configuration.fetch, hheld']

lemma run_closed (hspares : p.SparesEnd) {line column : Nat} (h : EndsAt input line column)
    (more : List Lexeme) (n : Nat) :
    p.run n (.start (input ++ .ok (.endOfInput line column) :: more)) =
      p.run n (.start input) := by
  refine run_eq_of_matches (R := Closed (.endOfInput line column) more)
    (fun c c' hc => step_closed hspares rfl hc) ?_ n
  refine ⟨rfl, rfl, .inl ⟨rfl, rfl, rfl, ?_⟩⟩
  rw [Configuration.start, endFrom_of_endsAt h]

lemma stepLimit_mono (g : Grammar) {m n : Nat} (h : m ≤ n) : stepLimit g m ≤ stepLimit g n :=
  Nat.mul_le_mul_right _ (Nat.mul_le_mul_right _ (Nat.mul_le_mul_left _ (Nat.add_le_add_right h 2)))

lemma parse_closed (hspares : p.SparesEnd) {line column : Nat} (h : EndsAt input line column)
    (more : List Lexeme) (hlimit : p.parse input ≠ .error .stepLimit) :
    p.parse (input ++ .ok (.endOfInput line column) :: more) = p.parse input := by
  rw [parse, run_closed hspares h more]
  refine run_of_le (stepLimit_mono _ ?_) hlimit
  rw [List.length_append]
  exact Nat.le_add_right _ _

/-! ## Streams that begin alike -/

/-- The configurations differ in what stands behind the items that both streams begin with. -/
structure Forked (x y : List Lexeme) (c c' : Configuration) : Prop where
  frames : c'.frames = c.frames
  fallen : c'.fallen = c.fallen
  held : c'.held = c.held
  finish : c'.finish = c.finish
  input : ∃ common, c.input = common ++ x ∧ c'.input = common ++ y

lemma step_forked {x y : List Lexeme} (hfaces : c.Faces rest) (hmore : x.length < rest.length)
    (h : Forked x y c c') : (p.step c).Matches (Forked x y) (p.step c') := by
  obtain ⟨common, hinput, hinput'⟩ := h.input
  rw [Configuration.Faces] at hfaces
  cases hheld : c.held with
  | some token =>
    have hfetch : c.fetch = .ok (token, { c with held := none }) := by
      simp only [Configuration.fetch, hheld]
    have hfetch' : c'.fetch = .ok (token, { c' with held := none }) := by
      simp only [Configuration.fetch, h.held, hheld]
    exact step_matches hfetch hfetch' h.frames h.fallen
      (fun _ _ => ⟨rfl, rfl, rfl, h.finish, common, hinput, hinput'⟩)
      fun _ _ _ => ⟨rfl, rfl, rfl, h.finish, common, hinput, hinput'⟩
  | none =>
    rw [hheld] at hfaces
    have hheld' : c'.held = none := h.held.trans hheld
    cases common with
    | nil =>
      -- the first stream would have nothing ahead but what is not common
      rw [hfaces, hinput] at hmore
      exact absurd hmore (Nat.lt_irrefl _)
    | cons item common =>
      rw [List.cons_append] at hinput hinput'
      cases item with
      | error err =>
        refine step_matches_error (x := err) ?_ ?_
        · simp only [Configuration.fetch, hheld, hinput]
        · simp only [Configuration.fetch, hheld', hinput']
      | ok token =>
        have hfetch : c.fetch =
            .ok (token, { c with input := common ++ x, finish := token.finish }) := by
          simp only [Configuration.fetch, hheld, hinput]
        have hfetch' : c'.fetch =
            .ok (token, { c' with input := common ++ y, finish := token.finish }) := by
          simp only [Configuration.fetch, hheld', hinput']
        exact step_matches hfetch hfetch' h.frames h.fallen
          (fun _ _ => ⟨rfl, rfl, rfl, rfl, common, rfl, rfl⟩)
          fun _ _ _ => ⟨rfl, rfl, h.held, rfl, common, rfl, rfl⟩

/-- Before all common items are shifted there is one of them ahead. -/
lemma step_forked_of_after (hspares : p.SparesEnd) {common x y : List Lexeme}
    (hafter : p.after (common ++ x) n = some (c, labels))
    (hless : (p.shifted (common ++ x) n).length < common.length) (h : Forked x y c c') :
    (p.step c).Matches (Forked x y) (p.step c') := by
  obtain ⟨rest, hinput, hfaces⟩ := faces_after hspares hafter
  refine step_forked hfaces ?_ h
  have hlength := congrArg List.length hinput
  rw [List.length_append, List.length_append, List.length_map] at hlength
  omega

lemma shifted_length_le (p : Parser) (input : List Lexeme) (n : Nat) :
    (p.shifted input n).length ≤ (p.shifted input (n + 1)).length := by
  rw [shifted, List.length_append]
  exact Nat.le_add_right _ _

/-- As long as not all common items are shifted, the parser does the same on both streams. -/
lemma exists_forked (hspares : p.SparesEnd) {common x : List Lexeme} (y : List Lexeme)
    (hafter : p.after (common ++ x) n = some (c, labels))
    (hless : (p.shifted (common ++ x) n).length < common.length) :
    ∃ c', Forked x y c c' ∧ p.Runs n (.start (common ++ y)) c' := by
  induction n generalizing c labels with
  | zero =>
    cases hafter
    exact ⟨.start (common ++ y), ⟨rfl, rfl, rfl, rfl, common, rfl, rfl⟩, .refl _ _⟩
  | succ n ih =>
    have hless₀ := Nat.lt_of_le_of_lt (shifted_length_le p _ n) hless
    rw [after] at hafter
    split at hafter
    · cases hafter
    · next c₀ labels₀ hafter₀ =>
      split at hafter
      · next c₁ token action hstep hexec =>
        cases hafter
        obtain ⟨c₀', hforked, hruns⟩ := ih hafter₀ hless₀
        have hmatches := step_forked_of_after hspares hafter₀ hless₀ hforked
        rw [hstep] at hmatches
        generalize hout : p.step c₀' = out at hmatches
        cases hmatches with
        | running hforked' => exact ⟨_, hforked', hruns.trans (runs_of_step hout)⟩
      · cases hafter

/-! ## Where a parse stops -/

lemma error_of_reduce {id : RuleId} (h : p.reduce c token id = .failed e) :
    (∃ id, e = .missingRule id) ∨ ∃ state s, e = .missingGoto state s := by
  rw [reduce] at h
  split at h
  · next e' hreduce =>
    cases h
    rw [reduceFrames] at hreduce
    split at hreduce
    · cases hreduce
      exact .inl ⟨_, rfl⟩
    · dsimp only at hreduce
      split at hreduce
      · cases hreduce
        exact .inr ⟨_, _, rfl⟩
      · cases hreduce
  · cases h

/-- A step fails for an error of the lexer, or for the token it looks at, or for want of a rule or
of a goto cell. -/
lemma error_of_step (hstep : p.step c = .failed e) :
    (∃ x, c.fetch = .error x ∧ e = .lexical x) ∨ ∃ token c₁, c.fetch = .ok (token, c₁) ∧
      ((∃ state, e = p.rejection state token) ∨ (∃ id, e = .missingRule id) ∨
        ∃ state s, e = .missingGoto state s) := by
  rw [step] at hstep
  split at hstep
  · next x hfetch =>
    cases hstep
    exact .inl ⟨x, hfetch, rfl⟩
  · next token c₁ hfetch =>
    refine .inr ⟨token, c₁, hfetch, ?_⟩
    split at hstep
    · cases hstep
      exact .inl ⟨_, rfl⟩
    · exact .inr (error_of_reduce hstep)
    · cases hstep
    · exact .inr (error_of_reduce hstep)
    · split at hstep
      · cases hstep
      · cases hstep
        exact .inl ⟨_, rfl⟩
    · cases hstep
      exact .inl ⟨_, rfl⟩

lemma runs_after (hafter : p.after input n = some (c, labels)) : p.Runs n (.start input) c := by
  induction n generalizing c labels with
  | zero =>
    cases hafter
    exact .refl _ _
  | succ n ih =>
    rw [after] at hafter
    split at hafter
    · cases hafter
    · next c₀ labels₀ hafter₀ =>
      split at hafter
      · next c₁ token action hstep hexec =>
        cases hafter
        exact (ih hafter₀).trans (runs_of_step hstep)
      · cases hafter

/-- What a failing step ends in is returned. -/
lemma returns_of_runs (hruns : p.Runs n (.start input) c) (hstep : p.step c = .failed e) :
    p.Returns input (.error e) := by
  refine ⟨fun heq => ?_, n + 1, by rw [hruns, run, hstep]⟩
  cases heq
  obtain ⟨x, -, hx⟩ | ⟨token, c₁, -, ⟨state, hx⟩ | ⟨id, hx⟩ | ⟨state, s, hx⟩⟩ :=
    error_of_step hstep <;> cases hx

lemma returns_error_iff (hspares : p.SparesEnd) :
    p.Returns input (.error e) ↔ ∃ k ≤ input.length, p.StopsAt input k e := by
  constructor
  · rintro ⟨hne, n, hrun⟩
    obtain ⟨m, c, labels, hafter, hstep⟩ :=
      exists_after_of_run_error hrun (n := 0) rfl fun heq => hne (congrArg _ heq)
    obtain ⟨rest, hinput, -⟩ := faces_after hspares hafter
    refine ⟨_, ?_, m, c, labels, hafter, hstep, rfl⟩
    have hlength := congrArg List.length hinput
    rw [List.length_append, List.length_map] at hlength
    omega
  · rintro ⟨k, -, n, c, labels, hafter, hstep, -⟩
    exact returns_of_runs (runs_after hafter) hstep

/-- The error is about the item ahead. -/
lemma about_of_step (hfaces : c.Faces rest) (hstep : p.step c = .failed e) :
    (∀ x, e = .lexical x → rest.head? = some (.error x)) ∧
      ∀ token tokenType expected, e = .unexpected token tokenType expected →
        rest.head? = some (.ok token) ∨ rest = [] ∧ token.symbol = SymbolId.eoi := by
  obtain ⟨x, hfetch, rfl⟩ | ⟨token, c₁, hfetch, he⟩ := error_of_step hstep
  · obtain ⟨x', rest', rfl, hfetch'⟩ | ⟨token, c₁, hfetch', -⟩ := faces_fetch hfaces
    · cases hfetch.symm.trans hfetch'
      exact ⟨fun x' heq => by rw [ParseError.lexical.inj heq]; rfl, nofun⟩
    · cases hfetch.symm.trans hfetch'
  · obtain ⟨x', rest', -, hfetch'⟩ | ⟨token', c₂, hfetch', -, hrest⟩ := faces_fetch hfaces
    · cases hfetch.symm.trans hfetch'
    cases hfetch.symm.trans hfetch'
    rcases he with ⟨state, rfl⟩ | ⟨id, rfl⟩ | ⟨state, s, rfl⟩
    · refine ⟨nofun, fun _ _ _ heq => ?_⟩
      obtain ⟨rfl, -, -⟩ := ParseError.unexpected.inj heq
      rcases hrest with rfl | ⟨hnil, -, heoi⟩
      · exact .inl rfl
      · exact .inr ⟨hnil, heoi⟩
    · exact ⟨nofun, nofun⟩
    · exact ⟨nofun, nofun⟩

lemma about_of_stopsAt (hspares : p.SparesEnd) (h : p.StopsAt input k e) :
    (∀ x, e = .lexical x → input[k]? = some (.error x)) ∧
      ∀ token tokenType expected, e = .unexpected token tokenType expected →
        input[k]? = some (.ok token) ∨ k = input.length ∧ token.symbol = SymbolId.eoi := by
  obtain ⟨n, c, labels, hafter, hstep, rfl⟩ := h
  obtain ⟨rest, hinput, hfaces⟩ := faces_after hspares hafter
  obtain ⟨hlexical, hunexpected⟩ := about_of_step hfaces hstep
  generalize p.shifted input n = tokens at hinput
  subst hinput
  have hget : (tokens.map .ok ++ rest : List Lexeme)[tokens.length]? = rest.head? := by
    rw [List.getElem?_append_right (List.length_map _).le, List.length_map, Nat.sub_self,
      List.head?_eq_getElem?]
  refine ⟨fun x hx => hget.trans (hlexical x hx), fun token tokenType expected he => ?_⟩
  refine (hunexpected token tokenType expected he).imp hget.trans fun ⟨hnil, heoi⟩ => ⟨?_, heoi⟩
  rw [hnil, List.append_nil, List.length_map]

/-- The items up to the one the error is about decide that it is returned. -/
lemma returns_of_stopsAt (hspares : p.SparesEnd) (h : p.StopsAt input k e) (hk : k < input.length)
    {input' : List Lexeme} (htake : input'.take (k + 1) = input.take (k + 1)) :
    p.Returns input' (.error e) := by
  obtain ⟨n, c, labels, hafter, hstep, rfl⟩ := h
  have hsplit := List.take_append_drop ((p.shifted input n).length + 1) input
  have hsplit' := List.take_append_drop ((p.shifted input n).length + 1) input'
  rw [htake] at hsplit'
  have hless : (p.shifted input n).length <
      (input.take ((p.shifted input n).length + 1)).length := by
    rw [List.length_take]
    omega
  generalize hx : input.drop ((p.shifted input n).length + 1) = x at hsplit
  generalize input'.drop ((p.shifted input n).length + 1) = y at hsplit'
  generalize input.take ((p.shifted input n).length + 1) = common at hsplit hsplit' hless
  subst hsplit hsplit'
  obtain ⟨c', hforked, hruns⟩ := exists_forked hspares y hafter hless
  have hmatches := step_forked_of_after hspares hafter hless hforked
  rw [hstep] at hmatches
  generalize hout : p.step c' = out at hmatches
  cases hmatches
  exact returns_of_runs hruns hout

lemma returns_lexical_iff (hspares : p.SparesEnd) {x : LexicalError} :
    p.Returns input (.error (.lexical x)) ↔
      ∃ tokens rest n, input = tokens.map .ok ++ .error x :: rest ∧
        p.shifted input n = tokens ∧ (p.after input n).isSome := by
  constructor
  · intro hreturns
    obtain ⟨k, -, n, c, labels, hafter, hstep, -⟩ := (returns_error_iff hspares).mp hreturns
    obtain ⟨rest, hinput, hfaces⟩ := faces_after hspares hafter
    have hhead := (about_of_step hfaces hstep).1 x rfl
    obtain ⟨rest', rfl⟩ := List.head?_eq_some_iff.mp hhead
    exact ⟨_, rest', n, hinput, rfl, by rw [hafter]; rfl⟩
  · rintro ⟨tokens, rest, n, hinput, rfl, hsome⟩
    obtain ⟨⟨c, labels⟩, hafter⟩ := Option.isSome_iff_exists.mp hsome
    obtain ⟨rest', hinput', hfaces⟩ := faces_after hspares hafter
    obtain rfl := List.append_cancel_left (hinput.symm.trans hinput')
    refine returns_of_runs (runs_after hafter) (e := .lexical x) ?_
    obtain ⟨x', rest₁, heq, hfetch⟩ | ⟨token, c₁, -, -, heq | ⟨heq, -⟩⟩ := faces_fetch hfaces
    · cases heq
      simp only [step, hfetch]
    · cases heq
    · cases heq

/-! ## Parsers with their own table -/

/-- Where no clause mentions the end of input, no cell of the table shifts it. -/
lemma sparesEnd_of_own_table (hg : p.grammar.Valid) (hp : p.grammar.table = .ok p.table)
    (heoi : ∀ r ∈ p.grammar.rules, SymbolId.eoi ∉ r.clause) : p.SparesEnd := by
  intro c token dest hexec hsymbol
  obtain ⟨target, htarget, htable⟩ := Grammar.table_eq_ok hp
  obtain ⟨s, ha, hs⟩ := action_of_executed hexec
  obtain rfl := hs.resolve_right (by simp)
  rw [htable, Automaton.action?_table, Option.bind_eq_some_iff] at ha
  obtain ⟨st, -, ha⟩ := ha
  rw [Option.join_eq_some_iff] at ha
  have hcalls := (Row.called_of_action ha).resolve_left (by simp)
  obtain ⟨r, hr, hmem⟩ := hg.mem_clause_of_calls htarget hcalls
  exact heoi r hr (hsymbol ▸ hmem)

/-- The parser of a grammar in which no clause mentions the end of input reads its stream once, in
order and with one token of lookahead: items behind the one that an error is about have no say in
it, errors of the lexer are returned as they are as soon as the tokens before them are shifted, and
whether the stream ends with a token for the end of input, or just ends, is the same. -/
theorem readsOnce_of_own_table (hg : p.grammar.Valid) (hp : p.grammar.table = .ok p.table)
    (heoi : ∀ r ∈ p.grammar.rules, SymbolId.eoi ∉ r.clause) : p.ReadsOnce := by
  have hspares := sparesEnd_of_own_table hg hp heoi
  exact
    { in_order := fun input n c labels => faces_after hspares
      ending := fun input line column more hends result => by
        simp only [Returns, run_closed hspares hends more]
      ending_parse := fun input line column more hends => parse_closed hspares hends more
      stops := fun input e => returns_error_iff hspares
      about := fun input k e => about_of_stopsAt hspares
      decided := fun input k e hstops hk input' => returns_of_stopsAt hspares hstops hk
      lexical := fun input x => returns_lexical_iff hspares }

/-- The parser of `S → ( S )` and `S → x` returns the tree of `x` whatever stands behind a token for
the end of input, and an error of the lexer as soon as the parenthesis before it is shifted. -/
theorem readsOnce_nested : nested.grammar.Valid ∧ nested.grammar.table = .ok nested.table ∧
    (∀ r ∈ nested.grammar.rules, SymbolId.eoi ∉ r.clause) ∧
    (∀ more, nested.Returns (.ok ⟨5, "x", 2, 7⟩ :: .ok ⟨0, "", 2, 8⟩ :: more)
      (.ok (.node 1 2 [.leaf ⟨5, "x", 2, 7⟩]))) ∧
    ∀ rest, nested.Returns (.ok ⟨3, "(", 1, 1⟩ :: .error ⟨"unexpected", 1, 2⟩ :: rest)
      (.error (.lexical ⟨"unexpected", 1, 2⟩)) := by
  have heoi : ∀ r ∈ nested.grammar.rules, SymbolId.eoi ∉ r.clause := by decide
  have honce := readsOnce_of_own_table Grammar.valid_nested rfl heoi
  refine ⟨Grammar.valid_nested, rfl, heoi, fun more => ?_, fun rest => ?_⟩
  · refine (honce.ending [.ok ⟨5, "x", 2, 7⟩] 2 8 more ⟨rfl, rfl, by decide⟩ _).mpr ?_
    exact ⟨by simp, 3, rfl⟩
  · exact (honce.lexical _ _).mpr ⟨[⟨3, "(", 1, 1⟩], rest, 1, rfl, rfl, rfl⟩

end Parser

end ShiftReduce
