import ShiftReduce.Proofs.Table.Offers
import Mathlib.Data.List.Induction
import Mathlib.Data.List.Perm.Basic
/-!
# Cells in dispute

The candidates for a cell are offered one after another, and each is settled with what the ones
before it have left. What is left in the end may depend on their order: a reduction that loses
against shifting is gone when a lower rule has replaced it before the shift comes, a tie left at
`fail` is not undone by anything, and a reduction that wins against shifting does so only if it
meets the shift.

The levels and the arbitrations give a verdict on each reduction that meets the shift. The order
has no say if and only if the verdicts on the candidates go together: next to accepting none is a
tie, and otherwise they all agree with the verdict on the lowest rule, as far as they could replace
it. Then the cell is left at what precedence, arbitration and the lowest rule decide.

Main statements: `Row.put_order_iff` and `Grammar.Builds.action?_eq_decision`.
-/

namespace ShiftReduce

/-! ## Candidates -/

/-- The state that is shifted to. -/
def Action.dest? : Action → Option StateId
  | .shift dest => some dest
  | _ => none

/-- The rule that is reduced by. -/
def Action.rule? : Action → Option RuleId
  | .reduce rule => some rule
  | _ => none

/-- Actions that may be offered to one cell: none of them is `fail`, and there is one state to shift
to at most. -/
structure Candidates (l : List Action) : Prop where
  fail_notMem : .fail ∉ l
  dest_unique : ∀ dest dest', .shift dest ∈ l → .shift dest' ∈ l → dest = dest'

/-- The state to shift to. -/
def shiftsTo (l : List Action) : Option StateId := (l.filterMap Action.dest?).head?

/-- The lowest rule to reduce by. -/
def lowest (l : List Action) : Option RuleId := (l.filterMap Action.rule?).min?

variable {l l' : List Action} {dest : StateId} {m r : RuleId} {a : Action}

lemma Action.dest?_eq_some_iff : a.dest? = some dest ↔ a = .shift dest := by
  cases a <;> simp [dest?]

lemma Action.rule?_eq_some_iff : a.rule? = some r ↔ a = .reduce r := by
  cases a <;> simp [rule?]

lemma mem_filterMap_rule? : r ∈ l.filterMap Action.rule? ↔ .reduce r ∈ l := by
  simp [List.mem_filterMap, Action.rule?_eq_some_iff]

lemma lowest_eq_some_iff : lowest l = some m ↔ .reduce m ∈ l ∧ ∀ r, .reduce r ∈ l → m ≤ r := by
  rw [lowest, List.min?_eq_some_iff]
  simp only [mem_filterMap_rule?]

lemma lowest_eq_none_iff : lowest l = none ↔ ∀ r, .reduce r ∉ l := by
  rw [lowest, List.min?_eq_none_iff, List.eq_nil_iff_forall_not_mem]
  simp only [mem_filterMap_rule?]

lemma shiftsTo_eq_none_iff : shiftsTo l = none ↔ ∀ dest, .shift dest ∉ l := by
  rw [shiftsTo, List.head?_eq_none_iff, List.eq_nil_iff_forall_not_mem]
  simp only [List.mem_filterMap, Action.dest?_eq_some_iff, exists_eq_right]

lemma shift_mem_of_shiftsTo (h : shiftsTo l = some dest) : .shift dest ∈ l := by
  obtain ⟨a, ha, hdest⟩ := List.mem_filterMap.mp (List.mem_of_head? h)
  exact Action.dest?_eq_some_iff.mp hdest ▸ ha

namespace Candidates

lemma mono (h : Candidates l) (hsub : ∀ a ∈ l', a ∈ l) : Candidates l' :=
  ⟨fun hmem => h.fail_notMem (hsub _ hmem), fun dest dest' hdest hdest' =>
    h.dest_unique dest dest' (hsub _ hdest) (hsub _ hdest')⟩

lemma perm (h : Candidates l) (hperm : l'.Perm l) : Candidates l' :=
  h.mono fun _ => hperm.mem_iff.mp

lemma shiftsTo_eq_some_iff (h : Candidates l) : shiftsTo l = some dest ↔ .shift dest ∈ l := by
  refine ⟨shift_mem_of_shiftsTo, fun hdest => ?_⟩
  cases hshift : shiftsTo l with
  | none => exact absurd hdest (shiftsTo_eq_none_iff.mp hshift dest)
  | some dest' => rw [h.dest_unique dest' dest (shift_mem_of_shiftsTo hshift) hdest]

/-- Where nothing is shifted and nothing accepted, there are reductions only. -/
lemma reductions (h : Candidates l) (haccept : .accept ∉ l) (hshift : ∀ dest, .shift dest ∉ l) :
    ∀ a ∈ l, ∃ r, a = .reduce r := by
  intro a ha
  cases a with
  | shift dest => exact absurd ha (hshift dest)
  | reduce r => exact ⟨r, rfl⟩
  | accept => exact absurd ha haccept
  | fail => exact absurd ha h.fail_notMem

end Candidates

namespace Grammar

variable {g : Grammar} {c : SymbolId} {cell : Option Action}

/-! ## Verdicts -/

/-- Who wins where shifting a lookahead meets reducing by a rule. -/
def verdict (g : Grammar) (lookahead : SymbolId) (rule : RuleId) : Arbitration :=
  let level := (g.rule? rule).map Rule.level |>.getD 0
  if g.level lookahead > level then .shift
  else if level > g.level lookahead then .reduce
  else (g.rule? rule).map Rule.arbitration |>.getD .shift

/-- Does the verdict on a rule fit the verdict on a lower one, so that the rule changes nothing
wherever it is met? -/
def Fits : Arbitration → Arbitration → Prop
  | .shift, v => v = .shift
  | .reduce, v => v ≠ .fail
  | .fail, v => v ≠ .reduce

lemma fits_self (v : Arbitration) : Fits v v := by
  cases v <;> simp [Fits]

lemma arbitrate_eq_verdict (g : Grammar) (c : SymbolId) (dest : StateId) (r : RuleId) :
    g.arbitrate c dest r = match g.verdict c r with
      | .shift => .shift dest
      | .reduce => .reduce r
      | .fail => .fail := by
  simp only [arbitrate, verdict]
  split
  · rfl
  · split <;> rfl

/-- If candidates meet a shift, the verdicts on them fit each other: next to accepting no rule ties,
and otherwise all rules fit the lowest one. -/
def Undisputed (g : Grammar) (c : SymbolId) (l : List Action) : Prop :=
  ∀ dest r, .shift dest ∈ l → .reduce r ∈ l →
    if .accept ∈ l then g.verdict c r ≠ .fail
    else ∀ m, lowest l = some m → Fits (g.verdict c m) (g.verdict c r)

/-- What candidates are decided to leave: to accept if this is offered, and else what arbitration
makes of the shift and the lowest rule. -/
def decision (g : Grammar) (c : SymbolId) (l : List Action) : Option Action :=
  if .accept ∈ l then some .accept
  else match shiftsTo l, lowest l with
    | none, none => none
    | some dest, none => some (.shift dest)
    | none, some m => some (.reduce m)
    | some dest, some m => some (g.arbitrate c dest m)

/-! ## One offer -/

lemma offer_shift_reduce (g : Grammar) (c : SymbolId) (dest : StateId) (r : RuleId) :
    g.offer c (some (.shift dest)) (.reduce r) = some (g.arbitrate c dest r) := by
  simp [offer, clashes, settle]

lemma offer_reduce_shift (g : Grammar) (c : SymbolId) (dest : StateId) (r : RuleId) :
    g.offer c (some (.reduce r)) (.shift dest) = some (g.arbitrate c dest r) := by
  simp [offer, clashes, settle]

lemma offer_reduce_reduce (g : Grammar) (c : SymbolId) (r r' : RuleId) :
    g.offer c (some (.reduce r)) (.reduce r') = some (.reduce (min r r')) := by
  by_cases h : r = r' <;> simp [offer, clashes, settle, h]

lemma offer_accept_left (g : Grammar) (c : SymbolId) (a : Action) :
    g.offer c (some .accept) a = some .accept := by
  cases a <;> simp [offer, clashes, settle]

lemma offer_fail_left (g : Grammar) (c : SymbolId) (a : Action) :
    g.offer c (some .fail) a = some .fail := by
  simp [offer, clashes]

/-- Accepting replaces everything but a tie. -/
lemma offer_accept (h : cell ≠ some .fail) : g.offer c cell .accept = some .accept := by
  cases cell with
  | none => rfl
  | some existing => cases existing <;> simp_all [offer, clashes, settle]

/-! ## Offers in order -/

/-- What is left of an empty cell after the candidates were offered to it in order. -/
def outcome (g : Grammar) (c : SymbolId) (l : List Action) : Option Action :=
  l.foldl (g.offer c) none

lemma outcome_concat (g : Grammar) (c : SymbolId) (l : List Action) (a : Action) :
    g.outcome c (l ++ [a]) = g.offer c (g.outcome c l) a := by
  rw [outcome, List.foldl_append]
  rfl

/-- A candidate is left, or a tie. -/
lemma mem_of_outcome (h : g.outcome c l = some a) : a ∈ l ∨ a = .fail := by
  induction l using List.reverseRecOn generalizing a with
  | nil => cases h
  | append_singleton l incoming ih =>
    rw [outcome_concat] at h
    rcases offer_mem h with h | rfl | rfl
    · exact (ih h).imp_left fun hmem => List.mem_append_left _ hmem
    · exact .inl (by simp)
    · exact .inr rfl

lemma foldl_offer_fail (g : Grammar) (c : SymbolId) (l : List Action) :
    l.foldl (g.offer c) (some .fail) = some .fail := by
  induction l with
  | nil => rfl
  | cons a l ih => rw [List.foldl_cons, offer_fail_left, ih]

lemma foldl_offer_of_accepted (g : Grammar) (c : SymbolId) (l : List Action) :
    l.foldl (g.offer c) (some .accept) = some .accept := by
  induction l with
  | nil => rfl
  | cons a l ih => rw [List.foldl_cons, offer_accept_left, ih]

/-- Among reductions the lowest rule is left. -/
lemma foldl_offer_reduce (h : ∀ a ∈ l, ∃ r, a = .reduce r) (hm : lowest (.reduce r :: l) = some m) :
    l.foldl (g.offer c) (some (.reduce r)) = some (.reduce m) := by
  rw [lowest_eq_some_iff] at hm
  obtain ⟨hmem, hle⟩ := hm
  induction l generalizing r with
  | nil =>
    obtain rfl : m = r := by simpa using hmem
    rfl
  | cons a l ih =>
    obtain ⟨⟨r', rfl⟩, hrest⟩ := List.forall_mem_cons.mp h
    rw [List.foldl_cons, offer_reduce_reduce]
    have hr := hle r (by simp)
    have hr' := hle r' (by simp)
    refine ih hrest ?_ fun s hs => ?_
    · simp only [List.mem_cons, Action.reduce.injEq] at hmem ⊢
      rcases hmem with rfl | rfl | hmem
      · exact .inl (Nat.min_eq_left hr').symm
      · exact .inl (Nat.min_eq_right hr).symm
      · exact .inr hmem
    · rcases List.mem_cons.mp hs with hs | hs
      · rw [Action.reduce.inj hs]
        exact Nat.le_min.mpr ⟨hr, hr'⟩
      · exact hle s (by simp [hs])

lemma outcome_of_reductions (h : ∀ a ∈ l, ∃ r, a = .reduce r) (hm : lowest l = some m) :
    g.outcome c l = some (.reduce m) := by
  cases l with
  | nil => cases hm
  | cons a l =>
    obtain ⟨⟨r, rfl⟩, hrest⟩ := List.forall_mem_cons.mp h
    exact foldl_offer_reduce hrest hm

/-- Reductions alone leave the lowest of them. -/
lemma outcome_of_no_shift (hl : Candidates l) (haccept : .accept ∉ l)
    (hshift : ∀ dest, .shift dest ∉ l) : g.outcome c l = (lowest l).map .reduce := by
  have hreductions := hl.reductions haccept hshift
  cases hm : lowest l with
  | some m => exact outcome_of_reductions hreductions hm
  | none =>
    have hnil : l = [] := by
      refine List.eq_nil_iff_forall_not_mem.mpr fun a ha => ?_
      obtain ⟨r, rfl⟩ := hreductions a ha
      exact lowest_eq_none_iff.mp hm r ha
    rw [hnil]
    rfl

/-! ## Candidates without dispute -/

lemma arbitrate_eq_fail_iff : g.arbitrate c dest r = .fail ↔ g.verdict c r = .fail := by
  rw [arbitrate_eq_verdict]
  cases g.verdict c r <;> simp

lemma arbitrate_eq_reduce_iff : g.arbitrate c dest r = .reduce m ↔
    g.verdict c r = .reduce ∧ r = m := by
  rw [arbitrate_eq_verdict]
  cases g.verdict c r <;> simp

lemma arbitrate_eq_shift_iff : g.arbitrate c dest r = .shift dest ↔ g.verdict c r = .shift := by
  rw [arbitrate_eq_verdict]
  cases g.verdict c r <;> simp

/-- A tie comes from a verdict. -/
lemma offer_ne_fail (hcell : cell ≠ some .fail) (ha : a ≠ .fail)
    (hv : ∀ dest r, cell = some (.shift dest) ∧ a = .reduce r ∨
      cell = some (.reduce r) ∧ a = .shift dest → g.verdict c r ≠ .fail) :
    g.offer c cell a ≠ some .fail := by
  cases cell with
  | none => simpa [offer] using ha
  | some existing =>
    cases existing with
    | fail => exact absurd rfl hcell
    | accept => simp [offer_accept_left]
    | shift dest =>
      cases a with
      | reduce r =>
        rw [offer_shift_reduce, ne_eq, Option.some.injEq, arbitrate_eq_fail_iff]
        exact hv dest r (.inl ⟨rfl, rfl⟩)
      | shift _ | accept => simp [offer, clashes, settle]
      | fail => exact absurd rfl ha
    | reduce r =>
      cases a with
      | shift dest =>
        rw [offer_reduce_shift, ne_eq, Option.some.injEq, arbitrate_eq_fail_iff]
        exact hv dest r (.inr ⟨rfl, rfl⟩)
      | reduce _ => simp [offer_reduce_reduce]
      | accept => simp [offer, clashes, settle]
      | fail => exact absurd rfl ha

/-- Without a tie no cell is left at `fail`, and accepting wins. -/
lemma outcome_of_no_tie (hl : Candidates l)
    (hv : ∀ dest r, .shift dest ∈ l → .reduce r ∈ l → g.verdict c r ≠ .fail) :
    g.outcome c l ≠ some .fail ∧ (.accept ∈ l → g.outcome c l = some .accept) := by
  induction l using List.reverseRecOn with
  | nil => simp [outcome]
  | append_singleton l a ih =>
    have hsub : ∀ b ∈ l, b ∈ l ++ [a] := fun b => List.mem_append_left _
    have ha : a ∈ l ++ [a] := by simp
    obtain ⟨hfail, haccept⟩ := ih (hl.mono hsub) fun dest r hdest hr =>
      hv dest r (hsub _ hdest) (hsub _ hr)
    rw [outcome_concat]
    constructor
    · refine offer_ne_fail hfail (fun h => hl.fail_notMem (h ▸ ha)) ?_
      rintro dest r (⟨hcell, rfl⟩ | ⟨hcell, rfl⟩)
      · have hmem := (mem_of_outcome hcell).resolve_right (by simp)
        exact hv dest r (hsub _ hmem) ha
      · have hmem := (mem_of_outcome hcell).resolve_right (by simp)
        exact hv dest r ha (hsub _ hmem)
    · intro hmem
      rcases List.mem_append.mp hmem with hmem | hmem
      · rw [haccept hmem, offer_accept_left]
      · rw [← List.mem_singleton.mp hmem]
        exact offer_accept hfail

/-- If no reduction wins, the shift is left, or a tie. -/
lemma outcome_of_no_win (hl : Candidates l) (haccept : .accept ∉ l)
    (hv : ∀ r, .reduce r ∈ l → g.verdict c r ≠ .reduce) (hdest : .shift dest ∈ l) :
    g.outcome c l = some (.shift dest) ∨ g.outcome c l = some .fail := by
  have harbitrate : ∀ r, .reduce r ∈ l → some (g.arbitrate c dest r) = some (.shift dest) ∨
      some (g.arbitrate c dest r) = some .fail := by
    intro r hr
    have := hv r hr
    rw [arbitrate_eq_verdict]
    cases hverdict : g.verdict c r <;> simp_all
  induction l using List.reverseRecOn with
  | nil => cases hdest
  | append_singleton l a ih =>
    have hsub : ∀ b ∈ l, b ∈ l ++ [a] := fun b => List.mem_append_left _
    have ha : a ∈ l ++ [a] := by simp
    rw [outcome_concat]
    by_cases hmem : .shift dest ∈ l
    · rcases ih (hl.mono hsub) (fun h => haccept (hsub _ h)) (fun r hr => hv r (hsub _ hr)) hmem
        (fun r hr => harbitrate r (hsub _ hr)) with hcell | hcell
      · rw [hcell]
        cases a with
        | shift dest' =>
          rw [hl.dest_unique dest' dest ha (hsub _ hmem), offer_self]
          exact .inl rfl
        | reduce r =>
          rw [offer_shift_reduce]
          exact harbitrate r ha
        | accept => exact absurd ha haccept
        | fail => exact absurd ha hl.fail_notMem
      · rw [hcell, offer_fail_left]
        exact .inr rfl
    · -- the shift comes last, and meets the lowest rule if any
      obtain rfl : .shift dest = a := by simpa [hmem] using hdest
      have hshift : ∀ dest', .shift dest' ∉ l := fun dest' h =>
        hmem (hl.dest_unique dest' dest (hsub _ h) ha ▸ h)
      rw [outcome_of_no_shift (hl.mono hsub) (fun h => haccept (hsub _ h)) hshift]
      cases hm : lowest l with
      | none => exact .inl rfl
      | some m =>
        rw [Option.map_some, offer_reduce_shift]
        exact harbitrate m (hsub _ (lowest_eq_some_iff.mp hm).1)

/-- If the lowest rule wins and none ties, it is left. -/
lemma outcome_of_win (hl : Candidates l) (haccept : .accept ∉ l)
    (hv : ∀ r, .reduce r ∈ l → g.verdict c r ≠ .fail) (hwin : g.verdict c m = .reduce)
    (hle : ∀ r, .reduce r ∈ l → m ≤ r) (hm : .reduce m ∈ l) :
    g.outcome c l = some (.reduce m) := by
  have harbitrate : ∀ dest, g.arbitrate c dest m = .reduce m := fun dest =>
    arbitrate_eq_reduce_iff.mpr ⟨hwin, rfl⟩
  induction l using List.reverseRecOn with
  | nil => cases hm
  | append_singleton l a ih =>
    have hsub : ∀ b ∈ l, b ∈ l ++ [a] := fun b => List.mem_append_left _
    have ha : a ∈ l ++ [a] := by simp
    have hcandidates := hl.mono hsub
    rw [outcome_concat]
    by_cases hmem : .reduce m ∈ l
    · rw [ih hcandidates (fun h => haccept (hsub _ h)) (fun r hr => hv r (hsub _ hr))
        (fun r hr => hle r (hsub _ hr)) hmem]
      cases a with
      | shift dest => rw [offer_reduce_shift, harbitrate]
      | reduce r => rw [offer_reduce_reduce, Nat.min_eq_left (hle r ha)]
      | accept => exact absurd ha haccept
      | fail => exact absurd ha hl.fail_notMem
    · -- the lowest rule comes last, and wins against whatever is in the cell
      obtain rfl : .reduce m = a := by simpa [hmem] using hm
      cases hcell : g.outcome c l with
      | none => rfl
      | some b =>
        have hb : b ∈ l ∨ b = .fail := mem_of_outcome hcell
        cases b with
        | shift dest => rw [offer_shift_reduce, harbitrate]
        | reduce r =>
          rw [offer_reduce_reduce, Nat.min_eq_right (hle r (hsub _ (by simpa using hb)))]
        | accept => exact absurd (hsub _ (by simpa using hb)) haccept
        | fail =>
          exact absurd hcell (outcome_of_no_tie hcandidates fun _ r _ hr => hv r (hsub _ hr)).1

/-- If the lowest rule ties and none wins, a tie is left. -/
lemma outcome_of_tie (hl : Candidates l) (haccept : .accept ∉ l)
    (hv : ∀ r, .reduce r ∈ l → g.verdict c r ≠ .reduce) (htie : g.verdict c m = .fail)
    (hle : ∀ r, .reduce r ∈ l → m ≤ r) (hm : .reduce m ∈ l) (hdest : .shift dest ∈ l) :
    g.outcome c l = some .fail := by
  have harbitrate : g.arbitrate c dest m = .fail := arbitrate_eq_fail_iff.mpr htie
  induction l using List.reverseRecOn with
  | nil => cases hm
  | append_singleton l a ih =>
    have hsub : ∀ b ∈ l, b ∈ l ++ [a] := fun b => List.mem_append_left _
    have ha : a ∈ l ++ [a] := by simp
    have hcandidates := hl.mono hsub
    have haccept' : .accept ∉ l := fun h => haccept (hsub _ h)
    have hv' := fun r hr => hv r (hsub _ hr)
    have hle' := fun r hr => hle r (hsub _ hr)
    rw [outcome_concat]
    by_cases hshift : .shift dest ∈ l
    · by_cases hmem : .reduce m ∈ l
      · rw [ih hcandidates haccept' hv' hle' hmem hshift, offer_fail_left]
      · obtain rfl : .reduce m = a := by simpa [hmem] using hm
        rcases outcome_of_no_win hcandidates haccept' hv' hshift with hcell | hcell
        · rw [hcell, offer_shift_reduce, harbitrate]
        · rw [hcell, offer_fail_left]
    · obtain rfl : .shift dest = a := by simpa [hshift] using hdest
      have hnone : ∀ dest', .shift dest' ∉ l := fun dest' h =>
        hshift (hl.dest_unique dest' dest (hsub _ h) ha ▸ h)
      have hlowest : lowest l = some m :=
        lowest_eq_some_iff.mpr ⟨by simpa using hm, hle'⟩
      rw [outcome_of_no_shift hcandidates haccept' hnone, hlowest, Option.map_some,
        offer_reduce_shift, harbitrate]

/-- Without dispute the cell is left at what is decided. -/
lemma outcome_eq_decision (hl : Candidates l) (h : g.Undisputed c l) :
    g.outcome c l = g.decision c l := by
  rw [decision]
  split
  · next haccept =>
    refine (outcome_of_no_tie hl fun dest r hdest hr => ?_).2 haccept
    simpa [haccept] using h dest r hdest hr
  next haccept =>
  cases hshift : shiftsTo l with
  | none =>
    rw [outcome_of_no_shift hl haccept (shiftsTo_eq_none_iff.mp hshift)]
    cases lowest l <;> rfl
  | some dest =>
    have hdest := hl.shiftsTo_eq_some_iff.mp hshift
    cases hm : lowest l with
    | none =>
      refine foldl_offer_of_one (fun a ha => ?_) (List.ne_nil_of_mem hdest)
      cases a with
      | shift dest' => rw [hl.dest_unique dest' dest ha hdest]
      | reduce r => exact absurd ha (lowest_eq_none_iff.mp hm r)
      | accept => exact absurd ha haccept
      | fail => exact absurd ha hl.fail_notMem
    | some m =>
      have hfits : ∀ r, .reduce r ∈ l → Fits (g.verdict c m) (g.verdict c r) := fun r hr =>
        by simpa [haccept, hm] using h dest r hdest hr
      obtain ⟨hmem, hle⟩ := lowest_eq_some_iff.mp hm
      dsimp only
      cases hverdict : g.verdict c m with
      | shift =>
        have hlose : ∀ r, .reduce r ∈ l → g.verdict c r = .shift := fun r hr => by
          simpa [hverdict, Fits] using hfits r hr
        rw [arbitrate_eq_shift_iff.mpr hverdict]
        refine (outcome_of_no_win hl haccept (fun r hr => by simp [hlose r hr])
          hdest).resolve_right ?_
        exact (outcome_of_no_tie hl fun _ r _ hr => by simp [hlose r hr]).1
      | reduce =>
        rw [arbitrate_eq_reduce_iff.mpr ⟨hverdict, rfl⟩]
        exact outcome_of_win hl haccept
          (fun r hr => by simpa [hverdict, Fits] using hfits r hr) hverdict hle hmem
      | fail =>
        rw [arbitrate_eq_fail_iff.mpr hverdict]
        exact outcome_of_tie hl haccept
          (fun r hr => by simpa [hverdict, Fits] using hfits r hr) hverdict hle hmem hdest

/-! ## Orders that tell candidates in dispute apart -/

/-- The candidates for shifting, and the others. -/
lemma exists_split (hl : Candidates l) (haccept : .accept ∉ l) (hdest : .shift dest ∈ l) :
    ∃ shifts reductions : List Action, (shifts ++ reductions).Perm l ∧ shifts ≠ [] ∧
      (∀ a ∈ shifts, a = .shift dest) ∧ ∀ a ∈ reductions, ∃ r, a = .reduce r := by
  refine ⟨l.filter fun a => a.dest?.isSome, l.filter fun a => !a.dest?.isSome,
    List.filter_append_perm _ l, ?_, ?_, ?_⟩
  · exact List.ne_nil_of_mem (List.mem_filter.mpr ⟨hdest, rfl⟩)
  · intro a ha
    obtain ⟨hmem, hsome⟩ := List.mem_filter.mp ha
    obtain ⟨dest', hdest'⟩ := Option.isSome_iff_exists.mp hsome
    rw [Action.dest?_eq_some_iff] at hdest'
    rw [hdest', hl.dest_unique dest' dest (hdest' ▸ hmem) hdest]
  · intro a ha
    obtain ⟨hmem, hnone⟩ := List.mem_filter.mp ha
    cases a with
    | shift _ => simp [Action.dest?] at hnone
    | reduce r => exact ⟨r, rfl⟩
    | accept => exact absurd hmem haccept
    | fail => exact absurd hmem hl.fail_notMem

/-- If accepting and a tie are among the candidates, either may come first. -/
lemma undisputed_of_accept (haccept : .accept ∈ l) (hdest : .shift dest ∈ l)
    (hr : .reduce r ∈ l) (h : ∀ l', l'.Perm l → g.outcome c l' = g.outcome c l) :
    g.verdict c r ≠ .fail := by
  intro htie
  have hfirst := h _ (List.perm_cons_erase haccept).symm
  have hr' : .reduce r ∈ l.erase (.shift dest) := (List.mem_erase_of_ne (by simp)).mpr hr
  have htied := h _ (((List.perm_cons_erase hr').symm.cons _).trans
    (List.perm_cons_erase hdest).symm)
  rw [outcome, List.foldl_cons, offer, foldl_offer_of_accepted] at hfirst
  rw [outcome, List.foldl_cons, List.foldl_cons, offer, offer_shift_reduce,
    arbitrate_eq_fail_iff.mpr htie, foldl_offer_fail, ← hfirst] at htied
  cases htied

/-- If a rule does not fit the lowest one, it tells whether the reductions come before the shifts
or behind them, the rule first. -/
lemma fits_of_order (hl : Candidates l) (haccept : .accept ∉ l) (hdest : .shift dest ∈ l)
    (hr : .reduce r ∈ l) (hm : lowest l = some m)
    (h : ∀ l', l'.Perm l → g.outcome c l' = g.outcome c l) :
    Fits (g.verdict c m) (g.verdict c r) := by
  obtain ⟨shifts, reductions, hperm, hne, hshifts, hreductions⟩ := exists_split hl haccept hdest
  have hmem : ∀ r, .reduce r ∈ reductions ↔ .reduce r ∈ l := by
    intro r
    rw [← hperm.mem_iff, List.mem_append, or_iff_right fun h => by cases hshifts _ h]
  obtain ⟨hm, hle⟩ := lowest_eq_some_iff.mp hm
  have hlowest : lowest reductions = some m :=
    lowest_eq_some_iff.mpr ⟨(hmem m).mpr hm, fun r hr => hle r ((hmem r).mp hr)⟩
  have hbefore : g.outcome c (reductions ++ shifts) = some (g.arbitrate c dest m) := by
    obtain ⟨a, shifts, rfl⟩ := List.exists_cons_of_ne_nil hne
    obtain ⟨rfl, hrest⟩ := List.forall_mem_cons.mp hshifts
    rw [outcome, List.foldl_append, List.foldl_cons, ← outcome,
      outcome_of_reductions hreductions hlowest, offer_reduce_shift]
    exact foldl_offer_arbitrate fun a ha => .inl (hrest a ha)
  have hr' := (hmem r).mpr hr
  have hbehind : g.outcome c (shifts ++ .reduce r :: reductions.erase (.reduce r)) =
      (reductions.erase (.reduce r)).foldl (g.offer c) (some (g.arbitrate c dest r)) := by
    rw [outcome, List.foldl_append, foldl_offer_of_one hshifts hne, List.foldl_cons,
      offer_shift_reduce]
  have hsame := (h _ (List.perm_append_comm.trans hperm)).trans
    (h _ (((List.perm_cons_erase hr').symm.append_left shifts).trans hperm)).symm
  rw [hbefore, hbehind] at hsame
  cases hverdict : g.verdict c r with
  | shift => cases g.verdict c m <;> simp [Fits]
  | reduce =>
    -- the rule wins, and the lowest one replaces it
    have hreduce : (reductions.erase (.reduce r)).foldl (g.offer c) (some (.reduce r)) =
        some (.reduce m) := by
      refine foldl_offer_reduce (fun a ha => hreductions a (List.mem_of_mem_erase ha)) ?_
      rw [lowest_eq_some_iff] at hlowest ⊢
      simpa only [(List.perm_cons_erase hr').mem_iff] using hlowest
    rw [arbitrate_eq_reduce_iff.mpr ⟨hverdict, rfl⟩, hreduce, Option.some.injEq,
      arbitrate_eq_reduce_iff] at hsame
    rw [hsame.1]
    exact fits_self _
  | fail =>
    rw [arbitrate_eq_fail_iff.mpr hverdict, foldl_offer_fail, Option.some.injEq,
      arbitrate_eq_fail_iff] at hsame
    rw [hsame]
    exact fits_self _

/-- The order of the candidates has no say exactly if they are not in dispute. -/
lemma outcome_order_iff (hl : Candidates l) :
    (∀ l', l'.Perm l → g.outcome c l' = g.outcome c l) ↔ g.Undisputed c l := by
  constructor
  · intro h dest r hdest hr
    split
    · next haccept => exact undisputed_of_accept haccept hdest hr h
    · next haccept => exact fun m hm => fits_of_order hl haccept hdest hr hm h
  · intro h l' hperm
    have hlowest : lowest l' = lowest l := Option.ext fun m => by
      simp only [lowest_eq_some_iff, hperm.mem_iff]
    have hshifts : shiftsTo l' = shiftsTo l := Option.ext fun dest => by
      simp only [(hl.perm hperm).shiftsTo_eq_some_iff, hl.shiftsTo_eq_some_iff, hperm.mem_iff]
    have h' : g.Undisputed c l' := by
      simpa only [Undisputed, hlowest, hperm.mem_iff] using h
    rw [outcome_eq_decision (hl.perm hperm) h', outcome_eq_decision hl h, decision, decision,
      hlowest, hshifts]
    simp only [hperm.mem_iff]

end Grammar

/-! ## Rows and tables -/

namespace Row

variable {g : Grammar} {c : SymbolId} {state : StateId} {row : Row}

/-- The row after candidates were offered to one of its cells in order. -/
def putEach (g : Grammar) (state : StateId) (c : SymbolId) (row : Row) (l : List Action) : Row :=
  l.foldl (put g state c) row

lemma getElem?_putEach (g : Grammar) (state : StateId) (c : SymbolId) (row : Row)
    (l : List Action) : (row.putEach g state c l).actions[c]? =
      row.actions[c]?.map fun cell => l.foldl (g.offer c) cell := by
  induction l generalizing row with
  | nil => simp [putEach]
  | cons a l ih =>
    have hput : row.putEach g state c (a :: l) = (row.put g state c a).putEach g state c l := rfl
    rw [hput, ih, getElem?_put, if_pos rfl, Option.map_map]
    rfl

lemma getElem?_putEach_empty (hempty : row.actions[c]? = some none) (l : List Action) :
    (row.putEach g state c l).actions[c]? = some (g.outcome c l) := by
  rw [getElem?_putEach, hempty]
  rfl

/-- Offering candidates for one cell to an empty one leaves the same action in every order exactly
if the candidates are not in dispute, and then the cell holds what is decided: to accept if that is
offered, and else what arbitration makes of the shift and the lowest rule. -/
theorem put_order_iff (hempty : row.actions[c]? = some none) (hl : Candidates l) :
    ((∀ l', l'.Perm l → (row.putEach g state c l').actions[c]? =
        (row.putEach g state c l).actions[c]?) ↔ g.Undisputed c l) ∧
      (g.Undisputed c l → (row.putEach g state c l).actions[c]? = some (g.decision c l)) := by
  simp only [getElem?_putEach_empty hempty, Option.some.injEq]
  exact ⟨Grammar.outcome_order_iff hl, Grammar.outcome_eq_decision hl⟩

end Row

namespace Grammar

/-- Between `A → ε`, `B → ε` of level 2 and `C → t z` there is a choice on `t`, which has level 1,
behind `p` and behind `q`; but the rules of the start name the three in different orders. -/
def threeWay : Grammar where
  name := none
  symbols := ⟨SymbolTable.initial.entries ++ [⟨.nonterminal, "S"⟩, ⟨.nonterminal, "A"⟩,
    ⟨.nonterminal, "B"⟩, ⟨.nonterminal, "C"⟩, ⟨.terminal, "p"⟩, ⟨.terminal, "q"⟩,
    ⟨.terminal, "t"⟩, ⟨.terminal, "z"⟩]⟩
  rules := [
    .plain 0 2 [6, 3, 8], .plain 1 2 [6, 4, 8], .plain 2 2 [6, 5],
    .plain 3 2 [7, 3, 8], .plain 4 2 [7, 5], .plain 5 2 [7, 4, 8],
    .plain 6 3 [SymbolId.epsilon],
    { Rule.plain 7 4 [SymbolId.epsilon] with explicitLevel := some 2 },
    .plain 8 5 [8, 9]]
  levels := [(8, 1)]
  target := some 2

/-- Rule 7 binds tighter than `z`, and rule 8, which does not, comes behind it; so the two and a
shift of `z` are not in dispute, and in every order rule 7 is left. -/
theorem put_order_threeWay : (Row.blank 10).actions[9]? = some none ∧
    Candidates [.reduce 8, .shift 5, .reduce 7] ∧
    ∀ l, l.Perm [.reduce 8, .shift 5, .reduce 7] →
      ((Row.blank 10).putEach threeWay 0 9 l).actions[9]? = some (some (.reduce 7)) := by
  have hempty : (Row.blank 10).actions[9]? = some none := rfl
  have hcandidates : Candidates [.reduce 8, .shift 5, .reduce 7] := by
    refine ⟨by decide, fun dest dest' hdest hdest' => ?_⟩
    have hdest : dest = 5 := by simpa using hdest
    have hdest' : dest' = 5 := by simpa using hdest'
    rw [hdest, hdest']
  have hundisputed : threeWay.Undisputed 9 [.reduce 8, .shift 5, .reduce 7] := by
    have hlowest : lowest [.reduce 8, .shift 5, .reduce 7] = some 7 := rfl
    have hwin : threeWay.verdict 9 7 = .reduce := rfl
    have hlose : threeWay.verdict 9 8 = .shift := rfl
    intro dest r _ hr
    rw [if_neg (by decide)]
    intro m hm
    obtain rfl : 7 = m := Option.some.inj (hlowest.symm.trans hm)
    have hr : r = 8 ∨ r = 7 := by simpa using hr
    rcases hr with rfl | rfl <;> simp [hwin, hlose, Fits]
  refine ⟨hempty, hcandidates, fun l hperm => ?_⟩
  rw [(Row.put_order_iff hempty hcandidates).1.mpr hundisputed l hperm,
    (Row.put_order_iff hempty hcandidates).2 hundisputed]
  rfl

/-- Behind `p` and behind `q` the same three actions are called for on `t`, in different orders.
Rule 7 alone would win against the shift; but behind `p` rule 6 replaces it first and then loses,
and behind `q` rule 6 loses first and then rule 7 wins. -/
theorem put_order_matters : ∃ l l' : List Action,
    (threeWay.automatonOf 2).states[2]?.map
      (fun st => st.offers (threeWay.productions 2).basis 8) = some l ∧
    (threeWay.automatonOf 2).states[3]?.map
      (fun st => st.offers (threeWay.productions 2).basis 8) = some l' ∧
    l.Perm l' ∧ (∀ dest, .shift dest ∈ l → dest = 7) ∧ (Row.blank 10).actions[8]? = some none ∧
    ((Row.blank 10).putEach threeWay 2 8 l).actions[8]? = some (some (.shift 7)) ∧
    ((Row.blank 10).putEach threeWay 3 8 l').actions[8]? = some (some (.reduce 7)) := by
  refine ⟨[.reduce 6, .reduce 7, .shift 7], [.reduce 6, .shift 7, .reduce 7], rfl, rfl,
    (List.Perm.swap _ _ _).cons _, ?_, rfl, rfl, rfl⟩
  intro dest hdest
  simpa using hdest

/-! ## Cells of a table -/

variable {g : Grammar} {b : Basis} {st : State} {c : SymbolId}

/-- The actions that the items of a state call for may be offered to one cell. -/
lemma candidates_of_calls {l : List Action} (h : ∀ a ∈ l, st.Calls b c a) : Candidates l where
  fail_notMem hmem := by
    obtain ⟨item, -, hcalls⟩ := h _ hmem
    exact hcalls.ne_fail rfl
  dest_unique dest dest' hmem hmem' := by
    obtain ⟨item, -, hcalls⟩ := h _ hmem
    obtain ⟨item', -, hcalls'⟩ := h _ hmem'
    cases hcalls with
    | shift _ htarget =>
      cases hcalls' with
      | shift _ htarget' => exact Option.some.inj (htarget.symm.trans htarget')

lemma candidates_offers (hc : c ≠ SymbolId.epsilon) : Candidates (st.offers b c) :=
  candidates_of_calls fun _ => (State.mem_offers hc).mp

/-- A cell of a table is what is decided if the actions called for are not in dispute, in whatever
order the state lists its items. -/
theorem Builds.action?_eq_decision {target : SymbolId} {t : ActionTable} {state : StateId}
    (h : g.Builds target t) (hst : (g.automatonOf target).states[state]? = some st)
    (hc : c ≠ SymbolId.epsilon) (hwidth : c < g.symbols.size)
    (hundisputed : g.Undisputed c (st.offers (g.productions target).basis c)) :
    t.action? state c = g.decision c (st.offers (g.productions target).basis c) := by
  rw [h.action?_eq_foldl hst hc hwidth]
  exact outcome_eq_decision (candidates_offers hc) hundisputed

end Grammar

end ShiftReduce
