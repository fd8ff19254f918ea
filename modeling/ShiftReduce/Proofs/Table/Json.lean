import ShiftReduce.Proofs.Json.Field
import ShiftReduce.Table.Json
/-!
# Tables are read back

The JSON text of a table is either refused, because some number in it is out of range, or read as
this table. A table whose numbers fit is not refused.

Main statements: `ActionTable.eq_of_ofJsonText?` and `ActionTable.Fits.ofJsonText?_jsonText`.
-/

namespace ShiftReduce

open Json

lemma faithful_index : Faithful index? Json.ofNat := faithful_nat wordRange

lemma recovers_index : Recovers (· < wordRange) index? Json.ofNat := recovers_nat wordRange

namespace Action

lemma simple_toJson (a : Action) : Simple a.toJson := by
  cases a with
  | shift dest =>
    exact simple_record (by decide : AreNames ["Shift"]) rfl
      (List.forall_mem_singleton.mpr (.number dest))
  | reduce rule =>
    exact simple_record (by decide : AreNames ["Reduce"]) rfl
      (List.forall_mem_singleton.mpr (.number rule))
  | accept => exact .string (isPlain_of_all rfl)
  | fail => exact .string (isPlain_of_all rfl)

lemma toJson_ne_null (a : Action) : a.toJson ≠ .null := by
  cases a <;> simp [toJson, record]

lemma faithful_toJson : Faithful ofJson? toJson := by
  intro a b h
  cases a with
  | shift dest =>
    have hkey : meaning? "Shift".toList = some "Shift" := meaning?_toList (isPlain_of_all rfl)
    simp only [toJson, record, List.map_cons, List.map_nil, ofJson?, hkey, Option.bind_some,
      ofMember?, Option.map_eq_some_iff] at h
    obtain ⟨n, hn, rfl⟩ := h
    rw [faithful_index hn]
  | reduce rule =>
    have hkey : meaning? "Reduce".toList = some "Reduce" := meaning?_toList (isPlain_of_all rfl)
    simp only [toJson, record, List.map_cons, List.map_nil, ofJson?, hkey, Option.bind_some,
      ofMember?, Option.map_eq_some_iff] at h
    obtain ⟨n, hn, rfl⟩ := h
    rw [faithful_index hn]
  | accept =>
    have hword : meaning? "Accept".toList = some "Accept" := meaning?_toList (isPlain_of_all rfl)
    simp only [toJson, ofJson?, hword, Option.some.injEq] at h
    exact h.symm
  | fail =>
    have hword : meaning? "Fail".toList = some "Fail" := meaning?_toList (isPlain_of_all rfl)
    simp only [toJson, ofJson?, hword, Option.some.injEq] at h
    exact h.symm

/-- The number of the action, if it has one, is a word. -/
def Fits : Action → Prop
  | shift dest => dest < wordRange
  | reduce rule => rule < wordRange
  | accept => True
  | fail => True

instance : DecidablePred Fits := fun a => by
  cases a <;> unfold Fits <;> infer_instance

lemma recovers_toJson : Recovers Fits ofJson? toJson := by
  intro a ha
  cases a with
  | shift dest =>
    have hkey : meaning? "Shift".toList = some "Shift" := meaning?_toList (isPlain_of_all rfl)
    simp only [toJson, record, List.map_cons, List.map_nil, ofJson?, hkey, Option.bind_some,
      ofMember?, recovers_index ha, Option.map_some]
  | reduce rule =>
    have hkey : meaning? "Reduce".toList = some "Reduce" := meaning?_toList (isPlain_of_all rfl)
    simp only [toJson, record, List.map_cons, List.map_nil, ofJson?, hkey, Option.bind_some,
      ofMember?, recovers_index ha, Option.map_some]
  | accept =>
    have hword : meaning? "Accept".toList = some "Accept" := meaning?_toList (isPlain_of_all rfl)
    simp only [toJson, ofJson?, hword]
  | fail =>
    have hword : meaning? "Fail".toList = some "Fail" := meaning?_toList (isPlain_of_all rfl)
    simp only [toJson, ofJson?, hword]

end Action

namespace Conflict

lemma areNames : AreNames ["state", "lookahead", "existing", "incoming", "chosen"] := by decide

lemma simple_toJson (c : Conflict) : Simple c.toJson := by
  refine simple_record areNames rfl ?_
  simp only [List.map_cons, List.map_nil, List.forall_mem_cons]
  exact ⟨.number _, .number _, c.existing.simple_toJson, c.incoming.simple_toJson,
    c.chosen.simple_toJson, fun _ h => absurd h List.not_mem_nil⟩

lemma faithful_toJson : Faithful ofJson? toJson := by
  intro c c' h
  rw [ofJson?, toJson, fields?_record areNames rfl] at h
  simp only [List.map_cons, List.map_nil, Option.bind_eq_bind, Option.bind_eq_some_iff,
    Option.pure_def, Option.some.injEq] at h
  obtain ⟨state, hstate, lookahead, hlookahead, existing, hexisting, incoming, hincoming, chosen,
    hchosen, rfl⟩ := h
  rw [faithful_index hstate, faithful_index hlookahead, Action.faithful_toJson hexisting,
    Action.faithful_toJson hincoming, Action.faithful_toJson hchosen]

/-- The numbers of the conflict are words. -/
structure Fits (c : Conflict) : Prop where
  state : c.state < wordRange
  lookahead : c.lookahead < wordRange
  existing : c.existing.Fits
  incoming : c.incoming.Fits
  chosen : c.chosen.Fits

lemma recovers_toJson : Recovers Fits ofJson? toJson := by
  intro c hc
  rw [ofJson?, toJson, fields?_record areNames rfl]
  simp only [List.map_cons, List.map_nil, recovers_index hc.state, recovers_index hc.lookahead,
    Action.recovers_toJson hc.existing, Action.recovers_toJson hc.incoming,
    Action.recovers_toJson hc.chosen, Option.bind_eq_bind, Option.bind_some, Option.pure_def]

end Conflict

namespace Fingerprint

lemma simple_toJson (f : Fingerprint) : Simple f.toJson := simple_list (fun _ => .number _) _

lemma faithful_toJson : Faithful ofJson? toJson := by
  intro f f' h
  have hbyte : Faithful (fun j => (nat? 256 j).map Nat.toUInt8) fun b : UInt8 =>
      .ofNat b.toNat := by
    intro b b' hb
    obtain ⟨n, hn, rfl⟩ := Option.map_eq_some_iff.mp hb
    rw [faithful_nat 256 hn]
    exact UInt8.ofNat_toNat
  obtain ⟨bytes, hbytes, h⟩ := Option.bind_eq_some_iff.mp h
  rw [hbyte.list hbytes, ofBytes?] at h
  split at h
  · cases h
    rfl
  · cases h

lemma recovers_toJson : Recovers (fun _ => True) ofJson? toJson := by
  intro f _
  have hbyte : Recovers (fun _ => True) (fun j => (nat? 256 j).map Nat.toUInt8) fun b : UInt8 =>
      .ofNat b.toNat := by
    intro b _
    have hb : (Json.ofNat b.toNat).nat? 256 = some b.toNat := recovers_nat 256 b.toNat_lt
    exact (congrArg (Option.map Nat.toUInt8) hb).trans (congrArg some UInt8.ofNat_toNat)
  rw [ofJson?, toJson, hbyte.list fun _ _ => trivial, Option.bind_some, ofBytes?, bytes,
    dif_pos (by simp)]
  rfl

end Fingerprint

namespace ActionTable

lemma areNames :
    AreNames ["fingerprint", "num_symbols", "actions", "gotos", "expected", "conflicts"] := by
  decide

lemma simple_toJson (t : ActionTable) : Simple t.toJson := by
  refine simple_record areNames rfl ?_
  simp only [List.map_cons, List.map_nil, List.forall_mem_cons]
  exact ⟨t.fingerprint.simple_toJson, .number _,
    simple_list (simple_list (simple_option Action.simple_toJson)) _,
    simple_list (simple_list (simple_option Simple.number)) _,
    simple_list (simple_list Simple.number) _, simple_list Conflict.simple_toJson _,
    fun _ h => absurd h List.not_mem_nil⟩

lemma faithful_toJson : Faithful ofJson? toJson := by
  intro t t' h
  have hactions := (Action.faithful_toJson.option Action.toJson_ne_null).list.list
  have hgotos := (faithful_index.option fun _ => by simp [Json.ofNat]).list.list
  rw [ofJson?, toJson, fields?_record areNames rfl] at h
  simp only [List.map_cons, List.map_nil, Option.bind_eq_bind, Option.bind_eq_some_iff,
    Option.pure_def, Option.some.injEq] at h
  obtain ⟨fingerprint, hfingerprint, width, hwidth, actions, ha, gotos, hg, expected, hexpected,
    conflicts, hconflicts, rfl⟩ := h
  rw [Fingerprint.faithful_toJson hfingerprint, faithful_nat _ hwidth, hactions ha, hgotos hg,
    faithful_index.list.list hexpected, Conflict.faithful_toJson.list hconflicts]

/-- What is read of the text of a table is this table. -/
theorem eq_of_ofJsonText? {t t' : ActionTable} (h : ofJsonText? t.jsonText = some t') : t' = t := by
  rw [ofJsonText?, jsonText, read?_text t.simple_toJson, Option.bind_some] at h
  exact faithful_toJson h

/-- The numbers of states, symbols and rules in the table are words, and the width is a number of
eight bytes. -/
structure Fits (t : ActionTable) : Prop where
  width : t.width < 0x10000000000000000
  actions : ∀ row ∈ t.actions, ∀ cell ∈ row, ∀ a ∈ cell, a.Fits
  gotos : ∀ row ∈ t.gotos, ∀ cell ∈ row, ∀ dest ∈ cell, dest < wordRange
  expected : ∀ l ∈ t.expected, ∀ s ∈ l, s < wordRange
  conflicts : ∀ c ∈ t.conflicts, c.Fits

lemma recovers_toJson : Recovers Fits ofJson? toJson := by
  intro t ht
  have hactions := (Action.recovers_toJson.option Action.toJson_ne_null).list.list
  have hgotos := (recovers_index.option fun _ => by simp [Json.ofNat]).list.list
  rw [ofJson?, toJson, fields?_record areNames rfl]
  simp only [List.map_cons, List.map_nil, Fingerprint.recovers_toJson trivial,
    recovers_nat _ ht.width, hactions ht.actions, hgotos ht.gotos,
    recovers_index.list.list ht.expected, Conflict.recovers_toJson.list ht.conflicts,
    Option.bind_eq_bind, Option.bind_some, Option.pure_def]

/-- A table whose numbers fit is read of its text. -/
theorem Fits.ofJsonText?_jsonText {t : ActionTable} (h : t.Fits) :
    ofJsonText? t.jsonText = some t := by
  rw [ofJsonText?, jsonText, read?_text t.simple_toJson, Option.bind_some]
  exact recovers_toJson h

end ActionTable

end ShiftReduce
