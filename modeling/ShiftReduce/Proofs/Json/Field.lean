import ShiftReduce.Proofs.Json.Reader
import Mathlib.Data.List.Nodup
/-!
# Written data are read back

What is written for a number, an optional value, a list or a record is either refused, because a
number is out of range, or read as what it was written for. If no number is out of range it is not
refused.
-/

namespace ShiftReduce.Json

variable {α : Type} {read : Json → Option α} {write : α → Json} {written : List Char}

/-- What is read of a written value is this value. -/
def Faithful (read : Json → Option α) (write : α → Json) : Prop :=
  ∀ ⦃a b : α⦄, read (write a) = some b → b = a

/-- Every value that fits is read back after it was written. -/
def Recovers (fits : α → Prop) (read : Json → Option α) (write : α → Json) : Prop :=
  ∀ ⦃a : α⦄, fits a → read (write a) = some a

variable {fits : α → Prop}

/-! ## Numbers -/

lemma digitsValue_toDigits (n : Nat) : digitsValue (Nat.toDigits 10 n) = n := by
  have h : digitsValue (Nat.toDigits 10 n) = Nat.ofDigitChars 10 (Nat.toDigits 10 n) 0 :=
    Nat.ofDigitChars_eq_foldl.symm
  rw [h, Nat.ofDigitChars_ten_toDigits]

lemma nat?_ofNat (bound n : Nat) : (ofNat n).nat? bound = if n < bound then some n else none := by
  have hdigits : (Nat.toDigits 10 n).all Text.isAsciiDigit = true :=
    List.all_eq_true.mpr fun _ => isAsciiDigit_of_mem_toDigits
  simp only [ofNat, nat?, hdigits, digitsValue_toDigits, true_and]

lemma faithful_nat (bound : Nat) : Faithful (nat? bound) ofNat := by
  intro a b h
  rw [nat?_ofNat] at h
  split at h
  · exact (Option.some.inj h).symm
  · cases h

lemma recovers_nat (bound : Nat) : Recovers (· < bound) (nat? bound) ofNat := fun n hn => by
  rw [nat?_ofNat, if_pos hn]

/-! ## Strings -/

lemma pieces?_plain (h : ∀ c ∈ written, IsPlain c) :
    pieces? written = some ((Bytes.ofChars written).map .byte) := by
  induction written with
  | nil => rfl
  | cons c written ih =>
    obtain ⟨⟨-, -, -, hslash⟩, hwritten⟩ := List.forall_mem_cons.mp h
    rw [pieces?, ih hwritten]
    · rfl
    · exact fun _ _ _ _ _ hc _ => hslash hc
    · exact fun _ _ hc _ => hslash hc

lemma bytes?_map_byte (b : Bytes) : bytes? (b.map .byte) = some b := by
  induction b with
  | nil => rfl
  | cons x b ih => rw [List.map_cons, bytes?, ih, Option.map_some]

/-- A string without escapes says what is written. -/
lemma meaning?_plain (h : ∀ c ∈ written, IsPlain c) :
    meaning? written = some (String.ofList written) := by
  have hascii : ∀ c ∈ written, Bytes.IsAscii c := fun c hc => (h c hc).2.1
  rw [meaning?, pieces?_plain h, Option.bind_some, bytes?_map_byte, Option.bind_some,
    ← Bytes.ofText_ofList hascii, Bytes.text?_ofText]

lemma meaning?_toList {s : String} (h : ∀ c ∈ s.toList, IsPlain c) :
    meaning? s.toList = some s := by
  rw [meaning?_plain h, String.ofList_toList]

/-! ## Optional values and lists -/

/-- A value that is not itself `null` may be missing. -/
lemma Faithful.option (h : Faithful read write) (hnull : ∀ a, write a ≠ .null) :
    Faithful (option? read) (ofOption write) := by
  intro o o' ho
  cases o with
  | none => exact (Option.some.inj ho).symm
  | some a =>
    rw [ofOption, option?] at ho
    · obtain ⟨b, hb, rfl⟩ := Option.map_eq_some_iff.mp ho
      rw [h hb]
    · exact hnull a

lemma Faithful.list (h : Faithful read write) : Faithful (list? read) (ofList write) := by
  intro l l' hl
  rw [ofList, list?] at hl
  induction l generalizing l' with
  | nil => exact (Option.some.inj hl).symm
  | cons a l ih =>
    rw [List.map_cons, List.mapM_cons] at hl
    obtain ⟨b, hb, hl⟩ := Option.bind_eq_some_iff.mp hl
    obtain ⟨bs, hbs, hl⟩ := Option.bind_eq_some_iff.mp hl
    cases hl
    rw [h hb, ih hbs]

lemma mapM_map_eq_some {α β : Type} {f : β → Option α} {g : α → β} {l : List α}
    (h : ∀ a ∈ l, f (g a) = some a) : (l.map g).mapM f = some l := by
  induction l with
  | nil => rfl
  | cons a l ih =>
    obtain ⟨ha, hl⟩ := List.forall_mem_cons.mp h
    rw [List.map_cons, List.mapM_cons, ha, ih hl]
    rfl

lemma Recovers.option (h : Recovers fits read write) (hnull : ∀ a, write a ≠ .null) :
    Recovers (fun o => ∀ a ∈ o, fits a) (option? read) (ofOption write) := by
  intro o ho
  cases o with
  | none => rfl
  | some a =>
    rw [ofOption, option?, h (ho a rfl)]
    · rfl
    · exact hnull a

lemma Recovers.list (h : Recovers fits read write) :
    Recovers (fun l => ∀ a ∈ l, fits a) (list? read) (ofList write) := fun _ hl =>
  mapM_map_eq_some fun a ha => h (hl a ha)

/-! ## Records -/

lemma filter_of_nodup {fields : List (String × Json)} (h : (fields.map Prod.fst).Nodup)
    {field : String × Json} (hmem : field ∈ fields) :
    fields.filter (fun m => m.1 == field.1) = [field] := by
  induction fields with
  | nil => cases hmem
  | cons m fields ih =>
    rw [List.map_cons, List.nodup_cons] at h
    rcases List.mem_cons.mp hmem with rfl | hmem
    · have hrest : fields.filter (fun m => m.1 == field.1) = [] :=
        List.filter_eq_nil_iff.mpr fun m hm heq =>
          h.1 (eq_of_beq heq ▸ List.mem_map_of_mem hm)
      simp only [List.filter_cons, beq_self_eq_true, hrest, if_true]
    · rw [List.filter_cons_of_neg, ih h.2 hmem]
      intro heq
      exact h.1 (eq_of_beq heq ▸ List.mem_map_of_mem hmem)

/-- The names of the fields of a record: no two are the same, and none needs an escape. -/
def AreNames (names : List String) : Prop :=
  names.Nodup ∧ ∀ name ∈ names, ∀ c ∈ name.toList, IsPlain c

instance (names : List String) : Decidable (AreNames names) :=
  decidable_of_iff
    (names.Nodup ∧ (names.all fun name => name.toList.all fun c => decide (IsPlain c)) = true)
    (by simp [AreNames])

section Record

variable {names : List String} (hnames : AreNames names) {fields : List (String × Json)}
  (h : fields.map Prod.fst = names)

include hnames h

lemma isPlain_of_field {field : String × Json} (hfield : field ∈ fields) :
    ∀ c ∈ field.1.toList, IsPlain c :=
  hnames.2 field.1 (h ▸ List.mem_map_of_mem hfield)

/-- The fields of a written record are found under their names. -/
lemma fields?_record : (record fields).fields? names = some (fields.map Prod.snd) := by
  have hmembers : (fields.map fun field => (field.1.toList, field.2)).mapM
      (fun m => (meaning? m.1).map fun key => (key, m.2)) = some fields :=
    mapM_map_eq_some fun field hfield => by
      rw [meaning?_toList (isPlain_of_field hnames h hfield)]
      rfl
  have hsingle : ∀ field ∈ fields, single? fields field.1 = some field.2 := by
    intro field hfield
    rw [single?, filter_of_nodup (h ▸ hnames.1) hfield]
  have hvalues : ∀ l ⊆ fields, (l.map Prod.fst).mapM (single? fields) = some (l.map Prod.snd) := by
    intro l
    induction l with
    | nil => exact fun _ => rfl
    | cons field l ih =>
      intro hl
      rw [List.map_cons, List.mapM_cons, hsingle field (hl List.mem_cons_self),
        ih fun m hm => hl (List.mem_cons_of_mem _ hm)]
      rfl
  rw [record, fields?, ← h]
  simp only [hmembers]
  exact hvalues fields fun _ => id

/-- What is written for a record is simple if its fields are. -/
lemma simple_record (hfields : ∀ value ∈ fields.map Prod.snd, Simple value) :
    Simple (record fields) :=
  .object (List.forall_mem_map.mpr fun _ hfield => isPlain_of_field hnames h hfield)
    (List.forall_mem_map.mpr fun _ hfield => hfields _ (List.mem_map_of_mem hfield))

end Record

lemma simple_list (h : ∀ a, Simple (write a)) (l : List α) : Simple (ofList write l) :=
  .array (List.forall_mem_map.mpr fun a _ => h a)

lemma simple_option (h : ∀ a, Simple (write a)) (o : Option α) : Simple (ofOption write o) := by
  cases o with
  | none => exact .null
  | some a => exact h a

end ShiftReduce.Json
