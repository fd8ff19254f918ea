import ShiftReduce.Json.Field
import ShiftReduce.Json.Reader
import ShiftReduce.Proofs.Text.Bytes
import Mathlib.Data.List.TakeDrop
import Mathlib.Data.List.TakeWhile
/-!
# Written values are read back

The compact text of a value, with its numbers in decimal and its strings free of escapes, is read as
this value, whatever follows it that cannot go on a number.

Main statement: `Json.read?_text`.
-/

namespace ShiftReduce.Json

/-- The character stands for itself in a string, and is one byte. -/
def IsPlain (c : Char) : Prop :=
  32 ≤ c.toNat ∧ Bytes.IsAscii c ∧ c ≠ '"' ∧ c ≠ '\\'

instance (c : Char) : Decidable (IsPlain c) := inferInstanceAs (Decidable (_ ∧ _))

lemma isPlain_of_all {l : List Char} (h : (l.all fun c => decide (IsPlain c)) = true) :
    ∀ c ∈ l, IsPlain c := by
  simpa using h

/-- A value as tables are made of: its numbers are natural numbers, and its strings have no
escapes. -/
inductive Simple : Json → Prop
  | null : Simple .null
  | bool (b : Bool) : Simple (.bool b)
  | number (n : Nat) : Simple (.ofNat n)
  | string {written : List Char} : (∀ c ∈ written, IsPlain c) → Simple (.string written)
  | array {items : List Json} : (∀ j ∈ items, Simple j) → Simple (.array items)
  | object {members : List (List Char × Json)} : (∀ m ∈ members, ∀ c ∈ m.1, IsPlain c) →
      (∀ m ∈ members, Simple m.2) → Simple (.object members)

/-- What follows a value inside another one, or at the end. -/
def Ends (rest : List Char) : Prop := ∀ c ∈ rest.head?, c = ',' ∨ c = ']' ∨ c = '}'

variable {rest written : List Char} {j : Json} {fuel : Nat}

/-! ## Numbers -/

lemma isAsciiDigit_of_mem_toDigits {n : Nat} {c : Char} (h : c ∈ Nat.toDigits 10 n) :
    Text.isAsciiDigit c = true :=
  Nat.isDigit_of_mem_toDigits (by decide) le_rfl h

/-- No number but 0 begins with the digit 0. -/
lemma head?_toDigits {n : Nat} (h : (Nat.toDigits 10 n).head? = some '0') : n = 0 := by
  induction n using Nat.strong_induction_on with
  | _ n ih =>
    by_cases hn : n < 10
    · have hsmall : ∀ n < 10, [n.digitChar].head? = some '0' → n = 0 := by decide
      rw [Nat.toDigits_of_lt_base hn] at h
      exact hsmall n hn h
    · rw [Nat.toDigits_of_base_le (by decide) (Nat.le_of_not_lt hn),
        List.head?_append_of_ne_nil _ Nat.toDigits_ne_nil] at h
      have := ih (n / 10) (by omega) h
      omega

lemma Ends.not_digit (h : Ends rest) {c : Char} (hc : c ∈ rest.head?) :
    Text.isAsciiDigit c = false := by
  rcases h c hc with rfl | rfl | rfl <;> rfl

lemma span_digits {ds : List Char} (hds : ∀ d ∈ ds, Text.isAsciiDigit d = true) (h : Ends rest) :
    (ds ++ rest).span Text.isAsciiDigit = (ds, rest) := by
  have hrest : rest.takeWhile Text.isAsciiDigit = [] ∧ rest.dropWhile Text.isAsciiDigit = rest := by
    cases rest with
    | nil => exact ⟨rfl, rfl⟩
    | cons c rest =>
      have hc := h.not_digit (c := c) rfl
      exact ⟨List.takeWhile_cons_of_neg (by simp [hc]), List.dropWhile_cons_of_neg (by simp [hc])⟩
  rw [List.span_eq_takeWhile_dropWhile, List.takeWhile_append_of_pos hds,
    List.dropWhile_append_of_pos hds, hrest.1, hrest.2, List.append_nil]

/-- Nothing of what follows is read as part of a number. -/
lemma readUnsigned_of_readWhole {s : List Char} (hs : readWhole s = some (written, rest))
    (h : Ends rest) : readUnsigned s = some (written, rest) := by
  have hfraction : readFraction rest = some ([], rest) := by
    rw [readFraction]
    rintro rest' rfl
    rcases h '.' rfl with h | h | h <;> cases h
  have hexponent : readExponent rest = some ([], rest) := by
    cases rest with
    | nil => rfl
    | cons c rest =>
      rw [readExponent, if_neg]
      rcases h c rfl with rfl | rfl | rfl <;> decide
  simp only [readUnsigned, hs, hfraction, hexponent, Option.map_some, List.append_nil]

lemma readWhole_toDigits (n : Nat) (h : Ends rest) :
    readWhole (Nat.toDigits 10 n ++ rest) = some (Nat.toDigits 10 n, rest) := by
  by_cases hn : n = 0
  · subst hn
    rw [Nat.toDigits_zero]
    rfl
  · have hspan := span_digits (fun _ => isAsciiDigit_of_mem_toDigits (n := n)) h
    obtain ⟨d, ds, hds⟩ := List.exists_cons_of_ne_nil (Nat.toDigits_ne_nil (n := n) (b := 10))
    rw [hds] at hspan ⊢
    rw [List.cons_append] at hspan ⊢
    rw [readWhole, readDigits, hspan]
    rintro rest' heq
    have hd : d = '0' := (List.cons.inj heq).1
    exact hn (head?_toDigits (by rw [hds, hd]; rfl))

lemma readNumber_toDigits (n : Nat) (h : Ends rest) :
    readNumber (Nat.toDigits 10 n ++ rest) = some (Nat.toDigits 10 n, rest) := by
  rw [readNumber, readUnsigned_of_readWhole (readWhole_toDigits n h) h]
  rintro rest' heq
  obtain ⟨d, ds, hds⟩ := List.exists_cons_of_ne_nil (Nat.toDigits_ne_nil (n := n) (b := 10))
  rw [hds, List.cons_append] at heq
  have hdigit := isAsciiDigit_of_mem_toDigits (n := n) (c := d) (by rw [hds]; simp)
  rw [(List.cons.inj heq).1] at hdigit
  exact absurd hdigit (by decide)

/-! ## Strings -/

lemma readString_plain (h : ∀ c ∈ written, IsPlain c) (rest : List Char) :
    readString (written ++ '"' :: rest) = some (written, rest) := by
  induction written with
  | nil => rw [List.nil_append, readString]
  | cons c written ih =>
    obtain ⟨⟨hlow, -, hquote, hslash⟩, hwritten⟩ := List.forall_mem_cons.mp h
    rw [List.cons_append, readString, if_neg (Nat.not_lt.mpr hlow), ih hwritten, Option.map_some]
    · exact fun hc => hquote hc
    · exact fun _ _ _ _ _ hc _ => hslash hc
    · exact fun _ _ hc _ => hslash hc

/-! ## Values -/

/-- The value is read from its text, if there is fuel enough for every bracket and comma. -/
def ReadsBack (j : Json) : Prop :=
  ∀ fuel rest, 2 * j.text.length ≤ fuel → Ends rest →
      readValue fuel (j.text ++ rest) = some (j, rest)

lemma skipBlanks_cons {c : Char} (h : isBlank c = false) (s : List Char) :
    skipBlanks (c :: s) = c :: s := by
  rw [skipBlanks, List.dropWhile_cons_of_neg (by simp [h])]

lemma ne_of_isAsciiDigit {c d : Char} (hd : Text.isAsciiDigit d = true)
    (hc : Text.isAsciiDigit c = false) : d ≠ c := by
  rintro rfl
  exact Bool.false_ne_true (hc.symm.trans hd)

lemma isBlank_of_isAsciiDigit {d : Char} (hd : Text.isAsciiDigit d = true) :
    isBlank d = false := by
  simp [isBlank, ne_of_isAsciiDigit hd (c := ' ') rfl, ne_of_isAsciiDigit hd (c := '\t') rfl,
    ne_of_isAsciiDigit hd (c := '\n') rfl, ne_of_isAsciiDigit hd (c := '\r') rfl]

/-- A text begins neither with a blank nor with the end of an array. -/
lemma exists_cons_text (h : Simple j) :
    ∃ c s, j.text = c :: s ∧ isBlank c = false ∧ c ≠ ']' := by
  cases h with
  | null => exact ⟨'n', _, rfl, rfl, by decide⟩
  | bool b =>
    cases b with
    | true => exact ⟨'t', _, rfl, rfl, by decide⟩
    | false => exact ⟨'f', _, rfl, rfl, by decide⟩
  | number n =>
    obtain ⟨d, ds, hds⟩ := List.exists_cons_of_ne_nil (Nat.toDigits_ne_nil (n := n) (b := 10))
    have hdigit := isAsciiDigit_of_mem_toDigits (n := n) (c := d) (by rw [hds]; simp)
    exact ⟨d, ds, hds, isBlank_of_isAsciiDigit hdigit, ne_of_isAsciiDigit hdigit rfl⟩
  | string _ => exact ⟨'"', _, by rw [text], rfl, by decide⟩
  | array _ => exact ⟨'[', _, by rw [text], rfl, by decide⟩
  | object _ _ => exact ⟨'{', _, by rw [text], rfl, by decide⟩

lemma readValue_digit {d : Char} (hd : Text.isAsciiDigit d = true) (fuel : Nat) (s : List Char) :
    readValue (fuel + 1) (d :: s) =
      (readNumber (d :: s)).map fun (written, rest) => (.number written, rest) := by
  have hne : ∀ c, Text.isAsciiDigit c = false → d ≠ c := fun _ => ne_of_isAsciiDigit hd
  rw [readValue, skipBlanks_cons (isBlank_of_isAsciiDigit hd)]
  simp [hne 'n' rfl, hne 't' rfl, hne 'f' rfl, hne '"' rfl, hne '[' rfl, hne '{' rfl]

lemma readsBack_number (n : Nat) : ReadsBack (.ofNat n) := by
  intro fuel rest hfuel hends
  have hread := readNumber_toDigits n hends
  obtain ⟨d, ds, hds⟩ := List.exists_cons_of_ne_nil (Nat.toDigits_ne_nil (n := n) (b := 10))
  have hdigit := isAsciiDigit_of_mem_toDigits (n := n) (c := d) (by rw [hds]; simp)
  rw [ofNat, text, hds] at hfuel ⊢
  rw [hds] at hread
  cases fuel with
  | zero => simp at hfuel
  | succ fuel =>
    rw [List.cons_append] at hread ⊢
    rw [readValue_digit hdigit, hread, Option.map_some]

lemma readsBack_string (h : ∀ c ∈ written, IsPlain c) : ReadsBack (.string written) := by
  intro fuel rest hfuel _
  rw [text, List.cons_append, List.append_assoc, List.singleton_append]
  cases fuel with
  | zero => simp [text] at hfuel
  | succ fuel => simp [readValue, skipBlanks_cons, isBlank, readString_plain h]

lemma itemsText_cons_cons (j j' : Json) (items : List Json) :
    itemsText (j :: j' :: items) = j.text ++ ',' :: itemsText (j' :: items) := by
  rw [itemsText]
  exact List.cons_ne_nil _ _

/-- The items of an array are read one after another. -/
lemma readItems_text {items : List Json} (h : ∀ j ∈ items, ReadsBack j) (hne : items ≠ [])
    (hfuel : 2 * (itemsText items).length < fuel) (rest : List Char) :
    readItems fuel (itemsText items ++ ']' :: rest) = some (items, rest) := by
  induction items generalizing fuel with
  | nil => exact absurd rfl hne
  | cons j items ih =>
    obtain ⟨hj, hitems⟩ := List.forall_mem_cons.mp h
    cases fuel with
    | zero => exact absurd hfuel (Nat.not_lt_zero _)
    | succ fuel =>
      cases items with
      | nil =>
        rw [itemsText] at hfuel ⊢
        rw [readItems, hj fuel _ (by omega) (by simp [Ends])]
        simp [skipBlanks_cons, isBlank]
      | cons j' items =>
        rw [itemsText_cons_cons, List.length_append, List.length_cons] at hfuel
        have hrest := ih hitems (List.cons_ne_nil _ _) (by omega : _ < fuel)
        rw [itemsText_cons_cons, List.append_assoc, List.cons_append, readItems,
          hj fuel _ (by omega) (by simp [Ends])]
        simp [skipBlanks_cons, isBlank, hrest]

lemma readValue_items {c : Char} (hblank : isBlank c = false) (hne : c ≠ ']') (fuel : Nat)
    (s : List Char) : readValue (fuel + 1) ('[' :: c :: s) =
      (readItems fuel (c :: s)).map fun (items, rest) => (.array items, rest) := by
  rw [readValue, skipBlanks_cons rfl]
  simp [skipBlanks_cons hblank, hne]

lemma readsBack_array {items : List Json} (hsimple : ∀ j ∈ items, Simple j)
    (h : ∀ j ∈ items, ReadsBack j) : ReadsBack (.array items) := by
  intro fuel rest hfuel _
  rw [text, List.length_cons, List.length_append, List.length_singleton] at hfuel
  rw [text, List.cons_append, List.append_assoc, List.singleton_append]
  cases fuel with
  | zero => omega
  | succ fuel =>
    cases items with
    | nil => simp [readValue, skipBlanks_cons, isBlank, itemsText]
    | cons j items =>
      obtain ⟨c, s, hc, hblank, hne⟩ := exists_cons_text (hsimple j List.mem_cons_self)
      have hitems := readItems_text h (List.cons_ne_nil _ _) (by omega : _ < fuel) rest
      have hhead : ∃ s', itemsText (j :: items) = c :: s' := by
        cases items with
        | nil => exact ⟨s, by rw [itemsText, hc]⟩
        | cons j' items => exact ⟨_, by rw [itemsText_cons_cons, hc, List.cons_append]⟩
      obtain ⟨s', hs'⟩ := hhead
      rw [hs', List.cons_append] at hitems ⊢
      rw [readValue_items hblank hne, hitems, Option.map_some]

lemma membersText_cons_cons (key : List Char) (j : Json) (m : List Char × Json)
    (members : List (List Char × Json)) : membersText ((key, j) :: m :: members) =
      '"' :: (key ++ '"' :: ':' :: (j.text ++ ',' :: membersText (m :: members))) := by
  rw [membersText]
  exact List.cons_ne_nil _ _

/-- The members of an object are read one after another. -/
lemma readMembers_text {members : List (List Char × Json)}
    (hkeys : ∀ m ∈ members, ∀ c ∈ m.1, IsPlain c) (h : ∀ m ∈ members, ReadsBack m.2)
    (hne : members ≠ []) (hfuel : 2 * (membersText members).length < fuel) (rest : List Char) :
    readMembers fuel (membersText members ++ '}' :: rest) = some (members, rest) := by
  induction members generalizing fuel with
  | nil => exact absurd rfl hne
  | cons m members ih =>
    obtain ⟨key, j⟩ := m
    obtain ⟨hkey, hkeys⟩ := List.forall_mem_cons.mp hkeys
    have hj : ReadsBack j := h _ List.mem_cons_self
    have hmembers : ∀ m ∈ members, ReadsBack m.2 := fun m hm => h m (List.mem_cons_of_mem _ hm)
    cases fuel with
    | zero => exact absurd hfuel (Nat.not_lt_zero _)
    | succ fuel =>
      cases members with
      | nil =>
        rw [membersText] at hfuel ⊢
        simp only [List.length_cons, List.length_append] at hfuel
        have hvalue := hj fuel ('}' :: rest) (by omega) (by simp [Ends])
        simp [readMembers, skipBlanks_cons, isBlank, readString_plain hkey, hvalue]
      | cons m' members =>
        rw [membersText_cons_cons] at hfuel ⊢
        simp only [List.length_cons, List.length_append] at hfuel
        have hrest := ih hkeys hmembers (List.cons_ne_nil _ _) (by omega : _ < fuel)
        have hvalue := hj fuel (',' :: (membersText (m' :: members) ++ '}' :: rest)) (by omega)
          (by simp [Ends])
        simp [readMembers, skipBlanks_cons, isBlank, readString_plain hkey, hvalue, hrest]

lemma readsBack_object {members : List (List Char × Json)}
    (hkeys : ∀ m ∈ members, ∀ c ∈ m.1, IsPlain c) (h : ∀ m ∈ members, ReadsBack m.2) :
    ReadsBack (.object members) := by
  intro fuel rest hfuel _
  rw [text, List.length_cons, List.length_append, List.length_singleton] at hfuel
  rw [text, List.cons_append, List.append_assoc, List.singleton_append]
  cases fuel with
  | zero => omega
  | succ fuel =>
    cases members with
    | nil => simp [readValue, skipBlanks_cons, isBlank, membersText]
    | cons m members =>
      have hmembers := readMembers_text hkeys h (List.cons_ne_nil _ _) (by omega : _ < fuel) rest
      have hhead : ∃ s, membersText (m :: members) = '"' :: s := by
        cases members with
        | nil => exact ⟨_, by rw [membersText]⟩
        | cons m' members => exact ⟨_, by rw [membersText_cons_cons]⟩
      obtain ⟨s, hs⟩ := hhead
      rw [hs, List.cons_append] at hmembers ⊢
      simp [readValue, skipBlanks_cons, isBlank, hmembers]

lemma Simple.readsBack (h : Simple j) : ReadsBack j := by
  induction h with
  | null =>
    intro fuel rest hfuel _
    cases fuel with
    | zero => simp [text] at hfuel
    | succ fuel => rfl
  | bool b =>
    intro fuel rest hfuel _
    cases fuel with
    | zero => cases b <;> simp [text] at hfuel
    | succ fuel => cases b <;> rfl
  | number n => exact readsBack_number n
  | string h => exact readsBack_string h
  | array hitems ih => exact readsBack_array hitems ih
  | object hkeys _ ih => exact readsBack_object hkeys ih

/-- The text of a value is read as this value. -/
theorem read?_text (h : Simple j) : read? j.text = some j := by
  have hread := h.readsBack (2 * j.text.length + 2) [] (Nat.le_add_right _ _) (by simp [Ends])
  rw [List.append_nil] at hread
  simp [read?, hread, skipBlanks]

/-! ## Characters -/

lemma isAscii_itemsText {items : List Json} (h : ∀ j ∈ items, ∀ c ∈ j.text, Bytes.IsAscii c) :
    ∀ c ∈ itemsText items, Bytes.IsAscii c := by
  induction items with
  | nil => simp [itemsText]
  | cons j items ih =>
    obtain ⟨hj, hitems⟩ := List.forall_mem_cons.mp h
    cases items with
    | nil =>
      rw [itemsText]
      exact hj
    | cons j' items =>
      rw [itemsText_cons_cons]
      simp only [List.forall_mem_append, List.forall_mem_cons]
      exact ⟨hj, by decide, ih hitems⟩

lemma isAscii_membersText {members : List (List Char × Json)}
    (hkeys : ∀ m ∈ members, ∀ c ∈ m.1, IsPlain c)
    (h : ∀ m ∈ members, ∀ c ∈ m.2.text, Bytes.IsAscii c) :
    ∀ c ∈ membersText members, Bytes.IsAscii c := by
  induction members with
  | nil => simp [membersText]
  | cons m members ih =>
    obtain ⟨key, j⟩ := m
    obtain ⟨hkey, hkeys⟩ := List.forall_mem_cons.mp hkeys
    obtain ⟨hj, hmembers⟩ := List.forall_mem_cons.mp h
    have hkey' : ∀ c ∈ key, Bytes.IsAscii c := fun c hc => (hkey c hc).2.1
    cases members with
    | nil =>
      rw [membersText]
      simp only [List.forall_mem_append, List.forall_mem_cons]
      exact ⟨by decide, hkey', by decide, by decide, hj⟩
    | cons m' members =>
      rw [membersText_cons_cons]
      simp only [List.forall_mem_append, List.forall_mem_cons]
      exact ⟨by decide, hkey', by decide, by decide, hj, by decide, ih hkeys hmembers⟩

/-- Every character of a text is one byte. -/
lemma Simple.isAscii_text (h : Simple j) : ∀ c ∈ j.text, Bytes.IsAscii c := by
  induction h with
  | null =>
    rw [text]
    exact Bytes.isAscii_of_all rfl
  | bool b => cases b <;> rw [text] <;> exact Bytes.isAscii_of_all rfl
  | number n =>
    intro c hc
    have hdigit := isAsciiDigit_of_mem_toDigits hc
    simp only [Text.isAsciiDigit, Bool.and_eq_true, decide_eq_true_eq] at hdigit
    exact Nat.lt_of_le_of_lt (UInt32.le_iff_toNat_le.mp hdigit.2) (by decide)
  | string h =>
    rw [text]
    simp only [List.forall_mem_append, List.forall_mem_cons]
    exact ⟨by decide, fun c hc => (h c hc).2.1, by decide, fun _ h => absurd h List.not_mem_nil⟩
  | array _ ih =>
    rw [text]
    simp only [List.forall_mem_append, List.forall_mem_cons]
    exact ⟨by decide, isAscii_itemsText ih, by decide, fun _ h => absurd h List.not_mem_nil⟩
  | object hkeys _ ih =>
    rw [text]
    simp only [List.forall_mem_append, List.forall_mem_cons]
    exact ⟨by decide, isAscii_membersText hkeys ih, by decide,
      fun _ h => absurd h List.not_mem_nil⟩

end ShiftReduce.Json
