import ShiftReduce.Text.Bytes
import Mathlib.Algebra.Group.Nat.Defs
import Mathlib.Data.List.Basic
/-!
# Text as bytes

A text is known by its bytes. A character of ASCII takes one byte, its number, so that a text of
such characters and its bytes are read from each other character by character.

A number is written in decimal digits and is known by them.
-/

namespace ShiftReduce

/-! ## Digits -/

lemma isDigit_of_mem_toString {n : Nat} {c : Char} (h : c ∈ (toString n).toList) :
    c.isDigit = true := by
  rw [Nat.toString_eq_ofList_toDigits, String.toList_ofList] at h
  exact Nat.isDigit_of_mem_toDigits (by decide) (Nat.le_refl _) h

lemma toNat_of_isDigit {c : Char} (h : c.isDigit = true) : 48 ≤ c.toNat ∧ c.toNat ≤ 57 := by
  rw [Char.isDigit, Bool.and_eq_true, decide_eq_true_eq, decide_eq_true_eq] at h
  exact ⟨UInt32.le_iff_toNat_le.mp h.1, UInt32.le_iff_toNat_le.mp h.2⟩

lemma toString_injective : Function.Injective (toString : Nat → String) := by
  intro m n h
  rw [Nat.toString_eq_ofList_toDigits, Nat.toString_eq_ofList_toDigits, String.ofList_inj] at h
  rw [← Nat.ofDigitChars_ten_toDigits (n := m), h, Nat.ofDigitChars_ten_toDigits]

end ShiftReduce

namespace ShiftReduce.Bytes

/-! ## Characters -/

/-- The character is one byte in UTF-8. -/
def IsAscii (c : Char) : Prop := c.toNat < 128

instance (c : Char) : Decidable (IsAscii c) := inferInstanceAs (Decidable (_ < _))

lemma isAscii_of_all {l : List Char} (h : (l.all fun c => decide (IsAscii c)) = true) :
    ∀ c ∈ l, IsAscii c := by
  simpa using h

lemma ofText_eq_flatMap (s : String) : ofText s = s.toList.flatMap String.utf8EncodeChar := by
  have h : s.toUTF8 = s.toList.utf8Encode := String.utf8Encode_toList.symm
  rw [ofText, h, List.utf8Encode]
  simp

lemma length_ofText (s : String) : (ofText s).length = s.utf8ByteSize := by
  rfl

lemma length_ofNat (width n : Nat) : (ofNat width n).length = width := by
  induction width generalizing n with
  | zero => rfl
  | succ width ih => rw [ofNat, List.length_cons, ih]

/-- The lowest bytes of a number write what they hold of it. -/
lemma toNat_ofNat (width n : Nat) : toNat (ofNat width n) = n % 256 ^ width := by
  induction width generalizing n with
  | zero => rw [ofNat, toNat, Nat.pow_zero, Nat.mod_one]
  | succ width ih =>
    have hbyte : (n % 256).toUInt8.toNat = n % 256 :=
      UInt8.toNat_ofNat_of_lt (Nat.mod_lt n (by decide))
    rw [ofNat, toNat, ih, hbyte, Nat.pow_succ', Nat.mod_mul]

lemma ofNat_toNat (b : Bytes) : ofNat b.length (toNat b) = b := by
  induction b with
  | nil => rfl
  | cons x b ih =>
    have hlow : (x.toNat + 256 * toNat b) % 256 = x.toNat := by
      rw [Nat.add_mul_mod_self_left, Nat.mod_eq_of_lt x.toNat_lt]
    have hhigh : (x.toNat + 256 * toNat b) / 256 = toNat b := by
      have := x.toNat_lt
      omega
    rw [List.length_cons, ofNat, toNat, hlow, hhigh, ih, Nat.toUInt8, UInt8.ofNat_toNat]

lemma toNat_lt (b : Bytes) : toNat b < 256 ^ b.length := by
  have h := toNat_ofNat b.length (toNat b)
  rw [ofNat_toNat] at h
  rw [h]
  exact Nat.mod_lt _ (Nat.pow_pos (by decide))

lemma text?_ofText (s : String) : text? (ofText s) = some s := by
  have hbytes : (⟨(ofText s).toArray⟩ : ByteArray) = s.toByteArray := rfl
  rw [text?, hbytes, String.fromUTF8?, dif_pos s.isValidUTF8]
  rfl

lemma ofText_injective : Function.Injective ofText := fun s t h =>
  Option.some.inj ((text?_ofText s).symm.trans ((congrArg text? h).trans (text?_ofText t)))

lemma utf8EncodeChar_of_isAscii {c : Char} (h : IsAscii c) :
    String.utf8EncodeChar c = [c.toUInt8] := by
  have hle : c.val ≤ 127 := UInt32.le_iff_toNat_le.mpr (Nat.le_of_lt_succ h)
  rw [String.utf8EncodeChar_eq_utf8EncodeCharFast, String.utf8EncodeCharFast, if_pos hle]
  rfl

lemma ofText_ofList {l : List Char} (h : ∀ c ∈ l, IsAscii c) :
    ofText (String.ofList l) = ofChars l := by
  rw [ofText_eq_flatMap, String.toList_ofList, ofChars]
  induction l with
  | nil => rfl
  | cons c l ih =>
    obtain ⟨hc, hl⟩ := List.forall_mem_cons.mp h
    rw [List.flatMap_cons, utf8EncodeChar_of_isAscii hc, ih hl]
    rfl

lemma toChars_ofChars {l : List Char} (h : ∀ c ∈ l, IsAscii c) : toChars (ofChars l) = l := by
  have hchar : ∀ c ∈ l, (Char.ofUInt8 ∘ Char.toUInt8) c = c := by
    intro c hc
    refine Char.ext (UInt32.toNat_inj.mp ?_)
    have hlt : c.val.toNat < 256 := Nat.lt_trans (h c hc) (by decide)
    show c.val.toUInt8.toUInt32.toNat = c.val.toNat
    rw [UInt8.toNat_toUInt32, UInt32.toNat_toUInt8, Nat.mod_eq_of_lt hlt]
  rw [toChars, ofChars, List.map_map]
  exact (List.map_congr_left hchar).trans (List.map_id l)

end ShiftReduce.Bytes
