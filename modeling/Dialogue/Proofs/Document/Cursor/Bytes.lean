import Dialogue.Document.Cursor
import Dialogue.Proofs.Document.Fault
import Dialogue.Proofs.Text.Lines
import Mathlib.Data.String.Basic

/-!
# The bytes of a text

A test on single bytes that only ASCII can pass is a test on characters: an ASCII character is its
own byte, and every other character starts with a byte that is none of ASCII.
-/

namespace Dialogue.Document.Cursor

/-! ## The byte at an offset -/

theorem length_utf8Encode (s : List Char) :
    (s.flatMap String.utf8EncodeChar).length = utf8Size s := by
  induction s with
  | nil => rfl
  | cons c s ih => simp [ih, String.length_utf8EncodeChar]

theorem toList_toByteArray (text : String) :
    text.toByteArray.toList = text.toList.flatMap String.utf8EncodeChar :=
  Text.toList_toUTF8 text

theorem getElem?_eq_toList (bytes : ByteArray) (i : Nat) : bytes[i]? = bytes.toList[i]? := by
  have hsize : bytes.size = bytes.toList.length := by rw [Text.toList_eq_data]; rfl
  by_cases hi : i < bytes.size
  · rw [getElem?_pos bytes i hi, getElem?_pos bytes.toList i (hsize ▸ hi)]
    simp [Text.toList_eq_data, ByteArray.getElem_eq_getElem_data]
  · rw [getElem?_neg bytes i hi, getElem?_neg bytes.toList i (hsize ▸ hi)]

theorem drop_toByteArray {text : String} {p r : List Char} (h : text.toList = p ++ r) :
    text.toByteArray.toList.drop (utf8Size p) = r.flatMap String.utf8EncodeChar := by
  rw [toList_toByteArray, h, List.flatMap_append, ← length_utf8Encode, List.drop_left]

/-- The byte that a text starts with. -/
def firstByte (r : List Char) : Option UInt8 := (r.flatMap String.utf8EncodeChar).head?

theorem getElem?_toByteArray {text : String} {p r : List Char} (h : text.toList = p ++ r) :
    text.toByteArray[utf8Size p]? = firstByte r := by
  rw [getElem?_eq_toList, firstByte, ← drop_toByteArray h, List.head?_drop]

/-! ## ASCII -/

theorem utf8Size_of_ascii {c : Char} (h : c.toNat < 128) : c.utf8Size = 1 :=
  Char.utf8Size_eq_one_iff.mpr (UInt32.le_iff_toNat_le.mpr (Nat.le_of_lt_succ h))

theorem utf8EncodeChar_of_ascii {c : Char} (h : c.toNat < 128) :
    String.utf8EncodeChar c = [byte c] :=
  String.utf8EncodeChar_eq_singleton (utf8Size_of_ascii h)

theorem toNat_byte {c : Char} (h : c.toNat < 128) : (byte c).toNat = c.toNat := by
  have hbyte : (byte c).toNat = c.toNat % 256 := UInt32.toNat_toUInt8 c.val
  rw [hbyte]
  exact Nat.mod_eq_of_lt (Nat.lt_trans h (by decide))

theorem byte_inj {c d : Char} (hc : c.toNat < 128) (hd : d.toNat < 128) (h : byte c = byte d) :
    c = d := by
  rw [← Char.toNat_inj, ← toNat_byte hc, ← toNat_byte hd, h]

theorem firstByte_of_ascii {c : Char} (h : c.toNat < 128) (r : List Char) :
    firstByte (c :: r) = some (byte c) := by
  rw [firstByte, List.flatMap_cons, utf8EncodeChar_of_ascii h]
  rfl

theorem firstByte_of_not_ascii {c : Char} (h : 128 ≤ c.toNat) (r : List Char) :
    ∃ b : UInt8, firstByte (c :: r) = some b ∧ 128 ≤ b.toNat := by
  obtain ⟨b, bs, hc⟩ := List.exists_cons_of_ne_nil (String.utf8EncodeChar_ne_nil (c := c))
  refine ⟨b, by rw [firstByte, List.flatMap_cons, hc]; rfl, ?_⟩
  rcases Text.mem_utf8EncodeChar (hc ▸ List.mem_cons_self : b ∈ String.utf8EncodeChar c) with
    hb | hb
  · exact hb ▸ h
  · exact hb

/-- A test on bytes and one on characters, which are the same where they can be passed. -/
structure Tells (p : UInt8 → Bool) (q : Char → Bool) : Prop where
  ascii : ∀ c : Char, c.toNat < 128 → p (byte c) = q c
  byte_lt : ∀ b, p b → b.toNat < 128
  char_lt : ∀ c, q c → c.toNat < 128

theorem Tells.any_firstByte {p : UInt8 → Bool} {q : Char → Bool} (h : Tells p q) (r : List Char) :
    (firstByte r).any p = r.head?.any q := by
  cases r with
  | nil => rfl
  | cons c r =>
      by_cases hc : c.toNat < 128
      · rw [firstByte_of_ascii hc]
        exact h.ascii c hc
      · obtain ⟨b, hb, hhigh⟩ := firstByte_of_not_ascii (Nat.le_of_not_lt hc) r
        have hp : p b = false := by
          rw [Bool.eq_false_iff]
          exact fun hp ↦ absurd (h.byte_lt b hp) (Nat.not_lt.mpr hhigh)
        have hq : q c = false := by
          rw [Bool.eq_false_iff]
          exact fun hq ↦ hc (h.char_lt c hq)
        rw [hb]
        exact hp.trans hq.symm

theorem tells_eq {d : Char} (hd : d.toNat < 128) : Tells (· = byte d) (· = d) where
  ascii c hc := by
    rw [decide_eq_decide]
    exact ⟨byte_inj hc hd, congrArg byte⟩
  byte_lt b hb := by
    rw [of_decide_eq_true hb, toNat_byte hd]
    exact hd
  char_lt c hc := of_decide_eq_true hc ▸ hd

theorem Tells.or {p p' : UInt8 → Bool} {q q' : Char → Bool} (h : Tells p q) (h' : Tells p' q') :
    Tells (fun b ↦ p b || p' b) (fun c ↦ q c || q' c) where
  ascii c hc := by rw [h.ascii c hc, h'.ascii c hc]
  byte_lt b hb := (Bool.or_eq_true_iff.mp hb).elim (h.byte_lt b) (h'.byte_lt b)
  char_lt c hc := (Bool.or_eq_true_iff.mp hc).elim (h.char_lt c) (h'.char_lt c)

theorem tells_isBlank : Tells isBlankByte Text.isBlank :=
  (((tells_eq (by decide)).or (tells_eq (by decide))).or (tells_eq (by decide))).or
    (tells_eq (by decide))

theorem isDigit_iff {c : Char} : c.isDigit ↔ 48 ≤ c.toNat ∧ c.toNat ≤ 57 := by
  simp [Char.isDigit, UInt32.le_iff_toNat_le]

theorem isDigitByte_iff {b : UInt8} : isDigitByte b ↔ 48 ≤ b.toNat ∧ b.toNat ≤ 57 := by
  rw [isDigitByte, Bool.and_eq_true, decide_eq_true_iff, decide_eq_true_iff,
    UInt8.le_iff_toNat_le, UInt8.le_iff_toNat_le]
  rfl

theorem tells_isDigit : Tells isDigitByte Char.isDigit where
  ascii c hc := by
    rw [Bool.eq_iff_iff, isDigitByte_iff, isDigit_iff, toNat_byte hc]
  byte_lt b hb := Nat.lt_of_le_of_lt (isDigitByte_iff.mp hb).2 (by decide)
  char_lt c hc := Nat.lt_of_le_of_lt (isDigit_iff.mp hc).2 (by decide)

theorem firstByte_eq_iff {d : Char} (hd : d.toNat < 128) (r : List Char) :
    firstByte r = some (byte d) ↔ r.head? = some d := by
  have h := (tells_eq hd).any_firstByte r
  rw [Bool.eq_iff_iff, Option.any_eq_true, Option.any_eq_true] at h
  simpa using h

/-- A word of ASCII starts the bytes of a text exactly if it starts the text. -/
theorem utf8Encode_prefix_iff {w : List Char} (hw : ∀ c ∈ w, c.toNat < 128) (r : List Char) :
    w.flatMap String.utf8EncodeChar <+: r.flatMap String.utf8EncodeChar ↔ w <+: r := by
  induction w generalizing r with
  | nil => simp
  | cons c w ih =>
      obtain ⟨hc, hw⟩ := List.forall_mem_cons.mp hw
      rw [List.flatMap_cons, utf8EncodeChar_of_ascii hc, List.singleton_append]
      cases r with
      | nil => simp
      | cons d r =>
          by_cases hd : c = d
          · subst hd
            rw [List.flatMap_cons, utf8EncodeChar_of_ascii hc, List.singleton_append,
              List.cons_prefix_cons, List.cons_prefix_cons, ih hw]
            simp
          · have hfirst : firstByte (d :: r) ≠ some (byte c) :=
              fun h ↦ hd (Option.some.inj ((firstByte_eq_iff hc _).mp h)).symm
            refine iff_of_false (fun h ↦ hfirst ?_) fun h ↦ ?_
            · obtain ⟨bs, hbs⟩ := h
              rw [firstByte, ← hbs]
              rfl
            · exact hd (List.cons_prefix_cons.mp h).1

/-! ## Slices -/

theorem utf8Len_eq (s : List Char) : String.utf8Len s = utf8Size s := by
  induction s with
  | nil => rfl
  | cons c s ih => rw [String.utf8Len_cons, ih, utf8Size_cons, Nat.add_comm]

theorem extract_eq {text : String} {p q r : List Char} (h : text.toList = p ++ (q ++ r)) :
    String.Pos.Raw.extract text ⟨utf8Size p⟩ ⟨utf8Size (p ++ q)⟩ = .ofList q := by
  have htext : text = .ofList (p ++ q ++ r) := by
    rw [List.append_assoc, ← h, String.ofList_toList]
  rw [htext, utf8Size_append, ← utf8Len_eq, ← utf8Len_eq]
  exact String.extract_of_valid p q r

theorem utf8ByteSize_eq (text : String) : text.utf8ByteSize = utf8Size text.toList := by
  rw [← utf8ByteSize_ofList, String.ofList_toList]

theorem isValid_utf8Size {text : String} {p r : List Char} (h : text.toList = p ++ r) :
    String.Pos.Raw.IsValid text ⟨utf8Size p⟩ := by
  refine String.Pos.Raw.isValid_iff_exists_append.mpr ⟨.ofList p, .ofList r, ?_, ?_⟩
  · rw [← String.ofList_append, ← h, String.ofList_toList]
  · exact String.Pos.Raw.ext (utf8ByteSize_ofList p).symm

end Dialogue.Document.Cursor
