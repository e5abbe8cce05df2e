import Dialogue.Text.Decimal
import Mathlib.Data.Int.ModEq
import Mathlib.Data.List.Induction

/-!
# Decimal texts of integers

A run of digits denotes its number modulo `2 ^ 32`, and a sign in front of it is kept under that
modulus. So the decimal text of a 32-bit integer is read back as that integer, whatever follows it
but a digit. The least integer needs no case of its own: its digits denote `2 ^ 31`, which wraps
around to the integer itself.
-/

namespace Dialogue.Text.Decimal

/-! ## Digits -/

theorem wrap_eq_ofNat (digits : List Char) :
    wrap digits = Int32.ofNat (Nat.ofDigitChars 10 digits 0) := by
  have hfold (n : Nat) : digits.foldl (fun n c ↦ n * 10 + Int32.ofNat (digitValue c))
      (Int32.ofNat n) = Int32.ofNat (Nat.ofDigitChars 10 digits n) := by
    induction digits generalizing n with
    | nil => rfl
    | cons c digits ih =>
        have hstep : Int32.ofNat n * 10 + Int32.ofNat (digitValue c) =
            Int32.ofNat (10 * n + digitValue c) := by
          rw [Int32.ofNat_add, Int32.ofNat_mul, Int32.mul_comm]
          rfl
        rw [List.foldl_cons, hstep, ih, Nat.ofDigitChars_cons]
        rfl
  exact hfold 0

theorem isDigit_of_mem_digits {n : Nat} {c : Char} (hc : c ∈ Nat.toDigits 10 n) : c.isDigit :=
  Nat.isDigit_of_mem_toDigits (by decide) (by decide) hc

/-- No zero stands in front of other digits. -/
theorem head?_digits_ne_zero {n : Nat} (h : 0 < n) : (Nat.toDigits 10 n).head? ≠ some '0' := by
  induction n using Nat.strongRecOn with
  | ind n ih =>
    by_cases hn : n < 10
    · have hchar : ∀ d < 10, 0 < d → Nat.digitChar d ≠ '0' := by decide
      rw [Nat.toDigits_of_lt_base hn, List.head?_cons]
      simpa using hchar n hn h
    · have hdiv : 0 < n / 10 := Nat.div_pos (Nat.le_of_not_lt hn) (by decide)
      have hhead := ih (n / 10) (Nat.div_lt_self h (by decide)) hdiv
      rw [Nat.toDigits_of_base_le (by decide) (Nat.le_of_not_lt hn)]
      cases hdigits : Nat.toDigits 10 (n / 10) with
      | nil => exact absurd hdigits Nat.toDigits_ne_nil
      | cons c digits => simpa [hdigits] using hhead

theorem takeWhile_digits_append (n : Nat) (r : List Char) :
    (Nat.toDigits 10 n ++ r).takeWhile Char.isDigit =
      Nat.toDigits 10 n ++ r.takeWhile Char.isDigit :=
  List.takeWhile_append_of_pos fun _ hc ↦ isDigit_of_mem_digits hc

/-! ## Numbers -/

theorem exists_digitChar {c : Char} (h : c.isDigit) : ∃ d < 10, c = Nat.digitChar d := by
  have hrange : 48 ≤ c.toNat ∧ c.toNat ≤ 57 := by
    simpa [Char.isDigit, UInt32.le_iff_toNat_le] using h
  have hchar : ∀ d < 10, Char.ofNat (48 + d) = Nat.digitChar d := by decide
  have hd : c.toNat - 48 < 10 := by omega
  refine ⟨c.toNat - 48, hd, ?_⟩
  rw [← hchar _ hd, Nat.add_sub_cancel' hrange.1, Char.ofNat_toNat]

theorem ofDigitChars_digitChar {d : Nat} (hd : d < 10) (n : Nat) :
    Nat.ofDigitChars 10 [Nat.digitChar d] n = 10 * n + d := by
  have hchar : ∀ d < 10, (Nat.digitChar d).toNat - '0'.toNat = d := by decide
  rw [Nat.ofDigitChars_cons, hchar d hd]
  rfl

theorem isDigit_of_mem_padded {zeros n : Nat} {c : Char}
    (hc : c ∈ List.replicate zeros '0' ++ Nat.toDigits 10 n) : c.isDigit := by
  rcases List.mem_append.mp hc with hc | hc
  · rw [List.eq_of_mem_replicate hc]
    rfl
  · exact isDigit_of_mem_digits hc

/-- A nonempty run of digits is the shortest one for its number, after some zeros. -/
theorem exists_zeros_of_digits {digits : List Char} (hne : digits ≠ [])
    (h : ∀ c ∈ digits, c.isDigit) :
    ∃ zeros, digits = List.replicate zeros '0' ++
      Nat.toDigits 10 (Nat.ofDigitChars 10 digits 0) := by
  induction digits using List.reverseRecOn with
  | nil => exact absurd rfl hne
  | append_singleton digits c ih =>
      obtain ⟨d, hd, rfl⟩ := exists_digitChar (h c (by simp))
      rw [Nat.ofDigitChars_append, ofDigitChars_digitChar hd]
      by_cases hdigits : digits = []
      · refine ⟨0, ?_⟩
        simp [hdigits, Nat.ofDigitChars, Nat.toDigits_of_lt_base hd]
      obtain ⟨zeros, hzeros⟩ := ih hdigits fun c hc ↦ h c (List.mem_append_left _ hc)
      generalize Nat.ofDigitChars 10 digits 0 = n at hzeros
      rw [hzeros]
      rcases Nat.eq_zero_or_pos n with rfl | hn
      · refine ⟨zeros + 1, ?_⟩
        simp [List.replicate_succ', Nat.toDigits_of_lt_base hd]
      · refine ⟨zeros, ?_⟩
        rw [List.append_assoc, ← Nat.toDigits_append_toDigits (by decide) hn hd,
          Nat.toDigits_of_lt_base hd]

/-- What runs of digits denote is bounded, and zeros in front make no difference. -/
theorem nat?_eq_some_iff {bound n : Nat} {digits : List Char} :
    nat? bound digits = some n ↔
      n < bound ∧ ∃ zeros, digits = List.replicate zeros '0' ++ Nat.toDigits 10 n := by
  constructor
  · intro h
    rw [nat?] at h
    split at h
    · cases h
    · next hdigits =>
        obtain ⟨hne, hall⟩ : digits ≠ [] ∧ ∀ c ∈ digits, c.isDigit := by
          simpa using hdigits
        dsimp only at h
        split at h
        · next hlt =>
            cases h
            exact ⟨hlt, exists_zeros_of_digits hne hall⟩
        · cases h
  · rintro ⟨hlt, zeros, rfl⟩
    have hne : List.replicate zeros '0' ++ Nat.toDigits 10 n ≠ [] :=
      List.append_ne_nil_of_right_ne_nil _ Nat.toDigits_ne_nil
    have hall : (List.replicate zeros '0' ++ Nat.toDigits 10 n).all Char.isDigit :=
      List.all_eq_true.mpr fun c hc ↦ isDigit_of_mem_padded hc
    have hvalue : Nat.ofDigitChars 10 (List.replicate zeros '0' ++ Nat.toDigits 10 n) 0 = n := by
      rw [Nat.ofDigitChars_append, Nat.ofDigitChars_replicate_zero, Nat.mul_zero,
        Nat.ofDigitChars_ten_toDigits]
    rw [nat?, if_neg (by simp [hne, hall]), hvalue]
    exact if_pos hlt

/-! ## Integers -/

/-- A minus sign for the negative integers, and the digits of the absolute value. -/
theorem toList_repr (v : Int) :
    v.repr.toList = (if v < 0 then ['-'] else []) ++ Nat.toDigits 10 v.natAbs := by
  rcases v with n | n
  · rw [if_neg (by simp)]
    exact Nat.toList_repr
  · rw [if_pos (Int.negSucc_lt_zero n)]
    have hrepr : (Int.negSucc n).repr = "-" ++ (n + 1).repr := rfl
    rw [hrepr, String.toList_append, Nat.toList_repr]
    rfl

theorem toList_ofInt (v : Int32) :
    (ofInt v).toList =
      (if v.toInt < 0 then ['-'] else []) ++ Nat.toDigits 10 v.toInt.natAbs :=
  toList_repr v.toInt

/-! ## The integer at the start of a text -/

/-- How a text is read as an integer: a sign if it starts with one, then digits as long as there are
any, and a rest that is not looked at. -/
structure Scan (text : String) (sign digits rest : List Char) : Prop where
  split : text.toList = sign ++ digits ++ rest
  sign_mem : sign = ['-'] ∨ sign = ['+'] ∨ sign = []
  no_sign : sign = [] → text.toList.head? ≠ some '-' ∧ text.toList.head? ≠ some '+'
  isDigit : ∀ c ∈ digits, c.isDigit
  not_isDigit : ∀ c ∈ rest.head?, ¬c.isDigit

/-- The number that digits denote after a sign, whatever its size. -/
def signedValue (sign digits : List Char) : Int :=
  if sign = ['-'] then -(Nat.ofDigitChars 10 digits 0 : Int) else Nat.ofDigitChars 10 digits 0

/-- After the sign the digits go as far as they can. -/
theorem scan_takeWhile {text : String} {sign s : List Char} (htext : text.toList = sign ++ s)
    (hsign : sign = ['-'] ∨ sign = ['+'] ∨ sign = [])
    (hnone : sign = [] → text.toList.head? ≠ some '-' ∧ text.toList.head? ≠ some '+') :
    Scan text sign (s.takeWhile Char.isDigit) (s.dropWhile Char.isDigit) where
  split := by rw [List.append_assoc, List.takeWhile_append_dropWhile, htext]
  sign_mem := hsign
  no_sign := hnone
  isDigit := List.all_eq_true.mp List.all_takeWhile
  not_isDigit c hc := by
    have hstop := List.head?_dropWhile_not Char.isDigit s
    rw [Option.mem_def.mp hc] at hstop
    simpa using hstop

theorem exists_scan (text : String) : ∃ sign digits rest, Scan text sign digits rest := by
  by_cases hminus : text.toList.head? = some '-'
  · obtain ⟨s, hs⟩ := List.head?_eq_some_iff.mp hminus
    exact ⟨['-'], _, _, scan_takeWhile hs (.inl rfl) nofun⟩
  by_cases hplus : text.toList.head? = some '+'
  · obtain ⟨s, hs⟩ := List.head?_eq_some_iff.mp hplus
    exact ⟨['+'], _, _, scan_takeWhile hs (.inr (.inl rfl)) nofun⟩
  · exact ⟨[], _, _, scan_takeWhile rfl (.inr (.inr rfl)) fun _ ↦ ⟨hminus, hplus⟩⟩

theorem takeWhile_digits_of_stop {digits rest : List Char} (hdigits : ∀ c ∈ digits, c.isDigit)
    (hrest : ∀ c ∈ rest.head?, ¬c.isDigit) : (digits ++ rest).takeWhile Char.isDigit = digits := by
  rw [List.takeWhile_append_of_pos hdigits]
  cases rest with
  | nil => simp
  | cons c rest => simp [hrest c rfl]

theorem Scan.leadingInt_eq {text : String} {sign digits rest : List Char}
    (h : Scan text sign digits rest) : leadingInt text = Int32.ofInt (signedValue sign digits) := by
  have hrun := takeWhile_digits_of_stop h.isDigit h.not_isDigit
  have htext := h.split
  rw [List.append_assoc] at htext
  rcases h.sign_mem with rfl | rfl | rfl
  · rw [leadingInt, htext, List.singleton_append]
    simp only [hrun]
    rw [signedValue, if_pos rfl, Int32.ofInt_neg, Int32.ofInt_eq_ofNat, wrap_eq_ofNat]
  · rw [leadingInt, htext, List.singleton_append]
    simp only [hrun]
    rw [signedValue, if_neg (by decide), Int32.ofInt_eq_ofNat, wrap_eq_ofNat]
  · obtain ⟨hminus, hplus⟩ := h.no_sign rfl
    rw [List.nil_append] at htext
    rw [leadingInt]
    split
    · next s hs => exact absurd (by rw [hs]; rfl) hminus
    · next s hs => exact absurd (by rw [hs]; rfl) hplus
    · rw [htext, hrun, signedValue, if_neg (by decide), Int32.ofInt_eq_ofNat, wrap_eq_ofNat]

/-- The digits of an integer are scanned up to what follows them. -/
theorem scan_ofInt_append (v : Int32) {u : String} (hu : ∀ c ∈ u.toList.head?, ¬c.isDigit) :
    Scan (ofInt v ++ u) (if v.toInt < 0 then ['-'] else []) (Nat.toDigits 10 v.toInt.natAbs)
      u.toList where
  split := by rw [String.toList_append, toList_ofInt]
  sign_mem := by split <;> simp
  no_sign hsign := by
    obtain ⟨d, digits, hdigits⟩ :=
      List.exists_cons_of_ne_nil (Nat.toDigits_ne_nil (n := v.toInt.natAbs) (b := 10))
    have hd : d.isDigit := isDigit_of_mem_digits (n := v.toInt.natAbs) (by simp [hdigits])
    have hhead : (ofInt v ++ u).toList.head? = some d := by
      rw [String.toList_append, toList_ofInt, hsign, hdigits]
      rfl
    rw [hhead]
    constructor
    · rintro ⟨⟩
      exact absurd hd (by decide)
    · rintro ⟨⟩
      exact absurd hd (by decide)
  isDigit _ := isDigit_of_mem_digits
  not_isDigit := hu

theorem signedValue_toInt (v : Int32) :
    signedValue (if v.toInt < 0 then ['-'] else []) (Nat.toDigits 10 v.toInt.natAbs) = v.toInt := by
  rw [signedValue, Nat.ofDigitChars_ten_toDigits]
  by_cases hv : v.toInt < 0
  · rw [if_pos hv, if_pos rfl]
    omega
  · rw [if_neg hv, if_neg (by decide)]
    omega

theorem leadingInt_ofInt_append (v : Int32) {u : String} (hu : ∀ c ∈ u.toList.head?, ¬c.isDigit) :
    leadingInt (ofInt v ++ u) = v := by
  rw [(scan_ofInt_append v hu).leadingInt_eq, signedValue_toInt, Int32.ofInt_toInt]

theorem leadingInt_ofInt (v : Int32) : leadingInt (ofInt v) = v := by
  simpa using leadingInt_ofInt_append v (u := "") (by simp)

theorem eq_ofInt_iff_modEq {v : Int32} {n : Int} :
    v = Int32.ofInt n ↔ v.toInt ≡ n [ZMOD 2 ^ 32] := by
  constructor
  · rintro rfl
    rw [Int32.toInt_ofInt]
    exact Int.bmod_emod
  · intro h
    have hbmod : v.toInt.bmod (2 ^ 32) = n.bmod (2 ^ 32) := by
      rw [← Int.emod_bmod, ← Int.emod_bmod n]
      exact congrArg (Int.bmod · (2 ^ 32)) h
    rw [← Int32.toInt_inj, Int32.toInt_ofInt]
    exact (Int32.toInt_bmod v).symm.trans hbmod

/-- Every text is scanned as a sign, digits and a rest, and what is read is the one 32-bit integer
that is congruent modulo `2 ^ 32` to the number of these digits, or to its negative after a minus
sign. So the decimal text of an integer is read as that integer, whatever follows it but a digit. -/
theorem leadingInt_modEq (text : String) :
    (∃ sign digits rest, Scan text sign digits rest) ∧
    (∀ sign digits rest, Scan text sign digits rest → ∀ v : Int32,
      v = leadingInt text ↔ v.toInt ≡ signedValue sign digits [ZMOD 2 ^ 32]) ∧
    ∀ (v : Int32) (u : String), (∀ c ∈ u.toList.head?, ¬c.isDigit) →
      leadingInt (ofInt v ++ u) = v := by
  refine ⟨exists_scan text, fun sign digits rest hscan v ↦ ?_, fun v u ↦ leadingInt_ofInt_append v⟩
  rw [hscan.leadingInt_eq]
  exact eq_ofInt_iff_modEq

/-- The number is `2 ^ 32 + 7`, and the second sign is no digit. -/
theorem leadingInt_modEq_wrapped :
    Scan "-4294967303+1" ['-'] "4294967303".toList "+1".toList ∧
    (∀ v : Int32, v = leadingInt "-4294967303+1" ↔ v.toInt ≡ -4294967303 [ZMOD 2 ^ 32]) ∧
    leadingInt (ofInt Int32.minValue ++ "+1") = Int32.minValue := by
  have hrest : ∀ c ∈ "+1".toList.head?, ¬c.isDigit := by
    intro c hc
    obtain rfl : '+' = c := Option.some.inj hc
    decide
  have hscan : Scan "-4294967303+1" ['-'] "4294967303".toList "+1".toList :=
    ⟨rfl, .inl rfl, nofun, List.all_eq_true.mp (by decide +kernel), hrest⟩
  have hvalue : signedValue ['-'] "4294967303".toList = -4294967303 := by decide +kernel
  obtain ⟨-, hread, hwrite⟩ := leadingInt_modEq "-4294967303+1"
  have hcongr := hread _ _ _ hscan
  rw [hvalue] at hcongr
  exact ⟨hscan, hcongr, hwrite Int32.minValue "+1" hrest⟩

end Dialogue.Text.Decimal
