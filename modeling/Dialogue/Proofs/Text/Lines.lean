import Dialogue.Text.Lines
import Dialogue.Text.Space
import Mathlib.Data.List.Basic

/-!
# Lines of input

A text without line feeds is one line, whatever comes after its end: in UTF-8 no other character
holds the byte that ends lines. So a line that was ended stands in the input as it is, after the
lines before it and before the input of those after it. Trimming takes the white space around a text
off, and nothing of it.
-/

namespace Dialogue.Text

/-! ## Bytes -/

theorem toList_loop (bytes : ByteArray) (i : Nat) (seen : List UInt8) :
    ByteArray.toList.loop bytes i seen = seen.reverse ++ bytes.data.toList.drop i := by
  fun_induction ByteArray.toList.loop bytes i seen with
  | case1 i seen hi ih =>
      have hlength : i < bytes.data.toList.length := hi
      have hbyte : bytes.get! i = bytes.data.toList[i] := by
        simpa [ByteArray.get!] using getElem!_pos bytes.data i hi
      rw [ih, List.drop_eq_getElem_cons hlength, List.reverse_cons, List.append_assoc, hbyte]
      rfl
  | case2 i seen hi =>
      have hlength : bytes.data.toList.length ≤ i := Nat.le_of_not_lt hi
      rw [List.drop_of_length_le hlength, List.append_nil]

theorem toList_eq_data (bytes : ByteArray) : bytes.toList = bytes.data.toList :=
  toList_loop bytes 0 []

theorem toList_append_bytes (xs ys : ByteArray) : (xs ++ ys).toList = xs.toList ++ ys.toList := by
  rw [toList_eq_data, toList_eq_data, toList_eq_data, ByteArray.toList_data_append]

theorem toList_toUTF8 (s : String) : s.toUTF8.toList = s.toList.flatMap String.utf8EncodeChar := by
  rw [toList_eq_data, String.toUTF8_eq_toByteArray, ← String.utf8Encode_toList, List.utf8Encode,
    List.toList_data_toByteArray]

theorem fromUTF8?_toUTF8 (s : String) : String.fromUTF8? ⟨s.toUTF8.toList.toArray⟩ = some s := by
  have hbytes : (⟨s.toUTF8.toList.toArray⟩ : ByteArray) = s.toByteArray := by
    rw [toList_eq_data]
    rfl
  rw [hbytes, String.fromUTF8?, dif_pos s.isValidUTF8]
  rfl

/-- A character has its own byte, or bytes that are none of ASCII. -/
theorem mem_utf8EncodeChar {c : Char} {b : UInt8} (h : b ∈ String.utf8EncodeChar c) :
    b.toNat = c.toNat ∨ 128 ≤ b.toNat := by
  have hbyte {n : Nat} (hb : b = UInt8.ofNat n) (hn : n < 256) : b.toNat = n := by
    rw [hb, UInt8.toNat_ofNat']
    exact Nat.mod_eq_of_lt hn
  rw [String.utf8EncodeChar.eq_def] at h
  dsimp only at h
  split at h
  · next hascii =>
      exact .inl (hbyte (List.mem_singleton.mp h) (Nat.lt_of_le_of_lt hascii (by decide)))
  · right
    split at h
    · simp only [List.mem_cons, List.not_mem_nil, or_false] at h
      rcases h with h | h <;> rw [hbyte h (by omega)] <;> omega
    · split at h
      · simp only [List.mem_cons, List.not_mem_nil, or_false] at h
        rcases h with h | h | h <;> rw [hbyte h (by omega)] <;> omega
      · simp only [List.mem_cons, List.not_mem_nil, or_false] at h
        rcases h with h | h | h | h <;> rw [hbyte h (by omega)] <;> omega

/-- Only the line feed is written with the byte that ends lines. -/
theorem lineFeed_notMem_toUTF8 {s : String} (h : '\n' ∉ s.toList) : 10 ∉ s.toUTF8.toList := by
  rw [toList_toUTF8, List.mem_flatMap]
  rintro ⟨c, hc, hbyte⟩
  rcases mem_utf8EncodeChar hbyte with hc' | hhigh
  · obtain rfl : '\n' = c := Char.toNat_inj.mp hc'
    exact h hc
  · exact absurd hhigh (by decide)

/-! ## Lines -/

theorem splitLines_append {line : List UInt8} (h : 10 ∉ line) (seen rest : List UInt8) :
    splitLines seen (line ++ 10 :: rest) =
      (seen.reverse ++ line ++ [10]) :: splitLines [] rest := by
  induction line generalizing seen with
  | nil => simp [splitLines]
  | cons b line ih =>
      obtain ⟨hb, hline⟩ : b ≠ 10 ∧ 10 ∉ line := by simpa [eq_comm] using h
      rw [List.cons_append, splitLines, if_neg hb, ih hline]
      simp

theorem splitLines_of_last {seen line : List UInt8} (h : 10 ∉ line)
    (hne : seen.reverse ++ line ≠ []) : splitLines seen line = [seen.reverse ++ line] := by
  induction line generalizing seen with
  | nil =>
      cases seen with
      | nil => exact absurd rfl hne
      | cons b seen => rw [splitLines.eq_2 _ (List.cons_ne_nil b seen), List.append_nil]
  | cons b line ih =>
      obtain ⟨hb, hline⟩ : b ≠ 10 ∧ 10 ∉ line := by simpa [eq_comm] using h
      rw [splitLines, if_neg hb, ih hline (by simp)]
      simp

/-- A text without line feeds is read as one line, up to the line feed after it. -/
theorem lines_append {s : String} (h : '\n' ∉ s.toList) (rest : ByteArray) :
    lines ((s ++ "\n").toUTF8 ++ rest) = (s ++ "\n") :: lines rest := by
  have hbytes : (s ++ "\n").toUTF8.toList = s.toUTF8.toList ++ [10] := by
    rw [toList_toUTF8, toList_toUTF8, String.toList_append, List.flatMap_append]
    rfl
  have hsplit := splitLines_append (lineFeed_notMem_toUTF8 h) [] rest.toList
  rw [lines, toList_append_bytes, hbytes, List.append_assoc, List.singleton_append, hsplit,
    List.reverse_nil, List.nil_append, ← hbytes, readable, fromUTF8?_toUTF8]
  rfl

theorem lines_of_last {s : String} (h : '\n' ∉ s.toList) (hne : s ≠ "") :
    lines s.toUTF8 = [s] := by
  have hbytes : s.toUTF8.toList ≠ [] := by
    rw [toList_toUTF8, Ne, List.flatMap_eq_nil_iff]
    intro hnil
    obtain ⟨c, t, ht⟩ := List.exists_cons_of_ne_nil (mt String.toList_eq_nil_iff.mp hne)
    exact String.utf8EncodeChar_ne_nil (hnil c (ht ▸ List.mem_cons_self))
  have hsplit : splitLines [] s.toUTF8.toList = [s.toUTF8.toList] :=
    splitLines_of_last (lineFeed_notMem_toUTF8 h) hbytes
  rw [lines, hsplit, readable, fromUTF8?_toUTF8]
  rfl

/-- A text that ends with its only line feed. -/
def EndsLine (line : String) : Prop := ∃ s, line = s ++ "\n" ∧ '\n' ∉ s.toList

theorem toUTF8_join_cons (line : String) (typed : List String) :
    (String.join (line :: typed)).toUTF8 = line.toUTF8 ++ (String.join typed).toUTF8 := by
  rw [String.join_cons]
  exact String.toByteArray_append

theorem lines_join {typed : List String} (h : ∀ line ∈ typed, EndsLine line) (rest : ByteArray) :
    lines ((String.join typed).toUTF8 ++ rest) = typed ++ lines rest := by
  induction typed with
  | nil => simp
  | cons line typed ih =>
      obtain ⟨⟨s, rfl, hs⟩, htyped⟩ := List.forall_mem_cons.mp h
      rw [toUTF8_join_cons, ByteArray.append_assoc, lines_append hs, ih htyped]
      rfl

/-- Typed after whole lines a text is a line of its own, whether it is ended or the last one. -/
structure OneLine (s : String) : Prop where
  ended : ∀ typed : List String, (∀ line ∈ typed, EndsLine line) → ∀ rest : ByteArray,
    lines ((String.join typed).toUTF8 ++ ((s ++ "\n").toUTF8 ++ rest)) =
      typed ++ (s ++ "\n") :: lines rest
  last : ∀ typed : List String, (∀ line ∈ typed, EndsLine line) →
    lines ((String.join typed).toUTF8 ++ s.toUTF8) = typed ++ [s]

theorem oneLine_of_notMem {s : String} (h : '\n' ∉ s.toList) (hne : s ≠ "") : OneLine s where
  ended typed htyped rest := by rw [lines_join htyped, lines_append h]
  last typed htyped := by rw [lines_join htyped, lines_of_last h hne]

/-! ## Where lines come from -/

theorem toList_inj {xs ys : ByteArray} (h : xs.toList = ys.toList) : xs = ys := by
  rw [toList_eq_data, toList_eq_data] at h
  exact ByteArray.ext (Array.toList_inj.mp h)

theorem toList_mk (bytes : List UInt8) : ByteArray.toList ⟨bytes.toArray⟩ = bytes := by
  rw [toList_eq_data]

theorem toList_toUTF8_of_fromUTF8? {bytes : List UInt8} {text : String}
    (h : String.fromUTF8? ⟨bytes.toArray⟩ = some text) : text.toUTF8.toList = bytes := by
  rw [String.fromUTF8?] at h
  split at h
  · cases h
    exact toList_mk bytes
  · cases h

theorem lineFeed_mem_flatMap {s : List Char} (h : '\n' ∈ s) :
    10 ∈ s.flatMap String.utf8EncodeChar :=
  List.mem_flatMap.mpr ⟨'\n', h, by decide⟩

/-- The byte that ends lines is the line feed, and a character of its own. -/
theorem endsLine_of_toUTF8 {line : String} {s : List UInt8} (h : line.toUTF8.toList = s ++ [10])
    (hs : 10 ∉ s) : EndsLine line := by
  rw [toList_toUTF8] at h
  rcases List.eq_nil_or_concat' line.toList with hnil | ⟨cs, c, hline⟩
  · simp [hnil] at h
  rw [hline, List.flatMap_append, List.flatMap_singleton] at h
  -- The last byte of the line is the last one of its last character.
  have hlast := congrArg List.getLast? h
  rw [List.getLast?_append_of_ne_nil _ String.utf8EncodeChar_ne_nil, List.getLast?_concat] at hlast
  obtain rfl : '\n' = c := by
    rcases mem_utf8EncodeChar (List.mem_of_getLast? hlast) with hc | hhigh
    · exact Char.toNat_inj.mp hc
    · exact absurd hhigh (by decide)
  have hcs : cs.flatMap String.utf8EncodeChar = s := List.append_cancel_right h
  refine ⟨String.ofList cs, ?_, ?_⟩
  · apply String.toList_inj.mp
    rw [hline, String.toList_append, String.toList_ofList]
    rfl
  · rw [String.toList_ofList]
    intro hmem
    exact hs (hcs ▸ lineFeed_mem_flatMap hmem)

/-- The first line of an input is ended and more may follow it, or it is the last one. -/
theorem lines_cases {bytes : ByteArray} {line : String} {more : List String}
    (h : lines bytes = line :: more) :
    (EndsLine line ∧ ∃ rest, bytes = line.toUTF8 ++ rest ∧ lines rest = more) ∨
      '\n' ∉ line.toList ∧ more = [] := by
  by_cases hfeed : 10 ∈ bytes.toList
  · left
    obtain ⟨s, rest, hsplit, hs⟩ := List.eq_append_cons_of_mem hfeed
    have hlines : lines bytes = readable ((s ++ [10]) :: splitLines [] rest) := by
      rw [lines, hsplit, splitLines_append hs, List.reverse_nil, List.nil_append]
    rw [hlines, readable] at h
    split at h
    · next text htext =>
        cases h
        have hbytes := toList_toUTF8_of_fromUTF8? htext
        refine ⟨endsLine_of_toUTF8 hbytes hs, ⟨rest.toArray⟩, toList_inj ?_, ?_⟩
        · rw [toList_append_bytes, hbytes, toList_mk rest, hsplit]
          simp
        · rw [lines, toList_mk]
    · cases h
  · right
    have hne : bytes.toList ≠ [] := by
      intro hnil
      rw [lines, hnil] at h
      cases h
    have hlines : lines bytes = readable [bytes.toList] := by
      rw [lines, splitLines_of_last hfeed (by simpa using hne), List.reverse_nil, List.nil_append]
    rw [hlines, readable] at h
    split at h
    · next text htext =>
        cases h
        refine ⟨fun hmem ↦ hfeed ?_, rfl⟩
        rw [← toList_toUTF8_of_fromUTF8? htext, toList_toUTF8]
        exact lineFeed_mem_flatMap hmem
    · cases h

/-- An ended line stands in the input after the lines before it, and before those after it. -/
theorem exists_rest_of_lines {bytes : ByteArray} {before after : List String} {line : String}
    (h : lines bytes = before ++ line :: after) (hline : EndsLine line) :
    (∀ l ∈ before, EndsLine l) ∧
    ∃ rest, bytes = (String.join before).toUTF8 ++ (line.toUTF8 ++ rest) ∧
      lines rest = after := by
  induction before generalizing bytes with
  | nil =>
      rcases lines_cases h with ⟨-, rest, rfl, hrest⟩ | ⟨hfeed, -⟩
      · exact ⟨by simp, rest, by simp, hrest⟩
      · obtain ⟨s, rfl, -⟩ := hline
        simp at hfeed
  | cons l before ih =>
      rcases lines_cases h with ⟨hl, rest, rfl, hlines⟩ | ⟨-, hnone⟩
      · obtain ⟨hbefore, rest, rfl, hrest⟩ := ih hlines
        refine ⟨List.forall_mem_cons.mpr ⟨hl, hbefore⟩, rest, ?_, hrest⟩
        rw [toUTF8_join_cons, ByteArray.append_assoc]
      · simp at hnone

/-! ## White space -/

theorem trim_append {before s after : List Char} {first last : Char}
    (hbefore : ∀ c ∈ before, isSpace c) (hafter : ∀ c ∈ after, isSpace c)
    (hhead : s.head? = some first) (hfirst : isSpace first = false)
    (hend : s.getLast? = some last) (hlast : isSpace last = false) :
    trim (before ++ s ++ after) = s := by
  have hstart : (before ++ s ++ after).dropWhile isSpace = s ++ after := by
    rw [List.append_assoc, List.dropWhile_append_of_pos hbefore]
    obtain ⟨t, rfl⟩ := List.head?_eq_some_iff.mp hhead
    rw [List.cons_append, List.dropWhile_cons_of_neg (by simp [hfirst])]
  have hstop : (s ++ after).reverse.dropWhile isSpace = s.reverse := by
    rw [List.reverse_append, List.dropWhile_append_of_pos (by simpa using hafter)]
    rw [← List.head?_reverse] at hend
    obtain ⟨t, ht⟩ := List.head?_eq_some_iff.mp hend
    rw [ht, List.dropWhile_cons_of_neg (by simp [hlast])]
  rw [trim, hstart, hstop, List.reverse_reverse]

end Dialogue.Text
