import Dialogue.Json.Reader
import Dialogue.Json.Writer
import Dialogue.Proofs.Text.Decimal
import Dialogue.Proofs.Text.Enclosed

/-!
# Reading JSON that was written

The compact text of a value is read as that value. Every character of a string comes back, escaped
or not; a number ends at the mark after it; and members and items are read one by one, each up to
the comma or bracket that follows. The text is longer than its containers nest deep, so there is
always room for them.
-/

namespace Dialogue

theorem mapM_eq_some_map {α β : Type} {f : α → Option β} {g : α → β} {xs : List α}
    (h : ∀ x ∈ xs, f x = some (g x)) : xs.mapM f = some (xs.map g) := by
  induction xs with
  | nil => rfl
  | cons x xs ih =>
      obtain ⟨hx, hxs⟩ := List.forall_mem_cons.mp h
      rw [List.mapM_cons, hx, ih hxs]
      rfl

namespace Json

open Reader
open Text (isBlank skipBlanks_cons)
open Text.Decimal (splitDigits)

/-- Values whose numbers are whole and whose strings are texts. -/
inductive Plain : Json → Prop
  | object {members : List (String × Json)} : (∀ m ∈ members, Plain m.2) → Plain (.object members)
  | array {items : List Json} : (∀ v ∈ items, Plain v) → Plain (.array items)
  | string (text : String) : Plain (.string text)
  | int (v : Int) : Plain (.number v.repr)
  | bool (value : Bool) : Plain (.bool value)
  | null : Plain .null

/-! ## Strings -/

theorem value?_digit {n : Nat} (h : n < 16) : Text.Hex.value? (Text.Hex.digit n) = some n := by
  have hdigits : ∀ n < 16, Text.Hex.value? (Text.Hex.digit n) = some n := by decide
  exact hdigits n h

theorem hex4?_digits {n : Nat} (h : n < 256) :
    hex4? '0' '0' (Text.Hex.digit (n / 16)) (Text.Hex.digit (n % 16)) = some n := by
  have hzero : Text.Hex.value? '0' = some 0 := rfl
  have hhigh : n / 16 < 16 := by omega
  have hlow : n % 16 < 16 := by omega
  simp only [hex4?, hzero, value?_digit hhigh, value?_digit hlow]
  exact congrArg some (by omega)

theorem codePoints_escape (seen : List Nat) (c : Char) (s : List Char) :
    codePoints seen (escape c ++ s) = codePoints (c.toNat :: seen) s := by
  fun_cases escape c with
  | case8 c _ _ _ _ _ _ _ hlow =>
      have hhex := hex4?_digits (n := c.toNat) (by omega)
      simp [codePoints, hhex]
  | case9 c hquote hbackslash _ _ _ _ _ hhigh =>
      rw [List.singleton_append, codePoints.eq_4 _ _ _ hquote
        (fun _ _ _ _ _ h _ ↦ hbackslash h) (fun _ _ h _ ↦ hbackslash h), if_neg hhigh]
  | _ => simp [codePoints, unescape?]

theorem codePoints_flatMap_escape (seen : List Nat) (text r : List Char) :
    codePoints seen (text.flatMap escape ++ '"' :: r) =
      .ok (seen.reverse ++ text.map Char.toNat, r) := by
  induction text generalizing seen with
  | nil => simp [codePoints]
  | cons c text ih => simp [List.append_assoc, codePoints_escape, ih]

/-- No character is half of a surrogate pair. -/
theorem join?_map_toNat (text : List Char) : join? (text.map Char.toNat) = some text := by
  induction text with
  | nil => rfl
  | cons c text ih =>
      have hc : c.toNat < 0xD800 ∨ 0xE000 ≤ c.toNat := by
        rcases c.valid with h | h
        · exact .inl h
        · exact .inr (Nat.succ_le_of_lt h.1)
      rw [List.map_cons, join?.eq_def]
      dsimp only
      rw [if_neg (by omega), if_neg (by omega), ih, Char.ofNat_toNat, Option.map_some]

theorem string_quote (text : String) (r : List Char) :
    Reader.string (text.toList.flatMap escape ++ '"' :: r) = .ok (some text, r) := by
  rw [Reader.string, Text.Reader.as, codePoints_flatMap_escape]
  simp [join?_map_toNat]

theorem quote_append (text : String) (r : List Char) :
    quote text ++ r = '"' :: (text.toList.flatMap escape ++ '"' :: r) := by
  simp [quote]

/-! ## Numbers -/

/-- The text is over, or goes on with what may follow a value. -/
def Ended (r : List Char) : Prop := ∀ c ∈ r.head?, c ∈ [',', ']', '}']

theorem ended_cons {c : Char} (h : c ∈ [',', ']', '}']) (r : List Char) : Ended (c :: r) := by
  rintro d hd
  obtain rfl : c = d := by simpa using hd
  exact h

theorem digits?_append {taken digits r : List Char} (hne : digits ≠ [])
    (hdigits : ∀ c ∈ digits, c.isDigit) (hr : Ended r) :
    digits? taken (digits ++ r) = some (taken ++ digits, r) := by
  have hstop : r.takeWhile Char.isDigit = [] ∧ r.dropWhile Char.isDigit = r := by
    cases r with
    | nil => exact ⟨rfl, rfl⟩
    | cons c r =>
        have hc := hr c rfl
        simp only [List.mem_cons, List.not_mem_nil, or_false] at hc
        rcases hc with rfl | rfl | rfl <;> exact ⟨rfl, rfl⟩
  have hsplit : splitDigits (digits ++ r) = (digits, r) := by
    rw [splitDigits, List.takeWhile_append_of_pos hdigits, List.dropWhile_append_of_pos hdigits,
      hstop.1, hstop.2, List.append_nil]
  rw [digits?, hsplit]
  cases digits with
  | nil => exact absurd rfl hne
  | cons c digits => rfl

/-- The digits of a number are all of its whole part, also after a minus sign. -/
theorem whole?_repr (v : Int) {r : List Char} (hr : Ended r) :
    whole? (v.repr.toList ++ r) = some (v.repr.toList, r) := by
  rw [Text.Decimal.toList_repr]
  rcases Nat.eq_zero_or_pos v.natAbs with hzero | hpos
  · obtain rfl : v = 0 := by omega
    rfl
  · have hhead := Text.Decimal.head?_digits_ne_zero hpos
    cases hdigits : Nat.toDigits 10 v.natAbs with
    | nil => exact absurd hdigits Nat.toDigits_ne_nil
    | cons c digits =>
        have hall : ∀ d ∈ c :: digits, d.isDigit :=
          fun d hd ↦ Text.Decimal.isDigit_of_mem_digits (hdigits ▸ hd)
        have hzero : c ≠ '0' := by simpa [hdigits] using hhead
        have hminus : c ≠ '-' := by
          rintro rfl
          exact absurd (hall '-' List.mem_cons_self) (by decide)
        have hwhole (taken : List Char) : digits? taken ((c :: digits) ++ r) =
            some (taken ++ c :: digits, r) :=
          digits?_append (List.cons_ne_nil c digits) hall hr
        split
        · rw [List.singleton_append, List.cons_append, List.cons_append,
            whole?.eq_2 _ fun _ h ↦ hzero (List.cons.inj h).1]
          exact hwhole ['-']
        · rw [List.nil_append, List.cons_append,
            whole?.eq_4 _ (fun _ h ↦ hminus (List.cons.inj h).1)
              (fun _ h ↦ hminus (List.cons.inj h).1) (fun _ h ↦ hzero (List.cons.inj h).1)]
          exact hwhole []

theorem fraction?_of_ended {r : List Char} (hr : Ended r) (taken : List Char) :
    fraction? taken r = some (taken, r) := by
  refine fraction?.eq_2 _ _ ?_
  rintro s rfl
  simpa using hr '.' rfl

theorem exponent?_of_ended {r : List Char} (hr : Ended r) (taken : List Char) :
    exponent? taken r = some (taken, r) := by
  cases r with
  | nil => rfl
  | cons c r =>
      have hc : ¬(c = 'e' ∨ c = 'E') := by
        rintro (rfl | rfl) <;> simpa using hr _ rfl
      rw [exponent?.eq_def]
      exact if_neg hc

theorem number_repr (v : Int) {r : List Char} (hr : Ended r) :
    Reader.number (v.repr.toList ++ r) = .ok (.number v.repr, r) := by
  rw [Reader.number]
  simp [whole?_repr v hr, fraction?_of_ended hr, exponent?_of_ended hr]

/-! ## Scalars -/

theorem exists_repr_eq_cons (v : Int) :
    ∃ c s, v.repr.toList = c :: s ∧ (c = '-' ∨ c.isDigit) := by
  rw [Text.Decimal.toList_repr]
  split
  · exact ⟨'-', _, rfl, .inl rfl⟩
  · cases hdigits : Nat.toDigits 10 v.natAbs with
    | nil => exact absurd hdigits Nat.toDigits_ne_nil
    | cons c s =>
        exact ⟨c, s, rfl, .inr (Text.Decimal.isDigit_of_mem_digits (hdigits ▸ List.mem_cons_self))⟩

theorem ne_of_numeral {c d : Char} (hc : c = '-' ∨ c.isDigit)
    (hd : d ≠ '-' ∧ d.isDigit = false) : c ≠ d := by
  rintro rfl
  simp [hd] at hc

theorem isBlank_of_numeral {c : Char} (hc : c = '-' ∨ c.isDigit) : isBlank c = false := by
  rw [Bool.eq_false_iff]
  intro hblank
  have hblanks : ∀ d ∈ [' ', '\t', '\n', '\r'], d ≠ '-' ∧ d.isDigit = false := by simp
  exact ne_of_numeral hc (hblanks c (Text.isBlank_iff.mp hblank)) rfl

theorem scalar_repr (v : Int) {r : List Char} (hr : Ended r) :
    scalar (v.repr.toList ++ r) = .ok (.number v.repr, r) := by
  obtain ⟨c, s, hs, hc⟩ := exists_repr_eq_cons v
  have hne {d : Char} (hd : d ≠ '-' ∧ d.isDigit = false) (t : List Char) :
      v.repr.toList ++ r ≠ d :: t := by
    intro h
    rw [hs, List.cons_append] at h
    exact ne_of_numeral hc hd (List.cons.inj h).1
  rw [scalar.eq_5 _ (fun _ ↦ hne (by decide) _) (fun _ ↦ hne (by decide) _)
    (fun _ ↦ hne (by decide) _) (fun _ ↦ hne (by decide) _)]
  exact number_repr v hr

theorem scalar_quote (text : String) (r : List Char) :
    scalar (quote text ++ r) = .ok (.string text, r) := by
  rw [quote_append, scalar, Text.Reader.as, string_quote]
  rfl

/-! ## Containers -/

theorem renderMember_eq (m : String × Json) :
    renderMember m = quote m.1 ++ ':' :: m.2.render := by
  obtain ⟨name, value⟩ := m
  rfl

theorem renderMembers_eq (members : List (String × Json)) :
    renderMembers members = members.flatMap (fun m ↦ ',' :: renderMember m) ++ ['}'] := by
  induction members with
  | nil => rfl
  | cons m members ih => simp [renderMembers, ih]

theorem renderItems_eq (items : List Json) :
    renderItems items = items.flatMap (fun v ↦ ',' :: v.render) ++ [']'] := by
  induction items with
  | nil => rfl
  | cons v items ih => simp [renderItems, ih]

-- The definition of `render` itself is too large to rewrite with.
theorem render_object_cons (m : String × Json) (members : List (String × Json)) :
    (Json.object (m :: members)).render =
      '{' :: (renderMember m ++ (members.flatMap (fun m ↦ ',' :: renderMember m) ++ ['}'])) := by
  rw [← renderMembers_eq]
  rfl

theorem render_array_cons (v : Json) (items : List Json) :
    (Json.array (v :: items)).render =
      '[' :: (v.render ++ (items.flatMap (fun v ↦ ',' :: v.render) ++ [']'])) := by
  rw [← renderItems_eq]
  rfl

/-! Containers whose parts are texts joined with commas. -/

section Joined

variable {α β : Type} {write : α → String} {xs : List α}

theorem toList_intercalate_cons {f : α → β} {render : β → List Char} {x : α}
    (h : ∀ y ∈ x :: xs, (write y).toList = render (f y)) :
    (",".intercalate ((x :: xs).map write)).toList =
      render (f x) ++ (xs.map f).flatMap fun m ↦ ',' :: render m := by
  obtain ⟨hx, hxs⟩ := List.forall_mem_cons.mp h
  induction xs generalizing x with
  | nil => simp [hx]
  | cons y ys ih =>
      obtain ⟨hy, hys⟩ := List.forall_mem_cons.mp hxs
      rw [List.map_cons, List.map_cons, String.intercalate_cons_cons, ← List.map_cons,
        String.toList_append, String.toList_append, ih hxs hy hys, hx]
      simp

theorem render_object_map {f : α → String × Json}
    (h : ∀ x ∈ xs, (write x).toList = renderMember (f x)) :
    (Json.object (xs.map f)).render =
      '{' :: ((",".intercalate (xs.map write)).toList ++ ['}']) := by
  cases xs with
  | nil => rfl
  | cons x xs =>
      rw [toList_intercalate_cons h, List.map_cons, render_object_cons, List.append_assoc]

theorem render_array_map {f : α → Json} (h : ∀ x ∈ xs, (write x).toList = (f x).render) :
    (Json.array (xs.map f)).render = '[' :: ((",".intercalate (xs.map write)).toList ++ [']']) := by
  cases xs with
  | nil => rfl
  | cons x xs =>
      rw [toList_intercalate_cons h, List.map_cons, render_array_cons, List.append_assoc]

end Joined

/-- A value starts with no blank and with none of the brackets that close. -/
theorem exists_render_eq_cons {j : Json} (h : Plain j) :
    ∃ c s, j.render = c :: s ∧ isBlank c = false ∧ c ≠ ']' := by
  cases h with
  | @object members _ =>
      cases members with
      | nil => exact ⟨'{', _, rfl, rfl, by decide⟩
      | cons m members => exact ⟨'{', _, rfl, rfl, by decide⟩
  | @array items _ =>
      cases items with
      | nil => exact ⟨'[', _, rfl, rfl, by decide⟩
      | cons v items => exact ⟨'[', _, rfl, rfl, by decide⟩
  | string text => exact ⟨'"', _, rfl, rfl, by decide⟩
  | int v =>
      obtain ⟨c, s, hs, hc⟩ := exists_repr_eq_cons v
      exact ⟨c, s, hs, isBlank_of_numeral hc, ne_of_numeral hc (by decide)⟩
  | bool value => cases value <;> exact ⟨_, _, rfl, rfl, by decide⟩
  | null => exact ⟨_, _, rfl, rfl, by decide⟩

theorem value_eq_scalar {room : Nat} {c : Char} {s : List Char} (hblank : isBlank c = false)
    (hbrace : c ≠ '{') (hbracket : c ≠ '[') : value room (c :: s) = scalar (c :: s) := by
  cases room with
  | zero => rw [value, skipBlanks_cons hblank]
  | succ room =>
      rw [value, skipBlanks_cons hblank]
      split
      · next h => exact absurd (List.cons.inj h).1 hbrace
      · next h => exact absurd (List.cons.inj h).1 hbracket
      · rfl

theorem member_renderMember {room : Nat} {m : String × Json} {r : List Char}
    (h : value room (m.2.render ++ r) = .ok (m.2, r)) :
    member (value room) (renderMember m ++ r) = .ok ((some m.1, m.2), r) := by
  have hquote : isBlank '"' = false := rfl
  have hcolon : isBlank ':' = false := rfl
  rw [renderMember, List.append_assoc, quote_append, member, skipBlanks_cons hquote]
  simp [string_quote, skipBlanks_cons hcolon, Text.Reader.as, h]

theorem objectOf_map_some (members : List (String × Json)) :
    objectOf (members.map fun m ↦ (some m.1, m.2)) = .object members := by
  have hmembers : (members.map fun m ↦ (some m.1, m.2)).mapM
      (fun m ↦ m.1.map (·, m.2)) = some members := by
    have hread : ∀ m ∈ members, ((fun m : Option String × Json ↦ m.1.map (·, m.2)) ∘
        fun m ↦ (some m.1, m.2)) m = some m := fun _ _ ↦ rfl
    rw [List.mapM_map, mapM_eq_some_map hread, List.map_id']
  rw [objectOf, hmembers]

/-! ## Values -/

theorem value_of_scalar {j : Json} {room : Nat} {c : Char} {s r : List Char}
    (hs : j.render = c :: s) (hblank : isBlank c = false) (hbrace : c ≠ '{') (hbracket : c ≠ '[')
    (h : scalar (j.render ++ r) = .ok (j, r)) : value room (j.render ++ r) = .ok (j, r) := by
  rw [hs, List.cons_append] at h ⊢
  rw [value_eq_scalar hblank hbrace hbracket, h]

theorem value_brace (room : Nat) (s : List Char) :
    value (room + 1) ('{' :: s) =
      (Text.Reader.enclosed (member (value room)) '}' fun _ ↦ ()).as objectOf s := by
  have hblank : isBlank '{' = false := rfl
  rw [value, skipBlanks_cons hblank]
  rfl

theorem value_bracket (room : Nat) (s : List Char) :
    value (room + 1) ('[' :: s) =
      (Text.Reader.enclosed (value room) ']' fun _ ↦ ()).as .array s := by
  have hblank : isBlank '[' = false := rfl
  rw [value, skipBlanks_cons hblank]
  rfl

theorem value_object {members : List (String × Json)} {room : Nat}
    (h : ∀ m ∈ members, ∀ c ∈ [',', '}'], ∀ s,
      value room (m.2.render ++ c :: s) = .ok (m.2, c :: s)) (r : List Char) :
    value (room + 1) ((Json.object members).render ++ r) = .ok (.object members, r) := by
  have hbrace : isBlank '}' = false := rfl
  cases members with
  | nil =>
      have hempty : Text.skipBlanks ('}' :: r) = '}' :: r := skipBlanks_cons hbrace r
      change value (room + 1) ('{' :: '}' :: r) = _
      rw [value_brace, Text.Reader.as, Text.Reader.enclosed_empty hempty]
      rfl
  | cons m members =>
      have hmembers : ∀ n ∈ m :: members, ∀ c ∈ [',', '}'], ∀ s,
          member (value room) (renderMember n ++ c :: s) = .ok ((some n.1, n.2), c :: s) :=
        fun n hn c hc s ↦ member_renderMember (h n hn c hc s)
      have hstart : ∃ c s, renderMember m = c :: s ∧ isBlank c = false ∧ c ≠ '}' :=
        ⟨'"', _, (renderMember_eq m).trans (quote_append ..), rfl, by decide⟩
      have hread := Text.Reader.enclosed_marked (fun _ ↦ ()) hbrace (by decide) hmembers hstart r
      rw [render_object_cons, List.cons_append, List.append_assoc, List.append_assoc,
        List.singleton_append, value_brace, Text.Reader.as, hread]
      simp only [objectOf_map_some]

theorem value_array {items : List Json} {room : Nat} (hplain : ∀ v ∈ items, Plain v)
    (h : ∀ v ∈ items, ∀ c ∈ [',', ']'], ∀ s, value room (v.render ++ c :: s) = .ok (v, c :: s))
    (r : List Char) :
    value (room + 1) ((Json.array items).render ++ r) = .ok (.array items, r) := by
  have hbracket : isBlank ']' = false := rfl
  cases items with
  | nil =>
      have hempty : Text.skipBlanks (']' :: r) = ']' :: r := skipBlanks_cons hbracket r
      change value (room + 1) ('[' :: ']' :: r) = _
      rw [value_bracket, Text.Reader.as, Text.Reader.enclosed_empty hempty]
  | cons v items =>
      have hstart := exists_render_eq_cons (hplain v List.mem_cons_self)
      have hread := Text.Reader.enclosed_marked (fun _ ↦ ()) hbracket (by decide) h hstart r
      rw [render_array_cons, List.cons_append, List.append_assoc, List.append_assoc,
        List.singleton_append, value_bracket, Text.Reader.as, hread]
      simp

/-! What a container holds is shorter than its text by the two brackets at least. -/

theorem length_render_member_lt {members : List (String × Json)} {m : String × Json}
    (h : m ∈ members) : m.2.render.length + 2 ≤ (Json.object members).render.length := by
  cases members with
  | nil => cases h
  | cons n members =>
      have hlength := Text.Reader.length_le_marked renderMember h ['}']
      rw [render_object_cons]
      simp only [renderMember_eq m, List.length_append, List.length_cons,
        List.length_nil] at hlength ⊢
      omega

theorem length_render_item_lt {items : List Json} {v : Json} (h : v ∈ items) :
    v.render.length + 2 ≤ (Json.array items).render.length := by
  cases items with
  | nil => cases h
  | cons u items =>
      have hlength := Text.Reader.length_le_marked render h []
      rw [render_array_cons]
      simp only [List.length_append, List.length_cons, List.length_nil] at hlength ⊢
      omega

theorem value_render {j : Json} (h : Plain j) {room : Nat} {r : List Char}
    (hroom : j.render.length ≤ room) (hr : Ended r) : value room (j.render ++ r) = .ok (j, r) := by
  induction h generalizing room r with
  | @object members hplain ih =>
      cases room with
      | zero =>
          obtain ⟨c, s, hs, -⟩ := exists_render_eq_cons (.object hplain)
          simp [hs] at hroom
      | succ room =>
          refine value_object (fun m hm c hc s ↦ ih m hm ?_ (ended_cons ?_ s)) r
          · have hlength := length_render_member_lt hm
            omega
          · simp only [List.mem_cons, List.not_mem_nil, or_false] at hc ⊢
            exact hc.imp_right .inr
  | @array items hplain ih =>
      cases room with
      | zero =>
          obtain ⟨c, s, hs, -⟩ := exists_render_eq_cons (.array hplain)
          simp [hs] at hroom
      | succ room =>
          refine value_array hplain (fun v hv c hc s ↦ ih v hv ?_ (ended_cons ?_ s)) r
          · have hlength := length_render_item_lt hv
            omega
          · simp only [List.mem_cons, List.not_mem_nil, or_false] at hc ⊢
            exact hc.imp_right .inl
  | string text => exact value_of_scalar rfl rfl (by decide) (by decide) (scalar_quote text r)
  | int v =>
      obtain ⟨c, s, hs, hc⟩ := exists_repr_eq_cons v
      exact value_of_scalar hs (isBlank_of_numeral hc) (ne_of_numeral hc (by decide))
        (ne_of_numeral hc (by decide)) (scalar_repr v hr)
  | bool value =>
      cases value with
      | false => exact value_of_scalar rfl rfl (by decide) (by decide) (scalar.eq_3 r)
      | true => exact value_of_scalar rfl rfl (by decide) (by decide) (scalar.eq_2 r)
  | null => exact value_of_scalar rfl rfl (by decide) (by decide) (scalar.eq_4 r)

/-- What is written is read back as a whole. -/
theorem parse?_write {j : Json} (h : Plain j) : parse? j.write = some j := by
  have hread := value_render h (Nat.le_refl j.render.length) (r := []) (fun _ hc ↦ nomatch hc)
  rw [List.append_nil] at hread
  have hlength : j.write.length = j.render.length := String.length_ofList
  rw [parse?, hlength, write, String.toList_ofList, hread]
  rfl

end Json

end Dialogue
