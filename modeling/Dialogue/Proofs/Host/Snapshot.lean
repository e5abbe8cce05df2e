import Dialogue.Host
import Dialogue.Proofs.Host.Message

/-!
# Snapshots

The message about the current node is that node in full: read strictly it is the same node again,
whatever its texts hold. The readings that tell one part each agree with it, at any index, and are
neutral where the message is that there is no node.
-/

namespace Dialogue.Host

variable {e : Engine} {n : Node}

/-- The node that a message is about, if it is about one. -/
def toldNode? (message : String) : Option Node := (Json.parse? message).bind Node.ofJson?

theorem toldNode?_write (n : Node) : toldNode? n.toJson.write = some n := by
  rw [toldNode?, Json.parse?_write n.plain_toJson, Option.bind_some, Node.ofJson?_toJson]

theorem toldNode?_null : toldNode? "null" = none := by
  have hparse : Json.parse? Json.null.write = some .null := Json.parse?_write .null
  rw [toldNode?, ← show Json.null.write = "null" from rfl, hparse]
  rfl

/-! ## Part by part -/

/-- Every reading tells its part of a node. The greatest count stands for all greater ones. -/
structure Tells (e : Engine) (n : Node) : Prop where
  kind : kindName e = n.kind.name
  field : ∀ get, field e get = get n
  speaker : speaker e = n.speaker := field _
  text : text e = n.text := field _
  nextId : nextId e = n.next := field _
  background : background e = n.background := field _
  character : character e = n.character := field _
  expression : expression e = n.expression := field _
  music : music e = n.music := field _
  sound : sound e = n.sound := field _
  count : n.choices.length ≤ 0x7FFFFFFF → (choiceCount e).toInt = n.choices.length
  choice : ∀ (index : Int32) (c : Choice) (get : Choice → String), 0 ≤ index.toInt →
    n.choices[index.toInt.toNat]? = some c → choiceField e index get = get c
  choiceTexts : ∀ (index : Int32) (c : Choice), 0 ≤ index.toInt →
    n.choices[index.toInt.toNat]? = some c →
      choiceText e index = c.text ∧ choiceNext e index = c.next :=
    fun index c hindex hc ↦ ⟨choice index c _ hindex hc, choice index c _ hindex hc⟩
  noChoice : ∀ (index : Int32) (get : Choice → String),
    index.toInt < 0 ∨ n.choices.length ≤ index.toInt → choiceField e index get = ""
  noChoiceTexts : ∀ index : Int32, index.toInt < 0 ∨ n.choices.length ≤ index.toInt →
      choiceText e index = "" ∧ choiceNext e index = "" :=
    fun index hindex ↦ ⟨noChoice index _ hindex, noChoice index _ hindex⟩

/-- No reading tells anything. -/
structure Neutral (e : Engine) : Prop where
  kind : kindName e = "unknown"
  field : ∀ get, field e get = ""
  speaker : speaker e = "" := field _
  text : text e = "" := field _
  nextId : nextId e = "" := field _
  background : background e = "" := field _
  character : character e = "" := field _
  expression : expression e = "" := field _
  music : music e = "" := field _
  sound : sound e = "" := field _
  count : choiceCount e = 0
  choice : ∀ index get, choiceField e index get = ""
  choiceTexts : ∀ index, choiceText e index = "" ∧ choiceNext e index = "" :=
    fun index ↦ ⟨choice index _, choice index _⟩

theorem index_neg_iff {index : Int32} : index < 0 ↔ index.toInt < 0 := by
  rw [Int32.lt_iff_toInt_lt, Int32.toInt_zero]

theorem tells_of_currentNode? (h : e.currentNode? = some n) : Tells e n where
  kind := by rw [kindName, h]; rfl
  field get := by rw [field, h]; rfl
  count hlength := by
    rw [choiceCount, h]
    dsimp only
    rw [Nat.min_eq_left hlength, Int32.toInt_ofNat_of_lt (by omega)]
  choice index c get hindex hc := by
    rw [choiceField, if_neg (by rw [index_neg_iff]; omega), h, Option.bind_some, hc]
    rfl
  noChoice index get hindex := by
    rw [choiceField]
    split
    · rfl
    · next hneg =>
        rw [index_neg_iff] at hneg
        have hnone : n.choices[index.toInt.toNat]? = none := by
          rw [List.getElem?_eq_none_iff]
          omega
        rw [h, Option.bind_some, hnone]
        rfl

theorem neutral_of_currentNode? (h : e.currentNode? = none) : Neutral e where
  kind := by rw [kindName, h]; rfl
  field get := by rw [field, h]; rfl
  count := by rw [choiceCount, h]
  choice index get := by
    rw [choiceField, h]
    split <;> rfl

/-! ## As a whole -/

theorem toldNode?_nodeMessage (e : Engine) : toldNode? (nodeMessage e) = e.currentNode? := by
  rw [nodeMessage]
  cases e.currentNode? with
  | none => exact toldNode?_null
  | some n => exact toldNode?_write n

theorem nodeMessage_eq_null_iff : nodeMessage e = "null" ↔ e.currentNode? = none := by
  constructor
  · intro h
    rw [← toldNode?_nodeMessage, h, toldNode?_null]
  · intro h
    rw [nodeMessage, h]
    rfl

/-- The message about the current node is `null` exactly if there is none, and then every reading is
neutral. Otherwise it is read strictly as the current node, and every reading tells the part of what
was read that it is for. -/
theorem nodeMessage_faithful (e : Engine) :
    (nodeMessage e = "null" ↔ e.currentNode? = none) ∧
    (nodeMessage e = "null" → Neutral e) ∧
    (∀ n, e.currentNode? = some n → toldNode? (nodeMessage e) = some n) ∧
    ∀ n, toldNode? (nodeMessage e) = some n → Tells e n := by
  refine ⟨nodeMessage_eq_null_iff, ?_, ?_, ?_⟩
  · intro h
    exact neutral_of_currentNode? (nodeMessage_eq_null_iff.mp h)
  · intro n h
    rw [toldNode?_nodeMessage, h]
  · intro n h
    exact tells_of_currentNode? ((toldNode?_nodeMessage e).symm.trans h)

/-- Quotes, backslashes and control characters below and above those that are escaped. -/
theorem nodeMessage_faithful_awkward :
    let n : Node :=
      { id := "a\u2028\u007f", kind := .ending, text := "\"\\\u0001/\n", sound := "\u001f",
        choices := [{ text := "\\u0041", next := "\t" }, {}] }
    let e := ((Engine.new {}).init.install (.start n)).1
    toldNode? (nodeMessage e) = some n ∧ kindName e = "end" ∧ text e = "\"\\\u0001/\n" ∧
    sound e = "\u001f" ∧ (choiceCount e).toInt = 2 ∧ choiceText e 0 = "\\u0041" ∧
    choiceNext e 0 = "\t" ∧ choiceText e (-1) = "" ∧ choiceNext e 2 = "" ∧
    nodeMessage e.shutdown = "null" ∧ kindName e.shutdown = "unknown" ∧ text e.shutdown = "" := by
  intro n e
  have hnode : e.currentNode? = some n := by decide +kernel
  have hnone : e.shutdown.currentNode? = none := by decide +kernel
  obtain ⟨-, -, hread, htells⟩ := nodeMessage_faithful e
  have hn : Tells e n := htells n (hread n hnode)
  obtain ⟨hnull, hneutral, -, -⟩ := nodeMessage_faithful e.shutdown
  have hquiet : Neutral e.shutdown := hneutral (hnull.mpr hnone)
  obtain ⟨htext, hnext⟩ := hn.choiceTexts 0 _ (by decide) rfl
  exact ⟨hread n hnode, hn.kind, hn.text, hn.sound, hn.count (by decide), htext, hnext,
    (hn.noChoiceTexts (-1) (by decide)).1, (hn.noChoiceTexts 2 (by decide)).2, hnull.mpr hnone,
    hquiet.kind, hquiet.text⟩

end Dialogue.Host
